import Prova.Indexers.TxIndex

/-!
# The levels of an address (`blockchain/indexers/addrindex.go`)

The entries of an address are kept in levels. New entries go to level 0; a full level moves up to the
next one, which holds twice as many. Taking entries off again has to leave no gap between the levels,
and every level above the first half full or full.

A level is the list of its entries here, where the source has the bytes of them, and levels are
counted in `Nat`: level 256 is never reached. The loops of the source walk over the levels of the
bucket; here they walk over the list of levels.
-/

namespace Prova

open List

variable {data : List E} {level : Nat}

namespace Indexers

/-- The levels of an address, level 0 first. A level that is not in the bucket is empty. -/
abbrev Levels (E : Type) := List (List E)

def level0MaxEntries : Nat := 8

def maxEntriesForLevel : Nat → Nat
  | 0 => level0MaxEntries
  | level + 1 => maxEntriesForLevel level * 2

def minEntriesToReachLevel : Nat → Nat
  | 0 => 1
  | level + 1 => minEntriesToReachLevel level + maxEntriesForLevel level

variable {E : Type}

/-- The entries of an address as `dbFetchAddrIndexEntries` puts them together: higher levels have older
entries, and the first level that is not there ends the search. -/
def fetchLevels : Levels E → List E
  | [] => []
  | data :: rest => if data.isEmpty then [] else fetchLevels rest ++ data

/-! ### Adding an entry -/

/-- The loop of `dbPutAddrIndexEntry` from a level on, with the data of the full level below. A level
that is full takes that data, and its own moves on. -/
def mergeUp : Nat → List E → Levels E → Levels E
  | _, prevLevelData, [] => [prevLevelData]
  | maxEntries, prevLevelData, data :: rest =>
    if data.length = maxEntries then prevLevelData :: mergeUp (maxEntries * 2) data rest
    else (data ++ prevLevelData) :: rest

/-- `dbPutAddrIndexEntry`. -/
def putAddrIndexEntry (levels : Levels E) (entry : E) : Levels E :=
  match levels with
  | [] => [[entry]]
  | data :: rest =>
    if data.length + 1 ≤ level0MaxEntries then (data ++ [entry]) :: rest
    else [entry] :: mergeUp (level0MaxEntries * 2) data rest

/-! ### Removing entries -/

/-- The first loop of `dbRemoveAddrIndexEntries`, which drops the newest entries: the highest level it
has loaded, what is left of that level, and the levels above. -/
def dropNewest : Nat → Nat → Levels E → Except IndexError (Nat × List E × Levels E)
  | _, _, [] => .error .assertError
  | level, numRemaining, data :: rest =>
    if data.isEmpty then .error .assertError
    else if data.length < numRemaining then
      dropNewest (level + 1) (numRemaining - data.length) rest
    else .ok (level, data.take (data.length - numRemaining), rest)

/-- The second loop, which spreads what is left of the highest loaded level over it and the levels
below, together with the lowest empty level. -/
def spread : Nat → List E → Nat → Levels E × Nat
  | 0, data, lowestEmptyLevel => ([data], if data.isEmpty then 0 else lowestEmptyLevel)
  | level + 1, data, lowestEmptyLevel =>
    let curLevelMaxEntries := maxEntriesForLevel (level + 1)
    let prevLevelMaxEntries := curLevelMaxEntries / 2
    let minPrevRequired := minEntriesToReachLevel level
    if data.length < prevLevelMaxEntries + minPrevRequired then
      let below := spread level data (level + 1)
      (below.1 ++ [[]], below.2)
    else
      let offset :=
        if curLevelMaxEntries + minPrevRequired ≤ data.length then curLevelMaxEntries
        else prevLevelMaxEntries
      let below := spread level (data.drop offset) lowestEmptyLevel
      (below.1 ++ [data.take offset], below.2)

/-- The inner part of the third loop: the data of a full level, `k` above the lowest empty one, is
halved until the lowest empty level is filled. -/
def halve (lowestEmptyLevel : Nat) : Nat → List E → Levels E
  | 0, data => [data]
  | k + 1, data =>
    let offset := maxEntriesForLevel (lowestEmptyLevel + k + 1) / 2
    halve lowestEmptyLevel k (data.drop offset) ++ [data.take offset]

/-- The third loop, while the highest loaded level is empty: the next level moves down, if it is half
full, and fills the empty levels. `below` are the levels up to the highest loaded one. -/
def backfill : Nat → Nat → Levels E → Levels E → Levels E
  | _, _, below, [] => below
  | highestLoadedLevel, lowestEmptyLevel, below, data :: rest =>
    let filled := below.take lowestEmptyLevel
    if data.isEmpty then below ++ data :: rest
    else if data.length ≠ maxEntriesForLevel (highestLoadedLevel + 1) then
      let moved := halve lowestEmptyLevel (highestLoadedLevel - lowestEmptyLevel) data
      backfill (highestLoadedLevel + 1) (highestLoadedLevel + 1) (filled ++ moved ++ [[]]) rest
    else filled ++ halve lowestEmptyLevel (highestLoadedLevel + 1 - lowestEmptyLevel) data ++ rest

/-- `dbRemoveAddrIndexEntries`. -/
def removeAddrIndexEntries (levels : Levels E) (count : Nat) : Except IndexError (Levels E) :=
  if count = 0 then .ok levels
  else
    match dropNewest 0 count levels with
    | .error e => .error e
    | .ok (highestLoadedLevel, data, rest) =>
      -- something is left of level 0
      if highestLoadedLevel = 0 ∧ ¬ data.isEmpty then .ok (data :: rest)
      else
        let (below, lowestEmptyLevel) := spread highestLoadedLevel data 255
        if (below.getLastD []).isEmpty then
          .ok (backfill highestLoadedLevel lowestEmptyLevel below rest)
        else .ok (below ++ rest)

/-! ### Well-formed levels -/

/-- What a level holds that is in use: one entry to eight at level 0, and above it half or all of what
fits. -/
def LevelFits : Nat → List E → Prop
  | 0, data => 0 < data.length ∧ data.length ≤ level0MaxEntries
  | level + 1, data =>
    data.length = maxEntriesForLevel level ∨ data.length = maxEntriesForLevel (level + 1)

def Filled : Nat → Levels E → Prop
  | _, [] => True
  | level, data :: rest => LevelFits level data ∧ Filled (level + 1) rest

def Layout (level : Nat) (levels : Levels E) : Prop :=
  ∃ filled k, levels = filled ++ List.replicate k [] ∧ Filled level filled

theorem maxEntriesForLevel_pos (level : Nat) : 0 < maxEntriesForLevel level := by
  induction level with
  | zero => decide
  | succ level ih =>
    unfold maxEntriesForLevel
    omega

theorem maxEntriesForLevel_succ (level : Nat) : maxEntriesForLevel (level + 1) = maxEntriesForLevel level * 2 := rfl

theorem minEntriesToReachLevel_succ (level : Nat) :
    minEntriesToReachLevel (level + 1) = minEntriesToReachLevel level + maxEntriesForLevel level := rfl

theorem minEntriesToReachLevel_add (level : Nat) : minEntriesToReachLevel level + 7 = maxEntriesForLevel level := by
  induction level with
  | zero => rfl
  | succ level ih =>
    rw [minEntriesToReachLevel_succ, maxEntriesForLevel_succ]
    omega

theorem LevelFits.ne_nil (h : LevelFits level data) : data ≠ [] := by
  rw [← length_pos_iff]
  cases level with
  | zero => exact h.1
  | succ level =>
    have hlow := maxEntriesForLevel_pos level
    have hhigh := maxEntriesForLevel_pos (level + 1)
    rcases h with h | h <;> omega

theorem LevelFits.length_le (h : LevelFits level data) : data.length ≤ maxEntriesForLevel level := by
  cases level with
  | zero => exact h.2
  | succ level =>
    rw [maxEntriesForLevel_succ]
    rcases h with h | h
    · omega
    · rw [h, maxEntriesForLevel_succ]

theorem levelFits_full (h : data.length = maxEntriesForLevel level) : LevelFits level data := by
  cases level with
  | zero =>
    refine ⟨?_, h.le⟩
    rw [h]
    decide
  | succ level => exact .inr h

theorem filled_append {a b : Levels E} : Filled level (a ++ b) ↔ Filled level a ∧ Filled (level + a.length) b := by
  induction a generalizing level with
  | nil => simp [Filled]
  | cons data a ih =>
    rw [cons_append, Filled, Filled, ih, length_cons, and_assoc, Nat.add_right_comm, Nat.add_assoc]

theorem Filled.getLastD_ne_nil {levels : Levels E} (h : Filled level levels) (hsome : levels ≠ []) :
    levels.getLastD [] ≠ [] := by
  obtain ⟨init, last, rfl⟩ := (eq_nil_or_concat' levels).resolve_left hsome
  rw [getLastD_concat]
  exact (filled_append.mp h).2.1.ne_nil

theorem Filled.layout {filled : Levels E} (h : Filled level filled) (k : Nat) :
    Layout level (filled ++ List.replicate k []) := ⟨filled, k, rfl, h⟩

theorem Layout.append {a b : Levels E} (ha : Filled level a) (hb : Layout (level + a.length) b) :
    Layout level (a ++ b) := by
  obtain ⟨filled, k, rfl, hfilled⟩ := hb
  rw [← append_assoc]
  exact (filled_append.mpr ⟨ha, hfilled⟩).layout k

theorem Layout.cons {level : Nat} {data : List E} {rest : Levels E} (h : Layout level (data :: rest)) :
    (LevelFits level data ∧ Layout (level + 1) rest) ∨ ∃ k, data = [] ∧ rest = List.replicate k [] := by
  obtain ⟨filled, k, heq, hfilled⟩ := h
  cases filled with
  | nil =>
    cases k with
    | zero => cases heq
    | succ k =>
      cases heq
      exact .inr ⟨k, rfl, rfl⟩
  | cons first filled =>
    cases heq
    exact .inl ⟨hfilled.1, hfilled.2.layout k⟩

theorem layout_replicate (level k : Nat) : Layout level (List.replicate k ([] : List E)) :=
  ⟨[], k, rfl, trivial⟩

theorem fetchLevels_cons {level : Nat} {data : List E} (h : LevelFits level data) (rest : Levels E) :
    fetchLevels (data :: rest) = fetchLevels rest ++ data := by
  rw [fetchLevels, if_neg]
  simp [h.ne_nil]

theorem fetchLevels_replicate (k : Nat) : fetchLevels (List.replicate k ([] : List E)) = [] := by
  cases k <;> rfl

theorem fetchLevels_append {a : Levels E} (h : Filled level a) (b : Levels E) :
    fetchLevels (a ++ b) = fetchLevels b ++ fetchLevels a := by
  induction a generalizing level with
  | nil => simp [fetchLevels]
  | cons data a ih =>
    rw [cons_append, fetchLevels_cons h.1, fetchLevels_cons h.1, ih h.2, append_assoc]

/-! ### What adding does -/

theorem mergeUp_spec {prevLevelData : List E} {levels : Levels E} (h : Layout (level + 1) levels)
    (hprev : prevLevelData.length = maxEntriesForLevel level) :
    Layout (level + 1) (mergeUp (maxEntriesForLevel (level + 1)) prevLevelData levels) ∧
      fetchLevels (mergeUp (maxEntriesForLevel (level + 1)) prevLevelData levels) =
        fetchLevels levels ++ prevLevelData := by
  have hfits : LevelFits (level + 1) prevLevelData := .inl hprev
  induction levels generalizing level prevLevelData with
  | nil => exact ⟨⟨[prevLevelData], 0, rfl, hfits, trivial⟩, fetchLevels_cons hfits []⟩
  | cons data rest ih =>
    unfold mergeUp
    rcases h.cons with ⟨hdata, hrest⟩ | ⟨k, rfl, rfl⟩
    · split
      · -- the level is full: its data moves on
        next hfull =>
        obtain ⟨hlayout, hfetch⟩ := ih hrest hfull (.inl hfull)
        refine ⟨Layout.append (a := [prevLevelData]) ⟨hfits, trivial⟩ hlayout, ?_⟩
        rw [fetchLevels_cons hfits, fetchLevels_cons hdata]
        exact congrArg (· ++ prevLevelData) hfetch
      · next hfull =>
        have hmerged : LevelFits (level + 1) (data ++ prevLevelData) := by
          refine levelFits_full ?_
          rw [length_append, hdata.resolve_right hfull, hprev, maxEntriesForLevel_succ]
          omega
        refine ⟨Layout.append (a := [data ++ prevLevelData]) ⟨hmerged, trivial⟩ hrest, ?_⟩
        rw [fetchLevels_cons hmerged, fetchLevels_cons hdata, append_assoc]
    · rw [length_nil, if_neg (maxEntriesForLevel_pos _).ne]
      refine ⟨Layout.append (a := [prevLevelData]) ⟨hfits, trivial⟩ (layout_replicate _ k), ?_⟩
      rw [nil_append, fetchLevels_cons hfits, fetchLevels_replicate]
      rfl

theorem putAddrIndexEntry_spec {levels : Levels E} (h : Layout 0 levels) (entry : E) :
    Layout 0 (putAddrIndexEntry levels entry) ∧
      fetchLevels (putAddrIndexEntry levels entry) = fetchLevels levels ++ [entry] := by
  have hone : LevelFits 0 [entry] := ⟨Nat.one_pos, Nat.le_add_left 1 7⟩
  cases levels with
  | nil => exact ⟨⟨[[entry]], 0, rfl, hone, trivial⟩, rfl⟩
  | cons data rest =>
    unfold putAddrIndexEntry
    rcases h.cons with ⟨hdata, hrest⟩ | ⟨k, rfl, rfl⟩
    · simp only
      split
      · next hroom =>
        have hmore : LevelFits 0 (data ++ [entry]) := by
          refine ⟨?_, ?_⟩
          · rw [length_append]
            exact Nat.succ_pos _
          · rw [length_append]
            exact hroom
        refine ⟨Layout.append (a := [data ++ [entry]]) ⟨hmore, trivial⟩ hrest, ?_⟩
        rw [fetchLevels_cons hmore, fetchLevels_cons hdata, append_assoc]
      · next hroom =>
        have hfull : data.length = maxEntriesForLevel 0 := by
          have hle := hdata.2
          unfold level0MaxEntries at hle hroom
          change data.length = 8
          omega
        obtain ⟨hlayout, hfetch⟩ := mergeUp_spec hrest hfull
        refine ⟨Layout.append (a := [[entry]]) ⟨hone, trivial⟩ hlayout, ?_⟩
        rw [fetchLevels_cons hone, fetchLevels_cons hdata]
        exact congrArg (· ++ [entry]) hfetch
    · refine ⟨Layout.append (a := [[entry]]) ⟨hone, trivial⟩ (layout_replicate _ k), ?_⟩
      change fetchLevels ([entry] :: List.replicate k []) = _
      rw [fetchLevels_cons hone, fetchLevels_replicate]
      rfl

/-! ### What removing does -/

theorem dropNewest_spec {levels : Levels E} {n : Nat} (h : Layout level levels) (hpos : 0 < n)
    (hle : n ≤ (fetchLevels levels).length) :
    ∃ highest data rest, dropNewest level n levels = .ok (highest, data, rest) ∧
      Layout (highest + 1) rest ∧ data.length < maxEntriesForLevel highest ∧
      fetchLevels rest ++ data = (fetchLevels levels).take ((fetchLevels levels).length - n) := by
  induction levels generalizing level n with
  | nil => exact absurd (hpos.trans_le hle) (Nat.lt_irrefl 0)
  | cons data rest ih =>
    rcases h.cons with ⟨hdata, hrest⟩ | ⟨k, rfl, rfl⟩
    · rw [fetchLevels_cons hdata] at hle ⊢
      rw [length_append] at hle ⊢
      unfold dropNewest
      rw [if_neg (by simp [hdata.ne_nil])]
      split
      · next hmore =>
        obtain ⟨highest, left, above, hrun, hlayout, hlen, hfetch⟩ :=
          ih hrest (Nat.sub_pos_of_lt hmore) (by omega)
        refine ⟨highest, left, above, hrun, hlayout, hlen, ?_⟩
        rw [hfetch, take_append_of_le_length (by omega)]
        congr 1
        omega
      · next hmore =>
        refine ⟨level, _, rest, rfl, hrest, ?_, ?_⟩
        · have hmax := hdata.length_le
          rw [length_take]
          omega
        · rw [Nat.add_sub_assoc (Nat.not_lt.mp hmore), take_length_add_append]
    · exact absurd (hpos.trans_le hle) (Nat.lt_irrefl 0)

theorem spread_full (lowest : Nat) (hmin : minEntriesToReachLevel level ≤ data.length)
    (hmax : data.length + 8 ≤ maxEntriesForLevel (level + 1)) :
    (spread level data lowest).2 = lowest ∧ Filled 0 (spread level data lowest).1 ∧
      (spread level data lowest).1.length = level + 1 ∧ fetchLevels (spread level data lowest).1 = data := by
  induction level generalizing data with
  | zero =>
    have hfits : LevelFits 0 data := by
      have hcap : data.length + 8 ≤ 16 := hmax
      exact ⟨hmin, Nat.le_of_add_le_add_right hcap⟩
    refine ⟨if_neg ?_, ⟨hfits, trivial⟩, rfl, fetchLevels_cons hfits []⟩
    simp [hfits.ne_nil]
  | succ level ih =>
    have hreach := minEntriesToReachLevel_add level
    rw [minEntriesToReachLevel_succ] at hmin
    rw [maxEntriesForLevel_succ, maxEntriesForLevel_succ] at hmax
    have hhalf : maxEntriesForLevel (level + 1) / 2 = maxEntriesForLevel level :=
      Nat.mul_div_cancel _ Nat.two_pos
    unfold spread
    simp only [hhalf]
    rw [if_neg (by omega)]
    -- what stays in the level, and that enough goes to those below
    generalize hoff : (if maxEntriesForLevel (level + 1) + minEntriesToReachLevel level ≤ data.length then
      maxEntriesForLevel (level + 1) else maxEntriesForLevel level) = offset
    have hoffset : (offset = maxEntriesForLevel level ∨ offset = maxEntriesForLevel (level + 1)) ∧
        minEntriesToReachLevel level + offset ≤ data.length ∧
        data.length + 8 ≤ maxEntriesForLevel (level + 1) + offset := by
      rw [maxEntriesForLevel_succ] at hoff ⊢
      split_ifs at hoff <;> omega
    obtain ⟨hsize, hleft, hcap⟩ := hoffset
    have hdrop : (data.drop offset).length = data.length - offset := length_drop ..
    obtain ⟨hlow, hfilled, hlength, hfetch⟩ :=
      @ih (data.drop offset) (by rw [hdrop]; omega) (by rw [hdrop]; omega)
    have htake : (data.take offset).length = offset := by
      rw [length_take]
      omega
    have hfits : LevelFits (level + 1) (data.take offset) := by
      rw [← htake] at hsize
      exact hsize
    refine ⟨hlow, filled_append.mpr ⟨hfilled, ?_⟩, ?_, ?_⟩
    · rw [hlength, Nat.zero_add]
      exact ⟨hfits, trivial⟩
    · rw [length_append, hlength]
      rfl
    · rw [fetchLevels_append hfilled, hfetch, fetchLevels_cons hfits]
      exact take_append_drop ..

theorem spread_spec (lowest : Nat) (hmax : data.length + 8 ≤ maxEntriesForLevel (level + 1)) :
    ∃ filled k, (spread level data lowest).1 = filled ++ List.replicate k [] ∧ Filled 0 filled ∧
      filled.length + k = level + 1 ∧ fetchLevels filled = data ∧
      (spread level data lowest).2 = if k = 0 then lowest else filled.length := by
  by_cases hmin : minEntriesToReachLevel level ≤ data.length
  · obtain ⟨hlow, hfilled, hlength, hfetch⟩ := spread_full lowest hmin hmax
    exact ⟨_, 0, (append_nil _).symm, hfilled, hlength, hfetch, hlow⟩
  · induction level generalizing lowest with
    | zero =>
      have hnil : data = [] := eq_nil_of_length_eq_zero (Nat.lt_one_iff.mp (Nat.not_le.mp hmin))
      subst hnil
      exact ⟨[], 1, rfl, trivial, rfl, rfl, rfl⟩
    | succ level ih =>
      have hreach := minEntriesToReachLevel_add level
      have hhalf : maxEntriesForLevel (level + 1) / 2 = maxEntriesForLevel level :=
        Nat.mul_div_cancel _ Nat.two_pos
      rw [minEntriesToReachLevel_succ] at hmin
      unfold spread
      simp only [hhalf]
      rw [if_pos (by omega)]
      have hcap : data.length + 8 ≤ maxEntriesForLevel (level + 1) := by
        rw [maxEntriesForLevel_succ]
        omega
      obtain ⟨filled, k, heq, hfilled, hlength, hfetch, hlow⟩ :
          ∃ filled k, (spread level data (level + 1)).1 = filled ++ List.replicate k [] ∧
            Filled 0 filled ∧ filled.length + k = level + 1 ∧ fetchLevels filled = data ∧
            (spread level data (level + 1)).2 = if k = 0 then level + 1 else filled.length := by
        by_cases hless : minEntriesToReachLevel level ≤ data.length
        · obtain ⟨hlow, hfilled, hlength, hfetch⟩ := spread_full (level + 1) hless hcap
          exact ⟨_, 0, (append_nil _).symm, hfilled, hlength, hfetch, hlow⟩
        · exact ih (level + 1) hcap hless
      refine ⟨filled, k + 1, ?_, hfilled, by omega, hfetch, ?_⟩
      · rw [heq, append_assoc, replicate_succ']
      · rw [hlow, if_neg (Nat.succ_ne_zero k)]
        split_ifs <;> omega

theorem halve_spec {lowest k : Nat} (h : data.length = maxEntriesForLevel (lowest + k)) :
    Filled lowest (halve lowest k data) ∧ (halve lowest k data).length = k + 1 ∧
      fetchLevels (halve lowest k data) = data := by
  induction k generalizing data with
  | zero =>
    have hfits := levelFits_full h
    exact ⟨⟨hfits, trivial⟩, rfl, fetchLevels_cons hfits []⟩
  | succ k ih =>
    rw [← Nat.add_assoc, maxEntriesForLevel_succ] at h
    have hhalf : maxEntriesForLevel (lowest + k + 1) / 2 = maxEntriesForLevel (lowest + k) :=
      Nat.mul_div_cancel _ Nat.two_pos
    unfold halve
    simp only [hhalf]
    generalize hoff : maxEntriesForLevel (lowest + k) = offset at h
    obtain ⟨hfilled, hlength, hfetch⟩ := @ih (data.drop offset) (by
      rw [length_drop, hoff]
      omega)
    have hfits : LevelFits (lowest + k + 1) (data.take offset) := by
      refine .inl ?_
      rw [length_take, hoff]
      omega
    refine ⟨filled_append.mpr ⟨hfilled, ?_⟩, ?_, ?_⟩
    · rw [hlength]
      exact ⟨hfits, trivial⟩
    · rw [length_append, hlength]
      rfl
    · rw [fetchLevels_append hfilled, hfetch, fetchLevels_cons hfits]
      exact take_append_drop ..

theorem backfill_spec {rest filled : Levels E} {highest k : Nat} (hrest : Layout (highest + 1) rest)
    (hfilled : Filled 0 filled) (hlength : filled.length + k = highest) :
    Layout 0 (backfill highest filled.length (filled ++ List.replicate (k + 1) []) rest) ∧
      fetchLevels (backfill highest filled.length (filled ++ List.replicate (k + 1) []) rest) =
        fetchLevels rest ++ fetchLevels filled := by
  induction rest generalizing filled highest k with
  | nil =>
    unfold backfill
    refine ⟨hfilled.layout _, ?_⟩
    rw [fetchLevels_append hfilled, fetchLevels_replicate]
    rfl
  | cons data rest ih =>
    have htake : (filled ++ List.replicate (k + 1) ([] : List E)).take filled.length = filled :=
      take_left
    unfold backfill
    simp only [htake]
    rcases hrest.cons with ⟨hdata, hrest⟩ | ⟨m, rfl, rfl⟩
    · rw [if_neg (by simp [hdata.ne_nil])]
      split
      · -- half a level, which moves down
        next hhalf =>
        have hsize : data.length = maxEntriesForLevel (filled.length + (highest - filled.length)) := by
          rw [hdata.resolve_right hhalf]
          congr 1
          omega
        obtain ⟨hmoved, hmovedLength, hmovedFetch⟩ := halve_spec hsize
        generalize halve filled.length (highest - filled.length) data = moved
          at hmoved hmovedLength hmovedFetch
        have hboth : Filled 0 (filled ++ moved) :=
          filled_append.mpr ⟨hfilled, by rwa [Nat.zero_add]⟩
        have hbothLength : (filled ++ moved).length = highest + 1 := by
          rw [length_append, hmovedLength]
          omega
        have hrec := ih (k := 0) hrest hboth hbothLength
        rw [hbothLength] at hrec
        refine ⟨hrec.1, hrec.2.trans ?_⟩
        rw [fetchLevels_append hfilled, hmovedFetch, fetchLevels_cons hdata, append_assoc]
      · next hfull =>
        have hsize : data.length =
            maxEntriesForLevel (filled.length + (highest + 1 - filled.length)) := by
          rw [not_not.mp hfull]
          congr 1
          omega
        obtain ⟨hmoved, hmovedLength, hmovedFetch⟩ := halve_spec hsize
        generalize halve filled.length (highest + 1 - filled.length) data = moved
          at hmoved hmovedLength hmovedFetch
        have hboth : Filled 0 (filled ++ moved) :=
          filled_append.mpr ⟨hfilled, by rwa [Nat.zero_add]⟩
        have hbothLength : (filled ++ moved).length = highest + 1 + 1 := by
          rw [length_append, hmovedLength]
          omega
        refine ⟨Layout.append hboth ?_, ?_⟩
        · rwa [hbothLength, Nat.zero_add]
        · rw [fetchLevels_append hboth, fetchLevels_append hfilled, hmovedFetch, fetchLevels_cons hdata, append_assoc]
    · have hnone : filled ++ List.replicate (k + 1) [] ++ [] :: List.replicate m [] =
          filled ++ List.replicate (k + 1 + (m + 1)) ([] : List E) := by
        rw [append_assoc, ← replicate_succ, replicate_append_replicate]
      rw [isEmpty_nil, if_pos rfl, hnone]
      refine ⟨hfilled.layout _, ?_⟩
      rw [fetchLevels_append hfilled, fetchLevels_replicate]
      rfl

theorem removeAddrIndexEntries_spec {levels : Levels E} (h : Layout 0 levels) {count : Nat}
    (hle : count ≤ (fetchLevels levels).length) :
    ∃ levels', removeAddrIndexEntries levels count = .ok levels' ∧ Layout 0 levels' ∧
      fetchLevels levels' = (fetchLevels levels).take ((fetchLevels levels).length - count) := by
  unfold removeAddrIndexEntries
  by_cases hzero : count = 0
  · refine ⟨levels, if_pos hzero, h, ?_⟩
    rw [hzero, Nat.sub_zero, take_length]
  · rw [if_neg hzero]
    obtain ⟨highest, data, rest, hrun, hrest, hlen, hfetch⟩ :=
      dropNewest_spec h (Nat.pos_of_ne_zero hzero) hle
    rw [← hfetch, hrun]
    simp only
    split
    · next hleft =>
      obtain ⟨rfl, hne⟩ := hleft
      have hfits : LevelFits 0 data :=
        ⟨length_pos_iff.mpr (by simpa using hne), hlen.le⟩
      exact ⟨_, rfl, Layout.append (a := [data]) ⟨hfits, trivial⟩ hrest, fetchLevels_cons hfits rest⟩
    · have hpos := minEntriesToReachLevel_add highest
      have hmax : data.length + 8 ≤ maxEntriesForLevel (highest + 1) := by
        rw [maxEntriesForLevel_succ]
        omega
      obtain ⟨filled, k, heq, hfilled, hlength, hdata, hlow⟩ := spread_spec 255 hmax
      rw [heq, hlow]
      cases k with
      | zero =>
        -- every level is filled, so nothing has to come from above
        have hsome : filled ≠ [] := length_pos_iff.mp (by omega)
        rw [replicate_zero, append_nil, if_neg (mt List.isEmpty_iff.mp (hfilled.getLastD_ne_nil hsome))]
        refine ⟨_, rfl, Layout.append hfilled ?_, ?_⟩
        · rwa [Nat.zero_add, ← Nat.add_zero filled.length, hlength]
        · rw [fetchLevels_append hfilled, hdata]
      | succ k =>
        have hlast : ((filled ++ List.replicate (k + 1) ([] : List E)).getLastD []).isEmpty = true := by
          rw [replicate_succ', ← append_assoc, getLastD_concat]
          rfl
        rw [if_pos hlast, if_neg (Nat.succ_ne_zero k)]
        obtain ⟨hlayout, hboth⟩ := backfill_spec (k := k) hrest hfilled (by omega)
        exact ⟨_, rfl, hlayout, hdata ▸ hboth⟩

/-! ### Any sequence of the two operations -/

/-- A call for an address. The count is an `int`, and a negative one removes nothing. -/
inductive LevelOp (E : Type) where
  | put (entry : E)
  | remove (count : Int)

namespace LevelOp

def run (levels : Levels E) : LevelOp E → Except IndexError (Levels E)
  | put entry => .ok (putAddrIndexEntry levels entry)
  | remove count => removeAddrIndexEntries levels count.toNat

/-- What the call should do to the entries of the address, oldest first. -/
def apply (entries : List E) : LevelOp E → List E
  | put entry => entries ++ [entry]
  | remove count => entries.take (entries.length - count.toNat)

def Allowed (entries : List E) : LevelOp E → Prop
  | put _ => True
  | remove count => count ≤ entries.length

def AllAllowed : List E → List (LevelOp E) → Prop
  | _, [] => True
  | entries, op :: ops => op.Allowed entries ∧ AllAllowed (op.apply entries) ops

theorem run_spec {levels : Levels E} (h : Layout 0 levels) {op : LevelOp E} (hop : op.Allowed (fetchLevels levels)) :
    ∃ levels', op.run levels = .ok levels' ∧ Layout 0 levels' ∧
      fetchLevels levels' = op.apply (fetchLevels levels) := by
  cases op with
  | put entry =>
    obtain ⟨hlayout, hfetch⟩ := putAddrIndexEntry_spec h entry
    exact ⟨_, rfl, hlayout, hfetch⟩
  | remove count => exact removeAddrIndexEntries_spec h (Int.toNat_le.mpr hop)

theorem runs_spec {ops : List (LevelOp E)} {levels : Levels E} (h : Layout 0 levels)
    (hops : AllAllowed (fetchLevels levels) ops) : ∃ levels', ops.foldlM run levels = .ok levels' ∧ Layout 0 levels' ∧
      fetchLevels levels' = ops.foldl apply (fetchLevels levels) := by
  induction ops generalizing levels with
  | nil => exact ⟨levels, rfl, h, rfl⟩
  | cons op ops ih =>
    obtain ⟨m, hrun, hlayout, hfetch⟩ := run_spec h hops.1
    obtain ⟨levels', hruns, hlayout', hfetch'⟩ := ih hlayout (hfetch ▸ hops.2)
    refine ⟨levels', foldlM_cons_eq_ok.mpr ⟨m, hrun, hruns⟩, hlayout', ?_⟩
    rw [hfetch', hfetch, foldl_cons]

end LevelOp

theorem Layout.fetchLevels_eq {levels : Levels E} (h : Layout level levels) :
    fetchLevels levels = levels.reverse.flatten := by
  obtain ⟨filled, k, rfl, hfilled⟩ := h
  rw [fetchLevels_append hfilled, fetchLevels_replicate, reverse_append, flatten_append,
    reverse_replicate, flatten_replicate_nil]
  congr 1
  induction filled generalizing level with
  | nil => rfl
  | cons data filled ih =>
    rw [fetchLevels_cons hfilled.1, ih hfilled.2, reverse_cons, flatten_append, flatten_singleton]

theorem Filled.getElem? {level : Nat} {filled : Levels E} (h : Filled level filled) {i : Nat}
    {data : List E} (hdata : filled[i]? = some data) : LevelFits (level + i) data := by
  induction filled generalizing level i with
  | nil => cases hdata
  | cons first filled ih =>
    cases i with
    | zero =>
      cases hdata
      exact h.1
    | succ i =>
      rw [getElem?_cons_succ] at hdata
      have hfits := ih h.2 hdata
      rwa [Nat.add_assoc, Nat.add_comm 1] at hfits

theorem Layout.exists_filled {levels : Levels E} (h : Layout 0 levels) {i : Nat} {data : List E}
    (hdata : levels[i]? = some data) (hne : data ≠ []) :
    LevelFits i data ∧ ∀ j ≤ i, ∃ data', levels[j]? = some data' ∧ data' ≠ [] := by
  obtain ⟨filled, k, rfl, hfilled⟩ := h
  have hlt : i < filled.length := by
    by_contra hge
    rw [getElem?_append_right (Nat.not_lt.mp hge)] at hdata
    exact hne (eq_of_mem_replicate (mem_of_getElem? hdata))
  rw [getElem?_append_left hlt] at hdata
  refine ⟨Nat.zero_add i ▸ hfilled.getElem? hdata, fun j hj => ?_⟩
  have hj' : j < filled.length := Nat.lt_of_le_of_lt hj hlt
  refine ⟨filled[j], ?_, (hfilled.getElem? (getElem?_eq_getElem hj')).ne_nil⟩
  rw [getElem?_append_left hj', getElem?_eq_getElem hj']

/-- Whatever is put and removed: the levels hold the entries in their order, the highest level the
oldest; level 0 holds at most eight, every other level that exists is half full or full, and there are
no gaps. -/
theorem levels_hold_entries {ops : List (LevelOp E)} (hops : LevelOp.AllAllowed [] ops) :
    ∃ levels, ops.foldlM LevelOp.run [] = .ok levels ∧ levels.reverse.flatten = ops.foldl LevelOp.apply [] ∧
      (∀ data, levels[0]? = some data → data.length ≤ level0MaxEntries) ∧
      (∀ level data, levels[level + 1]? = some data → data ≠ [] →
        data.length = maxEntriesForLevel (level + 1) / 2 ∨ data.length = maxEntriesForLevel (level + 1)) ∧
      ∀ (level : Nat) data, levels[level]? = some data → data ≠ [] →
        ∀ below < level, ∃ data', levels[below]? = some data' ∧ data' ≠ [] := by
  obtain ⟨levels, hrun, hlayout, hfetch⟩ := LevelOp.runs_spec (layout_replicate 0 0) hops
  refine ⟨levels, hrun, hlayout.fetchLevels_eq.symm.trans hfetch, fun data hdata => ?_,
    fun level data hdata hne => ?_, fun level data hdata hne below hbelow => ?_⟩
  · by_cases hne : data = []
    · rw [hne]
      exact Nat.zero_le _
    · exact (hlayout.exists_filled hdata hne).1.length_le
  · rw [maxEntriesForLevel_succ, Nat.mul_div_cancel _ Nat.two_pos]
    exact (hlayout.exists_filled hdata hne).1
  · exact (hlayout.exists_filled hdata hne).2 below hbelow.le

/-- Nine entries reach level 1; removing two of them brings them back to level 0. -/
def nineOps : List (LevelOp Nat) := (List.range 9).map .put ++ [.remove 2]

theorem levels_hold_entries_nineOps : ∃ levels, nineOps.foldlM LevelOp.run [] = .ok levels ∧
    levels.reverse.flatten = [0, 1, 2, 3, 4, 5, 6] := by
  have hops : LevelOp.AllAllowed [] nineOps := by
    simp [nineOps, LevelOp.AllAllowed, LevelOp.Allowed, LevelOp.apply, range_succ]
  obtain ⟨levels, hrun, hentries, -⟩ := levels_hold_entries hops
  exact ⟨levels, hrun, hentries.trans (by decide)⟩

end Indexers

end Prova
