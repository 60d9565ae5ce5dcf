import Prova.Txscript.Standard

/-!
# The scripts `isGeneralProva` accepts

A general Prova script is `OP_m`, pushes of key hashes, pushes of distinct keyIDs, `OP_n` and
OP_CHECKSAFEMULTISIG, with fewer key hashes than `m` and at least `m` keyIDs. The classifier passes over
the elements that are neither a key hash nor a keyID and counts them to `n`, and it refuses the shortest
of these scripts, two keyIDs of which both are needed.
-/

namespace Prova

open List

variable {seenKeyIDs : List Int} {nKeyHashes nKeyIDs : Nat} {counted : Nat × Nat}

def KeyIDPush (pop : ParsedOpcode) (keyID : Int) : Prop :=
  pop.data.length ≠ 20 ∧ isUint32 pop.opcode = true ∧ asInt32 pop = .ok keyID

/-- `OP_m`, elements, `OP_n` and OP_CHECKSAFEMULTISIG, where `n` is the number of the elements. -/
def ProvaFrame (pops : List ParsedOpcode) (m : Nat) (elements : List ParsedOpcode) : Prop :=
  ∃ first count last, pops = first :: (elements ++ [count, last]) ∧
    isSmallInt first.opcode = true ∧ (asSmallInt first.opcode).toNat = m ∧
    isSmallInt count.opcode = true ∧ (asSmallInt count.opcode).toNat = elements.length ∧
    last.opcode = opCheckSafeMultiSig

/-- Key hashes and distinct keyIDs, in the numbers that `m` signatures ask for. -/
structure ProvaKeys (m : Nat) (hashes ids : List ParsedOpcode) : Prop where
  length_hash : ∀ pop ∈ hashes, pop.data.length = 20
  keyIDs : ∃ keyIDs, List.Forall₂ KeyIDPush ids keyIDs ∧ keyIDs.Nodup
  two_le : 2 ≤ m
  hashes_lt : hashes.length < m
  le_ids : m ≤ ids.length

def IsGeneralProvaScript (pops : List ParsedOpcode) : Prop :=
  ∃ m hashes ids, ProvaFrame pops m (hashes ++ ids) ∧ ProvaKeys m hashes ids

/-- What the classifier takes for a key hash or tries as a keyID. -/
def isKeyElement (pop : ParsedOpcode) : Bool := pop.data.length == 20 || isUint32 pop.opcode

/-- A general Prova script but for elements in the middle that are neither key hashes nor keyIDs. -/
def HasForeignElement (pops : List ParsedOpcode) : Prop :=
  ∃ m elements hashes ids, ProvaFrame pops m elements ∧ elements.filter isKeyElement = hashes ++ ids ∧
    ProvaKeys m hashes ids ∧ ∃ pop ∈ elements, isKeyElement pop = false

/-- Two keyIDs, of which both are needed. -/
def IsTwoOfTwo (pops : List ParsedOpcode) : Prop :=
  ∃ ids, ProvaFrame pops 2 ids ∧ ProvaKeys 2 [] ids ∧ ids.length = 2

/-! ### The loop -/

section

variable {pops hashes ids : List ParsedOpcode} {m : Nat}

theorem isKeyElement_of_keyIDs {keyIDs : List Int} (h : List.Forall₂ KeyIDPush ids keyIDs) :
    ∀ pop ∈ ids, isKeyElement pop = true := by
  induction h with
  | nil => exact forall_mem_nil _
  | cons hpush _ ih => exact forall_mem_cons.mpr ⟨by simp [isKeyElement, hpush.2.1], ih⟩

theorem ProvaKeys.isKeyElement (h : ProvaKeys m hashes ids) : ∀ pop ∈ hashes ++ ids, isKeyElement pop = true := by
  obtain ⟨keyIDs, hpush, -⟩ := h.keyIDs
  intro pop hpop
  rcases mem_append.mp hpop with hpop | hpop
  · simp [Prova.isKeyElement, h.length_hash pop hpop]
  · exact isKeyElement_of_keyIDs hpush pop hpop

/-- What the loop has to find in the elements it goes on with: key hashes, unless it has passed a keyID,
and then keyIDs it has not seen. -/
def CountsKeys (pops : List ParsedOpcode) (seenKeyIDs : List Int) (nKeyIDs nKeyHashes : Nat)
    (counted : Nat × Nat) : Prop :=
  ∃ hashes ids keyIDs, pops.filter isKeyElement = hashes ++ ids ∧ (∀ pop ∈ hashes, pop.data.length = 20) ∧
    List.Forall₂ KeyIDPush ids keyIDs ∧ keyIDs.Nodup ∧ (∀ keyID ∈ keyIDs, keyID ∉ seenKeyIDs) ∧
    (hashes = [] ∨ nKeyIDs = 0) ∧ counted = (nKeyIDs + ids.length, nKeyHashes + hashes.length)

theorem countsKeys_hash {pop : ParsedOpcode} (hsize : pop.data.length = 20) :
    CountsKeys (pop :: pops) seenKeyIDs nKeyIDs nKeyHashes counted ↔
      nKeyIDs = 0 ∧ CountsKeys pops seenKeyIDs nKeyIDs (nKeyHashes + 1) counted := by
  unfold CountsKeys
  rw [filter_cons_of_pos (by simp [isKeyElement, hsize])]
  constructor
  · rintro ⟨hashes, ids, keyIDs, hkeys, hhashes, hpush, hnodup, hnew, hfirst, rfl⟩
    cases hashes with
    | nil =>
      rw [nil_append] at hkeys
      subst hkeys
      cases hpush with
      | cons hpush _ => exact absurd hsize hpush.1
    | cons hash hashes =>
      obtain ⟨-, hkeys⟩ := List.cons.inj hkeys
      have hzero := hfirst.resolve_left (cons_ne_nil _ _)
      refine ⟨hzero, hashes, ids, keyIDs, hkeys, (forall_mem_cons.mp hhashes).2, hpush, hnodup, hnew, .inr hzero, ?_⟩
      rw [length_cons, Nat.add_comm hashes.length, Nat.add_assoc]
  · rintro ⟨hzero, hashes, ids, keyIDs, hkeys, hhashes, hpush, hnodup, hnew, -, rfl⟩
    refine ⟨pop :: hashes, ids, keyIDs, by rw [hkeys]; rfl, forall_mem_cons.mpr ⟨hsize, hhashes⟩, hpush,
      hnodup, hnew, .inr hzero, ?_⟩
    rw [length_cons, Nat.add_comm hashes.length, Nat.add_assoc]

theorem countsKeys_keyID {pop : ParsedOpcode} (hsize : pop.data.length ≠ 20) (huint : isUint32 pop.opcode = true) :
    CountsKeys (pop :: pops) seenKeyIDs nKeyIDs nKeyHashes counted ↔
      ∃ keyID, asInt32 pop = .ok keyID ∧ keyID ∉ seenKeyIDs ∧
        CountsKeys pops (keyID :: seenKeyIDs) (nKeyIDs + 1) nKeyHashes counted := by
  unfold CountsKeys
  rw [filter_cons_of_pos (by simp [isKeyElement, huint])]
  constructor
  · rintro ⟨hashes, ids, keyIDs, hkeys, hhashes, hpush, hnodup, hnew, -, rfl⟩
    cases hashes with
    | cons hash hashes =>
      obtain ⟨rfl, -⟩ := List.cons.inj hkeys
      exact absurd (hhashes pop mem_cons_self) hsize
    | nil =>
      rw [nil_append] at hkeys
      subst hkeys
      cases hpush with
      | @cons _ keyID _ keyIDs hpop hpush =>
        rw [nodup_cons] at hnodup
        rw [forall_mem_cons] at hnew
        refine ⟨keyID, hpop.2.2, hnew.1, [], _, keyIDs, rfl, forall_mem_nil _, hpush, hnodup.2, ?_, .inl rfl, ?_⟩
        · intro id hid hseen
          rcases mem_cons.mp hseen with rfl | hseen
          · exact hnodup.1 hid
          · exact hnew.2 id hid hseen
        · rw [length_cons, Nat.add_comm (List.length _), Nat.add_assoc]
  · rintro ⟨keyID, hkeyID, hunseen, hashes, ids, keyIDs, hkeys, -, hpush, hnodup, hnew, hfirst, rfl⟩
    obtain rfl := hfirst.resolve_right (Nat.succ_ne_zero _)
    refine ⟨[], pop :: ids, keyID :: keyIDs, by rw [hkeys]; rfl, forall_mem_nil _,
      .cons ⟨hsize, huint, hkeyID⟩ hpush, ?_, ?_, .inl rfl, ?_⟩
    · exact nodup_cons.mpr ⟨fun hmem => hnew keyID hmem mem_cons_self, hnodup⟩
    · exact forall_mem_cons.mpr
        ⟨hunseen, fun id hid hseen => hnew id hid (mem_cons_of_mem _ hseen)⟩
    · rw [length_cons, Nat.add_comm ids.length, Nat.add_assoc]

theorem countKeys_eq_some : countKeys pops seenKeyIDs nKeyIDs nKeyHashes = some counted ↔
      CountsKeys pops seenKeyIDs nKeyIDs nKeyHashes counted := by
  induction pops generalizing seenKeyIDs nKeyIDs nKeyHashes with
  | nil =>
    rw [countKeys, Option.some_inj]
    constructor
    · rintro rfl
      exact ⟨[], [], [], rfl, forall_mem_nil _, .nil, nodup_nil, forall_mem_nil _, .inl rfl, rfl⟩
    · rintro ⟨hashes, ids, keyIDs, hkeys, -, -, -, -, -, rfl⟩
      obtain ⟨rfl, rfl⟩ := append_eq_nil_iff.mp hkeys.symm
      rfl
  | cons pop pops ih =>
    rw [countKeys]
    by_cases hsize : pop.data.length = 20
    · rw [if_pos hsize, countsKeys_hash hsize, ← ih]
      split_ifs with hpassed
      · exact iff_of_false (fun h => by cases h) fun h => by omega
      · exact (and_iff_right (by omega)).symm
    rw [if_neg hsize]
    by_cases huint : isUint32 pop.opcode = true
    · rw [if_pos huint, countsKeys_keyID hsize huint]
      cases hkeyID : asInt32 pop with
      | error e => exact iff_of_false (fun h => by cases h) fun ⟨_, h, _⟩ => by cases h
      | ok keyID =>
        dsimp only
        split_ifs with hseen
        · refine iff_of_false (fun h => by cases h) ?_
          rintro ⟨_, ⟨⟩, hunseen, -⟩
          exact hunseen hseen
        · rw [ih]
          constructor
          · intro h
            exact ⟨keyID, rfl, hseen, h⟩
          · rintro ⟨_, ⟨⟩, -, h⟩
            exact h
    · -- the element is neither, and the loop goes on as if it were not there
      rw [if_neg huint, ih]
      unfold CountsKeys
      rw [filter_cons_of_neg (by simp [isKeyElement, hsize, huint])]

/-! ### The classifier -/

theorem middleElements_frame (first count last : ParsedOpcode) (elements : List ParsedOpcode) :
    middleElements (first :: (elements ++ [count, last])) = elements := by
  simp [middleElements]

theorem countElement_frame (first count last : ParsedOpcode) (elements : List ParsedOpcode) :
    countElement (first :: (elements ++ [count, last])) = count := by
  simp [countElement]

theorem ProvaFrame.elements_eq {elements : List ParsedOpcode} (h : ProvaFrame pops m elements) :
    elements = middleElements pops := by
  obtain ⟨first, count, last, rfl, -⟩ := h
  rw [middleElements_frame]

theorem ProvaFrame.length_eq {elements : List ParsedOpcode} (h : ProvaFrame pops m elements) :
    pops.length = elements.length + 3 := by
  obtain ⟨first, count, last, rfl, -⟩ := h
  simp

theorem exists_frame (h : 3 ≤ pops.length) :
    ∃ first elements count last, pops = first :: (elements ++ [count, last]) := by
  obtain ⟨first, rest, rfl⟩ := exists_cons_of_ne_nil (ne_nil_of_length_pos (by omega : 0 < pops.length))
  rw [length_cons] at h
  obtain ⟨rest, last, rfl⟩ := eq_nil_or_concat rest |>.resolve_left (by rintro rfl; simp at h)
  rw [length_concat] at h
  obtain ⟨rest, count, rfl⟩ := eq_nil_or_concat rest |>.resolve_left (by rintro rfl; simp at h)
  exact ⟨first, rest, count, last, by simp⟩

/-- The classifier takes every script of six elements or more that is a general Prova script but for
elements it passes over. -/
theorem isGeneralProva_iff : isGeneralProva pops = true ↔ 6 ≤ pops.length ∧
    ∃ m elements hashes ids, ProvaFrame pops m elements ∧
      elements.filter isKeyElement = hashes ++ ids ∧ ProvaKeys m hashes ids := by
  by_cases hlen : 6 ≤ pops.length
  swap
  · exact iff_of_false (by simp [isGeneralProva, hlen]) fun h => hlen h.1
  rw [and_iff_right hlen]
  obtain ⟨first, elements, count, last, rfl⟩ := exists_frame (by omega : 3 ≤ pops.length)
  have hlast : (first :: (elements ++ [count, last])).getLastD ⟨op0, []⟩ = last := by
    simp [getLast?_cons, getLast?_append]
  have hnum : (first :: (elements ++ [count, last])).length - 3 = elements.length := by simp
  unfold isGeneralProva threshold
  simp only [countElement_frame, middleElements_frame, hlast, hnum, headD_cons, Bool.and_eq_true, beq_iff_eq]
  constructor
  · rintro ⟨⟨⟨⟨⟨⟨-, hfirst⟩, hcount⟩, hop⟩, hsigs⟩, hkeys⟩, h⟩
    cases hcounted : countKeys elements [] 0 0 with
    | none =>
      rw [hcounted] at h
      cases h
    | some counted =>
      obtain ⟨hashes, ids, keyIDs, hfilter, hhashes, hpush, hnodup, -, -, rfl⟩ := countKeys_eq_some.mp hcounted
      simp only [hcounted, Bool.and_eq_true, Nat.zero_add] at h
      exact ⟨_, elements, hashes, ids, ⟨first, count, last, rfl, hfirst, rfl, hcount, hkeys.symm, hop⟩, hfilter,
        hhashes, ⟨keyIDs, hpush, hnodup⟩, of_decide_eq_true hsigs, of_decide_eq_true h.1, of_decide_eq_true h.2⟩
  · rintro ⟨m, elements', hashes, ids, hframe, hfilter, hkeys⟩
    obtain rfl : elements' = elements := hframe.elements_eq.trans (middleElements_frame _ _ _ _)
    obtain ⟨first', count', last', hpops, hfirst, rfl, hcount, hn, hop⟩ := hframe
    obtain ⟨rfl, htail⟩ := List.cons.inj hpops
    obtain ⟨rfl, rfl⟩ : count = count' ∧ last = last' := by simpa using htail
    obtain ⟨keyIDs, hpush, hnodup⟩ := hkeys.keyIDs
    have hcounted : countKeys elements' [] 0 0 = some (0 + ids.length, 0 + hashes.length) :=
      countKeys_eq_some.mpr ⟨hashes, ids, keyIDs, hfilter, hkeys.length_hash, hpush, hnodup,
        fun _ _ => not_mem_nil, .inr rfl, rfl⟩
    refine ⟨⟨⟨⟨⟨⟨decide_eq_true hlen, hfirst⟩, hcount⟩, hop⟩, decide_eq_true hkeys.two_le⟩, hn.symm⟩, ?_⟩
    simp only [hcounted, Bool.and_eq_true, Nat.zero_add]
    exact ⟨decide_eq_true hkeys.hashes_lt, decide_eq_true hkeys.le_ids⟩

/-- `isGeneralProva` decides whether a script is a general Prova script, except on those with foreign
elements in the middle and on those of two keyIDs of which both are needed. -/
theorem isGeneralProva_exact_iff (pops : List ParsedOpcode) : (isGeneralProva pops = true ↔ IsGeneralProvaScript pops) ↔
      ¬ (HasForeignElement pops ∨ IsTwoOfTwo pops) := by
  constructor
  · rintro hexact (⟨m, elements, hashes, ids, hframe, hfilter, hkeys, pop, hpop, hforeign⟩ |
      ⟨ids, hframe, hkeys, htwo⟩)
    · -- the foreign element makes the script long enough to be accepted
      have hlen : 6 ≤ pops.length := by
        have hless := (length_filter_lt_length_iff_exists (p := isKeyElement)).mpr
          ⟨pop, hpop, by simp [hforeign]⟩
        rw [hfilter, length_append] at hless
        have := hkeys.two_le
        have := hkeys.le_ids
        rw [hframe.length_eq]
        omega
      obtain ⟨m', hashes', ids', hframe', hkeys'⟩ :=
        hexact.mp (isGeneralProva_iff.mpr ⟨hlen, m, elements, hashes, ids, hframe, hfilter, hkeys⟩)
      rw [hframe.elements_eq, ← hframe'.elements_eq] at hpop
      rw [hkeys'.isKeyElement pop hpop] at hforeign
      cases hforeign
    · have hlen := (isGeneralProva_iff.mp (hexact.mpr ⟨2, [], ids, hframe, hkeys⟩)).1
      rw [hframe.length_eq, htwo] at hlen
      omega
  · intro hexcept
    constructor
    · intro h
      obtain ⟨-, m, elements, hashes, ids, hframe, hfilter, hkeys⟩ := isGeneralProva_iff.mp h
      have hall : elements.filter isKeyElement = elements := by
        refine filter_eq_self.mpr fun pop hpop => ?_
        by_contra hforeign
        exact hexcept (.inl ⟨m, elements, hashes, ids, hframe, hfilter, hkeys, pop, hpop,
          Bool.eq_false_of_not_eq_true hforeign⟩)
      rw [hall] at hfilter
      exact ⟨m, hashes, ids, hfilter ▸ hframe, hkeys⟩
    · rintro ⟨m, hashes, ids, hframe, hkeys⟩
      refine isGeneralProva_iff.mpr ⟨?_, m, _, hashes, ids, hframe, filter_eq_self.mpr hkeys.isKeyElement, hkeys⟩
      by_contra hshort
      have hlen := hframe.length_eq
      rw [length_append] at hlen
      have htwo := hkeys.two_le
      have hle := hkeys.le_ids
      obtain rfl : m = 2 := by omega
      obtain rfl : hashes = [] := length_eq_zero_iff.mp (by omega)
      exact hexcept (.inr ⟨ids, hframe, hkeys, by omega⟩)

/-- Two keyIDs and an OP_RETURN that counts as a third key. -/
theorem isGeneralProva_foreign_element : parseScript [0x52, 0x51, 0x52, 0x6a, 0x53, 0xba] =
      .ok [⟨0x52, []⟩, ⟨0x51, []⟩, ⟨0x52, []⟩, ⟨0x6a, []⟩, ⟨0x53, []⟩, ⟨0xba, []⟩] ∧
    isGeneralProva [⟨0x52, []⟩, ⟨0x51, []⟩, ⟨0x52, []⟩, ⟨0x6a, []⟩, ⟨0x53, []⟩, ⟨0xba, []⟩] = true ∧
    ¬ IsGeneralProvaScript [⟨0x52, []⟩, ⟨0x51, []⟩, ⟨0x52, []⟩, ⟨0x6a, []⟩, ⟨0x53, []⟩, ⟨0xba, []⟩] := by
  refine ⟨by decide, by decide, ?_⟩
  rintro ⟨m, hashes, ids, hframe, hkeys⟩
  have hforeign : (⟨0x6a, []⟩ : ParsedOpcode) ∈ hashes ++ ids := by
    rw [hframe.elements_eq]
    decide
  exact absurd (hkeys.isKeyElement _ hforeign) (by decide)

end

end Prova
