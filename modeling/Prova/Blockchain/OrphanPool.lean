import Prova.Lib.StateRun
import Prova.Wire.MsgBlock
import Std.Data.ExtTreeMap.Lemmas

/-!
# The orphan pool (`addOrphanBlock` and `removeOrphanBlock` of `chain.go`, `processOrphans` of `process.go`)

Blocks whose parent is not known yet wait in a map by their hash and in lists by the hash of their
parent. A block that finds the pool full takes the place of the orphan remembered as the oldest. That one
is not forgotten when it leaves the pool in another way.
-/

namespace Prova

open Std.ExtTreeMap

structure OrphanBlock where
  block : MsgBlock
  expiration : Int
deriving DecidableEq

def maxOrphanBlocks : Nat := 1000

def hour : Int := 3600000000000

/-- The orphans of a `BlockChain`. A list of `prevOrphans` that is empty has no entry in the map. -/
structure OrphanPool where
  orphans : Std.ExtTreeMap Hash OrphanBlock compare
  prevOrphans : Hash → List OrphanBlock
  oldestOrphan : Option OrphanBlock

namespace OrphanPool

def empty : OrphanPool := ⟨∅, fun _ => [], none⟩

section

variable (c : Crypto)

/-- `removeOrphanBlock`. Its loop takes every entry with the hash out of the list. -/
def removeOrphanBlock (orphan : OrphanBlock) (b : OrphanPool) : OrphanPool :=
  let orphanHash := orphan.block.blockHash c
  let prevHash := orphan.block.header.prevBlock
  let orphans := (b.prevOrphans prevHash).filter fun o => o.block.blockHash c ≠ orphanHash
  { b with
    orphans := b.orphans.erase orphanHash
    prevOrphans := Function.update b.prevOrphans prevHash orphans }

/-- What the first loop of `addOrphanBlock` does with an entry of the map; `now` is the time when the
loop comes to it. -/
def visitOrphan (now : Hash → Int) (b : OrphanPool) (hash : Hash) : OrphanPool :=
  match b.orphans[hash]? with
  | none => b
  | some oBlock =>
    if oBlock.expiration < now hash then b.removeOrphanBlock c oBlock
    else
      match b.oldestOrphan with
      | none => { b with oldestOrphan := some oBlock }
      | some oldest =>
        if oBlock.expiration < oldest.expiration then { b with oldestOrphan := some oBlock } else b

/-- Make room in a full pool; `none` is the panic of a nil `oldestOrphan`. -/
def limitOrphans (b : OrphanPool) : Option OrphanPool :=
  if maxOrphanBlocks < b.orphans.size + 1 then
    match b.oldestOrphan with
    | none => none
    | some oldest => some { b.removeOrphanBlock c oldest with oldestOrphan := none }
  else some b

/-- The insertion at the end of `addOrphanBlock`. -/
def insertOrphan (arrival : Int) (block : MsgBlock) (b : OrphanPool) : OrphanPool :=
  let oBlock : OrphanBlock := ⟨block, arrival + hour⟩
  let prevHash := block.header.prevBlock
  { b with
    orphans := b.orphans.insert (block.blockHash c) oBlock
    prevOrphans := Function.update b.prevOrphans prevHash (b.prevOrphans prevHash ++ [oBlock]) }

/-- `addOrphanBlock`. `order` is the order in which the loop goes through the map. -/
def addOrphanBlock (order : List Hash) (now : Hash → Int) (arrival : Int) (block : MsgBlock)
    (b : OrphanPool) : Option OrphanPool :=
  (limitOrphans c (order.foldl (visitOrphan c now) b)).map (insertOrphan c arrival block)

/-- The next orphan `processOrphans` comes to, with the hashes that are left to process. -/
def nextOrphan (b : OrphanPool) : List Hash → Option (OrphanBlock × List Hash)
  | [] => none
  | processHash :: rest =>
    match b.prevOrphans processHash with
    | [] => nextOrphan b rest
    | orphan :: _ => some (orphan, processHash :: rest)

/-- The loops of `processOrphans` over a pool that is part of a larger state. -/
def processOrphansLoop {m : Type → Type} [Monad m] (pool : m OrphanPool) (remove : OrphanBlock → m Unit)
    (accept : MsgBlock → m Unit) (stuck : m Unit) : Nat → List Hash → m Unit
  | 0, _ => stuck
  | fuel + 1, processHashes => do
    let b ← pool
    match b.nextOrphan processHashes with
    | none => pure ()
    | some (orphan, processHashes) =>
      remove orphan
      accept orphan.block
      processOrphansLoop pool remove accept stuck fuel
        (processHashes ++ [orphan.block.blockHash c])

/-- Why `processOrphans` ends early. -/
inductive ProcessError
  | rejected
  | stuck
deriving DecidableEq

/-- The loops over the pool alone; `accepts` says which orphans `maybeAcceptBlock` lets pass. -/
def processLoop (accepts : MsgBlock → Bool) :
    Nat → List Hash → EStateM ProcessError OrphanPool Unit :=
  processOrphansLoop c get (fun orphan => modify (removeOrphanBlock c orphan))
    (fun block => if accepts block then pure () else throw .rejected) (throw .stuck)

def processOrphans (hash : Hash) (accepts : MsgBlock → Bool) : EStateM ProcessError OrphanPool Unit := do
  let b ← get
  processLoop c accepts (b.orphans.size + 1) [hash]

/-- A call that changes the pool. -/
inductive Call
  | add (order : List Hash) (now : Hash → Int) (arrival : Int) (block : MsgBlock)
  | remove (orphan : OrphanBlock)
  | process (hash : Hash) (accepts : MsgBlock → Bool)

/-- The pool when `processOrphans` returns, if it does. -/
def processed : EStateM.Result ProcessError OrphanPool Unit → Option OrphanPool
  | .error .stuck _ => none
  | .error .rejected b => some b
  | .ok _ b => some b

/-- The pool after a call; `none` is a panic or a loop that does not end. -/
def Call.run : Call → OrphanPool → Option OrphanPool
  | add order now arrival block, b => b.addOrphanBlock c order now arrival block
  | remove orphan, b => some (b.removeOrphanBlock c orphan)
  | process hash accepts, b => processed (processOrphans c hash accepts b)

end

def Call.block : Call → Option MsgBlock
  | add _ _ _ block => some block
  | remove orphan => some orphan.block
  | process _ _ => none

def Call.Ordered (b : OrphanPool) : Call → Prop
  | add order _ _ _ => order.Perm b.orphans.keys
  | _ => True

/-! ### Map and lists -/

/-- Blocks with the same hash have the same parent. -/
def OneParent (c : Crypto) (blocks : Set MsgBlock) : Prop :=
  ∀ x ∈ blocks, ∀ y ∈ blocks, x.blockHash c = y.blockHash c → x.header.prevBlock = y.header.prevBlock

/-- The map and the lists hold the same blocks, each list those with its parent. -/
structure Matches (c : Crypto) (blocks : Set MsgBlock) (b : OrphanPool) : Prop where
  pooled {h : Hash} {o : OrphanBlock} : b.orphans[h]? = some o → o.block ∈ blocks ∧
    o.block.blockHash c = h ∧ ∃ o' ∈ b.prevOrphans o.block.header.prevBlock, o'.block.blockHash c = h
  listed {p : Hash} {o : OrphanBlock} : o ∈ b.prevOrphans p → o.block ∈ blocks ∧
    o.block.header.prevBlock = p ∧ ∃ o', b.orphans[o.block.blockHash c]? = some o'
  oldest {o : OrphanBlock} : b.oldestOrphan = some o → o.block ∈ blocks

section

variable {c : Crypto} {blocks : Set MsgBlock} {b : OrphanPool} {o : OrphanBlock}

theorem matches_empty : Matches c blocks empty where
  pooled h := by simp [empty] at h
  listed h := by simp [empty] at h
  oldest h := by cases h

theorem getElem?_removeOrphanBlock (o : OrphanBlock) (b : OrphanPool) (h : Hash) :
    (b.removeOrphanBlock c o).orphans[h]? = if o.block.blockHash c = h then none else b.orphans[h]? := by
  simp only [removeOrphanBlock, getElem?_erase, Std.compare_eq_iff_eq]

theorem mem_prevOrphans_remove {p : Hash} {x : OrphanBlock} :
    x ∈ (b.removeOrphanBlock c o).prevOrphans p ↔ x ∈ b.prevOrphans p ∧
      (p = o.block.header.prevBlock → x.block.blockHash c ≠ o.block.blockHash c) := by
  by_cases hp : p = o.block.header.prevBlock
  · subst hp
    simp [removeOrphanBlock]
  · simp [removeOrphanBlock, hp]

theorem Matches.remove (hone : OneParent c blocks) (h : Matches c blocks b) (ho : o.block ∈ blocks) :
    Matches c blocks (b.removeOrphanBlock c o) where
  pooled {k x} hx := by
    rw [getElem?_removeOrphanBlock] at hx
    split_ifs at hx with hk
    obtain ⟨hmem, hhash, y, hy, hyhash⟩ := h.pooled hx
    refine ⟨hmem, hhash, y, mem_prevOrphans_remove.mpr ⟨hy, fun _ heq => hk ?_⟩, hyhash⟩
    rw [← heq, hyhash]
  listed {p x} hx := by
    obtain ⟨hx, hkeep⟩ := mem_prevOrphans_remove.mp hx
    obtain ⟨hmem, hprev, y, hy⟩ := h.listed hx
    refine ⟨hmem, hprev, y, ?_⟩
    have hne : o.block.blockHash c ≠ x.block.blockHash c := by
      intro heq
      exact hkeep (hprev.symm.trans (hone x.block hmem o.block ho heq.symm)) heq.symm
    rw [getElem?_removeOrphanBlock, if_neg hne]
    exact hy
  oldest hx := h.oldest hx

theorem Matches.setOldest (h : Matches c blocks b) {x : OrphanBlock} (hx : x.block ∈ blocks) :
    Matches c blocks { b with oldestOrphan := some x } where
  pooled := h.pooled
  listed := h.listed
  oldest heq := by
    cases heq
    exact hx

theorem Matches.clearOldest (h : Matches c blocks b) : Matches c blocks { b with oldestOrphan := none } where
  pooled := h.pooled
  listed := h.listed
  oldest heq := by cases heq

theorem Matches.insert (h : Matches c blocks b) (arrival : Int) {block : MsgBlock}
    (hblock : block ∈ blocks) : Matches c blocks (b.insertOrphan c arrival block) where
  pooled {k x} hx := by
    simp only [insertOrphan, getElem?_insert, Std.compare_eq_iff_eq] at hx
    by_cases hk : block.blockHash c = k
    · rw [if_pos hk] at hx
      cases hx
      refine ⟨hblock, hk, ⟨block, arrival + hour⟩, ?_, hk⟩
      simp [insertOrphan]
    · rw [if_neg hk] at hx
      obtain ⟨hmem, hhash, y, hy, hyhash⟩ := h.pooled hx
      refine ⟨hmem, hhash, y, ?_, hyhash⟩
      by_cases hp : x.block.header.prevBlock = block.header.prevBlock
      · rw [hp] at hy ⊢
        simp [insertOrphan, hy]
      · simp [insertOrphan, hp, hy]
  listed {p x} hx := by
    have hcases : x ∈ b.prevOrphans p ∨ x = ⟨block, arrival + hour⟩ ∧ p = block.header.prevBlock := by
      by_cases hp : p = block.header.prevBlock
      · subst hp
        simpa [insertOrphan] using hx
      · left
        simpa [insertOrphan, hp] using hx
    have hget : ∀ k, (∃ y, b.orphans[k]? = some y) ∨ block.blockHash c = k →
        ∃ y, (b.insertOrphan c arrival block).orphans[k]? = some y := by
      intro k hk
      simp only [insertOrphan, getElem?_insert, Std.compare_eq_iff_eq]
      by_cases heq : block.blockHash c = k
      · exact ⟨_, if_pos heq⟩
      · rw [if_neg heq]
        exact hk.resolve_right heq
    rcases hcases with hx | ⟨rfl, rfl⟩
    · obtain ⟨hmem, hprev, hy⟩ := h.listed hx
      exact ⟨hmem, hprev, hget _ (.inl hy)⟩
    · exact ⟨hblock, rfl, hget _ (.inr rfl)⟩
  oldest hx := h.oldest hx

/-! ### The loop over the map -/

def Live (b : OrphanPool) (now : Hash → Int) (k : Hash) (o : OrphanBlock) : Prop :=
  b.orphans[k]? = some o ∧ now k ≤ o.expiration

/-- What is remembered as the oldest orphan after the loop: the one from before, which no orphan the loop
has met expires before, or one of these that does. -/
def Remembered (b : OrphanPool) (now : Hash → Int) (order : List Hash) (s : OrphanPool) : Prop :=
  (s.oldestOrphan = b.oldestOrphan ∧ ∀ k ∈ order, ∀ o, b.Live now k o →
    ∃ old, b.oldestOrphan = some old ∧ old.expiration ≤ o.expiration) ∨
  ∃ k o, b.Live now k o ∧ s.oldestOrphan = some o ∧
    ∀ old, b.oldestOrphan = some old → o.expiration < old.expiration

/-- The state of the loop after some entries. -/
structure Swept (c : Crypto) (blocks : Set MsgBlock) (b : OrphanPool) (now : Hash → Int)
    (order : List Hash) (s : OrphanPool) : Prop where
  sound : Matches c blocks s
  get {k : Hash} {o : OrphanBlock} : s.orphans[k]? = some o ↔
    b.orphans[k]? = some o ∧ (k ∈ order → now k ≤ o.expiration)
  remembered : Remembered b now order s

variable {now : Hash → Int} {order : List Hash} {s : OrphanPool}

theorem Swept.refl (h : Matches c blocks b) : Swept c blocks b now [] b where
  sound := h
  get := by simp
  remembered := .inl ⟨rfl, fun k hk => by cases hk⟩

theorem Swept.keep (h : Swept c blocks b now order s) {k : Hash} {t : OrphanPool}
    (hlive : ∀ o, b.orphans[k]? = some o → k ∈ order ∨ now k ≤ o.expiration)
    (hsound : Matches c blocks t) (horphans : t.orphans = s.orphans)
    (hremembered : Remembered b now (order ++ [k]) t) : Swept c blocks b now (order ++ [k]) t where
  sound := hsound
  get {x o} := by
    rw [horphans, h.get, List.mem_append, List.mem_singleton]
    refine and_congr_right fun hx => ⟨fun hnow => ?_, fun hnow hmem => hnow (.inl hmem)⟩
    rintro (hmem | rfl)
    · exact hnow hmem
    · exact (hlive o hx).elim hnow id
  remembered := hremembered

theorem Remembered.extend (h : Remembered b now order s) {k : Hash}
    (hk : ∀ o, b.Live now k o → s.oldestOrphan = b.oldestOrphan →
      ∃ old, b.oldestOrphan = some old ∧ old.expiration ≤ o.expiration) : Remembered b now (order ++ [k]) s := by
  rcases h with ⟨heq, hall⟩ | hnew
  · refine .inl ⟨heq, fun x hx o ho => ?_⟩
    rw [List.mem_append, List.mem_singleton] at hx
    rcases hx with hx | rfl
    · exact hall x hx o ho
    · exact hk o ho heq
  · exact .inr hnew

theorem Swept.visit (hone : OneParent c blocks) (h : Swept c blocks b now order s) (k : Hash) :
    Swept c blocks b now (order ++ [k]) (s.visitOrphan c now k) := by
  unfold visitOrphan
  cases hk : s.orphans[k]? with
  | none =>
    have hnone : ∀ o, b.orphans[k]? = some o → k ∈ order ∧ o.expiration < now k := by
      intro o ho
      by_contra hcontra
      have hstill : s.orphans[k]? = some o :=
        h.get.mpr ⟨ho, fun hmem => not_lt.mp fun hlt => hcontra ⟨hmem, hlt⟩⟩
      rw [hk] at hstill
      cases hstill
    refine h.keep (fun o ho => .inl (hnone o ho).1) h.sound rfl (h.remembered.extend fun o ho _ => ?_)
    exact absurd (hnone o ho.1).2 (not_lt.mpr ho.2)
  | some o =>
    obtain ⟨ho, -⟩ := h.get.mp hk
    obtain ⟨hmem, hhash, -⟩ := h.sound.pooled hk
    dsimp only
    by_cases hexp : o.expiration < now k
    · rw [if_pos hexp]
      refine ⟨h.sound.remove hone hmem, fun {x y} => ?_, h.remembered.extend fun x hx _ => ?_⟩
      · rw [getElem?_removeOrphanBlock, hhash]
        by_cases hx : k = x
        · subst hx
          simp only [if_pos, reduceCtorEq, List.mem_append, List.mem_singleton, or_true, true_imp_iff,
            false_iff, not_and]
          intro hy
          cases ho.symm.trans hy
          exact not_le.mpr hexp
        · rw [if_neg hx, h.get]
          simp [Ne.symm hx]
      · cases ho.symm.trans hx.1
        exact absurd hexp (not_lt.mpr hx.2)
    · rw [if_neg hexp]
      have hlive : b.Live now k o := ⟨ho, not_lt.mp hexp⟩
      have hkeep : ∀ x, b.orphans[k]? = some x → k ∈ order ∨ now k ≤ x.expiration := by
        intro x hx
        cases ho.symm.trans hx
        exact .inr hlive.2
      have hset : (∀ oldest, s.oldestOrphan = some oldest → o.expiration < oldest.expiration) →
          Swept c blocks b now (order ++ [k]) { s with oldestOrphan := some o } := by
        intro hbefore
        refine h.keep hkeep (h.sound.setOldest hmem) rfl (.inr ⟨k, o, hlive, rfl, fun old hold => ?_⟩)
        rcases h.remembered with ⟨heq, -⟩ | ⟨-, x, -, hx, hlt⟩
        · exact hbefore old (heq.trans hold)
        · exact (hbefore x hx).trans (hlt old hold)
      cases hold : s.oldestOrphan with
      | none => exact hset fun oldest heq => by simp [hold] at heq
      | some oldest =>
        dsimp only
        by_cases hlt : o.expiration < oldest.expiration
        · rw [if_pos hlt]
          refine hset fun x hx => ?_
          cases hold.symm.trans hx
          exact hlt
        · rw [if_neg hlt]
          refine h.keep hkeep h.sound rfl (h.remembered.extend fun x hx heq => ?_)
          cases ho.symm.trans hx.1
          exact ⟨oldest, heq.symm.trans hold, not_lt.mp hlt⟩

theorem swept_foldl (hone : OneParent c blocks) (h : Matches c blocks b) (now : Hash → Int)
    (order : List Hash) : Swept c blocks b now order (order.foldl (visitOrphan c now) b) := by
  induction order using List.reverseRecOn with
  | nil => exact Swept.refl h
  | append_singleton order k ih =>
    rw [List.foldl_append, List.foldl_cons, List.foldl_nil]
    exact ih.visit hone k

/-! ### Adding a block -/

/-- There is room for one more once the expired orphans are out. -/
def HasRoom (b : OrphanPool) (now : Hash → Int) : Prop :=
  (b.orphans.filter fun k o => decide (now k ≤ o.expiration)).size < maxOrphanBlocks

/-- What is remembered as the oldest orphan is still in the pool and not expired, or some orphan expires
before it. -/
def CanEvict (c : Crypto) (b : OrphanPool) (now : Hash → Int) : Prop :=
  ∀ old, b.oldestOrphan = some old → (∃ o, b.Live now (old.block.blockHash c) o) ∨
    ∃ k o, b.Live now k o ∧ o.expiration < old.expiration

theorem Swept.orphans_eq (h : Swept c blocks b now order s) (hall : order.Perm b.orphans.keys) :
    s.orphans = b.orphans.filter fun k o => decide (now k ≤ o.expiration) := by
  refine ext_getElem? fun k => Option.ext fun o => ?_
  rw [h.get, getElem?_filter', Option.filter_eq_some_iff]
  refine and_congr_right fun hk => ?_
  have hmem : k ∈ order := by
    rw [hall.mem_iff, mem_keys, mem_iff_isSome_getElem?, hk]
    rfl
  simp [hmem]

theorem Swept.size_le (h : Swept c blocks b now order s) (hall : order.Perm b.orphans.keys) :
    s.orphans.size ≤ b.orphans.size := by
  rw [h.orphans_eq hall]
  exact size_filter_le_size

theorem Swept.live_of_get (h : Swept c blocks b now order s) (hall : order.Perm b.orphans.keys) {k : Hash}
    (hk : s.orphans[k]? = some o) : k ∈ order ∧ b.Live now k o := by
  obtain ⟨hb, hnow⟩ := h.get.mp hk
  have hmem : k ∈ order := by
    rw [hall.mem_iff, mem_keys, mem_iff_isSome_getElem?, hb]
    rfl
  exact ⟨hmem, hb, hnow hmem⟩

theorem Swept.get_of_live (h : Swept c blocks b now order s) {k : Hash} (hk : b.Live now k o) :
    s.orphans[k]? = some o := h.get.mpr ⟨hk.1, fun _ => hk.2⟩

theorem Swept.exists_oldest (h : Swept c blocks b now order s) (hall : order.Perm b.orphans.keys)
    (hpos : 0 < s.orphans.size) : ∃ old, s.oldestOrphan = some old := by
  have hne : s.orphans ≠ ∅ := fun hempty => by simp [hempty] at hpos
  obtain ⟨k, hk⟩ : ∃ k, k ∈ s.orphans := by
    by_contra hnone
    exact hne (eq_empty_iff_forall_not_mem.mpr (not_exists.mp hnone))
  obtain ⟨o, ho⟩ := Option.isSome_iff_exists.mp (mem_iff_isSome_getElem?.mp hk)
  obtain ⟨hmem, hlive⟩ := h.live_of_get hall ho
  rcases h.remembered with ⟨heq, hmet⟩ | ⟨_, old, -, hold, -⟩
  · obtain ⟨old, hold, -⟩ := hmet k hmem o hlive
    exact ⟨old, heq.trans hold⟩
  · exact ⟨old, hold⟩

theorem Swept.oldest_pooled (h : Swept c blocks b now order s) (hall : order.Perm b.orphans.keys)
    (hevict : CanEvict c b now) {old : OrphanBlock} (hold : s.oldestOrphan = some old) :
    ∃ o, s.orphans[old.block.blockHash c]? = some o := by
  rcases h.remembered with ⟨heq, hmet⟩ | ⟨k, o, hlive, hnew, -⟩
  · rw [heq] at hold
    rcases hevict old hold with ⟨o, ho⟩ | ⟨k, o, hlive, hlt⟩
    · exact ⟨o, h.get_of_live ho⟩
    · obtain ⟨hmem, -⟩ := h.live_of_get hall (h.get_of_live hlive)
      obtain ⟨old', hold', hle⟩ := hmet k hmem o hlive
      cases hold.symm.trans hold'
      exact absurd hlt (not_lt.mpr hle)
  · cases hold.symm.trans hnew
    have hk := h.get_of_live hlive
    obtain ⟨-, hhash, -⟩ := h.sound.pooled hk
    exact ⟨old, hhash ▸ hk⟩

theorem size_remove_lt (h : ∃ x, b.orphans[o.block.blockHash c]? = some x) :
    (b.removeOrphanBlock c o).orphans.size < b.orphans.size := by
  obtain ⟨x, hx⟩ := h
  have hmem : b.orphans.contains (o.block.blockHash c) = true := by
    rw [contains_iff_mem, mem_iff_isSome_getElem?, hx]
    rfl
  have hpos : b.orphans.size ≠ 0 := fun h0 => by
    rw [eq_empty_iff_size_eq_zero.mpr h0] at hmem
    simp at hmem
  simp only [removeOrphanBlock, size_erase, hmem, if_true]
  omega

theorem size_remove_le : (b.removeOrphanBlock c o).orphans.size ≤ b.orphans.size :=
  size_erase_le

theorem Swept.oldest_gone (h : Swept c blocks b now order s) (hall : order.Perm b.orphans.keys)
    (hevict : ¬ CanEvict c b now) {old : OrphanBlock} (hold : s.oldestOrphan = some old) :
    old.block.blockHash c ∉ s.orphans := by
  unfold CanEvict at hevict
  push Not at hevict
  obtain ⟨before, hbefore, hgone, hlater⟩ := hevict
  rcases h.remembered with ⟨heq, -⟩ | ⟨k, o, hlive, -, hlt⟩
  · cases hold.symm.trans (heq.trans hbefore)
    intro hmem
    obtain ⟨o, ho⟩ := Option.isSome_iff_exists.mp (mem_iff_isSome_getElem?.mp hmem)
    exact hgone o (h.live_of_get hall ho).2
  · exact absurd (hlt before hbefore) (not_lt.mpr (hlater k o hlive))

theorem remove_absent (h : o.block.blockHash c ∉ b.orphans) : (b.removeOrphanBlock c o).orphans = b.orphans := by
  refine ext_getElem? fun k => ?_
  rw [getElem?_removeOrphanBlock]
  split_ifs with hk
  · exact (getElem?_eq_none (hk ▸ h)).symm
  · rfl

/-- An addition finds a place: there is room, an orphan can be evicted, or the block is there already. -/
def FindsPlace (c : Crypto) (b : OrphanPool) (now : Hash → Int) (block : MsgBlock) : Prop :=
  HasRoom b now ∨ CanEvict c b now ∨ ∃ o, b.Live now (block.blockHash c) o

theorem size_insert_le_iff {block : MsgBlock} {arrival : Int} (hs : s.orphans.size ≤ maxOrphanBlocks) :
    (s.insertOrphan c arrival block).orphans.size ≤ maxOrphanBlocks ↔
      s.orphans.size < maxOrphanBlocks ∨ block.blockHash c ∈ s.orphans := by
  simp only [insertOrphan, size_insert]
  by_cases hmem : block.blockHash c ∈ s.orphans
  · simp [hmem, hs]
  · simp [hmem]

theorem Matches.add (hone : OneParent c blocks) (h : Matches c blocks b) (now : Hash → Int) (arrival : Int)
    {block : MsgBlock} (hblock : block ∈ blocks) (hall : order.Perm b.orphans.keys) :
    ∃ t, b.addOrphanBlock c order now arrival block = some t ∧ Matches c blocks t ∧ (b.orphans.size ≤ maxOrphanBlocks →
        (t.orphans.size ≤ maxOrphanBlocks ↔ FindsPlace c b now block)) := by
  have hswept := swept_foldl hone h now order
  unfold addOrphanBlock
  generalize order.foldl (visitOrphan c now) b = s at hswept
  have hroom : HasRoom b now ↔ s.orphans.size < maxOrphanBlocks := by
    rw [HasRoom, ← hswept.orphans_eq hall]
  have hpooled : block.blockHash c ∈ s.orphans ↔ ∃ o, b.Live now (block.blockHash c) o := by
    rw [mem_iff_isSome_getElem?, Option.isSome_iff_exists]
    exact exists_congr fun o => ⟨fun ho => (hswept.live_of_get hall ho).2, hswept.get_of_live⟩
  unfold limitOrphans
  by_cases hfull : maxOrphanBlocks < s.orphans.size + 1
  · have hpos : 0 < s.orphans.size := lt_of_lt_of_le (by decide) (Nat.le_of_lt_succ hfull)
    obtain ⟨old, hold⟩ := hswept.exists_oldest hall hpos
    rw [if_pos hfull, hold]
    have hevicted := (hswept.sound.remove hone (hswept.sound.oldest hold)).clearOldest
    refine ⟨_, rfl, hevicted.insert arrival hblock, fun hle => ?_⟩
    have hsize : s.orphans.size ≤ maxOrphanBlocks := (hswept.size_le hall).trans hle
    refine (size_insert_le_iff (size_remove_le.trans hsize)).trans ?_
    rw [FindsPlace, hroom, ← hpooled]
    by_cases hevict : CanEvict c b now
    · have hlt := size_remove_lt (hswept.oldest_pooled hall hevict hold)
      simp only [hevict, true_or, or_true, iff_true]
      exact .inl (lt_of_lt_of_le hlt hsize)
    · rw [remove_absent (hswept.oldest_gone hall hevict hold)]
      simp only [hevict, false_or]
  · rw [if_neg hfull]
    refine ⟨_, rfl, hswept.sound.insert arrival hblock, fun hle => ?_⟩
    have hlt : s.orphans.size < maxOrphanBlocks := by omega
    rw [size_insert_le_iff hlt.le, FindsPlace, hroom]
    simp [hlt]

/-! ### Processing orphans -/

theorem nextOrphan_some {queue rest : List Hash} (h : b.nextOrphan queue = some (o, rest)) :
    (∃ p ∈ queue, o ∈ b.prevOrphans p) ∧ rest ⊆ queue ∧ ∀ q ∈ queue, q ∈ rest ∨ b.prevOrphans q = [] := by
  induction queue with
  | nil => cases h
  | cons p queue ih =>
    unfold nextOrphan at h
    cases hp : b.prevOrphans p with
    | nil =>
      rw [hp] at h
      obtain ⟨⟨q, hq, ho⟩, hrest, hempty⟩ := ih h
      refine ⟨⟨q, List.mem_cons_of_mem p hq, ho⟩, List.subset_cons_of_subset p hrest, ?_⟩
      exact List.forall_mem_cons.mpr ⟨.inr hp, hempty⟩
    | cons x xs =>
      rw [hp] at h
      cases h
      exact ⟨⟨p, List.mem_cons_self, hp ▸ List.mem_cons_self⟩, List.Subset.refl _, fun q hq => .inl hq⟩

theorem processLoop_spec (hone : OneParent c blocks) (accepts : MsgBlock → Bool) (fuel : Nat)
    (queue : List Hash) (h : Matches c blocks b) (hfuel : b.orphans.size < fuel) :
    ∃ t, Matches c blocks t ∧ t.orphans.size ≤ b.orphans.size ∧ (processLoop c accepts fuel queue b = .ok () t ∨
        processLoop c accepts fuel queue b = .error .rejected t) := by
  induction fuel generalizing queue b with
  | zero => cases hfuel
  | succ fuel ih =>
    unfold processLoop processOrphansLoop
    rw [run_get_bind]
    cases hnext : b.nextOrphan queue with
    | none => exact ⟨b, h, le_rfl, .inl rfl⟩
    | some next =>
      obtain ⟨orphan, rest⟩ := next
      dsimp only
      rw [run_modify_bind]
      obtain ⟨⟨p, -, hp⟩, -⟩ := nextOrphan_some hnext
      obtain ⟨hmem, -, hpooled⟩ := h.listed hp
      have hremoved := h.remove hone hmem
      have hlt := size_remove_lt hpooled
      by_cases haccepts : accepts orphan.block = true
      · rw [if_pos haccepts]
        obtain ⟨t, ht, hle, hrun⟩ := ih (rest ++ [orphan.block.blockHash c]) hremoved (by omega)
        exact ⟨t, ht, hle.trans hlt.le, hrun⟩
      · rw [if_neg haccepts]
        exact ⟨_, hremoved, hlt.le, .inr rfl⟩

/-! ### Runs -/

/-- The pools reached from the empty one by calls that meet a condition on the pool they find. -/
inductive Run (c : Crypto) (P : OrphanPool → Call → Prop) : OrphanPool → Prop
  | start : Run c P empty
  | call {b t : OrphanPool} (call : Call) : Run c P b → call.Ordered b → P b call →
      call.run c b = some t → Run c P t

def Call.Brings (blocks : Set MsgBlock) (call : Call) : Prop := ∀ block ∈ call.block, block ∈ blocks

/-- An addition finds a place; the other calls need none. -/
def Call.FindsPlace (c : Crypto) (b : OrphanPool) : Call → Prop
  | add _ now _ block => OrphanPool.FindsPlace c b now block
  | _ => True

theorem Matches.call (hone : OneParent c blocks) (h : Matches c blocks b) {call : Call}
    (hordered : call.Ordered b) (hblock : call.Brings blocks) : ∃ t, call.run c b = some t ∧ Matches c blocks t ∧
      (b.orphans.size ≤ maxOrphanBlocks → (t.orphans.size ≤ maxOrphanBlocks ↔ call.FindsPlace c b)) := by
  cases call with
  | add order now arrival block => exact h.add hone now arrival (hblock block rfl) hordered
  | remove orphan =>
    refine ⟨_, rfl, h.remove hone (hblock orphan.block rfl), fun hle => ?_⟩
    exact iff_of_true (size_remove_le.trans hle) trivial
  | process hash accepts =>
    obtain ⟨t, ht, hle, hrun⟩ :=
      processLoop_spec hone accepts (b.orphans.size + 1) [hash] h (Nat.lt_succ_self _)
    refine ⟨t, ?_, ht, fun hsize => iff_of_true (hle.trans hsize) trivial⟩
    rcases hrun with hrun | hrun
    · exact congrArg processed hrun
    · exact congrArg processed hrun

theorem Run.matches {P : OrphanPool → Call → Prop} (hone : OneParent c blocks)
    (hP : ∀ b call, P b call → call.Brings blocks) (hrun : Run c P b) : Matches c blocks b := by
  induction hrun with
  | start => exact matches_empty
  | call call _ hordered hcond hcall ih =>
    obtain ⟨t, ht, hmatch, -⟩ := ih.call hone hordered (hP _ _ hcond)
    cases ht.symm.trans hcall
    exact hmatch

theorem Run.size_le (hone : OneParent c blocks)
    (hrun : Run c (fun b call => call.Brings blocks ∧ call.FindsPlace c b) b) : b.orphans.size ≤ maxOrphanBlocks := by
  induction hrun with
  | start => simp [empty]
  | call call hrun hordered hcond hcall ih =>
    obtain ⟨t, ht, -, hsize⟩ :=
      (hrun.matches hone fun _ _ h => h.1).call hone hordered hcond.1
    cases ht.symm.trans hcall
    exact (hsize ih).mpr hcond.2

def SameBlocks (c : Crypto) (b : OrphanPool) : Prop :=
  (∀ (k : Hash) (o : OrphanBlock), b.orphans[k]? = some o → o.block.blockHash c = k) ∧
  (∀ p, ∀ o ∈ b.prevOrphans p, o.block.header.prevBlock = p) ∧
  ∀ k p, (∃ o, b.orphans[k]? = some o ∧ o.block.header.prevBlock = p) ↔
    ∃ o ∈ b.prevOrphans p, o.block.blockHash c = k

theorem Matches.sameBlocks (hone : OneParent c blocks) (h : Matches c blocks b) : SameBlocks c b := by
  refine ⟨?_, ?_, fun k p => ⟨?_, ?_⟩⟩
  · intro k o ho
    exact (h.pooled ho).2.1
  · intro p o ho
    exact (h.listed ho).2.1
  · rintro ⟨o, ho, rfl⟩
    exact (h.pooled ho).2.2
  · rintro ⟨o, ho, rfl⟩
    obtain ⟨hmem, hprev, o', ho'⟩ := h.listed ho
    obtain ⟨hmem', hhash, -⟩ := h.pooled ho'
    exact ⟨o', ho', (hone o'.block hmem' o.block hmem hhash).trans hprev⟩

/-- In every run the calls return and the map and the lists describe the same blocks. A call that starts
within the bound keeps it exactly when it finds a place, so that a run of such calls never leaves it. -/
theorem pool_bounded_where_place_found (c : Crypto) (blocks : Set MsgBlock) (hone : OneParent c blocks) :
    (∀ b, Run c (fun _ call => call.Brings blocks) b → SameBlocks c b ∧
      ∀ call : Call, call.Ordered b → call.Brings blocks → ∃ t, call.run c b = some t ∧
        (b.orphans.size ≤ maxOrphanBlocks → (t.orphans.size ≤ maxOrphanBlocks ↔ call.FindsPlace c b))) ∧
    ∀ b, Run c (fun b call => call.Brings blocks ∧ call.FindsPlace c b) b → b.orphans.size ≤ maxOrphanBlocks := by
  refine ⟨fun b hrun => ?_, fun b hrun => hrun.size_le hone⟩
  have hmatch : Matches c blocks b := hrun.matches hone fun _ _ h => h
  refine ⟨hmatch.sameBlocks hone, fun call hordered hbrings => ?_⟩
  obtain ⟨t, ht, -, hsize⟩ := hmatch.call hone hordered hbrings
  exact ⟨t, ht, hsize⟩

end

/-! ### A pool that grows beyond its bound -/

namespace Sample

/-- Hashes that read the version of a header. -/
def numbering : Crypto :=
  ⟨fun _ => 0, fun b => BitVec.ofNat 256 (leNat (b.take 4)), fun _ => 0, fun _ => 0, fun _ _ _ _ => false⟩

def firstParent : Hash := BitVec.ofNat 256 (2 ^ 32)

def otherParent : Hash := BitVec.ofNat 256 (2 ^ 33)

def numbered (n : Nat) : MsgBlock where
  header := {
    version := UInt32.ofNat n
    prevBlock := if n = 0 then firstParent else otherParent
    merkleRoot := 0
    timestamp := 0
    bits := 0
    height := 0
    size := 0
    nonce := 0
    validatingPubKey := zeroValidatingPubKey
    signature := zeroSignature }
  transactions := []

theorem blockHash_numbered {n : Nat} (hn : n < 2 ^ 32) : (numbered n).blockHash numbering = BitVec.ofNat 256 n := by
  have htake : (writeBlockHeader (numbered n).header).take 4 = leBytes 4 (UInt32.ofNat n).toNat := by
    simp only [writeBlockHeader, List.append_assoc]
    exact List.take_left' (length_leBytes 4 _)
  have hmod : (UInt32.ofNat n).toNat = n := UInt32.toNat_ofNat_of_lt' hn
  change BitVec.ofNat 256 (leNat ((writeBlockHeader (numbered n).header).take 4)) = _
  rw [htake, hmod, leNat_leBytes, Nat.mod_eq_of_lt (lt_of_lt_of_eq hn (by norm_num))]

def orphan (n : Nat) : OrphanBlock := ⟨numbered n, 0 + hour⟩

/-- Everything arrives at the time zero. -/
def arrive (b : OrphanPool) (n : Nat) : Call := .add b.orphans.keys (fun _ => 0) 0 (numbered n)

/-- Blocks `1` to `n` are in the pool, and block `0` is remembered as the oldest. -/
structure Filled (n : Nat) (b : OrphanPool) : Prop where
  size : b.orphans.size = n
  pooled {k : Hash} {o : OrphanBlock} : b.orphans[k]? = some o →
    o.expiration = hour ∧ ∃ i, 0 < i ∧ i ≤ n ∧ k = BitVec.ofNat 256 i
  oldest : b.oldestOrphan = some (orphan 0)

theorem foldl_visitOrphan_eq {b : OrphanPool} {now : Hash → Int} {old : OrphanBlock} (hold : b.oldestOrphan = some old)
    (hlive : ∀ (k : Hash) (o : OrphanBlock), b.orphans[k]? = some o →
      now k ≤ o.expiration ∧ old.expiration ≤ o.expiration) (order : List Hash) :
    order.foldl (visitOrphan numbering now) b = b := by
  induction order with
  | nil => rfl
  | cons k order ih =>
    have hvisit : b.visitOrphan numbering now k = b := by
      unfold visitOrphan
      cases hk : b.orphans[k]? with
      | none => rfl
      | some o =>
        obtain ⟨hnow, hexp⟩ := hlive k o hk
        dsimp only
        rw [if_neg (not_lt.mpr hnow), hold]
        exact if_neg (not_lt.mpr hexp)
    rw [List.foldl_cons, hvisit]
    exact ih

theorem Filled.foldl {n : Nat} {b : OrphanPool} (h : Filled n b) (order : List Hash) :
    order.foldl (visitOrphan numbering fun _ => 0) b = b := by
  refine foldl_visitOrphan_eq h.oldest (fun k o ho => ?_) order
  obtain ⟨hexp, -⟩ := h.pooled ho
  rw [hexp]
  exact ⟨by decide, by decide⟩

theorem Filled.not_mem {n m : Nat} {b : OrphanPool} (h : Filled n b) (hm : n < m ∨ m = 0)
    (hlt : m < 2 ^ 32) (hn : n < 2 ^ 32) : (numbered m).blockHash numbering ∉ b.orphans := by
  rw [blockHash_numbered hlt]
  intro hmem
  obtain ⟨o, ho⟩ := Option.isSome_iff_exists.mp (mem_iff_isSome_getElem?.mp hmem)
  obtain ⟨-, i, hpos, hle, heq⟩ := h.pooled ho
  have hnat : m % 2 ^ 256 = i % 2 ^ 256 := by simpa using congrArg BitVec.toNat heq
  rw [Nat.mod_eq_of_lt (by omega), Nat.mod_eq_of_lt (by omega)] at hnat
  omega

theorem Filled.insert {n : Nat} {b : OrphanPool} (h : Filled n b) (hn : n + 1 < 2 ^ 32) :
    Filled (n + 1) (b.insertOrphan numbering 0 (numbered (n + 1))) where
  size := by
    have hnew := h.not_mem (.inl (Nat.lt_succ_self n)) hn (by omega)
    simp only [insertOrphan, size_insert, contains_iff_mem, if_neg hnew, h.size]
  pooled {k o} ho := by
    simp only [insertOrphan, getElem?_insert, Std.compare_eq_iff_eq, blockHash_numbered hn] at ho
    split_ifs at ho with hk
    · cases ho
      exact ⟨zero_add _, n + 1, Nat.succ_pos n, le_rfl, hk.symm⟩
    · obtain ⟨hexp, i, hpos, hle, hi⟩ := h.pooled ho
      exact ⟨hexp, i, hpos, by omega, hi⟩
  oldest := h.oldest

theorem Filled.arrive {n : Nat} {b : OrphanPool} (h : Filled n b) (hn : n < maxOrphanBlocks) :
    (arrive b (n + 1)).run numbering b = some (b.insertOrphan numbering 0 (numbered (n + 1))) := by
  change (limitOrphans numbering (b.orphans.keys.foldl _ b)).map _ = _
  rw [h.foldl, limitOrphans, if_neg (by rw [h.size]; omega)]
  rfl

theorem Filled.overflow {b : OrphanPool} (h : Filled maxOrphanBlocks b) :
    ∃ t, (Sample.arrive b (maxOrphanBlocks + 1)).run numbering b = some t ∧ t.orphans.size = maxOrphanBlocks + 1 := by
  have hrun : (Sample.arrive b (maxOrphanBlocks + 1)).run numbering b = some (insertOrphan numbering 0
      (numbered (maxOrphanBlocks + 1))
      { b.removeOrphanBlock numbering (orphan 0) with oldestOrphan := none }) := by
    change (limitOrphans numbering (b.orphans.keys.foldl _ b)).map _ = _
    rw [h.foldl, limitOrphans, if_pos (by rw [h.size]; exact Nat.lt_succ_self _), h.oldest]
    rfl
  refine ⟨_, hrun, ?_⟩
  have habsent : (b.removeOrphanBlock numbering (orphan 0)).orphans = b.orphans :=
    remove_absent (h.not_mem (.inr rfl) (by decide) (by decide))
  have hnew := h.not_mem (m := maxOrphanBlocks + 1) (.inl (Nat.lt_succ_self _)) (by decide) (by decide)
  simp only [insertOrphan, habsent, size_insert, contains_iff_mem, if_neg hnew, h.size]

def blocks : Set MsgBlock := { block | ∃ n < 2 ^ 32, numbered n = block }

theorem oneParent_blocks : OneParent numbering blocks := by
  rintro _ ⟨n, hn, rfl⟩ _ ⟨m, hm, rfl⟩ heq
  rw [blockHash_numbered hn, blockHash_numbered hm] at heq
  have hnat : n % 2 ^ 256 = m % 2 ^ 256 := by simpa using congrArg BitVec.toNat heq
  rw [Nat.mod_eq_of_lt (by omega), Nat.mod_eq_of_lt (by omega)] at hnat
  rw [hnat]

abbrev Reached : OrphanPool → Prop := Run numbering fun _ call => call.Brings blocks

theorem Reached.arrive {b t : OrphanPool} (h : Reached b) {n : Nat} (hn : n < 2 ^ 32)
    (hrun : (Sample.arrive b n).run numbering b = some t) : Reached t := by
  refine h.call (Sample.arrive b n) (List.Perm.refl b.orphans.keys) ?_ hrun
  rintro _ ⟨⟩
  exact ⟨n, hn, rfl⟩

/-- Block `0` arrives, then block `1`. -/
def first : OrphanPool := empty.insertOrphan numbering 0 (numbered 0)

def second : OrphanPool :=
  insertOrphan numbering 0 (numbered 1) { first with oldestOrphan := some (orphan 0) }

/-- The parent of block `0` is known, and the block leaves the pool. -/
def third : OrphanPool := second.removeOrphanBlock numbering (orphan 0)

theorem reached_second : Reached second := by
  have hempty : Reached empty := Run.start
  have hfirst : Reached first := hempty.arrive (n := 0) (by decide) rfl
  exact hfirst.arrive (n := 1) (by decide) rfl

theorem reached_third : Reached third :=
  reached_second.call (.process firstParent fun _ => true) trivial (fun _ h => by cases h) rfl

theorem filled_third : Filled 1 third where
  size := by decide
  pooled {k o} ho := by
    rw [third, getElem?_removeOrphanBlock] at ho
    split_ifs at ho with hk
    simp only [second, first, insertOrphan, empty, getElem?_insert, Std.compare_eq_iff_eq, getElem?_empty] at ho
    split_ifs at ho with hone hzero
    · cases ho
      exact ⟨zero_add _, 1, one_pos, le_rfl, hone.symm.trans (blockHash_numbered (by decide))⟩
    · exact absurd hzero hk
  oldest := rfl

theorem exists_filled {n : Nat} (hpos : 0 < n) (hle : n ≤ maxOrphanBlocks) : ∃ b, Reached b ∧ Filled n b := by
  induction n, hpos using Nat.le_induction with
  | base => exact ⟨third, reached_third, filled_third⟩
  | succ n _ ih =>
    obtain ⟨b, hreached, hfilled⟩ := ih (by omega)
    have hsmall : n + 1 < 2 ^ 32 := lt_of_le_of_lt hle (by decide)
    exact ⟨_, hreached.arrive hsmall (hfilled.arrive (by omega)), hfilled.insert hsmall⟩

end Sample

/-- A block is remembered as the oldest orphan and leaves the pool when its parent is known. Once the pool
is full, the next block evicts nothing and the pool holds one block too many. -/
theorem pool_overflows_after_processOrphans : OneParent Sample.numbering Sample.blocks ∧
    ∃ b, Run Sample.numbering (fun _ call => call.Brings Sample.blocks) b ∧ b.orphans.size = maxOrphanBlocks + 1 := by
  obtain ⟨b, hreached, hfilled⟩ := Sample.exists_filled (by decide) (le_refl maxOrphanBlocks)
  obtain ⟨t, ht, hsize⟩ := hfilled.overflow
  exact ⟨Sample.oneParent_blocks, t, hreached.arrive (by decide) ht, hsize⟩

/-- The first two arrivals of that run find their place. -/
theorem pool_bounded_where_place_found_second : OneParent Sample.numbering Sample.blocks ∧
    Run Sample.numbering (fun b call => call.Brings Sample.blocks ∧ call.FindsPlace Sample.numbering b) Sample.second ∧
    SameBlocks Sample.numbering Sample.second ∧ Sample.second.orphans.size ≤ maxOrphanBlocks := by
  have hone := Sample.oneParent_blocks
  have hbrings : ∀ (b : OrphanPool) (n : Nat), n < 2 ^ 32 → (Sample.arrive b n).Brings Sample.blocks := by
    rintro b n hn _ ⟨⟩
    exact ⟨n, hn, rfl⟩
  have hrun : Run Sample.numbering
      (fun b call => call.Brings Sample.blocks ∧ call.FindsPlace Sample.numbering b) Sample.second := by
    refine .call (Sample.arrive Sample.first 1) ?_ (List.Perm.refl _) ⟨hbrings _ 1 (by decide), .inl ?_⟩ rfl
    · refine .call (Sample.arrive empty 0) .start (List.Perm.refl _) ⟨hbrings _ 0 (by decide), .inl ?_⟩ rfl
      exact lt_of_le_of_lt size_filter_le_size (by decide)
    · exact lt_of_le_of_lt size_filter_le_size (by decide)
  obtain ⟨hevery, hbounded⟩ := pool_bounded_where_place_found Sample.numbering Sample.blocks hone
  have hreached : Run Sample.numbering (fun _ call => call.Brings Sample.blocks) Sample.second :=
    Sample.reached_second
  exact ⟨hone, hrun, (hevery _ hreached).1, hbounded _ hrun⟩

end OrphanPool

end Prova
