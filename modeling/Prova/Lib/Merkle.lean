import Mathlib.Data.Nat.Log
import Mathlib.Data.List.Basic
import Mathlib.Tactic.Ring

/-!
# Hash trees with doubled odd nodes

The levels of a tree are made by combining neighbours; the last of an odd number is combined with itself.
A partial tree is written in depth-first order: one bit for each node that is visited, and a hash where
the walk does not descend. Reading it back gives the root, unless two different neighbours that the
walk descends into have the same hash, which the reader refuses.
-/

namespace Prova

namespace Merkle

open Option List

variable {α : Type} (combine : α → α → α)

/-! ### Levels -/

def pairUp : List α → List α
  | a :: b :: rest => combine a b :: pairUp rest
  | [a] => [combine a a]
  | [] => []

def level : Nat → List α → List α
  | 0, leaves => leaves
  | height + 1, leaves => pairUp combine (level height leaves)

theorem level_pairUp (height : Nat) (leaves : List α) :
    level combine height (pairUp combine leaves) = level combine (height + 1) leaves := by
  induction height with
  | zero => rfl
  | succ height ih => exact congrArg (pairUp combine) ih

/-- The number of nodes at a height of a tree with `n` leaves. -/
def width (n height : Nat) : Nat := (n + 2 ^ height - 1) / 2 ^ height

theorem lt_width_iff {n height pos : Nat} : pos < width n height ↔ pos * 2 ^ height < n := by
  have hpos : 0 < 2 ^ height := Nat.two_pow_pos height
  rw [width, ← Nat.succ_le_iff, Nat.le_div_iff_mul_le hpos, Nat.succ_mul]
  omega

theorem width_zero (n : Nat) : width n 0 = n := by
  rw [width, pow_zero, Nat.div_one, Nat.add_sub_cancel]

theorem width_succ (n height : Nat) : width n (height + 1) = (width n height + 1) / 2 := by
  refine Nat.le_antisymm (le_of_forall_lt fun pos hpos => ?_) (le_of_forall_lt fun pos hpos => ?_)
  · have hlt := lt_width_iff.mp hpos
    rw [pow_succ', ← Nat.mul_assoc] at hlt
    have := lt_width_iff.mpr hlt
    omega
  · have hlt : pos * 2 < width n height := by omega
    have := lt_width_iff.mp hlt
    refine lt_width_iff.mpr ?_
    rwa [pow_succ', ← Nat.mul_assoc]

theorem left_lt_width {n height pos : Nat} (hpos : pos < width n (height + 1)) : pos * 2 < width n height := by
  rw [width_succ] at hpos
  omega

theorem length_pairUp (l : List α) : (pairUp combine l).length = (l.length + 1) / 2 := by
  fun_induction pairUp combine l with
  | case1 a b rest ih =>
    rw [length_cons, ih, length_cons, length_cons]
    omega
  | case2 a => simp
  | case3 => simp

theorem length_level (leaves : List α) (height : Nat) :
    (level combine height leaves).length = width leaves.length height := by
  induction height with
  | zero => rw [level, width_zero]
  | succ height ih => rw [level, length_pairUp, ih, width_succ]

theorem getElem?_pairUp (l : List α) (pos : Nat) :
    (pairUp combine l)[pos]? = l[pos * 2]?.map fun left => combine left (l[pos * 2 + 1]?.getD left) := by
  induction pos generalizing l with
  | zero =>
    match l with
    | [] => rfl
    | [_] => rfl
    | _ :: _ :: _ => rfl
  | succ pos ih =>
    match l with
    | [] => rfl
    | [_] =>
      rw [getElem?_eq_none (by rw [length_pairUp, length_singleton]; omega),
        getElem?_eq_none (by rw [length_singleton]; omega)]
      rfl
    | a :: b :: rest =>
      have hindex : (pos + 1) * 2 = pos * 2 + 1 + 1 := by omega
      rw [pairUp, getElem?_cons_succ, ih, hindex]
      rfl

def root [Inhabited α] (leaves : List α) : α := (level combine (Nat.clog 2 leaves.length) leaves).headD default

theorem level_clog [Inhabited α] {leaves : List α} (h : leaves ≠ []) :
    level combine (Nat.clog 2 leaves.length) leaves = [root combine leaves] := by
  have hpos : 0 < leaves.length := length_pos_iff.mpr h
  have hone : (level combine (Nat.clog 2 leaves.length) leaves).length = 1 := by
    rw [length_level]
    have hlow : 0 < width leaves.length (Nat.clog 2 leaves.length) := lt_width_iff.mpr (by omega)
    have hhigh : ¬ 1 < width leaves.length (Nat.clog 2 leaves.length) := by
      rw [lt_width_iff, Nat.one_mul, Nat.not_lt]
      exact Nat.le_pow_clog (by decide) _
    omega
  obtain ⟨a, ha⟩ := length_eq_one_iff.mp hone
  rw [root, ha]
  rfl

/-! ### Partial trees -/

section

variable [Inhabited α] (leaves : List α) (keep : Nat → Nat → Bool)

def node (height pos : Nat) : α := (level combine height leaves).getD pos default

theorem node_succ {height pos : Nat} (hpos : pos < width leaves.length (height + 1)) :
    node combine leaves (height + 1) pos = combine (node combine leaves height (pos * 2))
        (if pos * 2 + 1 < width leaves.length height then node combine leaves height (pos * 2 + 1)
          else node combine leaves height (pos * 2)) := by
  have hleft : pos * 2 < (level combine height leaves).length := by
    rw [length_level]
    exact left_lt_width hpos
  simp only [node, level, getD_eq_getElem?_getD, getElem?_pairUp, getElem?_eq_getElem hleft,
    map_some, getD_some, ← length_level combine leaves height]
  split_ifs with hright
  · rw [getElem?_eq_getElem hright, getD_some, getD_some]
  · rw [getElem?_eq_none (Nat.le_of_not_lt hright), getD_none]

theorem node_clog {leaves : List α} (h : leaves ≠ []) :
    node combine leaves (Nat.clog 2 leaves.length) 0 = root combine leaves := by
  rw [node, level_clog combine h]
  rfl

/-- The walk below a node: a bit for each node, and the hashes at which it stops. -/
def write : Nat → Nat → List Bool × List α
  | 0, pos => ([keep 0 pos], [node combine leaves 0 pos])
  | height + 1, pos =>
    if keep (height + 1) pos then
      let left := write height (pos * 2)
      let right := if pos * 2 + 1 < width leaves.length height then write height (pos * 2 + 1) else ([], [])
      (true :: (left.1 ++ right.1), left.2 ++ right.2)
    else ([false], [node combine leaves (height + 1) pos])

/-- Where the walk descends, neighbours have different hashes. -/
def Differ : Nat → Nat → Prop
  | 0, _ => True
  | height + 1, pos =>
    keep (height + 1) pos = true → Differ height (pos * 2) ∧
      (pos * 2 + 1 < width leaves.length height → Differ height (pos * 2 + 1) ∧
        node combine leaves height (pos * 2 + 1) ≠ node combine leaves height (pos * 2))

def leavesBelow (n height pos : Nat) : Nat := min ((pos + 1) * 2 ^ height) n - pos * 2 ^ height

theorem leavesBelow_succ (n height pos : Nat) :
    leavesBelow n (height + 1) pos = leavesBelow n height (pos * 2) + leavesBelow n height (pos * 2 + 1) := by
  have hleft : (pos + 1) * 2 ^ (height + 1) = pos * 2 * 2 ^ height + 2 ^ height + 2 ^ height := by ring
  have hstart : pos * 2 ^ (height + 1) = pos * 2 * 2 ^ height := by ring
  have hmid : (pos * 2 + 1) * 2 ^ height = pos * 2 * 2 ^ height + 2 ^ height := by ring
  have hend : (pos * 2 + 1 + 1) * 2 ^ height = pos * 2 * 2 ^ height + 2 ^ height + 2 ^ height := by ring
  rw [leavesBelow, leavesBelow, leavesBelow, hleft, hstart, hmid, hend]
  omega

/-- The walk writes at most one hash for each leaf, and not more hashes than bits. -/
theorem length_write {height pos : Nat} (hpos : pos < width leaves.length height) :
    (write combine leaves keep height pos).2.length ≤ leavesBelow leaves.length height pos ∧
      (write combine leaves keep height pos).2.length ≤ (write combine leaves keep height pos).1.length := by
  have hone : ∀ {height pos}, pos < width leaves.length height → 1 ≤ leavesBelow leaves.length height pos := by
    intro height pos hpos
    have hlt := lt_width_iff.mp hpos
    have hpow := Nat.two_pow_pos height
    rw [leavesBelow, Nat.succ_mul]
    omega
  induction height generalizing pos with
  | zero => exact ⟨hone hpos, le_rfl⟩
  | succ height ih =>
    have hleft := left_lt_width hpos
    rw [write]
    split_ifs with hkeep hright
    · obtain ⟨hl, hlbits⟩ := ih hleft
      obtain ⟨hr, hrbits⟩ := ih hright
      rw [leavesBelow_succ]
      simp only [length_append, length_cons]
      omega
    · obtain ⟨hl, hlbits⟩ := ih hleft
      rw [leavesBelow_succ]
      simp only [length_append, length_cons, length_nil]
      omega
    · exact ⟨hone hpos, le_rfl⟩

end

/-! ### Reading -/

section

variable [DecidableEq α] (n : Nat)

/-- The reader of a partial tree with `n` leaves: the hash of the node, and what is left. -/
def read : Nat → Nat → List Bool → List α → Option (α × List Bool × List α)
  | 0, _, _ :: bits, hash :: hashes => some (hash, bits, hashes)
  | _ + 1, _, false :: bits, hash :: hashes => some (hash, bits, hashes)
  | height + 1, pos, true :: bits, hashes => do
    let (left, bits, hashes) ← read height (pos * 2) bits hashes
    if pos * 2 + 1 < width n height then
      let (right, bits, hashes) ← read height (pos * 2 + 1) bits hashes
      if right = left then none else some (combine left right, bits, hashes)
    else some (combine left left, bits, hashes)
  | _, _, _, _ => none

variable [Inhabited α] {leaves : List α} {keep : Nat → Nat → Bool}

/-- What was written is read back, unless neighbours have the same hash. -/
theorem read_write_eq_some {height pos : Nat} (hpos : pos < width leaves.length height) {bits : List Bool}
    {hashes : List α} {out : α × List Bool × List α} :
    read combine leaves.length height pos ((write combine leaves keep height pos).1 ++ bits)
        ((write combine leaves keep height pos).2 ++ hashes) = some out ↔
      Differ combine leaves keep height pos ∧ (node combine leaves height pos, bits, hashes) = out := by
  induction height generalizing pos bits hashes out with
  | zero =>
    rw [Differ, true_and]
    exact some_inj
  | succ height ih =>
    have hleft := left_lt_width hpos
    rw [write, Differ]
    split_ifs with hkeep hright
    · simp only [cons_append, append_assoc, read, bind_eq_bind, bind_eq_some_iff, ih hleft,
        if_pos hright, node_succ combine leaves hpos]
      constructor
      · intro ⟨_, ⟨hl, rfl⟩, _, hread, hout⟩
        obtain ⟨hr, rfl⟩ := (ih hright).mp hread
        split_ifs at hout with hne
        exact ⟨fun _ => ⟨hl, fun _ => ⟨hr, hne⟩⟩, Option.some.inj hout⟩
      · intro ⟨hdiffer, hout⟩
        obtain ⟨hl, hrest⟩ := hdiffer hkeep
        obtain ⟨hr, hne⟩ := hrest hright
        refine ⟨_, ⟨hl, rfl⟩, _, (ih hright).mpr ⟨hr, rfl⟩, ?_⟩
        rw [if_neg hne, hout]
    · simp only [cons_append, append_assoc, nil_append, read, bind_eq_bind,
        bind_eq_some_iff, ih hleft, if_neg hright, node_succ combine leaves hpos]
      constructor
      · intro ⟨_, ⟨hl, rfl⟩, hout⟩
        exact ⟨fun _ => ⟨hl, fun h => absurd h hright⟩, Option.some.inj hout⟩
      · intro ⟨hdiffer, hout⟩
        exact ⟨_, ⟨(hdiffer hkeep).1, rfl⟩, congrArg some hout⟩
    · rw [cons_append, cons_append, nil_append, nil_append, read, some_inj]
      exact ⟨fun h => ⟨fun hk => absurd hk hkeep, h⟩, fun h => h.2⟩

end

/-! ### Decoding -/

section

variable (n : Nat)

/-- A reader that does not compare neighbours. It also gives the hashes of the leaves with a set bit, with
their positions. -/
def decode : Nat → Nat → List Bool → List α → Option ((α × List (Nat × α)) × List Bool × List α)
  | 0, pos, bit :: bits, hash :: hashes => some ((hash, if bit then [(pos, hash)] else []), bits, hashes)
  | _ + 1, _, false :: bits, hash :: hashes => some ((hash, []), bits, hashes)
  | height + 1, pos, true :: bits, hashes => do
    let ((left, found), bits, hashes) ← decode height (pos * 2) bits hashes
    if pos * 2 + 1 < width n height then
      let ((right, found'), bits, hashes) ← decode height (pos * 2 + 1) bits hashes
      some ((combine left right, found ++ found'), bits, hashes)
    else some ((combine left left, found), bits, hashes)
  | _, _, _, _ => none

/-- The positions of the leaves below a node. -/
def below (height pos : Nat) : List Nat := List.range' (pos * 2 ^ height) (leavesBelow n height pos)

theorem below_eq_nil {height pos : Nat} (hpos : ¬ pos < width n height) : below n height pos = [] := by
  rw [lt_width_iff] at hpos
  have hnone : leavesBelow n height pos = 0 := by
    rw [leavesBelow]
    omega
  rw [below, hnone, range'_zero]

theorem below_succ (height pos : Nat) :
    below n (height + 1) pos = below n height (pos * 2) ++ below n height (pos * 2 + 1) := by
  have hstart : pos * 2 ^ (height + 1) = pos * 2 * 2 ^ height := by ring
  by_cases hright : pos * 2 + 1 < width n height
  · have hfull : (pos * 2 + 1) * 2 ^ height = pos * 2 * 2 ^ height + leavesBelow n height (pos * 2) := by
      have hlt := lt_width_iff.mp hright
      rw [leavesBelow, min_eq_left hlt.le, Nat.add_sub_cancel' (Nat.mul_le_mul_right _ (Nat.le_succ _))]
    rw [below, below, below, leavesBelow_succ, hstart, hfull, range'_append_1]
  · have hnone := below_eq_nil n hright
    rw [below, range'_eq_nil_iff] at hnone
    rw [below, below, below, leavesBelow_succ, hstart, hnone, range'_zero, append_nil, Nat.add_zero]
end

section

variable [Inhabited α] {leaves : List α} {keep : Nat → Nat → Bool}

/-- What was written is decoded, provided that the walk descends to every leaf that is kept. -/
theorem decode_write (hkeep : ∀ height pos, ∀ i ∈ below leaves.length height pos, keep 0 i = true → keep height pos = true)
    {height pos : Nat} (hpos : pos < width leaves.length height) (bits : List Bool) (hashes : List α) :
    decode combine leaves.length height pos ((write combine leaves keep height pos).1 ++ bits)
        ((write combine leaves keep height pos).2 ++ hashes) =
      some ((node combine leaves height pos, ((below leaves.length height pos).filter (keep 0)).map fun i =>
        (i, node combine leaves 0 i)), bits, hashes) := by
  induction height generalizing pos bits hashes with
  | zero =>
    rw [width_zero] at hpos
    have hone : below leaves.length 0 pos = [pos] := by
      have hone : leavesBelow leaves.length 0 pos = 1 := by
        rw [leavesBelow]
        omega
      rw [below, hone, pow_zero, Nat.mul_one, range'_one]
    cases hbit : keep 0 pos <;> simp [write, decode, hone, hbit]
  | succ height ih =>
    have hleft := ih (left_lt_width hpos)
    rw [write, below_succ, filter_append, map_append]
    split_ifs with hdescend hright
    · simp only [cons_append, append_assoc, decode, hleft, ih hright, if_pos hright,
        bind_eq_bind, bind_some, node_succ combine leaves hpos]
    · simp only [cons_append, decode, hleft, if_neg hright,
        bind_eq_bind, bind_some, node_succ combine leaves hpos, below_eq_nil _ hright, filter_nil, map_nil, append_nil]
    · have hnone : (below leaves.length (height + 1) pos).filter (keep 0) = [] :=
        filter_eq_nil_iff.mpr fun i hi hbit => hdescend (hkeep _ _ i hi hbit)
      rw [← map_append, ← filter_append, ← below_succ, hnone]
      rfl

theorem below_clog (n : Nat) : below n (Nat.clog 2 n) 0 = List.range n := by
  rw [below, leavesBelow, Nat.zero_mul, Nat.zero_add, Nat.one_mul, min_eq_right (Nat.le_pow_clog (by decide) n), Nat.sub_zero,
    range_eq_range']

end

end Merkle

end Prova
