import Prova.Lib.Merkle
import Prova.Blockchain.Validate

/-!
# The Merkle tree of a block (`blockchain/merkle.go`)

`BuildMerkleTreeStore` keeps the tree in one array. Its leaves are the transaction hashes and, from the
next power of two on, the hashes with signatures, so the root is made of two roots: that of the tree
over the transaction hashes and that of the tree over the hashes with signatures.
-/

namespace Prova

open List Merkle

variable (c : Crypto)

/-! ### The array -/

/-- The parent of two entries: none without a left one, made of the left one twice without a right one. -/
def merkleParent (left right : Option Hash) : Option Hash :=
  left.map fun l => hashMerkleBranches c l (right.getD l)

/-- Hashes in a part of the array that has room for more. -/
def paddedTo (size : Nat) (hashes : List Hash) : List (Option Hash) :=
  hashes.map some ++ List.replicate (size - hashes.length) none

/-- One round of the loop, with `i` and `i + 1` the children at `2 * k` and `2 * k + 1`. -/
def storeParent (offset : Nat) (merkles : List (Option Hash)) (k : Nat) : List (Option Hash) :=
  merkles.set (offset + k) (merkleParent c (merkles.getD (2 * k) none) (merkles.getD (2 * k + 1) none))

def buildMerkleTreeStore (txs : List MsgTx) : List (Option Hash) :=
  let nextPoT := nextPowerOfTwo txs.length
  let arraySize := nextPoT * 2 * 2 - 1
  let merkles := paddedTo nextPoT (txs.map (·.txHash c)) ++ paddedTo nextPoT (txs.map (·.txHashWithSig c)) ++
    List.replicate (arraySize - nextPoT * 2) none
  (List.range ((arraySize - 1) / 2)).foldl (storeParent c (nextPoT * 2)) merkles

theorem foldl_storeParent_level {offset k s : Nat} {done level : List (Option Hash)} (made : List (Option Hash)) (r : Nat)
    (hdone : done.length = 2 * k) (hlevel : level.length = 2 * s)
    (hoffset : offset + k = done.length + level.length + made.length) :
    (List.range' k s).foldl (storeParent c offset) (done ++ level ++ made ++ List.replicate (s + r) none) =
      done ++ level ++ (made ++ merkleLevel c level) ++ List.replicate r none := by
  induction s generalizing k done level made with
  | zero =>
    rw [Nat.mul_zero, length_eq_zero_iff] at hlevel
    simp [hlevel, merkleLevel]
  | succ s ih =>
    match level, hlevel with
    | left :: right :: rest, hlevel =>
      rw [length_cons, length_cons] at hlevel hoffset
      have hstep : storeParent c offset (done ++ left :: right :: rest ++ made ++ List.replicate (s + 1 + r) none) k =
          (done ++ [left, right]) ++ rest ++ (made ++ [merkleParent c left right]) ++ List.replicate (s + r) none := by
        have hset : offset + k = (done ++ left :: right :: rest ++ made).length := by
          simp only [length_append, length_cons]
          omega
        have hleft : (done ++ left :: right :: rest ++ made ++ List.replicate (s + 1 + r) none).getD (2 * k) none =
            left := by
          rw [← hdone, append_assoc, append_assoc, getD_eq_getElem?_getD, getElem?_append_right le_rfl, Nat.sub_self]
          rfl
        have hright : (done ++ left :: right :: rest ++ made ++ List.replicate (s + 1 + r) none).getD (2 * k + 1)
            none = right := by
          rw [← hdone, append_assoc, append_assoc, getD_eq_getElem?_getD,
            getElem?_append_right (Nat.le_add_right _ _), Nat.add_sub_cancel_left]
          rfl
        rw [storeParent, hleft, hright, hset, set_append_right _ _ le_rfl, Nat.sub_self,
          show s + 1 + r = (s + r) + 1 by omega, replicate_succ, set_cons_zero]
        simp
      rw [range'_succ, foldl_cons, hstep, ih _ (by rw [length_append, hdone]; rfl) (by omega)
        (by simp only [length_append, length_cons, length_nil]; omega)]
      simp [merkleLevel, merkleParent]

theorem length_merkleLevel {level : List (Option Hash)} {s : Nat} (h : level.length = 2 * s) :
    (merkleLevel c level).length = s := by
  induction s generalizing level with
  | zero =>
    rw [Nat.mul_zero, length_eq_zero_iff] at h
    rw [h]
    rfl
  | succ s ih =>
    match level, h with
    | left :: right :: rest, h =>
      rw [merkleLevel, length_cons, ih (by simp only [length_cons] at h; omega)]

theorem foldl_storeParent_root (offset : Nat) {k j : Nat} {done level : List (Option Hash)} (hdone : done.length = 2 * k)
    (hlevel : level.length = 2 ^ (j + 1)) (hoffset : offset + k = done.length + level.length) :
    ((List.range' k (2 ^ (j + 1) - 1)).foldl (storeParent c offset)
      (done ++ level ++ List.replicate (2 ^ (j + 1) - 1) none)).getLast? =
        some ((merkleLevels c (j + 1) level).headD none) := by
  induction j generalizing k done level with
  | zero =>
    have hfold := foldl_storeParent_level c [] 0 hdone (s := 1) hlevel hoffset
    match level, hlevel with
    | [left, right], _ =>
      rw [append_nil] at hfold
      rw [show 2 ^ (0 + 1) - 1 = 1 by rfl, hfold]
      simp [merkleLevel, merkleLevels]
  | succ j ih =>
    have hpow : 2 ^ (j + 1 + 1) = 2 * 2 ^ (j + 1) := by rw [pow_succ']
    have hpos : 0 < 2 ^ (j + 1) := Nat.two_pow_pos _
    have hsplit : 2 ^ (j + 1 + 1) - 1 = 2 ^ (j + 1) + (2 ^ (j + 1) - 1) := by omega
    have hfold := foldl_storeParent_level c [] (2 ^ (j + 1) - 1) hdone (hlevel.trans hpow) hoffset
    rw [append_nil, nil_append] at hfold
    rw [hsplit, ← range'_append_1, foldl_append, hfold, merkleLevels]
    refine ih ?_ (length_merkleLevel c (hlevel.trans hpow)) ?_
    · rw [length_append]
      omega
    · rw [length_append, length_merkleLevel c (hlevel.trans hpow)]
      omega

/-! ### The two roots -/

theorem nextPowerOfTwo_eq {n : Nat} (hn : n ≠ 0) : nextPowerOfTwo n = 2 ^ Nat.clog 2 n := by
  rw [nextPowerOfTwo]
  split_ifs with hbits
  · obtain ⟨k, rfl⟩ := (Nat.and_sub_one_eq_zero_iff_isPowerOfTwo hn).mp hbits
    rw [Nat.clog_pow 2 k (by decide)]
  · have hpow := mt (Nat.and_sub_one_eq_zero_iff_isPowerOfTwo hn).mpr hbits
    have hlow : 2 ^ n.log2 ≤ n := Nat.log2_self_le hn
    have hhigh : n < 2 ^ (n.log2 + 1) := Nat.lt_log2_self
    have hne : 2 ^ n.log2 ≠ n := fun heq => hpow ⟨_, heq.symm⟩
    have hle : Nat.clog 2 n ≤ n.log2 + 1 := Nat.clog_le_of_le_pow hhigh.le
    have hlt : n.log2 < Nat.clog 2 n := (Nat.lt_clog_iff_pow_lt (by decide)).mpr (lt_of_le_of_ne hlow hne)
    rw [show Nat.clog 2 n = n.log2 + 1 by omega]

theorem merkleLevel_append {left : List (Option Hash)} {s : Nat} (h : left.length = 2 * s)
    (right : List (Option Hash)) : merkleLevel c (left ++ right) = merkleLevel c left ++ merkleLevel c right := by
  induction s generalizing left with
  | zero =>
    rw [Nat.mul_zero, length_eq_zero_iff] at h
    rw [h]
    rfl
  | succ s ih =>
    match left, h with
    | a :: b :: rest, h =>
      simp only [length_cons] at h
      rw [cons_append, cons_append, merkleLevel, ih (by omega), merkleLevel, cons_append]

theorem length_paddedTo {size : Nat} {hashes : List Hash} (h : hashes.length ≤ size) :
    (paddedTo size hashes).length = size := by
  rw [paddedTo, length_append, length_map, length_replicate]
  omega

theorem merkleLevel_paddedTo {size : Nat} {hashes : List Hash} (h : hashes.length ≤ 2 * size) :
    merkleLevel c (paddedTo (2 * size) hashes) = paddedTo size (pairUp (hashMerkleBranches c) hashes) := by
  have hnone : ∀ size, merkleLevel c (List.replicate (2 * size) none) = List.replicate size none := by
    intro size
    induction size with
    | zero => rfl
    | succ size ih =>
      rw [Nat.mul_succ, replicate_succ, replicate_succ, merkleLevel, ih]
      rfl
  induction size generalizing hashes with
  | zero =>
    rw [length_eq_zero_iff.mp (Nat.le_zero.mp h)]
    rfl
  | succ size ih =>
    match hashes, h with
    | [], _ => exact hnone (size + 1)
    | [a], _ =>
      have hpad : paddedTo (2 * (size + 1)) [a] = some a :: none :: List.replicate (2 * size) none := by
        rw [paddedTo, length_singleton, show 2 * (size + 1) - 1 = 2 * size + 1 by omega, replicate_succ]
        rfl
      rw [hpad, merkleLevel, hnone]
      rfl
    | a :: b :: rest, h =>
      simp only [length_cons] at h
      have hpad : paddedTo (2 * (size + 1)) (a :: b :: rest) = some a :: some b :: paddedTo (2 * size) rest := by
        simp only [paddedTo, length_cons, show 2 * (size + 1) - (rest.length + 1 + 1) = 2 * size - rest.length by
          omega]
        rfl
      rw [hpad, merkleLevel, ih (by omega), pairUp]
      simp [paddedTo]

theorem merkleLevels_halves {height : Nat} {left right : List Hash} (hleft : left.length ≤ 2 ^ height)
    (hright : right.length ≤ 2 ^ height) :
    merkleLevels c height (paddedTo (2 ^ height) left ++ paddedTo (2 ^ height) right) =
      paddedTo 1 (level (hashMerkleBranches c) height left) ++
        paddedTo 1 (level (hashMerkleBranches c) height right) := by
  induction height generalizing left right with
  | zero => rfl
  | succ height ih =>
    have hpow : 2 ^ (height + 1) = 2 * 2 ^ height := by rw [pow_succ']
    rw [hpow] at hleft hright
    have hhalf : ∀ hashes : List Hash, hashes.length ≤ 2 * 2 ^ height →
        (pairUp (hashMerkleBranches c) hashes).length ≤ 2 ^ height := by
      intro hashes h
      rw [length_pairUp]
      omega
    rw [hpow, merkleLevels, merkleLevel_append c (length_paddedTo hleft), merkleLevel_paddedTo c hleft,
      merkleLevel_paddedTo c hright, ih (hhalf _ hleft) (hhalf _ hright), level_pairUp, level_pairUp]

/-- The root over the transaction hashes, and the one over the hashes with signatures. -/
def txHashRoot (txs : List MsgTx) : Hash := Merkle.root (hashMerkleBranches c) (txs.map (·.txHash c))

def hashWithSigRoot (txs : List MsgTx) : Hash := Merkle.root (hashMerkleBranches c) (txs.map (·.txHashWithSig c))

theorem merkleLevels_succ (height : Nat) (level : List (Option Hash)) :
    merkleLevels c (height + 1) level = merkleLevel c (merkleLevels c height level) := by
  induction height generalizing level with
  | zero => rfl
  | succ height ih => exact ih (merkleLevel c level)

theorem merkleRoot_eq {txs : List MsgTx} (h : txs ≠ []) :
    merkleRoot c txs = some (hashMerkleBranches c (txHashRoot c txs) (hashWithSigRoot c txs)) := by
  have hn : txs.length ≠ 0 := fun h' => h (length_eq_zero_iff.mp h')
  have hle : txs.length ≤ 2 ^ Nat.clog 2 txs.length := Nat.le_pow_clog (by decide) _
  have hroot : ∀ f : MsgTx → Hash, level (hashMerkleBranches c) (Nat.clog 2 txs.length) (txs.map f) =
      [root (hashMerkleBranches c) (txs.map f)] := by
    intro f
    have hne : txs.map f ≠ [] := fun hnil => h (map_eq_nil_iff.mp hnil)
    have hlevel := level_clog (hashMerkleBranches c) hne
    rwa [length_map] at hlevel
  have hlevels : merkleLevels c (Nat.clog 2 txs.length)
      (paddedTo (2 ^ Nat.clog 2 txs.length) (txs.map (·.txHash c)) ++
        paddedTo (2 ^ Nat.clog 2 txs.length) (txs.map (·.txHashWithSig c))) =
      [some (txHashRoot c txs), some (hashWithSigRoot c txs)] := by
    rw [merkleLevels_halves c (by rwa [length_map]) (by rwa [length_map]), hroot, hroot]
    rfl
  have hdef : merkleRoot c txs = (merkleLevels c ((nextPowerOfTwo txs.length).log2 + 1)
      (paddedTo (nextPowerOfTwo txs.length) (txs.map (·.txHash c)) ++
        paddedTo (nextPowerOfTwo txs.length) (txs.map (·.txHashWithSig c)))).headD none := rfl
  rw [hdef, nextPowerOfTwo_eq hn, Nat.log2_two_pow, merkleLevels_succ, hlevels]
  rfl

theorem getLast?_buildMerkleTreeStore {txs : List MsgTx} (h : txs ≠ []) :
    (buildMerkleTreeStore c txs).getLast? = some (merkleRoot c txs) := by
  have hn : txs.length ≠ 0 := fun h' => h (length_eq_zero_iff.mp h')
  have hle : txs.length ≤ 2 ^ Nat.clog 2 txs.length := Nat.le_pow_clog (by decide) _
  have hpos : 0 < 2 ^ Nat.clog 2 txs.length := Nat.two_pow_pos _
  have hpow : 2 ^ (Nat.clog 2 txs.length + 1) = 2 ^ Nat.clog 2 txs.length * 2 := pow_succ ..
  have hleaves : (paddedTo (2 ^ Nat.clog 2 txs.length) (txs.map (·.txHash c)) ++
      paddedTo (2 ^ Nat.clog 2 txs.length) (txs.map (·.txHashWithSig c))).length = 2 ^ (Nat.clog 2 txs.length + 1) := by
    rw [length_append, length_paddedTo (by rwa [length_map]), length_paddedTo (by rwa [length_map]), hpow]
    omega
  have hstore := foldl_storeParent_root c (2 ^ Nat.clog 2 txs.length * 2) (k := 0) rfl hleaves
    (by rw [length_nil, Nat.zero_add, Nat.add_zero, hleaves, hpow])
  rw [nil_append, hpow] at hstore
  rw [buildMerkleTreeStore, nextPowerOfTwo_eq hn, range_eq_range',
    show (2 ^ Nat.clog 2 txs.length * 2 * 2 - 1 - 1) / 2 = 2 ^ Nat.clog 2 txs.length * 2 - 1 by omega,
    show 2 ^ Nat.clog 2 txs.length * 2 * 2 - 1 - 2 ^ Nat.clog 2 txs.length * 2 =
      2 ^ Nat.clog 2 txs.length * 2 - 1 by omega, hstore]
  simp only [merkleRoot, nextPowerOfTwo_eq hn, Nat.log2_two_pow]
  rfl

/-- The last entry of the array is made of the roots of the two trees. -/
theorem buildMerkleTreeStore_root (tx : MsgTx) (txs : List MsgTx) : (buildMerkleTreeStore c (tx :: txs)).getLast? =
    some (some (hashMerkleBranches c (txHashRoot c (tx :: txs)) (hashWithSigRoot c (tx :: txs)))) := by
  have hne : tx :: txs ≠ [] := cons_ne_nil tx txs
  rw [getLast?_buildMerkleTreeStore c hne, merkleRoot_eq c hne]

end Prova
