import Prova.Blockchain.Merkle
import Prova.Chaincfg.SampleBlocks
import Prova.Provautil.Bloom
import Prova.Wire.ReadBlock

/-!
# Merkle blocks (`provautil/bloom/merkleblock.go`)

`NewMerkleBlock` proves to a client which transactions of a block match its filter: the branches of the
tree over the transaction hashes that lead to them. The header of a block has the root over two such
trees, the second one over the hashes with signatures, so the proof does not end at the header.
-/

namespace Prova

namespace Bloom

open List

/-- What a merkle block is made of. No more transactions than `maxTxPerBlock` fit into a block, so the
32 bits of the source are enough for the numbers of nodes. -/
structure MerkleBlock where
  numTx : Nat
  allHashes : List Hash
  finalHashes : List Hash
  matchedBits : List Bool
  bits : List Bool

def calcTreeWidth (numTx height : Nat) : Nat := (numTx + (1 <<< height) - 1) >>> height

def isParent (matchedBits : List Bool) (height pos : Nat) : Bool :=
  ((matchedBits.take ((pos + 1) <<< height)).drop (pos <<< height)).any id

variable (c : Crypto)

namespace MerkleBlock

def calcHash (m : MerkleBlock) : Nat → Nat → Except Panic Hash
  | 0, pos =>
    match m.allHashes[pos]? with
    | some hash => .ok hash
    | none => .error .indexOutOfRange
  | height + 1, pos => do
    let left ← m.calcHash height (pos * 2)
    let right ← if pos * 2 + 1 < calcTreeWidth m.numTx height then m.calcHash height (pos * 2 + 1) else pure left
    return hashMerkleBranches c left right

def traverseAndBuild (m : MerkleBlock) : Nat → Nat → Except Panic MerkleBlock
  | 0, pos => do
    let hash ← m.calcHash c 0 pos
    return { m with bits := m.bits ++ [isParent m.matchedBits 0 pos], finalHashes := m.finalHashes ++ [hash] }
  | height + 1, pos =>
    let isParent := isParent m.matchedBits (height + 1) pos
    let m := { m with bits := m.bits ++ [isParent] }
    if isParent = false then do
      let hash ← m.calcHash c (height + 1) pos
      return { m with finalHashes := m.finalHashes ++ [hash] }
    else do
      let m ← m.traverseAndBuild height (pos * 2)
      if pos * 2 + 1 < calcTreeWidth m.numTx height then m.traverseAndBuild height (pos * 2 + 1) else return m

end MerkleBlock

structure MsgMerkleBlock where
  header : BlockHeader
  transactions : UInt32
  hashes : List Hash
  flags : Bytes

/-- `AddTxHash`; the error is ignored. -/
def addTxHash (hashes : List Hash) (hash : Hash) : List Hash :=
  if maxTxPerBlock < hashes.length + 1 then hashes else hashes ++ [hash]

/-- The transactions in order, each matched against the filter that the ones before it left. -/
def matchTxs : Filter → List MsgTx → Except Panic (List Bool)
  | _, [] => return []
  | filter, tx :: txs => do
    let (filter, matched) ← matchTxAndUpdate c filter tx
    let matchedBits ← matchTxs filter txs
    return matched :: matchedBits

/-- The loop for the height of the tree. The width halves, so it ends. -/
def treeHeightFrom (numTx : Nat) : Nat → Nat → Nat
  | 0, height => height
  | fuel + 1, height => if 1 < calcTreeWidth numTx height then treeHeightFrom numTx fuel (height + 1) else height

def treeHeight (numTx : Nat) : Nat := treeHeightFrom numTx numTx 0

def setFlag (bits : List Bool) (flags : Bytes) (i : Nat) : Bytes :=
  flags.set (i / 8) (flags.getD (i / 8) 0 ||| if bits.getD i false then 1 <<< UInt8.ofNat (i % 8) else 0)

def packFlags (bits : List Bool) : Bytes :=
  (List.range bits.length).foldl (setFlag bits) (List.replicate ((bits.length + 7) / 8) 0)

/-- `NewMerkleBlock`: the message and the indices of the transactions that match. -/
def newMerkleBlock (block : MsgBlock) (filter : Filter) : Except Panic (MsgMerkleBlock × List UInt32) := do
  let numTx := block.transactions.length
  let matchedBits ← matchTxs c filter block.transactions
  let matchedIndices := (matchedBits.zipIdx.filter (·.1)).map fun entry => UInt32.ofNat entry.2
  let m : MerkleBlock := ⟨numTx, block.transactions.map (·.txHash c), [], matchedBits, []⟩
  let m ← m.traverseAndBuild c (treeHeight numTx) 0
  return (⟨block.header, UInt32.ofNat m.numTx, m.finalHashes.foldl addTxHash [], packFlags m.bits⟩, matchedIndices)

/-! ### The standard decoding of a partial tree -/

def unpackFlags (flags : Bytes) : List Bool :=
  (List.range (flags.length * 8)).map fun i => (flags.getD (i / 8) 0).toNat.testBit (i % 8)

/-- What a client does with the message: the root the hashes and flags lead to. All hashes are used, and
all flags but those that fill up the last byte. -/
def extractRoot (msg : MsgMerkleBlock) : Option Hash := do
  let numTx := msg.transactions.toNat
  if numTx = 0 ∨ numTx < msg.hashes.length then none
  let bits := unpackFlags msg.flags
  if bits.length < msg.hashes.length then none
  let (root, bits, hashes) ← Merkle.read (hashMerkleBranches c) numTx (treeHeight numTx) 0 bits msg.hashes
  if hashes = [] ∧ bits.length < 8 then some root else none

/-! ### The tree -/

theorem calcTreeWidth_eq (numTx height : Nat) : calcTreeWidth numTx height = Merkle.width numTx height := by
  rw [calcTreeWidth, Nat.shiftLeft_eq, Nat.one_mul, Nat.shiftRight_eq_div_pow, Merkle.width]

theorem treeHeight_eq (numTx : Nat) : treeHeight numTx = Nat.clog 2 numTx := by
  have hfrom : ∀ fuel height, height ≤ Nat.clog 2 numTx → Nat.clog 2 numTx ≤ height + fuel →
      treeHeightFrom numTx fuel height = Nat.clog 2 numTx := by
    intro fuel
    induction fuel with
    | zero =>
      intro height hle hfuel
      exact Nat.le_antisymm hle hfuel
    | succ fuel ih =>
      intro height hle hfuel
      rw [treeHeightFrom, calcTreeWidth_eq]
      by_cases hlt : height < Nat.clog 2 numTx
      · rw [if_pos, ih (height + 1) hlt (by omega)]
        rw [Merkle.lt_width_iff, Nat.one_mul]
        exact (Nat.lt_clog_iff_pow_lt (by decide)).mp hlt
      · have heq : height = Nat.clog 2 numTx := by omega
        rw [if_neg, heq]
        rw [Merkle.lt_width_iff, Nat.one_mul, Nat.not_lt, heq]
        exact Nat.le_pow_clog (by decide) _
  exact hfrom numTx 0 (Nat.zero_le _) (by
    rw [Nat.zero_add]
    exact Nat.clog_le_of_le_pow Nat.lt_two_pow_self.le)

namespace MerkleBlock

theorem calcHash_eq {m : MerkleBlock} (hm : m.allHashes.length = m.numTx) {height pos : Nat}
    (hpos : pos < Merkle.width m.numTx height) :
    m.calcHash c height pos = .ok (Merkle.node (hashMerkleBranches c) m.allHashes height pos) := by
  induction height generalizing pos with
  | zero =>
    rw [Merkle.width_zero, ← hm] at hpos
    rw [calcHash, getElem?_eq_getElem hpos, Merkle.node, Merkle.level, getD_eq_getElem?_getD, getElem?_eq_getElem hpos]
    rfl
  | succ height ih =>
    have hleft := Merkle.left_lt_width hpos
    rw [calcHash, ih hleft, ok_bind, calcTreeWidth_eq, Merkle.node_succ _ _ (by rwa [hm]), hm]
    split_ifs with hright
    · rw [ih hright]
      rfl
    · rfl

theorem traverseAndBuild_eq {m : MerkleBlock} (hm : m.allHashes.length = m.numTx) {height pos : Nat}
    (hpos : pos < Merkle.width m.numTx height) :
    m.traverseAndBuild c height pos = .ok { m with
      bits := m.bits ++ (Merkle.write (hashMerkleBranches c) m.allHashes (isParent m.matchedBits) height pos).1
      finalHashes := m.finalHashes ++ (Merkle.write (hashMerkleBranches c) m.allHashes (isParent m.matchedBits) height pos).2 } := by
  induction height generalizing m pos with
  | zero =>
    rw [traverseAndBuild, calcHash_eq c hm hpos]
    rfl
  | succ height ih =>
    have hleft := Merkle.left_lt_width hpos
    rw [traverseAndBuild, Merkle.write]
    cases hparent : isParent m.matchedBits (height + 1) pos with
    | false =>
      have hhash := calcHash_eq c (m := { m with bits := m.bits ++ [false] }) hm hpos
      simp only [if_pos, hhash]
      rfl
    | true =>
      have hl := ih (m := { m with bits := m.bits ++ [true] }) hm hleft
      simp only [Bool.true_eq_false, if_false, if_true, hl, ok_bind, calcTreeWidth_eq, hm]
      split_ifs with hright
      · refine (ih (by exact hm) (by exact hright)).trans ?_
        simp only [append_assoc, cons_append, nil_append]
      · simp only [append_assoc, cons_append, nil_append, append_nil]
        rfl

end MerkleBlock

/-! ### The flags -/

theorem testBit_flag (b : Bool) {i j : Nat} (hi : i < 8) (hj : j < 8) :
    (if b then (1 : UInt8) <<< UInt8.ofNat i else 0).toNat.testBit j = (b && decide (i = j)) := by
  have hall : ∀ b : Bool, ∀ i < 8, ∀ j < 8,
      (if b then (1 : UInt8) <<< UInt8.ofNat i else 0).toNat.testBit j = (b && decide (i = j)) := by decide
  exact hall b i hi j hj

def flagAt (flags : Bytes) (i : Nat) : Bool := (flags.getD (i / 8) 0).toNat.testBit (i % 8)

theorem flagAt_setFlag {bits : List Bool} {flags : Bytes} {i : Nat} (hi : i / 8 < flags.length) (j : Nat) :
    flagAt (setFlag bits flags i) j = (flagAt flags j || (bits.getD i false && decide (i = j))) := by
  unfold flagAt setFlag
  by_cases hbyte : i / 8 = j / 8
  · have hget : (flags.set (i / 8) (flags.getD (i / 8) 0 |||
        if bits.getD i false then 1 <<< UInt8.ofNat (i % 8) else 0)).getD (j / 8) 0 =
        flags.getD (i / 8) 0 ||| if bits.getD i false then 1 <<< UInt8.ofNat (i % 8) else 0 := by
      rw [← hbyte, getD_eq_getElem?_getD, getElem?_set_self hi]
      rfl
    have heq : decide (i % 8 = j % 8) = decide (i = j) := decide_eq_decide.mpr (by omega)
    rw [hget, UInt8.toNat_or, Nat.testBit_or, testBit_flag _ (Nat.mod_lt _ (by decide)) (Nat.mod_lt _ (by decide)), heq,
      hbyte]
  · have hne : i ≠ j := fun heq => hbyte (by rw [heq])
    rw [getD_eq_getElem?_getD, getElem?_set_ne hbyte, ← getD_eq_getElem?_getD, decide_eq_false hne,
      Bool.and_false, Bool.or_false]

theorem length_setFlag (bits : List Bool) (flags : Bytes) (i : Nat) : (setFlag bits flags i).length = flags.length :=
  length_set

theorem flagAt_foldl (bits : List Bool) {n : Nat} (hn : n ≤ bits.length) :
    let flags := (List.range n).foldl (setFlag bits) (List.replicate ((bits.length + 7) / 8) 0)
    flags.length = (bits.length + 7) / 8 ∧ ∀ j, flagAt flags j = (decide (j < n) && bits.getD j false) := by
  induction n with
  | zero =>
    refine ⟨length_replicate, fun j => ?_⟩
    have hbyte : (List.replicate ((bits.length + 7) / 8) (0 : UInt8)).getD (j / 8) 0 = 0 := by
      rw [getD_eq_getElem?_getD, getElem?_replicate]
      split_ifs <;> rfl
    rw [range_zero, foldl_nil, flagAt, hbyte, decide_eq_false (Nat.not_lt_zero j)]
    exact Nat.zero_testBit _
  | succ n ih =>
    obtain ⟨hlength, hflags⟩ := ih (by omega)
    rw [range_succ, foldl_append, foldl_cons, foldl_nil]
    refine ⟨(length_setFlag ..).trans hlength, fun j => ?_⟩
    rw [flagAt_setFlag (by rw [hlength]; omega), hflags]
    by_cases heq : n = j
    · subst heq
      simp
    · have hlt : decide (j < n + 1) = decide (j < n) := decide_eq_decide.mpr (by omega)
      rw [decide_eq_false heq, Bool.and_false, Bool.or_false, hlt]

theorem unpackFlags_packFlags (bits : List Bool) :
    ∃ pad, unpackFlags (packFlags bits) = bits ++ pad ∧ pad.length < 8 := by
  obtain ⟨hlength, hflags⟩ := flagAt_foldl bits le_rfl
  have hunpack : unpackFlags (packFlags bits) =
      (List.range ((bits.length + 7) / 8 * 8)).map fun j => decide (j < bits.length) && bits.getD j false := by
    rw [unpackFlags, packFlags, hlength]
    exact map_congr_left fun j _ => hflags j
  have hsplit : (bits.length + 7) / 8 * 8 = bits.length + ((bits.length + 7) / 8 * 8 - bits.length) := by omega
  refine ⟨List.replicate ((bits.length + 7) / 8 * 8 - bits.length) false, ?_, ?_⟩
  · rw [hunpack, hsplit, range_add, map_append, map_map]
    congr 1
    · refine ext_getElem (by simp) fun i hi hi' => ?_
      simp [hi']
    · refine eq_replicate_iff.mpr ⟨by simp, fun b hb => ?_⟩
      obtain ⟨j, -, rfl⟩ := mem_map.mp hb
      simp
  · rw [length_replicate]
    omega

/-! ### The root of a merkle block -/

theorem foldl_addTxHash {hashes added : List Hash} (h : added.length + hashes.length ≤ maxTxPerBlock) :
    hashes.foldl addTxHash added = added ++ hashes := by
  induction hashes generalizing added with
  | nil => rw [foldl_nil, append_nil]
  | cons hash hashes ih =>
    rw [length_cons] at h
    rw [foldl_cons, addTxHash, if_neg (by omega), ih (by rw [length_append, length_singleton]; omega),
      append_assoc, singleton_append]

theorem newMerkleBlock_eq {block : MsgBlock} {filter : Filter} {matchedBits : List Bool}
    (hne : block.transactions ≠ []) (hcount : block.transactions.length ≤ maxTxPerBlock)
    (hmatch : matchTxs c filter block.transactions = .ok matchedBits) :
    let walk := Merkle.write (hashMerkleBranches c) (block.transactions.map (·.txHash c)) (isParent matchedBits)
      (Nat.clog 2 block.transactions.length) 0
    ∃ matchedIndices, newMerkleBlock c block filter =
      .ok (⟨block.header, UInt32.ofNat block.transactions.length, walk.2, packFlags walk.1⟩, matchedIndices) := by
  intro walk
  have hpos : 0 < block.transactions.length := length_pos_iff.mpr hne
  have hroot : 0 < Merkle.width block.transactions.length (Nat.clog 2 block.transactions.length) :=
    Merkle.lt_width_iff.mpr (by omega)
  have hleaves : (block.transactions.map (·.txHash c)).length = block.transactions.length := length_map _
  have hlength : walk.2.length ≤ block.transactions.length := by
    have hle := (Merkle.length_write (hashMerkleBranches c) (block.transactions.map (·.txHash c)) (isParent matchedBits)
      (by rwa [hleaves])).1
    refine hle.trans ?_
    rw [Merkle.leavesBelow, hleaves]
    omega
  have hbuild := MerkleBlock.traverseAndBuild_eq c
    (m := ⟨block.transactions.length, block.transactions.map (·.txHash c), [], matchedBits, []⟩) hleaves hroot
  refine ⟨(matchedBits.zipIdx.filter (·.1)).map fun entry => UInt32.ofNat entry.2,
    bind_eq_ok.mpr ⟨matchedBits, hmatch, ?_⟩⟩
  dsimp only
  rw [treeHeight_eq, hbuild, ok_bind]
  dsimp only
  rw [nil_append, nil_append, foldl_addTxHash
    (by rw [length_nil, Nat.zero_add]; exact hlength.trans hcount), nil_append]
  rfl

theorem extractRoot_eq_some (header : BlockHeader) (keep : Nat → Nat → Bool) (root : Hash) {leaves : List Hash}
    (hne : leaves ≠ []) (hcount : leaves.length < 2 ^ 32) :
    let walk := Merkle.write (hashMerkleBranches c) leaves keep (Nat.clog 2 leaves.length) 0
    extractRoot c ⟨header, UInt32.ofNat leaves.length, walk.2, packFlags walk.1⟩ = some root ↔
      Merkle.Differ (hashMerkleBranches c) leaves keep (Nat.clog 2 leaves.length) 0 ∧
        Merkle.root (hashMerkleBranches c) leaves = root := by
  intro walk
  have hpos : 0 < leaves.length := length_pos_iff.mpr hne
  have hroot : 0 < Merkle.width leaves.length (Nat.clog 2 leaves.length) := Merkle.lt_width_iff.mpr (by omega)
  have hhashes : walk.2.length ≤ Merkle.leavesBelow leaves.length (Nat.clog 2 leaves.length) 0 :=
    (Merkle.length_write (hashMerkleBranches c) leaves keep hroot).1
  have hbits : walk.2.length ≤ walk.1.length := (Merkle.length_write (hashMerkleBranches c) leaves keep hroot).2
  have hbelow : Merkle.leavesBelow leaves.length (Nat.clog 2 leaves.length) 0 ≤ leaves.length := by
    rw [Merkle.leavesBelow]
    omega
  obtain ⟨pad, hunpack, hpad⟩ := unpackFlags_packFlags walk.1
  have hnum : (UInt32.ofNat leaves.length).toNat = leaves.length := UInt32.toNat_ofNat_of_lt' hcount
  have hnode := Merkle.node_clog (hashMerkleBranches c) hne
  have hread : ∀ out, Merkle.read (hashMerkleBranches c) leaves.length (Nat.clog 2 leaves.length) 0 (walk.1 ++ pad)
      (walk.2 ++ []) = some out ↔ Merkle.Differ (hashMerkleBranches c) leaves keep (Nat.clog 2 leaves.length) 0 ∧
        (Merkle.node (hashMerkleBranches c) leaves (Nat.clog 2 leaves.length) 0, pad, []) = out :=
    fun _ => Merkle.read_write_eq_some (hashMerkleBranches c) hroot
  simp only [append_nil] at hread
  have hunpackLength : ¬ (walk.1 ++ pad).length < walk.2.length := by
    rw [length_append]
    omega
  simp only [extractRoot, hnum, hunpack, treeHeight_eq]
  rw [if_neg (by omega), if_neg hunpackLength]
  simp only [Option.bind_eq_bind, Option.bind_eq_some_iff]
  constructor
  · rintro ⟨out, hout, hsome⟩
    obtain ⟨hdiffer, rfl⟩ := (hread out).mp hout
    rw [if_pos ⟨rfl, hpad⟩, hnode] at hsome
    exact ⟨hdiffer, Option.some.inj hsome⟩
  · rintro ⟨hdiffer, hr⟩
    refine ⟨_, (hread _).mpr ⟨hdiffer, rfl⟩, ?_⟩
    rw [if_pos ⟨rfl, hpad⟩, hnode, hr]

/-- A client gets to the root in the header exactly if hashing the root over the transaction hashes with
the root over the hashes with signatures gives the first of the two back, which is a fixed point of the
hash function. Apart from that, the filter has to be one that can be matched against, and neighbours
above a match have to have different hashes. -/
theorem newMerkleBlock_root_iff {block : MsgBlock} {filter : Filter} (hne : block.transactions ≠ [])
    (hcount : block.transactions.length ≤ maxTxPerBlock)
    (hroot : merkleRoot c block.transactions = some block.header.merkleRoot) :
    (∃ msg matchedIndices, newMerkleBlock c block filter = .ok (msg, matchedIndices) ∧
      extractRoot c msg = some block.header.merkleRoot) ↔
    ∃ matchedBits, matchTxs c filter block.transactions = .ok matchedBits ∧
      Merkle.Differ (hashMerkleBranches c) (block.transactions.map (·.txHash c)) (isParent matchedBits)
        (Nat.clog 2 block.transactions.length) 0 ∧
      hashMerkleBranches c (txHashRoot c block.transactions) (hashWithSigRoot c block.transactions) =
        txHashRoot c block.transactions := by
  have hheader : hashMerkleBranches c (txHashRoot c block.transactions) (hashWithSigRoot c block.transactions) =
      block.header.merkleRoot := Option.some.inj ((merkleRoot_eq c hne).symm.trans hroot)
  have hleaves : block.transactions.map (·.txHash c) ≠ [] := fun hnil => hne (map_eq_nil_iff.mp hnil)
  have hlength : (block.transactions.map (·.txHash c)).length = block.transactions.length := length_map _
  have hlt : (block.transactions.map (·.txHash c)).length < 2 ^ 32 := by
    rw [hlength]
    exact lt_of_le_of_lt hcount (by decide)
  have hextract := fun matchedBits => extractRoot_eq_some c block.header (isParent matchedBits)
    block.header.merkleRoot hleaves hlt
  simp only [hlength] at hextract
  constructor
  · intro ⟨msg, matchedIndices, hnew, hmsg⟩
    obtain ⟨matchedBits, hmatch, -⟩ := bind_eq_ok.mp hnew
    obtain ⟨_, hnew'⟩ := newMerkleBlock_eq c hne hcount hmatch
    cases hnew.symm.trans hnew'
    obtain ⟨hdiffer, hr⟩ := (hextract matchedBits).mp hmsg
    exact ⟨matchedBits, hmatch, hdiffer, hheader.trans hr.symm⟩
  · intro ⟨matchedBits, hmatch, hdiffer, hfixed⟩
    obtain ⟨_, hnew⟩ := newMerkleBlock_eq c hne hcount hmatch
    exact ⟨_, _, hnew, (hextract matchedBits).mpr ⟨hdiffer, hfixed.symm.trans hheader⟩⟩

/-- A block with one transaction, and a hash function that keeps the first 32 bytes. -/
def keptBlock : MsgBlock :=
  ⟨{ BlockHeader.Sample.longSignatureHeader with
      merkleRoot := Hash.ofBytes ((Sample.signedTx [1]).serializeStripped.take 32) }, [Sample.signedTx [1]]⟩

def firstBytes : Crypto :=
  ⟨fun b => BitVec.ofNat 256 (leNat b), fun _ => 0, fun _ => 0, fun _ => 0, fun _ _ _ _ => false⟩

theorem keptBlock_root : ∃ msg matchedIndices, newMerkleBlock firstBytes keptBlock none = .ok (msg, matchedIndices) ∧
      extractRoot firstBytes msg = some keptBlock.header.merkleRoot := by
  refine (newMerkleBlock_root_iff firstBytes (by decide) (by decide) (by decide +kernel)).mpr ⟨[false], rfl, ?_, ?_⟩
  · have hheight : Nat.clog 2 keptBlock.transactions.length = 0 := by decide
    rw [hheight]
    trivial
  · decide +kernel

/-- The header of a block has the root that validation asks for, and a client of its merkle block gets to
another one. -/
theorem issueBlock_root_differs :
    merkleRoot Sample.crypto Sample.issueBlock.transactions = some Sample.issueBlock.header.merkleRoot ∧
      ∃ msg matchedIndices, newMerkleBlock Sample.crypto Sample.issueBlock none = .ok (msg, matchedIndices) ∧
        ∃ root, extractRoot Sample.crypto msg = some root ∧ root ≠ Sample.issueBlock.header.merkleRoot := by
  have hrun : ((newMerkleBlock Sample.crypto Sample.issueBlock none).toOption.bind fun out =>
      extractRoot Sample.crypto out.1).any (· ≠ Sample.issueBlock.header.merkleRoot) = true := by decide +kernel
  refine ⟨by decide +kernel, ?_⟩
  obtain ⟨root, hroot, hne⟩ := (Option.any_eq_true ..).mp hrun
  obtain ⟨⟨msg, matchedIndices⟩, hnew, hextract⟩ := Option.bind_eq_some_iff.mp hroot
  exact ⟨msg, matchedIndices, eq_ok_of_toOption hnew, root, hextract, of_decide_eq_true hne⟩

/-! ### Decoding a partial tree -/

theorem isParent_eq_true {matchedBits : List Bool} {height pos : Nat} : isParent matchedBits height pos = true ↔
      ∃ i, pos * 2 ^ height ≤ i ∧ i < (pos + 1) * 2 ^ height ∧ matchedBits[i]? = some true := by
  rw [isParent, any_eq_true, Nat.shiftLeft_eq, Nat.shiftLeft_eq]
  simp only [id, exists_eq_right, mem_iff_getElem?, getElem?_drop, getElem?_take]
  constructor
  · rintro ⟨i, hi⟩
    split_ifs at hi with hlt
    exact ⟨_, Nat.le_add_right .., hlt, hi⟩
  · rintro ⟨i, hle, hlt, hi⟩
    exact ⟨i - pos * 2 ^ height, by rw [Nat.add_sub_cancel' hle, if_pos hlt, hi]⟩

theorem isParent_zero (matchedBits : List Bool) : isParent matchedBits 0 = fun i => matchedBits.getD i false := by
  funext i
  rw [Bool.eq_iff_iff, isParent_eq_true, getD_eq_getElem?_getD, pow_zero, Nat.mul_one, Nat.mul_one]
  constructor
  · rintro ⟨j, hle, hlt, hj⟩
    rw [Nat.le_antisymm hle (Nat.le_of_lt_succ hlt), hj]
    rfl
  · intro hi
    refine ⟨i, le_rfl, Nat.lt_succ_self i, ?_⟩
    cases hbit : matchedBits[i]? with
    | none => rw [hbit] at hi; exact absurd hi (by decide)
    | some bit => rw [hbit] at hi; exact congrArg some hi

/-- The hashes and bits that are built decode to the root over the transaction hashes and to the matched
ones, each at its position; nothing is left over. -/
theorem traverseAndBuild_decode (allHashes : List Hash) (matchedBits : List Bool) (hne : allHashes ≠ []) :
    ∃ m, MerkleBlock.traverseAndBuild c ⟨allHashes.length, allHashes, [], matchedBits, []⟩
        (treeHeight allHashes.length) 0 = .ok m ∧
      Merkle.decode (hashMerkleBranches c) allHashes.length (treeHeight allHashes.length) 0 m.bits m.finalHashes =
        some ((Merkle.root (hashMerkleBranches c) allHashes,
          ((List.range allHashes.length).filter (matchedBits.getD · false)).map fun i => (i, allHashes.getD i default)),
          [], []) := by
  have hroot : 0 < Merkle.width allHashes.length (Nat.clog 2 allHashes.length) := by
    rw [Merkle.lt_width_iff, Nat.zero_mul]
    exact length_pos_iff.mpr hne
  have hkeep : ∀ height pos, ∀ i ∈ Merkle.below allHashes.length height pos, isParent matchedBits 0 i = true →
      isParent matchedBits height pos = true := by
    intro height pos i hi hbit
    obtain ⟨j, hle, hlt, hj⟩ := isParent_eq_true.mp hbit
    rw [Merkle.below, mem_range'_1, Merkle.leavesBelow] at hi
    exact isParent_eq_true.mpr ⟨j, by omega, by omega, hj⟩
  rw [treeHeight_eq]
  refine ⟨_, MerkleBlock.traverseAndBuild_eq c rfl hroot, ?_⟩
  have hdecode := Merkle.decode_write (hashMerkleBranches c) hkeep hroot [] []
  rw [append_nil, append_nil, Merkle.node_clog _ hne, Merkle.below_clog, isParent_zero] at hdecode
  exact hdecode

theorem traverseAndBuild_decode_three :
    ∃ m, MerkleBlock.traverseAndBuild firstBytes ⟨3, [5, 6, 7], [], [false, false, true], []⟩ (treeHeight 3) 0 = .ok m ∧
      Merkle.decode (hashMerkleBranches firstBytes) 3 (treeHeight 3) 0 m.bits m.finalHashes =
        some ((Merkle.root (hashMerkleBranches firstBytes) [5, 6, 7], [(2, 7)]), [], []) :=
  traverseAndBuild_decode firstBytes [5, 6, 7] [false, false, true] (by decide)

end Bloom

end Prova
