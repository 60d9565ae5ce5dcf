import Prova.Blockchain.Run
import Mathlib.Algebra.Order.BigOperators.Group.Finset
import Mathlib.Algebra.Order.BigOperators.Group.List

/-!
# The share of one validator (`ratelimit.go`, `validate.go`)

The rule looks back over a window of blocks and counts those signed with the key of the new block. Seen
over a whole chain it bounds the share of every key in every window. The same rule asked in advance, for
a key that has not signed yet, starts the count with the last block and looks at one block less.
-/

namespace Prova

open Sample
open List hiding set

/-! ### Spaced histories -/

section

variable {α : Type} [DecidableEq α]

/-- In a history, newest first, every entry occurs less than `m` times among the `w` before it. -/
def Spaced (w m : Nat) : List α → Prop
  | [] => True
  | a :: rest => (rest.take w).countP (· = a) < m ∧ Spaced w m rest

theorem Spaced.drop {w m : Nat} {l : List α} (h : Spaced w m l) (i : Nat) : Spaced w m (l.drop i) := by
  induction i generalizing l with
  | zero => exact h
  | succ i ih =>
    cases l with
    | nil => exact h
    | cons a rest => exact ih h.2

theorem Spaced.countP_take_le {w m : Nat} {l : List α} (h : Spaced w m l) (a : α) :
    (l.take (w + 1)).countP (· = a) ≤ m := by
  induction l with
  | nil => simp
  | cons b rest ih =>
    rw [take_succ_cons]
    by_cases hab : b = a
    · rw [countP_cons_of_pos (by simpa using hab), ← hab]
      exact h.1
    · -- the window begins later and is contained in that of the rest
      rw [countP_cons_of_neg (by simpa using hab)]
      have hsub : (rest.take w).countP (· = a) ≤ (rest.take (w + 1)).countP (· = a) :=
        (take_sublist_take_left (Nat.le_succ w)).countP_le
      exact hsub.trans (ih h.2)

theorem sum_countP_le {keys l : List α} (hnodup : keys.Nodup) :
    (keys.map fun k => l.countP (· = k)).sum ≤ l.length := by
  rw [← sum_toFinset _ hnodup, ← sum_toFinset_count_eq_length l]
  refine Finset.sum_le_sum_of_ne_zero fun k _ hk => ?_
  rw [mem_toFinset]
  exact count_pos_iff.mp (Nat.pos_of_ne_zero hk)

theorem exists_countP_lt {keys l : List α} {m : Nat} (hnodup : keys.Nodup)
    (hlen : l.length < keys.length * m) : ∃ k ∈ keys, l.countP (· = k) < m := by
  by_contra hall
  push Not at hall
  have hsum : keys.length * m ≤ (keys.map fun k => l.countP (· = k)).sum := by
    have hle := card_nsmul_le_sum (keys.map fun k => l.countP (· = k)) m fun n hn => by
      obtain ⟨k, hk, rfl⟩ := mem_map.mp hn
      exact hall k hk
    simpa using hle
  exact absurd (hsum.trans (sum_countP_le hnodup)) (Nat.not_le.mpr hlen)

theorem countP_flatMap_replicate {keys : List α} {m : Nat} {key : α} (hnodup : keys.Nodup)
    (hkey : key ∈ keys) : (keys.flatMap fun k => List.replicate m k).countP (· = key) = m := by
  induction keys with
  | nil => cases hkey
  | cons k keys ih =>
    rw [nodup_cons] at hnodup
    rw [flatMap_cons, countP_append, countP_replicate]
    rcases mem_cons.mp hkey with rfl | hmem
    · have hnone : (keys.flatMap fun k => List.replicate m k).countP (· = key) = 0 := by
        rw [countP_eq_zero]
        intro x hx heq
        obtain ⟨k, hk, hmem⟩ := mem_flatMap.mp hx
        rw [eq_of_mem_replicate hmem] at heq
        exact hnodup.1 (of_decide_eq_true heq ▸ hk)
      rw [if_pos (decide_eq_true rfl), hnone, Nat.add_zero]
    · have hne : k ≠ key := fun heq => hnodup.1 (heq ▸ hmem)
      rw [ih hnodup.2 hmem, if_neg (by simpa using hne), Nat.zero_add]

end

/-! ### The rule -/

theorem shareExceeded_iff (key : BlockValidatingPubKey) (m count : Nat) (keys : List BlockValidatingPubKey) :
    shareExceeded key m count keys = true ↔ keys ≠ [] ∧ m ≤ count + keys.countP (· = key) := by
  induction keys generalizing count with
  | nil => simp [shareExceeded]
  | cons k keys ih =>
    unfold shareExceeded
    rw [Bool.or_eq_true, decide_eq_true_eq, ih, countP_cons]
    simp only [decide_eq_true_eq, ne_eq, reduceCtorEq, not_false_eq_true, true_and]
    -- an empty rest adds nothing, so the test after the last key is the test on the sum
    have hempty : keys = [] → keys.countP (· = key) = 0 := by
      rintro rfl
      rfl
    by_cases hrest : keys = []
    · simp only [hrest, not_true_eq_false, false_and, or_false]
      split <;> simp
    · simp only [hrest, not_false_eq_true, true_and]
      split <;> omega

def BlockNode.signersBefore (node : BlockNode) : List BlockValidatingPubKey :=
  node.ancestors.map (·.validatingPubKey)

theorem isValidateKeyRateLimited_iff {params : Params} (hmax : params.chainWindowMaxBlocks ≠ 0)
    (node : BlockNode) (key : BlockValidatingPubKey) : isValidateKeyRateLimited params node key false = true ↔
      params.chainWindowMaxBlocks ≤
        (node.signersBefore.take params.powAveragingWindow).countP (· = key) := by
  unfold isValidateKeyRateLimited isGenerationShareRateLimited BlockNode.signersBefore
  simp only [if_neg hmax, Bool.false_and, Bool.false_eq_true, if_false]
  rw [shareExceeded_iff, ← map_take, Nat.zero_add, and_iff_right_iff_imp]
  intro hle hnil
  rw [hnil, countP_nil] at hle
  exact hmax (Nat.le_zero.mp hle)

theorem isValidateKeyRateLimited_prospective_iff {params : Params}
    (hmax : params.chainWindowMaxBlocks ≠ 0) (node : BlockNode) (key : BlockValidatingPubKey) :
    isValidateKeyRateLimited params node key true = true ↔
      node.signersBefore.take (params.powAveragingWindow - 1) ≠ [] ∧
        params.chainWindowMaxBlocks ≤ (if key = node.validatingPubKey then 1 else 0) +
          (node.signersBefore.take (params.powAveragingWindow - 1)).countP (· = key) := by
  unfold isValidateKeyRateLimited isGenerationShareRateLimited BlockNode.signersBefore
  simp only [if_neg hmax, if_true, Bool.true_and, beq_iff_eq]
  rw [shareExceeded_iff, ← map_take]

theorem signersBefore_newBlockNode (c : Crypto) (header : BlockHeader) (tip : BlockNode) :
    (newBlockNode c header (some tip)).signersBefore = tip.validatingPubKey :: tip.signersBefore := rfl

/-! ### The share in every window -/

/-- A chain, newest block first, in which every block above the genesis block has passed
`checkConnectBlock`. -/
inductive ConnectedChain (c : Crypto) (params : Params) : List MsgBlock → BlockNode → Prop
  | genesis :
      ConnectedChain c params [params.genesisBlock] (newBlockNode c params.genesisBlock.header none)
  | connect {blocks : List MsgBlock} {node : BlockNode} {block : MsgBlock} {env : ConnectEnv}
      {utxoView : UtxoViewpoint} {keyView : KeyViewpoint} {s : ConnectState} :
      ConnectedChain c params blocks node → env.params = params →
      checkConnectBlock c env (newBlockNode c block.header (some node)) block utxoView keyView = .ok s →
        ConnectedChain c params (block :: blocks) (newBlockNode c block.header (some node))

section

variable {c : Crypto} {params : Params}

theorem not_rateLimited_of_connect {env : ConnectEnv} {node : BlockNode} {block : MsgBlock}
    {utxoView : UtxoViewpoint} {keyView : KeyViewpoint} {s : ConnectState}
    (h : checkConnectBlock c env node block utxoView keyView = .ok s) :
    isValidateKeyRateLimited env.params node block.header.validatingPubKey false = false := by
  unfold checkConnectBlock at h
  obtain ⟨view, -, h⟩ := bind_eq_ok.mp h
  obtain ⟨t, -, h⟩ := bind_eq_ok.mp h
  obtain ⟨u, hconnected, -⟩ := bind_eq_ok.mp h
  unfold checkConnected at hconnected
  obtain ⟨u, -, hconnected⟩ := bind_eq_ok.mp hconnected
  obtain ⟨u, -, hconnected⟩ := bind_eq_ok.mp hconnected
  obtain ⟨u, hlimit, -⟩ := bind_eq_ok.mp hconnected
  exact Bool.eq_false_iff.mpr (ruleError_eq_ok.mp hlimit)

theorem ConnectedChain.signers {blocks : List MsgBlock} {node : BlockNode} (h : ConnectedChain c params blocks node) :
    node.validatingPubKey :: node.signersBefore = blocks.map (·.header.validatingPubKey) := by
  induction h with
  | genesis => rfl
  | connect _ _ _ ih =>
    rw [signersBefore_newBlockNode, ih]
    rfl

theorem ConnectedChain.spaced {blocks : List MsgBlock} {node : BlockNode}
    (hmax : params.chainWindowMaxBlocks ≠ 0) (h : ConnectedChain c params blocks node) :
    Spaced params.powAveragingWindow params.chainWindowMaxBlocks
      (blocks.map (·.header.validatingPubKey)) := by
  induction h with
  | genesis =>
    refine ⟨?_, trivial⟩
    simpa using Nat.pos_of_ne_zero hmax
  | connect hchain henv hcheck ih =>
    refine ⟨?_, ih⟩
    have hpassed := not_rateLimited_of_connect hcheck
    rw [henv, ← Bool.not_eq_true, isValidateKeyRateLimited_iff hmax, signersBefore_newBlockNode,
      hchain.signers, Nat.not_le] at hpassed
    exact hpassed

/-- Among any `PowAveragingWindow + 1` consecutive blocks of a chain no key has signed more than
`ChainWindowMaxBlocks`. -/
theorem signedInWindow_le {blocks : List MsgBlock} {node : BlockNode}
    (hmax : params.chainWindowMaxBlocks ≠ 0) (h : ConnectedChain c params blocks node) (i : Nat)
    (key : BlockValidatingPubKey) : ((blocks.drop i).take (params.powAveragingWindow + 1)).countP
      (fun block => block.header.validatingPubKey = key) ≤ params.chainWindowMaxBlocks := by
  have hle := ((h.spaced hmax).drop i).countP_take_le key
  rw [← map_drop, ← map_take, countP_map] at hle
  exact hle

end

theorem signedInWindow_le_plainBlock : ([Sample.plainBlock, Sample.params.genesisBlock].take
      (Sample.params.powAveragingWindow + 1)).countP
        (fun block => block.header.validatingPubKey = Sample.plainBlock.header.validatingPubKey) ≤
      Sample.params.chainWindowMaxBlocks := by
  have hok : (checkConnectBlock crypto
      (BlockChain.createChainState crypto params false).env (newBlockNode crypto plainBlock.header
        (some (newBlockNode crypto params.genesisBlock.header none)))
      plainBlock (newUtxoViewpoint (params.genesisHash crypto))
      (BlockChain.genesisKeys crypto params)).isOk = true := by decide +kernel
  obtain ⟨s, hs⟩ := exists_ok_of_isOk hok
  exact signedInWindow_le (by decide) (ConnectedChain.genesis.connect rfl hs) 0 _

/-! ### A validator for the next block -/

section

variable {c : Crypto} {params : Params}

def signedNode (data : NodeData) (key : BlockValidatingPubKey) (keys : List BlockValidatingPubKey) :
    BlockNode :=
  ⟨{ data with validatingPubKey := key }, keys.map fun k => { data with validatingPubKey := k }⟩

theorem signersBefore_signedNode (data : NodeData) (key : BlockValidatingPubKey)
    (keys : List BlockValidatingPubKey) : (signedNode data key keys).signersBefore = keys := by
  simp [signedNode, BlockNode.signersBefore, Function.comp_def]

theorem minValidateKeySetSize_le_iff (hmax : params.chainWindowMaxBlocks ≠ 0) (n : Nat) :
    params.minValidateKeySetSize ≤ n ↔ params.powAveragingWindow ≤ n * params.chainWindowMaxBlocks := by
  unfold Params.minValidateKeySetSize
  rw [if_neg hmax, Int.ofNat_le, ← Nat.lt_succ_iff, Nat.div_lt_iff_lt_mul (Nat.pos_of_ne_zero hmax), Nat.succ_mul]
  omega

/-- Given enough keys for the floor, one of them can always sign the next block, whatever the chain, if
and only if the keys together may sign more blocks than the window has. -/
theorem exists_unlimited_key_iff (hmax : params.chainWindowMaxBlocks ≠ 0)
    {keys : List BlockValidatingPubKey} (hnodup : keys.Nodup) (hfloor : params.minValidateKeySetSize ≤ keys.length) :
    (∀ (tip : BlockNode) (header : BlockHeader), ∃ key ∈ keys,
      isValidateKeyRateLimited params (newBlockNode c header (some tip)) key false = false) ↔
    params.powAveragingWindow ≠ keys.length * params.chainWindowMaxBlocks := by
  rw [minValidateKeySetSize_le_iff hmax] at hfloor
  constructor
  · -- the keys have filled the window one after the other, each with all the blocks it may sign
    intro hall hwindow
    have hlen : (keys.flatMap fun k => List.replicate params.chainWindowMaxBlocks k).length =
        params.powAveragingWindow := by
      rw [hwindow, length_flatMap]
      simp
    let header := params.genesisBlock.header
    let data := (newBlockNode c header none).toNodeData
    cases hhistory : keys.flatMap fun k => List.replicate params.chainWindowMaxBlocks k with
    | nil =>
      obtain ⟨key, hkey, -⟩ := hall (newBlockNode c header none) header
      have hcount := countP_flatMap_replicate (m := params.chainWindowMaxBlocks) hnodup hkey
      rw [hhistory, countP_nil] at hcount
      exact hmax hcount.symm
    | cons last earlier =>
      obtain ⟨key, hkey, hpass⟩ := hall (signedNode data last earlier) header
      rw [← Bool.not_eq_true, isValidateKeyRateLimited_iff hmax, signersBefore_newBlockNode,
        signersBefore_signedNode] at hpass
      have hsigners : (signedNode data last earlier).validatingPubKey :: earlier =
          keys.flatMap fun k => List.replicate params.chainWindowMaxBlocks k := hhistory.symm
      rw [hsigners, take_of_length_le hlen.le, countP_flatMap_replicate hnodup hkey] at hpass
      exact hpass le_rfl
  · intro hwindow tip header
    have hlen : ((newBlockNode c header (some tip)).signersBefore.take
        params.powAveragingWindow).length < keys.length * params.chainWindowMaxBlocks :=
      (length_take_le _ _).trans_lt (lt_of_le_of_ne hfloor hwindow)
    obtain ⟨key, hkey, hlt⟩ := exists_countP_lt hnodup hlen
    refine ⟨key, hkey, ?_⟩
    rw [← Bool.not_eq_true, isValidateKeyRateLimited_iff hmax, Nat.not_le]
    exact hlt

end

/-! #### A network with one validator -/

/-- The sample network with one validate key and a window of one block. -/
def oneValidatorParams : Params :=
  { Sample.params with
    powAveragingWindow := 1
    chainWindowMaxBlocks := 1
    adminKeySets := fun
      | .validate => [RegTest.validateKey5]
      | set => RegTest.adminKeySets set }

def oneValidatorChain : BlockChain :=
  BlockChain.afterBlock Sample.crypto
    (BlockChain.createChainState Sample.crypto oneValidatorParams false) Sample.plainBlock

/-- The key of `plainBlock` as the rule compares it. -/
def oneValidatorKey : BlockValidatingPubKey := Sample.plainBlock.header.validatingPubKey

/-- The key set meets the floor, and its only key cannot sign the next block. -/
theorem oneValidator_stuck : BlockChain.Extends Sample.crypto
        (BlockChain.createChainState Sample.crypto oneValidatorParams false) Sample.plainBlock oneValidatorChain ∧
      oneValidatorParams.minValidateKeySetSize ≤ (oneValidatorChain.keys.adminKeySets .validate).length ∧
      ∀ key ∈ oneValidatorChain.keys.adminKeySets .validate, ∀ header : BlockHeader,
        header.validatingPubKey.val = key.serializeCompressed → isValidateKeyRateLimited oneValidatorParams
            (newBlockNode Sample.crypto header (some oneValidatorChain.bestNode))
            header.validatingPubKey false =
          true := by
  refine ⟨BlockChain.extends_afterBlock (by decide +kernel) (by decide +kernel), by decide +kernel, ?_⟩
  have hkeys : oneValidatorChain.keys.adminKeySets .validate = [RegTest.validateKey5] := by decide +kernel
  have hlast : oneValidatorChain.bestNode.validatingPubKey = oneValidatorKey := by decide +kernel
  rw [hkeys]
  intro key hkey header hheader
  rw [mem_singleton.mp hkey] at hheader
  have hsame : header.validatingPubKey = oneValidatorKey := by
    refine Subtype.ext (hheader.trans ?_)
    decide
  rw [hsame, isValidateKeyRateLimited_iff (by decide), signersBefore_newBlockNode, hlast]
  rfl

/-- The theorem on the floor at two keys of the sample network, which together may sign 62 blocks in a
window of 31. -/
theorem exists_unlimited_key_sample : ∃ key ∈ [oneValidatorKey, Sample.revokeBlock.header.validatingPubKey],
      isValidateKeyRateLimited Sample.params
        (newBlockNode Sample.crypto Sample.plainBlock.header (some oneValidatorChain.bestNode)) key false = false :=
  (exists_unlimited_key_iff (by decide) (by decide) (by decide)).mpr (by decide) _ _

/-! ### Asking in advance -/

/-- The answer for the next block given in advance is the verdict on that block, except for the key of
the last block when one block is the limit and there is no block before the last one to look at. -/
theorem prospective_eq_verdict_iff {c : Crypto} {params : Params} (hmax : params.chainWindowMaxBlocks ≠ 0)
    (hwindow : params.powAveragingWindow ≠ 0) (tip : BlockNode) (header : BlockHeader) (key : BlockValidatingPubKey) :
    isValidateKeyRateLimited params tip key true =
      isValidateKeyRateLimited params (newBlockNode c header (some tip)) key false ↔
    ¬ (params.chainWindowMaxBlocks = 1 ∧ key = tip.validatingPubKey ∧
      (params.powAveragingWindow = 1 ∨ tip.ancestors = [])) := by
  obtain ⟨w, hw⟩ := Nat.exists_eq_succ_of_ne_zero hwindow
  rw [Bool.eq_iff_iff, isValidateKeyRateLimited_prospective_iff hmax, isValidateKeyRateLimited_iff hmax,
    signersBefore_newBlockNode, hw, Nat.succ_sub_one, take_succ_cons, countP_cons]
  have hempty : tip.signersBefore.take w = [] ↔ w.succ = 1 ∨ tip.ancestors = [] := by
    rw [take_eq_nil_iff, BlockNode.signersBefore, map_eq_nil_iff, Nat.succ_inj]
  rw [← hempty]
  by_cases hk : key = tip.validatingPubKey
  · rw [if_pos hk, if_pos (decide_eq_true hk.symm)]
    by_cases hnil : tip.signersBefore.take w = []
    · -- nothing is looked at in advance, and only the last block afterwards
      simp only [hk, hnil, ne_eq, not_true_eq_false, false_and, and_true, countP_nil, false_iff]
      omega
    · simp only [hnil, ne_eq, not_false_eq_true, true_and, and_false, iff_true]
      rw [Nat.add_comm]
  · rw [if_neg hk, if_neg (by simpa using Ne.symm hk)]
    simp only [hk, false_and, and_false, not_false_eq_true, iff_true]
    by_cases hnil : tip.signersBefore.take w = []
    · simp only [hnil, ne_eq, not_true_eq_false, false_and, false_iff, countP_nil]
      omega
    · simp only [hnil, ne_eq, not_false_eq_true, true_and]
      rw [Nat.add_comm]

theorem prospective_eq_verdict_sample : isValidateKeyRateLimited Sample.params
        (newBlockNode Sample.crypto Sample.params.genesisBlock.header none) oneValidatorKey true =
      isValidateKeyRateLimited Sample.params (newBlockNode Sample.crypto Sample.plainBlock.header
          (some (newBlockNode Sample.crypto Sample.params.genesisBlock.header none))) oneValidatorKey false :=
  (prospective_eq_verdict_iff (by decide) (by decide) _ _ _).mpr (by decide)

/-- Asked in advance, the rule lets the key of the last block sign the next one too. -/
theorem prospective_ne_verdict : BlockChain.Extends Sample.crypto
        (BlockChain.createChainState Sample.crypto oneValidatorParams false) Sample.plainBlock oneValidatorChain ∧
      isValidateKeyRateLimited oneValidatorParams oneValidatorChain.bestNode oneValidatorKey true = false ∧
      ∀ header : BlockHeader, isValidateKeyRateLimited oneValidatorParams
        (newBlockNode Sample.crypto header (some oneValidatorChain.bestNode)) oneValidatorKey false =
          true := by
  have hlast : oneValidatorChain.bestNode.validatingPubKey = oneValidatorKey := by decide +kernel
  refine ⟨BlockChain.extends_afterBlock (by decide +kernel) (by decide +kernel), by decide +kernel,
    fun header => ?_⟩
  rw [isValidateKeyRateLimited_iff (by decide), signersBefore_newBlockNode, hlast]
  rfl

end Prova
