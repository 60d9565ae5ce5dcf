import Prova.Blockchain.AcceptRun

/-!
# Checkpoint candidates (`blockchain/checkpoints.go`)

A candidate has to be `CheckpointConfirmations` blocks below the end of the main chain. The heights are
unsigned, and the highest block that is deep enough is looked for by subtracting: on a chain with fewer
blocks than that the difference wraps, and every block is deep enough.
-/

namespace Prova

def checkpointConfirmations : UInt32 := 2016

inductive CandidateError
  /-- The height of the block that was passed, and the one in the main chain. -/
  | heightMismatch (passed main : UInt32)
  | notInMainChain (height : UInt32)
  | chain (err : ChainError)
deriving DecidableEq

def isNonstandardTransaction (tx : MsgTx) : Bool :=
  tx.txOut.any fun txOut => getScriptClass txOut.pkScript == .nonStandardTy

namespace BlockChain

/-- `dbFetchHashByHeight`: the height index has the blocks of the main chain. -/
def fetchHashByHeight (b : BlockChain) (height : UInt32) : Option Hash :=
  (b.bestNode.chain.find? fun node => node.height == height).map (·.hash)

/-- `dbFetchHeaderByHash`. -/
def fetchHeaderByHash (b : BlockChain) (hash : Hash) : Except CandidateError BlockHeader :=
  match b.fetchBlock hash with
  | .error e => .error (.chain e)
  | .ok block => .ok block.header

/-- `dbFetchHeaderByHeight`. -/
def fetchHeaderByHeight (b : BlockChain) (height : UInt32) : Except CandidateError BlockHeader :=
  match b.fetchHashByHeight height with
  | none => .error (.notInMainChain height)
  | some hash => b.fetchHeaderByHash hash

/-- The last part of `IsCheckpointCandidate`: the blocks before and after the block have times in order
with its own, and its scripts are standard. -/
def checkNeighbours (b : BlockChain) (block : MsgBlock) (blockHeight : UInt32) :
    Except CandidateError Bool := do
  let prevHeader ← b.fetchHeaderByHash block.header.prevBlock
  let nextHeader ← b.fetchHeaderByHeight (blockHeight + 1)
  let curTime := block.header.timestamp
  if curTime < prevHeader.timestamp ∨ nextHeader.timestamp < curTime then return false
  else return !block.transactions.any isNonstandardTransaction

def isCheckpointCandidate (c : Crypto) (b : BlockChain) (block : MsgBlock) : Except CandidateError Bool :=
  match b.db.blockIndex (block.blockHash c) with
  | none => .ok false
  | some blockHeight => do
    reject (blockHeight ≠ block.height) (.heightMismatch block.height blockHeight)
    if b.bestNode.height - checkpointConfirmations < blockHeight then return false
    else b.checkNeighbours block blockHeight

/-- The block is in the main chain with enough blocks on top of it. -/
def Confirmed (c : Crypto) (b : BlockChain) (block : MsgBlock) : Prop :=
  ∃ height, b.db.blockIndex (block.blockHash c) = some height ∧
    height.toNat + checkpointConfirmations.toNat ≤ b.bestNode.height.toNat

/-- What else is asked of a candidate. The heights at the very end of the range do not pass either when
the difference has wrapped. -/
structure OtherwiseFit (c : Crypto) (b : BlockChain) (block : MsgBlock) : Prop where
  main : b.db.blockIndex (block.blockHash c) = some block.height
  height : block.height.toNat + checkpointConfirmations.toNat ≤ b.bestNode.height.toNat + 2 ^ 32
  neighbours : b.checkNeighbours block block.height = .ok true

theorem isCheckpointCandidate_eq_true {c : Crypto} {b : BlockChain} {block : MsgBlock} :
    isCheckpointCandidate c b block = .ok true ↔ b.db.blockIndex (block.blockHash c) = some block.height ∧
      block.height ≤ b.bestNode.height - checkpointConfirmations ∧ b.checkNeighbours block block.height = .ok true := by
  unfold isCheckpointCandidate
  cases hindex : b.db.blockIndex (block.blockHash c) with
  | none => simp
  | some blockHeight =>
    dsimp only
    rw [bind_unit_eq_ok, reject_eq_ok, not_not, Option.some_inj]
    refine and_congr_right fun heq => ?_
    subst heq
    by_cases hlt : b.bestNode.height - checkpointConfirmations < block.height
    · rw [if_pos hlt]
      simp [hlt]
    · rw [if_neg hlt]
      simp [UInt32.not_lt.mp hlt]

theorem toNat_sub_confirmations (best : UInt32) : (best - checkpointConfirmations).toNat =
    if checkpointConfirmations.toNat ≤ best.toNat then best.toNat - checkpointConfirmations.toNat
    else best.toNat + 2 ^ 32 - checkpointConfirmations.toNat := by
  have hconf : checkpointConfirmations.toNat = 2016 := rfl
  have hbest := best.toNat_lt
  rw [UInt32.toNat_sub, hconf]
  split <;> omega

/-- A candidate is deep enough if the main chain has that many blocks. -/
theorem candidate_confirmed_iff (c : Crypto) (b : BlockChain) (block : MsgBlock) :
    (isCheckpointCandidate c b block = .ok true → Confirmed c b block) ↔
      checkpointConfirmations ≤ b.bestNode.height ∨ ¬ OtherwiseFit c b block := by
  have hsub := toNat_sub_confirmations b.bestNode.height
  rw [isCheckpointCandidate_eq_true]
  simp only [UInt32.le_iff_toNat_le, hsub]
  by_cases hlong : checkpointConfirmations.toNat ≤ b.bestNode.height.toNat
  · refine iff_of_true (fun ⟨hmain, hle, _⟩ => ⟨_, hmain, ?_⟩) (.inl hlong)
    rw [if_pos hlong] at hle
    omega
  · rw [if_neg hlong, or_iff_right hlong]
    constructor
    · intro hdeep hfit
      obtain ⟨height, -, hle⟩ := hdeep ⟨hfit.main, Nat.le_sub_of_add_le hfit.height, hfit.neighbours⟩
      omega
    · intro hfit ⟨hmain, hle, hneighbours⟩
      have hconf : checkpointConfirmations.toNat = 2016 := rfl
      exact absurd ⟨hmain, by omega, hneighbours⟩ hfit

/-- With two blocks on genesis the first one is a candidate already. -/
theorem candidate_short_chain : AcceptRun Sample.crypto Sample.params false (fun _ _ _ => True) Sample.reorganized ∧
      isCheckpointCandidate Sample.crypto Sample.reorganized Sample.issueBlock = .ok true ∧
      Sample.reorganized.bestNode.height = 2 ∧ ¬ Confirmed Sample.crypto Sample.reorganized Sample.issueBlock := by
  have hheight : Sample.reorganized.bestNode.height = 2 := by decide +kernel
  refine ⟨Sample.reorganized_run, by decide +kernel, hheight, fun ⟨height, _, hle⟩ => ?_⟩
  rw [hheight] at hle
  exact absurd (Nat.le_trans (Nat.le_add_left _ _) hle) (by decide)

end BlockChain

end Prova
