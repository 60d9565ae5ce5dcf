import Prova.Blockchain.InputChecks
import Prova.Chaincfg.SampleBlocks
import Prova.Mempool.Policy

/-!
# The thread rules, twice

`CheckTransactionInputs` and `checkInputsStandard` each have their own copy of the rules for inputs
that spend thread outputs. Both are cut here into these rules and the rest, and both copies read back
as the same rules with one difference: the consensus rule asks for the position of the input in its
transaction, the mempool for the index of the output it spends.
-/

namespace Prova

open List

variable {hasAdminIn hasAdminOut : Bool} {txIns : List TxIn} {tx : MsgTx} {utxoView : UtxoViewpoint}

/-! ### Consensus -/

/-- The part of `checkInput` about threads. -/
def checkInputThread (tx : MsgTx) (utxoView : UtxoViewpoint) (hasAdminOut hasAdminIn : Bool)
    (input : TxIn × Nat) : Except ChainError Bool :=
  let prevOut := input.1.previousOutPoint
  match utxoView.lookupEntry prevOut.hash with
  | none => throw (.rule .missingTx)
  | some utxoEntry => do
    let hasAdminIn ← checkThreadInput tx hasAdminOut input.2
      ((utxoEntry.pkScriptByIndex prevOut.index).getD []) hasAdminIn
    ruleError (hasAdminOut ∧ ¬ hasAdminIn) .invalidAdminTx
    return hasAdminIn

/-- The thread rules of `CheckTransactionInputs`. -/
def checkTransactionThreads (tx : MsgTx) (utxoView : UtxoViewpoint) : Except ChainError Unit :=
  if isCoinBase tx then .ok ()
  else do
    let _ ← tx.txIn.zipIdx.foldlM (checkInputThread tx utxoView (getAdminDetails tx).isSome) false
    return ()

/-! ### Mempool -/

namespace Mempool

/-- The rules of `checkInputsStandard` for an input that spends a thread output. -/
def checkThreadStandard (tx : MsgTx) (hasAdminOut : Bool) (prevOut : OutPoint)
    (originPkScript : Bytes) : Except TxError Unit := do
  txRuleError (prevOut.index ≠ 0) .invalidAdmin
  txRuleError (¬ hasAdminOut) .invalidAdmin
  txRuleError ((tx.txOut.headD ⟨0, []⟩).pkScript.take 2 ≠ originPkScript.take 2) .invalidAdmin

/-- The loop of `checkInputsStandard` with the thread rules only. -/
def checkThreadsStandardFrom (tx : MsgTx) (utxoView : UtxoViewpoint) (hasAdminOut : Bool) :
    Bool → List TxIn → Except TxError Unit
  | _, [] => .ok ()
  | hasAdminIn, txIn :: txIns =>
    let prevOut := txIn.previousOutPoint
    match utxoView.lookupEntry prevOut.hash with
    | none => .error (.chain .panic)
    | some entry => do
      let originPkScript := (entry.pkScriptByIndex prevOut.index).getD []
      let isThread : Bool := getScriptClass originPkScript = .provaAdminTy
      if isThread then checkThreadStandard tx hasAdminOut prevOut originPkScript else .ok ()
      txRuleError (hasAdminOut ∧ ¬ (hasAdminIn || isThread)) .invalidAdmin
      checkThreadsStandardFrom tx utxoView hasAdminOut (hasAdminIn || isThread) txIns

def checkThreadsStandard (tx : MsgTx) (utxoView : UtxoViewpoint) : Except TxError Unit :=
  checkThreadsStandardFrom tx utxoView (getAdminDetails tx).isSome false tx.txIn

end Mempool

/-! ### What the two copies say -/

/-- What a view shows for the inputs: the outpoints with the scripts of the outputs. -/
def originScripts (utxoView : UtxoViewpoint) (txIns : List TxIn) : Option (List (OutPoint × Bytes)) :=
  txIns.mapM fun txIn => (utxoView.lookupEntry txIn.previousOutPoint.hash).map fun entry =>
    (txIn.previousOutPoint, (entry.pkScriptByIndex txIn.previousOutPoint.index).getD [])

/-- The rules from an input on, with the position rule as a parameter; the flag says whether a thread
output was spent before. -/
def ThreadsFrom (position : Nat → OutPoint → Prop) (hasAdminOut : Bool) (pkScript : Bytes) :
    Bool → Nat → List (OutPoint × Bytes) → Prop
  | _, _, [] => True
  | hasAdminIn, i, p :: ps =>
    (isThreadScript p.2 →
      position i p.1 ∧ hasAdminOut = true ∧ pkScript.take 2 = p.2.take 2) ∧
    (hasAdminOut = true → (hasAdminIn || decide (getScriptClass p.2 = .provaAdminTy)) = true) ∧
    ThreadsFrom position hasAdminOut pkScript
      (hasAdminIn || decide (getScriptClass p.2 = .provaAdminTy)) (i + 1) ps

theorem originScripts_cons {txIn : TxIn} {entry : UtxoEntry}
    (hentry : utxoView.lookupEntry txIn.previousOutPoint.hash = some entry) {P : List (OutPoint × Bytes) → Prop} :
    (∃ ps, originScripts utxoView (txIn :: txIns) = some ps ∧ P ps) ↔ ∃ ps, originScripts utxoView txIns = some ps ∧
        P ((txIn.previousOutPoint, (entry.pkScriptByIndex txIn.previousOutPoint.index).getD []) :: ps) := by
  unfold originScripts
  simp only [mapM_cons, hentry, Option.map_some, Option.bind_eq_bind, Option.bind_some,
    Option.bind_eq_some_iff, Option.pure_def, Option.some.injEq]
  constructor
  · rintro ⟨_, ⟨ps, hps, rfl⟩, hP⟩
    exact ⟨ps, hps, hP⟩
  · rintro ⟨ps, hps, hP⟩
    exact ⟨_, ⟨ps, hps, rfl⟩, hP⟩

theorem originScripts_none {txIn : TxIn} (hentry : utxoView.lookupEntry txIn.previousOutPoint.hash = none) :
    originScripts utxoView (txIn :: txIns) = none := by
  unfold originScripts
  simp [mapM_cons, hentry]

theorem checkInputThread_eq_ok {b : Bool} {txIn : TxIn} {i : Nat} {entry : UtxoEntry}
    (hentry : utxoView.lookupEntry txIn.previousOutPoint.hash = some entry) {script : Bytes}
    (hscript : (entry.pkScriptByIndex txIn.previousOutPoint.index).getD [] = script) :
    checkInputThread tx utxoView hasAdminOut hasAdminIn (txIn, i) = .ok b ↔
      (isThreadScript script → i = 0 ∧ hasAdminOut = true ∧ (tx.txOut.headD ⟨0, []⟩).pkScript.take 2 = script.take 2) ∧
      (hasAdminOut = true → (hasAdminIn || decide (getScriptClass script = .provaAdminTy)) = true) ∧
      (hasAdminIn || decide (getScriptClass script = .provaAdminTy)) = b := by
  unfold checkInputThread checkThreadInput isThreadScript
  simp only [hentry, hscript]
  by_cases hclass : getScriptClass script = .provaAdminTy
  · simp only [hclass, if_true, decide_true, Bool.or_true, bind_eq_ok, pure_eq_ok, ruleError_eq_ok,
      exists_const, not_and, not_not, true_imp_iff, ne_eq]
    constructor
    · rintro ⟨a, ⟨h₁, h₂, h₃, rfl⟩, -, rfl⟩
      exact ⟨⟨h₁, h₂, h₃⟩, fun _ => trivial, rfl⟩
    · rintro ⟨⟨h₁, h₂, h₃⟩, -, rfl⟩
      exact ⟨true, ⟨h₁, h₂, h₃, rfl⟩, fun _ => rfl, rfl⟩
  · simp only [hclass, if_false, decide_false, Bool.or_false, bind_eq_ok, pure_eq_ok, ruleError_eq_ok,
      exists_const, not_and, not_not, false_imp_iff, true_and, exists_eq_left']

theorem checkInputThreads_iff {i : Nat} :
    (∃ b, (txIns.zipIdx i).foldlM (checkInputThread tx utxoView hasAdminOut) hasAdminIn = .ok b) ↔
      ∃ ps, originScripts utxoView txIns = some ps ∧
        ThreadsFrom (fun i _ => i = 0) hasAdminOut (tx.txOut.headD ⟨0, []⟩).pkScript hasAdminIn i
          ps := by
  induction txIns generalizing hasAdminIn i with
  | nil => exact ⟨fun _ => ⟨[], rfl, trivial⟩, fun _ => ⟨hasAdminIn, rfl⟩⟩
  | cons txIn txIns ih =>
    rw [zipIdx_cons]
    cases hentry : utxoView.lookupEntry txIn.previousOutPoint.hash with
    | none =>
      simp only [foldlM_cons_eq_ok, originScripts_none hentry, checkInputThread, hentry, throw_eq_ok,
        false_and, exists_false, reduceCtorEq]
    | some entry =>
      rw [originScripts_cons hentry]
      simp only [foldlM_cons_eq_ok, ThreadsFrom, checkInputThread_eq_ok hentry rfl]
      constructor
      · rintro ⟨b, m, ⟨hthread, hadmin, rfl⟩, hrest⟩
        obtain ⟨ps, hps, hfrom⟩ := ih.mp ⟨b, hrest⟩
        exact ⟨ps, hps, hthread, hadmin, hfrom⟩
      · rintro ⟨ps, hps, hthread, hadmin, hfrom⟩
        obtain ⟨b, hrest⟩ := ih.mpr ⟨ps, hps, hfrom⟩
        exact ⟨b, _, ⟨hthread, hadmin, rfl⟩, hrest⟩

theorem Mempool.checkThreadsStandardFrom_iff (i : Nat) :
    checkThreadsStandardFrom tx utxoView hasAdminOut hasAdminIn txIns = .ok () ↔
      ∃ ps, originScripts utxoView txIns = some ps ∧
        ThreadsFrom (fun _ o => o.index = 0) hasAdminOut (tx.txOut.headD ⟨0, []⟩).pkScript hasAdminIn i
          ps := by
  induction txIns generalizing hasAdminIn i with
  | nil => exact ⟨fun _ => ⟨[], rfl, trivial⟩, fun _ => rfl⟩
  | cons txIn txIns ih =>
    rw [checkThreadsStandardFrom]
    cases hentry : utxoView.lookupEntry txIn.previousOutPoint.hash with
    | none => simp only [originScripts_none hentry, reduceCtorEq, false_and, exists_false]
    | some entry =>
      rw [originScripts_cons hentry]
      simp only [ThreadsFrom, isThreadScript]
      by_cases hclass : getScriptClass
          ((entry.pkScriptByIndex txIn.previousOutPoint.index).getD []) = .provaAdminTy
      · simp only [hclass, decide_true, if_true, true_imp_iff, checkThreadStandard, bind_unit_eq_ok,
          ih (i + 1), txRuleError_eq_ok, not_and, not_not, ne_eq]
        constructor
        · rintro ⟨hthread, hadmin, ps, hps, hfrom⟩
          exact ⟨ps, hps, hthread, hadmin, hfrom⟩
        · rintro ⟨ps, hps, hthread, hadmin, hfrom⟩
          exact ⟨hthread, hadmin, ps, hps, hfrom⟩
      · simp only [hclass, decide_false, Bool.false_eq_true, if_false, false_imp_iff, true_and,
          bind_unit_eq_ok, ih (i + 1), txRuleError_eq_ok, not_and, not_not]
        constructor
        · rintro ⟨hadmin, ps, hps, hfrom⟩
          exact ⟨ps, hps, hadmin, hfrom⟩
        · rintro ⟨ps, hps, hadmin, hfrom⟩
          exact ⟨hadmin, ps, hps, hfrom⟩

theorem threadsFrom_iff {position : Nat → OutPoint → Prop} {pkScript : Bytes} {i : Nat} {ps : List (OutPoint × Bytes)} :
    ThreadsFrom position hasAdminOut pkScript hasAdminIn i ps ↔
      (∀ p ∈ ps, isThreadScript p.2 → hasAdminOut = true ∧ pkScript.take 2 = p.2.take 2) ∧
      (hasAdminOut = true → ∀ p ∈ ps.head?, hasAdminIn = true ∨ isThreadScript p.2) ∧
      ∀ j p, ps[j]? = some p → isThreadScript p.2 → position (i + j) p.1 := by
  induction ps generalizing hasAdminIn i with
  | nil => simp [ThreadsFrom]
  | cons p ps ih =>
    rw [ThreadsFrom, ih, forall_mem_cons]
    simp only [Bool.or_eq_true, decide_eq_true_eq]
    constructor
    · rintro ⟨hp, hadmin, hps, -, hpos⟩
      refine ⟨⟨fun h => (hp h).2, hps⟩, fun hout q hq => ?_, fun j q hq hthread => ?_⟩
      · cases hq
        exact hadmin hout
      · cases j with
        | zero =>
          cases hq
          exact (hp hthread).1
        | succ j =>
          have hj := hpos j q hq hthread
          rwa [Nat.add_assoc, Nat.add_comm 1 j] at hj
    · rintro ⟨⟨hp, hps⟩, hadmin, hpos⟩
      have hfirst : hasAdminOut = true → hasAdminIn = true ∨ isThreadScript p.2 :=
        fun hout => hadmin hout p rfl
      refine ⟨fun h => ⟨hpos 0 p rfl h, hp h⟩, hfirst, hps, fun hout q _ => .inl (hfirst hout),
        fun j q hq hthread => ?_⟩
      have hj := hpos (j + 1) q hq hthread
      rwa [Nat.add_comm j 1, ← Nat.add_assoc] at hj

/-- The rules that both copies have: who spends a thread output continues its thread, and an admin
transaction spends one with its first input. -/
structure ThreadRules (tx : MsgTx) (ps : List (OutPoint × Bytes)) : Prop where
  continues : ∀ p ∈ ps, isThreadScript p.2 → (getAdminDetails tx).isSome = true ∧
    (tx.txOut.headD ⟨0, []⟩).pkScript.take 2 = p.2.take 2
  spends : (getAdminDetails tx).isSome = true → ∀ p ∈ ps.head?, isThreadScript p.2

def FirstInputOnly (ps : List (OutPoint × Bytes)) : Prop :=
  ∀ j p, ps[j]? = some p → isThreadScript p.2 → j = 0

def FirstOutputOnly (ps : List (OutPoint × Bytes)) : Prop :=
  ∀ p ∈ ps, isThreadScript p.2 → p.1.index = 0

theorem checkTransactionThreads_iff : checkTransactionThreads tx utxoView = .ok () ↔ isCoinBase tx = true ∨
      ∃ ps, originScripts utxoView tx.txIn = some ps ∧ ThreadRules tx ps ∧ FirstInputOnly
          ps := by
  unfold checkTransactionThreads
  by_cases hcb : isCoinBase tx = true
  · simp only [hcb, if_true, true_or]
  simp only [hcb, Bool.false_eq_true, if_false, false_or, bind_eq_ok, pure_eq_ok, and_true]
  rw [checkInputThreads_iff]
  simp only [threadsFrom_iff, Bool.false_eq_true, false_or, Nat.zero_add]
  constructor
  · rintro ⟨ps, hps, hcont, hspends, hpos⟩
    exact ⟨ps, hps, ⟨hcont, hspends⟩, hpos⟩
  · rintro ⟨ps, hps, ⟨hcont, hspends⟩, hpos⟩
    exact ⟨ps, hps, hcont, hspends, hpos⟩

theorem Mempool.checkThreadsStandard_iff : checkThreadsStandard tx utxoView = .ok () ↔
      ∃ ps, originScripts utxoView tx.txIn = some ps ∧ ThreadRules tx ps ∧ FirstOutputOnly
          ps := by
  unfold checkThreadsStandard
  rw [checkThreadsStandardFrom_iff 0]
  simp only [threadsFrom_iff, Bool.false_eq_true, false_or]
  constructor
  · rintro ⟨ps, hps, hcont, hspends, hpos⟩
    refine ⟨ps, hps, ⟨hcont, hspends⟩, fun p hp hthread => ?_⟩
    obtain ⟨j, hj⟩ := mem_iff_getElem?.mp hp
    exact hpos j p hj hthread
  · rintro ⟨ps, hps, ⟨hcont, hspends⟩, hpos⟩
    exact ⟨ps, hps, hcont, hspends, fun j p hj => hpos p (mem_of_getElem? hj)⟩

/-- Where the two position rules come to the same. A coinbase is let pass by the consensus rules
without a look at its inputs, so the mempool has to let it pass too. -/
def ThreadsAgree (tx : MsgTx) (utxoView : UtxoViewpoint) : Prop :=
  if isCoinBase tx then
    ∃ ps, originScripts utxoView tx.txIn = some ps ∧ ThreadRules tx ps ∧ FirstOutputOnly ps
  else
    ∀ ps, originScripts utxoView tx.txIn = some ps → ThreadRules tx ps →
      (FirstOutputOnly ps ↔ FirstInputOnly ps)

namespace Sample

/-- The view a new chain starts with: the outputs of the genesis coinbase. -/
def genesisView : UtxoViewpoint := (newUtxoViewpoint 0).addTxOuts crypto RegTest.genesisCoinbaseTx 0

/-- A view with two outputs of the issue thread, as no chain has them. -/
def twoTipsView : UtxoViewpoint :=
  ((newUtxoViewpoint 0).setEntry 1 (some tip)).setEntry 2 (some tip)
where
  tip : UtxoEntry :=
    { newUtxoEntry 1 false 0 with
      sparseOutputs := (∅ : AList fun _ : UInt32 => UtxoOutput).insert 0 ⟨false, 0, [0x52, 0xbb]⟩ }

/-- `issueTx` with two thread inputs. -/
def twoTipsTx : MsgTx := { issueTx with txIn := [⟨⟨1, 0⟩, [], 0⟩, ⟨⟨2, 0⟩, [], 0⟩] }

end Sample

end Prova
