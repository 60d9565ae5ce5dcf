import Prova.Blockchain.ConnectLedger
import Prova.Lib.Sums

/-!
# What the checks of a transaction establish

The inversion lemmas of `CheckTransactionSanity` and `CheckTransactionInputs`: the values a transaction
moves are in range, so that the sums of the source do not wrap, each input names a coin, and a thread
coin is spent only by the first input of a transaction that continues its thread.
-/

namespace Prova

open List

variable {tx : MsgTx} {params : Params} {height : UInt32} {view : UtxoViewpoint}

def outValue (tx : MsgTx) : Int := (tx.txOut.map fun out => out.value.toInt).sum

def coinValue (coins : List (OutPoint × Coin)) : Int := (coins.map fun p => p.2.value.toInt).sum

theorem coinValue_nonneg {coins : List (OutPoint × Coin)} (h : ∀ p ∈ coins, 0 ≤ p.2.value.toInt) :
    0 ≤ coinValue coins := by
  refine sum_nonneg fun x hx => ?_
  obtain ⟨p, hp, rfl⟩ := mem_map.mp hx
  exact h p hp

theorem maxAtoms_toInt : maxAtoms.toInt = 2100000000000000 := by decide

/-! ### Sanity -/

theorem checkOutputs_ok {thread : Option ThreadID} {i : Nat} {total : Int64} {outs : List TxOut}
    (htotal : 0 ≤ total.toInt ∧ total.toInt ≤ maxAtoms.toInt) (h : checkOutputs tx thread i total outs = .ok ()) :
    (∀ out ∈ outs, 0 ≤ out.value.toInt) ∧ total.toInt + (outs.map fun out => out.value.toInt).sum ≤ maxAtoms.toInt ∧
      ∀ j out, outs[j]? = some out → (getScriptClass out.pkScript = .provaAdminTy → i + j = 0) ∧
        ∀ threadID, thread = some threadID → checkAdminOutput tx threadID (i + j) out = .ok () := by
  induction outs generalizing i total with
  | nil =>
    refine ⟨fun out hout => ?_, ?_, fun j out hout => ?_⟩
    · cases hout
    · simpa using htotal.2
    · cases hout
  | cons out outs ih =>
    unfold checkOutputs at h
    obtain ⟨hneg, h⟩ := bind_unit_eq_ok.mp h
    obtain ⟨hmax, h⟩ := bind_unit_eq_ok.mp h
    obtain ⟨-, h⟩ := bind_unit_eq_ok.mp h
    obtain ⟨hsum, h⟩ := bind_unit_eq_ok.mp h
    obtain ⟨hclass, h⟩ := bind_unit_eq_ok.mp h
    have hadmin : (∀ threadID, thread = some threadID → checkAdminOutput tx threadID i out = .ok ()) ∧
        checkOutputs tx thread (i + 1) (total + out.value) outs = .ok () := by
      cases thread with
      | none =>
        refine ⟨fun threadID hthread => ?_, h⟩
        cases hthread
      | some threadID =>
        obtain ⟨hadmin, h⟩ := bind_unit_eq_ok.mp h
        refine ⟨fun threadID' hthread => ?_, h⟩
        cases hthread
        exact hadmin
    rw [ruleError_eq_ok, Int64.lt_iff_toInt_lt, not_lt] at hneg hmax hsum
    have hnonneg : 0 ≤ out.value.toInt := hneg
    rw [maxAtoms_toInt] at hmax htotal
    have hadd := toInt_add_of_nonneg htotal.1 hnonneg (by omega)
    obtain ⟨hrest, hbound, hall⟩ := ih ⟨by omega, hsum⟩ hadmin.2
    refine ⟨forall_mem_cons.mpr ⟨hnonneg, hrest⟩, ?_, fun j out' hout => ?_⟩
    · rw [map_cons, sum_cons]
      omega
    · cases j with
      | zero =>
        cases hout
        refine ⟨fun hc => ?_, hadmin.1⟩
        by_contra hne
        exact ruleError_eq_ok.mp hclass ⟨hc, hne⟩
      | succ j =>
        have hj : i + (j + 1) = i + 1 + j := by omega
        rw [hj]
        exact hall j out' hout

/-- What `CheckTransactionSanity` has checked. -/
structure Sane (tx : MsgTx) : Prop where
  hasInputs : tx.txIn ≠ []
  hasOutputs : tx.txOut ≠ []
  size : tx.serializeSize ≤ maxBlockPayload
  outputs : checkOutputs tx ((getAdminDetails tx).map (·.1)) 0 0 tx.txOut = .ok ()
  nodup : tx.prevOuts.Nodup
  prova : isCoinBase tx = true ∨ getAdminDetails tx = none → isProvaTx tx = true
  form : isCoinBase tx = false → ∀ threadID adminOutputs,
    getAdminDetails tx = some (threadID, adminOutputs) →
      checkAdminForm tx threadID adminOutputs = .ok ()

theorem checkTransactionSanity_ok (h : checkTransactionSanity tx = .ok ()) : Sane tx := by
  unfold checkTransactionSanity at h
  obtain ⟨hins, h⟩ := bind_unit_eq_ok.mp h
  obtain ⟨houts, h⟩ := bind_unit_eq_ok.mp h
  obtain ⟨hsize, h⟩ := bind_unit_eq_ok.mp h
  obtain ⟨houtputs, h⟩ := bind_unit_eq_ok.mp h
  obtain ⟨hnodup, h⟩ := bind_unit_eq_ok.mp h
  rw [ruleError_eq_ok] at hins houts hsize hnodup
  have hprova : (isCoinBase tx = true ∨ getAdminDetails tx = none → isProvaTx tx = true) ∧
      (isCoinBase tx = false → ∀ threadID adminOutputs, getAdminDetails tx = some (threadID, adminOutputs) →
          checkAdminForm tx threadID adminOutputs = .ok ()) := by
    split at h
    · next hcb =>
      obtain ⟨hprova, -⟩ := bind_unit_eq_ok.mp h
      refine ⟨fun _ => not_not.mp (ruleError_eq_ok.mp hprova), fun hfalse => ?_⟩
      rw [hcb] at hfalse
      cases hfalse
    · next hcb =>
      cases hdet : getAdminDetails tx with
      | none =>
        simp only [hdet] at h
        obtain ⟨hprova, -⟩ := bind_unit_eq_ok.mp h
        refine ⟨fun _ => not_not.mp (ruleError_eq_ok.mp hprova), fun _ _ _ hsome => ?_⟩
        cases hsome
      | some p =>
        simp only [hdet] at h
        obtain ⟨hform, -⟩ := bind_unit_eq_ok.mp h
        refine ⟨fun hor => ?_, fun _ threadID adminOutputs hsome => ?_⟩
        · rcases hor with hor | hor
          · exact absurd hor hcb
          · cases hor
        · cases hsome
          exact hform
  exact ⟨hins, houts, not_lt.mp hsize, houtputs, not_not.mp hnodup, hprova.1, hprova.2⟩

theorem Sane.outputs_ok (h : Sane tx) : (∀ out ∈ tx.txOut, 0 ≤ out.value.toInt) ∧ outValue tx ≤ maxAtoms.toInt := by
  obtain ⟨hnonneg, hsum, -⟩ := checkOutputs_ok (by decide) h.outputs
  refine ⟨hnonneg, ?_⟩
  have hzero : (0 : Int64).toInt = 0 := rfl
  rw [hzero, zero_add] at hsum
  exact hsum

theorem Sane.outValue_nonneg (h : Sane tx) : 0 ≤ outValue tx := by
  refine sum_nonneg fun x hx => ?_
  obtain ⟨out, hout, rfl⟩ := mem_map.mp hx
  exact h.outputs_ok.1 out hout

theorem Sane.totalAtomsOut (h : Sane tx) : (totalAtomsOut tx).toInt = outValue tx := by
  obtain ⟨hnonneg, hsum⟩ := h.outputs_ok
  have hfold : Prova.totalAtomsOut tx = (tx.txOut.map (·.value)).foldl (· + ·) 0 := by
    unfold Prova.totalAtomsOut
    rw [foldl_map]
  have hvalue : ((tx.txOut.map (·.value)).map Int64.toInt).sum = outValue tx := by
    unfold outValue
    rw [map_map]
    rfl
  rw [maxAtoms_toInt] at hsum
  rw [hfold, toInt_foldl_add (by decide) (by simpa using hnonneg), hvalue]
  · exact zero_add _
  · rw [hvalue]
    have hzero : (0 : Int64).toInt = 0 := rfl
    omega

/-! ### Inputs -/

def isThreadScript (script : Bytes) : Prop := getScriptClass script = .provaAdminTy

/-- An input that spends a coin: a thread coin may only be spent by the first input of an admin
transaction, whose first output has the script of the coin. -/
structure SpendsCoin (tx : MsgTx) (hasAdminOut : Bool) (i : Nat) (coin : Coin) : Prop where
  nonneg : 0 ≤ coin.value.toInt
  thread : isThreadScript coin.pkScript → i = 0 ∧ hasAdminOut = true ∧
    (tx.txOut.headD ⟨0, []⟩).pkScript.take 2 = coin.pkScript.take 2

def UtxoEntry.immature (params : Params) (height : UInt32) (entry : UtxoEntry) : Prop :=
  entry.isCoinBase = true ∧ height - entry.blockHeight < params.coinbaseMaturity.toUInt32

theorem checkInput_ok {hasAdminOut : Bool} {s s' : InputState} {input : TxIn × Nat}
    (htotal : 0 ≤ s.totalAtomsIn.toInt ∧ s.totalAtomsIn.toInt ≤ maxAtoms.toInt)
    (h : checkInput params tx height view hasAdminOut s input = .ok s') :
    ∃ entry coin, view.lookupEntry input.1.previousOutPoint.hash = some entry ∧
      entry.coinAt input.1.previousOutPoint.index = some coin ∧ ¬ entry.immature params height ∧
      SpendsCoin tx hasAdminOut input.2 coin ∧
      (hasAdminOut = true → isThreadScript coin.pkScript ∨ s.hasAdminIn = true) ∧
      s'.totalAtomsIn.toInt = s.totalAtomsIn.toInt + coin.value.toInt ∧ s'.totalAtomsIn.toInt ≤ maxAtoms.toInt := by
  unfold checkInput at h
  cases hentry : view.lookupEntry input.1.previousOutPoint.hash with
  | none =>
    simp only [hentry] at h
    cases h
  | some entry =>
    simp only [hentry] at h
    obtain ⟨hasAdminIn, hthread, h⟩ := bind_eq_ok.mp h
    obtain ⟨hadmin, h⟩ := bind_unit_eq_ok.mp h
    obtain ⟨hmature, h⟩ := bind_unit_eq_ok.mp h
    obtain ⟨hspent, h⟩ := bind_unit_eq_ok.mp h
    obtain ⟨hneg, h⟩ := bind_unit_eq_ok.mp h
    obtain ⟨hmax, h⟩ := bind_unit_eq_ok.mp h
    obtain ⟨hsum, h⟩ := bind_unit_eq_ok.mp h
    cases h
    rw [ruleError_eq_ok] at hmature
    rw [ruleError_eq_ok, Bool.not_eq_true] at hspent
    rw [ruleError_eq_ok, Int64.lt_iff_toInt_lt, not_lt] at hneg hmax
    rw [ruleError_eq_ok, not_or, Int64.lt_iff_toInt_lt, Int64.lt_iff_toInt_lt, not_lt, not_lt]
      at hsum
    rw [maxAtoms_toInt] at hmax htotal
    have hnonneg : 0 ≤ (entry.amountByIndex input.1.previousOutPoint.index).toInt := hneg
    refine ⟨entry, _, rfl, UtxoEntry.coinAt_of_not_spent hspent, hmature,
      ⟨hnonneg, ?_⟩, ?_, toInt_add_of_nonneg htotal.1 hnonneg (by omega), hsum.2⟩
    · intro hclass
      unfold checkThreadInput at hthread
      split at hthread
      · obtain ⟨hfirst, hthread⟩ := bind_unit_eq_ok.mp hthread
        obtain ⟨hout, hthread⟩ := bind_unit_eq_ok.mp hthread
        obtain ⟨hscript, -⟩ := bind_unit_eq_ok.mp hthread
        exact ⟨not_not.mp (ruleError_eq_ok.mp hfirst), not_not.mp (ruleError_eq_ok.mp hout),
          not_not.mp (ruleError_eq_ok.mp hscript)⟩
      · next hnot => exact absurd hclass hnot
    · intro hout
      unfold checkThreadInput at hthread
      split at hthread
      · next hclass => exact .inl hclass
      · cases hthread
        rw [ruleError_eq_ok, not_and, not_not] at hadmin
        exact .inr (hadmin hout)

theorem checkInputs_ok {hasAdminOut : Bool} {txIns : List TxIn} {i : Nat} {s s' : InputState}
    (htotal : 0 ≤ s.totalAtomsIn.toInt ∧ s.totalAtomsIn.toInt ≤ maxAtoms.toInt)
    (h : (txIns.zipIdx i).foldlM (checkInput params tx height view hasAdminOut) s = .ok s') :
    ∃ coins : List (OutPoint × Coin),
      coins.map Prod.fst = txIns.map (·.previousOutPoint) ∧
      (∀ p ∈ coins, ∃ entry, view.lookupEntry p.1.hash = some entry ∧
        entry.coinAt p.1.index = some p.2 ∧ ¬ entry.immature params height) ∧
      (∀ j p, coins[j]? = some p → SpendsCoin tx hasAdminOut (i + j) p.2) ∧
      (hasAdminOut = true → ∀ p ∈ coins.head?, isThreadScript p.2.pkScript ∨ s.hasAdminIn = true) ∧
      s'.totalAtomsIn.toInt = s.totalAtomsIn.toInt + coinValue coins ∧ s'.totalAtomsIn.toInt ≤ maxAtoms.toInt := by
  induction txIns generalizing i s with
  | nil =>
    cases h
    exact ⟨[], rfl, by simp, by simp, by simp, by simp [coinValue], htotal.2⟩
  | cons txIn txIns ih =>
    rw [zipIdx_cons] at h
    obtain ⟨s₁, hinput, h⟩ := foldlM_cons_eq_ok.mp h
    obtain ⟨entry, coin, hentry, hcoin, hmature, hspends, hadmin, hsum, hmax⟩ :=
      checkInput_ok htotal hinput
    have hnonneg := hspends.nonneg
    obtain ⟨coins, hkeys, hpresent, hall, -, htotal', hmax'⟩ := ih ⟨by omega, hmax⟩ h
    refine ⟨(txIn.previousOutPoint, coin) :: coins, ?_, ?_, ?_, ?_, ?_, hmax'⟩
    · rw [map_cons, map_cons, hkeys]
    · exact forall_mem_cons.mpr ⟨⟨entry, hentry, hcoin, hmature⟩, hpresent⟩
    · intro j p hp
      cases j with
      | zero =>
        cases hp
        exact hspends
      | succ j =>
        have hj : i + (j + 1) = i + 1 + j := by omega
        rw [hj]
        exact hall j p hp
    · intro hout p hp
      cases hp
      exact hadmin hout
    · unfold coinValue at htotal' ⊢
      rw [map_cons, sum_cons, htotal', hsum, add_assoc]

/-- The thread coins among the coins a transaction spends: none, or for an admin transaction the first
one, whose script is that of the transaction's first output. -/
inductive SpendsThreads (tx : MsgTx) : List (OutPoint × Coin) → Prop
  | plain {coins : List (OutPoint × Coin)} (details : getAdminDetails tx = none)
    (plain : ∀ p ∈ coins, ¬ isThreadScript p.2.pkScript) : SpendsThreads tx coins
  | thread {p : OutPoint × Coin} {coins : List (OutPoint × Coin)} (details : getAdminDetails tx ≠ none)
    (thread : isThreadScript p.2.pkScript)
    (script : (tx.txOut.headD ⟨0, []⟩).pkScript.take 2 = p.2.pkScript.take 2)
    (plain : ∀ q ∈ coins, ¬ isThreadScript q.2.pkScript) : SpendsThreads tx (p :: coins)

/-- The fee of a transaction that is not a coinbase. Only an issuance may pay out more than it spends,
and has no fee then. -/
inductive PaysFee (tx : MsgTx) (inValue txFee : Int) : Prop
  | issuance (thread : threadOf tx = some .issue) (destruction : isDestruction tx = false)
    (value : inValue < outValue tx) (fee : txFee = 0)
  | fee (value : outValue tx ≤ inValue) (fee : txFee = inValue - outValue tx)

theorem PaysFee.nonneg {inValue txFee : Int} (h : PaysFee tx inValue txFee) : 0 ≤ txFee := by
  cases h with
  | issuance _ _ _ hfee => omega
  | fee hvalue hfee => omega

theorem checkTransactionInputs_ok {txFee : Int64} (hsane : Sane tx) (hcb : isCoinBase tx = false)
    (h : checkTransactionInputs params tx height view = .ok txFee) :
    ∃ coins : List (OutPoint × Coin), coins.map Prod.fst = tx.prevOuts ∧
      (∀ p ∈ coins, ∃ entry, view.lookupEntry p.1.hash = some entry ∧
        entry.coinAt p.1.index = some p.2 ∧ ¬ entry.immature params height) ∧ (∀ p ∈ coins, 0 ≤ p.2.value.toInt) ∧
      SpendsThreads tx coins ∧ PaysFee tx (coinValue coins) txFee.toInt := by
  unfold checkTransactionInputs at h
  rw [if_neg (by simp [hcb])] at h
  obtain ⟨s, hinputs, h⟩ := bind_eq_ok.mp h
  obtain ⟨hspend, h⟩ := bind_unit_eq_ok.mp h
  obtain ⟨-, h⟩ := bind_unit_eq_ok.mp h
  obtain ⟨coins, hkeys, hpresent, hspends, hadmin, htotal, -⟩ := checkInputs_ok (by decide) hinputs
  have hzero : (0 : Int64).toInt = 0 := rfl
  rw [hzero, zero_add] at htotal
  have hnonneg : ∀ p ∈ coins, 0 ≤ p.2.value.toInt := by
    intro p hp
    obtain ⟨j, hj⟩ := mem_iff_getElem?.mp hp
    exact (hspends j p hj).nonneg
  have htail : ∀ p ∈ coins.tail, ¬ isThreadScript p.2.pkScript := by
    intro p hp hthread
    obtain ⟨j, hj⟩ := mem_iff_getElem?.mp hp
    rw [getElem?_tail] at hj
    obtain ⟨hfirst, -⟩ := (hspends _ p hj).thread hthread
    omega
  refine ⟨coins, hkeys, hpresent, hnonneg, ?_, ?_⟩
  · cases hdet : getAdminDetails tx with
    | none =>
      refine .plain hdet fun p hp hthread => ?_
      obtain ⟨j, hj⟩ := mem_iff_getElem?.mp hp
      obtain ⟨-, hout, -⟩ := (hspends j p hj).thread hthread
      rw [hdet] at hout
      cases hout
    | some details =>
      cases coins with
      | nil =>
        have hnil : tx.txIn = [] := map_eq_nil_iff.mp hkeys.symm
        exact absurd hnil hsane.hasInputs
      | cons p coins =>
        have hthread : isThreadScript p.2.pkScript := by
          rcases hadmin (by rw [hdet]; rfl) p rfl with hthread | hfalse
          · exact hthread
          · cases hfalse
        refine .thread (by rw [hdet]; exact Option.some_ne_none _) hthread ?_ htail
        exact ((hspends 0 p rfl).thread hthread).2.2
  · have hout := hsane.totalAtomsOut
    have hsub := toInt_sub_of_nonneg (htotal ▸ coinValue_nonneg hnonneg) (hout ▸ hsane.outValue_nonneg)
    rw [htotal, hout] at hsub
    rw [ruleError_eq_ok, Int64.lt_iff_toInt_lt, htotal, hout] at hspend
    by_cases hvalue : coinValue coins < outValue tx
    · -- more is paid out than spent
      rw [not_and, not_or, not_not, Bool.not_eq_true] at hspend
      obtain ⟨hissue, hdestruction⟩ := hspend hvalue
      have hneg : s.totalAtomsIn - totalAtomsOut tx < 0 := by
        rw [Int64.lt_iff_toInt_lt, hsub, hzero]
        omega
      rw [if_pos ⟨hissue, hneg⟩] at h
      cases h
      exact .issuance (beq_iff_eq.mp hissue) hdestruction hvalue rfl
    · have hfee : ¬ s.totalAtomsIn - totalAtomsOut tx < 0 := by
        rw [Int64.lt_iff_toInt_lt, hsub, hzero]
        omega
      rw [if_neg fun hand => hfee hand.2] at h
      cases h
      exact .fee (not_lt.mp hvalue) hsub

end Prova
