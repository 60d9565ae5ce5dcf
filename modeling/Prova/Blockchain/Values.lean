import Prova.Blockchain.ThreadScripts

/-!
# The value of outputs

What a transaction pays out goes into new coins, except for the value of outputs that can never be
spent. Only a destruction may give such outputs a value, and that value is what it takes from the
supply.
-/

namespace Prova

open List

variable {pops : List ParsedOpcode}

def burnedValue (outs : List TxOut) : Int :=
  ((outs.filter fun out => isUnspendable out.pkScript).map fun out => out.value.toInt).sum

def coinWeight (_ : OutPoint) (coin : Coin) : Int := coin.value.toInt

theorem weigh_coinWeight (coins : List (OutPoint × Coin)) : Ledger.weigh coinWeight coins = coinValue coins := rfl

theorem coinValue_coinsFrom (hash : Hash) (i : Nat) (outs : List TxOut) :
    coinValue (coinsFrom hash i outs) + burnedValue outs = (outs.map fun out => out.value.toInt).sum := by
  induction outs generalizing i with
  | nil => rfl
  | cons out outs ih =>
    have hrest := ih (i + 1)
    unfold burnedValue coinValue at hrest ⊢
    rw [coinsFrom]
    cases hun : isUnspendable out.pkScript with
    | true =>
      simp only [hun, if_true, filter_cons, map_cons, sum_cons]
      omega
    | false =>
      simp only [hun, Bool.false_eq_true, if_false, filter_cons, map_cons, sum_cons]
      omega

theorem coinValue_newCoins (c : Crypto) (tx : MsgTx) : coinValue (newCoins c tx) + burnedValue tx.txOut = outValue tx :=
  coinValue_coinsFrom (tx.txHash c) 0 tx.txOut

theorem burnedValue_eq_zero {outs : List TxOut}
    (h : ∀ out ∈ outs, isUnspendable out.pkScript = true → out.value = 0) : burnedValue outs = 0 := by
  unfold burnedValue
  apply sum_eq_zero
  intro x hx
  obtain ⟨out, hout, rfl⟩ := mem_map.mp hx
  obtain ⟨hmem, hun⟩ := mem_filter.mp hout
  rw [h out hmem hun]
  rfl

/-! ### Classes and spendability -/

theorem isNullData_unspendable (h : isNullData pops = true) :
    ∃ pop rest, pops = pop :: rest ∧ pop.opcode = opReturn := by
  match pops with
  | [a] =>
    simp only [isNullData, beq_iff_eq] at h
    exact ⟨a, [], rfl, h⟩
  | [a, b] =>
    simp only [isNullData, Bool.and_eq_true, beq_iff_eq] at h
    exact ⟨a, [b], rfl, h.1.1⟩
  | [] | _ :: _ :: _ :: _ => simp [isNullData] at h

theorem isGeneralProva_head (h : isGeneralProva pops = true) :
    ∃ pop rest, pops = pop :: rest ∧ isSmallInt pop.opcode = true := by
  cases pops with
  | nil => simp [isGeneralProva] at h
  | cons pop rest =>
    simp only [isGeneralProva, headD_cons, Bool.and_eq_true] at h
    exact ⟨pop, rest, rfl, h.1.1.1.1.1.2⟩

theorem isSmallInt_ne_return {op : UInt8} (h : isSmallInt op = true) : (op == opReturn) = false := by
  by_contra hne
  rw [Bool.not_eq_false, beq_iff_eq] at hne
  rw [hne] at h
  revert h
  decide

theorem typeOfScript_nullData (h : typeOfScript pops = .nullDataTy) : isNullData pops = true := by
  unfold typeOfScript at h
  split_ifs at h with hnull
  exact hnull

theorem typeOfScript_prova (h : typeOfScript pops = .provaTy ∨ typeOfScript pops = .generalProvaTy) :
    isGeneralProva pops = true := by
  by_contra hgeneral
  have hprova : isProva pops = false := by
    unfold isProva
    simp [hgeneral]
  unfold typeOfScript at h
  simp only [hprova, hgeneral, Bool.false_eq_true, if_false] at h
  split_ifs at h <;> simp at h

theorem isUnspendable_of_nullData {script : Bytes} (h : getScriptClass script = .nullDataTy) :
    isUnspendable script = true := by
  unfold getScriptClass at h
  unfold isUnspendable
  cases hparse : parseScript script with
  | error e => rfl
  | ok pops =>
    rw [hparse] at h
    obtain ⟨pop, rest, rfl, hop⟩ := isNullData_unspendable (typeOfScript_nullData h)
    simpa using hop

theorem isUnspendable_of_prova {script : Bytes}
    (h : getScriptClass script = .provaTy ∨ getScriptClass script = .generalProvaTy) :
    isUnspendable script = false := by
  unfold getScriptClass at h
  unfold isUnspendable
  cases hparse : parseScript script with
  | error e =>
    rw [hparse] at h
    rcases h with h | h <;> cases h
  | ok pops =>
    rw [hparse] at h
    obtain ⟨pop, rest, rfl, hop⟩ := isGeneralProva_head (typeOfScript_prova h)
    exact isSmallInt_ne_return hop

/-! ### What a transaction does to the supply -/

def issuedValue (tx : MsgTx) : Nat :=
  if threadOf tx = some .issue ∧ isDestruction tx = false then
    ((issuedValues tx).map UInt64.toNat).sum
  else 0

def destroyedValue (tx : MsgTx) : Nat :=
  match getAdminDetails tx with
  | some (.issue, adminOutputs) =>
    if isDestruction tx then ((destroyedValues tx adminOutputs).map UInt64.toNat).sum else 0
  | _ => 0

/-- The supply can take the change: neither the addition nor the subtraction wraps. -/
def SupplyFits (view : KeyViewpoint) (tx : MsgTx) : Prop :=
  destroyedValue tx ≤ view.totalSupply.toNat ∧ view.totalSupply.toNat + issuedValue tx < 2 ^ 64

theorem SupplyFits.afterTx {c : Crypto} {view : KeyViewpoint} {tx : MsgTx} (h : SupplyFits view tx) :
    (view.afterTx c tx).totalSupply.toNat + destroyedValue tx = view.totalSupply.toNat + issuedValue tx := by
  obtain ⟨hdestroyed, hissued⟩ := h
  unfold destroyedValue at hdestroyed ⊢
  unfold issuedValue at hissued ⊢
  unfold KeyViewpoint.afterTx threadOf at *
  rcases hdet : getAdminDetails tx with _ | ⟨t, outs⟩
  · simp
  · cases t with
    | root => simp
    | provision => simp
    | issue =>
      unfold KeyViewpoint.applySupply
      simp only [hdet, Option.map_some, true_and] at hdestroyed hissued ⊢
      cases hd : isDestruction tx with
      | true =>
        simp only [hd, if_true, Bool.true_eq_false, if_false] at hdestroyed hissued ⊢
        rw [toNat_foldl_sub hdestroyed]
        omega
      | false =>
        simp only [hd, if_true, Bool.false_eq_true, if_false] at hdestroyed hissued ⊢
        rw [toNat_foldl_add hissued]
        omega

theorem checkAdminOutput_issue {tx : MsgTx} {j : Nat} {out : TxOut}
    (h : checkAdminOutput tx .issue (j + 1) out = .ok ()) :
    isDestruction tx = true ∧ getScriptClass out.pkScript = .nullDataTy ∨
      getScriptClass out.pkScript = .provaTy ∨ getScriptClass out.pkScript = .generalProvaTy := by
  unfold checkAdminOutput at h
  simp only [ne_eq, not_true_eq_false, if_false, Nat.zero_lt_succ, if_true] at h
  split_ifs at h with hnull
  · obtain ⟨hdestruction, -⟩ := bind_unit_eq_ok.mp h
    exact .inl ⟨not_not.mp (ruleError_eq_ok.mp hdestruction), hnull⟩
  · obtain ⟨hclass, -⟩ := bind_unit_eq_ok.mp h
    have hprova := ruleError_eq_ok.mp hclass
    right
    by_contra hnot
    rw [not_or] at hnot
    exact hprova hnot

theorem sum_destroyed {outs : List TxOut} {adminOutputs : List (List ParsedOpcode)}
    (hparse : outs.mapM (fun o => parseScript o.pkScript) = .ok adminOutputs)
    (hclass : ∀ out ∈ outs, getScriptClass out.pkScript = .nullDataTy ∨
      getScriptClass out.pkScript = .provaTy ∨ getScriptClass out.pkScript = .generalProvaTy)
    (hnonneg : ∀ out ∈ outs, 0 ≤ out.value.toInt) : burnedValue outs =
      (((((adminOutputs.zip outs).filter fun p => typeOfScript p.1 == .nullDataTy).map
        fun p => p.2.value.toUInt64).map UInt64.toNat).sum : Nat) := by
  induction outs generalizing adminOutputs with
  | nil =>
    cases hparse
    rfl
  | cons out outs ih =>
    rw [mapM_cons] at hparse
    obtain ⟨pops, hpops, hparse⟩ := bind_eq_ok.mp hparse
    obtain ⟨rest, hrest, hparse⟩ := bind_eq_ok.mp hparse
    cases hparse
    rw [forall_mem_cons] at hclass hnonneg
    have hih := ih hrest hclass.2 hnonneg.2
    have htype : getScriptClass out.pkScript = typeOfScript pops := by
      unfold getScriptClass
      rw [hpops]
    unfold burnedValue at hih ⊢
    rw [zip_cons_cons, filter_cons, filter_cons]
    rcases hclass.1 with hnull | hprova
    · have hvalue := toNat_toUInt64_of_nonneg hnonneg.1
      rw [isUnspendable_of_nullData hnull, ← htype, hnull]
      simp only [beq_self_eq_true, if_true, map_cons, sum_cons, Nat.cast_add]
      omega
    · have hne : (typeOfScript pops == .nullDataTy) = false := by
        rw [← htype]
        rcases hprova with hprova | hprova <;> (rw [hprova]; rfl)
      rw [isUnspendable_of_prova hprova, hne]
      simp only [Bool.false_eq_true, if_false]
      exact hih

namespace Sane

variable {tx : MsgTx}

theorem burned (h : Sane tx) : burnedValue tx.txOut = (destroyedValue tx : Nat) := by
  obtain ⟨hnonneg, -, hall⟩ := checkOutputs_ok (by decide) h.outputs
  unfold destroyedValue
  rcases hdet : getAdminDetails tx with _ | ⟨t, adminOutputs⟩
  · refine burnedValue_eq_zero fun out hout hun => ?_
    have hprova := h.prova (.inr hdet)
    unfold isProvaTx at hprova
    obtain ⟨pops, hpops, ⟨-, hzero⟩ | hgeneral⟩ :=
      isProvaTxOuts_ok (Bool.and_eq_true_iff.mp hprova).2 out hout
    · exact hzero
    · obtain ⟨pop, rest, rfl, hop⟩ := isGeneralProva_head hgeneral
      unfold isUnspendable at hun
      simp only [hpops, isSmallInt_ne_return hop] at hun
      cases hun
  · obtain ⟨out, outs, hcons, hscript, hparse⟩ := getAdminDetails_ok hdet
    rw [hdet, Option.map_some] at hall
    cases t with
    | root | provision =>
      refine burnedValue_eq_zero fun out hout _ => ?_
      obtain ⟨j, hj⟩ := mem_iff_getElem?.mp hout
      have hrule := (hall j out hj).2 _ rfl
      unfold checkAdminOutput at hrule
      rw [if_pos (by simp)] at hrule
      exact not_not.mp (ruleError_eq_ok.mp hrule)
    | issue =>
      have hspendable := isUnspendable_of_isThreadScript (isThreadScript_iff.mpr ⟨_, hscript⟩)
      have hrules : ∀ out ∈ outs, isDestruction tx = true ∧
          getScriptClass out.pkScript = .nullDataTy ∨ getScriptClass out.pkScript = .provaTy ∨
            getScriptClass out.pkScript = .generalProvaTy := by
        intro out' hout
        obtain ⟨j, hj⟩ := mem_iff_getElem?.mp hout
        have hrule := (hall (j + 1) out' (by rw [hcons]; exact hj)).2 _ rfl
        rw [Nat.zero_add] at hrule
        exact checkAdminOutput_issue hrule
      have htail : burnedValue tx.txOut = burnedValue outs := by
        unfold burnedValue
        rw [hcons, filter_cons, hspendable]
        rfl
      rw [hcons, forall_mem_cons] at hnonneg
      rw [htail]
      simp only
      cases hd : isDestruction tx with
      | true =>
        unfold destroyedValues
        rw [if_pos rfl, hcons, drop_one, tail_cons]
        refine sum_destroyed hparse (fun out' hout => ?_) hnonneg.2
        exact (hrules out' hout).imp_left (·.2)
      | false =>
        refine burnedValue_eq_zero fun out' hout hun => ?_
        rcases hrules out' hout with ⟨hfalse, -⟩ | hprova
        · rw [hd] at hfalse
          cases hfalse
        · rw [isUnspendable_of_prova hprova] at hun
          cases hun

theorem issued (h : Sane tx) (hthread : threadOf tx = some .issue) (hd : isDestruction tx = false)
    (hzero : (tx.txOut.headD ⟨0, []⟩).value = 0) : (issuedValue tx : Int) = outValue tx := by
  obtain ⟨hnonneg, -⟩ := h.outputs_ok
  obtain ⟨out, outs, hcons⟩ := exists_cons_of_ne_nil h.hasOutputs
  unfold issuedValue issuedValues outValue
  rw [if_pos ⟨hthread, hd⟩]
  rw [hcons, headD_cons] at hzero
  rw [hcons, forall_mem_cons] at hnonneg
  rw [hcons, drop_one, tail_cons, map_cons, sum_cons, hzero]
  have hsum : ∀ outs : List TxOut, (∀ out ∈ outs, 0 ≤ out.value.toInt) →
      ((((outs.map fun out => out.value.toUInt64).map UInt64.toNat).sum : Nat) : Int) =
        (outs.map fun out => out.value.toInt).sum := by
    intro outs houts
    induction outs with
    | nil => rfl
    | cons out outs ih =>
      rw [forall_mem_cons] at houts
      have hvalue := toNat_toUInt64_of_nonneg houts.1
      simp only [map_cons, sum_cons, Nat.cast_add]
      rw [ih houts.2, hvalue]
  rw [hsum outs hnonneg.2]
  exact (zero_add _).symm

end Sane

end Prova
