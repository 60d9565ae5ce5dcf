import Prova.Blockchain.InputChecks

/-!
# Thread outputs

Which outputs a transaction may have: only an admin transaction has a thread output, it is the first
one, and its two bytes say of which thread it is.
-/

namespace Prova

open List

instance (script : Bytes) : Decidable (isThreadScript script) :=
  inferInstanceAs (Decidable (_ = _))

def scriptThread (script : Bytes) : Option ThreadID :=
  match parseScript script with
  | .error _ => none
  | .ok pops =>
    if typeOfScript pops = .provaAdminTy then
      ThreadID.ofByte (asSmallInt (pops.headD ⟨op0, []⟩).opcode)
    else none

theorem typeOfScript_eq_admin {pops : List ParsedOpcode} (h : typeOfScript pops = .provaAdminTy) :
    isProvaAdmin pops = true := by
  unfold typeOfScript at h
  split_ifs at h with hnull hprova hgeneral hadmin
  exact hadmin

theorem isProvaAdmin_ok {pops : List ParsedOpcode} (h : isProvaAdmin pops = true) :
    ∃ a b t, pops = [a, b] ∧ b.opcode = opCheckThread ∧ ThreadID.ofByte (asSmallInt a.opcode) = some t := by
  match pops with
  | [a, b] =>
    simp only [isProvaAdmin, Bool.and_eq_true, beq_iff_eq] at h
    obtain ⟨t, ht⟩ := Option.isSome_iff_exists.mp h.2
    exact ⟨a, b, t, rfl, h.1, ht⟩
  | [] | [_] | _ :: _ :: _ :: _ => simp [isProvaAdmin] at h

theorem opcode_of_thread {op : UInt8} {t : ThreadID} (h : ThreadID.ofByte (asSmallInt op) = some t) :
    op = op0 ∨ op = op1 - 1 ∨ op = op1 ∨ op = op2 := by
  unfold asSmallInt at h
  split_ifs at h with hzero
  · exact .inl hzero
  · right
    have hop : op = op - (op1 - 1) + (op1 - 1) := (UInt8.sub_add_cancel op (op1 - 1)).symm
    unfold ThreadID.ofByte at h
    split_ifs at h with h0 h1 h2
    · rw [h0] at hop
      exact .inl hop
    · rw [h1] at hop
      exact .inr (.inl hop)
    · rw [h2] at hop
      exact .inr (.inr hop)

theorem isThreadScript_iff {script : Bytes} : isThreadScript script ↔ ∃ t, scriptThread script = some t := by
  unfold isThreadScript getScriptClass scriptThread
  cases parseScript script with
  | error e => simp
  | ok pops =>
    simp only
    constructor
    · intro h
      obtain ⟨a, b, t, rfl, -, ht⟩ := isProvaAdmin_ok (typeOfScript_eq_admin h)
      rw [if_pos h]
      exact ⟨t, ht⟩
    · rintro ⟨t, ht⟩
      split_ifs at ht with h
      exact h

theorem length_of_isThreadScript {script : Bytes} (h : isThreadScript script) : script.length = 2 := by
  unfold isThreadScript getScriptClass at h
  cases hparse : parseScript script with
  | error e =>
    rw [hparse] at h
    cases h
  | ok pops =>
    rw [hparse] at h
    obtain ⟨a, b, t, rfl, hb, ht⟩ := isProvaAdmin_ok (typeOfScript_eq_admin h)
    obtain ⟨x, r, hx, hr, rfl⟩ := unparseScript_cons.mp (unparseScript_of_parseScript hparse)
    obtain ⟨y, r', hy, hr', rfl⟩ := unparseScript_cons.mp hr
    cases hr'
    have hbyte : ∀ {pop : ParsedOpcode} {z : Bytes}, opLength pop.opcode = .single →
        pop.bytes = .ok z → z.length = 1 := by
      intro pop z hlen hz
      unfold ParsedOpcode.bytes at hz
      simp only [hlen] at hz
      split at hz
      · cases hz
      · cases hz
        rfl
    have hcheck : opLength b.opcode = .single := by
      rw [hb]
      decide
    have hthread : opLength a.opcode = .single := by
      rcases opcode_of_thread ht with ha | ha | ha | ha <;> (rw [ha]; decide)
    simp [hbyte hthread hx, hbyte hcheck hy]

theorem eq_of_take_two {s s' : Bytes} (hs : isThreadScript s) (hs' : isThreadScript s')
    (h : s.take 2 = s'.take 2) : s = s' := by
  rwa [take_of_length_le (length_of_isThreadScript hs).le, take_of_length_le (length_of_isThreadScript hs').le] at h

theorem isUnspendable_of_isThreadScript {script : Bytes} (h : isThreadScript script) :
    isUnspendable script = false := by
  unfold isThreadScript getScriptClass at h
  unfold isUnspendable
  cases hparse : parseScript script with
  | error e =>
    rw [hparse] at h
    cases h
  | ok pops =>
    rw [hparse] at h
    obtain ⟨a, b, t, rfl, -, ht⟩ := isProvaAdmin_ok (typeOfScript_eq_admin h)
    rcases opcode_of_thread ht with ha | ha | ha | ha <;> (simp only [ha]; decide)

/-! ### The outputs of a transaction -/

theorem getAdminDetails_ok {tx : MsgTx} {t : ThreadID} {adminOutputs : List (List ParsedOpcode)}
    (h : getAdminDetails tx = some (t, adminOutputs)) :
    ∃ out outs, tx.txOut = out :: outs ∧ scriptThread out.pkScript = some t ∧
      outs.mapM (fun o => parseScript o.pkScript) = .ok adminOutputs := by
  unfold getAdminDetails at h
  cases houts : tx.txOut with
  | nil =>
    rw [houts] at h
    cases h
  | cons out outs =>
    simp only [houts] at h
    refine ⟨out, outs, rfl, ?_⟩
    split at h
    · cases h
    · next pops hparse =>
      unfold scriptThread
      simp only [hparse]
      split_ifs at h with hclass
      rw [not_not] at hclass
      obtain ⟨a, b, t', rfl, -, ht'⟩ := isProvaAdmin_ok (typeOfScript_eq_admin hclass)
      rw [if_pos hclass]
      split at h
      · cases h
      · next t'' hextract =>
        have hsame : t'' = t' := by
          unfold extractThreadID at hextract
          simp only [ht'] at hextract
          split_ifs at hextract
          cases hextract
          rfl
        split at h
        · cases h
        · next adminOutputs' hmap =>
          cases h
          exact ⟨hsame ▸ ht', hmap⟩

theorem isProvaTxOuts_ok {flag : Bool} {outs : List TxOut} (h : isProvaTxOuts flag outs = true) :
    ∀ out ∈ outs, ∃ pops, parseScript out.pkScript = .ok pops ∧
      (isNullData pops = true ∧ out.value = 0 ∨ isGeneralProva pops = true) := by
  induction outs generalizing flag with
  | nil =>
    intro out hout
    cases hout
  | cons out outs ih =>
    unfold isProvaTxOuts at h
    cases hparse : parseScript out.pkScript with
    | error e =>
      simp only [hparse] at h
      cases h
    | ok pops =>
      simp only [hparse] at h
      split_ifs at h with hnull hflag hvalue hgeneral
      · exact forall_mem_cons.mpr ⟨⟨pops, hparse, .inl ⟨hnull, not_not.mp hvalue⟩⟩, ih h⟩
      · exact forall_mem_cons.mpr ⟨⟨pops, hparse, .inr hgeneral⟩, ih h⟩

theorem isProvaTx_not_thread {tx : MsgTx} (h : isProvaTx tx = true) {out : TxOut}
    (hout : out ∈ tx.txOut) : ¬ isThreadScript out.pkScript := by
  unfold isProvaTx at h
  rw [Bool.and_eq_true] at h
  obtain ⟨pops, hparse, hclass⟩ := isProvaTxOuts_ok h.2 out hout
  unfold isThreadScript getScriptClass typeOfScript
  simp only [hparse]
  rcases hclass with ⟨hnull, -⟩ | hgeneral
  · simp [hnull]
  · split_ifs <;> simp

namespace Sane

variable {tx : MsgTx}

theorem thread_output (h : Sane tx) {j : Nat} {out : TxOut} (hout : tx.txOut[j]? = some out)
    (hthread : isThreadScript out.pkScript) : j = 0 ∧ isCoinBase tx = false ∧ getAdminDetails tx ≠ none := by
  obtain ⟨-, -, hall⟩ := checkOutputs_ok (by decide) h.outputs
  have hj := (hall j out hout).1 hthread
  have hmem : out ∈ tx.txOut := mem_of_getElem? hout
  refine ⟨by omega, ?_, ?_⟩
  · by_contra hcb
    exact isProvaTx_not_thread (h.prova (.inl (by simpa using hcb))) hmem hthread
  · intro hnone
    exact isProvaTx_not_thread (h.prova (.inr hnone)) hmem hthread

theorem coinbase_details (h : Sane tx) (hcb : isCoinBase tx = true) : getAdminDetails tx = none := by
  by_contra hsome
  obtain ⟨⟨t, outs⟩, hsome⟩ := Option.ne_none_iff_exists'.mp hsome
  obtain ⟨out, outs', hcons, hout, -⟩ := getAdminDetails_ok hsome
  have hfirst : tx.txOut[0]? = some out := by
    rw [hcons]
    rfl
  have hthread := h.thread_output hfirst (isThreadScript_iff.mpr ⟨t, hout⟩)
  rw [hcb] at hthread
  cases hthread.2.1

theorem length_txOut (h : Sane tx) : tx.txOut.length ≤ 2 ^ 32 := by
  have hsize := h.size
  unfold MsgTx.serializeSize at hsize
  have hsum : tx.txOut.length ≤ (tx.txOut.map fun out =>
      8 + varIntSerializeSize (len64 out.pkScript) + out.pkScript.length).sum := by
    have hle := length_le_sum_of_one_le (tx.txOut.map fun out =>
      8 + varIntSerializeSize (len64 out.pkScript) + out.pkScript.length) (by
        intro x hx
        obtain ⟨out, -, rfl⟩ := mem_map.mp hx
        omega)
    rwa [length_map] at hle
  have hmax : maxBlockPayload ≤ 2 ^ 32 := by decide
  omega

theorem nodup_newCoins (h : Sane tx) (c : Crypto) : ((newCoins c tx).map Prod.fst).Nodup :=
  nodup_coinsFrom (by rw [Nat.zero_add]; exact h.length_txOut)

theorem itemOf_newCoins (h : Sane tx) (c : Crypto) {j : Nat} {out : TxOut}
    (hout : tx.txOut[j]? = some out) (hspendable : isUnspendable out.pkScript = false) :
    Ledger.itemOf (newCoins c tx) ⟨tx.txHash c, UInt32.ofNat j⟩ = some ⟨out.value, out.pkScript⟩ := by
  refine Ledger.itemOf_of_mem (h.nodup_newCoins c) (mem_coinsFrom.mpr ⟨j, out, hout, hspendable, ?_⟩)
  rw [Nat.zero_add]

theorem thread_of_itemOf (h : Sane tx) {c : Crypto} {o : OutPoint} {coin : Coin}
    (hitem : Ledger.itemOf (newCoins c tx) o = some coin) (hthread : isThreadScript coin.pkScript) :
    o = ⟨tx.txHash c, 0⟩ ∧ isCoinBase tx = false ∧ ∃ t outs, getAdminDetails tx = some (t, outs) ∧
      scriptThread coin.pkScript = some t := by
  obtain ⟨j, out, hout, -, heq⟩ := mem_coinsFrom.mp (Ledger.mem_of_itemOf hitem)
  obtain ⟨rfl, rfl⟩ := Prod.mk.inj heq
  obtain ⟨rfl, hcb, hdet⟩ := h.thread_output hout hthread
  obtain ⟨⟨t, outs⟩, hsome⟩ := Option.ne_none_iff_exists'.mp hdet
  obtain ⟨out', outs', hcons, hscript, -⟩ := getAdminDetails_ok hsome
  rw [hcons] at hout
  cases hout
  exact ⟨rfl, hcb, t, outs, hsome, hscript⟩

end Sane

end Prova
