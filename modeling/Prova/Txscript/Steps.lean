import Prova.Txscript.Execute

/-!
# What a step of the engine changes

A handler works on the stacks, the conditions and the counters. The scripts, the transaction, the
flags and the amount are the same after every step, so what one script leaves to the next is its data
stack. An element that only pushes puts its value on top of the stack and leaves the rest as it was.
-/

namespace Prova

namespace Engine

/-- The engine without what its handlers work on. -/
def context (vm : Engine) : Engine :=
  { vm with scriptOff := 0, lastCodeSep := 0, dstack := [], astack := [], condStack := [], numOps := 0 }

def KeepsContext (f : OpFunc) : Prop :=
  ∀ pop vm vm', f pop vm = .ok vm' → vm'.context = vm.context

variable {vm vm' : Engine}

theorem popBytes_ok {so : Bytes} :
    vm.popBytes = .ok (so, vm') ↔ ∃ s, vm.dstack = so :: s ∧ vm' = { vm with dstack := s } := by
  unfold popBytes Stack.pop
  cases hs : vm.dstack with
  | nil =>
    constructor
    · intro h
      cases h
    · rintro ⟨s, hs', -⟩
      cases hs'
  | cons top s =>
    constructor
    · intro h
      cases h
      exact ⟨s, rfl, rfl⟩
    · rintro ⟨s', hs', rfl⟩
      cases hs'
      rfl

theorem context_popBytes (vm : Engine) : Ensures vm.popBytes (·.2.context = vm.context) := by
  rintro ⟨so, vm'⟩ h
  obtain ⟨s, -, rfl⟩ := popBytes_ok.mp h
  rfl

theorem popInt_ok {n : Int} (h : vm.popInt = .ok (n, vm')) :
    ∃ so s, vm.dstack = so :: s ∧ makeScriptNum so vm.verifyMinimalData 4 = .ok n ∧
      vm' = { vm with dstack := s } := by
  obtain ⟨⟨so, vm₁⟩, hpop, hrest⟩ := bind_eq_ok.mp h
  obtain ⟨s, hs, rfl⟩ := popBytes_ok.mp hpop
  obtain ⟨n', hn, hpair⟩ := bind_eq_ok.mp hrest
  cases hpair
  exact ⟨so, s, hs, hn, rfl⟩

theorem context_popInt (vm : Engine) : Ensures vm.popInt (·.2.context = vm.context) :=
  (context_popBytes _).bind fun _ hpop => ensures_bind fun _ => ensures_ok hpop

theorem popBool_ok {v : Bool} : vm.popBool = .ok (v, vm') ↔
      ∃ so s, vm.dstack = so :: s ∧ asBool so = v ∧ vm' = { vm with dstack := s } := by
  constructor
  · intro h
    obtain ⟨⟨so, vm₁⟩, hpop, hrest⟩ := bind_eq_ok.mp h
    obtain ⟨s, hs, rfl⟩ := popBytes_ok.mp hpop
    cases hrest
    exact ⟨so, s, hs, rfl, rfl⟩
  · rintro ⟨so, s, hs, rfl, rfl⟩
    exact bind_eq_ok.mpr ⟨(so, _), popBytes_ok.mpr ⟨s, hs, rfl⟩, rfl⟩

theorem context_popBool (vm : Engine) : Ensures vm.popBool (·.2.context = vm.context) :=
  (context_popBytes _).bind fun _ hpop => ensures_ok hpop

theorem context_onStack {f : Stack → Except ScriptError Stack} : Ensures (vm.onStack f) (·.context = vm.context) :=
  ensures_bind fun _ => ensures_ok rfl

theorem context_popMany (n : Nat) : Ensures (popMany n vm) (·.2.context = vm.context) := by
  induction n generalizing vm with
  | zero => exact ensures_ok rfl
  | succ n ih => exact (context_popBytes _).bind fun _ hpop => ih.bind fun _ hrest => ensures_ok (hrest.trans hpop)

theorem context_popKeyHashes (n : Nat) : Ensures (popKeyHashes n vm) (·.2.context = vm.context) := by
  induction n generalizing vm with
  | zero => exact ensures_ok rfl
  | succ n ih =>
    exact (context_popBytes _).bind fun _ hpop => ensures_bind fun _ => ih.bind fun _ hrest =>
      ensures_ok (hrest.trans hpop)

theorem context_popSigInfos (n : Nat) : Ensures (popSigInfos n vm) (·.2.context = vm.context) := by
  induction n generalizing vm with
  | zero => exact ensures_ok rfl
  | succ n ih =>
    exact (context_popBytes _).bind fun _ hsig => (context_popBytes _).bind fun _ hkey => ih.bind fun _ hrest =>
      ensures_ok (hrest.trans (hkey.trans hsig))

/-! ### The builders of handlers -/

theorem keeps_abstractVerify {e : ScriptError} : Ensures (abstractVerify e vm) (·.context = vm.context) :=
  (context_popBool _).bind fun _ hpop => ensures_bind fun _ => ensures_ok hpop

theorem keeps_thenVerify {f : OpFunc} {e : ScriptError} (hf : KeepsContext f) : KeepsContext (thenVerify f e) :=
  fun pop vm => Ensures.bind (hf pop vm) fun _ hvm vm' hverify => (keeps_abstractVerify vm' hverify).trans hvm

theorem keeps_onStack (f : Stack → Except ScriptError Stack) : KeepsContext fun _ => onStack f :=
  fun _ _ => context_onStack

theorem keeps_beginCond (takenOn : Bool) : KeepsContext (beginCond takenOn) := by
  intro pop vm
  unfold beginCond
  split_ifs
  · exact (context_popBool _).bind fun _ hpop => ensures_ok hpop
  · exact ensures_ok rfl

theorem keeps_unaryNum (f : Int → Int) : KeepsContext (unaryNum f) :=
  fun _ _ => (context_popInt _).bind fun _ hpop => ensures_ok hpop

theorem keeps_binaryNum (f : Int → Int → Int) : KeepsContext (binaryNum f) :=
  fun _ _ => (context_popInt _).bind fun _ hpop => (context_popInt _).bind fun _ hpop' => ensures_ok (hpop'.trans hpop)

theorem keeps_hashTop (f : Bytes → Bytes) : KeepsContext (hashTop f) :=
  fun _ _ => (context_popBytes _).bind fun _ hpop => ensures_ok hpop

/-! ### The other handlers -/

theorem keeps_nop : KeepsContext opcodeNop := fun _ _ => ensures_bind fun _ => ensures_ok rfl

theorem keeps_else : KeepsContext opcodeElse := by
  intro pop vm vm' h
  unfold opcodeElse at h
  split at h <;> cases h <;> rfl

theorem keeps_endif : KeepsContext opcodeEndif := by
  intro pop vm vm' h
  unfold opcodeEndif at h
  split at h <;> cases h
  rfl

theorem keeps_checkLockTimeVerify : KeepsContext opcodeCheckLockTimeVerify := by
  intro pop vm
  unfold opcodeCheckLockTimeVerify
  split_ifs
  · exact ensures_bind fun _ => ensures_bind fun _ => ensures_bind fun _ => ensures_bind fun _ => ensures_bind fun _ =>
      ensures_ok rfl
  · exact ensures_bind fun _ => ensures_ok rfl

theorem keeps_checkSequenceVerify : KeepsContext opcodeCheckSequenceVerify := by
  intro pop vm
  unfold opcodeCheckSequenceVerify
  split_ifs
  · refine ensures_bind fun _ => ensures_bind fun _ => ensures_bind fun _ => ?_
    dsimp only
    split_ifs
    · exact ensures_ok rfl
    · exact ensures_bind fun _ => ensures_bind fun _ => ensures_bind fun _ => ensures_ok rfl
  · exact ensures_bind fun _ => ensures_ok rfl

theorem keeps_toAltStack : KeepsContext opcodeToAltStack :=
  fun _ _ => (context_popBytes _).bind fun _ hpop => ensures_ok hpop

theorem keeps_fromAltStack : KeepsContext opcodeFromAltStack := fun _ _ => ensures_bind fun _ => ensures_ok rfl

theorem keeps_ifDup : KeepsContext opcodeIfDup := by
  refine fun pop vm => ensures_bind fun so => ensures_ok ?_
  split <;> rfl

theorem keeps_size : KeepsContext opcodeSize := fun _ _ => ensures_bind fun _ => ensures_ok rfl

theorem keeps_pick : KeepsContext opcodePick :=
  fun _ _ => (context_popInt _).bind fun _ hpop vm' h => (context_onStack vm' h).trans hpop

theorem keeps_roll : KeepsContext opcodeRoll :=
  fun _ _ => (context_popInt _).bind fun _ hpop vm' h => (context_onStack vm' h).trans hpop

theorem keeps_equal : KeepsContext opcodeEqual :=
  fun _ _ => (context_popBytes _).bind fun _ hpop => (context_popBytes _).bind fun _ hpop' =>
    ensures_ok (hpop'.trans hpop)

theorem keeps_within : KeepsContext opcodeWithin :=
  fun _ _ => (context_popInt _).bind fun _ hmax => (context_popInt _).bind fun _ hmin =>
    (context_popInt _).bind fun _ hx => ensures_ok (hx.trans (hmin.trans hmax))

variable {c : Crypto}

theorem keeps_checkSig : KeepsContext (opcodeCheckSig c) := by
  refine fun pop vm => (context_popBytes _).bind fun pk hpk => (context_popBytes _).bind fun sig hsig => ?_
  have hcontext := hsig.trans hpk
  dsimp only
  split_ifs
  · exact ensures_ok hcontext
  · refine ensures_bind fun _ => ensures_bind fun _ => ensures_bind fun _ => ?_
    split
    · exact ensures_ok hcontext
    · split
      · exact ensures_error
      · exact ensures_ok hcontext
      · exact ensures_bind fun _ => ensures_ok hcontext

theorem keeps_checkSafeMultiSig : KeepsContext (opcodeCheckSafeMultiSig c) := by
  refine fun pop vm => (context_popInt _).bind fun _ hkeys => ensures_bind fun _ => ensures_bind fun _ => ?_
  refine (context_popKeyHashes _).bind fun _ hhashes => (context_popInt _).bind fun _ hsigs => ?_
  refine ensures_bind fun _ => ensures_bind fun _ => (context_popSigInfos _).bind fun _ hinfos => ?_
  exact ensures_bind fun _ => ensures_bind fun _ => ensures_ok (hinfos.trans (hsigs.trans (hhashes.trans hkeys)))

theorem keeps_checkMultiSig : KeepsContext (opcodeCheckMultiSig c) := by
  refine fun pop vm => (context_popInt _).bind fun _ hkeys => ensures_bind fun _ => ensures_bind fun _ => ?_
  refine ensures_bind fun _ => (context_popMany _).bind fun _ hpubs => (context_popInt _).bind fun _ hsigs => ?_
  refine ensures_bind fun _ => ensures_bind fun _ => (context_popMany _).bind fun _ hsignatures => ?_
  refine (context_popBytes _).bind fun _ hdummy => ensures_bind fun _ => ensures_bind fun _ => ensures_ok ?_
  exact hdummy.trans (hsignatures.trans (hsigs.trans (hpubs.trans hkeys)))

theorem keeps_opTable : ∀ entry ∈ opTable c, KeepsContext entry.2 := by
  have herror : ∀ e : ScriptError, KeepsContext fun _ _ => .error e := by
    intro e pop vm vm' h
    cases h
  have hdepth : KeepsContext opcodeDepth := by
    intro pop vm vm' h
    cases h
    rfl
  have hseparator : KeepsContext opcodeCodeSeparator := by
    intro pop vm vm' h
    cases h
    rfl
  have hverify : KeepsContext opcodeVerify := fun _ _ => keeps_abstractVerify
  simp only [opTable, List.forall_mem_cons]
  repeat' refine And.intro ?_ ?_
  -- an opcode with a lemma of its own is found by name, the others are unfolded to their family
  all_goals try with_reducible first
    | exact keeps_nop
    | exact keeps_else
    | exact keeps_endif
    | exact hverify
    | exact hdepth
    | exact hseparator
    | exact keeps_toAltStack
    | exact keeps_fromAltStack
    | exact keeps_ifDup
    | exact keeps_pick
    | exact keeps_roll
    | exact keeps_size
    | exact keeps_equal
    | exact keeps_within
    | exact keeps_checkSig
    | exact keeps_checkMultiSig
    | exact keeps_checkLockTimeVerify
    | exact keeps_checkSequenceVerify
    | exact keeps_checkSafeMultiSig
    | exact List.forall_mem_nil _
  all_goals first
    | exact herror _
    | exact keeps_beginCond _
    | exact keeps_onStack _
    | exact keeps_unaryNum _
    | exact keeps_binaryNum _
    | exact keeps_hashTop _
    | exact keeps_thenVerify keeps_equal
    | exact keeps_thenVerify (keeps_binaryNum _)
    | exact keeps_thenVerify keeps_checkSig
    | exact keeps_thenVerify keeps_checkMultiSig

theorem keeps_opFunc (op : UInt8) : KeepsContext (opFunc c op) := by
  intro pop vm vm' h
  unfold opFunc at h
  split_ifs at h
  · cases h
    rfl
  · cases h
    rfl
  · cases h
    rfl
  · cases h
  · cases h
    rfl
  · cases hlookup : (opTable c).lookup op with
    | none =>
      rw [hlookup] at h
      cases h
    | some f =>
      rw [hlookup] at h
      obtain ⟨l₁, l₂, htable, -⟩ := List.lookup_eq_some_iff.mp hlookup
      have hmem : (op, f) ∈ opTable c := by simp [htable]
      exact keeps_opTable (op, f) hmem pop vm vm' h

/-! ### Steps and scripts -/

theorem context_countOp {pop : ParsedOpcode} : Ensures (vm.countOp pop) (·.context = vm.context) := by
  unfold countOp
  split_ifs
  · exact ensures_bind fun _ => ensures_ok rfl
  · exact ensures_bind fun _ => ensures_ok rfl

theorem context_stepOpcode {pop : ParsedOpcode} : Ensures (stepOpcode c vm pop) (·.context = vm.context) := by
  have hexec : Ensures (executeOpcode c pop vm) (·.context = vm.context) := by
    refine ensures_bind fun _ => ensures_bind fun _ => context_countOp.bind fun vm₁ hcount => ?_
    have hfunc : Ensures (opFunc c pop.opcode pop vm₁) (·.context = vm.context) :=
      fun vm₂ h => (keeps_opFunc _ pop vm₁ vm₂ h).trans hcount
    split_ifs
    · exact ensures_ok hcount
    · exact ensures_bind fun _ => hfunc
    · exact hfunc
  exact hexec.bind fun _ hvm => ensures_bind fun _ => ensures_ok hvm

theorem context_runScript {script : List ParsedOpcode} (h : runScript c script vm = .ok vm') :
    vm'.context = vm.context :=
  foldlM_invariant (fun s => s.context = vm.context)
    (fun _ _ _ _ hs hstep => (context_stepOpcode _ hstep).trans hs) rfl h

end Engine

end Prova
