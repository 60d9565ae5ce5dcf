import Prova.Txscript.Steps

/-!
# Scripts that push, and the two scripts of an input

An element up to OP_16 puts one value on the stack, whatever the engine has there. So a run of such
elements is told by its values, and by the limit on the size of the stack. An input whose output is
not a script hash runs two scripts: the signature script on an empty stack, and the script of the
output on the stack this one leaves, with the counters and the alt stack cleared in between.
-/

namespace Prova

open List

variable {values : List Bytes} {pops : List ParsedOpcode} {pop : ParsedOpcode}

def ParsedOpcode.pushes (pop : ParsedOpcode) : Option Bytes :=
  if pop.opcode = op0 then some []
  else if pop.opcode ≤ opPushData4 then some pop.data
  else if pop.opcode = op1Negate then some (scriptNumBytes (-1))
  else if pop.opcode = opReserved then none
  else if pop.opcode ≤ op16 then some (scriptNumBytes (pop.opcode - (op1 - 1)).toNat)
  else none

namespace Engine

variable {c : Crypto} {vm vm' : Engine}

/-! ### One element -/

structure PushFits (minimal : Bool) (pop : ParsedOpcode) : Prop where
  size : pop.data.length ≤ maxScriptElementSize
  minimal : minimal = true → pop.opcode ≤ opPushData4 → pop.checkMinimalDataPush = .ok ()

theorem opcode_le_of_pushes {v : Bytes} (h : pop.pushes = some v) : pop.opcode ≤ op16 := by
  unfold ParsedOpcode.pushes at h
  split_ifs at h with h0 hdata hneg hreserved hn
  · rw [h0]
    decide
  · exact UInt8.le_trans hdata (by decide)
  · rw [hneg]
    decide
  · exact hn

theorem opFunc_of_pushes {v : Bytes} (h : pop.pushes = some v) : opFunc c pop.opcode pop vm = .ok (vm.push v) := by
  unfold ParsedOpcode.pushes at h
  unfold opFunc
  split_ifs at h ⊢ <;> cases h <;> rfl

theorem plain_of_le_op16 (h : pop.opcode ≤ op16) : pop.isDisabled = false ∧ pop.alwaysIllegal = false := by
  have hnat : pop.opcode.toNat ≤ 0x60 := h
  unfold ParsedOpcode.isDisabled ParsedOpcode.alwaysIllegal
  simp only [UInt8.le_iff_toNat_le, Bool.or_eq_false_iff, Bool.and_eq_false_iff,
    decide_eq_false_iff_not, beq_eq_false_iff_ne, ne_eq, ← UInt8.toNat_inj, UInt8.reduceToNat]
  omega

theorem executeOpcode_push {v : Bytes} (h : pop.pushes = some v)
    (hfits : PushFits vm.verifyMinimalData pop) (hcond : vm.condStack = []) :
    executeOpcode c pop vm = .ok (vm.push v) := by
  have hle := opcode_le_of_pushes h
  obtain ⟨hdisabled, hillegal⟩ := plain_of_le_op16 hle
  have hbranch : vm.isBranchExecuting = true := by
    unfold isBranchExecuting
    rw [hcond]
  have hcount : vm.countOp pop = .ok vm := by
    unfold countOp
    rw [if_neg (UInt8.not_lt.mpr hle)]
    exact bind_unit_eq_ok.mpr ⟨reject_eq_ok.mpr (Nat.not_lt.mpr hfits.size), rfl⟩
  unfold executeOpcode
  refine bind_unit_eq_ok.mpr ⟨reject_eq_ok.mpr (by simp [hdisabled]), ?_⟩
  refine bind_unit_eq_ok.mpr ⟨reject_eq_ok.mpr (by simp [hillegal]), ?_⟩
  refine bind_eq_ok.mpr ⟨vm, hcount, ?_⟩
  rw [if_neg (by simp [hbranch])]
  split_ifs with hminimal
  · refine bind_unit_eq_ok.mpr ⟨hfits.minimal hminimal.1 hminimal.2.2, ?_⟩
    exact opFunc_of_pushes h
  · exact opFunc_of_pushes h

def afterPushes (vm : Engine) (values : List Bytes) : Engine :=
  { vm with dstack := values.reverse ++ vm.dstack, scriptOff := vm.scriptOff + values.length }

theorem afterPushes_cons (vm : Engine) (v : Bytes) (values : List Bytes) :
    vm.afterPushes (v :: values) = (vm.afterPushes [v]).afterPushes values := by
  unfold afterPushes
  simp only [reverse_cons, reverse_nil, nil_append, append_assoc, length_cons,
    length_nil, Nat.add_assoc, Nat.zero_add, Nat.add_comm 1]

theorem stepOpcode_push {v : Bytes} (h : pop.pushes = some v)
    (hfits : PushFits vm.verifyMinimalData pop) (hcond : vm.condStack = []) :
    stepOpcode c vm pop = .ok vm' ↔ vm.dstack.length + vm.astack.length < maxStackSize ∧ vm' = vm.afterPushes [v] := by
  unfold stepOpcode
  rw [executeOpcode_push h hfits hcond]
  constructor
  · intro hrun
    obtain ⟨_, hexec, hrun⟩ := bind_eq_ok.mp hrun
    cases hexec
    obtain ⟨hsize, hrun⟩ := bind_unit_eq_ok.mp hrun
    cases hrun
    have hroom : ¬ maxStackSize < vm.dstack.length + 1 + vm.astack.length := reject_eq_ok.mp hsize
    exact ⟨by omega, rfl⟩
  · rintro ⟨hsize, rfl⟩
    have hroom : ¬ maxStackSize < vm.dstack.length + 1 + vm.astack.length := by omega
    exact bind_eq_ok.mpr ⟨_, rfl, bind_unit_eq_ok.mpr ⟨reject_eq_ok.mpr hroom, rfl⟩⟩

/-! ### Runs -/

inductive PushRun (minimal : Bool) : List ParsedOpcode → List Bytes → Prop
  | nil : PushRun minimal [] []
  | cons {pop : ParsedOpcode} {v : Bytes} {pops : List ParsedOpcode} {values : List Bytes} :
      pop.pushes = some v → PushFits minimal pop → PushRun minimal pops values →
        PushRun minimal (pop :: pops) (v :: values)

theorem PushRun.append {minimal : Bool} {pops' : List ParsedOpcode} {values' : List Bytes}
    (h : PushRun minimal pops values) (h' : PushRun minimal pops' values') :
    PushRun minimal (pops ++ pops') (values ++ values') := by
  induction h with
  | nil => exact h'
  | cons hv hfits _ ih => exact .cons hv hfits ih

theorem PushRun.length {minimal : Bool} (h : PushRun minimal pops values) : values.length = pops.length := by
  induction h with
  | nil => rfl
  | cons _ _ _ ih => rw [length_cons, length_cons, ih]

theorem runScript_pushes (h : PushRun vm.verifyMinimalData pops values) (hcond : vm.condStack = []) :
    runScript c pops vm = .ok vm' ↔ (pops = [] ∨ vm.dstack.length + vm.astack.length + pops.length ≤ maxStackSize) ∧
      vm' = vm.afterPushes values := by
  generalize hmin : vm.verifyMinimalData = minimal at h
  induction h generalizing vm with
  | nil =>
    constructor
    · intro h
      cases h
      exact ⟨.inl rfl, rfl⟩
    · rintro ⟨-, rfl⟩
      rfl
  | @cons pop v pops values hv hfits hrest ih =>
    subst hmin
    have hnext := @ih (vm.afterPushes [v]) hcond rfl
    unfold runScript at hnext ⊢
    rw [foldlM_cons_eq_ok, afterPushes_cons]
    simp only [stepOpcode_push hv hfits hcond, length_cons, reduceCtorEq, false_or]
    have hroom : (vm.afterPushes [v]).dstack.length + (vm.afterPushes [v]).astack.length + pops.length =
        vm.dstack.length + vm.astack.length + (pops.length + 1) := by
      change (vm.dstack.length + 1) + vm.astack.length + pops.length = _
      omega
    rw [hroom] at hnext
    constructor
    · rintro ⟨_, ⟨hsize, rfl⟩, hrun⟩
      obtain ⟨hfit, heq⟩ := hnext.mp hrun
      refine ⟨?_, heq⟩
      rcases hfit with rfl | hfit
      · exact hsize
      · exact hfit
    · rintro ⟨hfit, heq⟩
      exact ⟨_, ⟨by omega, rfl⟩, hnext.mpr ⟨.inr hfit, heq⟩⟩

/-! ### The two scripts of an input -/

/-- The engine between the two scripts, and after the second one. -/
def atScript (vm : Engine) (idx : Nat) : Engine :=
  { vm with astack := [], numOps := 0, scriptOff := 0, scriptIdx := idx, lastCodeSep := 0 }

theorem endScript_plain (hbip : vm.bip16 = false) (hnext : vm.scripts[vm.scriptIdx + 1]? ≠ some []) :
    endScript vm = .ok vm' ↔ vm.condStack = [] ∧ vm' = vm.atScript (vm.scriptIdx + 1) := by
  have hrun : nextScript { vm with astack := [], numOps := 0, scriptOff := 0 } =
      .ok { vm with astack := [], numOps := 0, scriptOff := 0, scriptIdx := vm.scriptIdx + 1 } := by
    unfold nextScript
    simp [hbip]
  unfold endScript
  rw [bind_unit_eq_ok, reject_eq_ok, not_not, hrun]
  simp only [bind_eq_ok, Except.ok.injEq, exists_eq_left', pure_eq_ok]
  rw [if_neg hnext]
  exact and_congr_right fun _ => eq_comm

theorem executeLoop_script {script : List ParsedOpcode} {n : Nat}
    (hscript : vm.scripts[vm.scriptIdx]? = some script) (hne : script ≠ []) :
    executeLoop c (n + 1) vm = .ok vm' ↔ ∃ vm₀ vm₁, runScript c script vm = .ok vm₀ ∧
      endScript vm₀ = .ok vm₁ ∧ executeLoop c n vm₁ = .ok vm' := by
  rw [executeLoop, hscript]
  constructor
  · intro hloop
    obtain ⟨-, hloop⟩ := bind_unit_eq_ok.mp hloop
    obtain ⟨vm₀, hrun, hloop⟩ := bind_eq_ok.mp hloop
    obtain ⟨vm₁, hend, hloop⟩ := bind_eq_ok.mp hloop
    exact ⟨vm₀, vm₁, hrun, hend, hloop⟩
  · rintro ⟨vm₀, vm₁, hrun, hend, hloop⟩
    refine bind_unit_eq_ok.mpr ⟨reject_eq_ok.mpr hne, ?_⟩
    exact bind_eq_ok.mpr ⟨vm₀, hrun, bind_eq_ok.mpr ⟨vm₁, hend, hloop⟩⟩

theorem execute_two_ok {s0 s1 : List ParsedOpcode} (hscripts : vm.scripts = [s0, s1])
    (hidx : vm.scriptIdx = 0) (hbip : vm.bip16 = false) (h0 : s0 ≠ []) (h1 : s1 ≠ []) :
    vm.execute c = .ok () ↔ ∃ vm₀ vm₁ vm₂, runScript c s0 vm = .ok vm₀ ∧ vm₀.condStack = [] ∧
      runScript c s1 (vm₀.atScript 1) = .ok vm₁ ∧ vm₁.condStack = [] ∧
      checkErrorCondition true (vm₁.atScript 2) = .ok vm₂ := by
  -- the runs keep the scripts and the index
  have hkept : ∀ {script : List ParsedOpcode} {v w : Engine}, runScript c script v = .ok w →
      v.scripts = [s0, s1] → v.bip16 = false →
      w.scripts = [s0, s1] ∧ w.scriptIdx = v.scriptIdx ∧ w.bip16 = false := by
    intro script v w hrun hs hb
    have hcontext := context_runScript hrun
    have hscripts' := congrArg Engine.scripts hcontext
    have hindex := congrArg Engine.scriptIdx hcontext
    have hbip16 := congrArg Engine.bip16 hcontext
    exact ⟨hscripts'.trans hs, hindex, hbip16.trans hb⟩
  have hfirst : vm.scripts[vm.scriptIdx]? = some s0 := by rw [hscripts, hidx]; rfl
  have hexecute : vm.execute c = .ok () ↔
      ∃ w, executeLoop c 3 vm = .ok w ∧ ∃ vm₂, checkErrorCondition true w = .ok vm₂ := by
    unfold execute
    rw [bind_eq_ok]
    refine exists_congr fun w => and_congr_right fun _ => ?_
    cases checkErrorCondition true w with
    | error e =>
      constructor
      · intro h
        cases h
      · rintro ⟨vm₂, h⟩
        cases h
    | ok a => exact ⟨fun _ => ⟨a, rfl⟩, fun _ => rfl⟩
  rw [hexecute]
  simp only [executeLoop_script hfirst h0]
  constructor
  · rintro ⟨w, ⟨vm₀, v, hrun, hend, hloop⟩, vm₂, hcheck⟩
    obtain ⟨hs, hi, hb⟩ := hkept hrun hscripts hbip
    rw [hidx] at hi
    rw [endScript_plain hb (by rw [hs, hi]; simpa using h1), hi] at hend
    obtain ⟨hcond, rfl⟩ := hend
    have hsecond : (vm₀.atScript (0 + 1)).scripts[(vm₀.atScript (0 + 1)).scriptIdx]? = some s1 := by
      change vm₀.scripts[1]? = some s1
      rw [hs]
      rfl
    rw [executeLoop_script hsecond h1] at hloop
    obtain ⟨vm₁, v', hrun', hend', hloop⟩ := hloop
    obtain ⟨hs', hi', hb'⟩ := hkept hrun' hs hb
    have hi'' : vm₁.scriptIdx = 1 := hi'
    rw [endScript_plain hb' (by rw [hs', hi'']; simp), hi''] at hend'
    obtain ⟨hcond', rfl⟩ := hend'
    have hthird : (vm₁.atScript 2).scripts[(vm₁.atScript 2).scriptIdx]? = none := by
      change vm₁.scripts[2]? = none
      rw [hs']
      rfl
    rw [executeLoop, hthird] at hloop
    cases hloop
    exact ⟨vm₀, vm₁, vm₂, hrun, hcond, hrun', hcond', hcheck⟩
  · rintro ⟨vm₀, vm₁, vm₂, hrun, hcond, hrun', hcond', hcheck⟩
    obtain ⟨hs, hi, hb⟩ := hkept hrun hscripts hbip
    rw [hidx] at hi
    have hend : endScript vm₀ = .ok (vm₀.atScript 1) := by
      rw [endScript_plain hb (by rw [hs, hi]; simpa using h1), hi]
      exact ⟨hcond, rfl⟩
    obtain ⟨hs', hi', hb'⟩ := hkept hrun' hs hb
    have hi'' : vm₁.scriptIdx = 1 := hi'
    have hend' : endScript vm₁ = .ok (vm₁.atScript 2) := by
      rw [endScript_plain hb' (by rw [hs', hi'']; simp), hi'']
      exact ⟨hcond', rfl⟩
    have hsecond : (vm₀.atScript 1).scripts[(vm₀.atScript 1).scriptIdx]? = some s1 := by
      change vm₀.scripts[1]? = some s1
      rw [hs]
      rfl
    have hthird : (vm₁.atScript 2).scripts[(vm₁.atScript 2).scriptIdx]? = none := by
      change vm₁.scripts[2]? = none
      rw [hs']
      rfl
    refine ⟨vm₁.atScript 2, ⟨vm₀, _, hrun, hend, ?_⟩, vm₂, hcheck⟩
    rw [executeLoop_script hsecond h1]
    refine ⟨vm₁, _, hrun', hend', ?_⟩
    rw [executeLoop, hthird]

end Engine

open Engine

/-! ### The pushes of the script builder -/

section

variable {data : Bytes}

/-- An element with its bytes, and the value that it puts on the stack. -/
structure IsPush (pop : ParsedOpcode) (b value : Bytes) : Prop where
  bytes : pop.bytes = .ok b
  pushes : pop.pushes = some value
  fits : ∀ minimal, PushFits minimal pop

def dataElement (data : Bytes) : ParsedOpcode := ⟨UInt8.ofNat data.length, data⟩

theorem toNat_dataElement (hmax : data.length ≤ 75) : (dataElement data).opcode.toNat = data.length := by
  unfold dataElement
  rw [UInt8.toNat_ofNat']
  omega

theorem bytes_dataElement (hmin : 1 ≤ data.length) (hmax : data.length ≤ 75) :
    (dataElement data).bytes = .ok (UInt8.ofNat data.length :: data) := by
  have hnat := toNat_dataElement hmax
  have hlength : opLength (dataElement data).opcode = .fixed data.length := by
    unfold opLength
    rw [if_pos, hnat]
    rw [UInt8.le_iff_toNat_le, UInt8.le_iff_toNat_le, hnat]
    exact ⟨hmin, hmax⟩
  unfold ParsedOpcode.bytes
  rw [hlength]
  exact if_neg (not_not.mpr rfl)

theorem isPush_small {n : Nat} (hlow : 1 ≤ n) (hhigh : n ≤ 16) :
    IsPush ⟨(op1 - 1) + UInt8.ofNat n, []⟩ [(op1 - 1) + UInt8.ofNat n] [UInt8.ofNat n] := by
  interval_cases n <;> exact ⟨rfl, by decide, fun _ => ⟨by decide, fun _ hle => absurd hle (by decide)⟩⟩

theorem isPush_direct (hmin : 1 ≤ data.length) (hmax : data.length ≤ 75)
    (hsmall : ¬ (data.length = 1 ∧ 1 ≤ data.headD 0 ∧ data.headD 0 ≤ 16))
    (hneg : ¬ (data.length = 1 ∧ data.headD 0 = 0x81)) :
    IsPush (dataElement data) (UInt8.ofNat data.length :: data) data := by
  have hnat := toNat_dataElement hmax
  refine ⟨bytes_dataElement hmin hmax, ?_, fun _ => ⟨?_, fun _ _ => ?_⟩⟩
  · unfold ParsedOpcode.pushes
    rw [if_neg, if_pos]
    · rfl
    · rw [UInt8.le_iff_toNat_le, hnat]
      change data.length ≤ 78
      omega
    · intro hzero
      rw [hzero] at hnat
      change 0 = data.length at hnat
      omega
  · change data.length ≤ 520
    omega
  · have hdata : (dataElement data).data = data := rfl
    unfold ParsedOpcode.checkMinimalDataPush
    simp only [hdata, hnat]
    rw [if_neg (by omega), if_neg hsmall, if_neg hneg, if_pos hmax]
    exact reject_eq_ok.mpr (not_not.mpr rfl)

theorem isPush_counted {op : UInt8} {k : Nat} (hop : opLength op = .counted k)
    (hpushes : ParsedOpcode.pushes ⟨op, data⟩ = some data) (hlen : data.length < 256 ^ k) (hmin : 76 ≤ data.length)
    (hmax : data.length ≤ maxScriptElementSize)
    (hcheck : op = if data.length ≤ 255 then opPushData1 else opPushData2) :
    IsPush ⟨op, data⟩ (op :: (leBytes k data.length ++ data)) data := by
  refine ⟨?_, hpushes, fun _ => ⟨hmax, fun _ _ => ?_⟩⟩
  · unfold ParsedOpcode.bytes
    simp only [hop, leNat_leBytes, Nat.mod_eq_of_lt hlen]
    exact if_neg (by omega)
  · have hlimit : maxScriptElementSize = 520 := rfl
    unfold ParsedOpcode.checkMinimalDataPush
    simp only
    rw [if_neg (by omega), if_neg (by omega), if_neg (by omega), if_neg (by omega)]
    split_ifs at hcheck ⊢ with hshort hlong
    · exact reject_eq_ok.mpr (not_not.mpr hcheck)
    · exact reject_eq_ok.mpr (not_not.mpr hcheck)
    · omega

/-- The element that `addData` writes, up to the size of an element. -/
def pushElement (data : Bytes) : ParsedOpcode :=
  if data.length = 0 ∨ data.length = 1 ∧ data.headD 0 = 0 then ⟨op0, []⟩
  else if data.length = 1 ∧ data.headD 0 ≤ 16 then ⟨(op1 - 1) + data.headD 0, []⟩
  else if data.length = 1 ∧ data.headD 0 = 0x81 then ⟨op1Negate, []⟩
  else if data.length < opPushData1.toNat then dataElement data
  else if data.length ≤ 0xff then ⟨opPushData1, data⟩
  else ⟨opPushData2, data⟩

/-- What `addData` writes is one push of the data, but for a zero byte. -/
theorem isPush_pushElement (hsize : data.length ≤ maxScriptElementSize) (hne : data ≠ [0]) :
    IsPush (pushElement data) (dataPush data) data := by
  have hlimit : maxScriptElementSize = 520 := rfl
  unfold pushElement dataPush
  split_ifs with hzero hsmall hneg hdirect hone htwo
  · obtain hnil | ⟨hlength, hhead⟩ := hzero
    · rw [length_eq_zero_iff.mp hnil]
      exact ⟨rfl, rfl, fun _ => ⟨by decide, fun _ _ => rfl⟩⟩
    · obtain ⟨b, rfl⟩ := length_eq_one_iff.mp hlength
      exact absurd (congrArg (fun b => [b]) hhead) hne
  · obtain ⟨b, rfl⟩ := length_eq_one_iff.mp hsmall.1
    have hb : b.toNat ≤ 16 := hsmall.2
    have hpos : b.toNat ≠ 0 := fun h => hzero (.inr ⟨rfl, UInt8.toNat_inj.mp h⟩)
    have hpush := isPush_small (Nat.one_le_iff_ne_zero.mpr hpos) hb
    rwa [UInt8.ofNat_toNat] at hpush
  · obtain ⟨b, rfl⟩ := length_eq_one_iff.mp hneg.1
    obtain rfl : b = 0x81 := hneg.2
    exact ⟨rfl, by decide, fun _ => ⟨by decide, fun _ hle => absurd hle (by decide)⟩⟩
  · have hdirect : data.length < 76 := hdirect
    exact isPush_direct (by omega) (by omega) (fun h => hsmall ⟨h.1, h.2.2⟩) hneg
  · have hdirect : ¬ data.length < 76 := hdirect
    exact isPush_counted (k := 1) rfl rfl (by omega) (by omega) hsize (if_pos hone).symm
  · have hdirect : ¬ data.length < 76 := hdirect
    exact isPush_counted rfl rfl (by omega) (by omega) hsize (if_neg hone).symm
  · omega

theorem length_dataPush (data : Bytes) : (dataPush data).length = canonicalDataSize data := by
  have hhead : data.headD 0 = 0 → data.headD 0 ≤ 16 := fun h => by rw [h]; decide
  unfold dataPush canonicalDataSize
  split_ifs <;> first | (simp; omega) | tauto

end

end Prova
