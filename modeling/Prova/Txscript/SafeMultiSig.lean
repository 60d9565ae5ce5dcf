import Prova.Txscript.PushRun
import Prova.Txscript.SigEncoding
import Mathlib.Data.List.Perm.Subperm

/-!
# What OP_CHECKSAFEMULTISIG and OP_CHECKTHREAD check

The stack the handler needs, from the top: the number of key hashes, the key hashes, the number of
signatures, and as many pairs of a signature and a public key. It leaves true exactly if every signature
is valid for the key it comes with, and the hashes of these keys are among the key hashes, each used
at most once. It does not end if the loop over the pairs comes to an empty signature.
-/

namespace Prova

open List

variable {keyHashes unmatched : List Bytes} {infos : List SigInfo} {fuel : Nat} {pop : ParsedOpcode}
  {info : SigInfo} {rest : Stack}

def unlockStack (infos : List SigInfo) : Stack := infos.flatMap fun i => [i.signature, i.pubKey]

namespace Engine

variable {c : Crypto} {vm vm' : Engine}

theorem popInt_eq_ok {n : Int} : vm.popInt = .ok (n, vm') ↔ ∃ so s, vm.dstack = so :: s ∧
      makeScriptNum so vm.verifyMinimalData 4 = .ok n ∧ vm' = { vm with dstack := s } := by
  constructor
  · exact popInt_ok
  · rintro ⟨so, s, hs, hn, rfl⟩
    exact bind_eq_ok.mpr ⟨_, popBytes_ok.mpr ⟨s, hs, rfl⟩, bind_eq_ok.mpr ⟨n, hn, rfl⟩⟩

theorem popKeyHashes_ok {n : Nat} {hashes : List Bytes} :
    popKeyHashes n vm = .ok (hashes, vm') ↔ hashes.length = n ∧ (∀ h ∈ hashes, h.length = 20) ∧
      ∃ s, vm.dstack = hashes ++ s ∧ vm' = { vm with dstack := s } := by
  induction n generalizing vm hashes with
  | zero =>
    constructor
    · intro h
      cases h
      exact ⟨rfl, forall_mem_nil _, _, rfl, rfl⟩
    · rintro ⟨hlen, -, s, hs, rfl⟩
      obtain rfl := length_eq_zero_iff.mp hlen
      rw [nil_append] at hs
      subst hs
      rfl
  | succ n ih =>
    constructor
    · intro h
      obtain ⟨⟨so, vm₁⟩, hpop, h⟩ := bind_eq_ok.mp h
      obtain ⟨hsize, h⟩ := bind_unit_eq_ok.mp h
      obtain ⟨⟨rest, vm₂⟩, hrest, h⟩ := bind_eq_ok.mp h
      cases h
      obtain ⟨s, hs, rfl⟩ := popBytes_ok.mp hpop
      obtain ⟨hlen, hall, s', hs', rfl⟩ := ih.mp hrest
      have hs'' : s = rest ++ s' := hs'
      refine ⟨by rw [length_cons, hlen], ?_, s', by rw [hs, hs'']; rfl, rfl⟩
      exact forall_mem_cons.mpr ⟨not_not.mp (reject_eq_ok.mp hsize), hall⟩
    · rintro ⟨hlen, hall, s, hs, rfl⟩
      obtain ⟨so, rest, rfl⟩ := exists_cons_of_length_eq_add_one hlen
      rw [forall_mem_cons] at hall
      have hrest : popKeyHashes n { vm with dstack := rest ++ s } =
          .ok (rest, { vm with dstack := s }) :=
        ih.mpr ⟨Nat.succ.inj hlen, hall.2, s, rfl, rfl⟩
      refine bind_eq_ok.mpr ⟨_, popBytes_ok.mpr ⟨_, hs, rfl⟩, ?_⟩
      refine bind_unit_eq_ok.mpr ⟨reject_eq_ok.mpr (not_not.mpr hall.1), ?_⟩
      exact bind_eq_ok.mpr ⟨_, hrest, rfl⟩

theorem popSigInfos_ok {n : Nat} : popSigInfos n vm = .ok (infos, vm') ↔ infos.length = n ∧
      ∃ s, vm.dstack = unlockStack infos ++ s ∧ vm' = { vm with dstack := s } := by
  induction n generalizing vm infos with
  | zero =>
    constructor
    · intro h
      cases h
      exact ⟨rfl, _, rfl, rfl⟩
    · rintro ⟨hlen, s, hs, rfl⟩
      obtain rfl := length_eq_zero_iff.mp hlen
      have hs' : vm.dstack = s := hs
      subst hs'
      rfl
  | succ n ih =>
    constructor
    · intro h
      obtain ⟨⟨sig, vm₁⟩, hsig, h⟩ := bind_eq_ok.mp h
      obtain ⟨⟨key, vm₂⟩, hkey, h⟩ := bind_eq_ok.mp h
      obtain ⟨⟨rest, vm₃⟩, hrest, h⟩ := bind_eq_ok.mp h
      cases h
      obtain ⟨s, hs, rfl⟩ := popBytes_ok.mp hsig
      obtain ⟨s', hs', rfl⟩ := popBytes_ok.mp hkey
      obtain ⟨hlen, s'', hs'', rfl⟩ := ih.mp hrest
      have hkeys : s = key :: s' := hs'
      have hothers : s' = unlockStack rest ++ s'' := hs''
      refine ⟨by rw [length_cons, hlen], s'', ?_, rfl⟩
      rw [hs, hkeys, hothers]
      rfl
    · rintro ⟨hlen, s, hs, rfl⟩
      obtain ⟨info, rest, rfl⟩ := exists_cons_of_length_eq_add_one hlen
      have hrest : popSigInfos n { vm with dstack := unlockStack rest ++ s } =
          .ok (rest, { vm with dstack := s }) :=
        ih.mpr ⟨Nat.succ.inj hlen, s, rfl, rfl⟩
      refine bind_eq_ok.mpr ⟨_, popBytes_ok.mpr ⟨_, hs, rfl⟩, ?_⟩
      refine bind_eq_ok.mpr ⟨_, popBytes_ok.mpr ⟨_, rfl, rfl⟩, ?_⟩
      exact bind_eq_ok.mpr ⟨_, hrest, rfl⟩

/-! ### The matching loop -/

theorem safeMultiSigLoop_of_context {fuel : Nat} {unmatched : List Bytes} {infos : List SigInfo}
    {r : Except ScriptError Bool} (hloop : safeMultiSigLoop c vm fuel unmatched infos = r)
    (h : vm.context = vm'.context) : safeMultiSigLoop c vm' fuel unmatched infos = r := by
  have hcheck : ∀ info, checkSigInfo c vm' info = checkSigInfo c vm info := by
    intro info
    change checkSigInfo c vm'.context info = checkSigInfo c vm.context info
    rw [h]
  rw [← hloop]
  clear hloop
  induction fuel generalizing unmatched infos with
  | zero =>
    cases infos with
    | nil => rfl
    | cons info infos => rfl
  | succ fuel ih =>
    cases infos with
    | nil => rfl
    | cons info infos =>
      unfold safeMultiSigLoop
      simp only [hcheck, ih]

def Signed (c : Crypto) (vm : Engine) (info : SigInfo) : Prop :=
  info.signature ≠ [] ∧ checkSigInfo c vm info = .ok true

theorem safeMultiSigLoop_of_signed (hfuel : infos.length ≤ fuel) (hsigned : ∀ info ∈ infos, Signed c vm info)
    (hmatch : (infos.map fun info => c.hash160 info.pubKey).Subperm unmatched) :
    safeMultiSigLoop c vm fuel unmatched infos = .ok true := by
  induction infos generalizing fuel unmatched with
  | nil => cases fuel <;> rfl
  | cons info infos ih =>
    obtain ⟨fuel, rfl⟩ : ∃ k, fuel = k + 1 := ⟨fuel - 1, by rw [length_cons] at hfuel; omega⟩
    rw [forall_mem_cons] at hsigned
    rw [map_cons] at hmatch
    have hmem : c.hash160 info.pubKey ∈ unmatched := hmatch.subset mem_cons_self
    rw [safeMultiSigLoop, if_neg hsigned.1.1, if_pos hmem]
    refine bind_eq_ok.mpr ⟨true, hsigned.1.2, ?_⟩
    rw [if_pos rfl]
    refine ih (Nat.le_of_succ_le_succ hfuel) hsigned.2 ?_
    have herase := hmatch.erase (c.hash160 info.pubKey)
    rwa [erase_cons_head] at herase

theorem signed_of_safeMultiSigLoop (h : safeMultiSigLoop c vm fuel unmatched infos = .ok true) :
    (∀ info ∈ infos, Signed c vm info) ∧ (infos.map fun info => c.hash160 info.pubKey).Subperm unmatched := by
  induction fuel generalizing unmatched infos with
  | zero =>
    cases infos with
    | nil => exact ⟨forall_mem_nil _, nil_subperm⟩
    | cons info infos => cases h
  | succ fuel ih =>
    cases infos with
    | nil => exact ⟨forall_mem_nil _, nil_subperm⟩
    | cons info infos =>
      rw [safeMultiSigLoop] at h
      dsimp only at h
      split_ifs at h with hempty hmem
      · exact ih h
      · obtain ⟨valid, hcheck, h⟩ := bind_eq_ok.mp h
        have herase := perm_cons_erase hmem
        cases valid with
        | true =>
          rw [if_pos rfl] at h
          obtain ⟨hsigned, hmatch⟩ := ih h
          refine ⟨forall_mem_cons.mpr ⟨⟨hempty, hcheck⟩, hsigned⟩, ?_⟩
          exact (subperm_cons _ |>.mpr hmatch).trans herase.symm.subperm
        | false =>
          -- the same pair is tried again, without the key hash it used up
          rw [if_neg (by decide)] at h
          obtain ⟨hsigned, hmatch⟩ := ih h
          exact ⟨hsigned, hmatch.trans (erase_subperm _ _)⟩
      · cases h

/-! ### When the loop ends -/

/-- The loop comes to an empty signature: the pairs before it are signed and find their key hashes. -/
def MeetsEmpty (c : Crypto) (vm : Engine) (unmatched : List Bytes) (infos : List SigInfo) : Prop :=
  ∃ before info after, infos = before ++ info :: after ∧ info.signature = [] ∧
    (∀ i ∈ before, Signed c vm i) ∧ (before.map fun i => c.hash160 i.pubKey).Subperm unmatched

theorem safeMultiSigLoop_of_empty (h : info.signature = []) (fuel : Nat) (unmatched : List Bytes)
    (infos : List SigInfo) : safeMultiSigLoop c vm fuel unmatched (info :: infos) = .error .diverges := by
  induction fuel with
  | zero => rfl
  | succ fuel ih => rw [safeMultiSigLoop, if_pos h, ih]

theorem safeMultiSigLoop_of_meetsEmpty (h : MeetsEmpty c vm unmatched infos) (fuel : Nat) :
    safeMultiSigLoop c vm fuel unmatched infos = .error .diverges := by
  obtain ⟨before, info, after, rfl, hempty, hsigned, hmatch⟩ := h
  induction before generalizing fuel unmatched with
  | nil => exact safeMultiSigLoop_of_empty hempty fuel unmatched after
  | cons first before ih =>
    cases fuel with
    | zero => rfl
    | succ fuel =>
      rw [forall_mem_cons] at hsigned
      rw [map_cons] at hmatch
      have hmem : c.hash160 first.pubKey ∈ unmatched := hmatch.subset mem_cons_self
      have herase := hmatch.erase (c.hash160 first.pubKey)
      rw [erase_cons_head] at herase
      rw [cons_append, safeMultiSigLoop, if_neg hsigned.1.1, if_pos hmem]
      dsimp only
      rw [hsigned.1.2, ok_bind, if_pos rfl]
      exact ih fuel hsigned.2 herase

theorem MeetsEmpty.cons (hsigned : Signed c vm info) (hmem : c.hash160 info.pubKey ∈ unmatched)
    (h : MeetsEmpty c vm (unmatched.erase (c.hash160 info.pubKey)) infos) :
    MeetsEmpty c vm unmatched (info :: infos) := by
  obtain ⟨before, empty, after, rfl, hempty, hall, hmatch⟩ := h
  refine ⟨info :: before, empty, after, rfl, hempty, forall_mem_cons.mpr ⟨hsigned, hall⟩, ?_⟩
  exact (subperm_cons _ |>.mpr hmatch).trans (perm_cons_erase hmem).symm.subperm

theorem MeetsEmpty.of_erase {hash : Bytes} (h : MeetsEmpty c vm (unmatched.erase hash) infos) :
    MeetsEmpty c vm unmatched infos := by
  obtain ⟨before, empty, after, rfl, hempty, hall, hmatch⟩ := h
  exact ⟨before, empty, after, rfl, hempty, hall, hmatch.trans (erase_subperm _ _)⟩

theorem sigAt_ne_diverges (sig : Bytes) (i : Nat) : sigAt sig i ≠ .error .diverges := by
  unfold sigAt
  split
  · exact fun h => by cases h
  · exact fun h => by cases h

theorem checkSecondByte_ne_diverges (sig : Bytes) (len : Nat) (first : UInt8) (i : Nat) :
    checkSecondByte sig len first i ≠ .error .diverges := by
  unfold checkSecondByte
  split_ifs
  · exact bind_ne_error (sigAt_ne_diverges sig i) fun _ => reject_ne_error (by decide)
  · exact fun h => by cases h

theorem checkLowS_ne_diverges (lowS : Bool) (sig : Bytes) (low high : Nat) :
    checkLowS lowS sig low high ≠ .error .diverges := by
  unfold checkLowS
  split_ifs
  · refine bind_ne_error ?_ fun _ => reject_ne_error (by decide)
    unfold sigRange
    split_ifs
    · exact fun h => by cases h
    · exact fun h => by cases h
  · exact fun h => by cases h

theorem checkDER_ne_diverges (lowS : Bool) (sig : Bytes) : checkDER lowS sig ≠ .error .diverges := by
  unfold checkDER
  repeat' refine bind_ne_error ?_ fun _ => ?_
  all_goals first
    | exact reject_ne_error (by decide)
    | exact sigAt_ne_diverges _ _
    | exact checkSecondByte_ne_diverges _ _ _ _
    | exact checkLowS_ne_diverges _ _ _ _

theorem checkSigInfo_ne_diverges (info : SigInfo) : checkSigInfo c vm info ≠ .error .diverges := by
  unfold checkSigInfo
  refine bind_ne_error ?_ fun _ => bind_ne_error ?_ fun _ => ?_
  · unfold checkHashTypeEncoding
    split_ifs
    · exact reject_ne_error (by decide)
    · exact fun h => by cases h
  · unfold checkSignatureEncoding
    split_ifs
    · exact checkDER_ne_diverges _ _
    · exact fun h => by cases h
  · split
    · exact fun h => by cases h
    · exact fun h => by cases h
    · refine bind_ne_error ?_ fun _ => ?_
      · unfold checkPubKeyEncoding
        split_ifs
        · exact reject_ne_error (by decide)
        · exact fun h => by cases h
      · split
        · exact fun h => by cases h
        · exact fun h => by cases h

theorem meetsEmpty_of_safeMultiSigLoop (hfuel : unmatched.length < fuel)
    (h : safeMultiSigLoop c vm fuel unmatched infos = .error .diverges) : MeetsEmpty c vm unmatched infos := by
  induction fuel generalizing unmatched infos with
  | zero => exact absurd hfuel (Nat.not_lt_zero _)
  | succ fuel ih =>
    cases infos with
    | nil => cases h
    | cons info infos =>
      rw [safeMultiSigLoop] at h
      dsimp only at h
      split_ifs at h with hempty hmem
      · exact ⟨[], info, infos, rfl, hempty, forall_mem_nil _, nil_subperm⟩
      · have hshorter : (unmatched.erase (c.hash160 info.pubKey)).length < fuel := by
          rw [length_erase_of_mem hmem]
          have := length_pos_of_mem hmem
          omega
        rcases bind_eq_error.mp h with h | ⟨valid, hcheck, h⟩
        · exact absurd h (checkSigInfo_ne_diverges info)
        cases valid with
        | true =>
          rw [if_pos rfl] at h
          exact (ih hshorter h).cons ⟨hempty, hcheck⟩ hmem
        | false =>
          rw [if_neg (by decide)] at h
          exact (ih hshorter h).of_erase

/-! ### The handler -/

/-- The stack the handler can take apart: from the top the number of key hashes, the key hashes, the
number of signatures and the pairs, within the limits. -/
structure MultiSigStack (vm : Engine) (n m : Bytes) (keyHashes : List Bytes) (infos : List SigInfo)
    (rest : Stack) : Prop where
  stack : vm.dstack = n :: (keyHashes ++ m :: (unlockStack infos ++ rest))
  numKeys : ∃ k, makeScriptNum n vm.verifyMinimalData 4 = .ok k ∧ scriptNumInt32 k = keyHashes.length
  maxKeys : keyHashes.length ≤ maxPubKeysPerMultiSig
  maxOps : vm.numOps + keyHashes.length ≤ maxOpsPerScript
  hashes : ∀ h ∈ keyHashes, h.length = 20
  numSigs : ∃ k, makeScriptNum m vm.verifyMinimalData 4 = .ok k ∧ scriptNumInt32 k = infos.length
  fewer : infos.length ≤ keyHashes.length

/-- A run of the handler that ends: the stack it found, and what the loop over the pairs told. -/
structure CheckedMultiSig (c : Crypto) (vm : Engine) (n m : Bytes) (keyHashes : List Bytes)
    (infos : List SigInfo) (rest : Stack) (success : Bool) : Prop
    extends MultiSigStack vm n m keyHashes infos rest where
  matched : safeMultiSigLoop c vm (keyHashes.length + 1) keyHashes infos = .ok success
  nullFail : ¬ (¬ success = true ∧ vm.hasFlag scriptVerifyNullFail = true ∧
    ∃ sig ∈ infos, sig.signature ≠ [])

theorem MultiSigStack.opcodeCheckSafeMultiSig_eq {pop : ParsedOpcode} {n m : Bytes}
    {keyHashes : List Bytes} {infos : List SigInfo} {rest : Stack} (h : MultiSigStack vm n m keyHashes infos rest) :
    opcodeCheckSafeMultiSig c pop vm = (do
      let success ← safeMultiSigLoop c vm (keyHashes.length + 1) keyHashes infos
      reject (¬ success = true ∧ vm.hasFlag scriptVerifyNullFail = true ∧ ∃ sig ∈ infos, sig.signature ≠ []) .nullFail
      return { vm with
        numOps := vm.numOps + keyHashes.length
        dstack := fromBool success :: rest }) := by
  obtain ⟨k, hn, hk⟩ := h.numKeys
  obtain ⟨k', hm, hk'⟩ := h.numSigs
  have hmaxKeys := h.maxKeys
  have hmaxOps := h.maxOps
  have hfewer := h.fewer
  have hnat : (scriptNumInt32 k).toNat = keyHashes.length := by omega
  have hnat' : (scriptNumInt32 k').toNat = infos.length := by omega
  unfold opcodeCheckSafeMultiSig
  rw [popInt_eq_ok.mpr ⟨n, _, h.stack, hn, rfl⟩, ok_bind]
  dsimp only
  rw [reject_bind_of_not (by omega), hnat, reject_bind_of_not (by omega),
    popKeyHashes_ok.mpr ⟨rfl, h.hashes, _, rfl, rfl⟩, ok_bind]
  dsimp only
  rw [(popInt_eq_ok (n := k')).mpr ⟨m, _, rfl, ?_, rfl⟩, ok_bind]
  · dsimp only
    rw [reject_bind_of_not (by omega), reject_bind_of_not (by omega), hnat',
      popSigInfos_ok.mpr ⟨rfl, _, rfl, rfl⟩, ok_bind]
    exact congrArg (fun r => r >>= _) (@safeMultiSigLoop_of_context _ vm _ _ _ _ _ rfl rfl)
  · exact hm

/-! ### Termination of the handler -/

theorem popBytes_ne_diverges : vm.popBytes ≠ .error .diverges := by
  refine bind_ne_error ?_ fun _ h => by cases h
  cases vm.dstack with
  | nil => exact fun h => by cases h
  | cons so s => exact fun h => by cases h

theorem checkMinimalDataEncoding_ne_diverges (v : Bytes) : checkMinimalDataEncoding v ≠ .error .diverges := by
  unfold checkMinimalDataEncoding
  split
  · exact fun h => by cases h
  · split_ifs <;> exact fun h => by cases h
  · split_ifs <;> exact fun h => by cases h

theorem makeScriptNum_ne_diverges (v : Bytes) (requireMinimal : Bool) (scriptNumLen : Nat) :
    makeScriptNum v requireMinimal scriptNumLen ≠ .error .diverges := by
  refine bind_ne_error (reject_ne_error (by decide)) fun _ => ?_
  dsimp only
  split_ifs
  on_goal 1 => refine bind_ne_error (checkMinimalDataEncoding_ne_diverges v) fun _ => ?_
  all_goals
    split
    · exact fun h => by cases h
    · split_ifs <;> exact fun h => by cases h

theorem popInt_ne_diverges : vm.popInt ≠ .error .diverges :=
  bind_ne_error popBytes_ne_diverges fun _ =>
    bind_ne_error (makeScriptNum_ne_diverges _ _ _) fun _ h => by cases h

theorem popKeyHashes_ne_diverges (n : Nat) : popKeyHashes n vm ≠ .error .diverges := by
  induction n generalizing vm with
  | zero => exact fun h => by cases h
  | succ n ih =>
    exact bind_ne_error popBytes_ne_diverges fun _ =>
      bind_ne_error (reject_ne_error (by decide)) fun _ => bind_ne_error ih fun _ h => by cases h

theorem popSigInfos_ne_diverges (n : Nat) : popSigInfos n vm ≠ .error .diverges := by
  induction n generalizing vm with
  | zero => exact fun h => by cases h
  | succ n ih =>
    exact bind_ne_error popBytes_ne_diverges fun _ =>
      bind_ne_error popBytes_ne_diverges fun _ => bind_ne_error ih fun _ h => by cases h

/-- Before its loop the handler does not run into one without end. -/
theorem exists_multiSigStack (h : ∀ e, opcodeCheckSafeMultiSig c pop vm = .error e → e = .diverges) :
    ∃ n m keyHashes infos rest, MultiSigStack vm n m keyHashes infos rest := by
  obtain ⟨⟨k, vm₁⟩, hk, h⟩ := exists_ok_of_bind popInt_ne_diverges h
  obtain ⟨n, s, hs, hn, rfl⟩ := popInt_eq_ok.mp hk
  obtain ⟨hrange, h⟩ := not_of_reject_bind (by decide) h
  obtain ⟨hops, h⟩ := not_of_reject_bind (by decide) h
  obtain ⟨⟨keyHashes, vm₂⟩, hhashes, h⟩ := exists_ok_of_bind (popKeyHashes_ne_diverges _) h
  obtain ⟨hlen, hall, s', hs', rfl⟩ := popKeyHashes_ok.mp hhashes
  obtain ⟨⟨k', vm₃⟩, hk', h⟩ := exists_ok_of_bind popInt_ne_diverges h
  obtain ⟨m, s'', hs'', hm, rfl⟩ := popInt_eq_ok.mp hk'
  obtain ⟨hneg, h⟩ := not_of_reject_bind (by decide) h
  obtain ⟨hmore, h⟩ := not_of_reject_bind (by decide) h
  obtain ⟨⟨infos, vm₄⟩, hinfos, h⟩ := exists_ok_of_bind (popSigInfos_ne_diverges _) h
  obtain ⟨hcount, rest, hrest, rfl⟩ := popSigInfos_ok.mp hinfos
  change s = _ at hs'
  change s' = _ at hs''
  change s'' = _ at hrest
  change ¬ maxOpsPerScript < vm.numOps + _ at hops
  exact ⟨n, m, keyHashes, infos, rest, by rw [hs, hs', hs'', hrest], ⟨k, hn, by omega⟩, by omega, by omega, hall,
    ⟨k', hm, by omega⟩, by omega⟩

theorem opcodeCheckSafeMultiSig_ok : opcodeCheckSafeMultiSig c pop vm = .ok vm' ↔ ∃ n m keyHashes infos rest success,
      CheckedMultiSig c vm n m keyHashes infos rest success ∧
      vm' = { vm with
        numOps := vm.numOps + keyHashes.length
        dstack := fromBool success :: rest } := by
  constructor
  · intro h
    have hends : ∀ e, opcodeCheckSafeMultiSig c pop vm = .error e → e = .diverges := fun e he => by
      rw [h] at he
      cases he
    obtain ⟨n, m, keyHashes, infos, rest, hstack⟩ := exists_multiSigStack hends
    rw [hstack.opcodeCheckSafeMultiSig_eq] at h
    obtain ⟨success, hloop, h⟩ := bind_eq_ok.mp h
    obtain ⟨hnull, h⟩ := bind_unit_eq_ok.mp h
    cases h
    exact ⟨n, m, keyHashes, infos, rest, success, ⟨hstack, hloop, reject_eq_ok.mp hnull⟩, rfl⟩
  · rintro ⟨n, m, keyHashes, infos, rest, success, h, rfl⟩
    rw [h.opcodeCheckSafeMultiSig_eq]
    refine bind_eq_ok.mpr ⟨success, h.matched, ?_⟩
    exact bind_unit_eq_ok.mpr ⟨reject_eq_ok.mpr h.nullFail, rfl⟩

theorem opcodeCheckSafeMultiSig_eq_diverges :
    opcodeCheckSafeMultiSig c pop vm = .error .diverges ↔ ∃ n m keyHashes infos rest,
      MultiSigStack vm n m keyHashes infos rest ∧ MeetsEmpty c vm keyHashes infos := by
  constructor
  · intro h
    obtain ⟨n, m, keyHashes, infos, rest, hstack⟩ := exists_multiSigStack fun e he => Except.error.inj (he.symm.trans h)
    rw [hstack.opcodeCheckSafeMultiSig_eq] at h
    rcases bind_eq_error.mp h with hloop | ⟨success, -, h⟩
    · exact ⟨n, m, keyHashes, infos, rest, hstack, meetsEmpty_of_safeMultiSigLoop (Nat.lt_succ_self _) hloop⟩
    · cases ((reject_bind_eq_error (by decide)).mp h).2
  · rintro ⟨n, m, keyHashes, infos, rest, hstack, hmeets⟩
    rw [hstack.opcodeCheckSafeMultiSig_eq, safeMultiSigLoop_of_meetsEmpty hmeets]
    rfl

/-- The handler ends unless its loop comes to an empty signature, and on the stacks where it does not
end no number of rounds is enough. -/
theorem opcodeCheckSafeMultiSig_terminates_iff (c : Crypto) (pop : ParsedOpcode) (vm : Engine) :
    (opcodeCheckSafeMultiSig c pop vm ≠ .error .diverges ↔ ¬ ∃ n m keyHashes infos rest,
        MultiSigStack vm n m keyHashes infos rest ∧ MeetsEmpty c vm keyHashes infos) ∧
    ∀ keyHashes infos, (∃ fuel, safeMultiSigLoop c vm fuel keyHashes infos ≠ .error .diverges) ↔
      ¬ MeetsEmpty c vm keyHashes infos := by
  refine ⟨not_congr opcodeCheckSafeMultiSig_eq_diverges, fun keyHashes infos => ?_⟩
  constructor
  · rintro ⟨fuel, hends⟩ hmeets
    exact hends (safeMultiSigLoop_of_meetsEmpty hmeets fuel)
  · intro hmeets
    exact ⟨keyHashes.length + 1, fun h => hmeets (meetsEmpty_of_safeMultiSigLoop (Nat.lt_succ_self _) h)⟩

namespace MultiSigSample

/-- Tells strings apart by their first byte, and takes one signature for valid. -/
def crypto : Crypto where
  sha256 b := BitVec.ofNat 256 (b.headD 0).toNat
  sha3 b := BitVec.ofNat 256 (b.headD 0).toNat
  ripemd160 b := BitVec.ofNat 160 (b.headD 0).toNat
  sha1 b := BitVec.ofNat 160 (b.headD 0).toNat
  ecdsaVerify _ _ r s := r == 1 && s == 1

def engine (keyHashes : List Bytes) (infos : List SigInfo) : Engine :=
  { strictEngine with
    dstack := [UInt8.ofNat keyHashes.length] ::
      (keyHashes ++ [UInt8.ofNat infos.length] :: unlockStack infos) }

end MultiSigSample

open MultiSigSample in
/-- One key hash, and an empty signature for its key. -/
theorem opcodeCheckSafeMultiSig_empty_signature : opcodeCheckSafeMultiSig crypto ⟨opCheckSafeMultiSig, []⟩
        (engine [crypto.hash160 [1]] [⟨[1], []⟩]) = .error .diverges ∧
      ∀ fuel, safeMultiSigLoop crypto (engine [crypto.hash160 [1]] [⟨[1], []⟩]) fuel
        [crypto.hash160 [1]] [⟨[1], []⟩] = .error .diverges := by
  have hstack : MultiSigStack (engine [crypto.hash160 [1]] [⟨[1], []⟩]) [1] [1] [crypto.hash160 [1]]
      [⟨[1], []⟩] [] :=
    ⟨rfl, ⟨1, by decide, rfl⟩, by decide, by decide, by decide, ⟨1, by decide, rfl⟩, by decide⟩
  have hmeets : MeetsEmpty crypto (engine [crypto.hash160 [1]] [⟨[1], []⟩]) [crypto.hash160 [1]]
      [⟨[1], []⟩] :=
    ⟨[], _, [], rfl, rfl, forall_mem_nil _, nil_subperm⟩
  exact ⟨opcodeCheckSafeMultiSig_eq_diverges.mpr ⟨_, _, _, _, _, hstack, hmeets⟩, safeMultiSigLoop_of_meetsEmpty hmeets⟩

/-! ### Success of the handler -/

def Verifies (c : Crypto) (vm : Engine) (info : SigInfo) : Prop :=
  ∃ signature pubKey, vm.parseSigBytes info.signature.dropLast = .ok signature ∧
    vm.checkPubKeyEncoding info.pubKey = .ok () ∧ parsePubKey info.pubKey = .ok pubKey ∧
    c.verify signature
      (calcSignatureHashNew c (sigHashTypeOf info.signature) vm.tx vm.txIdx vm.inputAmount) pubKey = true

/-- A signature that is there and passes the checks of its encoding. -/
def WellEncoded (vm : Engine) (info : SigInfo) : Prop :=
  info.signature ≠ [] ∧ vm.checkHashTypeEncoding (sigHashTypeOf info.signature) = .ok () ∧
    vm.checkSignatureEncoding info.signature.dropLast = .ok ()

theorem WellEncoded.signed_iff (h : WellEncoded vm info) : Signed c vm info ↔ Verifies c vm info := by
  obtain ⟨hempty, htype, hencoding⟩ := h
  unfold Signed Verifies checkSigInfo
  dsimp only
  rw [and_iff_right hempty, htype, ok_bind, hencoding, ok_bind]
  cases hsig : vm.parseSigBytes info.signature.dropLast with
  | error e =>
    refine iff_of_false (fun h => ?_) fun ⟨_, _, h, _⟩ => by cases h
    cases e <;> cases h
  | ok signature =>
    dsimp only
    rw [bind_unit_eq_ok]
    cases hkey : parsePubKey info.pubKey with
    | error e => exact iff_of_false (fun h => by cases h.2) fun ⟨_, _, _, _, h, _⟩ => by cases h
    | ok pubKey =>
      dsimp only
      rw [pure_eq_ok]
      constructor
      · rintro ⟨hpub, hverify⟩
        exact ⟨signature, pubKey, rfl, hpub, rfl, hverify⟩
      · rintro ⟨_, _, ⟨⟩, hpub, ⟨⟩, hverify⟩
        exact ⟨hpub, hverify⟩

def Succeeds (c : Crypto) (pop : ParsedOpcode) (vm : Engine) : Prop :=
  ∃ vm', opcodeCheckSafeMultiSig c pop vm = .ok vm' ∧ vm'.dstack.head? = some (fromBool true)

theorem fromBool_eq_true_iff {b : Bool} : fromBool b = fromBool true ↔ b = true := by
  cases b <;> decide

theorem MultiSigStack.succeeds_iff {n m : Bytes} (hstack : MultiSigStack vm n m keyHashes infos rest) :
    Succeeds c pop vm ↔ (∀ info ∈ infos, Signed c vm info) ∧
      (infos.map fun info => c.hash160 info.pubKey).Subperm keyHashes := by
  unfold Succeeds
  rw [hstack.opcodeCheckSafeMultiSig_eq]
  constructor
  · rintro ⟨vm', h, htop⟩
    obtain ⟨success, hloop, h⟩ := bind_eq_ok.mp h
    obtain ⟨-, h⟩ := bind_unit_eq_ok.mp h
    cases h
    obtain rfl := fromBool_eq_true_iff.mp (Option.some.inj htop)
    exact signed_of_safeMultiSigLoop hloop
  · rintro ⟨hsigned, hmatch⟩
    have hfuel : infos.length ≤ keyHashes.length + 1 := Nat.le_succ_of_le hstack.fewer
    rw [safeMultiSigLoop_of_signed hfuel hsigned hmatch, ok_bind, reject_bind_of_not (fun h => h.1 rfl)]
    exact ⟨_, rfl, rfl⟩

theorem MultiSigStack.perm {n m : Bytes} {keyHashes' : List Bytes} {infos' : List SigInfo}
    (hstack : MultiSigStack vm n m keyHashes infos rest) (hkeys : keyHashes.Perm keyHashes')
    (hinfos : infos.Perm infos') :
    MultiSigStack { vm with dstack := n :: (keyHashes' ++ m :: (unlockStack infos' ++ rest)) } n m
      keyHashes' infos' rest where
  stack := rfl
  numKeys := hkeys.length_eq ▸ hstack.numKeys
  maxKeys := hkeys.length_eq ▸ hstack.maxKeys
  maxOps := hkeys.length_eq ▸ hstack.maxOps
  hashes h hmem := hstack.hashes h (hkeys.mem_iff.mpr hmem)
  numSigs := hinfos.length_eq ▸ hstack.numSigs
  fewer := hkeys.length_eq ▸ hinfos.length_eq ▸ hstack.fewer

/-- On signatures that are there and well encoded the handler succeeds exactly if every pair verifies
and the hashes of the public keys are among the key hashes as multisets. Success does not depend on
the order of the pairs or of the key hashes. -/
theorem opcodeCheckSafeMultiSig_succeeds_iff {pop : ParsedOpcode} {n m : Bytes} {keyHashes : List Bytes}
    {infos : List SigInfo} {rest : Stack} (hstack : MultiSigStack vm n m keyHashes infos rest)
    (hencoded : ∀ info ∈ infos, WellEncoded vm info) : (Succeeds c pop vm ↔ (∀ info ∈ infos, Verifies c vm info) ∧
      Multiset.ofList (infos.map fun info => c.hash160 info.pubKey) ≤ Multiset.ofList keyHashes) ∧
    ∀ keyHashes' infos', keyHashes.Perm keyHashes' → infos.Perm infos' →
      (Succeeds c pop { vm with dstack := n :: (keyHashes' ++ m :: (unlockStack infos' ++ rest)) } ↔
        Succeeds c pop vm) := by
  constructor
  · rw [hstack.succeeds_iff, Multiset.coe_le]
    refine and_congr_left fun _ => forall_congr' fun info => forall_congr' fun hinfo => ?_
    exact (hencoded info hinfo).signed_iff
  · intro keyHashes' infos' hkeys hinfos
    rw [(hstack.perm hkeys hinfos).succeeds_iff, hstack.succeeds_iff]
    have hhashes := hinfos.map fun info => c.hash160 info.pubKey
    rw [hhashes.symm.subperm_right, hkeys.symm.subperm_left]
    refine and_congr_left fun _ => forall_congr' fun info => ?_
    rw [hinfos.mem_iff]
    rfl

namespace MultiSigSample

def pubKey : Bytes := 0x02 :: beBytes 32 0x79BE667EF9DCBBAC55A06295CE870B07029BFCDB2DCE28D959F2815B16F81798

def signedBy (pubKey : Bytes) : SigInfo := ⟨pubKey, derEncode [1] [1] ++ [1]⟩

theorem wellEncoded_signedBy (keyHashes : List Bytes) (infos : List SigInfo) (pubKey : Bytes) :
    WellEncoded (engine keyHashes infos) (signedBy pubKey) := by
  have hempty : derEncode [1] [1] ++ [1] ≠ [] := by decide
  have htype : strictEngine.checkHashTypeEncoding (sigHashTypeOf (derEncode [1] [1] ++ [1])) = .ok () := by
    decide
  have hencoding : strictEngine.checkSignatureEncoding (derEncode [1] [1]) = .ok () := by decide
  exact ⟨hempty, htype, hencoding⟩

/-- A pair whose key hash is not there, and one whose key hash is there and whose key is none. -/
def unknown : SigInfo := signedBy [2]

def malformed : SigInfo := signedBy [1]

def hashes : List Bytes := [crypto.hash160 [1], crypto.hash160 [3]]

theorem multiSigStack_pair (first second : SigInfo) :
    MultiSigStack (engine hashes [first, second]) [2] [2] hashes [first, second] [] := by
  have htwo : makeScriptNum [2] strictEngine.verifyMinimalData 4 = .ok 2 := by decide
  have hops : strictEngine.numOps + hashes.length ≤ maxOpsPerScript := by decide
  exact ⟨rfl, ⟨2, htwo, rfl⟩, by decide, hops, by decide, ⟨2, htwo, rfl⟩, Nat.le_refl 2⟩

end MultiSigSample

open MultiSigSample in
theorem opcodeCheckSafeMultiSig_succeeds_iff_single :
    Succeeds crypto ⟨opCheckSafeMultiSig, []⟩ (engine [crypto.hash160 pubKey] [signedBy pubKey]) := by
  have hstack : MultiSigStack (engine [crypto.hash160 pubKey] [signedBy pubKey]) [1] [1]
      [crypto.hash160 pubKey] [signedBy pubKey] [] :=
    ⟨rfl, ⟨1, by decide, rfl⟩, by decide, by decide, by decide, ⟨1, by decide, rfl⟩, by decide⟩
  have hencoded : ∀ info ∈ [signedBy pubKey],
      WellEncoded (engine [crypto.hash160 pubKey] [signedBy pubKey]) info :=
    forall_mem_singleton.mpr (wellEncoded_signedBy _ _ pubKey)
  obtain ⟨key, hkey⟩ := exists_ok_of_isOk (by decide +kernel : (parsePubKey pubKey).isOk = true)
  have hparse : parseDERSignature (derEncode [1] [1]) = .ok ⟨1, 1⟩ := by decide
  refine (opcodeCheckSafeMultiSig_succeeds_iff hstack hencoded).1.mpr ⟨?_, le_refl _⟩
  exact forall_mem_singleton.mpr ⟨⟨1, 1⟩, key, hparse, by decide, hkey, rfl⟩

open MultiSigSample in
/-- With the pair whose key hash is not there first the handler leaves false. With the other one first
it ends with an error. -/
theorem opcodeCheckSafeMultiSig_failure_by_order :
    (∀ info ∈ [unknown, malformed], WellEncoded (engine hashes [unknown, malformed]) info) ∧
    (∃ vm', opcodeCheckSafeMultiSig crypto ⟨opCheckSafeMultiSig, []⟩ (engine hashes [unknown, malformed]) =
      .ok vm' ∧ vm'.dstack = [fromBool false]) ∧
    opcodeCheckSafeMultiSig crypto ⟨opCheckSafeMultiSig, []⟩ (engine hashes [malformed, unknown]) =
      .error .pubKeyType := by
  have hfalse : safeMultiSigLoop crypto (engine hashes [unknown, malformed]) (hashes.length + 1) hashes
      [unknown, malformed] = .ok false := by
    decide
  have herror : safeMultiSigLoop crypto (engine hashes [malformed, unknown]) (hashes.length + 1) hashes
      [malformed, unknown] = .error .pubKeyType := by
    decide
  refine ⟨?_, ?_, ?_⟩
  · exact forall_mem_cons.mpr
      ⟨wellEncoded_signedBy _ _ _, forall_mem_singleton.mpr (wellEncoded_signedBy _ _ _)⟩
  · rw [(multiSigStack_pair unknown malformed).opcodeCheckSafeMultiSig_eq, hfalse, ok_bind,
      reject_bind_of_not (fun h => absurd h.2.1 (by decide))]
    exact ⟨_, rfl, rfl⟩
  · rw [(multiSigStack_pair malformed unknown).opcodeCheckSafeMultiSig_eq, herror]
    rfl

/-! ### Scripts that end in the handler -/

def withOps (vm : Engine) (numOps : Nat) : Engine := { vm with numOps := numOps }

theorem executeOpcode_multiSig {op : UInt8} (hop : op = opCheckSafeMultiSig ∨ op = opCheckThread)
    (hcond : vm.condStack = []) : executeOpcode c ⟨op, []⟩ vm = .ok vm' ↔ vm.numOps < maxOpsPerScript ∧
      opcodeCheckSafeMultiSig c ⟨op, []⟩ (vm.withOps (vm.numOps + 1)) = .ok vm' := by
  have hbranch : vm.isBranchExecuting = true := by
    unfold isBranchExecuting
    rw [hcond]
  have hfunc : opFunc c op = opcodeCheckSafeMultiSig c := by
    rcases hop with rfl | rfl
    · rfl
    · rfl
  have hplain : ParsedOpcode.isDisabled ⟨op, []⟩ = false ∧ ParsedOpcode.alwaysIllegal ⟨op, []⟩ = false ∧
      op16 < op ∧ ¬ op ≤ opPushData4 := by
    rcases hop with rfl | rfl
    · decide
    · decide
  obtain ⟨hdisabled, hillegal, hcount, hdata⟩ := hplain
  have hcounted : ∀ {w : Engine}, vm.countOp ⟨op, []⟩ = .ok w ↔
      vm.numOps < maxOpsPerScript ∧ w = vm.withOps (vm.numOps + 1) := by
    intro w
    unfold countOp
    rw [if_pos hcount, bind_unit_eq_ok, reject_eq_ok, pure_eq_ok]
    exact and_congr Nat.not_lt eq_comm
  have hexecuting : (vm.withOps (vm.numOps + 1)).isBranchExecuting = true := hbranch
  unfold executeOpcode
  rw [reject_bind_of_not (by simp [hdisabled]), reject_bind_of_not (by simp [hillegal]), bind_eq_ok]
  simp only [hcounted, and_assoc, exists_and_left, exists_eq_left]
  rw [if_neg (by simp [hexecuting]), if_neg (fun hmin => hdata hmin.2.2), hfunc]

theorem runScript_multiSig {op : UInt8} (hop : op = opCheckSafeMultiSig ∨ op = opCheckThread)
    {pops : List ParsedOpcode} {values : List Bytes} (h : PushRun vm.verifyMinimalData pops values)
    (hcond : vm.condStack = []) (hops : vm.numOps = 0) : runScript c (pops ++ [⟨op, []⟩]) vm = .ok vm' ↔
      (pops = [] ∨ vm.dstack.length + vm.astack.length + pops.length ≤ maxStackSize) ∧
      ∃ w, opcodeCheckSafeMultiSig c ⟨op, []⟩ ((vm.afterPushes values).withOps 1) = .ok w ∧
        w.dstack.length + w.astack.length ≤ maxStackSize ∧
        vm' = { w with scriptOff := w.scriptOff + 1 } := by
  have hpushed : ∀ w, pops.foldlM (stepOpcode c) vm = .ok w ↔ _ := fun w =>
    @runScript_pushes values pops c vm w h hcond
  have hexec : ∀ w, executeOpcode c ⟨op, []⟩ (vm.afterPushes values) = .ok w ↔
      opcodeCheckSafeMultiSig c ⟨op, []⟩ ((vm.afterPushes values).withOps 1) = .ok w := by
    intro w
    have hpushedCond : (vm.afterPushes values).condStack = [] := hcond
    have hnum : (vm.afterPushes values).numOps = 0 := hops
    rw [executeOpcode_multiSig hop hpushedCond, hnum]
    exact and_iff_right (by decide)
  unfold runScript
  rw [foldlM_append_eq_ok]
  constructor
  · rintro ⟨v, hv, hrun⟩
    obtain ⟨hroom, rfl⟩ := (hpushed v).mp hv
    obtain ⟨v', hstep, hend⟩ := foldlM_cons_eq_ok.mp hrun
    cases hend
    obtain ⟨w, hw, hstep⟩ := bind_eq_ok.mp hstep
    obtain ⟨hsize, hstep⟩ := bind_unit_eq_ok.mp hstep
    cases hstep
    exact ⟨hroom, w, (hexec w).mp hw, Nat.not_lt.mp (reject_eq_ok.mp hsize), rfl⟩
  · rintro ⟨hroom, w, hw, hsize, rfl⟩
    refine ⟨_, (hpushed _).mpr ⟨hroom, rfl⟩, foldlM_cons_eq_ok.mpr ⟨_, ?_, rfl⟩⟩
    refine bind_eq_ok.mpr ⟨w, (hexec w).mpr hw, ?_⟩
    exact bind_unit_eq_ok.mpr ⟨reject_eq_ok.mpr (Nat.not_lt.mpr hsize), rfl⟩

end Engine

end Prova
