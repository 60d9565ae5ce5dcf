import Prova.Txscript.Standard

/-!
# The scripts of admin operations

`IsValidAdminOp` and `ExtractAdminOpData` decode an admin output one after the other. Here is the form
such an output has, and what the two do with it. The validation compares the length of the data with the
operation only for the ASP operations, so that it also accepts the other operations with four bytes
after the public key, which the extraction returns as a keyID.
-/

namespace Prova

open List

/-- The operations of a thread: the operation byte, whether it adds a key, and the key set. -/
def adminOperations : ThreadID → List (UInt8 × Bool × KeySetType)
  | .root =>
    [(adminOpProvisionKeyAdd, true, .provision), (adminOpProvisionKeyRevoke, false, .provision),
      (adminOpIssueKeyAdd, true, .issue), (adminOpIssueKeyRevoke, false, .issue)]
  | .provision =>
    [(adminOpValidateKeyAdd, true, .validate), (adminOpValidateKeyRevoke, false, .validate),
      (adminOpASPKeyAdd, true, .asp), (adminOpASPKeyRevoke, false, .asp)]
  | .issue => []

/-- OP_RETURN and one push of an operation of the thread, a public key of 33 bytes, and what stands for
the keyID. -/
structure AdminScript (threadID : ThreadID) (script : Bytes) (op : UInt8) (isAddOp : Bool)
    (keySetType : KeySetType) (keyBytes : Bytes) (pubKey : PublicKey) (keyID : Bytes) : Prop where
  operation : (op, isAddOp, keySetType) ∈ adminOperations threadID
  length_keyBytes : keyBytes.length = pubKeyBytesLenCompressed
  parses : parsePubKey keyBytes = .ok pubKey
  script_eq : script =
    opReturn :: UInt8.ofNat (1 + pubKeyBytesLenCompressed + keyID.length) :: op :: (keyBytes ++ keyID)

/-- An admin output as it is meant: a keyID of four bytes for the ASP operations, none for the others. -/
def IsAdminOp (threadID : ThreadID) (script : Bytes) : Prop :=
  ∃ op isAddOp keySetType keyBytes pubKey keyID,
    AdminScript threadID script op isAddOp keySetType keyBytes pubKey keyID ∧
      keyID.length = if keySetType = .asp then keyIDSize else 0

/-- A keyID after an operation that is not about ASP keys. -/
def HasNeedlessKeyID (threadID : ThreadID) (script : Bytes) : Prop :=
  ∃ op isAddOp keySetType keyBytes pubKey keyID,
    AdminScript threadID script op isAddOp keySetType keyBytes pubKey keyID ∧
      keySetType ≠ .asp ∧ keyID.length = keyIDSize

/-! ### One operation byte -/

theorem adminOpAllowed_iff {threadID : ThreadID} {op : UInt8} {dataLen : Nat} :
    adminOpAllowed threadID op dataLen = true ↔ ∃ isAddOp keySetType,
      (op, isAddOp, keySetType) ∈ adminOperations threadID ∧
        (keySetType = .asp → dataLen = 1 + pubKeyBytesLenCompressed + keyIDSize) := by
  cases threadID with
  | root => simp [adminOpAllowed, adminOperations]; grind
  | provision => simp [adminOpAllowed, adminOperations]; grind
  | issue => simp [adminOpAllowed, adminOperations]

theorem adminOpKind_of_mem {threadID : ThreadID} {op : UInt8} {isAddOp : Bool} {keySetType : KeySetType}
    (h : (op, isAddOp, keySetType) ∈ adminOperations threadID) : adminOpKind op = (isAddOp, keySetType) := by
  have hall : ∀ t, ∀ o ∈ adminOperations t, adminOpKind o.1 = o.2 := by
    intro t
    cases t <;> decide
  exact hall threadID _ h

/-! ### The data push -/

theorem ParsedOpcode.bytes_opReturn {data b : Bytes} :
    ParsedOpcode.bytes ⟨opReturn, data⟩ = .ok b ↔ data = [] ∧ b = [opReturn] := by
  have hlen : opLength opReturn = .single := by decide
  unfold bytes
  rw [hlen]
  dsimp only
  split_ifs with hdata
  · exact iff_of_false (fun h => by cases h) fun h => hdata h.1
  · rw [not_not] at hdata
    exact ⟨fun h => ⟨hdata, (Except.ok.inj h).symm⟩, fun h => h.2 ▸ rfl⟩

theorem ParsedOpcode.bytes_fixed {op : UInt8} {n : Nat} (hop : opLength op = .fixed n) {data b : Bytes} :
    ParsedOpcode.bytes ⟨op, data⟩ = .ok b ↔ data.length = n ∧ b = op :: data := by
  unfold bytes
  rw [hop]
  dsimp only
  split_ifs with hdata
  · exact iff_of_false (fun h => by cases h) fun h => hdata h.1
  · rw [not_not] at hdata
    exact ⟨fun h => ⟨hdata, (Except.ok.inj h).symm⟩, fun h => h.2 ▸ rfl⟩

theorem script_of_return_push {op : UInt8} {n : Nat} (hop : opLength op = .fixed n) {script a data : Bytes}
    (hparse : parseScript script = .ok [⟨opReturn, a⟩, ⟨op, data⟩]) :
    data.length = n ∧ script = opReturn :: op :: data := by
  obtain ⟨b, r, hb, hr, rfl⟩ := unparseScript_cons.mp (unparseScript_of_parseScript hparse)
  obtain ⟨b', r', hb', hr', rfl⟩ := unparseScript_cons.mp hr
  cases hr'
  obtain ⟨-, rfl⟩ := ParsedOpcode.bytes_opReturn.mp hb
  obtain ⟨hlen, rfl⟩ := (ParsedOpcode.bytes_fixed hop).mp hb'
  rw [append_nil]
  exact ⟨hlen, rfl⟩

theorem parseScript_return_push {op : UInt8} {data : Bytes} (hop : opLength op = .fixed data.length) :
    parseScript (opReturn :: op :: data) = .ok [⟨opReturn, []⟩, ⟨op, data⟩] := by
  apply parseScript_of_unparseScript
  refine unparseScript_cons.mpr ⟨_, _, ParsedOpcode.bytes_opReturn.mpr ⟨rfl, rfl⟩, ?_, rfl⟩
  refine unparseScript_cons.mpr ⟨_, [], (ParsedOpcode.bytes_fixed hop).mpr ⟨rfl, rfl⟩, rfl, ?_⟩
  rw [append_nil]

/-! ### Validation -/

section

variable {threadID : ThreadID} {script keyBytes keyID : Bytes} {op : UInt8} {isAddOp : Bool}
  {keySetType : KeySetType} {pubKey : PublicKey} {pops : List ParsedOpcode}

theorem opLength_adminPush {k : Nat} (hk : k = keyIDSize ∨ k = 0) :
    opLength (UInt8.ofNat (1 + pubKeyBytesLenCompressed + k)) = .fixed (1 + pubKeyBytesLenCompressed + k) := by
  rcases hk with rfl | rfl
  · decide
  · decide

theorem AdminScript.parseScript_eq (h : AdminScript threadID script op isAddOp keySetType keyBytes pubKey keyID)
    (hkeyID : keyID.length = keyIDSize ∨ keyID.length = 0) : parseScript script = .ok [⟨opReturn, []⟩,
      ⟨UInt8.ofNat (1 + pubKeyBytesLenCompressed + keyID.length), op :: (keyBytes ++ keyID)⟩] := by
  have hlen : (op :: (keyBytes ++ keyID)).length = 1 + pubKeyBytesLenCompressed + keyID.length := by
    rw [length_cons, length_append, h.length_keyBytes]
    omega
  rw [h.script_eq]
  apply parseScript_return_push
  rw [hlen]
  exact opLength_adminPush hkeyID

theorem adminPush_pair {first second : UInt8} {a : Bytes} (hkey : keyBytes.length = pubKeyBytesLenCompressed) :
    adminPush [⟨first, a⟩, ⟨second, op :: (keyBytes ++ keyID)⟩] = .ok (op :: (keyBytes ++ keyID)) := by
  have hlen : ¬ (op :: (keyBytes ++ keyID)).length < 1 + pubKeyBytesLenCompressed := by
    rw [length_cons, length_append, hkey]
    omega
  simp only [adminPush, if_neg hlen]

theorem adminPubKey_cons (hkey : keyBytes.length = pubKeyBytesLenCompressed) :
    adminPubKey (op :: (keyBytes ++ keyID)) = parsePubKey keyBytes := by
  unfold adminPubKey
  rw [drop_one, tail_cons, take_left' hkey]

theorem isValidAdminOp_pair {second : UInt8} {a : Bytes}
    (hsecond : second = opData34 ∨ second = opData38) (hkey : keyBytes.length = pubKeyBytesLenCompressed) :
    isValidAdminOp [⟨opReturn, a⟩, ⟨second, op :: (keyBytes ++ keyID)⟩] threadID = true ↔
      (∃ pubKey, parsePubKey keyBytes = .ok pubKey) ∧
        adminOpAllowed threadID op (1 + pubKeyBytesLenCompressed + keyID.length) = true := by
  have hpush : (second == opData34 || second == opData38) = true := by
    rcases hsecond with rfl | rfl
    · rfl
    · rfl
  have hlen : (op :: (keyBytes ++ keyID)).length = 1 + pubKeyBytesLenCompressed + keyID.length := by
    rw [length_cons, length_append, hkey]
    omega
  unfold isValidAdminOp extractAdminData
  dsimp only
  rw [hpush, adminPush_pair hkey, ok_bind, adminPubKey_cons hkey, hlen, beq_self_eq_true, Bool.true_and, Bool.true_and]
  cases parsePubKey keyBytes with
  | error e => exact iff_of_false (fun h => by cases h) fun ⟨⟨_, h⟩, _⟩ => by cases h
  | ok pubKey => exact ⟨fun h => ⟨⟨pubKey, rfl⟩, h⟩, fun h => h.2⟩

theorem pair_of_isValidAdminOp (h : isValidAdminOp pops threadID = true) :
    ∃ a second data, (second = opData34 ∨ second = opData38) ∧ pops = [⟨opReturn, a⟩, ⟨second, data⟩] := by
  unfold isValidAdminOp at h
  split at h
  · rename_i first second
    simp only [Bool.and_eq_true, Bool.or_eq_true, beq_iff_eq] at h
    refine ⟨first.data, second.opcode, second.data, h.1.2, ?_⟩
    rw [← h.1.1]
  · cases h

theorem isValidAdminOp_iff (hparse : parseScript script = .ok pops) :
    isValidAdminOp pops threadID = true ↔ ∃ op isAddOp keySetType keyBytes pubKey keyID,
      AdminScript threadID script op isAddOp keySetType keyBytes pubKey keyID ∧
        (keyID.length = keyIDSize ∨ keySetType ≠ .asp ∧ keyID.length = 0) := by
  constructor
  · intro h
    obtain ⟨a, second, data, hsecond, rfl⟩ := pair_of_isValidAdminOp h
    obtain ⟨k, hk, rfl⟩ : ∃ k, (k = keyIDSize ∨ k = 0) ∧
        second = UInt8.ofNat (1 + pubKeyBytesLenCompressed + k) := by
      rcases hsecond with rfl | rfl
      · exact ⟨0, .inr rfl, rfl⟩
      · exact ⟨keyIDSize, .inl rfl, rfl⟩
    obtain ⟨hlen, rfl⟩ := script_of_return_push (opLength_adminPush hk) hparse
    obtain ⟨op, rest, rfl⟩ := exists_cons_of_ne_nil
      (ne_nil_of_length_pos (by omega : 0 < data.length))
    have hkey : (rest.take pubKeyBytesLenCompressed).length = pubKeyBytesLenCompressed := by
      rw [length_take, length_cons] at *
      omega
    have hkeyID : (rest.drop pubKeyBytesLenCompressed).length = k := by
      rw [length_drop, length_cons] at *
      omega
    rw [← take_append_drop pubKeyBytesLenCompressed rest, isValidAdminOp_pair hsecond hkey] at h
    obtain ⟨⟨pubKey, hpubKey⟩, hallowed⟩ := h
    obtain ⟨isAddOp, keySetType, hmem, hasp⟩ := adminOpAllowed_iff.mp hallowed
    refine ⟨op, isAddOp, keySetType, _, pubKey, rest.drop pubKeyBytesLenCompressed, ⟨hmem, hkey, hpubKey, ?_⟩, ?_⟩
    · rw [hkeyID, take_append_drop]
    · rcases hk with rfl | rfl
      · exact .inl hkeyID
      · refine .inr ⟨fun hset => ?_, hkeyID⟩
        have := hasp hset
        rw [hkeyID] at this
        cases this
  · rintro ⟨op, isAddOp, keySetType, keyBytes, pubKey, keyID, h, hkeyID⟩
    have hsize : keyID.length = keyIDSize ∨ keyID.length = 0 := hkeyID.imp_right And.right
    rw [h.parseScript_eq hsize] at hparse
    cases hparse
    have hsecond : UInt8.ofNat (1 + pubKeyBytesLenCompressed + keyID.length) = opData34 ∨
        UInt8.ofNat (1 + pubKeyBytesLenCompressed + keyID.length) = opData38 := by
      rcases hsize with hsize | hsize
      · exact .inr (by rw [hsize]; rfl)
      · exact .inl (by rw [hsize]; rfl)
    refine (isValidAdminOp_pair hsecond h.length_keyBytes).mpr ⟨⟨pubKey, h.parses⟩, ?_⟩
    refine adminOpAllowed_iff.mpr ⟨isAddOp, keySetType, h.operation, fun hasp => ?_⟩
    rcases hkeyID with hkeyID | ⟨hne, -⟩
    · rw [hkeyID]
    · exact absurd hasp hne

/-! ### Extraction -/

theorem AdminScript.extractAdminOpData_eq (h : AdminScript threadID script op isAddOp keySetType keyBytes pubKey keyID)
    (hkeyID : keyID.length = keyIDSize ∨ keyID.length = 0) (hparse : parseScript script = .ok pops) :
    extractAdminOpData pops = .ok ⟨isAddOp, keySetType, pubKey,
      if keyID = [] then 0 else keyIDFromAddressBuffer keyID⟩ := by
  rw [h.parseScript_eq hkeyID] at hparse
  cases hparse
  have hlen : (op :: (keyBytes ++ keyID)).length = 1 + pubKeyBytesLenCompressed + keyID.length := by
    rw [length_cons, length_append, h.length_keyBytes]
    omega
  have hkind := adminOpKind_of_mem h.operation
  unfold extractAdminOpData
  rw [adminPush_pair h.length_keyBytes, ok_bind, adminPubKey_cons h.length_keyBytes, h.parses]
  dsimp only [headD_cons]
  rw [hkind, hlen]
  rcases hkeyID with hkeyID | hkeyID
  · have hne : keyID ≠ [] := ne_nil_of_length_pos (by rw [hkeyID]; decide)
    have hdrop : (op :: (keyBytes ++ keyID)).drop (1 + pubKeyBytesLenCompressed + keyID.length - keyIDSize) =
        keyID := by
      rw [← cons_append, hkeyID, Nat.add_sub_cancel, drop_left']
      rw [length_cons, h.length_keyBytes]
      omega
    rw [if_pos (by rw [hkeyID]; decide), hdrop, if_neg hne]
    rfl
  · obtain rfl := length_eq_zero_iff.mp hkeyID
    rw [if_neg (by simp), if_pos rfl]
    rfl

theorem not_isAdminOp_of_hasNeedlessKeyID (h : HasNeedlessKeyID threadID script) : ¬ IsAdminOp threadID script := by
  obtain ⟨op, isAddOp, keySetType, keyBytes, pubKey, keyID, h, hset, hkeyID⟩ := h
  rintro ⟨op', isAddOp', keySetType', keyBytes', pubKey', keyID', h', hkeyID'⟩
  have hscript := h.script_eq.symm.trans h'.script_eq
  obtain ⟨hpush, rfl, -⟩ : _ ∧ op = op' ∧ _ := by
    simpa only [List.cons.injEq, true_and] using hscript
  have hsame : keySetType = keySetType' :=
    congrArg Prod.snd ((adminOpKind_of_mem h.operation).symm.trans (adminOpKind_of_mem h'.operation))
  rw [if_neg (hsame ▸ hset)] at hkeyID'
  rw [hkeyID, hkeyID'] at hpush
  exact absurd hpush (by decide)

/-- `IsValidAdminOp` accepts exactly the admin outputs as they are meant, unless a keyID follows an
operation that is not about ASP keys; and on everything it accepts `ExtractAdminOpData` returns what the
push says. -/
theorem isValidAdminOp_exact_iff (hparse : parseScript script = .ok pops) :
    ((isValidAdminOp pops threadID = true ↔ IsAdminOp threadID script) ↔ ¬ HasNeedlessKeyID threadID script) ∧
    (isValidAdminOp pops threadID = true → ∃ op isAddOp keySetType keyBytes pubKey keyID,
      AdminScript threadID script op isAddOp keySetType keyBytes pubKey keyID ∧
        extractAdminOpData pops = .ok ⟨isAddOp, keySetType, pubKey,
          if keyID = [] then 0 else keyIDFromAddressBuffer keyID⟩) := by
  rw [isValidAdminOp_iff hparse]
  refine ⟨⟨fun hexact hneedless => ?_, fun hneedless => ⟨?_, ?_⟩⟩, ?_⟩
  · have hnot := not_isAdminOp_of_hasNeedlessKeyID hneedless
    obtain ⟨op, isAddOp, keySetType, keyBytes, pubKey, keyID, h, -, hkeyID⟩ := hneedless
    exact hnot (hexact.mp ⟨op, isAddOp, keySetType, keyBytes, pubKey, keyID, h, .inl hkeyID⟩)
  · rintro ⟨op, isAddOp, keySetType, keyBytes, pubKey, keyID, h, hkeyID⟩
    refine ⟨op, isAddOp, keySetType, keyBytes, pubKey, keyID, h, ?_⟩
    split_ifs with hasp
    · exact hkeyID.resolve_right fun hnone => hnone.1 hasp
    · refine (hkeyID.resolve_left fun hsize => ?_).2
      exact hneedless ⟨op, isAddOp, keySetType, keyBytes, pubKey, keyID, h, hasp, hsize⟩
  · rintro ⟨op, isAddOp, keySetType, keyBytes, pubKey, keyID, h, hkeyID⟩
    refine ⟨op, isAddOp, keySetType, keyBytes, pubKey, keyID, h, ?_⟩
    split_ifs at hkeyID with hasp
    · exact .inl hkeyID
    · exact .inr ⟨hasp, hkeyID⟩
  · rintro ⟨op, isAddOp, keySetType, keyBytes, pubKey, keyID, h, hkeyID⟩
    exact ⟨op, isAddOp, keySetType, keyBytes, pubKey, keyID, h,
      h.extractAdminOpData_eq (hkeyID.imp_right And.right) hparse⟩

end

namespace AdminSample

def keyBytes : Bytes :=
  0x02 :: beBytes 32 0x79BE667EF9DCBBAC55A06295CE870B07029BFCDB2DCE28D959F2815B16F81798

def data (op : UInt8) : Bytes := op :: (keyBytes ++ [7, 0, 0, 0])

theorem parseScript_data (op : UInt8) :
    parseScript (opReturn :: opData38 :: data op) = .ok [⟨opReturn, []⟩, ⟨opData38, data op⟩] :=
  parseScript_return_push rfl

end AdminSample

open AdminSample in
theorem isValidAdminOp_exact_iff_aspAdd : ∃ op isAddOp keySetType keyBytes pubKey keyID,
    AdminScript .provision (opReturn :: opData38 :: data adminOpASPKeyAdd) op isAddOp keySetType keyBytes pubKey keyID ∧
    extractAdminOpData [⟨opReturn, []⟩, ⟨opData38, data adminOpASPKeyAdd⟩] = .ok ⟨isAddOp, keySetType, pubKey,
      if keyID = [] then 0 else keyIDFromAddressBuffer keyID⟩ :=
  (isValidAdminOp_exact_iff (parseScript_data adminOpASPKeyAdd)).2 (by decide +kernel)

open AdminSample in
/-- A validate key with a keyID is added. -/
theorem isValidAdminOp_validateAdd_with_keyID : parseScript (opReturn :: opData38 :: data adminOpValidateKeyAdd) =
      .ok [⟨opReturn, []⟩, ⟨opData38, data adminOpValidateKeyAdd⟩] ∧
    isValidAdminOp [⟨opReturn, []⟩, ⟨opData38, data adminOpValidateKeyAdd⟩] .provision = true ∧
    ¬ IsAdminOp .provision (opReturn :: opData38 :: data adminOpValidateKeyAdd) := by
  refine ⟨parseScript_data _, by decide +kernel, not_isAdminOp_of_hasNeedlessKeyID ?_⟩
  obtain ⟨pubKey, hkey⟩ := exists_ok_of_isOk (by decide +kernel : (parsePubKey keyBytes).isOk = true)
  exact ⟨_, true, .validate, keyBytes, pubKey, [7, 0, 0, 0], ⟨by decide, by decide, hkey, rfl⟩, by decide, rfl⟩

end Prova
