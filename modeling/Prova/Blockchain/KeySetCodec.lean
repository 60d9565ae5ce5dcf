import Prova.Lib.WriteBuffer
import Mathlib.Data.List.Sort
import Prova.Blockchain.KeyViewpoint

/-!
# The serialized admin state (`serializeKeySet` and `deserializeKeySet` of `blockchain/chainio.go`)

The record has the thread tips, the last keyID and the supply, then each admin key set with its length,
and then the ASP keys by keyID with their number. The map of the ASP keys is given by its entries in the
order in which a loop would visit them; they are sorted before they are written.

The length of the record is added up in 32 bits. A state whose record is longer gets a buffer that is too
short, and writing it ends with a panic.
-/

namespace Prova

open UInt32 List PublicKey

variable {serializedData : Bytes}

variable {adminKeySets : KeySetType → PublicKeySet}

/-- The ASP keys as a map with entries. -/
abbrev KeyIdEntries := AList fun _ : KeyID => PublicKey

def adminKeysOrder : List KeySetType := [.root, .provision, .issue, .validate]

def threadOrder : List ThreadID := [.root, .provision, .issue]

/-! ### Writing -/

def threadTipFields (threadTips : ThreadID → Option OutPoint) : List Field :=
  threadOrder.flatMap fun threadID =>
    match threadTips threadID with
    | none => [.skip 32, .skip 4]
    | some tip => [.copy tip.hash.bytes, .put (leBytes 4 tip.index.toNat)]

def keySetFields (adminKeySets : KeySetType → PublicKeySet) : List Field :=
  adminKeysOrder.flatMap fun keySet =>
    .put (leBytes 4 (adminKeySets keySet).length) ::
      (adminKeySets keySet).map fun key => .copy key.serializeCompressed

def sortedKeyIDs (aspKeyIdMap : KeyIdEntries) : List KeyID :=
  aspKeyIdMap.keys.insertionSort (· ≤ ·)

def keyIDFields (aspKeyIdMap : KeyIdEntries) : List Field :=
  .put (leBytes 4 aspKeyIdMap.keys.length) ::
    (sortedKeyIDs aspKeyIdMap).flatMap fun keyID =>
      match aspKeyIdMap.lookup keyID with
      | none => []
      | some pubKey => [.put (leBytes 4 keyID.toNat), .copy pubKey.serializeCompressed]

def serializedFields (adminKeySets : KeySetType → PublicKeySet) (aspKeyIdMap : KeyIdEntries)
    (threadTips : ThreadID → Option OutPoint) (lastKeyID : KeyID) (totalSupply : UInt64) : List Field :=
  threadTipFields threadTips ++ [.put (leBytes 4 lastKeyID.toNat), .put (leBytes 8 totalSupply.toNat)] ++
    keySetFields adminKeySets ++ keyIDFields aspKeyIdMap

def serializedLen (adminKeySets : KeySetType → PublicKeySet) (aspKeyIdMap : KeyIdEntries) : UInt32 :=
  adminKeysOrder.foldl (fun len keySet =>
      len + 4 + UInt32.ofNat ((adminKeySets keySet).length * pubKeyBytesLenCompressed))
    (UInt32.ofNat (3 * (32 + 4) + keyIDSize + 8)) +
  (4 + UInt32.ofNat (aspKeyIdMap.keys.length * (4 + pubKeyBytesLenCompressed)))

def serializeKeySet (adminKeySets : KeySetType → PublicKeySet) (aspKeyIdMap : KeyIdEntries)
    (threadTips : ThreadID → Option OutPoint) (lastKeyID : KeyID) (totalSupply : UInt64) :
    Except ChainError Bytes :=
  let serializedData := List.replicate (serializedLen adminKeySets aspKeyIdMap).toNat 0
  match Field.writeAll (serializedFields adminKeySets aspKeyIdMap threadTips lastKeyID totalSupply)
    serializedData 0 with
  | none => .error .panic
  | some serializedData => .ok serializedData

/-! ### Reading -/

def readThreadTips : List ThreadID → Bytes → (ThreadID → Option OutPoint) →
    (ThreadID → Option OutPoint) × Bytes
  | [], serializedData, threadTips => (threadTips, serializedData)
  | threadID :: threadIDs, serializedData, threadTips =>
    readThreadTips threadIDs (serializedData.drop 36)
      (Function.update threadTips threadID (some ⟨Hash.ofBytes (serializedData.take 32),
        UInt32.ofNat (leNat ((serializedData.drop 32).take 4))⟩))

/-- The keys of a set. The error of a key that cannot be parsed is dropped, and using the key panics, as
does reading beyond the end. -/
def readKeys : Nat → Bytes → Except ChainError (PublicKeySet × Bytes)
  | 0, serializedData => .ok ([], serializedData)
  | n + 1, serializedData => do
    reject (serializedData.length < pubKeyBytesLenCompressed) .panic
    match parsePubKey (serializedData.take pubKeyBytesLenCompressed) with
    | .error _ => .error .panic
    | .ok key =>
      let (keys, rest) ← readKeys n (serializedData.drop pubKeyBytesLenCompressed)
      return (key :: keys, rest)

/-- The number of a section, where the rest is long enough for that many items, compared in 32 bits. -/
def readCount (itemLen : UInt32) (serializedData : Bytes) : Except ChainError (Nat × Bytes) := do
  reject (serializedData.length < 4) .corruption
  let count := UInt32.ofNat (leNat (serializedData.take 4))
  reject (UInt32.ofNat (serializedData.drop 4).length < count * itemLen) .corruption
  return (count.toNat, serializedData.drop 4)

/-- The loop over the admin key sets. -/
def readKeySets : List KeySetType → Bytes → (KeySetType → PublicKeySet) →
    Except ChainError ((KeySetType → PublicKeySet) × Bytes)
  | [], serializedData, adminKeys => .ok (adminKeys, serializedData)
  | keySet :: keySets, serializedData, adminKeys => do
    let (keySetLength, serializedData) ← readCount 33 serializedData
    let (keys, serializedData) ← readKeys keySetLength serializedData
    readKeySets keySets serializedData (Function.update adminKeys keySet keys)

/-- The loop over the keyIDs. A key that cannot be parsed is nil, as if it were missing. -/
def readKeyIDs : Nat → Bytes → KeyIdMap → Except ChainError KeyIdMap
  | 0, _, aspKeyIdMap => .ok aspKeyIdMap
  | n + 1, serializedData, aspKeyIdMap => do
    reject (serializedData.length < 4 + pubKeyBytesLenCompressed) .panic
    let keyID := UInt32.ofNat (leNat (serializedData.take 4))
    let pubKey := (parsePubKey ((serializedData.drop 4).take pubKeyBytesLenCompressed)).toOption
    readKeyIDs n (serializedData.drop (4 + pubKeyBytesLenCompressed))
      (Function.update aspKeyIdMap keyID pubKey)

def deserializeKeySet (serializedData : Bytes) : Except ChainError KeyViewpoint := do
  reject (serializedData.length < 3 * (32 + 4) + keyIDSize + 8) .corruption
  let (threadTips, serializedData) := readThreadTips threadOrder serializedData fun _ => none
  let lastKeyID := UInt32.ofNat (leNat (serializedData.take keyIDSize))
  let totalSupply := UInt64.ofNat (leNat ((serializedData.drop keyIDSize).take 8))
  let (adminKeySets, serializedData) ← readKeySets adminKeysOrder (serializedData.drop (keyIDSize + 8))
    fun _ => []
  let (keyIdMapLen, serializedData) ← readCount 37 serializedData
  let aspKeyIdMap ← readKeyIDs keyIdMapLen serializedData fun _ => none
  return { threadTips, lastKeyID, totalSupply, adminKeySets, aspKeyIdMap }

/-! ### The length of the record -/

/-- The length of the record without the limit of 32 bits. -/
def recordLen (adminKeySets : KeySetType → PublicKeySet) (aspKeyIdMap : KeyIdEntries) : Nat :=
  3 * (32 + 4) + keyIDSize + 8 +
    (adminKeysOrder.map fun keySet => 4 + (adminKeySets keySet).length * pubKeyBytesLenCompressed).sum +
    (4 + aspKeyIdMap.keys.length * (4 + pubKeyBytesLenCompressed))

theorem toNat_serializedLen (adminKeySets : KeySetType → PublicKeySet) (aspKeyIdMap : KeyIdEntries) :
    (serializedLen adminKeySets aspKeyIdMap).toNat = recordLen adminKeySets aspKeyIdMap % 2 ^ 32 := by
  unfold serializedLen recordLen adminKeysOrder
  simp only [foldl_cons, foldl_nil, map_cons, map_nil, sum_cons, sum_nil,
    UInt32.toNat_add, toNat_ofNat', UInt32.reduceToNat, keyIDSize]
  omega

theorem bytes_threadTipFields {threadTips : ThreadID → Option OutPoint} {root provision issue : OutPoint}
    (hroot : threadTips .root = some root) (hprovision : threadTips .provision = some provision)
    (hissue : threadTips .issue = some issue) : (threadTipFields threadTips).flatMap Field.bytes =
      root.hash.bytes ++ leBytes 4 root.index.toNat ++ (provision.hash.bytes ++ leBytes 4 provision.index.toNat ++
          (issue.hash.bytes ++ leBytes 4 issue.index.toNat)) := by
  simp [threadTipFields, threadOrder, hroot, hprovision, hissue, Field.bytes]

theorem length_threadTipFields (threadTips : ThreadID → Option OutPoint) :
    ((threadTipFields threadTips).flatMap Field.bytes).length = 3 * (32 + 4) := by
  have hone : ∀ tip : Option OutPoint, ((match tip with
      | none => [Field.skip 32, .skip 4]
      | some tip => [.copy tip.hash.bytes, .put (leBytes 4 tip.index.toNat)]).flatMap
        Field.bytes).length = 36 := by
    intro tip
    cases tip <;> simp [Field.bytes]
  unfold threadTipFields threadOrder
  simp only [flatMap_cons, flatMap_nil, append_nil, flatMap_append, length_append, hone]

/-- A key set after its length. -/
def keySetBytes (keys : PublicKeySet) : Bytes := leBytes 4 keys.length ++ keys.flatMap serializeCompressed

theorem bytes_keySetFields (adminKeySets : KeySetType → PublicKeySet) :
    (keySetFields adminKeySets).flatMap Field.bytes = adminKeysOrder.flatMap (keySetBytes <| adminKeySets ·) := by
  unfold keySetFields
  rw [flatMap_assoc]
  refine flatMap_congr fun keySet _ => ?_
  rw [flatMap_cons, flatMap_map]
  rfl

theorem length_flatMap_serializeCompressed (keys : List PublicKey) :
    (keys.flatMap serializeCompressed).length = keys.length * pubKeyBytesLenCompressed := by
  induction keys with
  | nil => rfl
  | cons key keys ih =>
    rw [flatMap_cons, length_append, ih, length_cons, Nat.add_mul, Nat.one_mul,
      key.length_serializeCompressed, Nat.add_comm]
    rfl

def keyIDBytes (aspKeyIdMap : KeyIdEntries) (keyID : KeyID) : Bytes :=
  match aspKeyIdMap.lookup keyID with
  | none => []
  | some pubKey => leBytes 4 keyID.toNat ++ pubKey.serializeCompressed

theorem bytes_keyIDFields (aspKeyIdMap : KeyIdEntries) :
    (keyIDFields aspKeyIdMap).flatMap Field.bytes = leBytes 4 aspKeyIdMap.keys.length ++
      (sortedKeyIDs aspKeyIdMap).flatMap (keyIDBytes aspKeyIdMap) := by
  unfold keyIDFields
  rw [flatMap_cons, flatMap_assoc]
  congr 1
  refine flatMap_congr fun keyID _ => ?_
  unfold keyIDBytes
  cases aspKeyIdMap.lookup keyID <;> simp [Field.bytes]

theorem mem_sortedKeyIDs {aspKeyIdMap : KeyIdEntries} {keyID : KeyID} :
    keyID ∈ sortedKeyIDs aspKeyIdMap ↔ keyID ∈ aspKeyIdMap := by
  unfold sortedKeyIDs
  rw [mem_insertionSort]
  rfl

theorem length_sortedKeyIDs (aspKeyIdMap : KeyIdEntries) :
    (sortedKeyIDs aspKeyIdMap).length = aspKeyIdMap.keys.length :=
  length_insertionSort _ _

theorem exists_of_mem_sortedKeyIDs {aspKeyIdMap : KeyIdEntries} {keyID : KeyID}
    (h : keyID ∈ sortedKeyIDs aspKeyIdMap) : ∃ pubKey, aspKeyIdMap.lookup keyID = some pubKey :=
  Option.isSome_iff_exists.mp (AList.lookup_isSome.mpr (mem_sortedKeyIDs.mp h))

theorem length_keyIDBytes {aspKeyIdMap : KeyIdEntries} {ids : List KeyID}
    (h : ∀ id ∈ ids, ∃ pubKey, aspKeyIdMap.lookup id = some pubKey) :
    (ids.flatMap (keyIDBytes aspKeyIdMap)).length = ids.length * (4 + pubKeyBytesLenCompressed) := by
  induction ids with
  | nil => rfl
  | cons id ids ih =>
    rw [forall_mem_cons] at h
    obtain ⟨⟨pubKey, hlookup⟩, hrest⟩ := h
    have hone : (keyIDBytes aspKeyIdMap id).length = 4 + pubKeyBytesLenCompressed := by
      simp [keyIDBytes, hlookup, pubKeyBytesLenCompressed]
    rw [flatMap_cons, length_append, ih hrest, hone, length_cons, Nat.add_mul, Nat.one_mul, Nat.add_comm]

section

variable (adminKeySets : KeySetType → PublicKeySet) (aspKeyIdMap : KeyIdEntries)
  (threadTips : ThreadID → Option OutPoint) (lastKeyID : KeyID) (totalSupply : UInt64)

theorem length_serializedFields : ((serializedFields adminKeySets aspKeyIdMap threadTips lastKeyID totalSupply).flatMap
      Field.bytes).length = recordLen adminKeySets aspKeyIdMap := by
  unfold serializedFields recordLen
  simp only [flatMap_append, length_append, length_threadTipFields, bytes_keySetFields,
    bytes_keyIDFields, length_keyIDBytes fun id hid => exists_of_mem_sortedKeyIDs hid,
    length_sortedKeyIDs, length_leBytes]
  congr 1
  congr 1
  rw [length_flatMap]
  refine congrArg List.sum (map_congr_left fun keySet _ => ?_)
  rw [keySetBytes, length_append, length_leBytes, length_flatMap_serializeCompressed]

variable {adminKeySets aspKeyIdMap} in
theorem serializeKeySet_eq_ok (h : recordLen adminKeySets aspKeyIdMap < 2 ^ 32) :
    serializeKeySet adminKeySets aspKeyIdMap threadTips lastKeyID totalSupply =
      .ok ((serializedFields adminKeySets aspKeyIdMap threadTips lastKeyID totalSupply).flatMap Field.bytes) := by
  have hwrite := Field.writeAll_zeros
    (serializedFields adminKeySets aspKeyIdMap threadTips lastKeyID totalSupply) []
  rw [length_serializedFields, nil_append, length_nil, nil_append] at hwrite
  unfold serializeKeySet
  rw [toNat_serializedLen, Nat.mod_eq_of_lt h]
  simp only [hwrite]

theorem serializedFields_eq_concat :
    ∃ fields last, serializedFields adminKeySets aspKeyIdMap threadTips lastKeyID totalSupply =
      fields ++ [last] ∧ (∀ n, last ≠ .skip n) ∧ last.width ≤ 33 := by
  have hne : keyIDFields aspKeyIdMap ≠ [] := cons_ne_nil _ _
  have hall : ∀ field ∈ keyIDFields aspKeyIdMap, (∀ n, field ≠ .skip n) ∧ field.width ≤ 33 := by
    intro field hfield
    rcases mem_cons.mp hfield with rfl | hmem
    · simp [Field.width, Field.bytes]
    · obtain ⟨id, -, hid⟩ := mem_flatMap.mp hmem
      cases hlookup : aspKeyIdMap.lookup id with
      | none => simp [hlookup] at hid
      | some pubKey =>
        simp only [hlookup, mem_cons, not_mem_nil, or_false] at hid
        rcases hid with rfl | rfl
        · simp [Field.width, Field.bytes]
        · simp [Field.width, Field.bytes]
  refine ⟨threadTipFields threadTips ++ [.put (leBytes 4 lastKeyID.toNat),
    .put (leBytes 8 totalSupply.toNat)] ++ keySetFields adminKeySets ++ (keyIDFields aspKeyIdMap).dropLast,
    (keyIDFields aspKeyIdMap).getLast hne, ?_, hall _ (getLast_mem hne)⟩
  rw [append_assoc _ _ [_], dropLast_concat_getLast]
  rfl

variable {adminKeySets aspKeyIdMap} in
theorem serializeKeySet_eq_panic (h : 2 ^ 32 ≤ recordLen adminKeySets aspKeyIdMap) :
    serializeKeySet adminKeySets aspKeyIdMap threadTips lastKeyID totalSupply = .error .panic := by
  obtain ⟨fields, last, hfields, hlast, hwidth⟩ :=
    serializedFields_eq_concat adminKeySets aspKeyIdMap threadTips lastKeyID totalSupply
  have hlen := length_serializedFields adminKeySets aspKeyIdMap threadTips lastKeyID totalSupply
  rw [hfields, flatMap_append, flatMap_singleton, length_append] at hlen
  have hshort : (List.replicate (serializedLen adminKeySets aspKeyIdMap).toNat (0 : UInt8)).length <
      0 + (fields.flatMap Field.bytes).length := by
    rw [length_replicate, toNat_serializedLen]
    unfold Field.width at hwidth
    omega
  unfold serializeKeySet
  simp only [hfields, Field.writeAll_concat_eq_none hlast hshort]

end

/-! ### Reading what was written -/

theorem leNat_leBytes_four (n : UInt32) (rest : Bytes) :
    UInt32.ofNat (leNat ((leBytes 4 n.toNat ++ rest).take 4)) = n := by
  have hlt : n.toNat < 256 ^ 4 := lt_of_lt_of_eq n.toNat_lt (by norm_num)
  rw [take_left' (length_leBytes 4 _), leNat_leBytes, Nat.mod_eq_of_lt hlt, UInt32.ofNat_toNat]

theorem readThreadTips_append {threadTips : ThreadID → Option OutPoint} {root provision issue : OutPoint}
    (hroot : threadTips .root = some root) (hprovision : threadTips .provision = some provision)
    (hissue : threadTips .issue = some issue) (rest : Bytes) :
    readThreadTips threadOrder ((threadTipFields threadTips).flatMap Field.bytes ++ rest) (fun _ => none) =
      (threadTips, rest) := by
  have hone : ∀ (tip : OutPoint) (rest : Bytes),
      (OutPoint.mk (Hash.ofBytes ((tip.hash.bytes ++ (leBytes 4 tip.index.toNat ++ rest)).take 32))
        (UInt32.ofNat (leNat (((tip.hash.bytes ++ (leBytes 4 tip.index.toNat ++ rest)).drop 32).take 4))) =
          tip) ∧ (tip.hash.bytes ++ (leBytes 4 tip.index.toNat ++ rest)).drop 36 = rest := by
    intro tip rest
    have hhash := tip.hash.length_bytes
    rw [take_left' hhash, Hash.ofBytes_bytes, drop_left' hhash, leNat_leBytes_four]
    refine ⟨rfl, ?_⟩
    rw [← append_assoc, drop_left' (by rw [length_append, hhash, length_leBytes])]
  rw [bytes_threadTipFields hroot hprovision hissue]
  simp only [append_assoc, threadOrder, readThreadTips, hone]
  refine Prod.ext (funext fun threadID => ?_) rfl
  cases threadID with
  | root => simp [Function.update, hroot]
  | provision => simp [Function.update, hprovision]
  | issue => simp [Function.update, hissue]

theorem readKeys_append (keys : PublicKeySet) (rest : Bytes) :
    readKeys keys.length (keys.flatMap serializeCompressed ++ rest) = .ok (keys, rest) := by
  induction keys with
  | nil => rfl
  | cons key keys ih =>
    have hlen : key.serializeCompressed.length = pubKeyBytesLenCompressed := key.length_serializeCompressed
    rw [length_cons, readKeys, flatMap_cons, append_assoc, reject, if_neg (by rw [length_append, hlen]; omega),
      ok_bind, take_left' hlen, drop_left' hlen, parsePubKey_serializeCompressed, ih]
    rfl

theorem readCount_append (count : Nat) (itemLen : UInt32) {rest : Bytes} (hlen : rest.length < 2 ^ 32)
    (h : count * itemLen.toNat ≤ rest.length) (hitem : 0 < itemLen.toNat) :
    readCount itemLen (leBytes 4 count ++ rest) = .ok (count, rest) := by
  have hcount : count < 2 ^ 32 :=
    (Nat.le_mul_of_pos_right count hitem).trans_lt (h.trans_lt hlen)
  have hnat : leNat ((leBytes 4 count ++ rest).take 4) = count := by
    rw [take_left' (length_leBytes 4 _), leNat_leBytes, Nat.mod_eq_of_lt (lt_of_lt_of_eq hcount (by norm_num))]
  have hsize : UInt32.size = 2 ^ 32 := rfl
  have henough : ¬ UInt32.ofNat rest.length < UInt32.ofNat count * itemLen := by
    rw [lt_iff_toNat_lt, UInt32.toNat_mul, toNat_ofNat_of_lt' (by omega),
      toNat_ofNat_of_lt' (by omega), Nat.mod_eq_of_lt (by omega)]
    omega
  unfold readCount reject
  rw [if_neg (by rw [length_append, length_leBytes]; omega), ok_bind, hnat, drop_left' (length_leBytes 4 _)]
  simp only
  rw [if_neg henough, ok_bind, toNat_ofNat_of_lt' (by omega)]
  rfl

theorem readKeySets_append (rest : Bytes) (keySets : List KeySetType) (read : KeySetType → PublicKeySet)
    (hlen : (keySets.flatMap (keySetBytes <| adminKeySets ·) ++ rest).length < 2 ^ 32) :
    readKeySets keySets (keySets.flatMap (keySetBytes <| adminKeySets ·) ++ rest) read =
      .ok (fun keySet => if keySet ∈ keySets then adminKeySets keySet else read keySet, rest) := by
  induction keySets generalizing read with
  | nil => simp [readKeySets]
  | cons keySet keySets ih =>
    rw [flatMap_cons, keySetBytes, append_assoc, append_assoc] at hlen ⊢
    have hkeys := length_flatMap_serializeCompressed (adminKeySets keySet)
    have hcount := readCount_append (adminKeySets keySet).length 33
      ((Nat.lt_add_of_pos_left (by norm_num : 0 < 4)).trans
        (by rwa [length_append, length_leBytes] at hlen))
      (by rw [length_append, hkeys]; exact Nat.le_add_right _ _) (by decide)
    have hrest := ih (Function.update read keySet (adminKeySets keySet)) (by
      rw [length_append, length_append] at hlen
      omega)
    rw [readKeySets, hcount, ok_bind]
    simp only [readKeys_append, ok_bind]
    rw [hrest]
    refine congrArg Except.ok (Prod.ext (funext fun k => ?_) rfl)
    by_cases hk : k = keySet
    · simp [hk]
    · simp [hk]

theorem readKeyIDs_append {aspKeyIdMap : KeyIdEntries} {ids : List KeyID}
    (h : ∀ id ∈ ids, ∃ pubKey, aspKeyIdMap.lookup id = some pubKey) (read : KeyIdMap) :
    readKeyIDs ids.length (ids.flatMap (keyIDBytes aspKeyIdMap)) read =
      .ok fun id => if id ∈ ids then aspKeyIdMap.lookup id else read id := by
  induction ids generalizing read with
  | nil => simp [readKeyIDs]
  | cons id ids ih =>
    rw [forall_mem_cons] at h
    obtain ⟨⟨pubKey, hlookup⟩, hrest⟩ := h
    have hlen : pubKey.serializeCompressed.length = pubKeyBytesLenCompressed :=
      pubKey.length_serializeCompressed
    have hbytes : keyIDBytes aspKeyIdMap id = leBytes 4 id.toNat ++ pubKey.serializeCompressed := by
      simp [keyIDBytes, hlookup]
    have hdrop : (leBytes 4 id.toNat ++ (pubKey.serializeCompressed ++
        ids.flatMap (keyIDBytes aspKeyIdMap))).drop (4 + pubKeyBytesLenCompressed) =
          ids.flatMap (keyIDBytes aspKeyIdMap) := by
      rw [← append_assoc, drop_left' (by rw [length_append, length_leBytes, hlen])]
    rw [length_cons, readKeyIDs, flatMap_cons, hbytes, append_assoc, reject,
      if_neg (by rw [length_append, length_append, length_leBytes, hlen]; omega), ok_bind, hdrop,
      leNat_leBytes_four, drop_left' (length_leBytes 4 _), take_left' hlen, parsePubKey_serializeCompressed]
    rw [ih hrest]
    refine congrArg Except.ok (funext fun i => ?_)
    by_cases hi : i = id
    · subst hi
      by_cases hmem : i ∈ ids
      · simp [hmem]
      · simp [hmem, hlookup, Except.toOption]
    · simp [hi]

/-- An admin state with a tip on every thread and no set for the ASP keys, which are in the map. -/
structure KeyViewpoint.Complete (view : KeyViewpoint) : Prop where
  tips : ∀ t, (view.threadTips t).isSome
  noASPSet : view.adminKeySets .asp = []

theorem counters_append (lastKeyID : KeyID) (totalSupply : UInt64) (rest : Bytes) :
    let serializedData := leBytes 4 lastKeyID.toNat ++ (leBytes 8 totalSupply.toNat ++ rest)
    UInt32.ofNat (leNat (serializedData.take keyIDSize)) = lastKeyID ∧
      UInt64.ofNat (leNat ((serializedData.drop keyIDSize).take 8)) = totalSupply ∧
      serializedData.drop (keyIDSize + 8) = rest := by
  have hlen : (leBytes 4 lastKeyID.toNat).length = keyIDSize := length_leBytes 4 _
  have hlt : totalSupply.toNat < 256 ^ 8 := lt_of_lt_of_eq totalSupply.toNat_lt (by norm_num)
  refine ⟨leNat_leBytes_four _ _, ?_, ?_⟩
  · rw [drop_left' hlen, take_left' (length_leBytes 8 _), leNat_leBytes, Nat.mod_eq_of_lt hlt, UInt64.ofNat_toNat]
  · rw [← append_assoc, drop_left' (by rw [length_append, hlen, length_leBytes])]

theorem deserializeKeySet_serializedFields {view : KeyViewpoint} {aspKeyIdMap : KeyIdEntries}
    (hview : view.Complete) (hmap : ∀ id, aspKeyIdMap.lookup id = view.aspKeyIdMap id)
    (hlen : recordLen view.adminKeySets aspKeyIdMap < 2 ^ 32) :
    deserializeKeySet ((serializedFields view.adminKeySets aspKeyIdMap view.threadTips view.lastKeyID
      view.totalSupply).flatMap Field.bytes) = .ok view := by
  obtain ⟨root, hroot⟩ := Option.isSome_iff_exists.mp (hview.tips .root)
  obtain ⟨provision, hprovision⟩ := Option.isSome_iff_exists.mp (hview.tips .provision)
  obtain ⟨issue, hissue⟩ := Option.isSome_iff_exists.mp (hview.tips .issue)
  have htotal := length_serializedFields view.adminKeySets aspKeyIdMap view.threadTips view.lastKeyID
    view.totalSupply
  have hsorted : ∀ id ∈ sortedKeyIDs aspKeyIdMap, ∃ pubKey, aspKeyIdMap.lookup id = some pubKey :=
    fun id hid => exists_of_mem_sortedKeyIDs hid
  have hids := length_keyIDBytes hsorted
  unfold serializedFields at htotal ⊢
  simp only [flatMap_append, append_assoc, flatMap_cons, flatMap_nil, append_nil,
    Field.bytes, bytes_keySetFields, bytes_keyIDFields, length_append, length_leBytes, hids,
    length_threadTipFields] at htotal ⊢
  have hsetsLen : (adminKeysOrder.flatMap (keySetBytes <| view.adminKeySets ·) ++ (leBytes 4 aspKeyIdMap.keys.length ++
        (sortedKeyIDs aspKeyIdMap).flatMap (keyIDBytes aspKeyIdMap))).length < 2 ^ 32 := by
    simp only [length_append, length_leBytes, hids]
    omega
  have hsets := readKeySets_append _ adminKeysOrder (fun _ => []) hsetsLen
  have hidsLen : ((sortedKeyIDs aspKeyIdMap).flatMap (keyIDBytes aspKeyIdMap)).length < 2 ^ 32 := by omega
  have hcount := readCount_append aspKeyIdMap.keys.length 37 hidsLen
    (by rw [hids, length_sortedKeyIDs]; exact le_rfl) (by decide)
  have hread := readKeyIDs_append hsorted fun _ => none
  rw [length_sortedKeyIDs] at hread
  obtain ⟨hid, hsupply, hdrop⟩ := counters_append view.lastKeyID view.totalSupply
    (adminKeysOrder.flatMap (keySetBytes <| view.adminKeySets ·) ++
      (leBytes 4 aspKeyIdMap.keys.length ++ (sortedKeyIDs aspKeyIdMap).flatMap (keyIDBytes aspKeyIdMap)))
  unfold deserializeKeySet
  rw [reject, if_neg (by
      simp only [length_append, length_threadTipFields, length_leBytes, keyIDSize]
      omega), ok_bind, readThreadTips_append hroot hprovision hissue]
  simp only [hid, hsupply, hdrop, hsets, ok_bind, hcount, hread]
  refine congrArg Except.ok (KeyViewpoint.ext rfl rfl rfl (funext fun keySet => ?_) (funext fun id => ?_))
  · cases keySet with
    | asp => simpa [adminKeysOrder] using hview.noASPSet.symm
    | root => rfl
    | provision => rfl
    | issue => rfl
    | validate => rfl
  · by_cases hmem : id ∈ sortedKeyIDs aspKeyIdMap
    · simp [hmem, hmap]
    · have hnone : aspKeyIdMap.lookup id = none :=
        AList.lookup_eq_none.mpr (mt mem_sortedKeyIDs.mpr hmem)
      simp [hmem, ← hmap, hnone]

/-! ### Reading any bytes -/

/-- The number in front of a section, and the check that rejects it, which is made in 32 bits. -/
def sectionCount (serializedData : Bytes) : UInt32 := UInt32.ofNat (leNat (serializedData.take 4))

@[inherit_doc sectionCount]
def Rejected (itemLen : UInt32) (serializedData : Bytes) : Prop :=
  serializedData.length < 4 ∨
    UInt32.ofNat (serializedData.drop 4).length < sectionCount serializedData * itemLen

/-- There are as many items as counted, each with a valid key after some bytes. -/
def HoldsKeys (skip : Nat) : Nat → Bytes → Prop
  | 0, _ => True
  | n + 1, serializedData => skip + pubKeyBytesLenCompressed ≤ serializedData.length ∧
      (parsePubKey ((serializedData.drop skip).take pubKeyBytesLenCompressed)).isOk = true ∧
      HoldsKeys skip n (serializedData.drop (skip + pubKeyBytesLenCompressed))

/-- The sections of the admin keys and the section of the ASP keys hold what they count, up to one that is rejected. -/
def HoldsSections : List KeySetType → Bytes → Prop
  | [], serializedData => Rejected 37 serializedData ∨
      HoldsKeys 4 (sectionCount serializedData).toNat (serializedData.drop 4)
  | _ :: keySets, serializedData => Rejected 33 serializedData ∨
      HoldsKeys 0 (sectionCount serializedData).toNat (serializedData.drop 4) ∧
        HoldsSections keySets ((serializedData.drop 4).drop
          ((sectionCount serializedData).toNat * pubKeyBytesLenCompressed))

/-- What the loop over the keyIDs assigns. -/
def keyIDItems : Nat → Bytes → List (KeyID × Option PublicKey)
  | 0, _ => []
  | n + 1, serializedData =>
    (UInt32.ofNat (leNat (serializedData.take 4)),
      (parsePubKey ((serializedData.drop 4).take pubKeyBytesLenCompressed)).toOption) ::
      keyIDItems n (serializedData.drop (4 + pubKeyBytesLenCompressed))

instance (itemLen : UInt32) (serializedData : Bytes) : Decidable (Rejected itemLen serializedData) :=
  inferInstanceAs (Decidable (_ ∨ _))

theorem readCount_eq (itemLen : UInt32) (serializedData : Bytes) : readCount itemLen serializedData =
    if Rejected itemLen serializedData then .error .corruption
    else .ok ((sectionCount serializedData).toNat, serializedData.drop 4) := by
  simp only [readCount, reject_bind]
  exact (ite_or ..).symm

theorem readKeys_ok {n : Nat} (h : HoldsKeys 0 n serializedData) : ∃ keys, readKeys n serializedData =
      .ok (keys, serializedData.drop (n * pubKeyBytesLenCompressed)) := by
  induction n generalizing serializedData with
  | zero => exact ⟨[], by rw [Nat.zero_mul]; rfl⟩
  | succ n ih =>
    obtain ⟨hlen, hkey, hrest⟩ := h
    obtain ⟨key, hparse⟩ := exists_ok_of_isOk hkey
    rw [Nat.zero_add] at hlen hrest
    obtain ⟨keys, hread⟩ := ih hrest
    refine ⟨key :: keys, ?_⟩
    rw [readKeys, reject_bind_of_not (not_lt.mpr hlen), ← drop_zero (l := serializedData), hparse]
    simp only [drop_zero, hread, ok_bind, drop_drop]
    rw [Nat.add_mul, Nat.one_mul, Nat.add_comm]
    rfl

theorem readKeys_panic {n : Nat} (h : ¬ HoldsKeys 0 n serializedData) : readKeys n serializedData = .error .panic := by
  induction n generalizing serializedData with
  | zero => exact absurd trivial h
  | succ n ih =>
    rw [readKeys]
    by_cases hlen : serializedData.length < pubKeyBytesLenCompressed
    · rw [reject, if_pos hlen]
      rfl
    rw [reject_bind_of_not hlen]
    cases hparse : parsePubKey (serializedData.take pubKeyBytesLenCompressed) with
    | error e => rfl
    | ok key =>
      have hrest : ¬ HoldsKeys 0 n (serializedData.drop pubKeyBytesLenCompressed) := by
        intro hrest
        refine h ⟨by rw [Nat.zero_add]; exact not_lt.mp hlen, ?_, by rwa [Nat.zero_add]⟩
        rw [drop_zero, hparse]
        rfl
      dsimp only
      rw [ih hrest]
      rfl

theorem holdsKeys_four_iff {n : Nat} : HoldsKeys 4 n serializedData ↔
      n * (4 + pubKeyBytesLenCompressed) ≤ serializedData.length ∧
        ∀ item ∈ keyIDItems n serializedData, item.2.isSome = true := by
  induction n generalizing serializedData with
  | zero => simp [HoldsKeys, keyIDItems]
  | succ n ih =>
    have hkey : (parsePubKey ((serializedData.drop 4).take pubKeyBytesLenCompressed)).isOk =
        (parsePubKey ((serializedData.drop 4).take pubKeyBytesLenCompressed)).toOption.isSome := by
      cases parsePubKey ((serializedData.drop 4).take pubKeyBytesLenCompressed) <;> rfl
    rw [HoldsKeys, ih, keyIDItems, forall_mem_cons, hkey, length_drop, Nat.add_mul, Nat.one_mul]
    constructor
    · rintro ⟨hfirst, hvalid, hrest, hitems⟩
      exact ⟨by omega, hvalid, hitems⟩
    · rintro ⟨hlen, hvalid, hitems⟩
      exact ⟨by omega, hvalid, by omega, hitems⟩

theorem readKeyIDs_eq {n : Nat} (aspKeyIdMap : KeyIdMap) : readKeyIDs n serializedData aspKeyIdMap =
      if n * (4 + pubKeyBytesLenCompressed) ≤ serializedData.length then
        .ok ((keyIDItems n serializedData).foldl (fun map item => Function.update map item.1 item.2) aspKeyIdMap)
      else .error .panic := by
  induction n generalizing serializedData aspKeyIdMap with
  | zero => rw [Nat.zero_mul, if_pos (Nat.zero_le _)]; rfl
  | succ n ih =>
    rw [readKeyIDs]
    by_cases hlen : serializedData.length < 4 + pubKeyBytesLenCompressed
    · rw [reject, if_pos hlen, if_neg (by rw [Nat.add_mul]; omega)]
      rfl
    · rw [reject_bind_of_not hlen]
      dsimp only
      rw [ih, length_drop, Nat.add_mul, Nat.one_mul]
      refine if_congr ?_ rfl rfl
      omega

/-- The sections after the counters, up to the items of the last one. -/
def readSections (keySets : List KeySetType) (serializedData : Bytes) (adminKeys : KeySetType → PublicKeySet) :
    Except ChainError ((KeySetType → PublicKeySet) × Nat × Bytes) := do
  let (adminKeys, serializedData) ← readKeySets keySets serializedData adminKeys
  let (keyIdMapLen, serializedData) ← readCount 37 serializedData
  return (adminKeys, keyIdMapLen, serializedData)

theorem readSections_panic {keySet : KeySetType} {keySets : List KeySetType}
    (adminKeys : KeySetType → PublicKeySet) (hrejected : ¬ Rejected 33 serializedData)
    (hkeys : ¬ HoldsKeys 0 (sectionCount serializedData).toNat (serializedData.drop 4)) :
    readSections (keySet :: keySets) serializedData adminKeys = .error .panic := by
  rw [readSections, readKeySets, readCount_eq, if_neg hrejected, ok_bind]
  dsimp only
  rw [readKeys_panic hkeys]
  rfl

theorem holdsSections_iff (keySets : List KeySetType) (serializedData : Bytes) (adminKeys : KeySetType → PublicKeySet) :
    (readSections keySets serializedData adminKeys = .error .corruption ∨
      ∃ read n items, readSections keySets serializedData adminKeys = .ok (read, n, items) ∧
        HoldsKeys 4 n items) ↔ HoldsSections keySets serializedData := by
  induction keySets generalizing serializedData adminKeys with
  | nil =>
    rw [readSections, readKeySets, ok_bind, HoldsSections]
    dsimp only
    rw [readCount_eq]
    by_cases hrejected : Rejected 37 serializedData
    · rw [if_pos hrejected]
      exact iff_of_true (.inl rfl) (.inl hrejected)
    · rw [if_neg hrejected, ok_bind, or_iff_right hrejected]
      constructor
      · rintro (h | ⟨_, _, _, h, hkeys⟩)
        · cases h
        · cases h
          exact hkeys
      · exact fun hkeys => .inr ⟨_, _, _, rfl, hkeys⟩
  | cons keySet keySets ih =>
    rw [HoldsSections]
    by_cases hrejected : Rejected 33 serializedData
    · have hread : readSections (keySet :: keySets) serializedData adminKeys = .error .corruption := by
        rw [readSections, readKeySets, readCount_eq, if_pos hrejected]
        rfl
      exact iff_of_true (.inl hread) (.inl hrejected)
    rw [or_iff_right hrejected]
    by_cases hkeys : HoldsKeys 0 (sectionCount serializedData).toNat (serializedData.drop 4)
    · obtain ⟨keys, hread⟩ := readKeys_ok hkeys
      have hstep : readSections (keySet :: keySets) serializedData adminKeys =
          readSections keySets ((serializedData.drop 4).drop
            ((sectionCount serializedData).toNat * pubKeyBytesLenCompressed))
            (Function.update adminKeys keySet keys) := by
        rw [readSections, readKeySets, readCount_eq, if_neg hrejected, ok_bind]
        dsimp only
        rw [hread]
        rfl
      rw [hstep, ih, and_iff_right hkeys]
    · rw [readSections_panic adminKeys hrejected hkeys]
      refine iff_of_false ?_ fun h => hkeys h.1
      rintro (h | ⟨_, _, _, h, -⟩)
      · cases h
      · cases h

def fixedLen : Nat := 3 * (32 + 4) + keyIDSize + 8

/-- What the loop over the keyIDs assigns when it reads a whole record. -/
def recordItems (serializedData : Bytes) : List (KeyID × Option PublicKey) :=
  match readSections adminKeysOrder (serializedData.drop fixedLen) fun _ => [] with
  | .error _ => []
  | .ok (_, n, items) => keyIDItems n items

theorem deserializeKeySet_eq (h : ¬ serializedData.length < fixedLen) :
    ∃ threadTips lastKeyID totalSupply, deserializeKeySet serializedData = (do
      let (adminKeySets, n, items) ← readSections adminKeysOrder (serializedData.drop fixedLen) fun _ => []
      let aspKeyIdMap ← readKeyIDs n items fun _ => none
      return { threadTips, lastKeyID, totalSupply, adminKeySets, aspKeyIdMap }) := by
  refine ⟨(readThreadTips threadOrder serializedData fun _ => none).1,
    UInt32.ofNat (leNat ((serializedData.drop 108).take keyIDSize)),
    UInt64.ofNat (leNat (((serializedData.drop 108).drop keyIDSize).take 8)), ?_⟩
  have hskip : (readThreadTips threadOrder serializedData fun _ => none).2 = serializedData.drop 108 := by
    simp only [readThreadTips, threadOrder, drop_drop]
  have hfixed : serializedData.drop fixedLen = (serializedData.drop 108).drop (keyIDSize + 8) := by
    rw [drop_drop]
    rfl
  have hlen : ¬ serializedData.length < 3 * (32 + 4) + keyIDSize + 8 := h
  rw [deserializeKeySet, reject_bind_of_not hlen, hfixed, ← hskip]
  simp only [readSections, bind_assoc, pure_bind]

/-- Any bytes give an error or a state in which each keyID was assigned a valid key, exactly if the record is too
short for the counters or its sections hold what they count. -/
theorem deserializeKeySet_safe_iff (serializedData : Bytes) : (deserializeKeySet serializedData = .error .corruption ∨
      ∃ view, deserializeKeySet serializedData = .ok view ∧ view.aspKeyIdMap = (recordItems serializedData).foldl
          (fun map item => Function.update map item.1 item.2) (fun _ => none) ∧
        ∀ item ∈ recordItems serializedData, item.2.isSome = true) ↔
    serializedData.length < fixedLen ∨ HoldsSections adminKeysOrder (serializedData.drop fixedLen) := by
  by_cases hshort : serializedData.length < fixedLen
  · refine iff_of_true (.inl ?_) (.inl hshort)
    unfold deserializeKeySet
    rw [reject, if_pos (show serializedData.length < 3 * (32 + 4) + keyIDSize + 8 from hshort)]
    rfl
  obtain ⟨threadTips, lastKeyID, totalSupply, heq⟩ := deserializeKeySet_eq hshort
  rw [or_iff_right hshort, ← holdsSections_iff adminKeysOrder _ fun _ => [], heq, recordItems]
  cases readSections adminKeysOrder (serializedData.drop fixedLen) fun _ => [] with
  | error e =>
    constructor
    · rintro (h | ⟨_, h, -⟩)
      · cases h
        exact .inl rfl
      · cases h
    · rintro (h | ⟨_, _, _, h, -⟩)
      · cases h
        exact .inl rfl
      · cases h
  | ok read =>
    obtain ⟨adminKeySets, n, items⟩ := read
    rw [ok_bind]
    dsimp only
    rw [readKeyIDs_eq]
    by_cases hlen : n * (4 + pubKeyBytesLenCompressed) ≤ items.length
    · rw [if_pos hlen]
      constructor
      · rintro (h | ⟨_, -, -, hitems⟩)
        · cases h
        · exact .inr ⟨_, _, _, rfl, holdsKeys_four_iff.mpr ⟨hlen, hitems⟩⟩
      · rintro (h | ⟨_, _, _, h, hkeys⟩)
        · cases h
        · cases h
          exact .inr ⟨_, rfl, rfl, (holdsKeys_four_iff.mp hkeys).2⟩
    · rw [if_neg hlen]
      refine iff_of_false ?_ ?_
      · rintro (h | ⟨_, h, -⟩)
        · cases h
        · cases h
      · rintro (h | ⟨_, _, _, h, hkeys⟩)
        · cases h
        · cases h
          exact hlen (holdsKeys_four_iff.mp hkeys).1

/-- A record with one root key that is no point. -/
theorem deserializeKeySet_invalid_key :
    deserializeKeySet (List.replicate 120 0 ++ [1, 0, 0, 0] ++ List.replicate 33 0) = .error .panic := by
  obtain ⟨_, _, _, heq⟩ := deserializeKeySet_eq (show ¬ List.length (List.replicate 120 0 ++ [1, 0, 0, 0] ++
    List.replicate 33 0) < fixedLen by decide +kernel)
  have hdrop : (List.replicate 120 0 ++ [1, 0, 0, 0] ++ List.replicate 33 0 : Bytes).drop fixedLen =
      [1, 0, 0, 0] ++ List.replicate 33 0 := by decide
  have hrejected : ¬ Rejected 33 ([1, 0, 0, 0] ++ List.replicate 33 0) := by
    unfold Rejected
    decide
  have hparse : (parsePubKey (List.replicate 33 0)).isOk = false := by decide
  rw [heq, hdrop, adminKeysOrder, readSections_panic _ hrejected fun h => Bool.noConfusion (hparse.symm.trans h.2.1)]
  rfl

end Prova
