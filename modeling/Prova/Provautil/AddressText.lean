import Prova.Lib.Radix
import Prova.Chaincfg.SampleBlocks
import Prova.Provautil.Address

/-!
# The text of an address (`provautil/address.go`, `provautil/base58`)

Base 58 rewrites a byte string, digits in base 256 with leading zeros, as digits in base 58 with as many
leading zeros. So decoding undoes encoding, and encoding undoes decoding where all characters are in the
alphabet. Around it `CheckEncode` puts a version and a checksum; an address is text of this form that is
as long as one with two keyIDs.
-/

namespace Prova

namespace Base58

open List Radix

/-! ### The alphabet -/

theorem b58_alphabet {d : Nat} (hd : d < 58) : b58 (alphabet.getD d 0) = d := by
  have hall : ∀ d < 58, b58 (alphabet.getD d 0) = d := by decide
  exact hall d hd

theorem b58_spec (ch : UInt8) : (b58 ch ≠ 255 → b58 ch < 58 ∧ alphabet.getD (b58 ch) 0 = ch) ∧
    (b58 ch = 0 ↔ ch = alphabetIdx0) := by
  revert ch
  exact forall_byte (by decide +kernel)

/-! ### Both directions -/

theorem length_takeWhile_map {α : Type} (f : α → Nat) (p : α → Bool) (h : ∀ x, p x = (f x == 0))
    (xs : List α) : (xs.takeWhile p).length = leadingZeros (xs.map f) := by
  have hp : p = (· == 0) ∘ f := funext h
  rw [leadingZeros, takeWhile_map, length_map, hp]

theorem decodeLoop_eq (s : Bytes) (answer j : Nat) : decodeLoop s answer j =
      if ∀ ch ∈ s, b58 ch ≠ 255 then some (answer + j * Nat.ofDigits 58 (s.map b58)) else none := by
  induction s generalizing answer j with
  | nil => simp [decodeLoop]
  | cons ch s ih =>
    rw [decodeLoop]
    by_cases hch : b58 ch = 255
    · rw [if_pos hch, if_neg fun h => h ch mem_cons_self hch]
    · have hall : (∀ x ∈ ch :: s, b58 x ≠ 255) ↔ ∀ x ∈ s, b58 x ≠ 255 := by
        rw [forall_mem_cons, and_iff_right hch]
      rw [if_neg hch, ih, if_congr hall rfl rfl, map_cons, Nat.ofDigits_cons]
      congr 2
      ring

theorem decode_eq {s : Bytes} (hs : ∀ ch ∈ s, b58 ch ≠ 255) : decode s = ofDigits
      (write 256 (leadingZeros (s.map b58)) (value 58 (s.map b58))) := by
  have hzeros : (s.takeWhile (· == alphabetIdx0)).length = leadingZeros (s.map b58) := by
    apply length_takeWhile_map
    intro ch
    rw [Bool.eq_iff_iff, beq_iff_eq, beq_iff_eq, (b58_spec _).2]
  have hloop : decodeLoop s.reverse 0 1 = some (value 58 (s.map b58)) := by
    rw [decodeLoop_eq, if_pos fun ch hch => hs ch (mem_reverse.mp hch), Nat.zero_add, Nat.one_mul, value, map_reverse]
  rw [decode, hloop]
  simp only [hzeros]
  rw [ofDigits, write, map_append, map_replicate]
  rfl

theorem decode_invalid {s : Bytes} (hs : ¬ ∀ ch ∈ s, b58 ch ≠ 255) : decode s = [] := by
  rw [decode, decodeLoop_eq, if_neg fun h => hs fun ch hch => h ch (mem_reverse.mpr hch)]

theorem encode_eq (b : Bytes) : encode b = (write 58 (leadingZeros (b.map UInt8.toNat))
      (value 256 (b.map UInt8.toNat))).map fun mod => alphabet.getD mod 0 := by
  have hzeros : (b.takeWhile (· == 0)).length = leadingZeros (b.map UInt8.toNat) := by
    apply length_takeWhile_map
    intro x
    rw [Bool.eq_iff_iff, beq_iff_eq, beq_iff_eq, ← UInt8.toNat_inj]
    rfl
  rw [encode, beNat_eq_value]
  simp only [reverse_append, map_const', reverse_replicate, hzeros]
  rw [write, map_append, map_replicate, map_reverse]
  rfl

theorem decode_encode (b : Bytes) : decode (encode b) = b := by
  have hdigits : (encode b).map b58 = write 58 (leadingZeros (b.map UInt8.toNat))
      (value 256 (b.map UInt8.toNat)) := by
    rw [encode_eq, map_map]
    refine (map_congr_left fun d hd => ?_).trans (map_id _)
    exact b58_alphabet (lt_of_mem_write (by decide) hd)
  have hvalid : ∀ ch ∈ encode b, b58 ch ≠ 255 := by
    intro ch hch
    have hmem : b58 ch ∈ (encode b).map b58 := mem_map_of_mem hch
    rw [hdigits] at hmem
    have hlt := lt_of_mem_write (by decide) hmem
    omega
  rw [decode_eq hvalid, hdigits, leadingZeros_write, value_write, write_value (by decide), ofDigits_toNat]
  intro d hd
  obtain ⟨x, -, rfl⟩ := mem_map.mp hd
  exact x.toNat_lt

theorem encode_decode {s : Bytes} (hs : ∀ ch ∈ s, b58 ch ≠ 255) : encode (decode s) = s := by
  rw [encode_eq, decode_eq hs, toNat_ofDigits fun d hd => lt_of_mem_write (by decide) hd,
    leadingZeros_write, value_write, write_value (by decide), map_map]
  · refine (map_congr_left fun ch hch => ?_).trans (map_id _)
    exact ((b58_spec ch).1 (hs ch hch)).2
  · intro d hd
    obtain ⟨ch, hch, rfl⟩ := mem_map.mp hd
    exact ((b58_spec ch).1 (hs ch hch)).1

/-- Bytes and text over the alphabet are in one-to-one correspondence. -/
theorem base58_roundTrip : (∀ b, decode (encode b) = b) ∧ ∀ s, (∀ ch ∈ s, ch ∈ alphabet) → encode (decode s) = s := by
  have halphabet : ∀ ch ∈ alphabet, b58 ch ≠ 255 := by decide
  exact ⟨decode_encode, fun s hs => encode_decode fun ch hch => halphabet ch (hs ch hch)⟩

theorem base58_roundTrip_ones : encode (decode [0x31, 0x31, 0x32]) = [0x31, 0x31, 0x32] :=
  base58_roundTrip.2 _ (by decide)

/-! ### Version and checksum -/

@[simp] theorem length_checksum (c : Crypto) (input : Bytes) : (checksum c input).length = 4 := by
  rw [checksum, length_take, Hash.length_bytes]
  rfl

theorem checkDecode_checkEncode (c : Crypto) (input : Bytes) (version : UInt8) :
    checkDecode c (checkEncode c input version) = .ok (input, version) := by
  rw [checkDecode, checkEncode]
  simp only [decode_encode]
  have hlength : (version :: input ++ checksum c (version :: input)).length = input.length + 5 := by
    rw [List.length_append, List.length_cons, length_checksum]
  have hdrop : input.length + 5 - 4 = (version :: input).length := rfl
  rw [hlength, hdrop, take_left, drop_left]
  refine bind_unit_eq_ok.mpr ⟨reject_eq_ok.mpr (by omega), ?_⟩
  exact bind_unit_eq_ok.mpr ⟨reject_eq_ok.mpr (not_not.mpr rfl), rfl⟩

theorem checkEncode_checkDecode {c : Crypto} {s input : Bytes} {version : UInt8}
    (h : checkDecode c s = .ok (input, version)) : checkEncode c input version = s := by
  obtain ⟨hlong, h⟩ := bind_unit_eq_ok.mp h
  obtain ⟨hsum, h⟩ := bind_unit_eq_ok.mp h
  cases h
  rw [reject_eq_ok, Nat.not_lt] at hlong
  rw [reject_eq_ok, not_not] at hsum
  -- a string with another character is decoded to nothing
  have hvalid : ∀ ch ∈ s, b58 ch ≠ 255 := by
    by_contra hinvalid
    rw [decode_invalid hinvalid] at hlong
    exact absurd hlong (by decide)
  have hfront : (decode s).headD 0 :: ((decode s).take ((decode s).length - 4)).drop 1 =
      (decode s).take ((decode s).length - 4) := by
    cases hdecoded : decode s with
    | nil => rw [hdecoded] at hlong; exact absurd hlong (by decide)
    | cons version rest =>
      rw [hdecoded, List.length_cons] at hlong
      rw [List.length_cons, Nat.succ_sub (by omega)]
      rfl
  rw [checkEncode]
  simp only [hfront, hsum]
  rw [List.take_append_drop, encode_decode hvalid]

end Base58

/-! ### Addresses -/

def addressKeyIDs (keyIDs : List KeyID) : Bytes := keyIDs.flatMap fun keyID => leBytes keyIDSize keyID.toNat

theorem length_addressKeyIDs (keyIDs : List KeyID) : (addressKeyIDs keyIDs).length = keyIDs.length * keyIDSize := by
  induction keyIDs with
  | nil => rfl
  | cons keyID keyIDs ih =>
    rw [addressKeyIDs, List.flatMap_cons, List.length_append, length_leBytes, ← addressKeyIDs, ih, List.length_cons,
      Nat.succ_mul, Nat.add_comm]

theorem keyIDFromAddressBuffer_append (keyID : KeyID) (rest : Bytes) :
    keyIDFromAddressBuffer (leBytes keyIDSize keyID.toNat ++ rest) = keyID := by
  rw [keyIDFromAddressBuffer, List.take_left' (length_leBytes ..), leNat_leBytes,
    Nat.mod_eq_of_lt (lt_of_lt_of_eq keyID.toNat_lt (by decide)), UInt32.ofNat_toNat]

theorem leBytes_keyIDFromAddressBuffer {buf : Bytes} (h : keyIDSize ≤ buf.length) :
    leBytes keyIDSize (keyIDFromAddressBuffer buf).toNat = buf.take keyIDSize := by
  have hlength : (buf.take keyIDSize).length = keyIDSize := List.length_take_of_le h
  have hlt : leNat (buf.take keyIDSize) < 2 ^ 32 := by
    have := leNat_lt (buf.take keyIDSize)
    rwa [hlength] at this
  have hbytes := leBytes_leNat (buf.take keyIDSize)
  rw [hlength] at hbytes
  rw [keyIDFromAddressBuffer, UInt32.toNat_ofNat_of_lt' hlt, hbytes]

theorem newAddressProva_eq_some {pkHash : Bytes} {keyIDs : List KeyID} {addr : AddressProva} :
    newAddressProva pkHash keyIDs = some addr ↔
      addr.hash = pkHash ∧ addr.keyIDs = keyIDs ∧ 2 ≤ keyIDs.length ∧ keyIDs.length ≤ 19 := by
  unfold newAddressProva
  constructor
  · intro h
    split_ifs at h
    cases h
    exact ⟨rfl, rfl, by omega, by omega⟩
  · rintro ⟨rfl, rfl, hmin, hmax⟩
    rw [dif_pos addr.size, if_neg (by omega), if_neg (by omega)]

theorem newAddressProvaFromBytes_two {addr : AddressProva} {keyID0 keyID1 : KeyID}
    (h : addr.keyIDs = [keyID0, keyID1]) (netID : UInt8) :
    newAddressProvaFromBytes (addr.hash ++ addressKeyIDs addr.keyIDs) netID = .ok ⟨addr, netID⟩ := by
  have hdata : addr.hash ++ addressKeyIDs addr.keyIDs =
      addr.hash ++ (leBytes keyIDSize keyID0.toNat ++ (leBytes keyIDSize keyID1.toNat ++ [])) := by
    rw [h]
    rfl
  have hnew : newAddressProva addr.hash [keyID0, keyID1] = some addr :=
    newAddressProva_eq_some.mpr ⟨rfl, h, le_rfl, by simp⟩
  rw [newAddressProvaFromBytes, hdata, List.take_left' addr.size, ← List.drop_drop, List.drop_left' addr.size,
    List.drop_left' (length_leBytes ..), keyIDFromAddressBuffer_append, keyIDFromAddressBuffer_append]
  simp only [hnew]

theorem bytes_of_newAddressProvaFromBytes {data : Bytes} {netID : UInt8} {a : NetAddressProva}
    (hlength : data.length = 20 + 2 * keyIDSize) (h : newAddressProvaFromBytes data netID = .ok a) :
    a.hash ++ addressKeyIDs a.keyIDs = data ∧ a.netID = netID := by
  unfold newAddressProvaFromBytes at h
  simp only at h
  split at h
  · cases h
  · next addr hnew =>
    cases h
    obtain ⟨hhash, hkeyIDs, -, -⟩ := newAddressProva_eq_some.mp hnew
    refine ⟨?_, rfl⟩
    have hrest : (data.drop 20).length = 2 * keyIDSize := by
      rw [List.length_drop, hlength, Nat.add_sub_cancel_left]
    have hlast : ((data.drop 20).drop keyIDSize).length = keyIDSize := by
      rw [List.length_drop, hrest]
      rfl
    rw [← List.drop_drop] at hkeyIDs
    have hbytes : addressKeyIDs addr.keyIDs = data.drop 20 := by
      rw [hkeyIDs, addressKeyIDs, List.flatMap_cons, List.flatMap_cons, List.flatMap_nil, List.append_nil,
        leBytes_keyIDFromAddressBuffer (hrest ▸ by decide), leBytes_keyIDFromAddressBuffer hlast.ge,
        List.take_of_length_le hlast.le, List.take_append_drop]
    rw [hhash, hbytes, List.take_append_drop]

theorem decodeAddress_encodeAddress (c : Crypto) (isProvaAddrID : UInt8 → Bool) (a : NetAddressProva) :
    decodeAddress c isProvaAddrID (a.encodeAddress c) = .ok a ↔ a.keyIDs.length = 2 ∧ isProvaAddrID a.netID = true := by
  have hdecode : decodeAddress c isProvaAddrID (a.encodeAddress c) =
      if isProvaAddrID a.netID then
        if (a.hash ++ addressKeyIDs a.keyIDs).length ≠ 20 + 2 * keyIDSize then .error .unknownSize
        else newAddressProvaFromBytes (a.hash ++ addressKeyIDs a.keyIDs) a.netID
      else .error .unknownSize := by
    rw [decodeAddress, NetAddressProva.encodeAddress, Base58.checkDecode_checkEncode]
    rfl
  have hlength : (a.hash ++ addressKeyIDs a.keyIDs).length = 20 + a.keyIDs.length * keyIDSize := by
    rw [List.length_append, a.size, length_addressKeyIDs]
  rw [hdecode, hlength]
  by_cases hnet : isProvaAddrID a.netID = true
  · rw [if_pos hnet, and_iff_left hnet]
    by_cases htwo : a.keyIDs.length = 2
    · obtain ⟨keyID0, keyID1, hkeyIDs⟩ := List.length_eq_two.mp htwo
      rw [if_neg (by rw [htwo, not_not]), newAddressProvaFromBytes_two hkeyIDs]
      exact iff_of_true rfl htwo
    · have hsize : 20 + a.keyIDs.length * keyIDSize ≠ 20 + 2 * keyIDSize := by
        unfold keyIDSize
        omega
      rw [if_pos hsize]
      exact iff_of_false (fun h => nomatch h) htwo
  · rw [if_neg hnet]
    exact iff_of_false (fun h => nomatch h) fun h => hnet h.2

theorem encodeAddress_decodeAddress {c : Crypto} {isProvaAddrID : UInt8 → Bool} {s : Bytes}
    {a : NetAddressProva} (h : decodeAddress c isProvaAddrID s = .ok a) : a.encodeAddress c = s := by
  unfold decodeAddress at h
  split at h
  · cases h
  · cases h
  · next decoded netID hdecoded =>
    split_ifs at h with hnet hlength
    obtain ⟨hbytes, hnetID⟩ := bytes_of_newAddressProvaFromBytes (not_not.mp hlength) h
    rw [NetAddressProva.encodeAddress, ← addressKeyIDs, hbytes, hnetID]
    exact Base58.checkEncode_checkDecode hdecoded

/-- The text of an address that `NewAddressProva` accepts is decoded to the address exactly if it has two
keyIDs and is for a registered network; and whatever is decoded is encoded as the same text. -/
theorem address_text_roundTrip (c : Crypto) (isProvaAddrID : UInt8 → Bool) :
    (∀ pkHash keyIDs netID addr, newAddressProva pkHash keyIDs = some addr →
      (decodeAddress c isProvaAddrID (NetAddressProva.encodeAddress c ⟨addr, netID⟩) = .ok ⟨addr, netID⟩ ↔
        keyIDs.length = 2 ∧ isProvaAddrID netID = true)) ∧
    ∀ s a, decodeAddress c isProvaAddrID s = .ok a → a.encodeAddress c = s := by
  refine ⟨fun pkHash keyIDs netID addr hnew => ?_, fun s a h => encodeAddress_decodeAddress h⟩
  obtain ⟨-, rfl, -, -⟩ := newAddressProva_eq_some.mp hnew
  exact decodeAddress_encodeAddress c isProvaAddrID ⟨addr, netID⟩

/-- The network bytes of the networks of the package. -/
def defaultAddrIDs (id : UInt8) : Bool := id = 0x33 || id = 0x58

def mainAddress (keyIDs : List KeyID) : NetAddressProva :=
  ⟨⟨keyIDs, List.replicate 20 0, List.length_replicate⟩, 0x33⟩

theorem address_text_roundTrip_mainAddress :
    ∃ s, decodeAddress Sample.crypto defaultAddrIDs s = .ok (mainAddress [1, 2]) ∧
      (mainAddress [1, 2]).encodeAddress Sample.crypto = s := by
  obtain ⟨hdecode, hencode⟩ := address_text_roundTrip Sample.crypto defaultAddrIDs
  have hdecoded := (hdecode (List.replicate 20 0) [1, 2] 0x33 _ rfl).mpr ⟨rfl, rfl⟩
  exact ⟨_, hdecoded, hencode _ _ hdecoded⟩

/-- `NewAddressProva` accepts three keyIDs, `DecodeAddress` does not. -/
theorem three_keyIDs_not_decoded :
    newAddressProva (List.replicate 20 0) [1, 2, 3] = some (mainAddress [1, 2, 3]).toAddressProva ∧
    decodeAddress Sample.crypto defaultAddrIDs ((mainAddress [1, 2, 3]).encodeAddress Sample.crypto) ≠
      .ok (mainAddress [1, 2, 3]) := by
  refine ⟨rfl, fun h => ?_⟩
  have htwo := ((decodeAddress_encodeAddress _ _ _).mp h).1
  exact absurd htwo (by decide)

end Prova
