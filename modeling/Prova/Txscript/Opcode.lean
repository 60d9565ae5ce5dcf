import Prova.Chainhash

/-!
# Opcodes, parsed scripts and script numbers (`txscript/opcode.go`, `script.go`, `scriptnum.go`)

A script is parsed into opcodes with their pushed data. The parser keeps what it parsed before an
error, because counting signature operations uses it. Whatever `UnparseScript` writes, `ParseScript`
reads back as the same opcodes.
-/

namespace Prova

open List

/-- The error codes of the package, with the plain errors of the multi-signature handler, and the
two outcomes that are not errors in Go: a run-time panic and a loop that never ends. -/
inductive ScriptError
  | internal
  | invalidFlags
  | invalidIndex
  | earlyReturn
  | emptyStack
  | evalFalse
  | invalidProgramCounter
  | scriptTooBig
  | elementTooBig
  | tooManyOperations
  | stackOverflow
  | invalidPubKeyCount
  | invalidSignatureCount
  | numberTooBig
  | verify
  | equalVerify
  | numEqualVerify
  | checkSigVerify
  | checkMultiSigVerify
  | disabledOpcode
  | reservedOpcode
  | malformedPush
  | invalidStackOperation
  | unbalancedConditional
  | minimalData
  | invalidSigHashType
  | sigDER
  | sigHighS
  | notPushOnly
  | sigNullDummy
  | pubKeyType
  | cleanStack
  | nullFail
  | discourageUpgradableNOPs
  | negativeLockTime
  | unsatisfiedLockTime
  | tooFewValidKeyHashes
  | signaturesNegative
  | moreSignaturesThanKeyHashes
  | pubKey (err : PubKeyError)
  | unexpectedStructure
  | noKeyHashes
  | tooFewThreadKeys
  | invalidNumberOfKeyIds
  | notCanonical
  | panic
  | diverges
deriving DecidableEq, Repr

def op0 : UInt8 := 0x00
def opData1 : UInt8 := 0x01
def opData4 : UInt8 := 0x04
def opData20 : UInt8 := 0x14
def opData34 : UInt8 := 0x22
def opData38 : UInt8 := 0x26
def opData75 : UInt8 := 0x4b
def opPushData1 : UInt8 := 0x4c
def opPushData2 : UInt8 := 0x4d
def opPushData4 : UInt8 := 0x4e
def op1Negate : UInt8 := 0x4f
def opReserved : UInt8 := 0x50
def op1 : UInt8 := 0x51
def op2 : UInt8 := 0x52
def op3 : UInt8 := 0x53
def op16 : UInt8 := 0x60
def opReturn : UInt8 := 0x6a
def opEqual : UInt8 := 0x87
def opHash160 : UInt8 := 0xa9
def opCodeSeparator : UInt8 := 0xab
def opCheckSig : UInt8 := 0xac
def opCheckSigVerify : UInt8 := 0xad
def opCheckMultiSig : UInt8 := 0xae
def opCheckMultiSigVerify : UInt8 := 0xaf
def opNop1 : UInt8 := 0xb0
def opNop4 : UInt8 := 0xb3
def opNop10 : UInt8 := 0xb9
def opCheckSafeMultiSig : UInt8 := 0xba
def opCheckThread : UInt8 := 0xbb

def maxOpsPerScript : Nat := 201
def maxPubKeysPerMultiSig : Nat := 20
def maxScriptElementSize : Nat := 520
def maxScriptSize : Nat := 10000
def maxStackSize : Nat := 1000

structure ParsedOpcode where
  opcode : UInt8
  data : Bytes
deriving DecidableEq, Repr

/-- How an opcode carries data: not at all, a fixed number of bytes, or a number of bytes given by a
length field of 1, 2 or 4 bytes. This is the `length` column of `opcodeArray`. -/
inductive OpLength
  | single
  | fixed (n : Nat)
  | counted (k : Nat)
deriving DecidableEq

def opLength (op : UInt8) : OpLength :=
  if opData1 ≤ op ∧ op ≤ opData75 then .fixed op.toNat
  else if op = opPushData1 then .counted 1
  else if op = opPushData2 then .counted 2
  else if op = opPushData4 then .counted 4
  else .single

/-- One iteration of `parseScriptTemplate`: the next opcode and the rest of the script. -/
def parseOpcode (instr : UInt8) (rest : Bytes) : Except ScriptError (ParsedOpcode × Bytes) :=
  match opLength instr with
  | .single => .ok (⟨instr, []⟩, rest)
  | .fixed n =>
    if rest.length < n then .error .malformedPush
    else .ok (⟨instr, rest.take n⟩, rest.drop n)
  | .counted k =>
    if rest.length < k then .error .malformedPush
    else
      let l := leNat (rest.take k)
      if (rest.drop k).length < l then .error .malformedPush
      else .ok (⟨instr, (rest.drop k).take l⟩, (rest.drop k).drop l)

/-- The loop of `parseScriptTemplate`. Every opcode takes at least one byte, so the length of the
script bounds the number of iterations. -/
def parseLoop : Nat → Bytes → List ParsedOpcode × Option ScriptError
  | _, [] => ([], none)
  | 0, _ :: _ => ([], some .diverges)
  | n + 1, instr :: rest =>
    match parseOpcode instr rest with
    | .error e => ([], some e)
    | .ok (pop, rest) =>
      let (pops, err) := parseLoop n rest
      (pop :: pops, err)

/-- The opcodes up to the first error, and the error. -/
def parseScriptTemplate (script : Bytes) : List ParsedOpcode × Option ScriptError :=
  parseLoop script.length script

def parseScript (script : Bytes) : Except ScriptError (List ParsedOpcode) :=
  match parseScriptTemplate script with
  | (pops, none) => .ok pops
  | (_, some e) => .error e

def ParsedOpcode.bytes (pop : ParsedOpcode) : Except ScriptError Bytes :=
  match opLength pop.opcode with
  | .single => if pop.data ≠ [] then .error .internal else .ok [pop.opcode]
  | .fixed n =>
    if pop.data.length ≠ n then .error .internal else .ok (pop.opcode :: pop.data)
  | .counted k =>
    -- the length field is cut to its width and the total compared with what it announces
    let lengthField := leBytes k pop.data.length
    if 1 + k + pop.data.length ≠ leNat lengthField + (1 + k) then .error .internal
    else .ok (pop.opcode :: (lengthField ++ pop.data))

def unparseScript : List ParsedOpcode → Except ScriptError Bytes
  | [] => .ok []
  | pop :: pops =>
    match pop.bytes with
    | .error e => .error e
    | .ok b =>
      match unparseScript pops with
      | .error e => .error e
      | .ok rest => .ok (b ++ rest)

/-! ### Parsing undoes unparsing -/

theorem parseOpcode_bytes {pop : ParsedOpcode} {b : Bytes} (h : pop.bytes = .ok b) (rest : Bytes) :
    ∃ tail, b = pop.opcode :: tail ∧ parseOpcode pop.opcode (tail ++ rest) = .ok (pop, rest) := by
  unfold ParsedOpcode.bytes at h
  unfold parseOpcode
  cases hlen : opLength pop.opcode with
  | single =>
    simp only [hlen] at h
    split at h
    · cases h
    · next hdata =>
      cases h
      rw [not_not] at hdata
      exact ⟨[], rfl, by simp [← hdata]⟩
  | fixed n =>
    simp only [hlen] at h
    split at h
    · cases h
    · next hdata =>
      cases h
      rw [not_not] at hdata
      refine ⟨pop.data, rfl, ?_⟩
      simp [← hdata]
  | counted k =>
    simp only [hlen] at h
    split at h
    · cases h
    · next hdata =>
      cases h
      have hval : leNat (leBytes k pop.data.length) = pop.data.length := by omega
      refine ⟨leBytes k pop.data.length ++ pop.data, rfl, ?_⟩
      simp [hval]

theorem unparseScript_cons {pop : ParsedOpcode} {pops : List ParsedOpcode} {s : Bytes} :
    unparseScript (pop :: pops) = .ok s ↔ ∃ b r, pop.bytes = .ok b ∧ unparseScript pops = .ok r ∧ s = b ++ r := by
  rw [unparseScript]
  cases pop.bytes with
  | error e => simp
  | ok b =>
    cases unparseScript pops with
    | error e => simp
    | ok r =>
      simp only [Except.ok.injEq]
      constructor
      · intro hs
        exact ⟨b, r, rfl, rfl, hs.symm⟩
      · rintro ⟨b', r', rfl, rfl, hs⟩
        exact hs.symm

theorem parseLoop_of_unparseScript {pops : List ParsedOpcode} {s : Bytes}
    (h : unparseScript pops = .ok s) {n : Nat} (hn : s.length ≤ n) : parseLoop n s = (pops, none) := by
  induction pops generalizing s n with
  | nil =>
    cases h
    cases n <;> rfl
  | cons pop pops ih =>
    obtain ⟨b, r, hb, hr, rfl⟩ := unparseScript_cons.mp h
    obtain ⟨tail, rfl, hparse⟩ := parseOpcode_bytes hb r
    cases n with
    | zero => simp at hn
    | succ n =>
      have hrest : r.length ≤ n := by
        simp only [cons_append, length_cons, length_append] at hn
        omega
      simp only [cons_append, parseLoop, hparse, ih hr hrest]

theorem parseScript_of_unparseScript {pops : List ParsedOpcode} {s : Bytes}
    (h : unparseScript pops = .ok s) : parseScript s = .ok pops := by
  rw [parseScript, parseScriptTemplate, parseLoop_of_unparseScript h le_rfl]

/-! ### Unparsing undoes parsing -/

theorem bytes_of_parseOpcode {instr : UInt8} {rest rest' : Bytes} {pop : ParsedOpcode}
    (h : parseOpcode instr rest = .ok (pop, rest')) : ∃ b, pop.bytes = .ok b ∧ instr :: rest = b ++ rest' := by
  unfold parseOpcode at h
  unfold ParsedOpcode.bytes
  cases hlen : opLength instr with
  | single =>
    simp only [hlen] at h
    cases h
    exact ⟨[instr], by simp [hlen], rfl⟩
  | fixed n =>
    simp only [hlen] at h
    split at h
    · cases h
    · next hshort =>
      cases h
      have htake : (rest.take n).length = n := by
        rw [length_take]
        omega
      exact ⟨instr :: rest.take n, by simp [hlen, htake],
        by rw [cons_append, take_append_drop]⟩
  | counted k =>
    simp only [hlen] at h
    split at h
    · cases h
    · next hfield =>
      split at h
      · cases h
      · next hshort =>
        cases h
        have hk : (rest.take k).length = k := by
          rw [length_take]
          omega
        have hdata : ((rest.drop k).take (leNat (rest.take k))).length = leNat (rest.take k) := by
          rw [length_take]
          omega
        have hcode : leBytes k (leNat (rest.take k)) = rest.take k := by
          have hle := leBytes_leNat (rest.take k)
          rwa [hk] at hle
        refine ⟨instr :: (rest.take k ++ (rest.drop k).take (leNat (rest.take k))), ?_, ?_⟩
        · simp only [hlen, hdata, hcode]
          rw [if_neg (by omega)]
        · rw [cons_append, append_assoc, take_append_drop, take_append_drop]

theorem unparseScript_of_parseLoop {n : Nat} {s : Bytes} {pops : List ParsedOpcode}
    (h : parseLoop n s = (pops, none)) : unparseScript pops = .ok s := by
  induction n generalizing s pops with
  | zero =>
    cases s with
    | nil =>
      cases h
      rfl
    | cons instr rest => cases h
  | succ n ih =>
    cases s with
    | nil =>
      cases h
      rfl
    | cons instr rest =>
      rw [parseLoop] at h
      split at h
      · cases h
      · next pop rest' hparse =>
        obtain ⟨b, hb, hbytes⟩ := bytes_of_parseOpcode hparse
        cases hloop : parseLoop n rest' with
        | mk pops' err =>
          simp only [hloop] at h
          cases h
          exact unparseScript_cons.mpr ⟨b, rest', hb, ih hloop, hbytes⟩

theorem unparseScript_of_parseScript {s : Bytes} {pops : List ParsedOpcode}
    (h : parseScript s = .ok pops) : unparseScript pops = .ok s := by
  unfold parseScript parseScriptTemplate at h
  cases hloop : parseLoop s.length s with
  | mk pops' err =>
    rw [hloop] at h
    cases err with
    | none =>
      cases h
      exact unparseScript_of_parseLoop hloop
    | some e => cases h

/-! ### Script numbers -/

def checkMinimalDataEncoding (v : Bytes) : Except ScriptError Unit :=
  match v.reverse with
  | [] => .ok ()
  | [last] => if last &&& 0x7f = 0 then .error .minimalData else .ok ()
  | last :: prev :: _ =>
    if last &&& 0x7f = 0 ∧ prev &&& 0x80 = 0 then .error .minimalData else .ok ()

/-- `makeScriptNum`: little-endian magnitude with the sign in the top bit. The lengths allowed by the
callers are at most 5 bytes, so the `int64` does not overflow. -/
def makeScriptNum (v : Bytes) (requireMinimal : Bool) (scriptNumLen : Nat) :
    Except ScriptError Int := do
  reject (scriptNumLen < v.length) .numberTooBig
  if requireMinimal then checkMinimalDataEncoding v else pure ()
  match v.reverse with
  | [] => return 0
  | last :: _ =>
    if last &&& 0x80 ≠ 0 then return -((leNat v : Int) - 0x80 * 256 ^ (v.length - 1))
    else return leNat v

def magnitudeBytes : Nat → Nat → Bytes
  | 0, _ => []
  | n + 1, x => if x = 0 then [] else UInt8.ofNat x :: magnitudeBytes n (x / 256)

/-- `scriptNum.Bytes`. -/
def scriptNumBytes (n : Int) : Bytes :=
  if n = 0 then []
  else
    let result := magnitudeBytes 9 n.natAbs
    let last := result.getLastD 0
    if last &&& 0x80 ≠ 0 then result ++ [if n < 0 then 0x80 else 0x00]
    else if n < 0 then result.dropLast ++ [last ||| 0x80]
    else result

/-- `scriptNum.Int32`: clamped to 32 bits. -/
def scriptNumInt32 (n : Int) : Int :=
  if 2 ^ 31 - 1 < n then 2 ^ 31 - 1 else if n < -(2 ^ 31) then -(2 ^ 31) else n

end Prova
