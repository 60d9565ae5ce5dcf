import Prova.Lib.Bytes
import Mathlib.Tactic

/-!
# Errors and contents of the database
-/

namespace Prova

namespace Database

inductive ErrorCode
  | errDbNotOpen
  | errCorruption
  | errTxClosed
  | errTxNotWritable
  | errKeyRequired
  | errBlockNotFound
  | errBlockExists
  | errBlockRegionInvalid
  | errDriverSpecific
  deriving Repr, DecidableEq

/-- Values under keys, in the order of the keys: the contents of a treap or of leveldb. -/
abbrev KeyMap : Type := Std.ExtTreeMap Bytes Bytes compare

namespace KeyMap

/-- `Put`: no value is stored as the empty one. -/
def put (m : KeyMap) (key : Bytes) (value : Option Bytes) : KeyMap := m.insert key (value.getD [])

def find (m : KeyMap) : Bytes → Option Bytes := fun key => m[key]?

end KeyMap

end Database

end Prova
