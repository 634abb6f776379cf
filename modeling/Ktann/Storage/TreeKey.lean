/-
Canonical memcomparable encoding of Tree Keys.

A Tree Key is the tuple of the declared non-null Tree Key fields.  Each scalar
encodes to a self-delimiting byte string whose order is the typed order, so
concatenation keeps the order of tuples.
-/
import Ktann.Storage.Values

/-- Tuple escaping: `0x00` becomes `0x00 0xFF`, and `0x00 0x00` ends the
string. -/
def escapeTerminated : Bytes → Bytes
  | [] => [0, 0]
  | b :: rest => if b = 0 then 0 :: 255 :: escapeTerminated rest else b :: escapeTerminated rest

/-- One scalar Tree Key field. -/
def encodeScalar : DataType → Value → Except Error Bytes
  | .bool, .bool b => .ok [if b then 1 else 0]
  | .i64, .i64 i => .ok (bigEndian 8 (i.val + 2 ^ 63).toNat)
  | .f64, .f64 x =>
    if x.isFinite = false ∨ x.bits = 2 ^ 63 then .error .invalidArgument
    else .ok (bigEndian 8 (if 2 ^ 63 ≤ x.bits then 2 ^ 64 - 1 - x.bits else x.bits + 2 ^ 63))
  | .string, .string s =>
    if maxStringBytes < s.bytes.length then .error .invalidArgument
    else .ok (escapeTerminated s.bytes)
  | _, _ => .error .invalidArgument

/-- An ordered sequence of scalar fields. -/
def appendFields (types : List DataType) (values : List Value) : Except Error Bytes :=
  if types.length = values.length then do
    let fields ← (types.zip values).mapM fun (ty, value) => encodeScalar ty value
    .ok fields.flatten
  else .error .invalidArgument

def TreeKey.encode (types : List DataType) (values : List Value) : Except Error TreeKey := do
  let bytes ← appendFields types values
  if maxTreeKeyBytes < bytes.length then .error .invalidArgument else .ok bytes
