import WasmCore.Value.Type
import WasmCore.Decimal.Layout

/-!
# Values

A value is a number of one of the four types, or the placeholder `nil`, which stands for the absence
of a value and never reaches an operand stack. Floats are kept as bits.
-/

namespace WasmCore

/-- A typed number, or nothing. -/
inductive Value where
  /-- No value. -/
  | nil
  /-- A 32-bit integer. -/
  | i32 (bits : UInt32)
  /-- A 64-bit integer. -/
  | i64 (bits : UInt64)
  /-- A single-precision float. -/
  | f32 (bits : UInt32)
  /-- A double-precision float. -/
  | f64 (bits : UInt64)
  deriving DecidableEq, Repr, Inhabited

/-- Why a value cannot be used as a value of some type. -/
inductive ValueError where
  /-- There is no value. -/
  | missing
  /-- The value has another type. -/
  | mismatch (expected actual : ValueType)
  deriving DecidableEq, Repr

/-- The error in words. -/
def ValueError.message : ValueError → String
  | .missing => "stack underflow"
  | .mismatch expected actual =>
    "type mismatch: expected " ++ expected.text ++ ", actual " ++ actual.text

namespace Value

/-- The type of a value, `empty` for the placeholder. -/
def type : Value → ValueType
  | nil => .empty
  | i32 _ => .i32
  | i64 _ => .i64
  | f32 _ => .f32
  | f64 _ => .f64

/-- The value is the placeholder. -/
@[inline] def isNil : Value → Bool
  | nil => true
  | _ => false

/-- The payload, zero-extended. -/
@[inline] def bits : Value → UInt64
  | nil => 0
  | i32 bits => bits.toUInt64
  | i64 bits => bits
  | f32 bits => bits.toUInt64
  | f64 bits => bits

/-- The number of the given type whose payload is the low bits of `raw`. -/
def ofNumBits (type : NumType) (raw : UInt64) : Value :=
  match type with
  | .i32 => i32 raw.toUInt32
  | .i64 => i64 raw
  | .f32 => f32 raw.toUInt32
  | .f64 => f64 raw

/-- The value of the given type whose payload is the low bits of `raw`; `nil` unless the type is a
number type. -/
def ofBits (type : ValueType) (raw : UInt64) : Value :=
  match type with
  | .num t => ofNumBits t raw
  | _ => nil

/-- The initial value of a declared local. -/
def zero (type : ValueType) : Value := ofBits type 0

/-- Succeeds if the value has the given type. -/
@[inline] def check (v : Value) (type : ValueType) : Except ValueError Unit :=
  if v.isNil then .error .missing
  else if v.type = type then .ok ()
  else .error (.mismatch type v.type)

/-- The value as a number of the given type: its payload, or why it has none of that type. -/
def bitsAs (v : Value) (type : NumType) : Except ValueError UInt64 :=
  (v.check (.num type)).map fun _ => v.bits

/-- Floats are written with the fewest digits that read back, positionally from `10^-4` up to below
`10^6`, and otherwise with a signed exponent of at least two digits. -/
def floatLayout : Layout where
  leastPositional := -4
  firstScientific := 6
  exponentWidth := 2
  nan := "NaN"
  infinity := "Inf"

/-- The number in decimal; integers are signed. -/
def text : Value → String
  | nil => "nil"
  | i32 bits => toString bits.toBitVec.toInt
  | i64 bits => toString bits.toBitVec.toInt
  | f32 bits => floatLayout.render .single bits.toNat
  | f64 bits => floatLayout.render .double bits.toNat

end Value

end WasmCore
