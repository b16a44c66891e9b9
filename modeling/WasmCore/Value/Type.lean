import WasmCore.Text.Numeral

/-!
# Value types

The four number types, and `ValueType`, which also holds what a type byte can be besides: the mark
of a block without a result, and bytes that denote no type. Nothing but the decoder rules those out,
so a signature may hold them.
-/

namespace WasmCore

/-- The types of numbers. -/
inductive NumType where
  | i32 | i64 | f32 | f64
  deriving DecidableEq, Repr, Inhabited

/-- The name of a number type. -/
def NumType.name : NumType → String
  | .i32 => "i32"
  | .i64 => "i64"
  | .f32 => "f32"
  | .f64 => "f64"

/-- What a type byte denotes. -/
inductive ValueType where
  /-- A number. -/
  | num (type : NumType)
  /-- No value: the type of a block that yields nothing. -/
  | empty
  /-- A byte that denotes no type. -/
  | other (code : UInt8)
  deriving DecidableEq, Repr, Inhabited

namespace ValueType

/-- The type of 32-bit integers. -/
@[match_pattern] abbrev i32 : ValueType := .num .i32

/-- The type of 64-bit integers. -/
@[match_pattern] abbrev i64 : ValueType := .num .i64

/-- The type of single-precision floats. -/
@[match_pattern] abbrev f32 : ValueType := .num .f32

/-- The type of double-precision floats. -/
@[match_pattern] abbrev f64 : ValueType := .num .f64

/-- The type that a byte denotes. -/
def ofCode (code : UInt8) : ValueType :=
  if code = 0x7f then i32
  else if code = 0x7e then i64
  else if code = 0x7d then f32
  else if code = 0x7c then f64
  else if code = 0x40 then .empty
  else .other code

/-- The byte that denotes the type. -/
def code : ValueType → UInt8
  | i32 => 0x7f
  | i64 => 0x7e
  | f32 => 0x7d
  | f64 => 0x7c
  | .empty => 0x40
  | .other code => code

theorem code_ofCode (code : UInt8) : (ofCode code).code = code := by
  unfold ofCode
  repeat' split
  all_goals simp_all [ValueType.code]

/-- The type is one of the four number types. -/
def isNumeric : ValueType → Bool
  | .num _ => true
  | _ => false

/-- The text of a type in messages and signatures. -/
def text : ValueType → String
  | .num type => type.name
  | .empty => "nil"
  | .other code => if code = 0 then "nil" else "unknown(" ++ Text.marked code.toNat ++ ")"

end ValueType

/-- A function signature. -/
structure FunctionType where
  /-- Types of the parameters, in order. -/
  params : List ValueType
  /-- Types of the results, in order. -/
  results : List ValueType
  deriving DecidableEq, Repr, Inhabited

namespace FunctionType

/-- Types with commas between them. -/
def list (types : List ValueType) : String :=
  String.intercalate "," (types.map ValueType.text)

/-- The text of a signature. -/
def text (t : FunctionType) : String :=
  "(" ++ list t.params ++ ") -> (" ++ list t.results ++ ")"

end FunctionType

end WasmCore
