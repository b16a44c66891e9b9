import WasmCore.Instruction.Numeric

/-!
# Memory access instructions

The loads and stores: which type they move and how many bytes. As with the numeric instructions
their opcodes are consecutive, and `LoadOp.all` and `StoreOp.all` list them in that order.
-/

namespace WasmCore

/-- A load instruction. -/
inductive LoadOp where
  /-- A whole number. -/
  | full (type : NumType)
  /-- One byte, extended to an integer. -/
  | byte (target : Width) (s : Signedness)
  /-- Two bytes, extended to an integer. -/
  | half (target : Width) (s : Signedness)
  /-- Four bytes, extended to a 64-bit integer. -/
  | word (s : Signedness)
  deriving DecidableEq, Repr

/-- A store instruction. -/
inductive StoreOp where
  /-- A whole number. -/
  | full (type : NumType)
  /-- The low byte of an integer. -/
  | byte (source : Width)
  /-- The low two bytes of an integer. -/
  | half (source : Width)
  /-- The low four bytes of a 64-bit integer. -/
  | word
  deriving DecidableEq, Repr

/-- The number of bytes that a number of the type takes. -/
def NumType.bytes : NumType → Nat
  | .i32 => 4
  | .i64 => 8
  | .f32 => 4
  | .f64 => 8

namespace LoadOp

/-- The opcode of the first load. -/
def firstOpcode : Nat := 0x28

/-- Every load, in the order of their opcodes. -/
def all : List LoadOp :=
  [.full .i32, .full .i64, .full .f32, .full .f64,
    .byte .w32 .signed, .byte .w32 .unsigned, .half .w32 .signed, .half .w32 .unsigned,
    .byte .w64 .signed, .byte .w64 .unsigned, .half .w64 .signed, .half .w64 .unsigned,
    .word .signed, .word .unsigned]

/-- The number of bytes that are read. -/
def bytes : LoadOp → Nat
  | .full type => type.bytes
  | .byte _ _ => 1
  | .half _ _ => 2
  | .word _ => 4

/-- The type of the value that is pushed. -/
def result : LoadOp → NumType
  | .full type => type
  | .byte target _ => target.intType
  | .half target _ => target.intType
  | .word _ => .i64

/-- How the bytes are extended to the result. -/
def signedness : LoadOp → Signedness
  | .full _ => .unsigned
  | .byte _ s => s
  | .half _ s => s
  | .word s => s

/-- The name of a load. -/
def name : LoadOp → String
  | .full type => type.name ++ ".load"
  | .byte target s => target.intType.name ++ ".load8" ++ s.suffix
  | .half target s => target.intType.name ++ ".load16" ++ s.suffix
  | .word s => "i64.load32" ++ s.suffix

end LoadOp

namespace StoreOp

/-- The opcode of the first store. -/
def firstOpcode : Nat := 0x36

/-- Every store, in the order of their opcodes. -/
def all : List StoreOp :=
  [.full .i32, .full .i64, .full .f32, .full .f64,
    .byte .w32, .half .w32, .byte .w64, .half .w64, .word]

/-- The number of bytes that are written. -/
def bytes : StoreOp → Nat
  | .full type => type.bytes
  | .byte _ => 1
  | .half _ => 2
  | .word => 4

/-- The type of the value that is popped. -/
def operand : StoreOp → NumType
  | .full type => type
  | .byte source => source.intType
  | .half source => source.intType
  | .word => .i64

/-- The name of a store. -/
def name : StoreOp → String
  | .full type => type.name ++ ".store"
  | .byte source => source.intType.name ++ ".store8"
  | .half source => source.intType.name ++ ".store16"
  | .word => "i64.store32"

end StoreOp

end WasmCore
