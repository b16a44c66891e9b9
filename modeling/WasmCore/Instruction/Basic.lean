import WasmCore.Instruction.Access

/-!
# Instructions

A function body is a flat sequence of instructions. `block`, `loop` and `if` hold the positions of
their `else` and `end` in that sequence, so that a branch need not search for them. The decoder
resolves these positions, but a sequence made in another way may hold any: positions are integers,
and one before the start of the sequence leaves it.

The closing `end` of a body is not part of it.
-/

namespace WasmCore

/-- One instruction with its immediates. -/
inductive Instruction where
  /-- Traps. -/
  | unreachable
  /-- Does nothing. -/
  | nop
  /-- Opens a block that ends at `endAt`. -/
  | block (type : ValueType) (endAt : Int)
  /-- Opens a loop that ends at `endAt`. -/
  | loop (type : ValueType) (endAt : Int)
  /-- Pops a condition and opens the arm it selects. -/
  | cond (type : ValueType) (elseAt : Option Int) (endAt : Int)
  /-- Separates the arms of a conditional. -/
  | otherwise
  /-- Closes a block, loop or conditional. -/
  | close
  /-- Leaves `depth` enclosing constructs and continues at the label of the next. -/
  | br (depth : UInt32)
  /-- Branches if the popped condition is not zero. -/
  | brIf (depth : UInt32)
  /-- Branches to the popped index of `targets`, or to `fallback` beyond them. -/
  | brTable (targets : List UInt32) (fallback : UInt32)
  /-- Leaves the body. -/
  | ret
  /-- Calls a function of the module. -/
  | call (function : UInt32)
  /-- Calls through a table, which no machine of this library has. -/
  | callIndirect (type : UInt32)
  /-- Removes a value. -/
  | drop
  /-- Keeps one of two values. -/
  | select
  | localGet (index : UInt32)
  | localSet (index : UInt32)
  | localTee (index : UInt32)
  | globalGet (index : UInt32)
  | globalSet (index : UInt32)
  /-- Reads memory at a popped address plus `offset`. -/
  | load (op : LoadOp) (align offset : UInt32)
  /-- Writes memory at a popped address plus `offset`. -/
  | store (op : StoreOp) (align offset : UInt32)
  /-- Pushes the number of pages. -/
  | memorySize
  /-- Adds pages and pushes their former number. -/
  | memoryGrow
  /-- Pushes the low bits of `payload` as a number. -/
  | const (type : NumType) (payload : UInt64)
  /-- Computes. -/
  | numeric (op : NumericOp)
  /-- A byte that is no opcode. -/
  | undefined (code : UInt8)
  deriving DecidableEq, Repr, Inhabited

namespace Instruction

/-- The name of an instruction, or the opcode of one that has none. -/
def name : Instruction → String
  | unreachable => "unreachable"
  | nop => "nop"
  | block _ _ => "block"
  | loop _ _ => "loop"
  | cond _ _ _ => "if"
  | otherwise => "else"
  | close => "end"
  | br _ => "br"
  | brIf _ => "br_if"
  | brTable _ _ => "br_table"
  | ret => "return"
  | call _ => "call"
  | callIndirect _ => "call_indirect"
  | drop => "drop"
  | select => "select"
  | localGet _ => "local.get"
  | localSet _ => "local.set"
  | localTee _ => "local.tee"
  | globalGet _ => "global.get"
  | globalSet _ => "global.set"
  | load op _ _ => op.name
  | store op _ _ => op.name
  | memorySize => "memory.size"
  | memoryGrow => "memory.grow"
  | const type _ => type.name ++ ".const"
  | numeric op => op.name
  | undefined code => "0x" ++ Text.hex 2 code.toNat

/-- The text of a constant: integers as signed numbers, floats by their bits. -/
def constText (type : NumType) (payload : UInt64) : String :=
  match type with
  | .i32 => toString payload.toUInt32.toBitVec.toInt
  | .i64 => toString payload.toBitVec.toInt
  | .f32 | .f64 => Text.marked payload.toNat

/-- The name followed by the principal immediate, if there is one. -/
def text (i : Instruction) : String :=
  match i with
  | const type payload => i.name ++ " " ++ constText type payload
  | localGet n | localSet n | localTee n | globalGet n | globalSet n
  | call n | callIndirect n | br n | brIf n => i.name ++ " " ++ toString n.toNat
  | _ => i.name

/-! ### Opcodes -/

/-- The byte that starts the encoding of an instruction. -/
def opcode : Instruction → UInt8
  | unreachable => 0x00
  | nop => 0x01
  | block _ _ => 0x02
  | loop _ _ => 0x03
  | cond _ _ _ => 0x04
  | otherwise => 0x05
  | close => 0x0b
  | br _ => 0x0c
  | brIf _ => 0x0d
  | brTable _ _ => 0x0e
  | ret => 0x0f
  | call _ => 0x10
  | callIndirect _ => 0x11
  | drop => 0x1a
  | select => 0x1b
  | localGet _ => 0x20
  | localSet _ => 0x21
  | localTee _ => 0x22
  | globalGet _ => 0x23
  | globalSet _ => 0x24
  | load op _ _ => .ofNat (LoadOp.firstOpcode + LoadOp.all.idxOf op)
  | store op _ _ => .ofNat (StoreOp.firstOpcode + StoreOp.all.idxOf op)
  | memorySize => 0x3f
  | memoryGrow => 0x40
  | const .i32 _ => 0x41
  | const .i64 _ => 0x42
  | const .f32 _ => 0x43
  | const .f64 _ => 0x44
  | numeric op => .ofNat (NumericOp.firstOpcode + NumericOp.all.idxOf op)
  | undefined code => code

/-- All the immediates that some instruction has; each takes those that belong to it. -/
structure Immediates where
  /-- A label, a local, a global, a function or a type. -/
  index : UInt32 := 0
  /-- The payload of a constant. -/
  payload : UInt64 := 0
  /-- The result type of a construct. -/
  type : ValueType := .empty
  /-- The expected alignment of an access. -/
  align : UInt32 := 0
  /-- The distance of an access from its address. -/
  offset : UInt32 := 0
  /-- The labels of a branch table. -/
  targets : List UInt32 := []
  /-- The position of the second arm. -/
  elseAt : Option Int := none
  /-- The position of the end. -/
  endAt : Int := 0

/-- The entry of a table whose first opcode is `first`. -/
def lookup? {α : Type} (table : List α) (first : Nat) (code : UInt8) : Option α :=
  if first ≤ code.toNat then table[code.toNat - first]? else none

/-- The load, store or numeric instruction with an opcode, if it is one of those. -/
def ofTables? (code : UInt8) (imm : Immediates) : Option Instruction :=
  match lookup? LoadOp.all LoadOp.firstOpcode code with
  | some op => some (load op imm.align imm.offset)
  | none =>
    match lookup? StoreOp.all StoreOp.firstOpcode code with
    | some op => some (store op imm.align imm.offset)
    | none => (lookup? NumericOp.all NumericOp.firstOpcode code).map numeric

/-- The instruction with an opcode and those of the immediates that it has. -/
def ofOpcode (code : UInt8) (imm : Immediates) : Instruction :=
  match code.toNat with
  | 0x00 => unreachable
  | 0x01 => nop
  | 0x02 => block imm.type imm.endAt
  | 0x03 => loop imm.type imm.endAt
  | 0x04 => cond imm.type imm.elseAt imm.endAt
  | 0x05 => otherwise
  | 0x0b => close
  | 0x0c => br imm.index
  | 0x0d => brIf imm.index
  | 0x0e => brTable imm.targets imm.index
  | 0x0f => ret
  | 0x10 => call imm.index
  | 0x11 => callIndirect imm.index
  | 0x1a => drop
  | 0x1b => select
  | 0x20 => localGet imm.index
  | 0x21 => localSet imm.index
  | 0x22 => localTee imm.index
  | 0x23 => globalGet imm.index
  | 0x24 => globalSet imm.index
  | 0x3f => memorySize
  | 0x40 => memoryGrow
  | 0x41 => const .i32 imm.payload
  | 0x42 => const .i64 imm.payload
  | 0x43 => const .f32 imm.payload
  | 0x44 => const .f64 imm.payload
  | _ => (ofTables? code imm).getD (undefined code)

/-- Opcodes that the binary format defines. -/
def isDefined (code : UInt8) : Bool :=
  match ofOpcode code {} with
  | undefined _ => false
  | _ => true

/-- The name of the instruction with an opcode. -/
def nameOf (code : UInt8) : String := (ofOpcode code {}).name

end Instruction

end WasmCore
