import WasmCore.Binary.Decoder
import WasmCore.Instruction.Structured

/-!
# Expressions

An expression is a sequence of instructions up to the `end` that closes it. The decoder reads it as
structured code, so that every `else` and `end` has its construct, and then lays it out flat.
-/

namespace WasmCore.Binary

open Decoder

/-- A value type; only number types are accepted. -/
def valueType : Decoder ValueType := do
  let b ← within .valueType byte
  match ValueType.ofCode b with
  | .num t => pure (.num t)
  | _ => fail (.byte .valueType b)

/-- The result type of a construct: a number type or none. -/
def blockType : Decoder ValueType := do
  let b ← within .blockType byte
  match ValueType.ofCode b with
  | .num t => pure (.num t)
  | .empty => pure .empty
  | .other _ => fail (.byte .blockType b)

/-- A byte that has to be zero. -/
def reservedZero : Decoder Unit := do
  let b ← within .reserved byte
  if b = 0 then pure () else fail (.byte .reserved b)

/-- The labels of a branch table and its default. -/
def branchTable : Decoder Instruction.Immediates := do
  let n ← within .vectorSize u32
  fits .labels n.toNat
  let targets ← repeated n.toNat fun _ => within .label u32
  let fallback ← within .defaultLabel u32
  pure { targets := targets, index := fallback }

/-- The expected alignment and the offset of an access. -/
def accessImmediates : Decoder Instruction.Immediates := do
  let align ← within .align u32
  let offset ← within .offset u32
  pure { align := align, offset := offset }

/-- The immediates of the instruction with an opcode that was already read. -/
def immediates (code : UInt8) : Decoder Instruction.Immediates :=
  match Instruction.ofOpcode code {} with
  | .block .. | .loop .. | .cond .. => do
    pure { type := ← blockType }
  | .br _ | .brIf _ | .call _ | .localGet _ | .localSet _ | .localTee _ | .globalGet _
  | .globalSet _ => do
    pure { index := ← within .index u32 }
  | .brTable .. => branchTable
  | .callIndirect _ => do
    let index ← within .indirectType u32
    reservedZero
    pure { index := index }
  | .memorySize | .memoryGrow => do
    reservedZero
    pure {}
  | .const .i32 _ => do
    let v ← within .immediate (signed 32)
    pure { payload := (BitVec.ofInt 64 v).toNat.toUInt64 }
  | .const .i64 _ => do
    let v ← within .immediate (signed 64)
    pure { payload := (BitVec.ofInt 64 v).toNat.toUInt64 }
  | .const .f32 _ => do
    let bytes ← within .immediate (exactly 4)
    pure { payload := (ofLittleEndian bytes).toUInt64 }
  | .const .f64 _ => do
    let bytes ← within .immediate (exactly 8)
    pure { payload := (ofLittleEndian bytes).toUInt64 }
  | .load .. | .store .. => accessImmediates
  | .undefined _ => fail (.byte .opcode code)
  | _ => pure {}

/-- What closed a sequence. -/
inductive Closer where
  | byEnd | byElse
  deriving DecidableEq, Repr

/-- A sequence that was read, what closed it, and the position of that. -/
structure ClosedCode where
  code : Structured
  closer : Closer
  position : Nat

/-- Reads instructions from `position` on up to an `end`, or up to an `else` if `inArm` says that
the sequence is the first arm of a conditional. Every instruction takes a byte, so `fuel` bytes
suffice. -/
def structured : (fuel : Nat) → (position : Nat) → (inArm : Bool) → Decoder ClosedCode
  | 0, _, _ => fail (.within .opcode .endOfInput)
  | fuel + 1, position, inArm => do
    let code ← within .opcode byte
    match Instruction.ofOpcode code {} with
    | .close => pure ⟨.done, .byEnd, position⟩
    | .otherwise =>
      if inArm then pure ⟨.done, .byElse, position⟩
      else fail (.flaw (.elseWithoutIf position))
    | _ => do
      let imm ← within (.instruction code position) (immediates code)
      match Instruction.ofOpcode code imm with
      | .block type _ => do
        let body ← structured fuel (position + 1) false
        let rest ← structured fuel (body.position + 1) inArm
        pure { rest with code := .block type body.code rest.code }
      | .loop type _ => do
        let body ← structured fuel (position + 1) false
        let rest ← structured fuel (body.position + 1) inArm
        pure { rest with code := .loop type body.code rest.code }
      | .cond type _ _ => do
        let arm ← structured fuel (position + 1) true
        match arm.closer with
        | .byEnd => do
          let rest ← structured fuel (arm.position + 1) inArm
          pure { rest with code := .cond type arm.code rest.code }
        | .byElse => do
          let other ← structured fuel (arm.position + 1) false
          let rest ← structured fuel (other.position + 1) inArm
          pure { rest with code := .condElse type arm.code other.code rest.code }
      | i => do
        let rest ← structured fuel (position + 1) inArm
        pure { rest with code := .plain i rest.code }

/-- An expression, without its closing `end`. -/
def expression : Decoder (Array Instruction) := do
  let fuel ← remaining
  let read ← structured fuel 0 false
  pure read.code.flatten

end WasmCore.Binary
