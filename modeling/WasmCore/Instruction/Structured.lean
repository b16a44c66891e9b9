import WasmCore.Instruction.Basic

/-!
# Structured code

Code as the text format shows it: constructs that contain their bodies. `Structured.flatten` lays it
out as a flat sequence, with the positions of every `else` and `end` filled in.
-/

namespace WasmCore

/-- A sequence of instructions and constructs, the first one outermost. -/
inductive Structured where
  /-- The empty sequence. -/
  | done
  /-- An instruction that opens or closes nothing. -/
  | plain (i : Instruction) (rest : Structured)
  /-- A block. -/
  | block (type : ValueType) (body rest : Structured)
  /-- A loop. -/
  | loop (type : ValueType) (body rest : Structured)
  /-- A conditional with one arm. -/
  | cond (type : ValueType) (arm rest : Structured)
  /-- A conditional with two arms. -/
  | condElse (type : ValueType) (arm other rest : Structured)
  deriving Repr, Inhabited

namespace Structured

/-- The number of instructions in the flat sequence. -/
def size : Structured → Nat
  | done => 0
  | plain _ rest => rest.size + 1
  | block _ body rest => body.size + rest.size + 2
  | loop _ body rest => body.size + rest.size + 2
  | cond _ arm rest => arm.size + rest.size + 2
  | condElse _ arm other rest => arm.size + other.size + rest.size + 3

/-- Appends the flat sequence to `code`, whose size is the position of its first instruction. -/
def flattenInto (code : Array Instruction) : Structured → Array Instruction
  | done => code
  | plain i rest => rest.flattenInto (code.push i)
  | block type body rest =>
    let endAt : Nat := code.size + 1 + body.size
    rest.flattenInto ((body.flattenInto (code.push (.block type endAt))).push .close)
  | loop type body rest =>
    let endAt : Nat := code.size + 1 + body.size
    rest.flattenInto ((body.flattenInto (code.push (.loop type endAt))).push .close)
  | cond type arm rest =>
    let endAt : Nat := code.size + 1 + arm.size
    rest.flattenInto ((arm.flattenInto (code.push (.cond type none endAt))).push .close)
  | condElse type arm other rest =>
    let elseAt : Nat := code.size + 1 + arm.size
    let endAt : Nat := elseAt + 1 + other.size
    let first := arm.flattenInto (code.push (.cond type (some (elseAt : Int)) endAt))
    let second := other.flattenInto (first.push .otherwise)
    rest.flattenInto (second.push .close)

/-- The flat sequence. -/
def flatten (s : Structured) : Array Instruction := s.flattenInto #[]

theorem size_flattenInto (s : Structured) (code : Array Instruction) :
    (s.flattenInto code).size = code.size + s.size := by
  induction s generalizing code <;> simp_all [flattenInto, size] <;> omega

end Structured

end WasmCore
