import WasmCore.Instruction.Numeric
import WasmCore.Trap.Fault

/-!
# Operand stacks

The values that instructions take and leave, the top one first. An operation that fails keeps what
it has popped so far removed.
-/

namespace WasmCore.Machine

/-- An operation on an operand stack. -/
abbrev Operands := EStateM Fault (List Value)

namespace Operands

/-- Puts a value on top; the placeholder is dropped. -/
@[inline] def push (v : Value) : Operands Unit := fun stack =>
  .ok () (if v.isNil then stack else v :: stack)

/-- Takes the top value. -/
@[inline] def pop : Operands Value
  | [] => .error .stackUnderflow []
  | v :: rest => .ok v rest

/-- Takes the top value, which must have the given type. -/
@[inline] def popTyped (type : ValueType) : Operands Value := do
  let v ← pop
  match v.check type with
  | .ok _ => pure v
  | .error e => throw (.ofValueError e)

/-- Takes one value per type, the last one from the top. -/
def popValues (types : List ValueType) : Operands (List Value) :=
  types.foldrM (fun type taken => do
    let v ← popTyped type
    pure (v :: taken)) []

/-- Takes a 32-bit integer. -/
@[inline] def popI32 : Operands UInt32 := do
  let v ← popTyped .i32
  pure v.bits.toUInt32

/-- Puts a 32-bit integer on top. -/
@[inline] def pushI32 (n : UInt32) : Operands Unit := push (.i32 n)

/-- Puts a truth value on top. -/
@[inline] def pushBool (b : Bool) : Operands Unit := pushI32 (if b then 1 else 0)

end Operands

/-- Drops the values above `height`, except the top `arity` of them. Without an arity all stay. -/
def unwind (height : Nat) (arity : Option Nat) (stack : List Value) : List Value :=
  match arity with
  | none => stack
  | some k =>
    let above := stack.length - height
    stack.take (min k above) ++ stack.drop above

end WasmCore.Machine
