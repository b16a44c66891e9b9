import WasmCore.Machine.Frame
import WasmCore.Machine.Numeric

/-!
# Plain instructions

Execution of the instructions that do not transfer control: they change the operand stack and the
locals of the current frame, and the first memory of its module.
-/

namespace WasmCore.Machine

/-- Something that never happens in a machine over a store built by linking. -/
inductive Defect where
  /-- The bottom frame was to be left. -/
  | noFrameToLeave
  /-- A handle denotes nothing. -/
  | missingInstance
  deriving DecidableEq, Repr

/-- The defect in words. -/
def Defect.message : Defect → String
  | .noFrameToLeave => "BUG: there is no frame to exit"
  | .missingInstance => "runtime error"

/-- Why an instruction was not completed. -/
inductive Stop where
  | fault (f : Fault)
  | defect (d : Defect)
  deriving DecidableEq, Repr

/-- What an instruction sees: the store and the current frame. -/
structure Focus where
  store : Store
  frame : Frame

/-- The effect of an instruction; what it has done stays done if it stops. -/
abbrev Exec := EStateM Stop Focus

namespace Exec

variable {α : Type}

/-- Stops with a fault. -/
@[inline] def fault (f : Fault) : Exec α := throw (.fault f)

/-- Works on the operand stack. -/
@[inline] def operands (x : Operands α) : Exec α := fun ⟨store, location, values, locals⟩ =>
  match x values with
  | .ok a values => .ok a ⟨store, location, values, locals⟩
  | .error f values => .error (.fault f) ⟨store, location, values, locals⟩

/-! ### Locals -/

/-- The local with an index. -/
@[inline] def getLocal (index : UInt32) : Exec Value := do
  match (← get).frame.locals[index.toNat]? with
  | some v => pure v
  | none => fault (.unknownLocal index.toNat)

/-- Takes a value of the type of a local and puts it there. -/
@[inline] def setLocal (index : UInt32) : Exec Value := do
  let old ← getLocal index
  let v ← operands (.popTyped old.type)
  modify fun f => { f with frame := { f.frame with
    locals := f.frame.locals.setIfInBounds index.toNat v } }
  pure v

/-! ### Memory -/

/-- The handle of the memory that instructions of the frame work on. -/
@[inline] def memoryAddr : Exec MemoryAddr := do
  let f ← get
  match f.store.firstMemory? f.frame.location.module with
  | some a => pure a
  | none => fault .noMemory

/-- What `look` finds in a memory. -/
@[inline] def inspect (a : MemoryAddr) (look : Memory → α) : Exec α := do
  match (← get).store.memory? a with
  | some m => pure (look m)
  | none => throw (.defect .missingInstance)

/-- Changes a memory. -/
@[inline] def modifyMemory (a : MemoryAddr) (change : Memory → Memory) : Exec Unit :=
  modify fun f => { f with store := f.store.modifyMemory a change }

/-- Takes an address and adds an offset; the sum must not exceed 32 bits. -/
def effectiveAddress (offset : UInt32) : Operands Nat := do
  let base ← Operands.popI32
  let address := base.toNat + offset.toNat
  if address < 2 ^ 32 then pure address else throw .outOfBounds

/-- The value that a load makes of the number it has read. -/
def loaded (op : LoadOp) (n : Nat) : Value :=
  match op.signedness with
  | .unsigned => .ofNumBits op.result (.ofNat n)
  | .signed =>
    let v := (BitVec.ofNat (8 * op.bytes) n).toInt
    .ofNumBits op.result (.ofBitVec (.ofInt 64 v))

/-- Executes a load. -/
def load (op : LoadOp) (offset : UInt32) : Exec Unit := do
  let a ← memoryAddr
  let address ← operands (effectiveAddress offset)
  match ← inspect a (·.readNumber? address op.bytes) with
  | some n => operands (.push (loaded op n))
  | none => fault .outOfBounds

/-- Executes a store. -/
def store (op : StoreOp) (offset : UInt32) : Exec Unit := do
  let a ← memoryAddr
  let v ← operands (.popTyped (.num op.operand))
  let address ← operands (effectiveAddress offset)
  if ← inspect a (·.hasLength address op.bytes) then
    modifyMemory a (·.setNumber address op.bytes v.bits.toNat)
  else fault .outOfBounds

/-- Executes `memory.grow`. -/
def growMemory : Exec Unit := do
  let a ← memoryAddr
  let delta ← operands .popI32
  let limit := (← get).store.pageLimit
  let pages ← inspect a (·.pages)
  if ← inspect a (·.canGrow delta.toNat limit) then
    modifyMemory a (·.extended delta.toNat)
    operands (.pushI32 (.ofNat pages))
  else operands (.pushI32 0xffffffff)

/-! ### Instructions -/

/-- Keeps the lower of two values if the condition on top is not zero, else the upper one. -/
def select : Operands Unit := do
  let c ← Operands.popI32
  let upper ← Operands.pop
  let lower ← Operands.popTyped upper.type
  Operands.push (if c = 0 then upper else lower)

/-- Executes an instruction that does not transfer control. -/
def plain (i : Instruction) : Exec Unit :=
  match i with
  | .drop => do
    let _ ← operands .pop
  | .select => operands select
  | .localGet index => do
    let v ← getLocal index
    operands (.push v)
  | .localSet index => do
    let _ ← setLocal index
  | .localTee index => do
    let v ← setLocal index
    operands (.push v)
  | .load op _ offset => load op offset
  | .store op _ offset => store op offset
  | .memorySize => do
    let a ← memoryAddr
    let pages ← inspect a (·.pages)
    operands (.pushI32 (.ofNat pages))
  | .memoryGrow => growMemory
  | .const type payload => operands (.push (.ofNumBits type payload))
  | .numeric op => operands (.numeric op)
  | _ => fault (.unsupported i.name)

end Exec

end WasmCore.Machine
