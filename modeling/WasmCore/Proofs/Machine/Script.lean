import WasmCore.Machine.Body

/-!
# Instructions as compositions

An instruction is composed of a few elementary effects: values are taken from the operand stack and
put on it, a local is read or replaced, a label or a branch target is picked, and a number is read
from memory or written there. `Operands.Script` and `Exec.Script` say how an effect is composed of
these, and `Body.script` says it of every instruction.

So what each elementary effect keeps is kept by all instructions: an induction over scripts has one
case for each of these effects, and none for an instruction.
-/

namespace WasmCore.Machine

/-! ### Operand stacks -/

/-- How an operation on an operand stack is composed of elementary ones. -/
inductive Operands.Script : {α : Type} → Operands α → Type 1
  | pure {α : Type} (a : α) : Script (Pure.pure a : Operands α)
  | throw {α : Type} (f : Fault) : Script (MonadExcept.throw f : Operands α)
  | bind {α β : Type} {x : Operands α} {k : α → Operands β} (sx : Script x)
    (sk : ∀ a, Script (k a)) : Script (x >>= k)
  | pop : Script Operands.pop
  | push (v : Value) : Script (Operands.push v)
  /-- The result of integer arithmetic is put on the stack, unless it fails. -/
  | arithmetic (op : IntBinary) (w : Width) (a b : UInt64) :
    Script (match op.evalBits w a b with
      | .ok v => Operands.pushBits w.intType v
      | .error e => throw (.ofIntegerFailure e))

namespace Operands.Script

def ite {α : Type} {x y : Operands α} {p : Prop} [d : Decidable p] (sx : Script x)
    (sy : Script y) : Script (if p then x else y) :=
  match d with
  | .isTrue _ => sx
  | .isFalse _ => sy

def popTyped (type : ValueType) : Script (Operands.popTyped type) :=
  .bind .pop fun v =>
    match v.check type with
    | .ok _ => .pure v
    | .error e => .throw (.ofValueError e)

def popI32 : Script Operands.popI32 := .bind (popTyped .i32) fun v => .pure v.bits.toUInt32

def popBits (type : NumType) : Script (Operands.popBits type) :=
  .bind (popTyped (.num type)) fun v => .pure v.bits

def popInt (w : Width) : Script (Operands.popInt w) :=
  .bind (popBits w.intType) fun a => .pure (BitVec.ofNat w.bits a.toNat)

def popFloat (w : Width) : Script (Operands.popFloat w) := popBits w.floatType

def pushBool (b : Bool) : Script (Operands.pushBool b) := .push _

def select : Script Exec.select :=
  .bind popI32 fun _ => .bind .pop fun upper => .bind (popTyped upper.type) fun _ => .push _

def effectiveAddress (offset : UInt32) : Script (Exec.effectiveAddress offset) :=
  .bind popI32 fun _ => ite (.pure _) (.throw _)

def numeric (op : NumericOp) : Script (Operands.numeric op) :=
  match op with
  | .eqz w => .bind (popBits w.intType) fun _ => pushBool _
  | .intCompare w _ =>
    .bind (popBits w.intType) fun _ => .bind (popBits w.intType) fun _ => pushBool _
  | .floatCompare w _ => .bind (popFloat w) fun _ => .bind (popFloat w) fun _ => pushBool _
  | .intUnary w _ => .bind (popInt w) fun _ => .push _
  | .intBinary w op =>
    .bind (popBits w.intType) fun b => .bind (popBits w.intType) fun a =>
      .arithmetic op w a b
  | .floatUnary w _ => .bind (popFloat w) fun _ => .push _
  | .floatBinary w _ => .bind (popFloat w) fun _ => .bind (popFloat w) fun _ => .push _
  | .wrap => .bind (popInt .w64) fun _ => .push _
  | .extend _ => .bind (popInt .w32) fun _ => .push _
  | .truncate target source s =>
    .bind (popFloat source) fun a =>
      match truncateToInt source.format s target.bits a.toNat with
      | .ok _ => .push _
      | .error f => .throw f
  | .convert _ source _ => .bind (popInt source) fun _ => .push _
  | .demote => .bind (popFloat .w64) fun _ => .push _
  | .promote => .bind (popFloat .w32) fun _ => .push _
  | .floatBits w => .bind (popFloat w) fun _ => .push _
  | .ofFloatBits w => .bind (popInt w) fun _ => .push _

end Operands.Script

/-! ### Instructions -/

/-- How the effect of an instruction is composed of elementary ones. Once the memory of the frame
has been looked up, it is `known`. -/
inductive Exec.Script : Option MemoryAddr → {α : Type} → Exec α → Type 1
  | pure {known : Option MemoryAddr} {α : Type} (a : α) : Script known (Pure.pure a : Exec α)
  | fault {known : Option MemoryAddr} {α : Type} (f : Fault) :
    Script known (Exec.fault f : Exec α)
  | bind {known : Option MemoryAddr} {α β : Type} {x : Exec α} {k : α → Exec β}
    (sx : Script known x) (sk : ∀ a, Script known (k a)) : Script known (x >>= k)
  | operands {known : Option MemoryAddr} {α : Type} {x : Operands α} (sx : Operands.Script x) :
    Script known (Exec.operands x)
  /-- The number of values on the operand stack. -/
  | height {known : Option MemoryAddr} : Script known Body.height
  /-- Values are dropped from the operand stack. -/
  | unwind {known : Option MemoryAddr} (height : Nat) (arity : Option Nat) :
    Script known (modify fun f => { f with frame := { f.frame with
      values := Machine.unwind height arity f.frame.values } } : Exec Unit)
  | getLocal {known : Option MemoryAddr} (index : UInt32) : Script known (Exec.getLocal index)
  | setLocal {known : Option MemoryAddr} (index : UInt32) : Script known (Exec.setLocal index)
  /-- What is done with the label that is `depth` labels out, with those outside of it, and with
  these and the label itself; or without such a label. -/
  | label {known : Option MemoryAddr} {α : Type} (labels : List Label) (depth : Nat) {x : Exec α}
    {k : Label → List Label → List Label → Exec α} (sx : Script known x)
    (sk : ∀ l outer entered, Script known (k l outer entered)) :
    Script known (match labels.drop depth with
      | [] => x
      | l :: outer => k l outer (l :: outer))
  /-- A branch target is picked. -/
  | target {known : Option MemoryAddr} (targets : List UInt32) (i fallback : UInt32) :
    Script known (Pure.pure (targets.getD i.toNat fallback) : Exec UInt32)
  /-- The memory of the frame is looked up. -/
  | memory {α : Type} {k : MemoryAddr → Exec α} (sk : ∀ a, Script (some a) (k a)) :
    Script none (Exec.memoryAddr >>= k)
  | pages (a : MemoryAddr) : Script (some a) (Exec.inspect a (·.pages))
  | read (a : MemoryAddr) (address width : Nat) :
    Script (some a) (Exec.inspect a (·.readNumber? address width))
  | write (a : MemoryAddr) (address width value : Nat) : Script (some a) (do
      if ← Exec.inspect a (·.hasLength address width) then
        Exec.modifyMemory a (·.setNumber address width value)
      else Exec.fault .outOfBounds)
  /-- The memory is extended if it can be; the result is put on the operand stack. -/
  | grow (a : MemoryAddr) (delta : Nat) : Script (some a) (do
      let limit := (← get).store.pageLimit
      let pages ← Exec.inspect a (·.pages)
      if ← Exec.inspect a (·.canGrow delta limit) then
        Exec.modifyMemory a (·.extended delta)
        Exec.operands (.pushI32 (.ofNat pages))
      else Exec.operands (.pushI32 0xffffffff))

namespace Exec.Script

def ite {known : Option MemoryAddr} {α : Type} {x y : Exec α} {p : Prop} [d : Decidable p]
    (sx : Script known x) (sy : Script known y) : Script known (if p then x else y) :=
  match d with
  | .isTrue _ => sx
  | .isFalse _ => sy

def load (op : LoadOp) (offset : UInt32) : Script none (Exec.load op offset) :=
  .memory fun a => .bind (.operands (.effectiveAddress offset)) fun address =>
    .bind (.read a address op.bytes) fun
      | some _ => .operands (.push _)
      | none => .fault .outOfBounds

def store (op : StoreOp) (offset : UInt32) : Script none (Exec.store op offset) :=
  .memory fun a => .bind (.operands (.popTyped (.num op.operand))) fun v =>
    .bind (.operands (.effectiveAddress offset)) fun address =>
      .write a address op.bytes v.bits.toNat

/-- An instruction that does not transfer control. -/
def plain (i : Instruction) : Script none (Exec.plain i) :=
  match i with
  | .drop => .bind (.operands .pop) fun _ => .pure ()
  | .select => .operands .select
  | .localGet index => .bind (.getLocal index) fun v => .operands (.push v)
  | .localSet index => .bind (.setLocal index) fun _ => .pure ()
  | .localTee index => .bind (.setLocal index) fun v => .operands (.push v)
  | .load op _ offset => load op offset
  | .store op _ offset => store op offset
  | .memorySize => .memory fun a => .bind (.pages a) fun _ => .operands (.push _)
  | .memoryGrow => .memory fun a => .bind (.operands .popI32) fun delta => .grow a delta.toNat
  | .const _ _ => .operands (.push _)
  | .numeric op => .operands (.numeric op)
  | .unreachable | .nop | .block .. | .loop .. | .cond .. | .otherwise | .close | .br _ | .brIf _
  | .brTable .. | .ret | .call _ | .callIndirect _ | .globalGet _ | .globalSet _ | .undefined _ =>
    .fault _

end Exec.Script

namespace Body

variable (b : Body)

/-- A branch. -/
def branchScript (depth : UInt32) : Exec.Script none (b.branch depth) :=
  .label (k := fun l outer entered => do
      modify fun f => { f with frame := { f.frame with
        values := unwind l.height (some (if l.isLoop then 0 else l.arity)) f.frame.values } }
      pure <|
        if l.isLoop then .proceed { b with position := l.start + 1, labels := entered }
        else { b with labels := outer }.jump (l.endAt + 1))
    b.labels depth.toNat (.bind (.unwind 0 b.arity) fun _ => .pure Move.leave)
    fun l _ _ => .bind (.unwind l.height _) fun _ => .pure _

/-- Leaving the innermost construct. -/
def closeScript : Exec.Script none (b.step .close) :=
  let left (labels : List Label) : Exec Move := pure (.proceed { b.next with labels })
  have h : (match b.labels.drop 0 with
      | [] => left []
      | _ :: outer => left outer) = b.step .close := by
    have hclose : b.step .close = left b.labels.tail := rfl
    rw [hclose, List.drop_zero]
    generalize b.labels = labels
    cases labels <;> rfl
  h ▸ .label (k := fun _ outer _ => left outer) b.labels 0 (.pure _) fun _ _ _ => .pure _

/-- How the effect of an instruction is composed. -/
def script (i : Instruction) : Exec.Script none (b.step i) :=
  match i with
  | .unreachable => .fault _
  | .nop => .pure _
  | .block .. => .bind .height fun _ => .pure _
  | .loop .. => .bind .height fun _ => .pure _
  | .cond _ elseAt _ =>
    .bind (.operands .popI32) fun _ => .bind .height fun _ =>
      .ite
        (match elseAt with
          | some _ => .pure _
          | none => .pure _)
        (.pure _)
  | .otherwise =>
    .label (k := fun l outer _ => pure ({ b with labels := outer }.jump (l.endAt + 1)))
      b.labels 0 (.fault (.strayElse b.position)) fun _ _ _ => .pure _
  | .close => b.closeScript
  | .br depth => b.branchScript depth
  | .brIf depth => .bind (.operands .popI32) fun _ => .ite (.pure _) (b.branchScript depth)
  | .brTable targets fallback =>
    .bind (.operands .popI32) fun i => .bind (.target targets i fallback) b.branchScript
  | .ret => .bind (.unwind 0 b.arity) fun _ => .pure Move.leave
  | .call _ => .pure _
  | .drop | .select | .localGet _ | .localSet _ | .localTee _ | .load .. | .store ..
  | .memorySize | .memoryGrow | .const .. | .numeric _ | .callIndirect _ | .globalGet _
  | .globalSet _ | .undefined _ => .bind (.plain _) fun _ => .pure _

end Body

end WasmCore.Machine
