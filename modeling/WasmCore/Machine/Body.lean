import WasmCore.Machine.Execute

/-!
# Bodies

A body is a flat sequence of instructions, a position in it, and the labels of the constructs that
have been entered. `Body.step` executes the instruction at the position.
-/

namespace WasmCore.Machine

/-- An entered block, loop or conditional. -/
structure Label where
  /-- The position of the instruction that opened it. -/
  start : Nat
  /-- The position of its `end`. -/
  endAt : Int
  /-- The number of values below it. -/
  height : Nat
  /-- The number of values that a branch out of it keeps. -/
  arity : Nat
  /-- A branch continues at the start rather than after the end. -/
  isLoop : Bool
  deriving DecidableEq, Repr

/-- A sequence of instructions that is being executed. -/
structure Body where
  code : Array Instruction
  /-- The position of the next instruction. -/
  position : Nat := 0
  /-- The entered constructs, innermost first. -/
  labels : List Label := []
  /-- The number of values that a return keeps; all of them if there is none. -/
  arity : Option Nat := none
  deriving DecidableEq, Repr

/-- What an instruction makes of its body. -/
inductive Move where
  /-- The body goes on. -/
  | proceed (body : Body)
  /-- The body is left. -/
  | leave
  /-- A function of the module is called; the body goes on after this instruction. -/
  | call (function : UInt32)
  deriving DecidableEq, Repr

/-- The number of values that a construct of a type yields. -/
def blockArity (type : ValueType) : Nat := if type.isNumeric then 1 else 0

namespace Body

variable (b : Body)

/-- The body at the next instruction. -/
def next : Body := { b with position := b.position + 1 }

/-- The body at a position; one before the start leaves it. -/
def jump (position : Int) : Move :=
  if 0 ≤ position then .proceed { b with position := position.toNat } else .leave

/-- The label of a construct that is entered at this instruction. -/
def label (type : ValueType) (endAt : Int) (height : Nat) (isLoop : Bool) : Label :=
  ⟨b.position, endAt, height, blockArity type, isLoop⟩

/-- The body inside of a construct. -/
def within (l : Label) : Body := { b with labels := l :: b.labels }

/-- Leaves `depth` constructs and continues at the label of the next; beyond the outermost one the
body is left as by a return. -/
def branch (depth : UInt32) : Exec Move := do
  match b.labels.drop depth.toNat with
  | [] =>
    modify fun f => { f with frame := { f.frame with values := unwind 0 b.arity f.frame.values } }
    pure .leave
  | l :: outer =>
    let kept := if l.isLoop then 0 else l.arity
    modify fun f => { f with frame := { f.frame with
      values := unwind l.height (some kept) f.frame.values } }
    pure <|
      if l.isLoop then .proceed { b with position := l.start + 1, labels := l :: outer }
      else { b with labels := outer }.jump (l.endAt + 1)

/-- The number of values on the operand stack. -/
def height : Exec Nat := do pure (← get).frame.values.length

/-- Executes the instruction `i`, which is the one at the position. -/
def step (i : Instruction) : Exec Move :=
  match i with
  | .unreachable => Exec.fault .unreachable
  | .nop => pure (.proceed b.next)
  | .block type endAt => do
    pure (.proceed (b.within (b.label type endAt (← height) false)).next)
  | .loop type endAt => do
    pure (.proceed (b.within (b.label type endAt (← height) true)).next)
  | .cond type elseAt endAt => do
    let c ← Exec.operands .popI32
    let l := b.label type endAt (← height) false
    if c = 0 then
      match elseAt with
      | some position => pure ((b.within l).jump (position + 1))
      | none => pure (b.jump (endAt + 1))
    else pure (.proceed (b.within l).next)
  | .otherwise =>
    match b.labels with
    | [] => Exec.fault (.strayElse b.position)
    | l :: outer => pure ({ b with labels := outer }.jump (l.endAt + 1))
  | .close => pure (.proceed { b.next with labels := b.labels.tail })
  | .br depth => b.branch depth
  | .brIf depth => do
    let c ← Exec.operands .popI32
    if c = 0 then pure (.proceed b.next) else b.branch depth
  | .brTable targets fallback => do
    let i ← Exec.operands .popI32
    b.branch (targets.getD i.toNat fallback)
  | .ret => do
    modify fun f => { f with frame := { f.frame with values := unwind 0 b.arity f.frame.values } }
    pure .leave
  | .call function => pure (.call function)
  | i => do
    Exec.plain i
    pure (.proceed b.next)

end Body

end WasmCore.Machine
