import WasmCore.Machine.Config

/-!
# Threads

A thread is a call stack with a ceiling. It evaluates expressions, calls functions and executes code
against its current frame. Every run takes `fuel`, the number of steps it may make; a run that needs
more ends as `Outcome.outOfFuel`.
-/

namespace WasmCore.Machine

/-- The ceiling of threads that ask for none. -/
def defaultCeiling : Nat := 2000

/-- A call stack that runs functions. -/
structure Thread where
  stack : CallStack
  /-- The number of frames that the stack must not exceed. -/
  ceiling : Nat
  deriving DecidableEq, Repr

/-- How a run ends. -/
inductive Outcome where
  | values (results : List Value)
  | trap (t : Trap)
  /-- The machine could not go on. -/
  | broken (d : Defect)
  /-- The run needs more steps. -/
  | outOfFuel
  deriving DecidableEq, Repr

/-- What a run leaves behind. -/
structure Ran where
  world : World
  thread : Thread
  outcome : Outcome

/-- How a configuration has ended. -/
def Config.outcome (c : Config) : Outcome :=
  match c.now, c.waiting with
  | .answer (.ok results), [] => .values results
  | .answer (.error t), [] => .trap t
  | .broken d, _ => .broken d
  | _, _ => .outOfFuel

namespace Thread

/-- A thread whose bottom frame is in a module. A ceiling below one is the default ceiling. -/
def new (a : ModuleAddr) (ceiling : Int) : Thread where
  stack := .ofModule a
  ceiling := if ceiling < 1 then defaultCeiling else ceiling.toNat

variable (t : Thread) (w : World)

/-- The machine of a thread that is about to do something. -/
def config (now : Now) : Config := { world := w, stack := t.stack, ceiling := t.ceiling, now }

/-- Runs a machine of this thread. -/
def finish (fuel : Nat) (c : Config) : Ran :=
  let c := c.run fuel
  ⟨c.world, { t with stack := c.stack }, c.outcome⟩

/-- The machine that evaluates an expression in a new frame of a module. -/
def evalConfig (a : ModuleAddr) (code : Array Instruction) : Config :=
  (t.config w (.answer (.ok []))).enter { location := ⟨a, none⟩ } { code } .single

/-- Evaluates an expression in a new frame of a module. It must leave exactly one value. -/
def eval (fuel : Nat) (a : ModuleAddr) (code : Array Instruction) : Ran :=
  t.finish fuel (t.evalConfig w a code)

/-- The machine that evaluates arguments in a new frame of a module and calls a function. -/
def callConfig (a : ModuleAddr) (f : FunctionAddr) (arguments : List (Array Instruction)) :
    Config :=
  (t.config w (.answer (.ok []))).enter { location := ⟨a, none⟩ } { code := #[] }
    (.arguments arguments f)

/-- Evaluates arguments, first to last, in a new frame of a module, and calls a function with them.
-/
def call (fuel : Nat) (a : ModuleAddr) (f : FunctionAddr) (arguments : List (Array Instruction)) :
    Ran :=
  t.finish fuel (t.callConfig w a f arguments)

/-- Calls a function with parameters from the current frame. -/
def invoke (fuel : Nat) (f : FunctionAddr) : Ran := t.finish fuel (t.config w (.invoke f))

/-- Executes code against the current frame. A return keeps as many values as the function of the
frame has results. -/
def exec (fuel : Nat) (code : Array Instruction) : Ran :=
  match t.stack.current.location.function with
  | none => t.finish fuel (t.config w (.body { code } .stop))
  | some f =>
    match w.store.function? f with
    | none => ⟨w, t, .broken .missingInstance⟩
    | some fn =>
      t.finish fuel (t.config w (.body { code, arity := some fn.type.results.length } .stop))

/-- Raises a trap at this point. -/
def throw (f : Fault) : Ran := t.finish 0 ((t.config w (.answer (.ok []))).raise f)

/-- Puts a value on the current operand stack; the placeholder is dropped. -/
def push (v : Value) : Thread :=
  { t with stack := t.stack.modifyCurrent (·.pushAll [v]) }

/-- Takes the top of the current operand stack. -/
def pop : Ran :=
  match Operands.pop t.stack.current.values with
  | .ok v values =>
    ⟨w, { t with stack := t.stack.modifyCurrent fun f => { f with values } }, .values [v]⟩
  | .error f _ => t.throw w f

/-- Enters a frame, whatever the ceiling. -/
def enter (location : Location) (locals : List Value) : Thread :=
  { t with stack := t.stack.enter { location, locals := locals.toArray } }

/-- Leaves the current frame. -/
def leave : Except Defect Thread :=
  match t.stack.leave? with
  | some s => .ok { t with stack := s }
  | none => .error .noFrameToLeave

/-- A local of the current frame. -/
def local? (index : Nat) : Option Value := t.stack.current.locals[index]?

end Thread

end WasmCore.Machine
