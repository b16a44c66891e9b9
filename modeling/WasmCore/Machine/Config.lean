import WasmCore.Machine.Body

/-!
# Configurations

A machine runs the functions of a store. Its configuration holds the world it changes, the calls in
progress, what it does now, and what waits for the answer to that. `Config.step` makes one step:
it executes one instruction, enters or leaves one call, or answers one request of a host function.

A configuration has halted when there is an answer and nothing waits for it; `Config.run` makes
steps until then. Traps unwind: every body between the fault and the start leaves its frame, and a
host function that made a call gets the trap as the answer to it.
-/

namespace WasmCore.Machine

/-! ### The world -/

/-- Where guests print. -/
structure Console where
  isOpen : Bool := true
  /-- Everything that was printed. -/
  text : String := ""
  deriving DecidableEq, Repr

/-- Everything that outlives a call. -/
structure World where
  store : Store
  console : Console := {}
  /-- Everything that was reported. -/
  events : Array Event := #[]

/-- Reports an event. -/
def World.report (w : World) (e : Event) : World := { w with events := w.events.push e }

/-! ### Configurations -/

/-- What happens when a body has been executed. -/
inductive Finish where
  /-- A function: exactly values of these types remain, which are its results. -/
  | results (types : List ValueType)
  /-- An expression: exactly one value remains. -/
  | single
  /-- An argument: the remaining ones follow, then a function is called. -/
  | arguments (rest : List (Array Instruction)) (f : FunctionAddr)
  /-- Nothing: the frame stays as it is. -/
  | stop

/-- The body has a frame of its own, which is left with it. -/
def Finish.ownsFrame : Finish → Bool
  | .stop => false
  | _ => true

/-- What the machine does. -/
inductive Now where
  /-- Executes a body in the current frame. -/
  | body (b : Body) (finish : Finish)
  /-- Calls a function with parameters from the current frame. -/
  | invoke (f : FunctionAddr)
  /-- Runs a host function of a type. -/
  | host (type : FunctionType) (p : HostProgram)
  /-- Has the results of a call, or its trap. -/
  | answer (r : Except Trap (List Value))
  /-- Cannot go on. -/
  | broken (d : Defect)

/-- What waits for the answer of a call. -/
inductive Waiting where
  /-- A body that made the call with the instruction at its position. -/
  | body (b : Body) (finish : Finish)
  /-- A frame that was only entered to make the call. -/
  | frame
  /-- A host function of a type. -/
  | host (type : FunctionType) (next : Except Trap (List Value) → HostProgram)

/-- The state of a machine. -/
structure Config where
  world : World
  stack : CallStack
  /-- The number of frames that the stack must not exceed. -/
  ceiling : Nat
  now : Now
  waiting : List Waiting := []

namespace Config

/-! ### Small steps -/

/-- Answers with a trap for a fault at this point. -/
def raise (c : Config) (f : Fault) : Config :=
  let t : Trap := ⟨f, c.stack.trace⟩
  { c with
    world := c.world.report (.trapRaised t.message t.trace.length)
    now := .answer (.error t) }

/-- Leaves the current frame. -/
def leave (c : Config) : Config :=
  match c.stack.leave? with
  | some s => { c with stack := s }
  | none => { c with now := .broken .noFrameToLeave }

/-- Leaves the current frame if the body that ends here owns it. -/
def leaveWith (c : Config) (finish : Finish) : Config := if finish.ownsFrame then c.leave else c

/-- Replaces the operand stack of the current frame. -/
def withValues (c : Config) (values : List Value) : Config :=
  { c with stack := c.stack.modifyCurrent fun f => { f with values } }

/-- Enters a frame and executes a body in it, unless the stack is at its ceiling. -/
def enter (c : Config) (f : Frame) (b : Body) (finish : Finish) : Config :=
  if c.ceiling ≤ c.stack.depth then c.raise .callStackOverflow
  else { c with stack := c.stack.enter f, now := .body b finish }

/-! ### Bodies -/

/-- The end of a body. -/
def finishBody (c : Config) (finish : Finish) : Config :=
  match finish with
  | .results types =>
    match Operands.popValues types c.stack.current.values with
    | .error f values => ((c.withValues values).raise f).leave
    | .ok results values =>
      let c := c.withValues values
      if values.isEmpty then { c with now := .answer (.ok results) }.leave
      else (c.raise .stackNotEmpty).leave
  | .single =>
    match Operands.pop c.stack.current.values with
    | .error f values => ((c.withValues values).raise f).leave
    | .ok v values =>
      let c := c.withValues values
      if values.isEmpty then { c with now := .answer (.ok [v]) }.leave
      else (c.raise .stackNotEmpty).leave
  | .arguments (code :: rest) f => { c with now := .body { code } (.arguments rest f) }
  | .arguments [] f => { c with now := .invoke f, waiting := .frame :: c.waiting }
  | .stop => { c with now := .answer (.ok []) }

/-- The handle of a function of the module of the current frame. -/
def callee? (c : Config) (index : UInt32) : Option FunctionAddr := do
  let m ← c.world.store.module? c.stack.current.location.module
  m.functions[index.toNat]?

/-- A call instruction of a body. -/
def callFrom (c : Config) (b : Body) (finish : Finish) (index : UInt32) : Config :=
  match c.callee? index with
  | some f => { c with now := .invoke f, waiting := .body b finish :: c.waiting }
  | none => (c.raise (.unknownFunctionIndex index.toNat)).leaveWith finish

/-- One instruction of a body, or its end. -/
def stepBody (c : Config) (b : Body) (finish : Finish) : Config :=
  match b.code[b.position]? with
  | none => c.finishBody finish
  | some i =>
    let ⟨⟨store, console, events⟩, ⟨frame, below, depth, h⟩, ceiling, now, waiting⟩ := c
    match b.step i ⟨store, frame⟩ with
    | .error stop ⟨store, frame⟩ =>
      let c : Config := ⟨⟨store, console, events⟩, ⟨frame, below, depth, h⟩, ceiling, now, waiting⟩
      match stop with
      | .fault f => (c.raise f).leaveWith finish
      | .defect d => { c with now := .broken d }
    | .ok move ⟨store, frame⟩ =>
      let c : Config := ⟨⟨store, console, events⟩, ⟨frame, below, depth, h⟩, ceiling, now, waiting⟩
      match move with
      | .proceed b => { c with now := .body b finish }
      | .leave => c.finishBody finish
      | .call index => c.callFrom b finish index

/-! ### Calls -/

/-- The locals at the start of a function. -/
def initialLocals (params : List Value) (types : List ValueType) : Array Value :=
  (params ++ types.map Value.zero).toArray

/-- Calls a function with parameters from the current frame. -/
def stepInvoke (c : Config) (f : FunctionAddr) : Config :=
  match c.world.store.function? f with
  | none => c.raise (.unknownFunction f)
  | some fn =>
    match Operands.popValues fn.type.params c.stack.current.values with
    | .error e values => (c.withValues values).raise e
    | .ok params values =>
      let c := c.withValues values
      match fn.body with
      | .host run => { c with now := .host fn.type (run params) }
      | .defined owner _ code =>
        c.enter { location := ⟨owner, some f⟩, locals := initialLocals params code.locals }
          { code := code.body, arity := some fn.type.results.length } (.results fn.type.results)

/-- What is wrong with the results of a host function, if anything is. -/
def resultFault? (type : FunctionType) (results : List Value) : Option Fault :=
  if results.length = type.results.length then
    (results.zip type.results).zipIdx.findSome? fun ((v, t), i) =>
      match v.check t with
      | .ok _ => none
      | .error e => some (.context ("host function result[" ++ toString i ++ "]") (.ofValueError e))
  else some (.hostResultCount type results.length)

/-- One request of a host function. -/
def stepHost (c : Config) (type : FunctionType) (p : HostProgram) : Config :=
  match p with
  | .done results =>
    match resultFault? type results with
    | none => { c with now := .answer (.ok results) }
    | some f => c.raise f
  | .fail (.fault f) => c.raise f
  | .fail (.trapped t) => { c with now := .answer (.error t) }
  | .callerModule next => { c with now := .host type (next c.stack.current.location.module) }
  | .callerMemory next =>
    let store := c.world.store
    let m := (store.firstMemory? c.stack.current.location.module).bind store.memory?
    { c with now := .host type (next m) }
  | .push v next =>
    { c with stack := c.stack.modifyCurrent (·.pushAll [v]), now := .host type next }
  | .invoke f next => { c with now := .invoke f, waiting := .host type next :: c.waiting }
  | .print text next =>
    let console := c.world.console
    if console.isOpen then
      { c with
        world := { c.world with console := { console with text := console.text ++ text } }
        now := .host type (next true) }
    else { c with now := .host type (next false) }
  | .report e next => { c with world := c.world.report e, now := .host type next }

/-- Gives an answer to what waits for it. -/
def stepAnswer (c : Config) (r : Except Trap (List Value)) (w : Waiting) (rest : List Waiting) :
    Config :=
  let c := { c with waiting := rest }
  match w with
  | .frame => c.leave
  | .host type next => { c with now := .host type (next r) }
  | .body b finish =>
    match r with
    | .ok results =>
      { c with stack := c.stack.modifyCurrent (·.pushAll results), now := .body b.next finish }
    | .error _ => c.leaveWith finish

/-! ### Runs -/

/-- The machine has an answer that nothing waits for, or cannot go on. -/
def isHalted (c : Config) : Bool :=
  match c.now with
  | .answer _ => c.waiting.isEmpty
  | .broken _ => true
  | _ => false

/-- One step; a halted machine stays as it is. -/
def step (c : Config) : Config :=
  match c.now with
  | .body b finish => c.stepBody b finish
  | .invoke f => c.stepInvoke f
  | .host type p => c.stepHost type p
  | .answer r =>
    match c.waiting with
    | [] => c
    | w :: rest => c.stepAnswer r w rest
  | .broken _ => c

/-- At most `fuel` steps. -/
def run : (fuel : Nat) → Config → Config
  | 0, c => c
  | fuel + 1, c => if c.isHalted then c else run fuel c.step

end Config

end WasmCore.Machine
