import WasmCore.Event
import WasmCore.Memory
import WasmCore.Trap.Basic

/-!
# Host programs

A host function is implemented outside of any module. What it does with the machine that calls it is
a `HostProgram`: a tree of requests, each with what follows for every answer. A host program sees
its caller only through these requests, so it can neither change the store nor leave frames behind.
Where a host function has a state of its own or changes the store, that is a change of the world by
others, between two steps of the machine.
-/

namespace WasmCore

/-- How a host function fails. -/
inductive HostFailure where
  /-- With a fault of its own. -/
  | fault (f : Fault)
  /-- With a trap it got from a call; words put around it change nothing. -/
  | trapped (t : Trap)
  deriving DecidableEq, Repr

/-- What a host function does. -/
inductive HostProgram where
  /-- Returns results. -/
  | done (results : List Value)
  /-- Fails. -/
  | fail (failure : HostFailure)
  /-- Asks for the module whose code made the call. -/
  | callerModule (next : ModuleAddr → HostProgram)
  /-- Asks for the first memory of that module, if it has one. -/
  | callerMemory (next : Option Memory → HostProgram)
  /-- Puts a value on the operand stack of the caller. -/
  | push (v : Value) (next : HostProgram)
  /-- Calls a function, whose parameters are taken from the operand stack of the caller. -/
  | invoke (f : FunctionAddr) (next : Except Trap (List Value) → HostProgram)
  /-- Writes to the console; the answer tells whether the console was open. -/
  | print (text : String) (next : Bool → HostProgram)
  /-- Reports an event. -/
  | report (e : Event) (next : HostProgram)

end WasmCore
