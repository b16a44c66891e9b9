import WasmCore.Host.Program

/-!
# Ready-made host functions

Small host functions for hosts that need no code of their own: they return, fail, or call back.
-/

namespace WasmCore.Host

/-- A host function: what it does with its parameters. -/
abbrev Function := List Value → HostProgram

/-- Returns the parameters. -/
def echo : Function := fun params => .done params

/-- Returns the parameters, last one first. -/
def reversed : Function := fun params => .done params.reverse

/-- Returns the same values always. -/
def constant (values : List Value) : Function := fun _ => .done values

/-- Fails always. -/
def failing (f : Fault) : Function := fun _ => .fail (.fault f)

/-- Returns the handle of the calling module. -/
def callerHandle : Function := fun _ =>
  .callerModule fun a => .done [.i32 (.ofNat a.index)]

/-- Puts values on the operand stack of the caller, the last one on top. -/
def pushing : List Value → HostProgram → HostProgram
  | [], next => next
  | v :: vs, next => .push v (pushing vs next)

/-- Puts values on the operand stack of the caller and returns nothing. -/
def pushes (values : List Value) : Function := fun _ => pushing values (.done [])

/-- Puts values and its parameters on the operand stack of the caller and calls a function;
`recover` says what to return for a trap, if it is not passed on. -/
def relay (values : List Value) (f : FunctionAddr) (recover : Option (List Value)) : Function :=
  fun params =>
    pushing (values ++ params) <| .invoke f fun r =>
      match r, recover with
      | .ok results, _ => .done results
      | .error _, some results => .done results
      | .error t, none => .fail (.trapped t)

end WasmCore.Host
