import WasmCore.Trap.Fault

/-!
# Traps

A trap is a fault together with the calls that were in progress when it was raised.
-/

namespace WasmCore

/-- Where a frame belongs. -/
structure Location where
  /-- The module whose indices its code uses. -/
  module : ModuleAddr
  /-- The function it executes; none for an expression. -/
  function : Option FunctionAddr
  deriving DecidableEq, Repr, Inhabited

/-- The function of a location, or its module if there is none. -/
def Location.text (l : Location) : String :=
  match l.function with
  | some f => "0x" ++ Text.hexUpper 8 f.index
  | none => "<module: 0x" ++ Text.hexUpper 8 l.module.index ++ ">"

/-- One line per location, numbered from zero. -/
def traceText (trace : List Location) : String :=
  String.intercalate "\n" (trace.zipIdx.map fun (l, i) => "\t" ++ toString i ++ ": " ++ l.text)

/-- The end of an execution that went wrong. -/
structure Trap where
  /-- Why it was raised. -/
  cause : Fault
  /-- The calls in progress, innermost first. -/
  trace : List Location
  deriving DecidableEq, Repr

/-- The report of a trap with the given message and calls. -/
def trapText (message : String) (trace : List Location) : String :=
  let first := "wasm trap: " ++ message
  if trace.isEmpty then first else first ++ "\nwasm backtrace:\n" ++ traceText trace

/-- What the trap says, without the calls. -/
def Trap.message (t : Trap) : String := t.cause.message

/-- The report of a trap. -/
def Trap.text (t : Trap) : String := trapText t.message t.trace

end WasmCore
