import WasmCore.Host.Stock
import WasmCore.Store.HostModule
import WasmCore.Text.Utf16

/-!
# The environment of guests

The host module `env`: functions that print a number each, and `abort`, with which a guest gives up.
The texts that `abort` gets are pointers into the memory of the caller, to UTF-16 text with its size
in bytes in the four bytes before it. A text that is not there is shown as its pointer.
-/

namespace WasmCore.Host.Env

/-- The name that guests import from. -/
def moduleName : String := "env"

/-- Where printed numbers go. -/
inductive Sink where
  | console
  /-- Nowhere. -/
  | discard
  deriving DecidableEq, Repr

/-- Prints its only parameter on a line of its own. -/
def print (sink : Sink) (name : String) : Function := fun params =>
  let text := (params.head?.getD .nil).text
  .report (.printed name text) <|
    match sink with
    | .discard => .done []
    | .console => .print (text ++ "\n") fun isOpen =>
      if isOpen then .done [] else .fail (.fault (.context name (.failure "writer closed")))

/-- The guest text at a pointer, if the memory holds one there. -/
def guestText? (m : Memory) (pointer : Nat) : Option String := do
  if pointer < 4 then none
  else
    let size ← m.readNumber? (pointer - 4) 4
    if size % 2 = 0 then
      let bytes ← m.read? pointer size
      some (Text.ofUtf16 bytes)
    else none

/-- The guest text at a pointer, or the pointer. -/
def guestText (m : Option Memory) (pointer : Nat) : String :=
  (m.bind (guestText? · pointer)).getD ("<0x" ++ Text.hexUpper 8 pointer ++ ">")

/-- Gives up with a message, a file, a line and a column. -/
def abort : Function := fun params =>
  let bits (i : Nat) : UInt32 := (params.getD i .nil).bits.toUInt32
  let number (i : Nat) : Int := (bits i).toBitVec.toInt
  .callerMemory fun m =>
    let message := guestText m (bits 0).toNat
    let file := guestText m (bits 1).toNat
    .report (.aborted message file (number 2) (number 3)) <|
      .fail (.fault (.abort message file (number 2) (number 3)))

/-- The declarations of the module. -/
def declarations (sink : Sink) : List Declaration :=
  let prints (name : String) (type : ValueType) : Declaration :=
    .function name ⟨[type], []⟩ (print sink name)
  [.function "abort" ⟨[.i32, .i32, .i32, .i32], []⟩ abort,
    prints "print_i32" .i32,
    prints "print_i64" .i64,
    prints "print_f32" .f32,
    prints "print_f64" .f64,
    .synonym "print" "print_i32"]

end WasmCore.Host.Env
