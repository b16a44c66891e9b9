import WasmCore.Integer
import WasmCore.Store.Address
import WasmCore.Value.Basic

/-!
# Faults

Why execution cannot go on. A fault is a plain cause or a cause with words before it; the words
never change its kind.
-/

namespace WasmCore

/-- Why execution cannot go on. -/
inductive Fault where
  /-- A value is needed and there is none. -/
  | stackUnderflow
  /-- A value has another type than the one needed. -/
  | typeMismatch (expected actual : ValueType)
  /-- A function or expression leaves more values than it should. -/
  | stackNotEmpty
  /-- There are too many nested calls. -/
  | callStackOverflow
  /-- The instruction `unreachable` was executed. -/
  | unreachable
  | divideByZero
  /-- A number is out of the range of its type. -/
  | integerOverflow
  /-- A NaN cannot be converted to an integer. -/
  | invalidConversion
  | outOfBounds
  | noMemory
  /-- The module has no function with this index. -/
  | unknownFunctionIndex (index : Nat)
  /-- The store has no function with this handle. -/
  | unknownFunction (addr : FunctionAddr)
  /-- The frame has no local with this index. -/
  | unknownLocal (index : Nat)
  /-- An instruction that no machine executes. -/
  | unsupported (instruction : String)
  /-- An `else` that belongs to no conditional. -/
  | strayElse (position : Nat)
  /-- A host function returned another number of results than it declares. -/
  | hostResultCount (type : FunctionType) (count : Nat)
  /-- A guest gave up. -/
  | abort (message file : String) (line column : Int)
  /-- A failure that only has a text. -/
  | failure (text : String)
  /-- A fault with words before it. -/
  | context (text : String) (cause : Fault)
  deriving DecidableEq, Repr

/-- The kinds of faults. -/
inductive Fault.Kind where
  | typeMismatch | stackUnderflow | stackNotEmpty | callStackOverflow | unreachable | divideByZero
  | integerOverflow | invalidConversion | outOfBounds | noMemory | unknownFunction | unknownLocal
  | unsupported | abort
  /-- None of the others. -/
  | plain
  deriving DecidableEq, Repr

namespace Fault

/-- The fault of a value that cannot be used. -/
def ofValueError : ValueError → Fault
  | .missing => .stackUnderflow
  | .mismatch expected actual => .typeMismatch expected actual

/-- The fault of an integer operation without a result. -/
def ofIntegerFailure : IntegerFailure → Fault
  | .divideByZero => .divideByZero
  | .overflow => .integerOverflow

/-- The kind of a fault. -/
def kind : Fault → Kind
  | stackUnderflow => .stackUnderflow
  | typeMismatch _ _ => .typeMismatch
  | stackNotEmpty => .stackNotEmpty
  | callStackOverflow => .callStackOverflow
  | unreachable => .unreachable
  | divideByZero => .divideByZero
  | integerOverflow => .integerOverflow
  | invalidConversion => .invalidConversion
  | outOfBounds => .outOfBounds
  | noMemory => .noMemory
  | unknownFunctionIndex _ => .unknownFunction
  | unknownFunction _ => .unknownFunction
  | unknownLocal _ => .unknownLocal
  | unsupported _ => .unsupported
  | strayElse _ => .plain
  | hostResultCount _ _ => .plain
  | abort _ _ _ _ => .abort
  | failure _ => .plain
  | context _ cause => cause.kind

/-- The fault in words. -/
def message : Fault → String
  | stackUnderflow => ValueError.missing.message
  | typeMismatch expected actual => (ValueError.mismatch expected actual).message
  | stackNotEmpty => "stack is not empty at end of function invocation"
  | callStackOverflow => "call stack overflow"
  | unreachable => "unreachable"
  | divideByZero => "integer divide by zero"
  | integerOverflow => "integer overflow"
  | invalidConversion => "invalid conversion to integer"
  | outOfBounds => "out of bounds memory access"
  | noMemory => "module has no memory"
  | unknownFunctionIndex index => "invalid function index: " ++ toString index
  | unknownFunction addr => "invalid function index: " ++ addr.text
  | unknownLocal index => "invalid local index: " ++ toString index
  | unsupported instruction => "unsupported instruction: " ++ instruction
  | strayElse position => "else at " ++ toString position ++ " outside of an if"
  | hostResultCount type count =>
    "host function " ++ type.text ++ " returned " ++ toString count ++ " results"
  | abort message file line column =>
    "abort: " ++ message ++ " at " ++ file ++ ":" ++ toString line ++ ":" ++ toString column
  | failure text => text
  | context text cause => text ++ ": " ++ cause.message

end Fault

end WasmCore
