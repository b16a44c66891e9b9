import WasmCore.Text.Numeral

/-!
# Addresses

The handles of modules, functions and memories in a store. They are positions in append-only
sequences, so a handle denotes the same thing for ever.
-/

namespace WasmCore

/-- The handle of a module instance. -/
structure ModuleAddr where
  index : Nat
  deriving DecidableEq, Repr, Inhabited

/-- The handle of a function instance. -/
structure FunctionAddr where
  index : Nat
  deriving DecidableEq, Repr, Inhabited

/-- The handle of a memory. -/
structure MemoryAddr where
  index : Nat
  deriving DecidableEq, Repr, Inhabited

/-- The text of a module handle. -/
def ModuleAddr.text (a : ModuleAddr) : String := "[ModuleAddr]0x" ++ Text.hexUpper 4 a.index

/-- The text of a function handle. -/
def FunctionAddr.text (a : FunctionAddr) : String := "[FunctionAddr]0x" ++ Text.hexUpper 4 a.index

/-- The text of a memory handle. -/
def MemoryAddr.text (a : MemoryAddr) : String := "[MemoryAddr]0x" ++ Text.hexUpper 4 a.index

end WasmCore
