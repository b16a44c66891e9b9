import WasmCore.Host.Program

/-!
# The store

The registry of all instances: modules, functions and memories, each in an append-only sequence that
handles point into. A store is only ever extended; nothing in it is removed or replaced but the
contents of memories.
-/

namespace WasmCore

/-- How a function is implemented. -/
inductive FunctionBody where
  /-- By code of a module: its owner, the position of the code in it, and the code. -/
  | defined (owner : ModuleAddr) (position : Nat) (code : Code)
  /-- By the host. -/
  | host (run : List Value → HostProgram)

/-- A function that can be called. -/
structure FunctionInstance where
  type : FunctionType
  body : FunctionBody

/-- What an export denotes. -/
inductive ExternAddr where
  | function (addr : FunctionAddr)
  | memory (addr : MemoryAddr)
  deriving DecidableEq, Repr

/-- The kind of what an export denotes. -/
def ExternAddr.kind : ExternAddr → ExternKind
  | .function _ => .function
  | .memory _ => .memory

/-- The kind and the handle. -/
def ExternAddr.text : ExternAddr → String
  | .function addr => "func " ++ addr.text
  | .memory addr => "memory " ++ addr.text

/-- A name under which something is exported. -/
structure ExportInstance where
  name : String
  target : ExternAddr
  deriving DecidableEq, Repr

/-- A linked module: its index spaces as handles. -/
structure ModuleInstance where
  name : String
  /-- Imported functions first, then its own. -/
  functions : Array FunctionAddr := #[]
  /-- Imported memories first, then its own. -/
  memories : Array MemoryAddr := #[]
  /-- Exports in the order of their declaration. -/
  exports : Array ExportInstance := #[]
  /-- Debug names, if the module had any. -/
  names : Option NameSection := none
  deriving DecidableEq, Repr

/-- The first export of a name. -/
def ModuleInstance.find? (m : ModuleInstance) (name : String) : Option ExportInstance :=
  m.exports.find? fun e => e.name = name

/-- All instances. -/
structure Store where
  modules : Array ModuleInstance := #[]
  functions : Array FunctionInstance := #[]
  memories : Array Memory := #[]
  /-- Pages that no memory may exceed. -/
  pageLimit : Nat

namespace Store

/-- A store without instances. A limit of zero, or beyond what addresses reach, is the limit of
addresses. -/
def new (limit : Nat) : Store where
  pageLimit := if limit = 0 || decide (maxPages.toNat < limit) then maxPages.toNat else limit

variable (s : Store)

/-- The module of a handle. -/
def module? (a : ModuleAddr) : Option ModuleInstance := s.modules[a.index]?

/-- The function of a handle. -/
def function? (a : FunctionAddr) : Option FunctionInstance := s.functions[a.index]?

/-- The memory of a handle. -/
def memory? (a : MemoryAddr) : Option Memory := s.memories[a.index]?

/-- The first module registered under a name. -/
def findModule? (name : String) : Option ModuleAddr :=
  (s.modules.findIdx? fun m => m.name = name).map ModuleAddr.mk

/-- Changes a memory. -/
def modifyMemory (a : MemoryAddr) (f : Memory → Memory) : Store :=
  { s with memories := s.memories.modify a.index f }

/-- Adds a function. -/
def addFunction (f : FunctionInstance) : Store × FunctionAddr :=
  ({ s with functions := s.functions.push f }, ⟨s.functions.size⟩)

/-- Adds a memory. -/
def addMemory (m : Memory) : Store × MemoryAddr :=
  ({ s with memories := s.memories.push m }, ⟨s.memories.size⟩)

/-- Adds a module. -/
def addModule (m : ModuleInstance) : Store × ModuleAddr :=
  ({ s with modules := s.modules.push m }, ⟨s.modules.size⟩)

/-- The first memory of a module, if it has one. -/
def firstMemory? (a : ModuleAddr) : Option MemoryAddr := do
  let m ← s.module? a
  m.memories[0]?

end Store

end WasmCore
