import WasmCore.Instruction.Basic
import WasmCore.Module.Section

/-!
# Modules

The decoded form of a binary module. A section that the binary does not have is an empty list.
Debug names are decoded and kept apart from the other custom sections; table, global, start and
element sections are not kept.

Nothing here is checked: indices may be out of range and memory types may be missing. Linking
decides what that means.
-/

namespace WasmCore

/-- Bytes in one page of memory. -/
def pageSize : Nat := 65536

/-- The number of pages that 32-bit addresses can reach. -/
def maxPages : UInt32 := 65536

/-- What an import or export denotes. -/
inductive ExternKind where
  | function | table | memory | global
  /-- A byte that denotes no kind. -/
  | other (code : UInt8)
  deriving DecidableEq, Repr

namespace ExternKind

/-- The kind that a byte denotes. -/
def ofCode (code : UInt8) : ExternKind :=
  if code = 0 then .function
  else if code = 1 then .table
  else if code = 2 then .memory
  else if code = 3 then .global
  else .other code

/-- The byte of a kind. -/
def code : ExternKind → UInt8
  | .function => 0
  | .table => 1
  | .memory => 2
  | .global => 3
  | .other code => code

/-- The name of a kind in messages. -/
def name : ExternKind → String
  | .function => "func"
  | .table => "table"
  | .memory => "memory"
  | .global => "global"
  | .other code => Text.marked code.toNat

end ExternKind

/-- The limits of a memory, in pages. -/
structure MemoryType where
  /-- Pages at the start. -/
  min : UInt32
  /-- Pages it may grow to, if there is a bound. -/
  max : Option UInt32
  deriving DecidableEq, Repr

/-- What is imported. -/
inductive ImportDesc where
  /-- A function whose signature is the type with this index. -/
  | function (type : UInt32)
  /-- A memory; its type may be missing. -/
  | memory (type : Option MemoryType)
  /-- A table, which cannot be linked. -/
  | table
  /-- A global, which cannot be linked. -/
  | global
  /-- A byte that denotes no kind. -/
  | other (code : UInt8)
  deriving DecidableEq, Repr

/-- The kind of an import. -/
def ImportDesc.kind : ImportDesc → ExternKind
  | .function _ => .function
  | .memory _ => .memory
  | .table => .table
  | .global => .global
  | .other code => .other code

/-- An import of a named item from a named module. -/
structure Import where
  module : String
  name : String
  desc : ImportDesc
  deriving DecidableEq, Repr

/-- An export of the item with an index under a name. -/
structure Export where
  name : String
  kind : ExternKind
  index : UInt32
  deriving DecidableEq, Repr

/-- The locals and the body of a function. -/
structure Code where
  /-- Types of the locals after the parameters. -/
  locals : List ValueType
  /-- The body, without its closing `end`. -/
  body : Array Instruction
  deriving DecidableEq, Repr

/-- Bytes that are copied into a memory at instantiation. -/
structure DataSegment where
  /-- Index of the memory. -/
  memory : UInt32
  /-- The expression that gives the address. -/
  offset : Array Instruction
  init : List UInt8
  deriving DecidableEq, Repr

/-- A name of an indexed item. -/
structure NameAssoc where
  index : UInt32
  name : String
  deriving DecidableEq, Repr

/-- The names of the locals of one function. -/
structure LocalNames where
  /-- Index of the function. -/
  index : UInt32
  names : List NameAssoc
  deriving DecidableEq, Repr

/-- Debug names. -/
structure NameSection where
  module : String := ""
  functions : List NameAssoc := []
  locals : List LocalNames := []
  deriving DecidableEq, Repr

/-- A custom section other than the debug names. -/
structure CustomSection where
  name : String
  data : List UInt8
  deriving DecidableEq, Repr

/-- A decoded module. -/
structure Module where
  types : List FunctionType := []
  imports : List Import := []
  /-- The type index of each function that the module defines. -/
  functions : List UInt32 := []
  memories : List (Option MemoryType) := []
  exports : List Export := []
  /-- The code of each function, in the order of `functions`. -/
  codes : List Code := []
  data : List DataSegment := []
  names : Option NameSection := none
  customs : List CustomSection := []
  deriving DecidableEq, Repr

namespace Module

/-- The number of imports of a kind. -/
def importCount (m : Module) (kind : ExternKind) : Nat :=
  m.imports.countP fun i => i.desc.kind = kind

/-- The number of elements of a section, zero for one that is not kept. -/
def sectionCount (m : Module) : SectionId → Nat
  | .custom => m.customs.length + (if m.names.isSome then 1 else 0)
  | .types => m.types.length
  | .imports => m.imports.length
  | .functions => m.functions.length
  | .memories => m.memories.length
  | .exports => m.exports.length
  | .codes => m.codes.length
  | .data => m.data.length
  | .tables | .globals | .start | .elements | .other _ => 0

end Module

end WasmCore
