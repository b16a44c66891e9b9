/-!
# Section ids

The kinds of sections of a binary module.
-/

namespace WasmCore

/-- The id of a section. -/
inductive SectionId where
  | custom | types | imports | functions | tables | memories | globals | exports | start | elements
  | codes | data
  /-- A byte that is no section id. -/
  | other (byte : UInt8)
  deriving DecidableEq, Repr

namespace SectionId

/-- The ids in the order of their bytes, which start at zero. -/
def all : List SectionId :=
  [.custom, .types, .imports, .functions, .tables, .memories, .globals, .exports, .start, .elements,
    .codes, .data]

/-- The id that a byte denotes. -/
def ofByte (byte : UInt8) : SectionId := all.getD byte.toNat (.other byte)

/-- The byte of an id. -/
def byte : SectionId → UInt8
  | .other b => b
  | id => .ofNat (all.idxOf id)

/-- The name of a section in messages. -/
def name : SectionId → String
  | .custom => "custom"
  | .types => "type"
  | .imports => "import"
  | .functions => "function"
  | .tables => "table"
  | .memories => "memory"
  | .globals => "global"
  | .exports => "export"
  | .start => "start"
  | .elements => "element"
  | .codes => "code"
  | .data => "data"
  | .other _ => "unknown"

end SectionId

end WasmCore
