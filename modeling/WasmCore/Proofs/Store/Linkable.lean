import WasmCore.Store.Link

/-!
# When a module can be linked, and what linking makes of it

`Store.Linkable` gives the conditions under which a module can be linked into a store, and
`Store.linked` the store that has it. Neither follows the order in which linking does its work: both
are read off the module and the store as they are before.
-/

namespace WasmCore

/-! ### What a module declares -/

/-- The declared type of an imported memory. -/
def Import.memoryType? (i : Import) : Option (Option MemoryType) :=
  match i.desc with
  | .memory type => some type
  | _ => none

namespace Module

variable (m : Module)

/-- The declared types of the memories, imported ones first. -/
def memoryTypes : List (Option MemoryType) := m.imports.filterMap Import.memoryType? ++ m.memories

/-- A function that the module defines, when its handle is `owner`: its type index, its code and
the position of both. -/
def definition? (owner : ModuleAddr) : (UInt32 × Code) × Nat → Option FunctionInstance
  | ((type, code), position) =>
    m.types[type.toNat]?.map fun t => ⟨t, .defined owner position code⟩

/-- The functions that the module defines, when its handle is `owner`. -/
def definitions (owner : ModuleAddr) : List FunctionInstance :=
  (m.functions.zip m.codes).zipIdx.filterMap (m.definition? owner)

/-- The memory that an export makes: a new one of the declared type. -/
def exportedMemory? (e : Export) : Option Memory :=
  if e.kind = .memory then (m.memoryTypes[e.index.toNat]?.join).map Memory.ofType else none

end Module

/-- The exports of a linked module over its functions. Each exported memory is a new one; their
handles are those from `next` on. -/
def exportInstances (functions : List FunctionAddr) : (next : Nat) → List Export →
    List ExportInstance
  | _, [] => []
  | next, e :: rest =>
    match e.kind, functions[e.index.toNat]? with
    | .function, some a => ⟨e.name, .function a⟩ :: exportInstances functions next rest
    | .memory, _ => ⟨e.name, .memory ⟨next⟩⟩ :: exportInstances functions (next + 1) rest
    | _, _ => exportInstances functions next rest

namespace Store

variable (s : Store)

/-! ### Imports -/

/-- What an import refers to: the target of the first export of its name in the first module that
is registered under its module name. -/
def referent? (i : Import) : Option ExternAddr := do
  let m ← s.modules.toList.find? fun m => m.name = i.module
  let e ← m.exports.toList.find? fun e => e.name = i.name
  some e.target

/-- The function that an import brings into a module. -/
def importedFunction? (i : Import) : Option FunctionAddr :=
  match i.desc, s.referent? i with
  | .function _, some (.function a) => some a
  | _, _ => none

/-- The memory that an import brings into a module. -/
def importedMemory? (i : Import) : Option MemoryAddr :=
  match i.desc, s.referent? i with
  | .memory _, some (.memory a) => some a
  | _, _ => none

/-- An import refers to something of its kind, which is a function of the expected signature or a
memory. -/
def Meets (m : Module) (i : Import) : Prop :=
  match i.desc with
  | .function type => ∃ a f, s.referent? i = some (.function a) ∧ s.function? a = some f ∧
      m.types[type.toNat]? = some f.type
  | .memory _ => ∃ a, s.referent? i = some (.memory a)
  | _ => False

/-! ### Index spaces -/

/-- The functions of a linked module, imported ones first. -/
def functionSpace (m : Module) : List FunctionAddr :=
  m.imports.filterMap s.importedFunction? ++
    (List.range' s.functions.size m.functions.length).map FunctionAddr.mk

/-- The memories of a linked module, imported ones first. -/
def memorySpace (m : Module) : List MemoryAddr :=
  m.imports.filterMap s.importedMemory? ++
    (List.range' s.memories.size m.memories.length).map MemoryAddr.mk

/-- The store with the functions and the zeroed memories that a module defines. -/
def defining (m : Module) : Store :=
  { s with
    functions := s.functions ++ (m.definitions ⟨s.modules.size⟩).toArray
    memories := s.memories ++ (m.memories.filterMap (Option.map Memory.ofType)).toArray }

/-! ### Conditions -/

/-- A memory of this type may be created. -/
def Allows (type : Option MemoryType) : Prop :=
  ∃ t, type = some t ∧ t.min.toNat ≤ s.pageLimit ∧ ∀ max, t.max = some max → t.min ≤ max

/-- A data segment has a constant offset and a memory that has room for it there. -/
def HasRoom (m : Module) (d : DataSegment) : Prop :=
  ∃ payload a mem, d.offset = #[.const .i32 payload] ∧
    (s.memorySpace m)[d.memory.toNat]? = some a ∧ (s.defining m).memory? a = some mem ∧
    payload.toUInt32.toNat + d.init.length ≤ mem.length

/-- An export is a function that the module has, or a memory that it has and that may be created
anew. -/
def CanExport (m : Module) (e : Export) : Prop :=
  match e.kind with
  | .function => e.index.toNat < (s.functionSpace m).length
  | .memory => ∃ type, m.memoryTypes[e.index.toNat]? = some type ∧ s.Allows type
  | _ => False

/-- A module can be linked into a store. -/
structure Linkable (m : Module) : Prop where
  imports : ∀ i ∈ m.imports, s.Meets m i
  lengths : m.functions.length = m.codes.length
  functions : ∀ type ∈ m.functions, type.toNat < m.types.length
  memories : ∀ type ∈ m.memories, s.Allows type
  data : ∀ d ∈ m.data, s.HasRoom m d
  exports : ∀ e ∈ m.exports, s.CanExport m e

/-- A module can be linked into a store as far as its exports do not matter. -/
structure Ready (m : Module) : Prop where
  imports : ∀ i ∈ m.imports, s.Meets m i
  lengths : m.functions.length = m.codes.length
  functions : ∀ type ∈ m.functions, type.toNat < m.types.length
  memories : ∀ type ∈ m.memories, s.Allows type
  data : ∀ d ∈ m.data, s.HasRoom m d

variable {s} in
theorem linkable_iff {m : Module} :
    s.Linkable m ↔ s.Ready m ∧ ∀ e ∈ m.exports, s.CanExport m e := by
  constructor
  · rintro ⟨himports, hlengths, hfunctions, hmemories, hdata, hexports⟩
    exact ⟨⟨himports, hlengths, hfunctions, hmemories, hdata⟩, hexports⟩
  · rintro ⟨⟨himports, hlengths, hfunctions, hmemories, hdata⟩, hexports⟩
    exact ⟨himports, hlengths, hfunctions, hmemories, hdata, hexports⟩

/-! ### The linked module -/

/-- Where a data segment goes. -/
def placement? (m : Module) (d : DataSegment) : Option Link.PlacedData := do
  let offset ← Link.dataOffset? d.offset
  let a ← (s.memorySpace m)[d.memory.toNat]?
  some ⟨a, offset, d.init⟩

/-- Copies data to its place. -/
def copy (d : Link.PlacedData) : Store := s.modifyMemory d.memory (·.setBytes d.offset d.init)

/-- The store with the functions, the memories and the data of a module, segments copied in their
order. -/
def initialized (m : Module) : Store :=
  (m.data.filterMap (s.placement? m)).foldl copy (s.defining m)

/-- The instance of a linked module. -/
def linkedInstance (name : String) (m : Module) : ModuleInstance where
  name := name
  functions := (s.functionSpace m).toArray
  memories := (s.memorySpace m).toArray
  exports := (exportInstances (s.functionSpace m) (s.memories.size + m.memories.length)
    m.exports).toArray
  names := m.names

/-- The store with a module linked under a name. -/
def linked (name : String) (m : Module) : Store where
  modules := s.modules.push (s.linkedInstance name m)
  functions := s.functions ++ (m.definitions ⟨s.modules.size⟩).toArray
  memories := (s.initialized m).memories ++ (m.exports.filterMap m.exportedMemory?).toArray
  pageLimit := s.pageLimit

end Store

end WasmCore
