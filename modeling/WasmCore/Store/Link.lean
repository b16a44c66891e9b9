import WasmCore.Store.Error

/-!
# Linking

Instantiation of a module: imports are resolved against the modules of the store, functions and
memories are added, data segments are checked and then copied, and exports are made. The new module
is registered last.

Instantiation is no transaction. What was added before a failure stays in the store, but no module
refers to it. An exported memory is a fresh one of the declared type, not the memory at its index.
-/

namespace WasmCore

/-- A module that is being linked. -/
structure Linking where
  store : Store
  events : Array Event := #[]
  /-- What has been linked so far. -/
  inst : ModuleInstance
  /-- The declared types of the memories of the instance. -/
  memoryTypes : Array (Option MemoryType) := #[]

/-- A step of linking; what it has done stays done if it fails. -/
abbrev Link := EStateM LinkError Linking

namespace Store

/-- The export of a name from a module. -/
def resolve (s : Store) (a : ModuleAddr) (name : String) : Except LinkError ExportInstance :=
  match s.module? a with
  | none => .error (.unknownModule a)
  | some m =>
    match m.find? name with
    | none => .error (.exportNotFound m.name name)
    | some e => .ok e

/-- The export that an import refers to: that of the first module of its name. -/
def resolveImport (s : Store) (i : Import) : Except LinkError ExportInstance :=
  match s.findModule? i.module with
  | none => .error (.moduleNotFound i.module)
  | some a => s.resolve a i.name

end Store

namespace Link

/-- Adds a function to the index space of the instance. -/
def bindFunction (a : FunctionAddr) : Link Unit :=
  modify fun l => { l with inst := { l.inst with
    functions := l.inst.functions.push a } }

/-- Adds a memory and its declared type to the index space of the instance. -/
def bindMemory (a : MemoryAddr) (type : Option MemoryType) : Link Unit :=
  modify fun l => { l with
    inst := { l.inst with memories := l.inst.memories.push a }
    memoryTypes := l.memoryTypes.push type }

/-- Adds an export to the instance. -/
def bindExport (e : ExportInstance) : Link Unit :=
  modify fun l => { l with inst := { l.inst with exports := l.inst.exports.push e } }

/-- Reports an event. -/
def report (e : Event) : Link Unit := modify fun l => { l with events := l.events.push e }

/-- Adds a new memory to the store. -/
def allocate (t : MemoryType) : Link MemoryAddr :=
  modifyGet fun l =>
    let (store, a) := l.store.addMemory (.ofType t)
    (a, { l with store := store })

/-! ### Imports -/

/-- Binds an imported function if its signature is the expected one. -/
def importFunction (m : Module) (i : Import) (type : UInt32) (a : FunctionAddr) : Link Unit := do
  match m.types[type.toNat]? with
  | none => throw (.importType i.module i.name type.toNat)
  | some expected =>
    match (← get).store.function? a with
    | none => throw .dangling
    | some f =>
      if f.type = expected then bindFunction a
      else throw (.importSignature i.module i.name expected f.type)

/-- Binds an import to the export it refers to. -/
def importItem (m : Module) (i : Import) : Link Unit := do
  match (← get).store.resolveImport i with
  | .error e => throw e
  | .ok found =>
    match i.desc, found.target with
    | .function type, .function a => importFunction m i type a
    | .memory type, .memory a => bindMemory a type
    | desc, target => throw (.importKind i.module i.name desc.kind target.kind)
    report (.importResolved i.module i.name found.target.text)

/-! ### Functions and memories -/

/-- Adds a function of the module to the store. -/
def defineFunction (m : Module) (owner : ModuleAddr) (position : Nat) (type : UInt32)
    (code : Code) : Link Unit := do
  match m.types[type.toNat]? with
  | none => throw (.functionType position type.toNat)
  | some t =>
    let a ← modifyGet fun l =>
      let (store, a) := l.store.addFunction ⟨t, .defined owner position code⟩
      (a, { l with store := store })
    bindFunction a

/-- Adds the functions of the module to the store. -/
def defineFunctions (m : Module) (owner : ModuleAddr) : Link Unit := do
  if m.functions.length = m.codes.length then
    (m.functions.zip m.codes).zipIdx.forM fun ((type, code), i) =>
      defineFunction m owner i type code
  else throw (.lengthsDiffer m.functions.length m.codes.length)

/-- Adds a memory of the module to the store. -/
def defineMemory (position : Nat) (type : Option MemoryType) : Link Unit := do
  match checkMemoryType (← get).store.pageLimit type with
  | .ok t => bindMemory (← allocate t) type
  | .error flaw => throw (.memoryType position flaw)

/-! ### Data -/

/-- A data segment with its place. -/
structure PlacedData where
  memory : MemoryAddr
  offset : Nat
  init : List UInt8

/-- The address in an offset expression, which is a single constant. -/
def dataOffset? (offset : Array Instruction) : Option Nat :=
  match offset.toList with
  | [.const .i32 payload] => some payload.toUInt32.toNat
  | _ => none

/-- Checks that a data segment fits. -/
def placeData (position : Nat) (d : DataSegment) : Link PlacedData := do
  match dataOffset? d.offset with
  | none => throw (.dataOffset position)
  | some offset =>
    let l ← get
    match l.inst.memories[d.memory.toNat]? with
    | none => throw (.dataMemory position d.memory.toNat)
    | some a =>
      match l.store.memory? a with
      | none => throw .dangling
      | some mem =>
        if mem.hasLength offset d.init.length then pure ⟨a, offset, d.init⟩
        else throw (.dataBounds position offset d.init.length mem.length)

/-- Copies a data segment. -/
def copyData (d : PlacedData) : Link Unit :=
  modify fun l => { l with store := l.store.modifyMemory d.memory (·.setBytes d.offset d.init) }

/-- Checks all data segments before it copies any. -/
def initializeData (m : Module) : Link Unit := do
  let placed ← m.data.zipIdx.mapM fun (d, i) => placeData i d
  placed.forM copyData

/-! ### Exports -/

/-- Makes an export. -/
def exportItem (e : Export) : Link Unit := do
  let l ← get
  match e.kind with
  | .function =>
    match l.inst.functions[e.index.toNat]? with
    | none => throw (.exportFunction e.name e.index.toNat)
    | some a => bindExport ⟨e.name, .function a⟩
  | .memory =>
    match l.memoryTypes[e.index.toNat]? with
    | none => throw (.exportMemory e.name e.index.toNat)
    | some type =>
      match checkMemoryType l.store.pageLimit type with
      | .ok t => bindExport ⟨e.name, .memory (← allocate t)⟩
      | .error flaw => throw (.exportMemoryType e.name flaw)
  | kind => throw (.exportUnsupported e.name kind)

/-! ### Modules -/

/-- Adds the finished instance to the store. -/
def register (m : Module) : Link ModuleAddr := do
  let a ← modifyGet fun l =>
    let (store, a) := l.store.addModule l.inst
    (a, { l with store := store })
  let l ← get
  report (.moduleInstantiated l.inst.name a l.inst.functions.size (m.importCount .function)
    l.inst.memories.size l.inst.exports.size)
  pure a

/-- Links a module that will have the handle `owner`. -/
def linkModule (m : Module) (owner : ModuleAddr) : Link ModuleAddr := do
  m.imports.forM (importItem m)
  defineFunctions m owner
  m.memories.zipIdx.forM fun (type, i) => defineMemory i type
  initializeData m
  m.exports.forM exportItem
  register m

end Link

/-- The store after an instantiation, what was reported, and the handle of the new module. -/
structure Instantiated where
  store : Store
  events : List Event
  result : Except LinkError ModuleAddr

/-- Links a module against those in the store and registers it under a name. -/
def Store.instantiate (s : Store) (name : String) (m : Module) : Instantiated :=
  match Link.linkModule m ⟨s.modules.size⟩ { store := s, inst := { name, names := m.names } } with
  | .ok a l => ⟨l.store, l.events.toList, .ok a⟩
  | .error e l =>
    let functions := l.store.functions.size - s.functions.size
    let memories := l.store.memories.size - s.memories.size
    let warning := .instantiationFailed name functions memories e.message
    ⟨l.store, l.events.toList ++ (if functions + memories = 0 then [] else [warning]), .error e⟩

end WasmCore
