import WasmCore.Store.Error

/-!
# Host modules

A module whose functions are implemented by the host is declared export by export and then
registered as a whole. The first declaration that is wrong decides; then nothing is registered.
-/

namespace WasmCore

/-- One export of a host module. -/
inductive Declaration where
  /-- A function. -/
  | function (name : String) (type : FunctionType) (run : List Value → HostProgram)
  /-- A memory. -/
  | memory (name : String) (type : MemoryType)
  /-- Another name for an export that was declared before. -/
  | synonym (name target : String)

/-- What a declared export denotes, by its position among the functions or memories. -/
inductive DeclaredItem where
  | function (position : Nat)
  | memory (position : Nat)
  deriving DecidableEq, Repr

/-- A declared host module. -/
structure HostModule where
  name : String
  functions : Array FunctionInstance := #[]
  memories : Array MemoryType := #[]
  exports : Array (String × DeclaredItem) := #[]

namespace HostModule

/-- What was declared under a name. -/
def find? (m : HostModule) (name : String) : Option DeclaredItem :=
  (m.exports.find? fun (n, _) => n = name).map Prod.snd

/-- Adds an export under a name that is still free. -/
def addExport (m : HostModule) (name : String) (item : DeclaredItem) : HostModule :=
  { m with exports := m.exports.push (name, item) }

/-- Adds a declaration. -/
def declare (m : HostModule) (d : Declaration) : Except DeclarationError HostModule :=
  match d with
  | .function name type run =>
    if (m.find? name).isSome then .error (.exportExists name)
    else
      match (type.params ++ type.results).find? fun t => !t.isNumeric with
      | some t => .error (.invalidType name t)
      | none =>
        let extended : HostModule := { m with functions := m.functions.push ⟨type, .host run⟩ }
        .ok (extended.addExport name (.function m.functions.size))
  | .memory name type =>
    if (m.find? name).isSome then .error (.exportExists name)
    else
      let extended : HostModule := { m with memories := m.memories.push type }
      .ok (extended.addExport name (.memory m.memories.size))
  | .synonym name target =>
    if (m.find? name).isSome then .error (.exportExists name)
    else
      match m.find? target with
      | none => .error (.unknownTarget name target)
      | some item => .ok (m.addExport name item)

/-- The host module with these declarations. -/
def ofDeclarations (name : String) (ds : List Declaration) : Except RegisterError HostModule :=
  match ds.foldlM declare { name } with
  | .ok m => .ok m
  | .error e => .error (.declaration name e)

/-- The first memory whose type is wrong, and what is wrong with it. -/
def memoryFlaw? (limit : Nat) (m : HostModule) : Option (Nat × MemoryFlaw) :=
  m.memories.toList.zipIdx.findSome? fun (t, i) =>
    match checkMemoryType limit (some t) with
    | .ok _ => none
    | .error flaw => some (i, flaw)

end HostModule

/-- The store after a registration, what was reported, and the handle of the new module. -/
structure Registered where
  store : Store
  event : Event
  addr : ModuleAddr

namespace Store

/-- Adds all instances of a host module and the module itself. -/
def register (s : Store) (m : HostModule) : Registered :=
  let functions := Array.ofFn fun (i : Fin m.functions.size) =>
    FunctionAddr.mk (s.functions.size + i)
  let memories := Array.ofFn fun (i : Fin m.memories.size) => MemoryAddr.mk (s.memories.size + i)
  let exports := m.exports.map fun (name, item) =>
    match item with
    | .function i => ExportInstance.mk name (.function ⟨s.functions.size + i⟩)
    | .memory i => ExportInstance.mk name (.memory ⟨s.memories.size + i⟩)
  let inst : ModuleInstance := { name := m.name, functions, memories, exports }
  let (store, addr) := ({ s with
    functions := s.functions ++ m.functions
    memories := s.memories ++ m.memories.map Memory.ofType } : Store).addModule inst
  ⟨store, .hostModuleRegistered m.name addr functions.size memories.size exports.size, addr⟩

/-- Registers a host module that has only functions. -/
def synthesize (s : Store) (m : HostModule) : Except RegisterError Registered :=
  if m.memories.isEmpty then .ok (s.register m) else .error (.memories m.name)

/-- Registers a host module, whose memories are shared with the modules that import them. -/
def external (s : Store) (m : HostModule) : Except RegisterError Registered :=
  match m.memoryFlaw? s.pageLimit with
  | some (i, flaw) => .error (.memoryType m.name i flaw)
  | none => .ok (s.register m)

end Store

end WasmCore
