import WasmCore.Binary.Module
import WasmCore.Host.Env
import WasmCore.Machine.Thread
import WasmCore.Store.Link

/-!
# Engines

An engine is a world with a ceiling for its calls: it decodes modules, registers host modules, links
decoded modules and calls exported functions. A decoded module can be instantiated only once.
-/

namespace WasmCore

open Machine

/-- A loader, linker and runner of modules. -/
structure Engine where
  world : World
  /-- The ceiling of each call; below one it is the default ceiling. -/
  ceiling : Int

/-- A decoded module. -/
structure Loaded where
  /-- The name in its debug names, empty if it has none. -/
  name : String
  /-- The module, until it is instantiated. -/
  module : Option Module

/-- Why an engine refuses something. -/
inductive EngineError where
  | decode (e : Binary.DecodeError)
  | link (e : LinkError)
  | register (e : RegisterError)
  /-- There is nothing to decode. -/
  | noSource
  /-- There is no module to instantiate. -/
  | noModule
  /-- The module was used up before. -/
  | spent (name : String)

/-- The error in words. -/
def EngineError.message : EngineError → String
  | decode e => e.message
  | link e => e.message
  | register e => e.message
  | noSource => "source == nil"
  | noModule => "module == nil"
  | spent name => "module[" ++ name ++ "] was already instantiated"

/-- How a call of an exported function ends. -/
inductive CallResult where
  /-- Another number of parameters is expected. -/
  | arity (expected given : Nat)
  | ran (outcome : Outcome)

/-- The text of a call with the wrong number of parameters. -/
def arityMessage (expected given : Nat) : String :=
  "expected " ++ toString expected ++ " params, but passed " ++ toString given

/-- An expression that yields a value; nothing for the placeholder. -/
def Value.expression (v : Value) : Array Instruction :=
  match v.type with
  | .num type => #[.const type v.bits]
  | _ => #[]

namespace Engine

/-- An engine without modules. -/
def new (ceiling : Int) (pageLimit : Nat) : Engine := ⟨{ store := .new pageLimit }, ceiling⟩

/-- An engine with the default ceiling and page limit. -/
def default : Engine := new defaultCeiling maxPages.toNat

variable (e : Engine)

/-- The store of the engine. -/
def store : Store := e.world.store

/-- Reports events. -/
def reportAll (events : List Event) : Engine :=
  { e with world := events.foldl World.report e.world }

/-- Replaces the store. -/
def withStore (s : Store) : Engine := { e with world := { e.world with store := s } }

/-! ### Modules -/

/-- Decodes a module. -/
def decode (source : Option Binary.Stream) : Engine × Except EngineError Loaded :=
  match source with
  | none => (e, .error .noSource)
  | some s =>
    match Binary.decodeWithEvents s with
    | (events, .error err) => (e.reportAll events, .error (.decode err))
    | (events, .ok m) =>
      (e.reportAll events, .ok ⟨(m.names.map NameSection.module).getD "", some m⟩)

/-- Links a module that is already decoded. -/
def link (name : String) (m : Module) : Engine × Except EngineError ModuleAddr :=
  let r := e.store.instantiate name m
  ((e.withStore r.store).reportAll r.events, r.result.mapError .link)

/-- Instantiates a loaded module under a name; the module is used up also if that fails. -/
def instantiate (name : String) (loaded : Option Loaded) :
    Engine × Option Loaded × Except EngineError ModuleAddr :=
  match loaded with
  | none => (e, none, .error .noModule)
  | some l =>
    match l.module with
    | none => (e, some l, .error (.spent name))
    | some m =>
      let (e, r) := e.link name m
      (e, some { l with module := none }, r)

/-- Which ways of registering a host module are allowed. -/
inductive HostPolicy where
  /-- Only functions. -/
  | functions
  /-- Functions and memories. -/
  | memories
  /-- The first way unless the module declares memories. -/
  | either
  deriving DecidableEq, Repr

/-- Registers a declared host module. -/
def registerHost (policy : HostPolicy) (m : HostModule) : Except RegisterError Registered :=
  match policy with
  | .functions => e.store.synthesize m
  | .memories => e.store.external m
  | .either => if m.memories.isEmpty then e.store.synthesize m else e.store.external m

/-- Declares and registers a host module. -/
def hostModule (policy : HostPolicy) (name : String) (ds : List Declaration) :
    Engine × Except EngineError ModuleAddr :=
  match HostModule.ofDeclarations name ds with
  | .error err => (e, .error (.register err))
  | .ok m =>
    match e.registerHost policy m with
    | .error err => (e, .error (.register err))
    | .ok r => ((e.withStore r.store).reportAll [r.event], .ok r.addr)

/-- Registers the environment of guests. -/
def env (sink : Host.Env.Sink) : Engine × Except EngineError ModuleAddr :=
  e.hostModule .either Host.Env.moduleName (Host.Env.declarations sink)

/-! ### Exports -/

/-- The function that a module exports under a name. -/
def exportedFunction? (a : ModuleAddr) (name : String) : Option FunctionAddr := do
  let m ← e.store.module? a
  match (← m.find? name).target with
  | .function f => some f
  | .memory _ => none

/-- The memory that a module exports under a name. -/
def exportedMemory? (a : ModuleAddr) (name : String) : Option MemoryAddr := do
  let m ← e.store.module? a
  match (← m.find? name).target with
  | .function _ => none
  | .memory b => some b

/-- Calls a function on a new thread whose bottom frame is in the module that exports it. -/
def call (fuel : Nat) (a : ModuleAddr) (f : FunctionAddr) (params : List Value) :
    Engine × CallResult :=
  match e.store.function? f with
  | none => (e, .ran (.broken .missingInstance))
  | some fn =>
    if fn.type.params.length = params.length then
      let ran := (Thread.new a e.ceiling).call e.world fuel a f (params.map Value.expression)
      ({ e with world := ran.world }, .ran ran.outcome)
    else (e, .arity fn.type.params.length params.length)

end Engine

end WasmCore
