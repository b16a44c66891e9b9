import WasmCore.Module.Section
import WasmCore.Store.Address

/-!
# Events

What decoding, linking and execution report as they go, beside their results. An event has a level,
a message and named fields; a reader of the log sees nothing else of it.
-/

namespace WasmCore

/-- Something worth a line in a log. -/
inductive Event where
  /-- A section was passed over because nothing uses it. -/
  | sectionSkipped (id : SectionId) (size : Nat)
  /-- A section was decoded. -/
  | sectionDecoded (id : SectionId) (size elements : Nat)
  /-- An import was bound to an export. -/
  | importResolved (module name target : String)
  /-- A module was linked and registered. -/
  | moduleInstantiated (module : String) (addr : ModuleAddr)
      (functions importedFunctions memories exports : Nat)
  /-- Linking failed after instances had been added to the store. -/
  | instantiationFailed (module : String) (functions memories : Nat) (error : String)
  /-- A module of host functions was registered. -/
  | hostModuleRegistered (module : String) (addr : ModuleAddr) (functions memories exports : Nat)
  /-- A trap was raised. -/
  | trapRaised (message : String) (depth : Nat)
  /-- A guest printed a value. -/
  | printed (function value : String)
  /-- A guest aborted. -/
  | aborted (message file : String) (line column : Int)
  deriving DecidableEq, Repr

namespace Event

/-- How urgent an event is. -/
inductive Level where
  | debug | warn
  deriving DecidableEq, Repr

/-- The name of a level. -/
def Level.name : Level → String
  | .debug => "debug"
  | .warn => "warn"

/-- The value of a field. -/
inductive Field where
  | text (value : String)
  | number (value : Int)
  deriving DecidableEq, Repr

/-- Only a failure that leaves something behind is a warning. -/
def level : Event → Level
  | instantiationFailed .. => .warn
  | _ => .debug

/-- What happened. -/
def message : Event → String
  | sectionSkipped .. => "skipping unsupported section"
  | sectionDecoded .. => "decoded section"
  | importResolved .. => "resolved import"
  | moduleInstantiated .. => "instantiated module"
  | instantiationFailed .. => "instantiation failed after allocating instances"
  | hostModuleRegistered .. => "registered host module"
  | trapRaised .. => "trap"
  | printed .. => "env print"
  | aborted .. => "env abort"

/-- The details, by name. -/
def fields : Event → List (String × Field)
  | sectionSkipped id size => [("section", .text id.name), ("size", .number size)]
  | sectionDecoded id size elements =>
    [("section", .text id.name), ("size", .number size), ("elements", .number elements)]
  | importResolved module name target =>
    [("module", .text module), ("name", .text name), ("export", .text target)]
  | moduleInstantiated module addr functions importedFunctions memories exports =>
    [("module", .text module), ("addr", .text addr.text), ("functions", .number functions),
      ("imported_functions", .number importedFunctions), ("memories", .number memories),
      ("exports", .number exports)]
  | instantiationFailed module functions memories error =>
    [("module", .text module), ("functions", .number functions), ("memories", .number memories),
      ("error", .text error)]
  | hostModuleRegistered module addr functions memories exports =>
    [("module", .text module), ("addr", .text addr.text), ("functions", .number functions),
      ("memories", .number memories), ("exports", .number exports)]
  | trapRaised message depth => [("message", .text message), ("depth", .number depth)]
  | printed function value => [("func", .text function), ("value", .text value)]
  | aborted message file line column =>
    [("message", .text message), ("file", .text file), ("line", .number line),
      ("column", .number column)]

end Event

end WasmCore
