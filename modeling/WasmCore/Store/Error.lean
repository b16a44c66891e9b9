import WasmCore.Store.Basic
import WasmCore.Text.Quoted

/-!
# Linking errors

Why a module cannot be linked, or a module of host functions not be registered. Those that are the
fault of the module say so in their text.
-/

namespace WasmCore

/-- What is wrong with the type of a memory. -/
inductive MemoryFlaw where
  | missing
  | minOverLimit (min limit : Nat)
  | minOverMax (min max : Nat)
  deriving DecidableEq, Repr

/-- The words that mark an error as the fault of the module. -/
def blameModule (text : String) : String := "invalid module: " ++ text

/-- The flaw in words. -/
def MemoryFlaw.message : MemoryFlaw → String
  | .missing => blameModule "missing memory type"
  | .minOverLimit min limit =>
    blameModule ("min " ++ toString min ++ " pages over limit of " ++ toString limit ++ " pages")
  | .minOverMax min max =>
    blameModule ("min " ++ toString min ++ " pages > max " ++ toString max ++ " pages")

/-- The type of a memory that may be created under a limit, or what is wrong with it. -/
def checkMemoryType (limit : Nat) : Option MemoryType → Except MemoryFlaw MemoryType
  | none => .error .missing
  | some t =>
    if limit < t.min.toNat then .error (.minOverLimit t.min.toNat limit)
    else
      match t.max with
      | none => .ok t
      | some max =>
        if max < t.min then .error (.minOverMax t.min.toNat max.toNat) else .ok t

/-- Why a module cannot be linked. -/
inductive LinkError where
  /-- No module has this handle. -/
  | unknownModule (addr : ModuleAddr)
  /-- An import names a module that is not there. -/
  | moduleNotFound (module : String)
  /-- An import names an export that its module does not have. -/
  | exportNotFound (module name : String)
  | importKind (module name : String) (expected actual : ExternKind)
  | importType (module name : String) (index : Nat)
  | importSignature (module name : String) (expected actual : FunctionType)
  | lengthsDiffer (functions codes : Nat)
  | functionType (position index : Nat)
  | memoryType (position : Nat) (flaw : MemoryFlaw)
  | dataOffset (position : Nat)
  | dataMemory (position index : Nat)
  | dataBounds (position offset length memoryLength : Nat)
  | exportFunction (name : String) (index : Nat)
  | exportMemory (name : String) (index : Nat)
  | exportMemoryType (name : String) (flaw : MemoryFlaw)
  | exportUnsupported (name : String) (kind : ExternKind)
  /-- A handle in the store denotes nothing, which never happens in a store built by linking. -/
  | dangling
  deriving DecidableEq, Repr

namespace LinkError

/-- The error in words. -/
def message : LinkError → String
  | unknownModule addr => "unknown module " ++ addr.text
  | moduleNotFound module => "module[" ++ module ++ "] not instantiated"
  | exportNotFound module name =>
    Text.quoted name ++ " is not exported in module " ++ Text.quoted module
  | importKind module name expected actual =>
    blameModule ("import[" ++ module ++ "." ++ name ++ "] is a " ++ expected.name ++
      ", but was exported as a " ++ actual.name)
  | importType module name index =>
    blameModule ("import[" ++ module ++ "." ++ name ++ "] has unknown type index " ++
      toString index)
  | importSignature module name expected actual =>
    blameModule ("import[" ++ module ++ "." ++ name ++ "] signature mismatch: " ++ expected.text ++
      " != " ++ actual.text)
  | lengthsDiffer functions codes =>
    blameModule ("function and code section have inconsistent lengths: " ++ toString functions ++
      " != " ++ toString codes)
  | functionType position index =>
    blameModule ("function[" ++ toString position ++ "] has unknown type index " ++ toString index)
  | memoryType position flaw => "memory[" ++ toString position ++ "]: " ++ flaw.message
  | dataOffset position =>
    "data[" ++ toString position ++ "]: " ++ blameModule "offset is not a constant i32 expression"
  | dataMemory position index =>
    blameModule ("data[" ++ toString position ++ "] has unknown memory index " ++ toString index)
  | dataBounds position offset length memoryLength =>
    blameModule ("data[" ++ toString position ++ "] out of bounds: offset " ++ toString offset ++
      ", length " ++ toString length ++ ", memory length " ++ toString memoryLength)
  | exportFunction name index =>
    blameModule ("export[" ++ name ++ "] has unknown function index " ++ toString index)
  | exportMemory name index =>
    blameModule ("export[" ++ name ++ "] has unknown memory index " ++ toString index)
  | exportMemoryType name flaw => "export[" ++ name ++ "]: " ++ flaw.message
  | exportUnsupported name kind =>
    blameModule ("export[" ++ name ++ "]: " ++ kind.name ++ " exports are not supported")
  | dangling => "runtime error"

end LinkError

/-- What is wrong with a declaration of a host module. -/
inductive DeclarationError where
  /-- The name is taken. -/
  | exportExists (name : String)
  /-- A parameter or result is not a number. -/
  | invalidType (function : String) (type : ValueType)
  /-- An alias for a name that was not declared before. -/
  | unknownTarget (name target : String)
  deriving DecidableEq, Repr

/-- The error in words. -/
def DeclarationError.message : DeclarationError → String
  | .exportExists name => "export[" ++ name ++ "] already exists"
  | .invalidType function type =>
    "function[" ++ function ++ "] has invalid value type " ++ type.text
  | .unknownTarget name target =>
    "alias[" ++ name ++ "] refers to unknown export[" ++ target ++ "]"

/-- Why a module of host functions cannot be registered. -/
inductive RegisterError where
  | declaration (module : String) (e : DeclarationError)
  /-- It declares memories where only functions are allowed. -/
  | memories (module : String)
  | memoryType (module : String) (position : Nat) (flaw : MemoryFlaw)
  deriving DecidableEq, Repr

/-- The error in words. -/
def RegisterError.message : RegisterError → String
  | .declaration module e => "module[" ++ module ++ "]: " ++ e.message
  | .memories module => "module[" ++ module ++ "]: a synthesized module cannot export memories"
  | .memoryType module position flaw =>
    "module[" ++ module ++ "]: memory[" ++ toString position ++ "]: " ++ flaw.message

end WasmCore
