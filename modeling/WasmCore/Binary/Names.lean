import WasmCore.Binary.Decoder
import WasmCore.Module.Basic

/-!
# Debug names

The custom section `name` has parts with an id and a size: the name of the module, the names of
functions, and the names of locals by function. Parts with other ids are passed over, and of a part
that comes twice the last one counts.
-/

namespace WasmCore.Binary

open Decoder

/-- The id of the part with the name of the module. -/
def modulePart : Nat := 0

/-- The id of the part with the names of functions. -/
def functionPart : Nat := 1

/-- The id of the part with the names of locals. -/
def localPart : Nat := 2

/-- The number of functions in a part. -/
def functionCount (part : Nat) : Decoder Nat := do
  let n ← within (.functionCount part) u32
  fits (.functions part) n.toNat
  pure n.toNat

/-- The index of a function and its name. -/
def functionName : Decoder NameAssoc := do
  let index ← within (.functionIndex functionPart) u32
  let name ← text (.function index.toNat)
  pure ⟨index, name⟩

/-- The names of functions. -/
def functionNames : Decoder (List NameAssoc) := do
  let n ← functionCount functionPart
  repeated n fun _ => functionName

/-- The index of a local and its name. -/
def localName (function : UInt32) : Decoder NameAssoc := do
  let index ← within (.localIndexOf function.toNat) u32
  let name ← text (.localOf function.toNat index.toNat)
  pure ⟨index, name⟩

/-- The index of a function and the names of its locals. -/
def localNamesEntry : Decoder LocalNames := do
  let function ← within (.functionIndex localPart) u32
  let n ← within (.localCountOf function.toNat) u32
  fits (.localsOf function.toNat) n.toNat
  let names ← repeated n.toNat fun _ => localName function
  pure ⟨function, names⟩

/-- The names of locals by function. -/
def localNames : Decoder (List LocalNames) := do
  let n ← functionCount localPart
  repeated n fun _ => localNamesEntry

/-- The contents of one part, added to the names so far; `none` if its id is unknown. -/
def namePart? (names : NameSection) (part : Nat) : Option (Decoder NameSection) :=
  if part = modulePart then some do
    pure { names with module := ← text .moduleName }
  else if part = functionPart then some do
    pure { names with functions := ← functionNames }
  else if part = localPart then some do
    pure { names with locals := ← localNames }
  else none

/-- The parts up to the end of the section. Each takes a byte at least, so `fuel` bytes suffice. -/
def nameParts : (fuel : Nat) → NameSection → Decoder NameSection
  | 0, names => pure names
  | fuel + 1, names => do
    if ← atEnd then pure names
    else
      let part := (← byte).toNat
      let size ← within (.subsectionSize part) u32
      fits (.subsection part) size.toNat
      let bytes ← upTo size.toNat
      match namePart? names part with
      | none => nameParts fuel names
      | some contents => do
        let (added, left) ← nested bytes contents
        if left.isEmpty then nameParts fuel added
        else fail (.flaw (.bytesAfterSubsection part left.length))

/-- The debug names, which take all of the bytes. -/
def nameSection : Decoder NameSection := do
  let fuel ← remaining
  nameParts fuel {}

end WasmCore.Binary
