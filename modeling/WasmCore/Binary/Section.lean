import WasmCore.Binary.Expression
import WasmCore.Module.Basic

/-!
# Sections

The decoders of the contents of each section, except the debug names.
-/

namespace WasmCore.Binary

open Decoder

/-! ### Types -/

/-- A list of value types with its length before it. -/
def valueTypes : Decoder (List ValueType) := do
  let n ← within .vectorSize u32
  fits .valueTypes n.toNat
  repeated n.toNat fun _ => valueType

/-- A signature. -/
def functionType : Decoder FunctionType := do
  let form ← within .leadingByte byte
  if form = 0x60 then
    let params ← within .params valueTypes
    let results ← within .results valueTypes
    pure ⟨params, results⟩
  else fail (.byte .functionForm form)

/-- The limits of a memory or table. -/
def limits : Decoder MemoryType := do
  let flag ← within .leadingByte byte
  if flag = 0 then
    let min ← within .limitMin u32
    pure ⟨min, none⟩
  else if flag = 1 then
    let min ← within .limitMin u32
    let max ← within .limitMax u32
    pure ⟨min, some max⟩
  else fail (.byte .limits flag)

/-- What is wrong with the limits of a memory, if anything is. -/
def memoryFlaw? (t : MemoryType) : Option Flaw :=
  if maxPages < t.min then some (.minOverLimit t.min.toNat maxPages.toNat)
  else
    match t.max with
    | none => none
    | some max =>
      if maxPages < max then some (.maxOverLimit max.toNat maxPages.toNat)
      else if max < t.min then some (.minOverMax t.min.toNat max.toNat)
      else none

/-- The type of a memory. -/
def memoryType : Decoder MemoryType := do
  let t ← limits
  match memoryFlaw? t with
  | none => pure t
  | some f => fail (.flaw f)

/-- The type of a table, which is not kept. -/
def tableType : Decoder Unit := do
  let b ← within .elementType byte
  if b = 0x70 then
    let _ ← limits
    pure ()
  else fail (.byte .elementType b)

/-- The type of a global, which is not kept. -/
def globalType : Decoder Unit := do
  let _ ← valueType
  let b ← within .mutability byte
  if b ≤ 1 then pure () else fail (.byte .mutability b)

/-! ### Imports and exports -/

/-- What an import denotes. -/
def importDesc : Decoder ImportDesc := do
  let b ← within .importKind byte
  match ExternKind.ofCode b with
  | .function => do
    let type ← within .importFunction u32
    pure (.function type)
  | .table => do
    within .importTable tableType
    pure .table
  | .memory => do
    let type ← within .importMemory memoryType
    pure (.memory (some type))
  | .global => do
    within .importGlobal globalType
    pure .global
  | .other _ => fail (.byte .importKind b)

/-- An import. -/
def importEntry : Decoder Import := do
  let module ← text .importModule
  let name ← text .importName
  let desc ← importDesc
  pure ⟨module, name, desc⟩

/-- An export. -/
def exportEntry : Decoder Export := do
  let name ← text .exportName
  let b ← within .exportKind byte
  match ExternKind.ofCode b with
  | .other _ => fail (.byte .exportKind b)
  | kind => do
    let index ← within .exportIndex u32
    pure ⟨name, kind, index⟩

/-- Exports from `position` on, none of them with a name in `taken` or with that of another. -/
def exportEntries : (count position : Nat) → (taken : List String) → Decoder (List Export)
  | 0, _, _ => pure []
  | n + 1, position, taken => do
    let e ← within .exports exportEntry
    if e.name ∈ taken then fail (.flaw (.repeatedExport position e.name))
    else
      let es ← exportEntries n (position + 1) (e.name :: taken)
      pure (e :: es)

/-! ### Code and data -/

/-- Locals one function may declare, so that a small body cannot ask for a huge frame. -/
def maxLocals : Nat := 50000

/-- Groups of equal locals, `declared` locals having gone before. -/
def localGroups : (groups declared : Nat) → Decoder (List ValueType)
  | 0, _ => pure []
  | k + 1, declared => do
    let n ← within .localCount u32
    let total := declared + n.toNat
    if maxLocals < total then fail (.flaw (.tooManyLocals total))
    else
      let type ← within .localType valueType
      let rest ← localGroups k total
      pure (List.replicate n.toNat type ++ rest)

/-- The locals and the body of a function, which take all of the bytes. -/
def functionBody : Decoder Code := do
  let groups ← within .localGroups u32
  let locals ← localGroups groups.toNat 0
  let body ← expression
  pure ⟨locals, body⟩

/-- The size of a function body, and the body. -/
def codeEntry : Decoder Code := do
  let size ← within .codeSize u32
  fits .code size.toNat
  let bytes ← upTo size.toNat
  let (code, left) ← nested bytes functionBody
  if left.isEmpty then pure code else fail (.flaw (.bytesAfterBody left.length))

/-- A data segment. -/
def dataSegment : Decoder DataSegment := do
  let memory ← within .segmentMemory u32
  let offset ← within .segmentOffset expression
  let size ← within .segmentSize u32
  fits .data size.toNat
  let init ← upTo size.toNat
  pure ⟨memory, offset, init⟩

/-! ### Whole sections -/

/-- The type section. -/
def typeSection : Decoder (List FunctionType) :=
  vector fun i => concealing (.typeAt i) functionType

/-- The import section. -/
def importSection : Decoder (List Import) :=
  vector fun _ => within .imports importEntry

/-- The function section. -/
def functionSection : Decoder (List UInt32) :=
  vector fun _ => within .typeIndex u32

/-- The memory section. -/
def memorySection : Decoder (List (Option MemoryType)) :=
  vector fun _ => some <$> within .memoryType memoryType

/-- The export section. -/
def exportSection : Decoder (List Export) := do
  let n ← within .vectorSize u32
  fits .vector n.toNat
  exportEntries n.toNat 0 []

/-- The code section. -/
def codeSection : Decoder (List Code) :=
  vector fun i => concealing (.codeAt i) codeEntry

/-- The data section. -/
def dataSection : Decoder (List DataSegment) :=
  vector fun _ => within .segment dataSegment

end WasmCore.Binary
