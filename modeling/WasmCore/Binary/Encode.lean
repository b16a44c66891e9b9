import WasmCore.Binary.Module

/-!
# Encoding

The canonical binary form of a module: integers in their shortest form, sections in the order of
their ids, empty sections left out, custom sections first and the debug names last. Nothing is
checked, but imports that are neither functions nor memories have no encoding.
-/

namespace WasmCore.Binary

/-- Why a module has no encoding. -/
inductive EncodeError where
  /-- An import of a kind that cannot be written. -/
  | unsupportedImport (kind : ExternKind)
  /-- A memory without a type. -/
  | missingMemoryType
  deriving DecidableEq, Repr

/-- The error in words. -/
def EncodeError.message : EncodeError → String
  | .unsupportedImport kind => "unsupported import type: " ++ kind.name
  | .missingMemoryType => "runtime error"

/-! ### Items -/

/-- An unsigned 32-bit integer. -/
def encodeU32 (n : UInt32) : List UInt8 := Leb128.encodeUnsigned n.toNat

/-- A count or size, which has 32 bits. -/
def encodeCount (n : Nat) : List UInt8 := encodeU32 (.ofNat n)

/-- Bytes with their number before them. -/
def sized (bytes : List UInt8) : List UInt8 := encodeCount bytes.length ++ bytes

/-- Text with its size in bytes before it. -/
def encodeText (s : String) : List UInt8 := sized s.toUTF8.toList

/-- Encoded items with their number before them. -/
def encodeVector (items : List (List UInt8)) : List UInt8 :=
  encodeCount items.length ++ items.flatten

/-- The low `n` bytes of a number, lowest first. -/
def littleEndian : Nat → Nat → List UInt8
  | 0, _ => []
  | n + 1, v => (v % 256).toUInt8 :: littleEndian n (v / 256)

/-! ### Code -/

/-- The immediates of an instruction. -/
def encodeImmediates : Instruction → List UInt8
  | .block type _ | .loop type _ | .cond type _ _ =>
    [if type = .other 0 then ValueType.empty.code else type.code]
  | .br n | .brIf n | .call n | .localGet n | .localSet n | .localTee n | .globalGet n
  | .globalSet n => encodeU32 n
  | .brTable targets fallback => encodeVector (targets.map encodeU32) ++ encodeU32 fallback
  | .callIndirect n => encodeU32 n ++ [0]
  | .memorySize | .memoryGrow => [0]
  | .const .i32 payload => Leb128.encodeSigned payload.toUInt32.toBitVec.toInt
  | .const .i64 payload => Leb128.encodeSigned payload.toBitVec.toInt
  | .const .f32 payload => littleEndian 4 payload.toNat
  | .const .f64 payload => littleEndian 8 payload.toNat
  | .load _ align offset | .store _ align offset => encodeU32 align ++ encodeU32 offset
  | _ => []

/-- An instruction. -/
def encodeInstruction (i : Instruction) : List UInt8 := i.opcode :: encodeImmediates i

/-- Instructions and the `end` that closes them. -/
def encodeExpression (body : Array Instruction) : List UInt8 :=
  body.toList.flatMap encodeInstruction ++ [Instruction.close.opcode]

/-- Runs of equal types with their lengths. -/
def runs : List ValueType → List (Nat × ValueType)
  | [] => []
  | t :: rest =>
    match runs rest with
    | (n, u) :: more => if t = u then (n + 1, u) :: more else (1, t) :: (n, u) :: more
    | [] => [(1, t)]

/-- The locals and the body of a function, with their size. -/
def encodeCode (c : Code) : List UInt8 :=
  sized (encodeVector ((runs c.locals).map fun (n, t) => encodeCount n ++ [t.code]) ++
    encodeExpression c.body)

/-- A data segment. -/
def encodeData (d : DataSegment) : List UInt8 :=
  encodeU32 d.memory ++ encodeExpression d.offset ++ sized d.init

/-! ### Types, imports and exports -/

/-- A signature. -/
def encodeFunctionType (t : FunctionType) : List UInt8 :=
  0x60 :: encodeVector (t.params.map fun p => [p.code]) ++
    encodeVector (t.results.map fun r => [r.code])

/-- The type of a memory. -/
def encodeMemoryType : Option MemoryType → Except EncodeError (List UInt8)
  | none => .error .missingMemoryType
  | some ⟨min, none⟩ => .ok (0 :: encodeU32 min)
  | some ⟨min, some max⟩ => .ok (1 :: encodeU32 min ++ encodeU32 max)

/-- What an import denotes, after the byte of its kind. -/
def encodeImportDesc (d : ImportDesc) : Except EncodeError (List UInt8) :=
  match d with
  | .function type => .ok (encodeU32 type)
  | .memory type => encodeMemoryType type
  | _ => .error (.unsupportedImport d.kind)

/-- An import. -/
def encodeImport (i : Import) : Except EncodeError (List UInt8) := do
  let desc ← encodeImportDesc i.desc
  pure (encodeText i.module ++ encodeText i.name ++ i.desc.kind.code :: desc)

/-- An export. -/
def encodeExport (e : Export) : List UInt8 :=
  encodeText e.name ++ e.kind.code :: encodeU32 e.index

/-! ### Debug names -/

/-- An index and its name. -/
def encodeNameAssoc (n : NameAssoc) : List UInt8 := encodeU32 n.index ++ encodeText n.name

/-- Indices and their names. -/
def encodeNameMap (names : List NameAssoc) : List UInt8 := encodeVector (names.map encodeNameAssoc)

/-- A part of the debug names, left out if it has nothing to say. -/
def encodeNamePart (part : Nat) (empty : Bool) (contents : List UInt8) : List UInt8 :=
  if empty then [] else part.toUInt8 :: sized contents

/-- The debug names. -/
def encodeNames (n : NameSection) : List UInt8 :=
  encodeNamePart modulePart n.module.isEmpty (encodeText n.module) ++
    encodeNamePart functionPart n.functions.isEmpty (encodeNameMap n.functions) ++
    encodeNamePart localPart n.locals.isEmpty
      (encodeVector (n.locals.map fun l => encodeU32 l.index ++ encodeNameMap l.names))

/-! ### Modules -/

/-- A section with its id and size. -/
def encodeSection (id : SectionId) (contents : List UInt8) : List UInt8 := id.byte :: sized contents

/-- A section of items, left out if there is none. -/
def encodeItems (id : SectionId) (items : List (List UInt8)) : List UInt8 :=
  if items.isEmpty then [] else encodeSection id (encodeVector items)

/-- A module. -/
def encode (m : Module) : Except EncodeError (List UInt8) := do
  let imports ← m.imports.mapM encodeImport
  let memories ← m.memories.mapM encodeMemoryType
  pure (magicNumber ++ formatVersion ++
    m.customs.flatMap (fun c => encodeSection .custom (encodeText c.name ++ c.data)) ++
    encodeItems .types (m.types.map encodeFunctionType) ++
    encodeItems .imports imports ++
    encodeItems .functions (m.functions.map encodeU32) ++
    encodeItems .memories memories ++
    encodeItems .exports (m.exports.map encodeExport) ++
    encodeItems .codes (m.codes.map encodeCode) ++
    encodeItems .data (m.data.map encodeData) ++
    match m.names with
    | none => []
    | some names => encodeSection .custom (encodeText "name" ++ encodeNames names))

end WasmCore.Binary
