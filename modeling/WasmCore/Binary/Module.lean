import WasmCore.Binary.Names
import WasmCore.Binary.Section
import WasmCore.Event

/-!
# Binary modules

A module is a header and a sequence of sections, each with an id and a size. `frames` cuts the
stream into sections and says how it ended; `Draft.addAll` decodes them one after the other.
Sections may come in any order, but each only once; of the custom sections no two may have the same
name.

Truncation of the stream is told apart from everything that is wrong with the module, and a stream
that fails reports its failure rather than its end.
-/

namespace WasmCore.Binary

/-! ### Streams -/

/-- What comes after the last byte of a stream. -/
inductive Ending where
  /-- The stream ends. -/
  | clean
  /-- Reading fails. -/
  | failing (reason : String)
  deriving DecidableEq, Repr

/-- A source of bytes. -/
structure Stream where
  bytes : List UInt8
  ending : Ending := .clean
  deriving DecidableEq, Repr

/-- The error of a stream that does not go on: it is truncated, unless it failed. -/
def Ending.error : Ending → DecodeError
  | .clean => .truncated
  | .failing reason => .source reason

/-! ### Header -/

/-- The four bytes that start a module. -/
def magicNumber : List UInt8 := [0x00, 0x61, 0x73, 0x6d]

/-- The version of the format. -/
def formatVersion : List UInt8 := [0x01, 0x00, 0x00, 0x00]

/-- Four bytes of the header. -/
def headerField (place : Place) (s : Stream) : Except DecodeError (List UInt8 × Stream) :=
  if hasBytes 4 s.bytes then .ok (s.bytes.take 4, { s with bytes := s.bytes.drop 4 })
  else .error (.within place s.ending.error)

/-- Reads the header and leaves what follows it. -/
def readHeader (s : Stream) : Except DecodeError Stream := do
  let (magic, s) ← headerField .magic s
  if magic = magicNumber then
    let (version, s) ← headerField .version s
    if version = formatVersion then .ok s else .error (.version version)
  else .error .magic

/-! ### Frames -/

/-- A section whose contents are not decoded yet. -/
structure Frame where
  id : SectionId
  payload : List UInt8
  deriving DecidableEq, Repr

/-- The size of a section and what follows it. -/
def sectionSize (id : SectionId) (s : Stream) : Except DecodeError (Nat × List UInt8) :=
  match Leb128.decodeUnsigned 32 s.bytes with
  | (.ok n, rest) => .ok (n, rest)
  | (.error .overflow, _) => .error (.within (.sectionSize id) (.invalid .overflow))
  | (.error .endOfInput, _) =>
    match s.ending with
    | .clean => .error (.within (.sectionSize id) .truncated)
    | .failing reason => .error (.within (.sectionSize id) (.within .integer (.source reason)))

/-- The payload of a section and what follows it. -/
def sectionPayload (id : SectionId) (size : Nat) (s : Stream) :
    Except DecodeError (List UInt8 × List UInt8) :=
  if hasBytes size s.bytes then .ok (s.bytes.take size, s.bytes.drop size)
  else
    match s.ending with
    | .clean => .error (.within (.sectionShort id s.bytes.length size) .truncated)
    | .failing reason => .error (.within (.sectionBytes id) (.source reason))

/-- The complete sections of a stream, and the error that stands after the last of them; none if the
stream ends cleanly there. Every section takes a byte at least, so `fuel` bytes suffice. -/
def framesFrom (ending : Ending) : (fuel : Nat) → List UInt8 → List Frame × Option DecodeError
  | _, [] =>
    match ending with
    | .clean => ([], none)
    | .failing reason => ([], some (.within .sectionId (.source reason)))
  | 0, _ :: _ => ([], none)
  | fuel + 1, b :: bytes =>
    let id := SectionId.ofByte b
    match sectionSize id ⟨bytes, ending⟩ with
    | .error e => ([], some e)
    | .ok (size, bytes) =>
      match sectionPayload id size ⟨bytes, ending⟩ with
      | .error e => ([], some e)
      | .ok (payload, bytes) =>
        let (frames, failure) := framesFrom ending fuel bytes
        (⟨id, payload⟩ :: frames, failure)

/-- The complete sections of a stream, and how it ends. -/
def frames (s : Stream) : List Frame × Option DecodeError :=
  framesFrom s.ending s.bytes.length s.bytes

/-! ### Sections of a module -/

/-- The module already has a custom section of this name. -/
def hasCustom (m : Module) (name : String) : Bool :=
  m.customs.any (fun c => c.name = name) || (name = "name" && m.names.isSome)

/-- A custom section. -/
def customSection (m : Module) : Decoder Module := do
  let name ← Decoder.text .customSection
  if hasCustom m name then Decoder.fail (.flaw (.repeatedCustomSection name))
  else if name = "name" then
    pure { m with names := some (← nameSection) }
  else
    pure { m with customs := m.customs ++ [⟨name, ← Decoder.all⟩] }

/-- The contents of a section, put into the module. -/
def sectionContents (m : Module) (id : SectionId) : Decoder Module :=
  match id with
  | .custom => customSection m
  | .types => do pure { m with types := ← typeSection }
  | .imports => do pure { m with imports := ← importSection }
  | .functions => do pure { m with functions := ← functionSection }
  | .memories => do pure { m with memories := ← memorySection }
  | .exports => do pure { m with exports := ← exportSection }
  | .codes => do pure { m with codes := ← codeSection }
  | .data => do pure { m with data := ← dataSection }
  | .tables | .globals | .start | .elements => do
    let _ ← Decoder.all
    pure m
  | .other b => Decoder.fail (.sectionId b)

/-- Sections that are passed over. -/
def isSkipped : SectionId → Bool
  | .tables | .globals | .start | .elements => true
  | _ => false

/-! ### Decoding -/

/-- A module of which some sections have been decoded. -/
structure Draft where
  module : Module := {}
  /-- The ids of these sections, custom sections apart. -/
  seen : List SectionId := []
  /-- What was reported about them. -/
  events : List Event := []

namespace Draft

/-- Decodes one more section. -/
def add (d : Draft) (f : Frame) : Except DecodeError Draft :=
  if f.id ∈ d.seen then .error (.invalid (.flaw (.repeatedSection f.id)))
  else
    match sectionContents d.module f.id f.payload with
    | .error e => .error (.within (.inSection f.id) e.malformed)
    | .ok (m, left) =>
      if left.isEmpty then
        let skipped := if isSkipped f.id then [.sectionSkipped f.id f.payload.length] else []
        .ok {
          module := m
          seen := if f.id = .custom then d.seen else f.id :: d.seen
          events := d.events ++ skipped ++
            [.sectionDecoded f.id f.payload.length (m.sectionCount f.id)] }
      else .error (.invalid (.flaw (.bytesAfterSection f.id left.length)))

/-- Decodes sections until one fails, and keeps the draft of those before it. -/
def addAll (d : Draft) : List Frame → Draft × Option DecodeError
  | [] => (d, none)
  | f :: fs =>
    match d.add f with
    | .error e => (d, some e)
    | .ok d => d.addAll fs

/-- The finished module: every function has its code. -/
def finish (d : Draft) : Except DecodeError Module :=
  if d.module.functions.length = d.module.codes.length then .ok d.module
  else .error (.invalid (.flaw
    (.lengthsDiffer d.module.functions.length d.module.codes.length)))

end Draft

/-- Decodes a module, and reports what was decoded also if that fails. -/
def decodeWithEvents (s : Stream) : List Event × Except DecodeError Module :=
  match readHeader s with
  | .error e => ([], .error e)
  | .ok s =>
    let (fs, failure) := frames s
    match Draft.addAll {} fs with
    | (d, some e) => (d.events, .error e)
    | (d, none) =>
      match failure with
      | some e => (d.events, .error e)
      | none => (d.events, d.finish)

/-- Decodes a module. -/
def decode (s : Stream) : Except DecodeError Module := (decodeWithEvents s).2

end WasmCore.Binary
