import WasmCore.Instruction.Basic
import WasmCore.Module.Section
import WasmCore.Text.Quoted

/-!
# Decoding errors

Why a stream is no module. A `DecodeError` is a cause with the places it was met in, innermost
first. Three classes matter to a caller: the stream ran out, the stream itself failed, or the module
is invalid. `DecodeError.malformed` puts an error of the inside of a section into the third class,
because running out of the bytes of a section is the fault of the section and not of the stream.
-/

namespace WasmCore.Binary

/-- Where a byte stands that can only have a few values. -/
inductive ByteRole where
  /-- The byte that starts a function type. -/
  | functionForm
  | valueType
  /-- The byte that tells whether limits have a maximum. -/
  | limits
  | elementType
  | mutability
  | importKind
  | exportKind
  | blockType
  | opcode
  /-- A byte that has to be zero. -/
  | reserved
  deriving DecidableEq, Repr

/-- What is wrong with a byte, after the words that say that it is wrong. -/
def ByteRole.text (role : ByteRole) (b : UInt8) : String :=
  let shown := Text.marked b.toNat
  match role with
  | .functionForm => ": " ++ shown ++ " != 0x60"
  | .valueType => ": invalid value type: " ++ shown
  | .limits => " for limits: " ++ shown ++ " != 0x00 or 0x01"
  | .elementType => ": invalid table element type: " ++ shown
  | .mutability => ": invalid global mutability: " ++ shown
  | .importKind => " for importdesc: " ++ shown
  | .exportKind => " for exportdesc: " ++ shown
  | .blockType => " for block type: " ++ shown
  | .opcode => ": invalid opcode: " ++ shown
  | .reserved => ": reserved byte must be zero: " ++ shown

/-- What a piece of text names. -/
inductive TextRole where
  | customSection
  | importModule
  | importName
  | exportName
  | moduleName
  /-- The name of the function with an index. -/
  | function (index : Nat)
  /-- The name of a local of a function. -/
  | localOf (function index : Nat)
  deriving DecidableEq, Repr

/-- What a piece of text names, in words. -/
def TextRole.text : TextRole → String
  | .customSection => "custom section name"
  | .importModule => "import module"
  | .importName => "import name"
  | .exportName => "export name"
  | .moduleName => "module name"
  | .function index => "function[" ++ toString index ++ "] name"
  | .localOf f index => "function[" ++ toString f ++ "] local[" ++ toString index ++ "] name"

/-- A sequence whose length is given before it. -/
inductive SizeRole where
  | vector
  | valueTypes
  | name (role : TextRole)
  | code
  | labels
  | data
  /-- A part of the debug names. -/
  | subsection (id : Nat)
  /-- The functions in a part of the debug names. -/
  | functions (subsection : Nat)
  /-- The locals of a function in the debug names. -/
  | localsOf (function : Nat)
  deriving DecidableEq, Repr

/-- A length that does not fit into the bytes that are left, each element taking at least one. -/
def SizeRole.text (role : SizeRole) (size remaining : Nat) : String :=
  let n := toString size
  let left := " remaining " ++ toString remaining ++ " bytes"
  match role with
  | .vector => "vector of size " ++ n ++ " exceeds" ++ left
  | .valueTypes => "vector of " ++ n ++ " value types exceeds" ++ left
  | .name role => role.text ++ " of size " ++ n ++ " exceeds" ++ left
  | .code => "code of size " ++ n ++ " exceeds" ++ left
  | .labels => n ++ " labels exceed" ++ left
  | .data => "data of size " ++ n ++ " exceeds" ++ left
  | .subsection id => "subsection[" ++ toString id ++ "] of size " ++ n ++ " exceeds" ++ left
  | .functions id =>
    "function count " ++ n ++ " of subsection[" ++ toString id ++ "] exceeds" ++ left
  | .localsOf function =>
    "function[" ++ toString function ++ "] local count " ++ n ++ " exceeds" ++ left

/-- A rule of the format that is broken. -/
inductive Flaw where
  | tooLong (role : SizeRole) (size remaining : Nat)
  | notUtf8 (role : TextRole)
  | repeatedCustomSection (name : String)
  | repeatedExport (position : Nat) (name : String)
  | minOverLimit (pages limit : Nat)
  | maxOverLimit (pages limit : Nat)
  | minOverMax (min max : Nat)
  | tooManyLocals (count : Nat)
  | bytesAfterBody (count : Nat)
  | elseWithoutIf (position : Nat)
  | bytesAfterSubsection (id count : Nat)
  | repeatedSection (id : SectionId)
  | bytesAfterSection (id : SectionId) (count : Nat)
  | lengthsDiffer (functions codes : Nat)
  deriving DecidableEq, Repr

/-- The rule in words. -/
def Flaw.text : Flaw → String
  | .tooLong role size remaining => role.text size remaining
  | .notUtf8 role => role.text ++ " is not valid UTF-8"
  | .repeatedCustomSection name => "custom section " ++ Text.quoted name ++ " repeated"
  | .repeatedExport position name =>
    "export[" ++ toString position ++ "] duplicates name " ++ Text.quoted name
  | .minOverLimit pages limit =>
    "min " ++ toString pages ++ " pages over limit of " ++ toString limit ++ " pages"
  | .maxOverLimit pages limit =>
    "max " ++ toString pages ++ " pages over limit of " ++ toString limit ++ " pages"
  | .minOverMax min max =>
    "min " ++ toString min ++ " pages > max " ++ toString max ++ " pages"
  | .tooManyLocals count => "too many locals: " ++ toString count
  | .bytesAfterBody count => toString count ++ " bytes after the end of the function body"
  | .elseWithoutIf position => "else at " ++ toString position ++ " does not follow an if"
  | .bytesAfterSubsection id count =>
    "subsection[" ++ toString id ++ "] has " ++ toString count ++ " unread bytes"
  | .repeatedSection id => "section " ++ id.name ++ " repeated"
  | .bytesAfterSection id count =>
    "section " ++ id.name ++ " has " ++ toString count ++ " unread bytes"
  | .lengthsDiffer functions codes =>
    "function and code section have inconsistent lengths: " ++ toString functions ++ " != " ++
      toString codes

/-- What was being read. -/
inductive Place where
  | magic
  | version
  | sectionId
  | sectionSize (id : SectionId)
  | sectionBytes (id : SectionId)
  /-- The payload fell short of its declared size. -/
  | sectionShort (id : SectionId) (got size : Nat)
  | inSection (id : SectionId)
  | integer
  | vectorSize
  | leadingByte
  | typeAt (position : Nat)
  | params
  | results
  | valueType
  | imports
  | importKind
  | importFunction
  | importTable
  | importMemory
  | importGlobal
  | elementType
  | mutability
  | limitMin
  | limitMax
  | typeIndex
  | memoryType
  | exports
  | exportKind
  | exportIndex
  | codeAt (position : Nat)
  | codeSize
  | localGroups
  | localCount
  | localType
  | opcode
  /-- An instruction at a position of its body. -/
  | instruction (code : UInt8) (position : Nat)
  | blockType
  | index
  | label
  | defaultLabel
  | indirectType
  | reserved
  | immediate
  | align
  | offset
  | segment
  | segmentMemory
  | segmentOffset
  | segmentSize
  | textSize (role : TextRole)
  | subsectionSize (id : Nat)
  | functionCount (subsection : Nat)
  | functionIndex (subsection : Nat)
  | localCountOf (function : Nat)
  | localIndexOf (function : Nat)
  deriving DecidableEq, Repr

/-- A place in words. -/
def Place.text : Place → String
  | .magic => "read magic number"
  | .version => "read version"
  | .sectionId => "read section id"
  | .sectionSize id => "get size of section " ++ id.name
  | .sectionBytes id => "read section " ++ id.name
  | .sectionShort id got size =>
    "section " ++ id.name ++ ": read " ++ toString got ++ " of " ++ toString size ++ " bytes"
  | .inSection id => "section " ++ id.name
  | .integer => "readByte failed"
  | .vectorSize => "get size of vector"
  | .leadingByte => "read leading byte"
  | .typeAt position => "read " ++ toString position ++ "-th type"
  | .params => "could not read parameter types"
  | .results => "could not read result types"
  | .valueType => "read value type"
  | .imports => "read import"
  | .importKind => "error decoding import kind"
  | .importFunction => "error decoding import func typeindex"
  | .importTable => "error decoding import table desc"
  | .importMemory => "error decoding import mem desc"
  | .importGlobal => "error decoding import global desc"
  | .elementType => "read table element type"
  | .mutability => "read global mutability"
  | .limitMin => "read min of limit"
  | .limitMax => "read max of limit"
  | .typeIndex => "get type index"
  | .memoryType => "read memory type"
  | .exports => "read export"
  | .exportKind => "error decoding export kind"
  | .exportIndex => "error decoding export index"
  | .codeAt position => "read " ++ toString position ++ "-th code segment"
  | .codeSize => "get the size of code"
  | .localGroups => "get the size locals"
  | .localCount => "read n of locals"
  | .localType => "read type of local"
  | .opcode => "read opcode"
  | .instruction code position => Instruction.nameOf code ++ " at " ++ toString position
  | .blockType => "read block type"
  | .index => "read index"
  | .label => "read label"
  | .defaultLabel => "read default label"
  | .indirectType => "read type index"
  | .reserved => "read reserved byte"
  | .immediate => "read immediate"
  | .align => "read memory align"
  | .offset => "read memory offset"
  | .segment => "read data segment"
  | .segmentMemory => "read memory index"
  | .segmentOffset => "read offset expression"
  | .segmentSize => "get the size of vector"
  | .textSize role => "failed to read " ++ role.text ++ " size"
  | .subsectionSize id => "failed to read the size of subsection[" ++ toString id ++ "]"
  | .functionCount id => "failed to read the function count of subsection[" ++ toString id ++ "]"
  | .functionIndex id => "failed to read a function index in subsection[" ++ toString id ++ "]"
  | .localCountOf function =>
    "failed to read the local count for function[" ++ toString function ++ "]"
  | .localIndexOf function =>
    "failed to read a local index of function[" ++ toString function ++ "]"

/-- Why a stream is no module. -/
inductive DecodeError where
  /-- There are no more bytes. -/
  | endOfInput
  /-- The bytes end in the middle of something. -/
  | truncated
  /-- The stream failed, for the reason given. -/
  | source (reason : String)
  /-- An integer is too long. -/
  | overflow
  /-- The stream does not start as a module does. -/
  | magic
  /-- The version is another one. -/
  | version (bytes : List UInt8)
  /-- A section has an unknown id. -/
  | sectionId (byte : UInt8)
  /-- A byte has none of its possible values. -/
  | byte (role : ByteRole) (b : UInt8)
  /-- A rule of the format is broken. -/
  | flaw (f : Flaw)
  /-- The module is invalid because of an error of another class. -/
  | invalid (e : DecodeError)
  /-- The error was met at a place. -/
  | within (place : Place) (e : DecodeError)
  /-- The error was met at a place that hides its class and keeps its text. -/
  | hidden (place : Place) (e : DecodeError)
  deriving DecidableEq, Repr

/-- The classes of decoding errors. -/
inductive DecodeError.Kind where
  | endOfInput | truncated | source | overflow
  | magic | version | sectionId | byte
  | invalid
  /-- None of the others. -/
  | plain
  deriving DecidableEq, Repr

namespace DecodeError

/-- The class of an error. -/
def kind : DecodeError → Kind
  | endOfInput => .endOfInput
  | truncated => .truncated
  | source _ => .source
  | overflow => .overflow
  | magic => .magic
  | version _ => .version
  | sectionId _ => .sectionId
  | byte _ _ => .byte
  | flaw _ => .plain
  | invalid _ => .invalid
  | within _ e => e.kind
  | hidden _ _ => .plain

/-- The classes in which the module is to blame. -/
def Kind.isInvalid : Kind → Bool
  | .magic | .version | .sectionId | .byte | .invalid => true
  | .endOfInput | .truncated | .source | .overflow | .plain => false

/-- The error in words. -/
def message : DecodeError → String
  | endOfInput => "EOF"
  | truncated => "unexpected EOF"
  | source reason => reason
  | overflow => "leb128: overflow"
  | magic => "invalid module: invalid magic number"
  | version bytes => "invalid module: invalid version header: 0x" ++ Text.hexBytes bytes
  | sectionId b => "invalid module: invalid section id: " ++ Text.marked b.toNat
  | byte role b => "invalid module: invalid byte" ++ role.text b
  | flaw f => f.text
  | invalid e => "invalid module: " ++ e.message
  | within place e => place.text ++ ": " ++ e.message
  | hidden place e => place.text ++ ": " ++ e.message

/-- The error of a module that is to blame for it. -/
def malformed (e : DecodeError) : DecodeError :=
  if e.kind.isInvalid then e else invalid e

end DecodeError

end WasmCore.Binary
