import WasmCore.Store.Basic
import WasmCore.Terminal.Block

/-!
# Reports

What a store holds, in lines: its functions and memories, then every module with its index spaces,
exports and debug names. The lines have three styles; on a terminal each is set as a block, and a
blank on both sides sets off headings.
-/

namespace WasmCore.Report

/-- How a line is set. -/
inductive Style where
  | heading | title | entry
  deriving DecidableEq, Repr

/-- One line of a report. -/
structure Line where
  style : Style
  text : String
  deriving DecidableEq, Repr

/-- A heading. -/
def heading (text : String) : Line := ⟨.heading, text⟩

/-- The title of a group of entries. -/
def title (text : String) : Line := ⟨.title, text⟩

/-- An entry. -/
def entry (text : String) : Line := ⟨.entry, text⟩

/-- The margin of a style on a terminal. -/
def Style.margin : Style → Nat
  | .heading => 1
  | .title | .entry => 0

/-- A line as text, set as a block if it is for a terminal. -/
def Line.render (terminal : Bool) (l : Line) : String :=
  if terminal then Terminal.block l.style.margin l.text else l.text

/-- A number of four digits at least. -/
def four (n : Nat) : String := Text.decimal 4 n

/-! ### Instances -/

/-- A function, at a position counted from one. -/
def functionLine (f : FunctionInstance) (i : Nat) : Line :=
  let start := "  * " ++ four (i + 1) ++ " " ++ f.type.text ++ " "
  match f.body with
  | .host _ => entry (start ++ "<extern>")
  | .defined owner position _ => entry (start ++ owner.text ++ " " ++ four position)

/-- A run of bytes that are not zero. -/
def rangeLine (r : ByteRange) : Line :=
  entry ("    * 0x" ++ Text.hex 8 r.start ++ " - 0x" ++ Text.hex 8 (r.stop - 1) ++ " (size: " ++
    toString r.size ++ ")")

/-- A memory, at a position counted from one. -/
def memoryLines (m : Memory) (i : Nat) : List Line :=
  let limit :=
    match m.max with
    | none => "<unlimited>"
    | some max => toString max.toNat
  entry ("  * " ++ four (i + 1) ++ " " ++ toString m.length ++ " " ++ limit) ::
    title "    Initialized Ranges:" :: m.initializedRanges.map rangeLine

/-! ### Debug names -/

/-- The entry of a map for an index; of several the last one counts. -/
def lastWith? {α : Type} (index : α → UInt32) (xs : List α) (i : UInt32) : Option α :=
  xs.findRev? fun x => index x = i

/-- Keeps the first of equal neighbours. -/
def dropRepeats : List UInt32 → List UInt32
  | i :: j :: rest => if i = j then dropRepeats (j :: rest) else i :: dropRepeats (j :: rest)
  | is => is

/-- The functions that have a name or named locals, ascending, each once. -/
def namedFunctions (n : NameSection) : List UInt32 :=
  dropRepeats ((n.functions.map NameAssoc.index ++ n.locals.map LocalNames.index).mergeSort
    (fun i j => decide (i ≤ j)))

/-- A function with its name and its locals. -/
def namedFunctionLines (n : NameSection) (i : UInt32) : List Line :=
  let name := ((lastWith? NameAssoc.index n.functions i).map NameAssoc.name).getD "<no name>"
  let locals := ((lastWith? LocalNames.index n.locals i).map LocalNames.names).getD []
  entry ("    * " ++ four i.toNat ++ " " ++ name) ::
    locals.map fun l => entry ("      * " ++ four l.index.toNat ++ " " ++ l.name)

/-- The debug names of a module. -/
def nameLines (n : NameSection) : List Line :=
  let module := if n.module.isEmpty then [] else [entry ("    Module: " ++ n.module)]
  let functions :=
    match namedFunctions n with
    | [] => []
    | is => title "    Functions:" :: is.flatMap (namedFunctionLines n)
  title "  Debug Names:" :: module ++ functions

/-! ### Modules -/

/-- A titled list, left out if it is empty. -/
def listed (name : String) (entries : List String) : List Line :=
  if entries.isEmpty then []
  else title name :: entries.zipIdx.map fun (text, i) => entry ("  * " ++ four i ++ " " ++ text)

/-- A module, at a position counted from one. -/
def moduleLines (m : ModuleInstance) (i : Nat) (isEntryPoint : Bool) : List Line :=
  heading (four (i + 1) ++ " Instance '" ++ m.name ++ "':") ::
    (if isEntryPoint then [entry "  Entry Point"] else []) ++
    listed "  Functions:" (m.functions.toList.map FunctionAddr.text) ++
    listed "  Memories:" (m.memories.toList.map MemoryAddr.text) ++
    listed "  Exports:" (m.exports.toList.map fun e => e.name ++ " " ++ e.target.text) ++
    (m.names.map nameLines).getD []

/-- The lines of the report of a store, in which one module is marked as the entry point. -/
def lines (s : Store) (entryPoint : ModuleAddr) : List Line :=
  heading "Host information:" ::
    title "  Functions:" :: s.functions.toList.zipIdx.map (fun (f, i) => functionLine f i) ++
    title "  Memories:" :: s.memories.toList.zipIdx.flatMap (fun (m, i) => memoryLines m i) ++
    s.modules.toList.zipIdx.flatMap fun (m, i) => moduleLines m i (i = entryPoint.index)

/-- The report of a store as text. -/
def text (s : Store) (entryPoint : ModuleAddr) (terminal : Bool) : String :=
  (lines s entryPoint).foldl (fun done l => done ++ l.render terminal ++ "\n") ""

end WasmCore.Report
