import WasmCore.Terminal.ControlSequence
import WasmCore.Terminal.Wide
import WasmCore.Text.Cluster

/-!
# Width on a terminal

The number of cells that a line fills on a terminal: one for each character of ASCII that is shown,
and the width of its cluster for every other character. Commands to the terminal fill none; a
character outside of ASCII ends a command unless the command takes text.
-/

namespace WasmCore.Terminal

open Text (BreakClass Tail breakClass clusterTail length_clusterTail_le)

/-! ### Clusters -/

/-- The cells of a character of a class. -/
def charCells (c : Char) : BreakClass → Nat
  | .control | .carriageReturn | .lineFeed | .extending | .joiner => 0
  | .regionalIndicator => 2
  | .pictograph => if emojiRanges.covers c then 2 else 1
  | _ =>
    if c.toNat = 0x2e3a then 3
    else if c.toNat = 0x2e3b then 4
    else if wideRanges.covers c then 2
    else 1

/-- The cells of a pictograph after a character of its cluster: a selector asks for the form of text
or of an emoji. -/
def selected (cells : Nat) (c : Char) : Nat :=
  if c.toNat = 0xfe0e then 1 else if c.toNat = 0xfe0f then 2 else cells

/-- The cells of a cluster: a flag or a syllable of Hangul is as wide as its first character, and so
is a pictograph unless a form is selected. -/
def clusterCells (first : Char) (more : List Char) : Nat :=
  let start := charCells first (breakClass first)
  match breakClass first with
  | .pictograph => more.foldl selected start
  | .regionalIndicator | .hangulL => start
  | _ => more.foldl (fun cells c => cells + charCells c (breakClass c)) start

/-! ### Lines -/

/-- The cells that a text fills from a state of the terminal on. -/
def cellsFrom (s : State) : List Char → Nat
  | [] => 0
  | c :: rest =>
    if c.toNat < 0x80 then
      let b := UInt8.ofNat c.toNat
      (if s.shows b then 1 else 0) + cellsFrom (s.next b) rest
    else if s.takesText then
      cellsFrom ((String.singleton c).toUTF8.toList.foldl State.next s) rest
    else
      let split := clusterTail (.ofClass (breakClass c)) rest
      clusterCells c split.1 + cellsFrom .ground split.2
termination_by cs => cs.length
decreasing_by
  · simp
  · simp
  · exact Nat.lt_succ_of_le (length_clusterTail_le _ _)

/-- The cells that a line fills. -/
def cells (line : String) : Nat := cellsFrom .ground line.toList

end WasmCore.Terminal
