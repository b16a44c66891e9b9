import WasmCore.Terminal.CellWidth

/-!
# Blocks of text

A text is set on a terminal as a block: a tab becomes four blanks, and every line gets the margin
and is filled up with blanks to the width of the widest one.
-/

namespace WasmCore.Terminal

/-- Writes four blanks for a tab and a line feed for a carriage return with a line feed. -/
def plainBlanks : List Char → List Char
  | [] => []
  | '\t' :: rest => ' ' :: ' ' :: ' ' :: ' ' :: plainBlanks rest
  | '\r' :: '\n' :: rest => '\n' :: plainBlanks rest
  | c :: rest => c :: plainBlanks rest

/-- Some blanks. -/
def blanks (n : Nat) : String := String.ofList (List.replicate n ' ')

/-- A line filled up with blanks to a number of cells. -/
def filled (width : Nat) (line : String) : String := line ++ blanks (width - cells line)

/-- A text as a block with a margin at both sides; a single line needs no filling. -/
def block (margin : Nat) (text : String) : String :=
  let lines := ((String.ofList (plainBlanks text.toList)).splitOn "\n").map fun line =>
    blanks margin ++ line ++ blanks margin
  match lines with
  | [line] => line
  | _ =>
    let width := lines.foldl (fun width line => max width (cells line)) 0
    String.intercalate "\n" (lines.map (filled width))

end WasmCore.Terminal
