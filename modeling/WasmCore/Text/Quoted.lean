import WasmCore.Text.Numeral
import WasmCore.Text.Printable

/-!
# Quoted text

Names in messages stand between double quotes. Quotes and backslashes are escaped, the seven control
characters that have a letter of their own use it, printable characters stand for themselves, and
everything else is written by its code point.
-/

namespace WasmCore.Text

/-- The letter that stands for a control character after a backslash. -/
def controlLetter : Char → Option Char
  | '\x07' => some 'a'
  | '\x08' => some 'b'
  | '\x0c' => some 'f'
  | '\n' => some 'n'
  | '\r' => some 'r'
  | '\t' => some 't'
  | '\x0b' => some 'v'
  | _ => none

/-- A character that is not printable, by its code point in the shortest of three forms. -/
def escapedCodePoint (c : Char) : String :=
  if c.toNat < 0x20 || c.toNat == 0x7f then "\\x" ++ hex 2 c.toNat
  else if c.toNat < 0x10000 then "\\u" ++ hex 4 c.toNat
  else "\\U" ++ hex 8 c.toNat

/-- One character of a quoted text. -/
def quotedChar (c : Char) : String :=
  if c == '"' || c == '\\' then "\\" ++ c.toString
  else if isPrintable c then c.toString
  else
    match controlLetter c with
    | some letter => "\\" ++ letter.toString
    | none => escapedCodePoint c

/-- The text between double quotes, with escapes. -/
def quoted (text : String) : String :=
  text.foldl (fun done c => done ++ quotedChar c) "\"" ++ "\""

end WasmCore.Text
