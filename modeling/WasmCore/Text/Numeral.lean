/-!
# Numerals

Natural numbers in decimal and hexadecimal, padded with zeros to a least width.
-/

namespace WasmCore.Text

/-- Puts zeros in front until the text has at least `width` characters. -/
def zeroPadded (width : Nat) (digits : String) : String :=
  String.ofList (List.replicate (width - digits.length) '0') ++ digits

/-- Decimal, at least `width` digits. -/
def decimal (width n : Nat) : String :=
  zeroPadded width (toString n)

/-- Lower-case hexadecimal without a mark, at least `width` digits. -/
def hex (width n : Nat) : String :=
  zeroPadded width (String.ofList (Nat.toDigits 16 n))

/-- Upper-case hexadecimal without a mark, at least `width` digits. -/
def hexUpper (width n : Nat) : String :=
  zeroPadded width (String.ofList ((Nat.toDigits 16 n).map Char.toUpper))

/-- Lower-case hexadecimal with the mark `0x` and no padding. -/
def marked (n : Nat) : String :=
  "0x" ++ hex 1 n

/-- Two lower-case hexadecimal digits per byte, in order. -/
def hexBytes (bytes : List UInt8) : String :=
  bytes.foldl (fun text b => text ++ hex 2 b.toNat) ""

end WasmCore.Text
