/-!
# UTF-16 text

Reads little-endian UTF-16 leniently: a surrogate without its partner becomes the replacement
character, and every other unit keeps its meaning.
-/

namespace WasmCore.Text

/-- The replacement character, which stands for a unit that has no meaning of its own. -/
def replacementChar : Char := '\ufffd'

/-- The first half of a surrogate pair. -/
def isHighSurrogate (unit : Nat) : Bool :=
  decide (0xD800 ≤ unit) && decide (unit < 0xDC00)

/-- The second half of a surrogate pair. -/
def isLowSurrogate (unit : Nat) : Bool :=
  decide (0xDC00 ≤ unit) && decide (unit < 0xE000)

/-- The character beyond the basic plane that a surrogate pair stands for. -/
def ofSurrogates (high low : Nat) : Char :=
  Char.ofNat (0x10000 + (high - 0xD800) * 0x400 + (low - 0xDC00))

/-- The character of a unit that is not part of a pair. -/
def ofUnit (unit : Nat) : Char :=
  if isHighSurrogate unit || isLowSurrogate unit then replacementChar else Char.ofNat unit

/-- The characters of a sequence of 16-bit units. -/
def ofUnits : List Nat → List Char
  | [] => []
  | [unit] => [ofUnit unit]
  | high :: low :: rest =>
    if isHighSurrogate high && isLowSurrogate low then ofSurrogates high low :: ofUnits rest
    else ofUnit high :: ofUnits (low :: rest)

/-- Pairs of bytes as 16-bit units, low byte first. -/
def unitsOfBytes : List UInt8 → List Nat
  | low :: high :: rest => (low.toNat + 256 * high.toNat) :: unitsOfBytes rest
  | _ => []

/-- The text that an even number of bytes holds in little-endian UTF-16. -/
def ofUtf16 (bytes : List UInt8) : String :=
  String.ofList (ofUnits (unitsOfBytes bytes))

end WasmCore.Text
