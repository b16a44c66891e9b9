import WasmCore.Power

/-!
# Binary interchange formats

A float is kept as its bits, a natural number, so that a payload of a NaN is never lost.
`FloatFormat` gives the widths of the fields, and `FloatFormat.unpack` reads the bits as a sign and
a magnitude `m · 2^q`.
-/

namespace WasmCore

/-- The field widths of a binary floating-point format. -/
structure FloatFormat where
  /-- Width of the stored fraction. -/
  fractionBits : Nat
  /-- Width of the biased exponent. -/
  exponentBits : Nat

/-- What the bits of a float denote. -/
inductive Unpacked where
  /-- Not a number. -/
  | nan
  /-- An infinity. -/
  | infinite (negative : Bool)
  /-- The number `± mantissa · 2^exponent`. -/
  | finite (negative : Bool) (mantissa : Nat) (exponent : Int)

namespace FloatFormat

/-- Single precision. -/
def single : FloatFormat := ⟨23, 8⟩

/-- Double precision. -/
def double : FloatFormat := ⟨52, 11⟩

variable (F : FloatFormat)

/-- The sign bit alone. -/
def signBit : Nat := 2 ^ (F.fractionBits + F.exponentBits)

/-- The biased exponent of infinities and NaNs. -/
def topExponent : Nat := 2 ^ F.exponentBits - 1

/-- What is added to an exponent before it is stored. -/
def bias : Nat := 2 ^ (F.exponentBits - 1) - 1

/-- The bits of `+1`. -/
def one : Nat := F.bias * 2 ^ F.fractionBits

/-- The bits of positive infinity. -/
def infinity : Nat := F.topExponent * 2 ^ F.fractionBits

/-- The bits of the quiet NaN without a payload. -/
def quietNaN : Nat := F.infinity + 2 ^ (F.fractionBits - 1)

/-- The sign bit is set. -/
def isNegative (bits : Nat) : Bool := decide (F.signBit ≤ bits)

/-- The bits without the sign. -/
def magnitude (bits : Nat) : Nat := bits % F.signBit

/-- The bits with the given sign. -/
def withSign (negative : Bool) (bits : Nat) : Nat :=
  if negative then F.signBit + F.magnitude bits else F.magnitude bits

/-- The stored exponent. -/
def biasedExponent (bits : Nat) : Nat := F.magnitude bits / 2 ^ F.fractionBits

/-- The stored fraction. -/
def fraction (bits : Nat) : Nat := bits % 2 ^ F.fractionBits

/-- The bits are those of a NaN, whatever its payload. -/
def isNaN (bits : Nat) : Bool := decide (F.infinity < F.magnitude bits)

/-- The meaning of the bits. -/
def unpack (bits : Nat) : Unpacked :=
  let negative := F.isNegative bits
  let e := F.biasedExponent bits
  let f := F.fraction bits
  if e = F.topExponent then
    if f = 0 then .infinite negative else .nan
  else if e = 0 then .finite negative f (1 - (F.bias + F.fractionBits : Int))
  else .finite negative (2 ^ F.fractionBits + f) (e - (F.bias + F.fractionBits : Int))

end FloatFormat

end WasmCore
