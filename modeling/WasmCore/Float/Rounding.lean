import WasmCore.Float.Format

/-!
# Rounding to integers

Four ways to round a float to an integral float, and truncation to an integer. All of them work on
the bits and are exact; zeros, infinities and NaNs stay as they are, and a result of zero keeps the
sign of its operand.
-/

namespace WasmCore

/-- Where a float between two integers goes. -/
inductive Rounding where
  /-- Toward positive infinity. -/
  | ceil
  /-- Toward negative infinity. -/
  | floor
  /-- Toward zero. -/
  | trunc
  /-- To the nearer one, a half to the even one. -/
  | nearest
  deriving DecidableEq, Repr

/-- Whether a magnitude moves away from zero. `rest` is what lies above the integer below it, `half`
is one half on the same scale, and `odd` tells the parity of that integer. -/
def Rounding.awayFromZero (mode : Rounding) (negative : Bool) (rest half : Nat) (odd : Bool) :
    Bool :=
  match mode with
  | .ceil => !negative && decide (0 < rest)
  | .floor => negative && decide (0 < rest)
  | .trunc => false
  | .nearest => decide (half < rest) || (rest == half && odd)

namespace FloatFormat

variable (F : FloatFormat)

/-- The magnitude rounded to an integral magnitude. Clearing the fraction bits below the point
truncates, and adding the unit there carries into the exponent where it has to. -/
def roundMagnitude (mode : Rounding) (negative : Bool) (bits : Nat) : Nat :=
  let e := bits / 2 ^ F.fractionBits
  if F.bias + F.fractionBits ≤ e then bits
  else if F.bias ≤ e then
    let unit := 2 ^ (F.bias + F.fractionBits - e)
    let rest := bits % unit
    -- At exponent zero the integer part is the hidden bit, so it is odd.
    let odd := e == F.bias || (bits / unit) % 2 == 1
    if mode.awayFromZero negative rest (unit / 2) odd then bits - rest + unit else bits - rest
  else if mode.awayFromZero negative bits (F.one - 2 ^ F.fractionBits) false then F.one
  else 0

/-- The float rounded to an integral float. -/
def round (mode : Rounding) (bits : Nat) : Nat :=
  let m := F.magnitude bits
  if m = 0 || decide (F.infinity ≤ m) then bits
  else F.withSign (F.isNegative bits) (F.roundMagnitude mode (F.isNegative bits) m)

/-- The integer part of `± m · 2^q`. -/
def truncateFinite (negative : Bool) (m : Nat) (q : Int) : Int :=
  let whole : Int := (if 0 ≤ q then m * 2 ^ q.toNat else m / 2 ^ (-q).toNat : Nat)
  if negative then -whole else whole

end FloatFormat

end WasmCore
