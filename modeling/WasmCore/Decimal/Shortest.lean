import WasmCore.Float.Format

/-!
# The shortest decimal that reads back

Every decimal inside the rounding interval of a float reads back as that float. `shortest` finds one
with the fewest digits, and of those the nearest; an exact tie goes to the even last digit. All
arithmetic is exact.
-/

namespace WasmCore

/-- The decimal `digits · 10^exponent`. -/
structure Decimal where
  /-- The significant digits, read as one number. -/
  digits : Nat
  /-- The power of ten that the last digit counts. -/
  exponent : Int

/-- The numbers that round to one float, in quarters of the distance to the next float above. -/
structure RoundingInterval where
  /-- Lower end. -/
  low : Nat
  /-- The float itself. -/
  value : Nat
  /-- Upper end. -/
  high : Nat
  /-- The unit of the three numbers is `2^exponent`. -/
  exponent : Int
  /-- The ends belong to the interval. -/
  closed : Bool

namespace RoundingInterval

/-- The interval of `m · 2^q`. Below a power of two the floats are twice as dense, so that
the lower end is nearer there, unless the exponent is already the least one. -/
def ofFinite (F : FloatFormat) (m : Nat) (q : Int) : RoundingInterval :=
  let least : Int := 1 - (F.bias + F.fractionBits : Int)
  let below := if m = 2 ^ F.fractionBits && decide (least < q) then 1 else 2
  { low := 4 * m - below, value := 4 * m, high := 4 * m + 2, exponent := q - 2,
    closed := m % 2 == 0 }

variable (I : RoundingInterval)

/-- Numerator of `x` units over `10^j`, on the common denominator `scale j`. -/
def scaled (j : Int) (x : Nat) : Nat :=
  x * 2 ^ I.exponent.toNat * 10 ^ (-j).toNat

/-- The common denominator of a unit over `10^j`. -/
def scale (j : Int) : Nat :=
  2 ^ (-I.exponent).toNat * 10 ^ j.toNat

/-- The decimal `k · 10^j` lies in the interval. -/
def contains (j : Int) (k : Nat) : Bool :=
  let x := k * I.scale j
  if I.closed then decide (I.scaled j I.low ≤ x) && decide (x ≤ I.scaled j I.high)
  else decide (I.scaled j I.low < x) && decide (x < I.scaled j I.high)

/-- Of the two neighbours `k` and `k + 1` of the float on the grid `10^j` the nearer one, the even
one on a tie. -/
def nearer (j : Int) (k : Nat) : Nat :=
  let v := I.scaled j I.value
  let down := v - k * I.scale j
  let up := (k + 1) * I.scale j - v
  if down < up then k else if up < down then k + 1 else if k % 2 = 0 then k else k + 1

/-- A decimal on the grid `10^j` that reads back as the float, if there is one. -/
def onGrid (j : Int) : Option Nat :=
  let k := I.scaled j I.value / I.scale j
  match I.contains j k, I.contains j (k + 1) with
  | true, true => some (I.nearer j k)
  | true, false => some k
  | false, true => some (k + 1)
  | false, false => none

/-- The first hit on ever finer grids, at most `fuel` steps below `10^j`. -/
def search : Nat → Int → Decimal
  | 0, j => ⟨I.scaled j I.value / I.scale j, j⟩
  | fuel + 1, j =>
    match I.onGrid j with
    | some k => ⟨k, j⟩
    | none => search fuel (j - 1)

/-- A power of ten above the float: its binary length, converted with `log₁₀ 2 < 30103 / 100000`. -/
def topGrid : Int :=
  let length : Int := Nat.log2 I.value + 1 + I.exponent
  if 0 ≤ length then length * 30103 / 100000 + 1 else length * 30102 / 100000 + 1

end RoundingInterval

/-- The shortest decimal that reads back as the positive float `m · 2^q`. -/
def Decimal.shortest (F : FloatFormat) (m : Nat) (q : Int) : Decimal :=
  let I := RoundingInterval.ofFinite F m q
  -- Seventeen digits always suffice; two more grids cover the estimate of the first one.
  I.search 20 I.topGrid

end WasmCore
