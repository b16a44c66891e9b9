import WasmCore.Float.Rounding

/-!
# Float arithmetic on bits

The operations of the two float types, as functions on their bits. Operations on signs keep the
payload of a NaN; all others may replace it. Minimum and maximum give NaN if an operand is one, and
order the zeros by sign.
-/

namespace WasmCore

/-! ### Signs and order, for every format -/

namespace FloatFormat

variable (F : FloatFormat)

/-- Clears the sign. -/
def abs (a : Nat) : Nat := F.withSign false a

/-- Flips the sign. -/
def neg (a : Nat) : Nat := F.withSign (!F.isNegative a) a

/-- The magnitude of the first with the sign of the second. -/
def copysign (a b : Nat) : Nat := F.withSign (F.isNegative b) a

/-- A key that grows with the number; both zeros have the same one. -/
def orderKey (a : Nat) : Int :=
  if F.isNegative a then -(F.magnitude a : Int) else F.magnitude a

/-- Both are zero, of whatever sign. -/
def bothZero (a b : Nat) : Bool := F.magnitude a == 0 && F.magnitude b == 0

/-- The smaller of two floats; of two zeros the negative one. -/
def min (a b : Nat) : Nat :=
  if F.isNaN a || F.isNaN b then F.quietNaN
  else if F.bothZero a b then (if F.isNegative a then a else b)
  else if F.orderKey a < F.orderKey b then a else b

/-- The larger of two floats; of two zeros the positive one. -/
def max (a b : Nat) : Nat :=
  if F.isNaN a || F.isNaN b then F.quietNaN
  else if F.bothZero a b then (if F.isNegative a then b else a)
  else if F.orderKey b < F.orderKey a then a else b

end FloatFormat

/-- The six comparisons of floats. -/
inductive FloatRelation where
  | eq | ne | lt | gt | le | ge
  deriving DecidableEq, Repr

/-- Compares two floats; with a NaN only `ne` holds. -/
def FloatRelation.holds (r : FloatRelation) (F : FloatFormat) (a b : Nat) : Bool :=
  let ordered := !(F.isNaN a || F.isNaN b)
  let x := F.orderKey a
  let y := F.orderKey b
  match r with
  | .eq => ordered && x == y
  | .ne => !(ordered && x == y)
  | .lt => ordered && decide (x < y)
  | .gt => ordered && decide (y < x)
  | .le => ordered && decide (x ≤ y)
  | .ge => ordered && decide (y ≤ x)

/-- The operations with one operand. -/
inductive FloatUnary where
  | abs
  | neg
  | round (mode : Rounding)
  | sqrt
  deriving DecidableEq, Repr

/-- The operations with two operands. -/
inductive FloatBinary where
  | add | sub | mul | div | min | max | copysign
  deriving DecidableEq, Repr

/-! ### Single precision -/

/-- Applies a unary operation to single-precision bits. -/
def FloatUnary.single (op : FloatUnary) (a : UInt32) : UInt32 :=
  match op with
  | .abs => .ofNat (FloatFormat.single.abs a.toNat)
  | .neg => .ofNat (FloatFormat.single.neg a.toNat)
  | .round mode => .ofNat (FloatFormat.single.round mode a.toNat)
  | .sqrt => (Float32.ofBits a).sqrt.toBits

/-- Applies a binary operation to single-precision bits. -/
def FloatBinary.single (op : FloatBinary) (a b : UInt32) : UInt32 :=
  match op with
  | .add => (Float32.ofBits a + Float32.ofBits b).toBits
  | .sub => (Float32.ofBits a - Float32.ofBits b).toBits
  | .mul => (Float32.ofBits a * Float32.ofBits b).toBits
  | .div => (Float32.ofBits a / Float32.ofBits b).toBits
  | .min => .ofNat (FloatFormat.single.min a.toNat b.toNat)
  | .max => .ofNat (FloatFormat.single.max a.toNat b.toNat)
  | .copysign => .ofNat (FloatFormat.single.copysign a.toNat b.toNat)

/-! ### Double precision -/

/-- Applies a unary operation to double-precision bits. -/
def FloatUnary.double (op : FloatUnary) (a : UInt64) : UInt64 :=
  match op with
  | .abs => .ofNat (FloatFormat.double.abs a.toNat)
  | .neg => .ofNat (FloatFormat.double.neg a.toNat)
  | .round mode => .ofNat (FloatFormat.double.round mode a.toNat)
  | .sqrt => (Float.ofBits a).sqrt.toBits

/-- Applies a binary operation to double-precision bits. -/
def FloatBinary.double (op : FloatBinary) (a b : UInt64) : UInt64 :=
  match op with
  | .add => (Float.ofBits a + Float.ofBits b).toBits
  | .sub => (Float.ofBits a - Float.ofBits b).toBits
  | .mul => (Float.ofBits a * Float.ofBits b).toBits
  | .div => (Float.ofBits a / Float.ofBits b).toBits
  | .min => .ofNat (FloatFormat.double.min a.toNat b.toNat)
  | .max => .ofNat (FloatFormat.double.max a.toNat b.toNat)
  | .copysign => .ofNat (FloatFormat.double.copysign a.toNat b.toNat)

end WasmCore
