/-!
# Integer arithmetic

The integer instructions as operations on bit vectors of any width `n`: comparisons, bit counts,
and the binary operations, of which division and remainder can fail. Shift and rotate counts are
taken modulo the width, and signed division truncates toward zero.
-/

namespace WasmCore

/-- Why an integer operation has no result. -/
inductive IntegerFailure where
  /-- Division or remainder by zero. -/
  | divideByZero
  /-- The quotient of the least number by `-1`. -/
  | overflow
  deriving DecidableEq, Repr

/-- The ten comparisons of integers. -/
inductive IntRelation where
  | eq | ne | ltS | ltU | gtS | gtU | leS | leU | geS | geU
  deriving DecidableEq, Repr

/-- Compares two integers, as signed or unsigned numbers. -/
def IntRelation.holds {n : Nat} (r : IntRelation) (a b : BitVec n) : Bool :=
  match r with
  | .eq => a == b
  | .ne => a != b
  | .ltS => a.slt b
  | .ltU => a.ult b
  | .gtS => b.slt a
  | .gtU => b.ult a
  | .leS => a.sle b
  | .leU => a.ule b
  | .geS => b.sle a
  | .geU => b.ule a

/-- The operations with one operand. -/
inductive IntUnary where
  | clz | ctz | popcnt
  deriving DecidableEq, Repr

namespace IntUnary

/-- How many of the lowest `k` bits of `x` are zero before the first one that is set. -/
def trailingZeros (x : Nat) : Nat → Nat
  | 0 => 0
  | k + 1 => if x % 2 = 1 then 0 else trailingZeros (x / 2) k + 1

/-- How many of the lowest `k` bits of `x` are set. -/
def ones (x : Nat) : Nat → Nat
  | 0 => 0
  | k + 1 => x % 2 + ones (x / 2) k

/-- How many of the lowest `k` bits of `x` are zero above the last one that is set. -/
def leadingZeros (x : Nat) : Nat → Nat
  | 0 => 0
  | k + 1 => if x.testBit k then 0 else leadingZeros x k + 1

/-- Counts bits. -/
def eval {n : Nat} (op : IntUnary) (a : BitVec n) : BitVec n :=
  match op with
  | .clz => .ofNat n (leadingZeros a.toNat n)
  | .ctz => .ofNat n (trailingZeros a.toNat n)
  | .popcnt => .ofNat n (ones a.toNat n)

end IntUnary

/-- The operations with two operands. -/
inductive IntBinary where
  | add | sub | mul | divS | divU | remS | remU | and | or | xor | shl | shrS | shrU | rotl | rotr
  deriving DecidableEq, Repr

/-- Applies an operation to its operands, the one pushed first on the left. -/
def IntBinary.eval {n : Nat} (op : IntBinary) (a b : BitVec n) : Except IntegerFailure (BitVec n) :=
  match op with
  | .add => .ok (a + b)
  | .sub => .ok (a - b)
  | .mul => .ok (a * b)
  | .divS =>
    if b = 0 then .error .divideByZero
    else if a = BitVec.intMin n ∧ b = -1 then .error .overflow
    else .ok (a.sdiv b)
  | .divU => if b = 0 then .error .divideByZero else .ok (a / b)
  | .remS => if b = 0 then .error .divideByZero else .ok (a.srem b)
  | .remU => if b = 0 then .error .divideByZero else .ok (a % b)
  | .and => .ok (a &&& b)
  | .or => .ok (a ||| b)
  | .xor => .ok (a ^^^ b)
  | .shl => .ok (a <<< (b.toNat % n))
  | .shrS => .ok (a.sshiftRight (b.toNat % n))
  | .shrU => .ok (a >>> (b.toNat % n))
  | .rotl => .ok (a.rotateLeft (b.toNat % n))
  | .rotr => .ok (a.rotateRight (b.toNat % n))

end WasmCore
