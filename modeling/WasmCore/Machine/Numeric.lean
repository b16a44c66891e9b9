import WasmCore.Integer.Word
import WasmCore.Machine.Operands
import WasmCore.Power

/-!
# Execution of numeric instructions

Each numeric instruction takes its operands from the stack, the last one from the top, and leaves
its result. A missing or differently typed operand is a fault.
-/

namespace WasmCore

/-- The number of bits of a width. -/
def Width.bits : Width → Nat
  | .w32 => 32
  | .w64 => 64

/-- The float format of a width. -/
def Width.format : Width → FloatFormat
  | .w32 => .single
  | .w64 => .double

/-- The integer value with the given bits. -/
def Value.ofInt : (w : Width) → BitVec w.bits → Value
  | .w32, v => .i32 (.ofBitVec v)
  | .w64, v => .i64 (.ofBitVec v)

/-- The float value with the given bits. -/
def Value.ofFloat (w : Width) (bits : UInt64) : Value := .ofNumBits w.floatType bits

/-- Compares the payloads of integers. -/
def IntRelation.holdsBits (r : IntRelation) (w : Width) (a b : UInt64) : Bool :=
  match w with
  | .w32 => r.holds32 a.toUInt32 b.toUInt32
  | .w64 => r.holds64 a b

/-- Applies an operation to the payloads of integers. -/
def IntBinary.evalBits (op : IntBinary) (w : Width) (a b : UInt64) : Except IntegerFailure UInt64 :=
  match w with
  | .w32 => (op.eval32 a.toUInt32 b.toUInt32).map UInt32.toUInt64
  | .w64 => op.eval64 a b

/-- Applies a unary operation to the bits of a float. -/
def FloatUnary.eval (op : FloatUnary) (w : Width) (a : UInt64) : UInt64 :=
  match w with
  | .w32 => (op.single a.toUInt32).toUInt64
  | .w64 => op.double a

/-- Applies a binary operation to the bits of floats. -/
def FloatBinary.eval (op : FloatBinary) (w : Width) (a b : UInt64) : UInt64 :=
  match w with
  | .w32 => (op.single a.toUInt32 b.toUInt32).toUInt64
  | .w64 => op.double a b

/-- The integers that fit into `n` bits. -/
def Signedness.inRange (s : Signedness) (n : Nat) (v : Int) : Bool :=
  match s with
  | .signed => decide (-(2 ^ (n - 1) : Int) ≤ v) && decide (v < 2 ^ (n - 1))
  | .unsigned => decide (0 ≤ v) && decide (v < 2 ^ n)

/-- Truncates a float to an integer of `n` bits. -/
def truncateToInt (F : FloatFormat) (s : Signedness) (n : Nat) (bits : Nat) :
    Except Fault (BitVec n) :=
  match F.unpack bits with
  | .nan => .error .invalidConversion
  | .infinite _ => .error .integerOverflow
  | .finite negative m q =>
    let v := FloatFormat.truncateFinite negative m q
    if s.inRange n v then .ok (.ofInt n v) else .error .integerOverflow

/-- The bits of the float nearest to an integer. -/
def convertInt {n : Nat} (w : Width) (s : Signedness) (a : BitVec n) : UInt64 :=
  match w, s with
  | .w32, .signed => (Int64.ofInt a.toInt).toFloat32.toBits.toUInt64
  | .w32, .unsigned => (UInt64.ofNat a.toNat).toFloat32.toBits.toUInt64
  | .w64, .signed => (Int64.ofInt a.toInt).toFloat.toBits
  | .w64, .unsigned => (UInt64.ofNat a.toNat).toFloat.toBits

/-- A 32-bit integer as a 64-bit one. -/
def Signedness.extend (s : Signedness) (a : BitVec 32) : BitVec 64 :=
  match s with
  | .signed => a.signExtend 64
  | .unsigned => a.zeroExtend 64

namespace Machine.Operands

/-- Takes the payload of a number. -/
def popBits (type : NumType) : Operands UInt64 := do
  let v ← popTyped (.num type)
  pure v.bits

/-- Takes an integer. -/
def popInt (w : Width) : Operands (BitVec w.bits) := do
  let a ← popBits w.intType
  pure (.ofNat w.bits a.toNat)

/-- Takes the bits of a float. -/
def popFloat (w : Width) : Operands UInt64 := popBits w.floatType

/-- Puts a number with a payload on top. -/
def pushBits (type : NumType) (bits : UInt64) : Operands Unit := push (.ofNumBits type bits)

/-- Puts an integer on top. -/
def pushInt (w : Width) (v : BitVec w.bits) : Operands Unit := push (.ofInt w v)

/-- Puts a float on top. -/
def pushFloat (w : Width) (bits : UInt64) : Operands Unit := push (.ofFloat w bits)

/-- Executes a numeric instruction. -/
def numeric : NumericOp → Operands Unit
  | .eqz w => do
    let a ← popBits w.intType
    pushBool (a == 0)
  | .intCompare w r => do
    let b ← popBits w.intType
    let a ← popBits w.intType
    pushBool (r.holdsBits w a b)
  | .floatCompare w r => do
    let b ← popFloat w
    let a ← popFloat w
    pushBool (r.holds w.format a.toNat b.toNat)
  | .intUnary w op => do
    let a ← popInt w
    pushInt w (op.eval a)
  | .intBinary w op => do
    let b ← popBits w.intType
    let a ← popBits w.intType
    match op.evalBits w a b with
    | .ok v => pushBits w.intType v
    | .error e => throw (.ofIntegerFailure e)
  | .floatUnary w op => do
    let a ← popFloat w
    pushFloat w (op.eval w a)
  | .floatBinary w op => do
    let b ← popFloat w
    let a ← popFloat w
    pushFloat w (op.eval w a b)
  | .wrap => do
    let a ← popInt .w64
    pushInt .w32 (a.truncate 32)
  | .extend s => do
    let a ← popInt .w32
    pushInt .w64 (s.extend a)
  | .truncate target source s => do
    let a ← popFloat source
    match truncateToInt source.format s target.bits a.toNat with
    | .ok v => pushInt target v
    | .error f => throw f
  | .convert target source s => do
    let a ← popInt source
    pushFloat target (convertInt target s a)
  | .demote => do
    let a ← popFloat .w64
    pushFloat .w32 (Float.ofBits a).toFloat32.toBits.toUInt64
  | .promote => do
    let a ← popFloat .w32
    pushFloat .w64 (Float32.ofBits a.toUInt32).toFloat.toBits
  | .floatBits w => do
    let a ← popFloat w
    pushInt w (.ofNat w.bits a.toNat)
  | .ofFloatBits w => do
    let a ← popInt w
    pushFloat w (.ofNat a.toNat)

end Machine.Operands

end WasmCore
