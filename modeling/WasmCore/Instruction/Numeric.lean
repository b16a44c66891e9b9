import WasmCore.Integer
import WasmCore.Float.Arithmetic
import WasmCore.Value.Type

/-!
# Numeric instructions

The instructions that only compute: comparisons, arithmetic and conversions. Their opcodes are
consecutive, so `NumericOp.all` lists them in that order and serves as the table for reading and
writing them.
-/

namespace WasmCore

/-- The two widths of numbers. -/
inductive Width where
  | w32 | w64
  deriving DecidableEq, Repr

/-- The integer type of a width. -/
def Width.intType : Width → NumType
  | .w32 => .i32
  | .w64 => .i64

/-- The float type of a width. -/
def Width.floatType : Width → NumType
  | .w32 => .f32
  | .w64 => .f64

/-- Whether an integer is read as signed or unsigned. -/
inductive Signedness where
  | signed | unsigned
  deriving DecidableEq, Repr

/-- The suffix of names of instructions that depend on a sign. -/
def Signedness.suffix : Signedness → String
  | .signed => "_s"
  | .unsigned => "_u"

/-- A comparison, arithmetic or conversion instruction. -/
inductive NumericOp where
  /-- Tests an integer for zero. -/
  | eqz (w : Width)
  /-- Compares two integers. -/
  | intCompare (w : Width) (r : IntRelation)
  /-- Compares two floats. -/
  | floatCompare (w : Width) (r : FloatRelation)
  | intUnary (w : Width) (op : IntUnary)
  | intBinary (w : Width) (op : IntBinary)
  | floatUnary (w : Width) (op : FloatUnary)
  | floatBinary (w : Width) (op : FloatBinary)
  /-- The low half of a 64-bit integer. -/
  | wrap
  /-- A 32-bit integer as a 64-bit one. -/
  | extend (s : Signedness)
  /-- A float truncated to an integer. -/
  | truncate (target source : Width) (s : Signedness)
  /-- An integer rounded to a float. -/
  | convert (target source : Width) (s : Signedness)
  /-- A double rounded to a single. -/
  | demote
  /-- A single as a double. -/
  | promote
  /-- The bits of a float as an integer. -/
  | floatBits (w : Width)
  /-- The float with the bits of an integer. -/
  | ofFloatBits (w : Width)
  deriving DecidableEq, Repr

namespace NumericOp

/-- The opcode of the first numeric instruction. -/
def firstOpcode : Nat := 0x45

/-- The comparisons of integers of one width, in the order of their opcodes. -/
def intComparisons (w : Width) : List NumericOp :=
  .eqz w :: [.eq, .ne, .ltS, .ltU, .gtS, .gtU, .leS, .leU, .geS, .geU].map (.intCompare w)

/-- The comparisons of floats of one width, in the order of their opcodes. -/
def floatComparisons (w : Width) : List NumericOp :=
  [.eq, .ne, .lt, .gt, .le, .ge].map (.floatCompare w)

/-- The arithmetic on integers of one width, in the order of their opcodes. -/
def intArithmetic (w : Width) : List NumericOp :=
  [.clz, .ctz, .popcnt].map (.intUnary w) ++
    [.add, .sub, .mul, .divS, .divU, .remS, .remU, .and, .or, .xor, .shl, .shrS, .shrU, .rotl,
      .rotr].map (.intBinary w)

/-- The arithmetic on floats of one width, in the order of their opcodes. -/
def floatArithmetic (w : Width) : List NumericOp :=
  [.abs, .neg, .round .ceil, .round .floor, .round .trunc, .round .nearest, .sqrt].map
      (.floatUnary w) ++
    [.add, .sub, .mul, .div, .min, .max, .copysign].map (.floatBinary w)

/-- The conversions, in the order of their opcodes. -/
def conversions : List NumericOp :=
  [.wrap,
    .truncate .w32 .w32 .signed, .truncate .w32 .w32 .unsigned,
    .truncate .w32 .w64 .signed, .truncate .w32 .w64 .unsigned,
    .extend .signed, .extend .unsigned,
    .truncate .w64 .w32 .signed, .truncate .w64 .w32 .unsigned,
    .truncate .w64 .w64 .signed, .truncate .w64 .w64 .unsigned,
    .convert .w32 .w32 .signed, .convert .w32 .w32 .unsigned,
    .convert .w32 .w64 .signed, .convert .w32 .w64 .unsigned,
    .demote,
    .convert .w64 .w32 .signed, .convert .w64 .w32 .unsigned,
    .convert .w64 .w64 .signed, .convert .w64 .w64 .unsigned,
    .promote,
    .floatBits .w32, .floatBits .w64, .ofFloatBits .w32, .ofFloatBits .w64]

/-- Every numeric instruction, in the order of their opcodes. -/
def all : List NumericOp :=
  intComparisons .w32 ++ intComparisons .w64 ++ floatComparisons .w32 ++ floatComparisons .w64 ++
    intArithmetic .w32 ++ intArithmetic .w64 ++ floatArithmetic .w32 ++ floatArithmetic .w64 ++
    conversions

end NumericOp

/-! ### Names -/

/-- The name of a comparison of integers. -/
def IntRelation.name : IntRelation → String
  | .eq => "eq"
  | .ne => "ne"
  | .ltS => "lt_s"
  | .ltU => "lt_u"
  | .gtS => "gt_s"
  | .gtU => "gt_u"
  | .leS => "le_s"
  | .leU => "le_u"
  | .geS => "ge_s"
  | .geU => "ge_u"

/-- The name of a comparison of floats. -/
def FloatRelation.name : FloatRelation → String
  | .eq => "eq"
  | .ne => "ne"
  | .lt => "lt"
  | .gt => "gt"
  | .le => "le"
  | .ge => "ge"

/-- The name of a bit count. -/
def IntUnary.name : IntUnary → String
  | .clz => "clz"
  | .ctz => "ctz"
  | .popcnt => "popcnt"

/-- The name of an operation on two integers. -/
def IntBinary.name : IntBinary → String
  | .add => "add"
  | .sub => "sub"
  | .mul => "mul"
  | .divS => "div_s"
  | .divU => "div_u"
  | .remS => "rem_s"
  | .remU => "rem_u"
  | .and => "and"
  | .or => "or"
  | .xor => "xor"
  | .shl => "shl"
  | .shrS => "shr_s"
  | .shrU => "shr_u"
  | .rotl => "rotl"
  | .rotr => "rotr"

/-- The name of a rounding instruction. -/
def Rounding.name : Rounding → String
  | .ceil => "ceil"
  | .floor => "floor"
  | .trunc => "trunc"
  | .nearest => "nearest"

/-- The name of an operation on one float. -/
def FloatUnary.name : FloatUnary → String
  | .abs => "abs"
  | .neg => "neg"
  | .round mode => mode.name
  | .sqrt => "sqrt"

/-- The name of an operation on two floats. -/
def FloatBinary.name : FloatBinary → String
  | .add => "add"
  | .sub => "sub"
  | .mul => "mul"
  | .div => "div"
  | .min => "min"
  | .max => "max"
  | .copysign => "copysign"

/-- The name of a numeric instruction: its result type or operand type, a dot, and what it does. -/
def NumericOp.name : NumericOp → String
  | .eqz w => w.intType.name ++ ".eqz"
  | .intCompare w r => w.intType.name ++ "." ++ r.name
  | .floatCompare w r => w.floatType.name ++ "." ++ r.name
  | .intUnary w op => w.intType.name ++ "." ++ op.name
  | .intBinary w op => w.intType.name ++ "." ++ op.name
  | .floatUnary w op => w.floatType.name ++ "." ++ op.name
  | .floatBinary w op => w.floatType.name ++ "." ++ op.name
  | .wrap => "i32.wrap_i64"
  | .extend s => "i64.extend_i32" ++ s.suffix
  | .truncate target source s =>
    target.intType.name ++ ".trunc_" ++ source.floatType.name ++ s.suffix
  | .convert target source s =>
    target.floatType.name ++ ".convert_" ++ source.intType.name ++ s.suffix
  | .demote => "f32.demote_f64"
  | .promote => "f64.promote_f32"
  | .floatBits w => w.intType.name ++ ".reinterpret_" ++ w.floatType.name
  | .ofFloatBits w => w.floatType.name ++ ".reinterpret_" ++ w.intType.name

end WasmCore
