import WasmCore.Decimal.Shortest
import WasmCore.Text.Numeral

/-!
# Layout of decimals

How a decimal is written: positionally while its exponent is small, in scientific notation
otherwise. `Layout` holds the decisions, `Layout.render` applies them to the bits of a float.
-/

namespace WasmCore

/-- The decisions that turn a float into text. -/
structure Layout where
  /-- Least exponent that is written positionally. -/
  leastPositional : Int
  /-- First exponent that is written in scientific notation again. -/
  firstScientific : Int
  /-- Least number of digits of a written exponent. -/
  exponentWidth : Nat
  /-- Text of every NaN. -/
  nan : String
  /-- Text of an infinity after its sign, which is always written. -/
  infinity : String

namespace Layout

variable (L : Layout)

/-- One digit, a point and the others if there are any, and the signed exponent. -/
def scientific (digits : List Char) (e : Int) : String :=
  let mantissa :=
    match digits with
    | [] => "0"
    | [d] => d.toString
    | d :: ds => d.toString ++ "." ++ String.ofList ds
  let sign := if e < 0 then "-" else "+"
  mantissa ++ "e" ++ sign ++ Text.decimal L.exponentWidth e.natAbs

/-- The digits around a point, with zeros where they do not reach it. -/
def positional (digits : List Char) (e : Int) : String :=
  if e < 0 then
    "0." ++ String.ofList (List.replicate ((-e).toNat - 1) '0' ++ digits)
  else
    let whole := e.toNat + 1
    let front := digits.take whole ++ List.replicate (whole - digits.length) '0'
    match digits.drop whole with
    | [] => String.ofList front
    | rest => String.ofList front ++ "." ++ String.ofList rest

/-- A decimal other than zero. -/
def decimal (d : Decimal) : String :=
  let digits := Nat.toDigits 10 d.digits
  let e : Int := d.exponent + (digits.length - 1 : Nat)
  if L.leastPositional ≤ e ∧ e < L.firstScientific then positional digits e
  else L.scientific digits e

/-- The float with the given bits. -/
def render (F : FloatFormat) (bits : Nat) : String :=
  match F.unpack bits with
  | .nan => L.nan
  | .infinite negative => (if negative then "-" else "+") ++ L.infinity
  | .finite negative m q =>
    (if negative then "-" else "") ++ (if m = 0 then "0" else L.decimal (.shortest F m q))

end Layout

end WasmCore
