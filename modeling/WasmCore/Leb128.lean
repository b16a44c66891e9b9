import WasmCore.Power

/-!
# LEB128 integers

Variable-length integers: seven bits a byte, lowest first, every byte but the last with its high bit
set. An integer of `N` bits takes at most `⌈N / 7⌉` bytes, and the last of these may only hold the
bits that are left. Padding with continuation bytes within that length is accepted; `encodeUnsigned`
and `encodeSigned` write none.

The decoders return the bytes that are left also when they fail.
-/

namespace WasmCore.Leb128

/-- Why no integer could be read. -/
inductive Error where
  /-- The bytes end before the integer does. -/
  | endOfInput
  /-- The encoding is longer than its size permits, or sets bits beyond it. -/
  | overflow
  deriving DecidableEq, Repr

/-- The byte says that another one follows. -/
def continues (b : UInt8) : Bool := decide (128 ≤ b.toNat)

/-- The seven bits of a byte read as a two's complement number. -/
def signedPayload (b : UInt8) : Int :=
  if b.toNat % 128 < 64 then (b.toNat % 128 : Nat) else (b.toNat % 128 : Nat) - 128

/-- Reads an unsigned integer of which `bits` bits are still to come. -/
def decodeUnsigned (bits : Nat) : List UInt8 → Except Error Nat × List UInt8
  | [] => (.error .endOfInput, [])
  | b :: rest =>
    if bits < 7 then
      if continues b || decide (2 ^ bits ≤ b.toNat) then (.error .overflow, rest)
      else (.ok b.toNat, rest)
    else if continues b then
      match decodeUnsigned (bits - 7) rest with
      | (.ok high, left) => (.ok (b.toNat % 128 + 128 * high), left)
      | (.error e, left) => (.error e, left)
    else (.ok b.toNat, rest)

/-- Reads a signed integer of which `bits` bits are still to come, the sign bit included. -/
def decodeSigned (bits : Nat) : List UInt8 → Except Error Int × List UInt8
  | [] => (.error .endOfInput, [])
  | b :: rest =>
    if bits < 7 then
      let v := signedPayload b
      if continues b || decide (v < -2 ^ (bits - 1)) || decide (2 ^ (bits - 1) ≤ v) then
        (.error .overflow, rest)
      else (.ok v, rest)
    else if continues b then
      match decodeSigned (bits - 7) rest with
      | (.ok high, left) => (.ok ((b.toNat % 128 : Nat) + 128 * high), left)
      | (.error e, left) => (.error e, left)
    else (.ok (signedPayload b), rest)

/-- The shortest encoding of an unsigned integer. -/
def encodeUnsigned (n : Nat) : List UInt8 :=
  if n < 128 then [n.toUInt8] else (n % 128 + 128).toUInt8 :: encodeUnsigned (n / 128)

/-- The shortest encoding of a signed integer. -/
def encodeSigned (v : Int) : List UInt8 :=
  if -64 ≤ v ∧ v < 64 then [(v % 128).toNat.toUInt8]
  else ((v % 128).toNat + 128).toUInt8 :: encodeSigned (v / 128)
termination_by v.natAbs

end WasmCore.Leb128
