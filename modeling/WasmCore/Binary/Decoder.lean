import WasmCore.Binary.Error
import WasmCore.Leb128

/-!
# Decoders

A decoder takes bytes from the front of a sequence and leaves the rest, or fails. This module has
the decoders of single items and the ways to combine them; the formats of sections are built from
these.
-/

namespace WasmCore.Binary

/-- There are `n` bytes at least. Those after them are not counted. -/
def hasBytes : (n : Nat) → List UInt8 → Bool
  | 0, _ => true
  | _ + 1, [] => false
  | n + 1, _ :: rest => hasBytes n rest

@[simp] theorem hasBytes_iff {n : Nat} {bytes : List UInt8} :
    hasBytes n bytes = true ↔ n ≤ bytes.length := by
  fun_induction hasBytes n bytes <;> simp_all

/-- Reads a value from the front of the bytes. -/
abbrev Decoder := StateT (List UInt8) (Except DecodeError)

namespace Decoder

variable {α : Type}

/-- Fails. -/
def fail (e : DecodeError) : Decoder α := fun _ => .error e

/-- Runs a decoder and says where an error was met. -/
def within (place : Place) (d : Decoder α) : Decoder α := fun bytes =>
  match d bytes with
  | .ok r => .ok r
  | .error e => .error (.within place e)

/-- Runs a decoder and says where an error was met, hiding its class. -/
def concealing (place : Place) (d : Decoder α) : Decoder α := fun bytes =>
  match d bytes with
  | .ok r => .ok r
  | .error e => .error (.hidden place e)

/-- The number of bytes that are left. -/
def remaining : Decoder Nat := fun bytes => .ok (bytes.length, bytes)

/-- Whether no byte is left. -/
def atEnd : Decoder Bool := fun bytes => .ok (bytes.isEmpty, bytes)

/-- One byte. -/
def byte : Decoder UInt8
  | [] => .error .endOfInput
  | b :: rest => .ok (b, rest)

/-- The next `n` bytes, or all that are left if there are fewer. -/
def upTo (n : Nat) : Decoder (List UInt8) := fun bytes => .ok (bytes.take n, bytes.drop n)

/-- All bytes that are left. -/
def all : Decoder (List UInt8) := fun bytes => .ok (bytes, [])

/-- Exactly `n` bytes. It matters whether there was none or too few. -/
def exactly (n : Nat) : Decoder (List UInt8) := fun bytes =>
  if hasBytes n bytes then .ok (bytes.take n, bytes.drop n)
  else .error (if bytes.isEmpty then .endOfInput else .truncated)

/-- The error of an integer that cannot be read. -/
def integerError : Leb128.Error → DecodeError
  | .endOfInput => .within .integer .endOfInput
  | .overflow => .overflow

/-- An unsigned 32-bit integer. -/
def u32 : Decoder UInt32 := fun bytes =>
  match Leb128.decodeUnsigned 32 bytes with
  | (.ok n, rest) => .ok (.ofNat n, rest)
  | (.error e, _) => .error (integerError e)

/-- A signed integer of at most `bits` bits. -/
def signed (bits : Nat) : Decoder Int := fun bytes =>
  match Leb128.decodeSigned bits bytes with
  | (.ok n, rest) => .ok (n, rest)
  | (.error e, _) => .error (integerError e)

/-- The number whose digits in base 256 are the bytes, lowest first. -/
def ofLittleEndian : List UInt8 → Nat
  | [] => 0
  | b :: rest => b.toNat + 256 * ofLittleEndian rest

/-- Refuses a length that does not fit into the bytes that are left. -/
def fits (role : SizeRole) (size : Nat) : Decoder Unit := fun bytes =>
  if hasBytes size bytes then .ok ((), bytes)
  else .error (.flaw (.tooLong role size bytes.length))

/-- As many items as `n` says; each decoder gets the position of its item. -/
def repeated (n : Nat) (item : Nat → Decoder α) : Decoder (List α) :=
  go n 0
where
  /-- The items from position `i` on. -/
  go : Nat → Nat → Decoder (List α)
    | 0, _ => pure []
    | k + 1, i => do
      let x ← item i
      let xs ← go k (i + 1)
      pure (x :: xs)

/-- The length of a vector, and its items. -/
def vector (item : Nat → Decoder α) : Decoder (List α) := do
  let n ← within .vectorSize u32
  fits .vector n.toNat
  repeated n.toNat item

/-- Text with its length in bytes before it. -/
def text (role : TextRole) : Decoder String := do
  let size ← within (.textSize role) u32
  fits (.name role) size.toNat
  let bytes ← upTo size.toNat
  match String.fromUTF8? ⟨bytes.toArray⟩ with
  | some s => pure s
  | none => fail (.flaw (.notUtf8 role))

/-- Runs a decoder on a part of its own; the result has what it left of that part. -/
def nested (part : List UInt8) (d : Decoder α) : Decoder (α × List UInt8) := fun bytes =>
  match d part with
  | .ok r => .ok (r, bytes)
  | .error e => .error e

end Decoder

end WasmCore.Binary
