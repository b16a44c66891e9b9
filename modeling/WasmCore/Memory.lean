import WasmCore.Module.Basic

/-!
# Linear memories

A memory is a sequence of bytes, a whole number of pages long, that can grow but never shrink.
Accesses are checked against its length as unbounded integers; one that does not fit fails and
changes nothing. Numbers are little-endian.
-/

namespace WasmCore

/-- `n` zero bytes. -/
def zeros (n : Nat) : ByteArray :=
  if n = 0 then .empty
  else
    let half := zeros (n / 2)
    if n % 2 = 0 then half ++ half else (half ++ half).push 0

/-- A linear memory. -/
structure Memory where
  bytes : ByteArray
  /-- Pages it may grow to, if there is a bound of its own. -/
  max : Option UInt32

/-- A run of bytes, the last one excluded. -/
structure ByteRange where
  start : Nat
  stop : Nat
  deriving DecidableEq, Repr

/-- The number of bytes of a run. -/
def ByteRange.size (r : ByteRange) : Nat := r.stop - r.start

namespace Memory

/-- A zeroed memory of the least size of its type. -/
def ofType (t : MemoryType) : Memory := ⟨zeros (t.min.toNat * pageSize), t.max⟩

variable (m : Memory)

/-- The length in bytes. -/
def length : Nat := m.bytes.size

/-- The length in pages. -/
def pages : Nat := m.length / pageSize

/-- The number of pages that the memory must not exceed under a common limit. -/
def bound (limit : Nat) : Nat :=
  match m.max with
  | none => limit
  | some max => min max.toNat limit

/-- The memory with `delta` more zeroed pages. -/
def extended (delta : Nat) : Memory := { m with bytes := m.bytes ++ zeros (delta * pageSize) }

/-- `delta` more pages do not exceed the bound. -/
def canGrow (delta limit : Nat) : Bool := decide (m.pages + delta ≤ m.bound limit)

/-- The memory with `delta` more zeroed pages, unless that exceeds its bound. -/
def grow? (delta limit : Nat) : Option Memory :=
  if m.canGrow delta limit then some (m.extended delta) else none

/-- The memory has `count` bytes at `offset`. -/
def hasLength (offset count : Nat) : Bool := decide (offset + count ≤ m.length)

/-! ### Reading -/

/-- The byte at a position, zero outside. -/
def byteAt (i : Nat) : UInt8 := if h : i < m.bytes.size then m.bytes[i] else 0

/-- The bytes at `offset`, if they are there. -/
def read? (offset count : Nat) : Option (List UInt8) :=
  if m.hasLength offset count then some (m.bytes.extract offset (offset + count)).toList else none

/-- The number in the `width` bytes at `offset`, which are taken to be there. -/
def number (offset : Nat) : (width : Nat) → Nat
  | 0 => 0
  | w + 1 => (m.byteAt offset).toNat + 256 * number (offset + 1) w

/-- The number in the `width` bytes at `offset`, if they are there. -/
def readNumber? (offset width : Nat) : Option Nat :=
  if m.hasLength offset width then some (m.number offset width) else none

/-! ### Writing -/

/-- Replaces a byte; nothing happens outside. -/
def setByte (i : Nat) (b : UInt8) : Memory :=
  if h : i < m.bytes.size then { m with bytes := m.bytes.set i b h } else m

/-- Replaces the bytes from `offset` on. -/
def setBytes (m : Memory) (offset : Nat) : List UInt8 → Memory
  | [] => m
  | b :: rest => (m.setByte offset b).setBytes (offset + 1) rest

/-- Replaces the bytes from `offset` on, if there are as many. -/
def write? (offset : Nat) (bytes : List UInt8) : Option Memory :=
  if m.hasLength offset bytes.length then some (m.setBytes offset bytes) else none

/-- Replaces the `width` bytes at `offset` by the low bytes of a number. -/
def setNumber (m : Memory) (offset : Nat) : (width value : Nat) → Memory
  | 0, _ => m
  | w + 1, v => (m.setByte offset (.ofNat v)).setNumber (offset + 1) w (v / 256)

/-- Replaces the `width` bytes at `offset` by the low bytes of a number, if they are there. -/
def writeNumber? (offset width value : Nat) : Option Memory :=
  if m.hasLength offset width then some (m.setNumber offset width value) else none

/-! ### Initialized ranges -/

/-- The runs of non-zero bytes from position `i` on, where `begun` is the start of a run that
reaches up to `i`. -/
def rangesFrom (i : Nat) (begun : Option Nat) : List ByteRange :=
  if h : i < m.bytes.size then
    match begun with
    | none => rangesFrom (i + 1) (if m.bytes[i] = 0 then none else some i)
    | some start =>
      if m.bytes[i] = 0 then ⟨start, i⟩ :: rangesFrom (i + 1) none else rangesFrom (i + 1) begun
  else
    match begun with
    | none => []
    | some start => [⟨start, i⟩]
termination_by m.bytes.size - i

/-- The maximal runs of non-zero bytes, in ascending order. -/
def initializedRanges : List ByteRange := m.rangesFrom 0 none

end Memory

end WasmCore
