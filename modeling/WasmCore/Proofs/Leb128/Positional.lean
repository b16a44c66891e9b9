import Mathlib.Algebra.BigOperators.Ring.Finset
import Mathlib.Tactic.Ring
import WasmCore.Proofs.Leb128

/-!
# LEB128: integers by position

What is read from a sequence of bytes, said by the positions of its bytes and bits: an integer ends
at the first byte with a clear high bit (`EndsAt`), it is the sum of the other seven bits of each
byte, each byte worth 128 times the one before (`positional`), and bits that it has no room for must
be zeros or copies of its sign (`Admits`). `Outcome` lists what can become of a sequence of bytes.

A decoder is known from what it does with one byte (`ByteWise`), and both decoders come to one of
these outcomes by induction on the bytes (`ByteWise.outcome`). `decode_by_position` puts this
together for all widths that are no multiple of seven.
-/

namespace WasmCore.Leb128

/-- The number of bytes that an integer of `bits` bits may take. -/
def maxLength (bits : Nat) : Nat := (bits + 6) / 7

/-- The first byte that says that no other one follows stands at position `k`. -/
structure EndsAt (bytes : List UInt8) (k : Nat) (last : UInt8) : Prop where
  getElem : bytes[k]? = some last
  last : continues last = false
  others : ∀ b ∈ bytes.take k, continues b = true

/-- From bit `w` on, the seven low bits of the byte are zero. -/
def ZeroFrom (w : Nat) (b : UInt8) : Prop := ∀ j < 7, w ≤ j → b.toNat.testBit j = false

/-- From bit `w` on, the seven low bits of the byte are copies of the one below. -/
def SignFrom (w : Nat) (b : UInt8) : Prop :=
  ∀ j < 7, w ≤ j → b.toNat.testBit j = b.toNat.testBit (w - 1)

/-- The bytes start with an integer of `bits` bits, which ends at position `k`; in the last byte
that it may take, the bits that it has no room for are as they should be. -/
structure Admits (beyond : Nat → UInt8 → Prop) (bits : Nat) (bytes : List UInt8) (k : Nat)
    (last : UInt8) : Prop where
  ends : EndsAt bytes k last
  short : k < maxLength bits
  spare : k + 1 = maxLength bits → beyond (bits - 7 * k) last

/-- Each byte says that another one follows, and there may be another one. -/
def IsCutShort (bits : Nat) (bytes : List UInt8) : Prop :=
  bytes.length < maxLength bits ∧ ∀ b ∈ bytes, continues b = true

/-- The seven low bits of each of the first `n` bytes, each byte worth 128 times the one before. -/
def positional (bytes : List UInt8) (n : Nat) : Nat :=
  ∑ i ∈ Finset.range n, (bytes.getD i 0).toNat % 128 * 2 ^ (7 * i)

/-- The unsigned integer that ends at position `k`. -/
def unsignedValue (bytes : List UInt8) (k : Nat) (_ : UInt8) : Nat := positional bytes (k + 1)

/-- The integer that ends at position `k`, in two's complement. -/
def signedValue (bytes : List UInt8) (k : Nat) (last : UInt8) : Int :=
  positional bytes (k + 1) - if last.toNat.testBit 6 then 2 ^ (7 * (k + 1)) else 0

instance (w : Nat) (b : UInt8) : Decidable (SignFrom w b) :=
  inferInstanceAs (Decidable (∀ j < 7, w ≤ j → b.toNat.testBit j = b.toNat.testBit (w - 1)))

instance (w : Nat) (b : UInt8) : Decidable (ZeroFrom w b) :=
  inferInstanceAs (Decidable (∀ j < 7, w ≤ j → b.toNat.testBit j = false))

instance (bits : Nat) (v : Int) : Decidable (InRange bits v) :=
  inferInstanceAs (Decidable (_ ∧ _))

variable {α : Type} {beyond : Nat → UInt8 → Prop} {value : List UInt8 → Nat → UInt8 → α}
  {bits k w : Nat} {b last : UInt8} {bytes : List UInt8}

theorem maxLength_of_le (h : 7 ≤ bits) : maxLength bits = maxLength (bits - 7) + 1 := by
  unfold maxLength
  omega

theorem maxLength_of_lt (h : bits < 7) (h' : bits % 7 ≠ 0) : maxLength bits = 1 := by
  unfold maxLength
  omega

/-! ### Positions -/

theorem endsAt_zero : EndsAt (b :: bytes) 0 last ↔ b = last ∧ continues b = false := by
  constructor
  · rintro ⟨hget, hlast, -⟩
    obtain rfl : b = last := by simpa using hget
    exact ⟨rfl, hlast⟩
  · rintro ⟨rfl, hlast⟩
    exact ⟨rfl, hlast, nofun⟩

theorem endsAt_succ :
    EndsAt (b :: bytes) (k + 1) last ↔ continues b = true ∧ EndsAt bytes k last := by
  constructor
  · rintro ⟨hget, hlast, hothers⟩
    rw [List.take_succ_cons, List.forall_mem_cons] at hothers
    exact ⟨hothers.1, hget, hlast, hothers.2⟩
  · rintro ⟨hb, hget, hlast, hothers⟩
    refine ⟨hget, hlast, ?_⟩
    rw [List.take_succ_cons, List.forall_mem_cons]
    exact ⟨hb, hothers⟩

theorem EndsAt.lt_length (h : EndsAt bytes k last) : k < bytes.length :=
  (List.getElem?_eq_some_iff.1 h.getElem).1

/-- Seven bits less make one byte less. -/
theorem admits_succ (hbits : 7 ≤ bits) : Admits beyond bits (b :: bytes) (k + 1) last ↔
    continues b = true ∧ Admits beyond (bits - 7) bytes k last := by
  have hlength := maxLength_of_le hbits
  have hroom : bits - 7 * (k + 1) = bits - 7 - 7 * k := by omega
  constructor
  · rintro ⟨hends, hshort, hspare⟩
    obtain ⟨hb, hends⟩ := endsAt_succ.1 hends
    exact ⟨hb, hends, by omega, fun hk => hroom ▸ hspare (by omega)⟩
  · rintro ⟨hb, hends, hshort, hspare⟩
    exact ⟨endsAt_succ.2 ⟨hb, hends⟩, by omega, fun hk => hroom ▸ hspare (by omega)⟩

theorem EndsAt.unique {k' : Nat} {last' : UInt8} (h : EndsAt bytes k last)
    (h' : EndsAt bytes k' last') : k = k' ∧ last = last' := by
  induction bytes generalizing k k' with
  | nil => exact absurd h.lt_length (Nat.not_lt_zero k)
  | cons b bytes ih =>
    cases k with
    | zero =>
      obtain ⟨rfl, hb⟩ := endsAt_zero.1 h
      cases k' with
      | zero => exact ⟨rfl, (endsAt_zero.1 h').1⟩
      | succ k' => simp [endsAt_succ, hb] at h'
    | succ k =>
      obtain ⟨hb, hrest⟩ := endsAt_succ.1 h
      cases k' with
      | zero => simp [endsAt_zero, hb] at h'
      | succ k' =>
        obtain ⟨rfl, rfl⟩ := ih hrest (endsAt_succ.1 h').2
        exact ⟨rfl, rfl⟩

/-- Where an integer ends, the bytes do not all say that another one follows. -/
theorem EndsAt.not_isCutShort (h : EndsAt bytes k last) : ¬ IsCutShort bits bytes := by
  rintro ⟨-, hall⟩
  have hlast := hall last (List.mem_of_getElem? h.getElem)
  exact Bool.false_ne_true (h.last.symm.trans hlast)

/-! ### Values -/

theorem positional_cons (b : UInt8) (bytes : List UInt8) (n : Nat) :
    positional (b :: bytes) (n + 1) = b.toNat % 128 + 128 * positional bytes n := by
  unfold positional
  rw [Finset.sum_range_succ', Finset.mul_sum, Nat.add_comm]
  congr 1
  · simp
  · refine Finset.sum_congr rfl fun i _ => ?_
    rw [List.getD_cons_succ, Nat.mul_succ, Nat.pow_add]
    ring

theorem unsignedValue_zero (b : UInt8) (bytes : List UInt8) :
    unsignedValue (b :: bytes) 0 b = b.toNat % 128 := by
  rw [unsignedValue, positional_cons]
  rfl

theorem unsignedValue_succ (b : UInt8) (bytes : List UInt8) (k : Nat) (last : UInt8) :
    unsignedValue (b :: bytes) (k + 1) last =
      b.toNat % 128 + 128 * unsignedValue bytes k last :=
  positional_cons b bytes (k + 1)

theorem signedValue_zero (b : UInt8) (bytes : List UInt8) :
    signedValue (b :: bytes) 0 b = signedPayload b := by
  have hbit : b.toNat.testBit 6 = decide (64 ≤ b.toNat % 128) := by
    rw [Nat.testBit_eq_decide_div_mod_eq]
    congr 1
    simp only [eq_iff_iff]
    omega
  have hlow : positional (b :: bytes) (0 + 1) = b.toNat % 128 := unsignedValue_zero b bytes
  unfold signedValue signedPayload
  rw [hlow, hbit]
  split <;> simp_all

theorem signedValue_succ (b : UInt8) (bytes : List UInt8) (k : Nat) (last : UInt8) :
    signedValue (b :: bytes) (k + 1) last =
      ((b.toNat % 128 : Nat) : Int) + 128 * signedValue bytes k last := by
  have hpow : (2 : Int) ^ (7 * (k + 1 + 1)) = 128 * 2 ^ (7 * (k + 1)) := by
    rw [Nat.mul_succ 7 (k + 1), Int.pow_add, Int.mul_comm]
    rfl
  unfold signedValue
  rw [positional_cons, hpow]
  split <;> push_cast <;> ring

/-! ### Bits without room -/

/-- In fewer than seven bits fit the bytes that have no other bits. -/
theorem zeroFrom_iff (hb : b.toNat < 128) : ZeroFrom w b ↔ b.toNat < 2 ^ w := by
  constructor
  · intro h
    refine Nat.lt_pow_two_of_testBit _ fun j hj => ?_
    by_cases hj' : j < 7
    · exact h j hj' hj
    · have hpow : 2 ^ 7 ≤ 2 ^ j := Nat.pow_le_pow_right (by decide) (by omega)
      exact Nat.testBit_lt_two_pow (by omega)
  · intro h j _ hj
    exact Nat.testBit_lt_two_pow (Nat.lt_of_lt_of_le h (Nat.pow_le_pow_right (by decide) hj))

/-- A byte is in range as a signed integer of `w` bits if the other bits are copies of the sign. -/
theorem signFrom_iff (hw : 0 < w) (hw' : w < 7) (hb : b.toNat < 128) :
    SignFrom w b ↔ InRange w (signedPayload b) := by
  -- six widths and 128 bytes
  have hall : ∀ w < 7, 0 < w → ∀ n < 128,
      (SignFrom w (.ofNat n) ↔ InRange w (signedPayload (.ofNat n))) := by
    decide +kernel
  simpa using hall w hw' hw b.toNat hb

/-! ### Outcomes -/

/-- What can become of the bytes: they start with an integer, they end inside of one, or the first
of them, as many as an integer may take, are none. -/
inductive Outcome (beyond : Nat → UInt8 → Prop) (value : List UInt8 → Nat → UInt8 → α) (bits : Nat)
    (bytes : List UInt8) : Except Error α × List UInt8 → Prop
  | ok {k : Nat} {last : UInt8} (h : Admits beyond bits bytes k last) :
    Outcome beyond value bits bytes (.ok (value bytes k last), bytes.drop (k + 1))
  | endOfInput (h : IsCutShort bits bytes) :
    Outcome beyond value bits bytes (.error .endOfInput, [])
  | overflow (h : ∀ k last, ¬ Admits beyond bits bytes k last)
    (hlength : maxLength bits ≤ bytes.length) :
    Outcome beyond value bits bytes (.error .overflow, bytes.drop (maxLength bits))

variable {r : Except Error α × List UInt8}

/-- After a byte that says so, the rest of an integer follows, of seven bits less. -/
theorem Outcome.cons {f : α → α} (h : Outcome beyond value (bits - 7) bytes r)
    (hbits : 7 ≤ bits) (hb : continues b = true)
    (hvalue : ∀ k last, value (b :: bytes) (k + 1) last = f (value bytes k last)) :
    Outcome beyond value bits (b :: bytes) (r.1.map f, r.2) := by
  have hlength := maxLength_of_le hbits
  cases h with
  | @ok k last h =>
    have hok : Outcome beyond value bits (b :: bytes)
        (.ok (value (b :: bytes) (k + 1) last), (b :: bytes).drop (k + 1 + 1)) :=
      .ok ((admits_succ hbits).2 ⟨hb, h⟩)
    rwa [hvalue] at hok
  | endOfInput h =>
    obtain ⟨hshort, hall⟩ := h
    refine .endOfInput ⟨?_, List.forall_mem_cons.2 ⟨hb, hall⟩⟩
    rw [List.length_cons]
    omega
  | overflow h hlong =>
    have hdrop : bytes.drop (maxLength (bits - 7)) = (b :: bytes).drop (maxLength bits) := by
      rw [hlength, List.drop_succ_cons]
    rw [hdrop]
    refine .overflow (fun k last hadmits => ?_) (by simpa [hlength] using hlong)
    cases k with
    | zero => exact Bool.false_ne_true ((endsAt_zero.1 hadmits.ends).2.symm.trans hb)
    | succ k => exact h k last ((admits_succ hbits).1 hadmits).2

/-- A byte that must be the last one is an integer if its bits are as they should be. -/
theorem Outcome.fits (hbits : bits < 7) (hbits' : bits % 7 ≠ 0) (hb : continues b = false)
    (hbeyond : beyond bits b) :
    Outcome beyond value bits (b :: bytes) (.ok (value (b :: bytes) 0 b), bytes) := by
  have hlength := maxLength_of_lt hbits hbits'
  exact .ok (k := 0) ⟨endsAt_zero.2 ⟨rfl, hb⟩, by omega, fun _ => hbeyond⟩

theorem Outcome.unfit (hbits : bits < 7) (hbits' : bits % 7 ≠ 0)
    (hno : continues b = false → ¬ beyond bits b) :
    Outcome beyond value bits (b :: bytes) (.error .overflow, bytes) := by
  have hlength := maxLength_of_lt hbits hbits'
  have hover : Outcome beyond value bits (b :: bytes)
      (.error .overflow, (b :: bytes).drop (maxLength bits)) := by
    refine .overflow (fun k last hadmits => ?_) (by simp [hlength])
    have hshort := hadmits.short
    obtain rfl : k = 0 := by omega
    obtain ⟨rfl, hb⟩ := endsAt_zero.1 hadmits.ends
    exact hno hb (hadmits.spare (by omega))
  rwa [hlength] at hover

/-- A byte that could be followed by another one and is not is an integer. -/
theorem Outcome.ends (hbits : 7 < bits) (hb : continues b = false) :
    Outcome beyond value bits (b :: bytes) (.ok (value (b :: bytes) 0 b), bytes) := by
  have hlength : 1 < maxLength bits := by
    unfold maxLength
    omega
  exact .ok (k := 0) ⟨endsAt_zero.2 ⟨rfl, hb⟩, by omega, fun hk => by omega⟩

theorem Outcome.nil (hbits : bits % 7 ≠ 0) :
    Outcome beyond value bits [] (.error .endOfInput, []) := by
  refine .endOfInput ⟨?_, nofun⟩
  unfold maxLength
  rw [List.length_nil]
  omega

namespace Outcome

theorem eq_of_admits (h : Outcome beyond value bits bytes r)
    (hadmits : Admits beyond bits bytes k last) :
    r = (.ok (value bytes k last), bytes.drop (k + 1)) := by
  cases h with
  | ok hadmits' =>
    obtain ⟨rfl, rfl⟩ := hadmits.ends.unique hadmits'.ends
    rfl
  | endOfInput hcut => exact absurd hcut hadmits.ends.not_isCutShort
  | overflow hno => exact absurd hadmits (hno k last)

theorem eq_of_isCutShort (h : Outcome beyond value bits bytes r) (hcut : IsCutShort bits bytes) :
    r = (.error .endOfInput, []) := by
  cases h with
  | ok hadmits => exact absurd hcut hadmits.ends.not_isCutShort
  | endOfInput => rfl
  | overflow _ hlong => exact absurd hcut.1 (Nat.not_lt.2 hlong)

theorem eq_of_not (h : Outcome beyond value bits bytes r)
    (hno : ¬ ∃ k last, Admits beyond bits bytes k last) (hcut : ¬ IsCutShort bits bytes) :
    maxLength bits ≤ bytes.length ∧ r = (.error .overflow, bytes.drop (maxLength bits)) := by
  cases h with
  | ok hadmits => exact absurd ⟨_, _, hadmits⟩ hno
  | endOfInput hcut' => exact absurd hcut' hcut
  | overflow _ hlong => exact ⟨hlong, rfl⟩

theorem exists_admits {x : α} {left : List UInt8}
    (h : Outcome beyond value bits bytes (.ok x, left)) :
    ∃ k last, Admits beyond bits bytes k last := by
  cases h with
  | ok hadmits => exact ⟨_, _, hadmits⟩

end Outcome

/-! ### The decoders -/

theorem continues_eq_false : continues b = false ↔ b.toNat < 128 := by
  simp [continues]

theorem decodeUnsigned_cons (hbits : 7 ≤ bits) (hb : continues b = true) (bytes : List UInt8) :
    decodeUnsigned bits (b :: bytes) =
      ((decodeUnsigned (bits - 7) bytes).1.map fun high => b.toNat % 128 + 128 * high,
        (decodeUnsigned (bits - 7) bytes).2) := by
  rw [decodeUnsigned, if_neg (Nat.not_lt.2 hbits), if_pos hb]
  split <;> simp_all [Except.map]

theorem decodeSigned_cons (hbits : 7 ≤ bits) (hb : continues b = true) (bytes : List UInt8) :
    decodeSigned bits (b :: bytes) =
      ((decodeSigned (bits - 7) bytes).1.map fun high =>
        ((b.toNat % 128 : Nat) : Int) + 128 * high, (decodeSigned (bits - 7) bytes).2) := by
  rw [decodeSigned, if_neg (Nat.not_lt.2 hbits), if_pos hb]
  split <;> simp_all [Except.map]

/-- What a decoder does with the first byte, of which the rest follows. -/
structure ByteWise (decode : Nat → List UInt8 → Except Error α × List UInt8)
    (beyond : Nat → UInt8 → Prop) (value : List UInt8 → Nat → UInt8 → α) : Prop where
  nil (bits : Nat) : decode bits [] = (.error .endOfInput, [])
  more {bits : Nat} {b : UInt8} (bytes : List UInt8) (hbits : 7 ≤ bits) (hb : continues b = true) :
    ∃ f, (∀ k last, value (b :: bytes) (k + 1) last = f (value bytes k last)) ∧
      decode bits (b :: bytes) =
        ((decode (bits - 7) bytes).1.map f, (decode (bits - 7) bytes).2)
  ends {bits : Nat} {b : UInt8} (bytes : List UInt8) (hbits : 7 ≤ bits)
    (hb : continues b = false) : decode bits (b :: bytes) = (.ok (value (b :: bytes) 0 b), bytes)
  fits {bits : Nat} {b : UInt8} (bytes : List UInt8) (hbits : bits < 7) (hpos : 0 < bits)
    (hb : continues b = false) (hbeyond : beyond bits b) :
    decode bits (b :: bytes) = (.ok (value (b :: bytes) 0 b), bytes)
  unfit {bits : Nat} {b : UInt8} (bytes : List UInt8) (hbits : bits < 7) (hpos : 0 < bits)
    (hno : continues b = false → ¬ beyond bits b) :
    decode bits (b :: bytes) = (.error .overflow, bytes)

theorem ByteWise.outcome {decode : Nat → List UInt8 → Except Error α × List UInt8}
    (h : ByteWise decode beyond value) (hbits : bits % 7 ≠ 0) (bytes : List UInt8) :
    Outcome beyond value bits bytes (decode bits bytes) := by
  induction bytes generalizing bits with
  | nil =>
    rw [h.nil]
    exact .nil hbits
  | cons b bytes ih =>
    by_cases hmore : 7 ≤ bits
    · cases hb : continues b with
      | true =>
        obtain ⟨f, hvalue, heq⟩ := h.more bytes hmore hb
        rw [heq]
        exact (ih (by omega)).cons hmore hb hvalue
      | false =>
        rw [h.ends bytes hmore hb]
        exact .ends (by omega) hb
    · have hlast : bits < 7 := Nat.lt_of_not_le hmore
      by_cases hfits : continues b = false ∧ beyond bits b
      · rw [h.fits bytes hlast (by omega) hfits.1 hfits.2]
        exact .fits hlast hbits hfits.1 hfits.2
      · have hno : continues b = false → ¬ beyond bits b := fun hb hbeyond => hfits ⟨hb, hbeyond⟩
        rw [h.unfit bytes hlast (by omega) hno]
        exact .unfit hlast hbits hno

theorem byteWise_decodeUnsigned : ByteWise decodeUnsigned ZeroFrom unsignedValue where
  nil _ := rfl
  more {bits b} bytes hbits hb :=
    ⟨_, unsignedValue_succ b bytes, decodeUnsigned_cons hbits hb bytes⟩
  ends {bits b} bytes hbits hb := by
    rw [unsignedValue_zero, Nat.mod_eq_of_lt (continues_eq_false.1 hb), decodeUnsigned,
      if_neg (Nat.not_lt.2 hbits), if_neg (by simp [hb])]
  fits {bits b} bytes hbits hpos hb hzero := by
    have hlt := (zeroFrom_iff (continues_eq_false.1 hb)).1 hzero
    rw [unsignedValue_zero, Nat.mod_eq_of_lt (continues_eq_false.1 hb), decodeUnsigned,
      if_pos hbits, if_neg (by simp [hb, hlt])]
  unfit {bits b} bytes hbits hpos hno := by
    have hover : (continues b || decide (2 ^ bits ≤ b.toNat)) = true := by
      cases hb : continues b with
      | true => rfl
      | false =>
        have hge := mt (zeroFrom_iff (continues_eq_false.1 hb)).2 (hno hb)
        exact decide_eq_true (Nat.le_of_not_lt hge)
    rw [decodeUnsigned, if_pos hbits, if_pos hover]

theorem byteWise_decodeSigned : ByteWise decodeSigned SignFrom signedValue where
  nil _ := rfl
  more {bits b} bytes hbits hb := ⟨_, signedValue_succ b bytes, decodeSigned_cons hbits hb bytes⟩
  ends {bits b} bytes hbits hb := by
    rw [signedValue_zero, decodeSigned, if_neg (Nat.not_lt.2 hbits), if_neg (by simp [hb])]
  fits {bits b} bytes hbits hpos hb hcopies := by
    obtain ⟨hlow, hhigh⟩ := (signFrom_iff hpos hbits (continues_eq_false.1 hb)).1 hcopies
    rw [signedValue_zero, decodeSigned, if_pos hbits]
    simp [hb, Int.not_lt.2 hlow, Int.not_le.2 hhigh]
  unfit {bits b} bytes hbits hpos hno := by
    have hover : (continues b || decide (signedPayload b < -2 ^ (bits - 1)) ||
        decide (2 ^ (bits - 1) ≤ signedPayload b)) = true := by
      cases hb : continues b with
      | true => rfl
      | false =>
        have hout := mt (signFrom_iff hpos hbits (continues_eq_false.1 hb)).2 (hno hb)
        rw [InRange, not_and_or, Int.not_le, Int.not_lt] at hout
        simpa using hout
    rw [decodeSigned, if_pos hbits]
    exact if_pos hover

/-! ### Exactness -/

/-- The decoder reads the integers that are there, and says of all other bytes what is wrong. -/
structure ReadsExactly (decode : List UInt8 → Except Error α × List UInt8)
    (beyond : Nat → UInt8 → Prop) (value : List UInt8 → Nat → UInt8 → α) (bits : Nat) : Prop where
  /-- It succeeds exactly if the bytes start with an integer. -/
  ok_iff : ∀ bytes, (∃ x left, decode bytes = (.ok x, left)) ↔
    ∃ k last, Admits beyond bits bytes k last
  /-- Then it takes the bytes up to the last one of the integer, and gives its value. -/
  ok : ∀ bytes k last, Admits beyond bits bytes k last →
    decode bytes = (.ok (value bytes k last), bytes.drop (k + 1))
  /-- It takes all bytes of an integer that they end inside of. -/
  endOfInput : ∀ bytes, IsCutShort bits bytes → decode bytes = (.error .endOfInput, [])
  /-- In every other case it takes as many bytes as an integer can have. -/
  overflow : ∀ bytes, (¬ ∃ k last, Admits beyond bits bytes k last) → ¬ IsCutShort bits bytes →
    maxLength bits ≤ bytes.length ∧ decode bytes = (.error .overflow, bytes.drop (maxLength bits))

theorem Outcome.readsExactly {decode : List UInt8 → Except Error α × List UInt8}
    (h : ∀ bytes, Outcome beyond value bits bytes (decode bytes)) :
    ReadsExactly decode beyond value bits where
  ok_iff bytes := by
    constructor
    · rintro ⟨x, left, hread⟩
      exact (hread ▸ h bytes).exists_admits
    · rintro ⟨k, last, hadmits⟩
      exact ⟨_, _, (h bytes).eq_of_admits hadmits⟩
  ok bytes k last hadmits := (h bytes).eq_of_admits hadmits
  endOfInput bytes hcut := (h bytes).eq_of_isCutShort hcut
  overflow bytes hno hcut := (h bytes).eq_of_not hno hcut

theorem readsExactly_decodeUnsigned (hbits : bits % 7 ≠ 0) :
    ReadsExactly (decodeUnsigned bits) ZeroFrom unsignedValue bits :=
  Outcome.readsExactly (byteWise_decodeUnsigned.outcome hbits)

theorem readsExactly_decodeSigned (hbits : bits % 7 ≠ 0) :
    ReadsExactly (decodeSigned bits) SignFrom signedValue bits :=
  Outcome.readsExactly (byteWise_decodeSigned.outcome hbits)

/-- **Integers are read exactly by the grammar.** They end at the first byte with a clear high bit,
which is one of the `⌈bits / 7⌉` first, and in the last of these the bits that do not belong to the
integer are zero or copies of its sign. The value is the sum of the digits to base 128, less 128 to
the number of digits if the integer is signed and bit 6 of the last byte is set. Bytes that end too
soon are all taken, and of all others as many as an integer can have. What is read fits into
`bits` bits. -/
theorem decode_by_position (hbits : bits % 7 ≠ 0) :
    ReadsExactly (decodeUnsigned bits) ZeroFrom unsignedValue bits ∧
      ReadsExactly (decodeSigned bits) SignFrom signedValue bits ∧
      (∀ bytes n left, decodeUnsigned bits bytes = (.ok n, left) → n < 2 ^ bits) ∧
      ∀ bytes v left, decodeSigned bits bytes = (.ok v, left) → InRange bits v :=
  ⟨readsExactly_decodeUnsigned hbits, readsExactly_decodeSigned hbits,
    fun _ _ _ h => (decodeUnsigned_spec h).1, fun _ _ _ h => (decodeSigned_spec hbits h).1⟩

/-- The greatest unsigned integer of 32 bits, and a byte behind it. -/
def greatest : List UInt8 := [0xff, 0xff, 0xff, 0xff, 0x0f, 0x07]

/-- The least signed integer of 64 bits. -/
def least : List UInt8 := List.replicate 9 0x80 ++ [0x7f]

theorem decode_by_position_bounds :
    32 % 7 ≠ 0 ∧ 64 % 7 ≠ 0 ∧ decodeUnsigned 32 greatest = (.ok (2 ^ 32 - 1), [0x07]) ∧
      decodeSigned 64 least = (.ok (-2 ^ 63), []) ∧
      decodeSigned 32 greatest = (.error .overflow, [0x07]) ∧
      decodeUnsigned 64 (least.take 9) = (.error .endOfInput, []) := by
  have h32 := decode_by_position (by decide : 32 % 7 ≠ 0)
  have h64 := decode_by_position (by decide : 64 % 7 ≠ 0)
  have hgreatest : EndsAt greatest 4 0x0f := ⟨rfl, rfl, List.all_eq_true.1 rfl⟩
  have hvalue : unsignedValue greatest 4 0x0f = 2 ^ 32 - 1 := by decide
  have hvalue' : signedValue least 9 0x7f = -2 ^ 63 := by decide
  have hread := h32.1.ok greatest 4 0x0f ⟨hgreatest, by decide, by decide⟩
  have hleast : EndsAt least 9 0x7f := ⟨rfl, rfl, List.all_eq_true.1 rfl⟩
  have hread' := h64.2.1.ok least 9 0x7f ⟨hleast, by decide, by decide⟩
  -- bits 28 to 31 are ones, so the three beyond should be
  have hnone : ¬ ∃ k last, Admits SignFrom 32 greatest k last := by
    rintro ⟨k, last, hadmits⟩
    obtain ⟨rfl, rfl⟩ := hadmits.ends.unique hgreatest
    exact absurd (hadmits.spare rfl) (by decide)
  have hover := h32.2.1.overflow greatest hnone hgreatest.not_isCutShort
  rw [hvalue] at hread
  rw [hvalue'] at hread'
  exact ⟨by decide, by decide, hread, hread', hover.2,
    h64.1.endOfInput (least.take 9) ⟨by decide, List.all_eq_true.1 rfl⟩⟩

end WasmCore.Leb128
