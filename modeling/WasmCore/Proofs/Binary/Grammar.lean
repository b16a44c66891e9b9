import WasmCore.Proofs.Binary.Decoder

/-!
# Grammars

Which bytes encode a value, said without reference to a decoder or an encoder: `IsUnsigned` and
`IsSigned` for integers, `Concat` and `InRow` for parts and items one after the other. An integer
may be padded, so it has several encodings; the encoder writes the shortest one
(`isUnsigned_encodeUnsigned`, `IsUnsigned.length_le`, and so for signed integers).

A decoder `Recognizes` a grammar if it takes from the front of the bytes exactly what the grammar
admits.
-/

namespace WasmCore

/-- The bytes are one part followed by another one. -/
def Concat (first second : List UInt8 → Prop) (bytes : List UInt8) : Prop :=
  ∃ a b, bytes = a ++ b ∧ first a ∧ second b

/-- The bytes encode the items one after the other. -/
def InRow {α : Type} (item : α → List UInt8 → Prop) : List α → List UInt8 → Prop
  | [], bytes => bytes = []
  | x :: xs, bytes => Concat (item x) (InRow item xs) bytes

theorem Concat.intro {first second : List UInt8 → Prop} {a b : List UInt8} (ha : first a)
    (hb : second b) : Concat first second (a ++ b) := ⟨a, b, rfl, ha, hb⟩

namespace InRow

variable {α β : Type} {item : α → List UInt8 → Prop} {x : α} {xs ys : List α}
  {a b bytes : List UInt8}

theorem cons (h : item x a) (hs : InRow item xs b) : InRow item (x :: xs) (a ++ b) :=
  Concat.intro h hs

theorem append (h : InRow item xs a) (h' : InRow item ys b) : InRow item (xs ++ ys) (a ++ b) := by
  induction xs generalizing a with
  | nil =>
    obtain rfl : a = [] := h
    exact h'
  | cons x xs ih =>
    obtain ⟨c, d, rfl, hc, hd⟩ := h
    rw [List.append_assoc]
    exact cons hc (ih hd)

theorem append_inv (h : InRow item (xs ++ ys) bytes) :
    ∃ a b, bytes = a ++ b ∧ InRow item xs a ∧ InRow item ys b := by
  induction xs generalizing bytes with
  | nil => exact ⟨[], bytes, rfl, rfl, h⟩
  | cons x xs ih =>
    obtain ⟨c, d, rfl, hc, hd⟩ := h
    obtain ⟨a, b, rfl, ha, hb⟩ := ih hd
    exact ⟨c ++ a, b, (List.append_assoc c a b).symm, cons hc ha, hb⟩

theorem exists_of_mem (h : InRow item xs bytes) (hx : x ∈ xs) : ∃ a, item x a := by
  obtain ⟨ys, zs, rfl⟩ := List.append_of_mem hx
  obtain ⟨_, _, -, -, a, _, -, ha, -⟩ := h.append_inv
  exact ⟨a, ha⟩

theorem length_le (hpos : ∀ x a, item x a → a ≠ []) (h : InRow item xs bytes) :
    xs.length ≤ bytes.length := by
  induction xs generalizing bytes with
  | nil => exact Nat.zero_le _
  | cons x xs ih =>
    obtain ⟨a, b, rfl, ha, hb⟩ := h
    have := List.length_pos_iff.2 (hpos x a ha)
    have := ih hb
    simp only [List.length_cons, List.length_append]
    omega

theorem map {f : β → α} {zs : List β} :
    InRow item (zs.map f) bytes ↔ InRow (fun z => item (f z)) zs bytes := by
  induction zs generalizing bytes with
  | nil => rfl
  | cons z zs ih => simp only [List.map_cons, InRow, Concat, ih]

/-- Items are in a row as their encoder writes them. -/
theorem of_encode {encode : α → List UInt8} (h : ∀ x ∈ xs, item x (encode x)) :
    InRow item xs (xs.map encode).flatten := by
  induction xs with
  | nil => rfl
  | cons x xs ih =>
    rw [List.forall_mem_cons] at h
    exact cons h.1 (ih h.2)

theorem length_flatten_le {encode : α → List UInt8}
    (hle : ∀ x a, item x a → (encode x).length ≤ a.length) (h : InRow item xs bytes) :
    (xs.map encode).flatten.length ≤ bytes.length := by
  induction xs generalizing bytes with
  | nil => exact Nat.zero_le _
  | cons x xs ih =>
    obtain ⟨a, b, rfl, ha, hb⟩ := h
    have := hle x a ha
    have := ih hb
    simp only [List.map_cons, List.flatten_cons, List.length_append]
    omega

end InRow

/-! ### Integers -/

namespace Leb128

/-- The bytes encode the unsigned integer in at most `bits` bits. -/
inductive IsUnsigned : (bits n : Nat) → List UInt8 → Prop
  /-- The last byte has its high bit clear. -/
  | last {bits : Nat} {b : UInt8} (hb : b.toNat < 128) (hfits : b.toNat < 2 ^ bits) :
    IsUnsigned bits b.toNat [b]
  /-- Every other one holds the seven low bits of the integer. -/
  | more {bits n : Nat} {b : UInt8} {bytes : List UInt8} (hb : 128 ≤ b.toNat) (hbits : 7 < bits)
    (h : IsUnsigned (bits - 7) n bytes) : IsUnsigned bits (b.toNat - 128 + 128 * n) (b :: bytes)

/-- The bytes encode the signed integer in at most `bits` bits. -/
inductive IsSigned : (bits : Nat) → (v : Int) → List UInt8 → Prop
  /-- The last byte has its high bit clear, and the bit below that is the sign. -/
  | last {bits : Nat} {b : UInt8} (hb : b.toNat < 128) (hfits : InRange bits (signedPayload b)) :
    IsSigned bits (signedPayload b) [b]
  /-- Every other one holds the seven low bits of the integer. -/
  | more {bits : Nat} {v : Int} {b : UInt8} {bytes : List UInt8} (hb : 128 ≤ b.toNat)
    (hbits : 7 < bits) (h : IsSigned (bits - 7) v bytes) :
    IsSigned bits ((b.toNat : Int) - 128 + 128 * v) (b :: bytes)

variable {bits n : Nat} {v : Int} {bytes rest : List UInt8}

theorem IsUnsigned.ne_nil (h : IsUnsigned bits n bytes) : bytes ≠ [] := by
  cases h <;> exact List.cons_ne_nil _ _

theorem IsUnsigned.decode (h : IsUnsigned bits n bytes) (rest : List UInt8) :
    decodeUnsigned bits (bytes ++ rest) = (.ok n, rest) := by
  induction h with
  | @last bits b hb hfits =>
    have h1 : ¬ 128 ≤ b.toNat := by omega
    have h2 : ¬ 2 ^ bits ≤ b.toNat := by omega
    simp [decodeUnsigned, continues, h1, h2]
  | @more bits n b bytes hb hbits h ih =>
    have hlt := b.toNat_lt
    have h1 : ¬ bits < 7 := by omega
    have h2 : b.toNat % 128 = b.toNat - 128 := by omega
    simp [decodeUnsigned, continues, h1, hb, ih, h2]

theorem IsUnsigned.lt (h : IsUnsigned bits n bytes) : n < 2 ^ bits :=
  (decodeUnsigned_spec (h.decode [])).1

/-- The encoder writes the shortest encoding. -/
theorem IsUnsigned.length_le (h : IsUnsigned bits n bytes) :
    (encodeUnsigned n).length ≤ bytes.length := by
  simpa using (decodeUnsigned_spec (h.decode [])).2

theorem isUnsigned_of_decode (hbits : bits % 7 ≠ 0)
    (h : decodeUnsigned bits bytes = (.ok n, rest)) :
    ∃ digits, bytes = digits ++ rest ∧ IsUnsigned bits n digits := by
  induction bytes generalizing bits n with
  | nil => simp [decodeUnsigned] at h
  | cons b bytes ih =>
    have hlt := b.toNat_lt
    simp only [decodeUnsigned] at h
    split at h
    · split at h
      · cases h
      · rename_i hb
        simp only [continues, Bool.or_eq_true, decide_eq_true_eq, not_or, Nat.not_le] at hb
        obtain ⟨rfl, rfl⟩ : b.toNat = n ∧ bytes = rest := by simpa using h
        exact ⟨[b], rfl, .last hb.1 hb.2⟩
    · split at h
      · rename_i hge hb
        simp only [continues, decide_eq_true_eq] at hb
        split at h
        · rename_i high left hd
          obtain ⟨rfl, rfl⟩ : b.toNat % 128 + 128 * high = n ∧ left = rest := by simpa using h
          obtain ⟨digits, rfl, hdigits⟩ := ih (by omega) hd
          have hmod : b.toNat % 128 = b.toNat - 128 := by omega
          exact ⟨b :: digits, rfl, hmod ▸ .more hb (by omega) hdigits⟩
        · cases h
      · rename_i hge hb
        simp only [continues, decide_eq_true_eq, Nat.not_le] at hb
        obtain ⟨rfl, rfl⟩ : b.toNat = n ∧ bytes = rest := by simpa using h
        have hpow := pow_eq_of_seven_le (by omega : 7 ≤ bits)
        have h1 : 1 ≤ 2 ^ (bits - 7) := Nat.one_le_two_pow
        exact ⟨[b], rfl, .last hb (by omega)⟩

theorem isUnsigned_encodeUnsigned (hbits : bits % 7 ≠ 0) (h : n < 2 ^ bits) :
    IsUnsigned bits n (encodeUnsigned n) := by
  obtain ⟨digits, heq, hdigits⟩ :=
    isUnsigned_of_decode hbits (decodeUnsigned_encodeUnsigned h [])
  rwa [List.append_cancel_right heq]

theorem IsSigned.decode (h : IsSigned bits v bytes) (rest : List UInt8) :
    decodeSigned bits (bytes ++ rest) = (.ok v, rest) := by
  induction h with
  | @last bits b hb hfits =>
    have h1 : ¬ 128 ≤ b.toNat := by omega
    have h2 : ¬ signedPayload b < -2 ^ (bits - 1) := Int.not_lt.2 hfits.1
    have h3 : ¬ 2 ^ (bits - 1) ≤ signedPayload b := Int.not_le.2 hfits.2
    simp [decodeSigned, continues, h1, h2, h3]
  | @more bits v b bytes hb hbits h ih =>
    have hlt := b.toNat_lt
    have h1 : ¬ bits < 7 := by omega
    have h2 : ((b.toNat % 128 : Nat) : Int) = (b.toNat : Int) - 128 := by omega
    simp only [List.cons_append, decodeSigned, continues, h1, hb, ih, h2, ↓reduceIte, decide_true]

theorem IsSigned.inRange (hbits : bits % 7 ≠ 0) (h : IsSigned bits v bytes) : InRange bits v :=
  (decodeSigned_spec hbits (h.decode [])).1

/-- The encoder writes the shortest encoding. -/
theorem IsSigned.length_le (hbits : bits % 7 ≠ 0) (h : IsSigned bits v bytes) :
    (encodeSigned v).length ≤ bytes.length := by
  simpa using (decodeSigned_spec hbits (h.decode [])).2

theorem isSigned_of_decode (hbits : bits % 7 ≠ 0) (h : decodeSigned bits bytes = (.ok v, rest)) :
    ∃ digits, bytes = digits ++ rest ∧ IsSigned bits v digits := by
  induction bytes generalizing bits v with
  | nil => simp [decodeSigned] at h
  | cons b bytes ih =>
    have hlt := b.toNat_lt
    simp only [decodeSigned] at h
    split at h
    · split at h
      · cases h
      · rename_i hb
        simp only [continues, Bool.or_eq_true, decide_eq_true_eq, not_or, Int.not_lt, Int.not_le,
          Nat.not_le] at hb
        obtain ⟨rfl, rfl⟩ : signedPayload b = v ∧ bytes = rest := by simpa using h
        exact ⟨[b], rfl, .last hb.1.1 ⟨hb.1.2, hb.2⟩⟩
    · split at h
      · rename_i hge hb
        simp only [continues, decide_eq_true_eq] at hb
        split at h
        · rename_i high left hd
          obtain ⟨rfl, rfl⟩ : ((b.toNat % 128 : Nat) : Int) + 128 * high = v ∧ left = rest := by
            simpa using h
          obtain ⟨digits, rfl, hdigits⟩ := ih (by omega) hd
          have hmod : ((b.toNat % 128 : Nat) : Int) = (b.toNat : Int) - 128 := by omega
          exact ⟨b :: digits, rfl, hmod ▸ .more hb (by omega) hdigits⟩
        · cases h
      · rename_i hge hb
        simp only [continues, decide_eq_true_eq, Nat.not_le] at hb
        obtain ⟨rfl, rfl⟩ : signedPayload b = v ∧ bytes = rest := by simpa using h
        have hpay := signedPayload_bounds b
        have := pow_pred_ge_of_seven_le (by omega : 7 ≤ bits)
        exact ⟨[b], rfl, .last hb ⟨by omega, by omega⟩⟩

theorem isSigned_encodeSigned (hbits : bits % 7 ≠ 0) (h : InRange bits v) :
    IsSigned bits v (encodeSigned v) := by
  obtain ⟨digits, heq, hdigits⟩ := isSigned_of_decode hbits (decodeSigned_encodeSigned h [])
  rwa [List.append_cancel_right heq]

end Leb128

namespace Binary

open Decoder Leb128

variable {α : Type} {d : Decoder α} {bytes rest : List UInt8}

/-- The decoder takes from the front of the bytes exactly what the grammar admits. -/
def Recognizes (d : Decoder α) (grammar : α → List UInt8 → Prop) : Prop :=
  ∀ bytes x rest, Reads d bytes x rest ↔ ∃ a, bytes = a ++ rest ∧ grammar x a

theorem Recognizes.within {grammar : α → List UInt8 → Prop} {place : Place}
    (h : Recognizes d grammar) : Recognizes (within place d) grammar :=
  fun bytes x rest => reads_within.trans (h bytes x rest)

theorem u32_recognizes : Recognizes u32 fun n => IsUnsigned 32 n.toNat := by
  intro bytes n rest
  constructor
  · intro h
    unfold Reads u32 at h
    split at h
    · rename_i k left hd
      obtain ⟨rfl, rfl⟩ : UInt32.ofNat k = n ∧ left = rest := by simpa using h
      obtain ⟨hk, -⟩ := decodeUnsigned_spec hd
      simp only [UInt32.toNat_ofNat_of_lt' hk]
      exact isUnsigned_of_decode (by decide) hd
    · cases h
  · rintro ⟨a, rfl, ha⟩
    simp [Reads, u32, ha.decode rest]

theorem signed_recognizes {bits : Nat} (hbits : bits % 7 ≠ 0) :
    Recognizes (signed bits) (IsSigned bits) := by
  intro bytes v rest
  constructor
  · intro h
    unfold Reads signed at h
    split at h
    · rename_i w left hd
      obtain ⟨rfl, rfl⟩ : w = v ∧ left = rest := by simpa using h
      exact isSigned_of_decode hbits hd
    · cases h
  · rintro ⟨a, rfl, ha⟩
    simp [Reads, signed, ha.decode rest]

theorem repeated_recognizes {item : Nat → Decoder α} {grammar : α → List UInt8 → Prop}
    (h : ∀ i, Recognizes (item i) grammar) {n i : Nat} {xs : List α} :
    Reads (repeated.go item n i) bytes xs rest ↔
      xs.length = n ∧ ∃ a, bytes = a ++ rest ∧ InRow grammar xs a := by
  induction n generalizing i bytes rest xs with
  | zero =>
    simp only [repeated.go, reads_pure, List.length_eq_zero_iff]
    constructor
    · rintro ⟨rfl, rfl⟩
      exact ⟨rfl, [], rfl, rfl⟩
    · rintro ⟨rfl, _, rfl, rfl⟩
      exact ⟨rfl, rfl⟩
  | succ n ih =>
    simp only [repeated.go, reads_bind, reads_pure, h i _ _ _, ih]
    constructor
    · rintro ⟨x, _, ⟨a, rfl, ha⟩, ys, _, ⟨hn, b, rfl, hb⟩, rfl, rfl⟩
      exact ⟨by rw [List.length_cons, hn], a ++ b, (List.append_assoc ..).symm, .cons ha hb⟩
    · rintro ⟨hn, c, rfl, hc⟩
      obtain ⟨x, ys, rfl⟩ := List.exists_cons_of_length_eq_add_one hn
      obtain ⟨a, b, rfl, ha, hb⟩ := hc
      exact ⟨x, b ++ rest, ⟨a, List.append_assoc .., ha⟩, ys, rest,
        ⟨Nat.succ.inj hn, b, rfl, hb⟩, rfl, rfl⟩

end Binary

end WasmCore
