import WasmCore.Leb128

/-!
# LEB128: decoding undoes encoding

For integers of `bits` bits the decoder reads back what the encoder wrote and leaves what follows
(`decodeUnsigned_encodeUnsigned`, `decodeSigned_encodeSigned`). Whatever it reads is in range, and
the encoder needs no more bytes for it than the decoder took (`decodeUnsigned_spec`,
`decodeSigned_spec`).

Signed integers are read from groups of seven bits of which the last has at least one, so the
statements about them ask that `bits` be no multiple of seven.
-/

namespace WasmCore.Leb128

/-! ### Bytes -/

theorem toNat_toUInt8 {n : Nat} (h : n < 256) : n.toUInt8.toNat = n := by
  simp only [Nat.toUInt8, UInt8.toNat_ofNat']
  omega

theorem pow_eq_of_seven_le {bits : Nat} (h : 7 ≤ bits) : 2 ^ bits = 128 * 2 ^ (bits - 7) := by
  obtain ⟨k, rfl⟩ := Nat.exists_eq_add_of_le h
  rw [Nat.add_sub_cancel_left, Nat.pow_add]

theorem two_pow_lt_of_lt_seven {bits : Nat} (h : bits < 7) : 2 ^ bits ≤ 64 :=
  Nat.pow_le_pow_right (by decide) (by omega : bits ≤ 6)

theorem length_encodeUnsigned_pos (n : Nat) : 0 < (encodeUnsigned n).length := by
  rw [encodeUnsigned]
  split <;> simp

/-! ### Unsigned integers -/

theorem decodeUnsigned_encodeUnsigned {bits n : Nat} (h : n < 2 ^ bits) (rest : List UInt8) :
    decodeUnsigned bits (encodeUnsigned n ++ rest) = (.ok n, rest) := by
  induction n using Nat.strongRecOn generalizing bits with
  | ind n ih =>
    rw [encodeUnsigned]
    by_cases hn : n < 128
    · have hb : n.toUInt8.toNat = n := toNat_toUInt8 (by omega)
      simp only [hn, ↓reduceIte, List.cons_append, List.nil_append, decodeUnsigned, continues, hb]
      have h1 : ¬ 128 ≤ n := by omega
      have h2 : ¬ 2 ^ bits ≤ n := by omega
      simp [h1, h2]
    · have hb : (n % 128 + 128).toUInt8.toNat = n % 128 + 128 := toNat_toUInt8 (by omega)
      -- what needs a second byte does not fit into fewer than seven bits
      have hbits : 7 ≤ bits := by
        rcases Nat.lt_or_ge bits 7 with hlt | hge
        · have := two_pow_lt_of_lt_seven hlt
          omega
        · exact hge
      have hpow := pow_eq_of_seven_le hbits
      have hrec := @ih (n / 128) (by omega) (bits - 7) (by omega)
      simp only [hn, ↓reduceIte, List.cons_append, decodeUnsigned, continues, hb, hrec]
      have h1 : ¬ bits < 7 := by omega
      have h2 : 128 ≤ n % 128 + 128 := by omega
      simp only [h1, h2, ↓reduceIte, decide_true, Prod.mk.injEq, Except.ok.injEq, and_true]
      omega

/-- One more byte holds seven more bits. -/
theorem length_encodeUnsigned_le (low high : Nat) (h : low < 128) :
    (encodeUnsigned (low + 128 * high)).length ≤ (encodeUnsigned high).length + 1 := by
  rw [encodeUnsigned]
  split
  · simp
  · have : (low + 128 * high) / 128 = high := by omega
    simp [this]

/-- What is read is in range, and its shortest encoding is no longer than what was taken. -/
theorem decodeUnsigned_spec {bits n : Nat} {bytes rest : List UInt8}
    (h : decodeUnsigned bits bytes = (.ok n, rest)) :
    n < 2 ^ bits ∧ (encodeUnsigned n).length + rest.length ≤ bytes.length := by
  induction bytes generalizing bits n with
  | nil => simp [decodeUnsigned] at h
  | cons b bytes ih =>
    simp only [decodeUnsigned] at h
    split at h
    · -- fewer than seven bits are left: this is the last byte
      rename_i hbits
      split at h
      · cases h
      · rename_i hb
        simp only [continues, Bool.or_eq_true, decide_eq_true_eq, not_or, Nat.not_le] at hb
        obtain ⟨rfl, rfl⟩ : b.toNat = n ∧ bytes = rest := by simpa using h
        refine ⟨hb.2, ?_⟩
        rw [encodeUnsigned, if_pos hb.1]
        simp [Nat.add_comm]
    · rename_i hbits
      have hpow := pow_eq_of_seven_le (by omega : 7 ≤ bits)
      split at h
      · split at h
        · rename_i high left hd
          obtain ⟨rfl, rfl⟩ : b.toNat % 128 + 128 * high = n ∧ left = rest := by simpa using h
          obtain ⟨hlt, hlen⟩ := ih hd
          have := length_encodeUnsigned_le (b.toNat % 128) high (by omega)
          refine ⟨by omega, ?_⟩
          simp only [List.length_cons]
          omega
        · cases h
      · rename_i hb
        simp only [continues, decide_eq_true_eq, Nat.not_le] at hb
        obtain ⟨rfl, rfl⟩ : b.toNat = n ∧ bytes = rest := by simpa using h
        have h1 : 1 ≤ 2 ^ (bits - 7) := Nat.one_le_two_pow
        refine ⟨by omega, ?_⟩
        rw [encodeUnsigned, if_pos hb]
        simp [Nat.add_comm]

/-- The bytes end inside of an integer exactly if all of them say that another one follows and the
integer could have more. -/
theorem decodeUnsigned_endOfInput {bits : Nat} {bytes : List UInt8} :
    (decodeUnsigned bits bytes).1 = .error .endOfInput ↔
      bytes.length ≤ bits / 7 ∧ ∀ b ∈ bytes, continues b = true := by
  induction bytes generalizing bits with
  | nil => simp [decodeUnsigned]
  | cons b bytes ih =>
    rw [decodeUnsigned, List.length_cons, List.forall_mem_cons]
    by_cases hbits : bits < 7
    · -- this is the last byte
      have hlast : ¬ bytes.length + 1 ≤ bits / 7 := by omega
      rw [if_pos hbits]
      split <;> simp [hlast]
    · have hmore : bytes.length + 1 ≤ bits / 7 ↔ bytes.length ≤ (bits - 7) / 7 := by omega
      rw [if_neg hbits, hmore]
      by_cases hb : continues b = true
      · rw [if_pos hb, and_iff_right hb, ← ih]
        split <;> simp_all
      · simp [hb]

/-- Unless the bytes end too soon, what follows them has no part in what is read. -/
theorem decodeUnsigned_append {bits : Nat} {bytes : List UInt8}
    (h : (decodeUnsigned bits bytes).1 ≠ .error .endOfInput) (rest : List UInt8) :
    decodeUnsigned bits (bytes ++ rest) =
      ((decodeUnsigned bits bytes).1, (decodeUnsigned bits bytes).2 ++ rest) := by
  induction bytes generalizing bits with
  | nil => exact absurd rfl h
  | cons b bytes ih =>
    simp only [decodeUnsigned, List.cons_append] at h ⊢
    by_cases hbits : bits < 7
    · simp only [hbits, ↓reduceIte]
      split <;> rfl
    · simp only [hbits, ↓reduceIte] at h ⊢
      by_cases hb : continues b = true
      · simp only [hb, ↓reduceIte] at h ⊢
        cases hr : decodeUnsigned (bits - 7) bytes with
        | mk r left =>
          have hrest : (decodeUnsigned (bits - 7) bytes).1 ≠ .error .endOfInput := by
            rw [hr] at h ⊢
            cases r with
            | ok high => simp
            | error e => simpa using h
          rw [ih hrest, hr]
          cases r <;> rfl
      · simp only [hb, Bool.false_eq_true, ↓reduceIte]

/-- What is read from the first of some bytes: the same as from all, unless they end too soon. -/
theorem decodeUnsigned_of_append {bits n : Nat} {bytes rest left : List UInt8}
    (h : decodeUnsigned bits (bytes ++ rest) = (.ok n, left)) :
    (∃ left', left = left' ++ rest ∧ decodeUnsigned bits bytes = (.ok n, left')) ∨
      (decodeUnsigned bits bytes).1 = .error .endOfInput := by
  by_cases hend : (decodeUnsigned bits bytes).1 = .error .endOfInput
  · exact .inr hend
  · rw [decodeUnsigned_append hend] at h
    obtain ⟨hok, hleft⟩ := Prod.mk.inj h
    exact .inl ⟨_, hleft.symm, Prod.ext hok rfl⟩

/-! ### Signed integers -/

/-- The integers of `bits` bits in two's complement. -/
def InRange (bits : Nat) (v : Int) : Prop := -2 ^ (bits - 1) ≤ v ∧ v < 2 ^ (bits - 1)

theorem signedPayload_of_lt {v : Int} (h : -64 ≤ v ∧ v < 64) :
    signedPayload (v % 128).toNat.toUInt8 = v := by
  have hb : (v % 128).toNat.toUInt8.toNat = (v % 128).toNat := toNat_toUInt8 (by omega)
  unfold signedPayload
  rw [hb]
  split <;> omega

theorem pow_pred_eq_of_seven_lt {bits : Nat} (h : 7 < bits) :
    (2 : Int) ^ (bits - 1) = 128 * 2 ^ (bits - 7 - 1) := by
  have hk : bits - 1 = 7 + (bits - 7 - 1) := by omega
  rw [hk, Int.pow_add]
  rfl

theorem pow_pred_le_of_lt_seven {bits : Nat} (h : bits < 7) : (2 : Int) ^ (bits - 1) ≤ 64 := by
  have : (2 : Nat) ^ (bits - 1) ≤ 2 ^ 6 := Nat.pow_le_pow_right (by decide) (by omega)
  exact_mod_cast this

theorem pow_pred_ge_of_seven_le {bits : Nat} (h : 7 ≤ bits) : (64 : Int) ≤ 2 ^ (bits - 1) := by
  have : (2 : Nat) ^ 6 ≤ 2 ^ (bits - 1) := Nat.pow_le_pow_right (by decide) (by omega)
  exact_mod_cast this

/-- An integer that does not fit into one byte needs more than seven bits. -/
theorem seven_lt_of_inRange {bits : Nat} {v : Int} (h : InRange bits v)
    (hv : ¬ (-64 ≤ v ∧ v < 64)) : 7 < bits := by
  obtain ⟨hlo, hhi⟩ := h
  rcases Nat.lt_or_ge bits 7 with hlt | hge
  · have := pow_pred_le_of_lt_seven hlt
    omega
  · rcases Nat.eq_or_lt_of_le hge with rfl | hlt
    · have h64 : (2 : Int) ^ (7 - 1) = 64 := rfl
      omega
    · exact hlt

theorem decodeSigned_encodeSigned {bits : Nat} {v : Int} (h : InRange bits v)
    (rest : List UInt8) : decodeSigned bits (encodeSigned v ++ rest) = (.ok v, rest) := by
  induction hn : v.natAbs using Nat.strongRecOn generalizing bits v with
  | ind n ih =>
    rw [encodeSigned]
    obtain ⟨hlo, hhi⟩ := id h
    by_cases hv : -64 ≤ v ∧ v < 64
    · have hb : (v % 128).toNat.toUInt8.toNat = (v % 128).toNat := toNat_toUInt8 (by omega)
      simp only [hv, and_self, ↓reduceIte, List.cons_append, List.nil_append, decodeSigned,
        continues, hb, signedPayload_of_lt hv]
      have h1 : ¬ 128 ≤ (v % 128).toNat := by omega
      have h2 : ¬ v < -2 ^ (bits - 1) := by omega
      have h3 : ¬ 2 ^ (bits - 1) ≤ v := by omega
      simp [h1, h2, h3]
    · have hb : ((v % 128).toNat + 128).toUInt8.toNat = (v % 128).toNat + 128 :=
        toNat_toUInt8 (by omega)
      have hbits := seven_lt_of_inRange h hv
      have hpow := pow_pred_eq_of_seven_lt hbits
      have hrec := @ih (v / 128).natAbs (by omega) (bits - 7) (v / 128) ⟨by omega, by omega⟩ rfl
      simp only [hv, ↓reduceIte, List.cons_append, decodeSigned, continues, hb, hrec]
      have h1 : ¬ bits < 7 := by omega
      have h2 : 128 ≤ (v % 128).toNat + 128 := by omega
      simp only [h1, h2, ↓reduceIte, decide_true, Prod.mk.injEq, Except.ok.injEq, and_true]
      omega

theorem length_encodeSigned_of_lt {v : Int} (h : -64 ≤ v ∧ v < 64) :
    (encodeSigned v).length = 1 := by
  rw [encodeSigned, if_pos h]
  rfl

/-- One more byte holds seven more bits. -/
theorem length_encodeSigned_le (low : Nat) (high : Int) (h : low < 128) :
    (encodeSigned (low + 128 * high)).length ≤ (encodeSigned high).length + 1 := by
  rw [encodeSigned]
  split
  · simp
  · have : ((low : Int) + 128 * high) / 128 = high := by omega
    simp [this]

theorem signedPayload_bounds (b : UInt8) : -64 ≤ signedPayload b ∧ signedPayload b < 64 := by
  unfold signedPayload
  split <;> omega

/-- What is read is in range, and its shortest encoding is no longer than what was taken. -/
theorem decodeSigned_spec {bits : Nat} {v : Int} {bytes rest : List UInt8} (hbits : bits % 7 ≠ 0)
    (h : decodeSigned bits bytes = (.ok v, rest)) :
    InRange bits v ∧ (encodeSigned v).length + rest.length ≤ bytes.length := by
  induction bytes generalizing bits v with
  | nil => simp [decodeSigned] at h
  | cons b bytes ih =>
    have hpay := signedPayload_bounds b
    have hone := length_encodeSigned_of_lt hpay
    simp only [decodeSigned] at h
    split at h
    · split at h
      · cases h
      · rename_i hb
        simp only [Bool.or_eq_true, decide_eq_true_eq, not_or, Int.not_lt, Int.not_le] at hb
        obtain ⟨rfl, rfl⟩ : signedPayload b = v ∧ bytes = rest := by simpa using h
        refine ⟨⟨hb.1.2, hb.2⟩, ?_⟩
        simp only [List.length_cons]
        omega
    · rename_i hge
      split at h
      · split at h
        · rename_i high left hd
          obtain ⟨rfl, rfl⟩ : ((b.toNat % 128 : Nat) : Int) + 128 * high = v ∧ left = rest := by
            simpa using h
          -- seven bits less are still no multiple of seven, so there is a sign bit left
          obtain ⟨⟨hlo, hhi⟩, hlen⟩ := ih (by omega) hd
          have hpow := pow_pred_eq_of_seven_lt (by omega : 7 < bits)
          have := length_encodeSigned_le (b.toNat % 128) high (by omega)
          refine ⟨⟨by omega, by omega⟩, ?_⟩
          simp only [List.length_cons]
          omega
        · cases h
      · have := pow_pred_ge_of_seven_le (by omega : 7 ≤ bits)
        obtain ⟨rfl, rfl⟩ : signedPayload b = v ∧ bytes = rest := by simpa using h
        refine ⟨⟨by omega, by omega⟩, ?_⟩
        simp only [List.length_cons]
        omega

end WasmCore.Leb128
