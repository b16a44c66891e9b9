import WasmCore.Proofs.Leb128.Positional

/-!
# LEB128: shortest encodings

The encoders on machine words: `encodeWord` and `encodeSignedWord` cut seven bits at a time off a
word of 64 bits, and stop when the rest says nothing that the last byte does not. They write the
same bytes as the encoders on integers (`encodeWord_eq`, `encodeSignedWord_eq`), and words of 32
bits are widened first. `encode_shortest` says of all four types of words that the decoder of their
width reads the word back, whatever follows its encoding, and that nothing shorter is read as this
word.
-/

namespace WasmCore.Leb128

/-! ### Bits of a byte -/

theorem toNat_and_payload (b : UInt8) : (b &&& 0x7f).toNat = b.toNat % 128 := by
  rw [UInt8.toNat_and]
  exact Nat.and_two_pow_sub_one_eq_mod b.toNat 7

theorem or_continuation {n : Nat} (h : n < 128) :
    UInt8.ofNat n ||| 0x80 = UInt8.ofNat (n + 128) := by
  have hall : ∀ n < 128, UInt8.ofNat n ||| 0x80 = UInt8.ofNat (n + 128) := by decide +kernel
  exact hall n h

theorem and_sign_eq_zero_iff {n : Nat} (h : n < 128) : UInt8.ofNat n &&& 0x40 = 0 ↔ n < 64 := by
  have hall : ∀ n < 128, (UInt8.ofNat n &&& 0x40 = 0 ↔ n < 64) := by decide +kernel
  exact hall n h

/-! ### Unsigned words -/

theorem toNat_shiftRight_seven (v : UInt64) : (v >>> 7).toNat = v.toNat / 128 := by
  rw [UInt64.toNat_shiftRight]
  exact Nat.shiftRight_eq_div_pow v.toNat 7

/-- The encoding of an unsigned word. -/
def encodeWord (v : UInt64) : List UInt8 :=
  if v >>> 7 = 0 then [v.toUInt8 &&& 0x7f]
  else ((v.toUInt8 &&& 0x7f) ||| 0x80) :: encodeWord (v >>> 7)
termination_by v.toNat
decreasing_by
  rename_i hmore
  rw [← UInt64.toNat_inj, toNat_shiftRight_seven] at hmore
  rw [toNat_shiftRight_seven]
  exact Nat.div_lt_self (Nat.pos_of_ne_zero fun h0 => hmore (by rw [h0]; rfl)) (by decide)

theorem payload_word (v : UInt64) : v.toUInt8 &&& 0x7f = UInt8.ofNat (v.toNat % 128) := by
  rw [← UInt8.toNat_inj, toNat_and_payload, UInt64.toNat_toUInt8, UInt8.toNat_ofNat']
  omega

theorem encodeWord_eq (v : UInt64) : encodeWord v = encodeUnsigned v.toNat := by
  induction hn : v.toNat using Nat.strongRecOn generalizing v with
  | ind n ih =>
    have hlast : v >>> 7 = 0 ↔ v.toNat < 128 := by
      rw [← UInt64.toNat_inj, toNat_shiftRight_seven, UInt64.toNat_zero]
      omega
    rw [encodeWord, encodeUnsigned, payload_word, ← hn]
    by_cases hv : v.toNat < 128
    · rw [if_pos (hlast.2 hv), if_pos hv, Nat.mod_eq_of_lt hv]
    · rw [if_neg (mt hlast.1 hv), if_neg hv, or_continuation (Nat.mod_lt _ (by decide)),
        ih _ (by rw [toNat_shiftRight_seven]; omega) (v >>> 7) rfl, toNat_shiftRight_seven]

/-! ### Signed words -/

theorem toInt_shiftRight_seven (v : Int64) : (v >>> 7).toInt = v.toInt / 128 := by
  have hcount : (7 : Int64).toBitVec.smod 64 = 7 := rfl
  rw [← Int64.toInt_toBitVec, Int64.toBitVec_shiftRight, hcount, BitVec.sshiftRight_eq',
    BitVec.toInt_sshiftRight, Int64.toInt_toBitVec, Int.shiftRight_eq_div_pow]
  rfl

theorem payload_signedWord (v : Int64) :
    v.toUInt64.toUInt8 &&& 0x7f = UInt8.ofNat (v.toInt % 128).toNat := by
  have hword : v.toUInt64.toNat = v.toBitVec.toNat := rfl
  have hsigned := BitVec.toInt_eq_toNat_cond v.toBitVec
  rw [Int64.toInt_toBitVec] at hsigned
  rw [← UInt8.toNat_inj, toNat_and_payload, UInt64.toNat_toUInt8, UInt8.toNat_ofNat', hword]
  split at hsigned <;> omega

/-- What is left of a word says nothing that bit 6 of the byte before does not. -/
def IsSpent (high : Int64) (b : UInt8) : Prop :=
  (high = 0 ∧ b &&& 0x40 = 0) ∨ (high = -1 ∧ b &&& 0x40 ≠ 0)

instance (high : Int64) (b : UInt8) : Decidable (IsSpent high b) :=
  inferInstanceAs (Decidable (_ ∨ _))

theorem isSpent_iff (v : Int64) :
    IsSpent (v >>> 7) (v.toUInt64.toUInt8 &&& 0x7f) ↔ -64 ≤ v.toInt ∧ v.toInt < 64 := by
  have hlt : (v.toInt % 128).toNat < 128 := by omega
  have hone : (-1 : Int64).toInt = -1 := rfl
  rw [IsSpent, payload_signedWord, ← Int64.toInt_inj, ← Int64.toInt_inj, toInt_shiftRight_seven,
    Int64.toInt_zero, hone, ne_eq, and_sign_eq_zero_iff hlt]
  omega

/-- The encoding of a signed word. -/
def encodeSignedWord (v : Int64) : List UInt8 :=
  if IsSpent (v >>> 7) (v.toUInt64.toUInt8 &&& 0x7f) then [v.toUInt64.toUInt8 &&& 0x7f]
  else ((v.toUInt64.toUInt8 &&& 0x7f) ||| 0x80) :: encodeSignedWord (v >>> 7)
termination_by v.toInt.natAbs
decreasing_by
  rename_i hmore
  rw [isSpent_iff] at hmore
  rw [toInt_shiftRight_seven]
  omega

theorem encodeSignedWord_eq (v : Int64) : encodeSignedWord v = encodeSigned v.toInt := by
  induction hn : v.toInt.natAbs using Nat.strongRecOn generalizing v with
  | ind n ih =>
    have hlast := isSpent_iff v
    rw [encodeSignedWord, encodeSigned]
    by_cases hv : -64 ≤ v.toInt ∧ v.toInt < 64
    · rw [if_pos (hlast.2 hv), if_pos hv, payload_signedWord]
    · rw [if_neg (mt hlast.1 hv), if_neg hv, payload_signedWord, or_continuation (by omega),
        ih _ (by rw [toInt_shiftRight_seven]; omega) (v >>> 7) rfl, toInt_shiftRight_seven]

/-! ### Shortest encodings -/

/-- The decoder reads the integer from these bytes, whatever follows them, and from no fewer bytes;
and they are as many as an integer may take and end as the last one should. -/
structure IsShortest {α : Type} (decode : List UInt8 → Except Error α × List UInt8)
    (beyond : Nat → UInt8 → Prop) (bits : Nat) (x : α) (code : List UInt8) : Prop where
  reads : ∀ rest, decode (code ++ rest) = (.ok x, rest)
  shortest : ∀ bytes left, decode bytes = (.ok x, left) →
    code.length + left.length ≤ bytes.length
  admits : ∃ k last, Admits beyond bits code k last ∧ k + 1 = code.length

variable {α : Type} {decode : List UInt8 → Except Error α × List UInt8}
  {beyond : Nat → UInt8 → Prop} {value : List UInt8 → Nat → UInt8 → α} {bits : Nat} {x : α}
  {code : List UInt8}

/-- Bytes from which an integer is read and nothing is left end with it. -/
theorem ReadsExactly.exists_admits (h : ReadsExactly decode beyond value bits)
    (hread : decode code = (.ok x, [])) :
    ∃ k last, Admits beyond bits code k last ∧ k + 1 = code.length := by
  obtain ⟨k, last, hadmits⟩ := (h.ok_iff code).1 ⟨x, [], hread⟩
  obtain ⟨-, hleft⟩ := Prod.mk.inj (hread.symm.trans (h.ok code k last hadmits))
  have hlt := hadmits.ends.lt_length
  have hle := List.drop_eq_nil_iff.1 hleft.symm
  exact ⟨k, last, hadmits, by omega⟩

theorem isShortest_encodeUnsigned (hbits : bits % 7 ≠ 0) {n : Nat} (hn : n < 2 ^ bits) :
    IsShortest (decodeUnsigned bits) ZeroFrom bits n (encodeUnsigned n) where
  reads := decodeUnsigned_encodeUnsigned hn
  shortest _ _ h := (decodeUnsigned_spec h).2
  admits := by
    refine (readsExactly_decodeUnsigned hbits).exists_admits (x := n) ?_
    simpa using decodeUnsigned_encodeUnsigned hn []

theorem isShortest_encodeSigned (hbits : bits % 7 ≠ 0) {v : Int} (hv : InRange bits v) :
    IsShortest (decodeSigned bits) SignFrom bits v (encodeSigned v) where
  reads := decodeSigned_encodeSigned hv
  shortest _ _ h := (decodeSigned_spec hbits h).2
  admits := by
    refine (readsExactly_decodeSigned hbits).exists_admits (x := v) ?_
    simpa using decodeSigned_encodeSigned hv []

/-- **Words are encoded as short as can be.** The encodings of words of 32 and 64 bits, signed or
not, are those of the integers they stand for, a word of 32 bits being widened first. The decoder
of the width reads the integer back and leaves what follows, takes no other bytes for it that are
fewer, and finds the encoding within its bounds. -/
theorem encode_shortest :
    (∀ v : UInt32, encodeUnsigned v.toNat = encodeWord v.toUInt64 ∧
      IsShortest (decodeUnsigned 32) ZeroFrom 32 v.toNat (encodeUnsigned v.toNat)) ∧
    (∀ v : UInt64, encodeUnsigned v.toNat = encodeWord v ∧
      IsShortest (decodeUnsigned 64) ZeroFrom 64 v.toNat (encodeUnsigned v.toNat)) ∧
    (∀ v : Int32, encodeSigned v.toInt = encodeSignedWord v.toInt64 ∧
      IsShortest (decodeSigned 32) SignFrom 32 v.toInt (encodeSigned v.toInt)) ∧
    ∀ v : Int64, encodeSigned v.toInt = encodeSignedWord v ∧
      IsShortest (decodeSigned 64) SignFrom 64 v.toInt (encodeSigned v.toInt) := by
  refine ⟨fun v => ⟨?_, ?_⟩, fun v => ⟨?_, ?_⟩, fun v => ⟨?_, ?_⟩, fun v => ⟨?_, ?_⟩⟩
  · rw [encodeWord_eq, UInt32.toNat_toUInt64]
  · exact isShortest_encodeUnsigned (by decide) v.toNat_lt
  · rw [encodeWord_eq]
  · exact isShortest_encodeUnsigned (by decide) v.toNat_lt
  · rw [encodeSignedWord_eq, Int32.toInt_toInt64]
  · exact isShortest_encodeSigned (by decide) ⟨v.le_toInt, v.toInt_lt⟩
  · rw [encodeSignedWord_eq]
  · exact isShortest_encodeSigned (by decide) ⟨v.le_toInt, v.toInt_lt⟩

end WasmCore.Leb128
