import WasmCore.Integer

/-!
# Integers as machine words

The integer instructions on words of 32 and 64 bits, by the operations that words have of their own.
`IntRelation.holds32_eq`, `IntBinary.eval32_eq` and their likes for 64 bits say that they agree with
the operations on bit vectors.
-/

namespace WasmCore

/-! ### Shift counts -/

theorem rotateLeft_eq {n : Nat} (h : 0 < n) (x : BitVec n) (k : Nat) :
    x <<< (k % n) ||| x >>> ((n - k % n) % n) = x.rotateLeft k := by
  rw [BitVec.rotateLeft_def]
  rcases Nat.eq_zero_or_pos (k % n) with hk | hk
  · rw [hk, Nat.sub_zero, Nat.mod_self, BitVec.ushiftRight_eq_zero (Nat.le_refl n)]
    simp
  · rw [Nat.mod_eq_of_lt (by omega : n - k % n < n)]

theorem rotateRight_eq {n : Nat} (h : 0 < n) (x : BitVec n) (k : Nat) :
    x >>> (k % n) ||| x <<< ((n - k % n) % n) = x.rotateRight k := by
  rw [BitVec.rotateRight_def]
  rcases Nat.eq_zero_or_pos (k % n) with hk | hk
  · rw [hk, Nat.sub_zero, Nat.mod_self, BitVec.shiftLeft_eq_zero (Nat.le_refl n)]
    simp
  · rw [Nat.mod_eq_of_lt (by omega : n - k % n < n)]

theorem toNat_smod32 (k : BitVec 32) : (k.smod 32).toNat = k.toNat % 32 := by
  have h := BitVec.toInt_smod (x := k) (y := 32)
  rw [show (32 : BitVec 32).toInt = 32 from rfl, Int.fmod_eq_emod_of_nonneg _ (by decide)] at h
  simp only [BitVec.toInt_eq_toNat_cond] at h
  split at h <;> split at h <;> omega

theorem toNat_smod64 (k : BitVec 64) : (k.smod 64).toNat = k.toNat % 64 := by
  have h := BitVec.toInt_smod (x := k) (y := 64)
  rw [show (64 : BitVec 64).toInt = 64 from rfl, Int.fmod_eq_emod_of_nonneg _ (by decide)] at h
  simp only [BitVec.toInt_eq_toNat_cond] at h
  split at h <;> split at h <;> omega

/-! ### Comparisons -/

namespace IntRelation

/-- Compares two words of 32 bits. -/
def holds32 (r : IntRelation) (a b : UInt32) : Bool :=
  match r with
  | .eq => a == b
  | .ne => a != b
  | .ltS => decide (a.toInt32 < b.toInt32)
  | .ltU => decide (a < b)
  | .gtS => decide (b.toInt32 < a.toInt32)
  | .gtU => decide (b < a)
  | .leS => decide (a.toInt32 ≤ b.toInt32)
  | .leU => decide (a ≤ b)
  | .geS => decide (b.toInt32 ≤ a.toInt32)
  | .geU => decide (b ≤ a)

theorem holds32_eq (r : IntRelation) (a b : UInt32) :
    r.holds32 a b = r.holds a.toBitVec b.toBitVec := by
  have beq : (a == b) = (a.toBitVec == b.toBitVec) := by
    rw [Bool.eq_iff_iff, beq_iff_eq, beq_iff_eq, UInt32.toBitVec_inj]
  cases r
  case eq => exact beq
  case ne => simp only [holds32, holds, bne, beq]
  all_goals
    simp [holds32, holds, UInt32.lt_iff_toBitVec_lt, UInt32.le_iff_toBitVec_le,
      Int32.lt_iff_toBitVec_slt, Int32.le_iff_toBitVec_sle, BitVec.lt_def, BitVec.le_def,
      BitVec.ult, BitVec.ule]

/-- Compares two words of 64 bits. -/
def holds64 (r : IntRelation) (a b : UInt64) : Bool :=
  match r with
  | .eq => a == b
  | .ne => a != b
  | .ltS => decide (a.toInt64 < b.toInt64)
  | .ltU => decide (a < b)
  | .gtS => decide (b.toInt64 < a.toInt64)
  | .gtU => decide (b < a)
  | .leS => decide (a.toInt64 ≤ b.toInt64)
  | .leU => decide (a ≤ b)
  | .geS => decide (b.toInt64 ≤ a.toInt64)
  | .geU => decide (b ≤ a)

theorem holds64_eq (r : IntRelation) (a b : UInt64) :
    r.holds64 a b = r.holds a.toBitVec b.toBitVec := by
  have beq : (a == b) = (a.toBitVec == b.toBitVec) := by
    rw [Bool.eq_iff_iff, beq_iff_eq, beq_iff_eq, UInt64.toBitVec_inj]
  cases r
  case eq => exact beq
  case ne => simp only [holds64, holds, bne, beq]
  all_goals
    simp [holds64, holds, UInt64.lt_iff_toBitVec_lt, UInt64.le_iff_toBitVec_le,
      Int64.lt_iff_toBitVec_slt, Int64.le_iff_toBitVec_sle, BitVec.lt_def, BitVec.le_def,
      BitVec.ult, BitVec.ule]

end IntRelation

/-! ### Operations -/

namespace IntBinary

/-- Applies an operation to words of 32 bits. -/
def eval32 (op : IntBinary) (a b : UInt32) : Except IntegerFailure UInt32 :=
  match op with
  | .add => .ok (a + b)
  | .sub => .ok (a - b)
  | .mul => .ok (a * b)
  | .divS =>
    if b = 0 then .error .divideByZero
    else if a = 0x80000000 ∧ b = -1 then .error .overflow
    else .ok (a.toInt32 / b.toInt32).toUInt32
  | .divU => if b = 0 then .error .divideByZero else .ok (a / b)
  | .remS => if b = 0 then .error .divideByZero else .ok (a.toInt32 % b.toInt32).toUInt32
  | .remU => if b = 0 then .error .divideByZero else .ok (a % b)
  | .and => .ok (a &&& b)
  | .or => .ok (a ||| b)
  | .xor => .ok (a ^^^ b)
  | .shl => .ok (a <<< b)
  | .shrS => .ok (a.toInt32 >>> b.toInt32).toUInt32
  | .shrU => .ok (a >>> b)
  | .rotl => .ok (a <<< b ||| a >>> (32 - b))
  | .rotr => .ok (a >>> b ||| a <<< (32 - b))

theorem eval32_eq (op : IntBinary) (a b : UInt32) :
    op.eval32 a b = (op.eval a.toBitVec b.toBitVec).map UInt32.ofBitVec := by
  have zero : b = 0 ↔ b.toBitVec = 0 := UInt32.toBitVec_inj.symm
  have least : a = 0x80000000 ↔ a.toBitVec = BitVec.intMin 32 := UInt32.toBitVec_inj.symm
  have one : b = -1 ↔ b.toBitVec = -1 := UInt32.toBitVec_inj.symm
  have count : (32 - b).toNat % 32 = (32 - b.toNat % 32) % 32 := by
    have h := b.toNat_lt
    rw [UInt32.toNat_sub, show (32 : UInt32).toNat = 32 from rfl]
    omega
  cases op
  case add | sub | mul | and | or | xor => rfl
  case divU | remU | remS =>
    simp only [eval32, eval, zero]
    split <;> rfl
  case divS =>
    simp only [eval32, eval, zero, least, one]
    split
    · rfl
    · split <;> rfl
  case shl | shrU => rfl
  case shrS =>
    refine congrArg (fun v => Except.ok (UInt32.ofBitVec v)) ?_
    show a.toBitVec.sshiftRight' (b.toBitVec.smod 32) = _
    rw [BitVec.sshiftRight_eq', toNat_smod32]
  case rotl =>
    refine congrArg (fun v => Except.ok (UInt32.ofBitVec v)) ?_
    show a.toBitVec <<< (b.toNat % 32) ||| a.toBitVec >>> ((32 - b).toNat % 32) = _
    rw [count, rotateLeft_eq (by decide), ← BitVec.rotateLeft_mod_eq_rotateLeft]
    rfl
  case rotr =>
    refine congrArg (fun v => Except.ok (UInt32.ofBitVec v)) ?_
    show a.toBitVec >>> (b.toNat % 32) ||| a.toBitVec <<< ((32 - b).toNat % 32) = _
    rw [count, rotateRight_eq (by decide), ← BitVec.rotateRight_mod_eq_rotateRight]
    rfl

/-- Applies an operation to words of 64 bits. -/
def eval64 (op : IntBinary) (a b : UInt64) : Except IntegerFailure UInt64 :=
  match op with
  | .add => .ok (a + b)
  | .sub => .ok (a - b)
  | .mul => .ok (a * b)
  | .divS =>
    if b = 0 then .error .divideByZero
    else if a = 0x8000000000000000 ∧ b = -1 then .error .overflow
    else .ok (a.toInt64 / b.toInt64).toUInt64
  | .divU => if b = 0 then .error .divideByZero else .ok (a / b)
  | .remS => if b = 0 then .error .divideByZero else .ok (a.toInt64 % b.toInt64).toUInt64
  | .remU => if b = 0 then .error .divideByZero else .ok (a % b)
  | .and => .ok (a &&& b)
  | .or => .ok (a ||| b)
  | .xor => .ok (a ^^^ b)
  | .shl => .ok (a <<< b)
  | .shrS => .ok (a.toInt64 >>> b.toInt64).toUInt64
  | .shrU => .ok (a >>> b)
  | .rotl => .ok (a <<< b ||| a >>> (64 - b))
  | .rotr => .ok (a >>> b ||| a <<< (64 - b))

theorem eval64_eq (op : IntBinary) (a b : UInt64) :
    op.eval64 a b = (op.eval a.toBitVec b.toBitVec).map UInt64.ofBitVec := by
  have zero : b = 0 ↔ b.toBitVec = 0 := UInt64.toBitVec_inj.symm
  have least : a = 0x8000000000000000 ↔ a.toBitVec = BitVec.intMin 64 := UInt64.toBitVec_inj.symm
  have one : b = -1 ↔ b.toBitVec = -1 := UInt64.toBitVec_inj.symm
  have count : (64 - b).toNat % 64 = (64 - b.toNat % 64) % 64 := by
    have h := b.toNat_lt
    rw [UInt64.toNat_sub, show (64 : UInt64).toNat = 64 from rfl]
    omega
  cases op
  case add | sub | mul | and | or | xor => rfl
  case divU | remU | remS =>
    simp only [eval64, eval, zero]
    split <;> rfl
  case divS =>
    simp only [eval64, eval, zero, least, one]
    split
    · rfl
    · split <;> rfl
  case shl | shrU => rfl
  case shrS =>
    refine congrArg (fun v => Except.ok (UInt64.ofBitVec v)) ?_
    show a.toBitVec.sshiftRight' (b.toBitVec.smod 64) = _
    rw [BitVec.sshiftRight_eq', toNat_smod64]
  case rotl =>
    refine congrArg (fun v => Except.ok (UInt64.ofBitVec v)) ?_
    show a.toBitVec <<< (b.toNat % 64) ||| a.toBitVec >>> ((64 - b).toNat % 64) = _
    rw [count, rotateLeft_eq (by decide), ← BitVec.rotateLeft_mod_eq_rotateLeft]
    rfl
  case rotr =>
    refine congrArg (fun v => Except.ok (UInt64.ofBitVec v)) ?_
    show a.toBitVec >>> (b.toNat % 64) ||| a.toBitVec <<< ((64 - b).toNat % 64) = _
    rw [count, rotateRight_eq (by decide), ← BitVec.rotateRight_mod_eq_rotateRight]
    rfl

end IntBinary

end WasmCore
