import Mathlib.Data.Nat.Size
import Mathlib.NumberTheory.Padics.PadicVal.Basic
import WasmCore.Integer
import WasmCore.Power

/-!
# Integer instructions on integers

What the integer instructions compute. A bit vector of `n` bits stands for an integer modulo
`2 ^ n`, unsigned or signed, and each instruction is an operation on these integers, whose result is
taken modulo `2 ^ n` (`IntRelation.holds_iff`, `IntUnary.eval_eq`, `IntBinary.eval_eq`).
-/

namespace WasmCore

variable {n : Nat}

/-! ### Comparisons -/

/-- The comparison of the integers, signed or unsigned. -/
def IntRelation.Relates (r : IntRelation) (a b : BitVec n) : Prop :=
  match r with
  | .eq => a.toNat = b.toNat
  | .ne => a.toNat ≠ b.toNat
  | .ltS => a.toInt < b.toInt
  | .ltU => a.toNat < b.toNat
  | .gtS => b.toInt < a.toInt
  | .gtU => b.toNat < a.toNat
  | .leS => a.toInt ≤ b.toInt
  | .leU => a.toNat ≤ b.toNat
  | .geS => b.toInt ≤ a.toInt
  | .geU => b.toNat ≤ a.toNat

theorem IntRelation.holds_iff (r : IntRelation) (a b : BitVec n) :
    r.holds a b = true ↔ r.Relates a b := by
  cases r with
  | eq => simp [holds, Relates, BitVec.toNat_inj]
  | ne => simp [holds, Relates, BitVec.toNat_inj]
  | ltS | gtS => exact BitVec.slt_iff_toInt_lt
  | ltU | gtU => exact BitVec.ult_iff_toNat_lt
  | leS | geS => exact BitVec.sle_iff_toInt_le
  | leU | geU => exact BitVec.ule_iff_toNat_le

/-! ### Bit counts -/

namespace IntUnary

/-- The number of binary digits that are missing above the integer, the number of times that it can
be halved, and the number of its bits that are set. -/
def count (op : IntUnary) (a : BitVec n) : Nat :=
  match op with
  | .clz => n - a.toNat.size
  | .ctz => if a.toNat = 0 then n else padicValNat 2 a.toNat
  | .popcnt => ((Finset.range n).filter fun i => a.toNat.testBit i = true).card

theorem leadingZeros_eq {x k : Nat} (h : x < 2 ^ k) : leadingZeros x k = k - x.size := by
  induction k with
  | zero => simp [leadingZeros]
  | succ k ih =>
    rw [leadingZeros]
    by_cases hk : x < 2 ^ k
    · have hsize : x.size ≤ k := Nat.size_le.2 hk
      rw [Nat.testBit_lt_two_pow hk, if_neg Bool.false_ne_true, ih hk]
      omega
    · have hsize : k < x.size := Nat.lt_size.2 (Nat.not_lt.1 hk)
      have hbit : x.testBit k = true := Nat.testBit_of_two_pow_le_and_two_pow_add_one_gt
        (Nat.not_lt.1 hk) h
      rw [if_pos hbit]
      omega

theorem trailingZeros_eq {x k : Nat} (h : x < 2 ^ k) :
    trailingZeros x k = if x = 0 then k else padicValNat 2 x := by
  induction k generalizing x with
  | zero => rw [if_pos (Nat.lt_one_iff.1 h), trailingZeros]
  | succ k ih =>
    rw [trailingZeros]
    by_cases hodd : x % 2 = 1
    · have hdvd : ¬ 2 ∣ x := by omega
      rw [if_pos hodd, if_neg (by omega), padicValNat.eq_zero_of_not_dvd hdvd]
    · have hdvd : 2 ∣ x := by omega
      rw [if_neg hodd, ih (by omega)]
      by_cases hx : x = 0
      · rw [if_pos (by omega), if_pos hx]
      · have hhalf := padicValNat.div hdvd
        have hone := one_le_padicValNat_of_dvd hx hdvd
        rw [if_neg (by omega), if_neg hx]
        omega

theorem ones_eq (x k : Nat) :
    ones x k = ((Finset.range k).filter fun i => x.testBit i = true).card := by
  induction k generalizing x with
  | zero => rfl
  | succ k ih =>
    have hlow : x % 2 = if x.testBit 0 = true then 1 else 0 := by
      simp only [Nat.testBit_zero, decide_eq_true_eq]
      split <;> omega
    rw [ones, ih, hlow, Finset.card_filter, Finset.card_filter, Finset.sum_range_succ',
      Nat.add_comm]
    simp only [Nat.testBit_succ]

theorem eval_eq (op : IntUnary) (a : BitVec n) : op.eval a = BitVec.ofNat n (op.count a) := by
  cases op with
  | clz => exact congrArg (BitVec.ofNat n) (leadingZeros_eq a.isLt)
  | ctz => exact congrArg (BitVec.ofNat n) (trailingZeros_eq a.isLt)
  | popcnt => exact congrArg (BitVec.ofNat n) (ones_eq a.toNat n)

end IntUnary

/-! ### Operations with two operands -/

namespace IntBinary

/-- The operation on the integers, signed or unsigned. -/
def onIntegers (op : IntBinary) (a b : BitVec n) : Except IntegerFailure Int :=
  match op with
  | .add => .ok ((a.toNat : Int) + b.toNat)
  | .sub => .ok ((a.toNat : Int) - b.toNat)
  | .mul => .ok ((a.toNat : Int) * b.toNat)
  | .divS =>
    if b.toInt = 0 then .error .divideByZero
    else if a.toInt = -2 ^ (n - 1) ∧ b.toInt = -1 then .error .overflow
    else .ok (a.toInt.tdiv b.toInt)
  | .divU => if b.toNat = 0 then .error .divideByZero else .ok (a.toNat / b.toNat : Nat)
  | .remS => if b.toInt = 0 then .error .divideByZero else .ok (a.toInt.tmod b.toInt)
  | .remU => if b.toNat = 0 then .error .divideByZero else .ok (a.toNat % b.toNat : Nat)
  | .and => .ok (Nat.ofBits fun i : Fin n => a.toNat.testBit i && b.toNat.testBit i)
  | .or => .ok (Nat.ofBits fun i : Fin n => a.toNat.testBit i || b.toNat.testBit i)
  | .xor => .ok (Nat.ofBits fun i : Fin n => a.toNat.testBit i ^^ b.toNat.testBit i)
  | .shl => .ok (a.toNat * 2 ^ (b.toNat % n) : Nat)
  | .shrS => .ok (a.toInt / 2 ^ (b.toNat % n))
  | .shrU => .ok (a.toNat / 2 ^ (b.toNat % n) : Nat)
  | .rotl => .ok (Nat.ofBits fun i : Fin n => a.toNat.testBit ((i + (n - b.toNat % n)) % n))
  | .rotr => .ok (Nat.ofBits fun i : Fin n => a.toNat.testBit ((i + b.toNat % n) % n))

/-! The bit vectors of integers, one lemma per kind of operation. -/

theorem ofInt_toNat (x : BitVec n) : BitVec.ofInt n x.toNat = x := by
  rw [BitVec.ofInt_natCast, BitVec.ofNat_toNat, BitVec.setWidth_eq]

theorem ofInt_ofBits {x : BitVec n} {bit : Fin n → Bool} (h : ∀ i : Fin n, x.getLsbD i = bit i) :
    BitVec.ofInt n (Nat.ofBits bit) = x := by
  rw [BitVec.ofInt_natCast]
  refine BitVec.eq_of_getLsbD_eq fun i hi => ?_
  rw [BitVec.getLsbD_ofNat, Nat.testBit_ofBits_lt bit i hi, h ⟨i, hi⟩]
  simp [hi]

theorem ofInt_tdiv (a b : BitVec n) : BitVec.ofInt n (a.toInt.tdiv b.toInt) = a.sdiv b := by
  rw [← BitVec.toInt_inj, BitVec.toInt_sdiv, BitVec.toInt_ofInt]

theorem ofInt_tmod (a b : BitVec n) : BitVec.ofInt n (a.toInt.tmod b.toInt) = a.srem b := by
  rw [← BitVec.toInt_srem, BitVec.ofInt_toInt]

theorem ofInt_ediv_two_pow (a : BitVec n) (k : Nat) :
    BitVec.ofInt n (a.toInt / 2 ^ k) = a.sshiftRight k := by
  have h := Int.shiftRight_eq_div_pow a.toInt k
  rw [Nat.cast_pow] at h
  rw [← BitVec.ofInt_toInt (x := a.sshiftRight k), BitVec.toInt_sshiftRight, h]
  rfl

theorem getLsbD_rotateLeft {a : BitVec n} {k i : Nat} (hk : k < n) (hi : i < n) :
    (a.rotateLeft k).getLsbD i = a.getLsbD ((i + (n - k)) % n) := by
  rw [BitVec.getLsbD_rotateLeft, Nat.mod_eq_of_lt hk]
  by_cases hlow : i < k
  · have hsum : (i + (n - k)) % n = n - k + i := by
      rw [Nat.mod_eq_of_lt (by omega), Nat.add_comm]
    simp only [hlow, decide_true, cond_true, hsum]
  · have hsum : (i + (n - k)) % n = i - k := by
      rw [show i + (n - k) = i - k + n by omega, Nat.add_mod_right, Nat.mod_eq_of_lt (by omega)]
    simp only [hlow, hi, decide_true, decide_false, cond_false, Bool.true_and, hsum]

theorem getLsbD_rotateRight {a : BitVec n} {k i : Nat} (hk : k < n) (hi : i < n) :
    (a.rotateRight k).getLsbD i = a.getLsbD ((i + k) % n) := by
  rw [BitVec.getLsbD_rotateRight, Nat.mod_eq_of_lt hk]
  by_cases hlow : i < n - k
  · have hsum : (i + k) % n = k + i := by
      rw [Nat.mod_eq_of_lt (by omega), Nat.add_comm]
    simp only [hlow, decide_true, cond_true, hsum]
  · have hsum : (i + k) % n = i - (n - k) := by
      rw [show i + k = i - (n - k) + n by omega, Nat.add_mod_right, Nat.mod_eq_of_lt (by omega)]
    simp only [hlow, hi, decide_true, decide_false, cond_false, Bool.true_and, hsum]

theorem toInt_eq_least_iff (hn : 0 < n) {a : BitVec n} :
    a.toInt = -2 ^ (n - 1) ↔ a = BitVec.intMin n := by
  have hleast : (BitVec.intMin n).toInt = -2 ^ (n - 1) := by
    have hlt : 2 ^ (n - 1) < 2 ^ n := Nat.pow_lt_pow_right (by decide) (by omega)
    rw [BitVec.toInt_intMin, Nat.mod_eq_of_lt hlt, Nat.cast_pow]
    rfl
  rw [← hleast, BitVec.toInt_inj]

theorem toInt_eq_neg_one_iff (hn : 0 < n) {b : BitVec n} : b.toInt = -1 ↔ b = -1 := by
  have hone : (-1 : BitVec n).toInt = -1 := by
    change (-1#n).toInt = -1
    rw [BitVec.neg_one_eq_allOnes, BitVec.toInt_allOnes, if_pos hn]
  rw [← hone, BitVec.toInt_inj]

theorem toInt_eq_zero_iff {b : BitVec n} : b.toInt = 0 ↔ b = 0 := by
  rw [← BitVec.toInt_inj, BitVec.ofNat_eq_ofNat, BitVec.toInt_zero]

theorem toNat_eq_zero_iff {b : BitVec n} : b.toNat = 0 ↔ b = 0 := BitVec.toNat_inj (y := 0#n)

/-- **Each operation is that on the integers**, modulo `2 ^ n`. -/
theorem eval_eq (hn : 0 < n) (op : IntBinary) (a b : BitVec n) :
    op.eval a b = (op.onIntegers a b).map (BitVec.ofInt n) := by
  have hk : b.toNat % n < n := Nat.mod_lt _ hn
  cases op with
  | add =>
    refine congrArg Except.ok ?_
    rw [BitVec.ofInt_add, ofInt_toNat, ofInt_toNat]
  | sub =>
    refine congrArg Except.ok ?_
    rw [Int.sub_eq_add_neg, BitVec.ofInt_add, BitVec.ofInt_neg, ofInt_toNat, ofInt_toNat,
      BitVec.sub_eq_add_neg]
  | mul =>
    refine congrArg Except.ok ?_
    rw [BitVec.ofInt_mul, ofInt_toNat, ofInt_toNat]
  | divS =>
    simp only [eval, onIntegers, toInt_eq_zero_iff, toInt_eq_least_iff hn, toInt_eq_neg_one_iff hn]
    split
    · rfl
    · split
      · rfl
      · exact congrArg Except.ok (ofInt_tdiv a b).symm
  | divU =>
    simp only [eval, onIntegers, toNat_eq_zero_iff, ← BitVec.toNat_udiv]
    split
    · rfl
    · exact congrArg Except.ok (ofInt_toNat (a / b)).symm
  | remS =>
    simp only [eval, onIntegers, toInt_eq_zero_iff]
    split
    · rfl
    · exact congrArg Except.ok (ofInt_tmod a b).symm
  | remU =>
    simp only [eval, onIntegers, toNat_eq_zero_iff, ← BitVec.toNat_umod]
    split
    · rfl
    · exact congrArg Except.ok (ofInt_toNat (a % b)).symm
  | and => exact congrArg Except.ok (ofInt_ofBits fun i => BitVec.getLsbD_and).symm
  | or => exact congrArg Except.ok (ofInt_ofBits fun i => BitVec.getLsbD_or).symm
  | xor => exact congrArg Except.ok (ofInt_ofBits fun i => BitVec.getLsbD_xor).symm
  | shl =>
    refine congrArg Except.ok ?_
    rw [BitVec.ofInt_natCast, ← BitVec.toNat_inj, BitVec.toNat_ofNat, BitVec.toNat_shiftLeft,
      Nat.shiftLeft_eq]
  | shrS => exact congrArg Except.ok (ofInt_ediv_two_pow a _).symm
  | shrU =>
    refine congrArg Except.ok ?_
    rw [← Nat.shiftRight_eq_div_pow, ← BitVec.toNat_ushiftRight, ofInt_toNat]
  | rotl => exact congrArg Except.ok (ofInt_ofBits fun i => getLsbD_rotateLeft hk i.2).symm
  | rotr => exact congrArg Except.ok (ofInt_ofBits fun i => getLsbD_rotateRight hk i.2).symm

/-! ### Failures -/

theorem onIntegers_eq_divideByZero_iff {op : IntBinary} {a b : BitVec n} :
    op.onIntegers a b = .error .divideByZero ↔ op ∈ [divS, divU, remS, remU] ∧ b = 0 := by
  cases op with
  | divS | remS | divU | remU =>
    simp only [onIntegers, toInt_eq_zero_iff, toNat_eq_zero_iff]
    by_cases hb : b = 0
    · rw [if_pos hb]
      exact iff_of_true rfl ⟨by decide, hb⟩
    · rw [if_neg hb]
      refine iff_of_false ?_ fun h => hb h.2
      repeat' split
      all_goals nofun
  | _ => exact iff_of_false nofun fun h => absurd h.1 (by decide)

theorem onIntegers_eq_overflow_iff {op : IntBinary} {a b : BitVec n} :
    op.onIntegers a b = .error .overflow ↔
      op = divS ∧ a.toInt = -2 ^ (n - 1) ∧ b.toInt = -1 := by
  cases op with
  | divS =>
    simp only [onIntegers]
    by_cases hb : b.toInt = 0
    · rw [if_pos hb, hb]
      exact iff_of_false nofun nofun
    · rw [if_neg hb]
      split
      · exact iff_of_true rfl ⟨trivial, by assumption⟩
      · rename_i hfits
        exact iff_of_false nofun fun h => hfits h.2
  | divU | remU | remS =>
    refine iff_of_false ?_ fun h => absurd h.1 (by decide)
    simp only [onIntegers]
    split <;> nofun
  | _ => exact iff_of_false nofun fun h => absurd h.1 (by decide)

/-! ### Quotient and remainder -/

variable {a b q r : BitVec n}

/-- The only quotient that does not fit is that of the least integer by `-1`. -/
theorem eval_divS_remS (hq : divS.eval a b = .ok q) (hr : remS.eval a b = .ok r) :
    a.toInt = b.toInt * q.toInt + r.toInt ∧ |r.toInt| < |b.toInt| ∧
      (r.toInt = 0 ∨ r.toInt.sign = a.toInt.sign) := by
  simp only [eval] at hq hr
  split at hq
  · cases hq
  · rename_i hb
    rw [if_neg hb] at hr
    split at hq
    · cases hq
    · rename_i hfits
      cases hq
      cases hr
      have hne : b.toInt ≠ 0 := fun h => hb (toInt_eq_zero_iff.1 h)
      rw [BitVec.toInt_sdiv_of_ne_or_ne a b (Classical.not_and_iff_not_or_not.1 hfits),
        BitVec.toInt_srem]
      refine ⟨(Int.mul_tdiv_add_tmod _ _).symm, ?_, ?_⟩
      · rw [Int.abs_eq_natAbs, Int.abs_eq_natAbs, Int.natAbs_tmod]
        exact Int.ofNat_lt.2 (Nat.mod_lt _ (Int.natAbs_pos.2 hne))
      · rw [Int.sign_tmod]
        split
        · rename_i hdvd
          exact .inl (Int.tmod_eq_zero_of_dvd hdvd)
        · exact .inr rfl

theorem eval_divU_remU (hq : divU.eval a b = .ok q) (hr : remU.eval a b = .ok r) :
    a.toNat = b.toNat * q.toNat + r.toNat ∧ r.toNat < b.toNat := by
  simp only [eval] at hq hr
  split at hq
  · cases hq
  · rename_i hb
    rw [if_neg hb] at hr
    cases hq
    cases hr
    have hpos : 0 < b.toNat := Nat.pos_of_ne_zero fun h => hb (toNat_eq_zero_iff.1 h)
    rw [BitVec.toNat_udiv, BitVec.toNat_umod]
    exact ⟨(Nat.div_add_mod _ _).symm, Nat.mod_lt _ hpos⟩

end IntBinary

end WasmCore
