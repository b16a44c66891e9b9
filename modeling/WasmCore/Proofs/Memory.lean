import Mathlib.Algebra.BigOperators.Ring.Finset
import Mathlib.Tactic.Ring
import WasmCore.Proofs.Store.Growth

/-!
# Numbers in memories

A number in a memory is the sum of its bytes, each one worth 256 times the one before
(`Memory.number_eq_sum`). To write a number is to make its bytes the digits of the number to base
256 and to leave all others alone (`Memory.toNat_byteAt_setNumber`,
`Memory.byteAt_setNumber_of_outside`). So what is written is read back but for the digits that had
no room (`Memory.number_setNumber`), and numbers that share no byte can be written in either order
(`Memory.setNumber_comm`).
-/

namespace WasmCore

namespace Memory

variable {m m' : Memory} {i j offset width : Nat}

/-! ### Bytes -/

/-- Memories with the same bytes are the same. -/
theorem ext_byteAt (hmax : m.max = m'.max) (hlength : m.length = m'.length)
    (h : ∀ i, m.byteAt i = m'.byteAt i) : m = m' := by
  obtain ⟨bytes, max⟩ := m
  obtain ⟨bytes', max'⟩ := m'
  have hbytes : bytes = bytes' := by
    refine ByteArray.ext (Array.ext hlength fun i hi hi' => ?_)
    have hlt : i < bytes.size := hi
    have hlt' : i < bytes'.size := hi'
    have hbyte := h i
    simp only [byteAt, hlt, hlt', ↓reduceDIte] at hbyte
    exact hbyte
  cases hbytes
  cases hmax
  rfl

theorem byteAt_setByte_self (h : i < m.length) (b : UInt8) : (m.setByte i b).byteAt i = b := by
  have hlt : i < m.bytes.size := h
  have hsize : i < (m.bytes.set i b hlt).size := Nat.lt_of_lt_of_eq hlt (Array.size_set ..).symm
  simp only [byteAt, setByte, hlt, ↓reduceDIte, hsize]
  simp only [ByteArray.getElem_eq_getElem_data, ByteArray.data_set, Array.getElem_set_self]

theorem byteAt_setByte_of_ne (h : i ≠ j) (b : UInt8) : (m.setByte i b).byteAt j = m.byteAt j := by
  unfold setByte
  split
  · rename_i hi
    have hsize : (m.bytes.set i b hi).size = m.bytes.size := Array.size_set ..
    simp only [byteAt, hsize]
    split
    · rename_i hj
      simp only [ByteArray.getElem_eq_getElem_data, ByteArray.data_set]
      exact Array.getElem_set_ne hi hj h
    · rfl
  · rfl

/-! ### Numbers -/

theorem hasLength_iff {count : Nat} : m.hasLength offset count = true ↔ offset + count ≤ m.length :=
  decide_eq_true_iff

theorem readNumber?_of_le (h : offset + width ≤ m.length) :
    m.readNumber? offset width = some (m.number offset width) := if_pos (hasLength_iff.2 h)

theorem readNumber?_of_not_le (h : ¬ offset + width ≤ m.length) :
    m.readNumber? offset width = none := if_neg fun hlength => h (hasLength_iff.1 hlength)

theorem number_eq_sum (m : Memory) (offset width : Nat) : m.number offset width =
    ∑ i ∈ Finset.range width, (m.byteAt (offset + i)).toNat * 256 ^ i := by
  induction width generalizing offset with
  | zero => rfl
  | succ w ih =>
    have hrest : 256 * m.number (offset + 1) w =
        ∑ i ∈ Finset.range w, (m.byteAt (offset + (i + 1))).toNat * 256 ^ (i + 1) := by
      rw [ih, Finset.mul_sum]
      refine Finset.sum_congr rfl fun i _ => ?_
      rw [Nat.add_assoc, Nat.add_comm 1 i, Nat.pow_succ]
      ring
    rw [Finset.sum_range_succ', ← hrest, number]
    simp only [Nat.add_zero, Nat.pow_zero, Nat.mul_one, Nat.add_comm]

theorem number_lt (m : Memory) (offset width : Nat) : m.number offset width < 256 ^ width := by
  induction width generalizing offset with
  | zero => exact Nat.one_pos
  | succ w ih =>
    have hbyte := (m.byteAt offset).toNat_lt
    have hrest := ih (offset + 1)
    rw [number, Nat.pow_succ]
    omega

theorem number_congr (h : ∀ i < width, m.byteAt (offset + i) = m'.byteAt (offset + i)) :
    m.number offset width = m'.number offset width := by
  rw [number_eq_sum, number_eq_sum]
  exact Finset.sum_congr rfl fun i hi => by rw [h i (Finset.mem_range.1 hi)]

/-! ### Writing numbers -/

theorem byteAt_setNumber_of_outside (h : i < offset ∨ offset + width ≤ i) (value : Nat) :
    (m.setNumber offset width value).byteAt i = m.byteAt i := by
  induction width generalizing m offset value with
  | zero => rfl
  | succ w ih => rw [setNumber, ih (by omega), byteAt_setByte_of_ne (by omega)]

theorem toNat_byteAt_setNumber (hfits : offset + width ≤ m.length) (h : i < width) (value : Nat) :
    ((m.setNumber offset width value).byteAt (offset + i)).toNat = value / 256 ^ i % 256 := by
  induction width generalizing m offset value i with
  | zero => cases h
  | succ w ih =>
    have hfits' : offset + 1 + w ≤ (m.setByte offset (.ofNat value)).length := by
      rw [length_setByte]
      omega
    cases i with
    | zero =>
      have hlt : offset < m.length := by omega
      rw [setNumber, byteAt_setNumber_of_outside (by omega)]
      simp only [Nat.add_zero, byteAt_setByte_self hlt, Nat.pow_zero, Nat.div_one]
      exact UInt8.toNat_ofNat'
    | succ i =>
      have hposition : offset + (i + 1) = offset + 1 + i := by omega
      rw [setNumber, hposition, ih hfits' (by omega), Nat.div_div_eq_div_mul, Nat.pow_succ,
        Nat.mul_comm]

theorem number_setNumber (hfits : offset + width ≤ m.length) (value : Nat) :
    (m.setNumber offset width value).number offset width = value % 256 ^ width := by
  induction width generalizing m offset value with
  | zero => exact (Nat.mod_one value).symm
  | succ w ih =>
    have hfits' : offset + 1 + w ≤ (m.setByte offset (.ofNat value)).length := by
      rw [length_setByte]
      omega
    have hfirst : ((m.setNumber offset (w + 1) value).byteAt offset).toNat = value % 256 := by
      simpa using toNat_byteAt_setNumber hfits (Nat.succ_pos w) value
    rw [number, hfirst, setNumber, ih hfits', Nat.pow_succ, Nat.mul_comm (256 ^ w), Nat.mod_mul]

theorem setNumber_comm {offset' width' : Nat}
    (h : offset + width ≤ offset' ∨ offset' + width' ≤ offset) (hfits : offset + width ≤ m.length)
    (hfits' : offset' + width' ≤ m.length) (value value' : Nat) :
    (m.setNumber offset width value).setNumber offset' width' value' =
      (m.setNumber offset' width' value').setNumber offset width value := by
  refine ext_byteAt (by simp) (by simp) fun i => ?_
  by_cases hi : offset ≤ i ∧ i < offset + width
  · -- a byte of the first number, which is outside of the second
    obtain ⟨k, rfl⟩ := Nat.exists_eq_add_of_le hi.1
    have hk : k < width := by omega
    refine UInt8.toNat_inj.1 ?_
    rw [byteAt_setNumber_of_outside (by omega), toNat_byteAt_setNumber hfits hk,
      toNat_byteAt_setNumber (by simpa using hfits) hk]
  · by_cases hi' : offset' ≤ i ∧ i < offset' + width'
    · obtain ⟨k, rfl⟩ := Nat.exists_eq_add_of_le hi'.1
      have hk : k < width' := by omega
      refine UInt8.toNat_inj.1 ?_
      rw [toNat_byteAt_setNumber (by simpa using hfits') hk,
        byteAt_setNumber_of_outside (by omega), toNat_byteAt_setNumber hfits' hk]
    · have hout : i < offset ∨ offset + width ≤ i := by omega
      have hout' : i < offset' ∨ offset' + width' ≤ i := by omega
      simp only [byteAt_setNumber_of_outside hout, byteAt_setNumber_of_outside hout']

end Memory

end WasmCore
