import Mathlib.Data.List.Basic
import WasmCore.Text.Utf16

/-!
# UTF-16

Text is encoded as units, one for a character of the basic plane and a pair of surrogates for any
other one, and units as bytes. What is encoded is read back (`ofUtf16_toUtf16`).

Units that encode no text can be read as well. A surrogate is lone if it is not half of a pair,
which can be told from the units next to it (`IsLone`). When what was read is encoded again, every
lone surrogate has become the replacement character, and all other units stand where they stood
(`mends_ofUnits`).
-/

namespace WasmCore.Text

variable {u high low i : Nat} {units units' rest rest' : List Nat} {c : Char}

/-! ### Encoding -/

/-- The units of a character. -/
def unitsOf (c : Char) : List Nat :=
  if c.toNat < 0x10000 then [c.toNat]
  else [0xD800 + (c.toNat - 0x10000) / 0x400, 0xDC00 + (c.toNat - 0x10000) % 0x400]

/-- The units of a sequence of characters. -/
def toUnits (cs : List Char) : List Nat := cs.flatMap unitsOf

/-- Units as pairs of bytes, low byte first. -/
def bytesOfUnits : List Nat → List UInt8
  | [] => []
  | u :: rest => .ofNat u :: .ofNat (u / 256) :: bytesOfUnits rest

/-- Characters in little-endian UTF-16. -/
def toUtf16 (cs : List Char) : List UInt8 := bytesOfUnits (toUnits cs)

/-! ### Surrogates -/

theorem isHighSurrogate_iff : isHighSurrogate u = true ↔ 0xD800 ≤ u ∧ u < 0xDC00 := by
  simp [isHighSurrogate]

theorem isLowSurrogate_iff : isLowSurrogate u = true ↔ 0xDC00 ≤ u ∧ u < 0xE000 := by
  simp [isLowSurrogate]

/-- The unit is half of a pair, or could be. -/
def isSurrogate (u : Nat) : Bool := isHighSurrogate u || isLowSurrogate u

theorem isSurrogate_iff : isSurrogate u = true ↔ 0xD800 ≤ u ∧ u < 0xE000 := by
  rw [isSurrogate, Bool.or_eq_true, isHighSurrogate_iff, isLowSurrogate_iff]
  omega

theorem isSurrogate_toNat (c : Char) : isSurrogate c.toNat = false := by
  rw [Bool.eq_false_iff, Ne, isSurrogate_iff]
  rcases c.valid with hlow | ⟨hhigh, -⟩
  · exact fun h => Nat.not_lt.2 h.1 hlow
  · exact fun h => Nat.not_lt.2 (Nat.succ_le_of_lt hhigh) h.2

theorem toNat_lt (c : Char) : c.toNat < 0x110000 := by
  rcases c.valid with hlow | ⟨-, hhigh⟩
  · exact Nat.lt_trans hlow (by decide)
  · exact hhigh

theorem toNat_ofNat (h : u.isValidChar) : (Char.ofNat u).toNat = u := by
  rw [Char.ofNat, dif_pos h]
  rfl

/-- A unit that is read alone stands for its character, or for the replacement character. -/
theorem unitsOf_ofUnit (h : u < 0x10000) :
    unitsOf (ofUnit u) = [if isSurrogate u then 0xFFFD else u] := by
  rw [ofUnit, ← isSurrogate]
  split
  · rfl
  · rename_i hplain
    have hvalid : u.isValidChar := by
      rw [isSurrogate_iff] at hplain
      simp only [Nat.isValidChar]
      omega
    rw [unitsOf, toNat_ofNat hvalid, if_pos h]

theorem unitsOf_ofSurrogates (hhigh : isHighSurrogate high = true)
    (hlow : isLowSurrogate low = true) : unitsOf (ofSurrogates high low) = [high, low] := by
  rw [isHighSurrogate_iff] at hhigh
  rw [isLowSurrogate_iff] at hlow
  obtain ⟨code, hcode⟩ : ∃ code, code = 0x10000 + (high - 0xD800) * 0x400 + (low - 0xDC00) :=
    ⟨_, rfl⟩
  have hvalid : code.isValidChar := by
    simp only [Nat.isValidChar]
    omega
  have hfirst : 0xD800 + (code - 0x10000) / 0x400 = high := by omega
  have hsecond : 0xDC00 + (code - 0x10000) % 0x400 = low := by omega
  rw [ofSurrogates, ← hcode, unitsOf, toNat_ofNat hvalid, if_neg (by omega), hfirst, hsecond]

/-- The unit at a position is a first half. -/
def HighAt (units : List Nat) (i : Nat) : Prop := ∃ u, units[i]? = some u ∧ isHighSurrogate u = true

/-- The unit at a position is a second half. -/
def LowAt (units : List Nat) (i : Nat) : Prop := ∃ u, units[i]? = some u ∧ isLowSurrogate u = true

/-- The unit at a position is a first half that no second half follows, or a second half that
follows no first half. -/
def IsLone (units : List Nat) (i : Nat) : Prop :=
  (HighAt units i ∧ ¬ LowAt units (i + 1)) ∨ (LowAt units i ∧ (i = 0 ∨ ¬ HighAt units (i - 1)))

theorem highAt_zero : HighAt (u :: rest) 0 ↔ isHighSurrogate u = true := by
  simp [HighAt]

theorem lowAt_zero : LowAt (u :: rest) 0 ↔ isLowSurrogate u = true := by
  simp [LowAt]

theorem highAt_succ : HighAt (u :: rest) (i + 1) ↔ HighAt rest i := by
  simp [HighAt]

theorem lowAt_succ : LowAt (u :: rest) (i + 1) ↔ LowAt rest i := by
  simp [LowAt]

theorem isLone_zero : IsLone (u :: rest) 0 ↔
    (isHighSurrogate u = true ∧ ¬ LowAt rest 0) ∨ isLowSurrogate u = true := by
  rw [IsLone, highAt_zero, lowAt_succ, lowAt_zero]
  exact or_congr_right (and_iff_left (.inl rfl))

/-- Whether a surrogate is lone does not depend on a unit further in front that does not pair with
it. -/
theorem isLone_succ (h : i = 0 → isHighSurrogate u = true → ¬ LowAt rest 0) :
    IsLone (u :: rest) (i + 1) ↔ IsLone rest i := by
  rw [IsLone, IsLone, highAt_succ, lowAt_succ, lowAt_succ, Nat.add_sub_cancel]
  refine or_congr_right (and_congr_right fun hlow => ?_)
  cases i with
  | zero =>
    rw [highAt_zero]
    exact iff_of_true (.inr fun hu => h rfl hu hlow) (.inl rfl)
  | succ i =>
    rw [highAt_succ]
    exact or_congr_left (iff_of_false (Nat.succ_ne_zero _) (Nat.succ_ne_zero _))

/-! ### Reading what is encoded -/

theorem ofUnits_pair (hhigh : isHighSurrogate high = true) (hlow : isLowSurrogate low = true)
    (rest : List Nat) : ofUnits (high :: low :: rest) = ofSurrogates high low :: ofUnits rest := by
  rw [ofUnits, hhigh, hlow]
  rfl

theorem ofUnits_unit (h : isHighSurrogate u = true → ¬ LowAt rest 0) :
    ofUnits (u :: rest) = ofUnit u :: ofUnits rest := by
  cases rest with
  | nil => rfl
  | cons next rest =>
    rw [ofUnits, if_neg]
    rw [Bool.and_eq_true]
    exact fun hpair => h hpair.1 (lowAt_zero.2 hpair.2)

theorem ofUnits_unitsOf (c : Char) (rest : List Nat) :
    ofUnits (unitsOf c ++ rest) = c :: ofUnits rest := by
  have hplain := isSurrogate_toNat c
  have hlt := toNat_lt c
  rw [unitsOf]
  split
  · have hhigh : isHighSurrogate c.toNat = false := (Bool.or_eq_false_iff.1 hplain).1
    rw [List.singleton_append, ofUnits_unit (by rw [hhigh]; nofun), ofUnit, ← isSurrogate, hplain]
    exact congrArg (· :: ofUnits rest) c.ofNat_toNat
  · obtain ⟨k, hk⟩ : ∃ k, k = c.toNat - 0x10000 := ⟨_, rfl⟩
    have hcode : 0x10000 + (0xD800 + k / 0x400 - 0xD800) * 0x400 + (0xDC00 + k % 0x400 - 0xDC00) =
        c.toNat := by omega
    rw [← hk, List.cons_append, List.singleton_append, ofUnits_pair, ofSurrogates, hcode,
      c.ofNat_toNat]
    · exact isHighSurrogate_iff.2 (by omega)
    · exact isLowSurrogate_iff.2 (by omega)

theorem ofUnits_toUnits (cs : List Char) : ofUnits (toUnits cs) = cs := by
  induction cs with
  | nil => rfl
  | cons c cs ih => rw [toUnits, List.flatMap_cons, ofUnits_unitsOf, ← toUnits, ih]

theorem lt_of_mem_unitsOf (h : u ∈ unitsOf c) : u < 0x10000 := by
  have hlt := toNat_lt c
  rw [unitsOf] at h
  split at h
  · rwa [List.mem_singleton.1 h]
  · simp only [List.mem_cons, List.not_mem_nil, or_false] at h
    omega

theorem lt_of_mem_toUnits {cs : List Char} (h : u ∈ toUnits cs) : u < 0x10000 := by
  obtain ⟨c, -, hu⟩ := List.mem_flatMap.1 h
  exact lt_of_mem_unitsOf hu

theorem unitsOfBytes_bytesOfUnits (h : ∀ u ∈ units, u < 0x10000) :
    unitsOfBytes (bytesOfUnits units) = units := by
  induction units with
  | nil => rfl
  | cons u rest ih =>
    have hu := h u List.mem_cons_self
    have hbytes : (UInt8.ofNat u).toNat + 256 * (UInt8.ofNat (u / 256)).toNat = u := by
      rw [UInt8.toNat_ofNat', UInt8.toNat_ofNat']
      omega
    rw [bytesOfUnits, unitsOfBytes, hbytes, ih fun v hv => h v (List.mem_cons_of_mem u hv)]

theorem lt_of_mem_unitsOfBytes {bytes : List UInt8} (h : u ∈ unitsOfBytes bytes) : u < 0x10000 := by
  fun_induction unitsOfBytes bytes with
  | case1 low high rest ih =>
    rcases List.mem_cons.1 h with rfl | hrest
    · have hlow := low.toNat_lt
      have hhigh := high.toNat_lt
      omega
    · exact ih hrest
  | case2 => cases h

/-- What is encoded is read back. -/
theorem ofUtf16_toUtf16 (cs : List Char) : ofUtf16 (toUtf16 cs) = String.ofList cs := by
  rw [ofUtf16, toUtf16, unitsOfBytes_bytesOfUnits fun u => lt_of_mem_toUnits, ofUnits_toUnits]

/-! ### Reading anything -/

/-- The second units are the first ones with a replacement character for every lone surrogate. -/
structure Mends (units units' : List Nat) : Prop where
  length_eq : units'.length = units.length
  lone : ∀ i, IsLone units i → units'[i]? = some replacementChar.toNat
  other : ∀ i, ¬ IsLone units i → units'[i]? = units[i]?

namespace Mends

theorem nil : Mends [] [] := ⟨rfl, by simp [IsLone, HighAt, LowAt], fun _ _ => rfl⟩

theorem unit (h : isHighSurrogate u = true → ¬ LowAt rest 0) (hrest : Mends rest rest') :
    Mends (u :: rest) ((if isSurrogate u then replacementChar.toNat else u) :: rest') where
  length_eq := congrArg (· + 1) hrest.length_eq
  lone i hlone := by
    cases i with
    | zero =>
      have hsurrogate : isSurrogate u = true :=
        Bool.or_eq_true_iff.2 ((isLone_zero.1 hlone).imp_left And.left)
      rw [if_pos hsurrogate]
      rfl
    | succ i => exact hrest.lone i ((isLone_succ fun _ => h).1 hlone)
  other i hother := by
    cases i with
    | zero =>
      have hplain : ¬ isSurrogate u = true := fun hsurrogate => hother <| isLone_zero.2 <|
        (Bool.or_eq_true_iff.1 hsurrogate).imp_left fun hhigh => ⟨hhigh, h hhigh⟩
      rw [if_neg hplain]
      rfl
    | succ i => exact hrest.other i (mt (isLone_succ fun _ => h).2 hother)

theorem pair (hhigh : isHighSurrogate high = true) (hlow : isLowSurrogate low = true)
    (hrest : Mends rest rest') : Mends (high :: low :: rest) (high :: low :: rest') := by
  have hnotLow : ¬ isLowSurrogate high = true := by
    rw [isLowSurrogate_iff]
    rw [isHighSurrogate_iff] at hhigh
    omega
  have hnotHigh : ¬ isHighSurrogate low = true := by
    rw [isHighSurrogate_iff]
    rw [isLowSurrogate_iff] at hlow
    omega
  have hsecond : LowAt (low :: rest) 0 := lowAt_zero.2 hlow
  have hfirst : ¬ IsLone (high :: low :: rest) 0 := by
    rw [isLone_zero]
    exact not_or.2 ⟨fun hlone => hlone.2 hsecond, hnotLow⟩
  have hnext : ¬ IsLone (high :: low :: rest) 1 := by
    rintro (⟨hhighAt, -⟩ | ⟨-, hzero | hnone⟩)
    · exact hnotHigh (highAt_zero.1 (highAt_succ.1 hhighAt))
    · cases hzero
    · exact hnone (highAt_zero.2 hhigh)
  have hlater (i : Nat) : IsLone (high :: low :: rest) (i + 2) ↔ IsLone rest i :=
    (isLone_succ fun hzero => absurd hzero (Nat.succ_ne_zero i)).trans
      (isLone_succ fun _ hlow' => absurd hlow' hnotHigh)
  refine ⟨congrArg (· + 2) hrest.length_eq, fun i hlone => ?_, fun i hother => ?_⟩
  · match i with
    | 0 => exact absurd hlone hfirst
    | 1 => exact absurd hlone hnext
    | i + 2 => exact hrest.lone i ((hlater i).1 hlone)
  · match i with
    | 0 => rfl
    | 1 => rfl
    | i + 2 => exact hrest.other i (mt (hlater i).2 hother)

end Mends

/-- **Only lone surrogates are lost.** When what was read from units is encoded, every lone
surrogate has become the replacement character, and every other unit is as it was. -/
theorem mends_ofUnits (h : ∀ u ∈ units, u < 0x10000) : Mends units (toUnits (ofUnits units)) := by
  fun_induction ofUnits units with
  | case1 => exact .nil
  | case2 u =>
    have hu := h u List.mem_cons_self
    rw [toUnits, List.flatMap_singleton, unitsOf_ofUnit hu]
    exact .unit (fun _ => by simp [LowAt]) .nil
  | case3 high low rest hpair ih =>
    obtain ⟨hhigh, hlow⟩ := Bool.and_eq_true_iff.1 hpair
    have hrest := ih fun u hu => h u (List.mem_cons_of_mem _ (List.mem_cons_of_mem _ hu))
    rw [toUnits, List.flatMap_cons, unitsOf_ofSurrogates hhigh hlow]
    exact hrest.pair hhigh hlow
  | case4 high low rest hpair ih =>
    have hhigh := h high List.mem_cons_self
    have hrest := ih fun u hu => h u (List.mem_cons_of_mem _ hu)
    rw [toUnits, List.flatMap_cons, unitsOf_ofUnit hhigh]
    refine hrest.unit fun hfirst hsecond => hpair ?_
    rw [hfirst, lowAt_zero.1 hsecond]
    rfl

end WasmCore.Text
