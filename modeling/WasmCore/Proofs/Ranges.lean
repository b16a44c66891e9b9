import WasmCore.Proofs.Memory

/-!
# Initialized ranges

The bytes of a memory that are not zero stand in runs. `Memory.IsRun` says what a run is: bytes
that are not zero, with a zero or an end of the memory on either side. The scan for initialized
ranges keeps at most one run open (`Memory.Open`), and from this it follows that it finds the runs
and nothing else, in ascending order and with a zero byte between any two
(`Memory.initializedRanges_exact`). So a memory is known from its length and the bytes of its
initialized ranges.
-/

namespace WasmCore

namespace Memory

variable {m m' : Memory} {i start : Nat} {begun : Option Nat} {r : ByteRange}

theorem byteAt_of_lt (h : i < m.bytes.size) : m.byteAt i = m.bytes[i] := dif_pos h

theorem byteAt_of_le (h : m.length ≤ i) : m.byteAt i = 0 := dif_neg (Nat.not_lt.2 h)

theorem lt_length_of_byteAt_ne (h : m.byteAt i ≠ 0) : i < m.length :=
  Nat.lt_of_not_le fun hle => h (byteAt_of_le hle)

/-! ### Runs -/

/-- The range consists of bytes that are not zero and stands between zeros or ends of the memory. -/
structure IsRun (m : Memory) (r : ByteRange) : Prop where
  nonempty : r.start < r.stop
  fits : r.stop ≤ m.length
  filled : ∀ i, r.start ≤ i → i < r.stop → m.byteAt i ≠ 0
  before : r.start = 0 ∨ m.byteAt (r.start - 1) = 0
  after : r.stop = m.length ∨ m.byteAt r.stop = 0

theorem IsRun.byteAt_stop (h : m.IsRun r) : m.byteAt r.stop = 0 := by
  rcases h.after with hstop | hstop
  · exact byteAt_of_le (Nat.le_of_eq hstop.symm)
  · exact hstop

/-- What the scan has seen when it comes to position `i`: either no run reaches up to `i`, or the
one that starts at the given position does. -/
def Open (m : Memory) (i : Nat) : Option Nat → Prop
  | none => i = 0 ∨ m.byteAt (i - 1) = 0
  | some start => start < i ∧ (∀ j, start ≤ j → j < i → m.byteAt j ≠ 0) ∧
      (start = 0 ∨ m.byteAt (start - 1) = 0)

namespace Open

theorem zero (m : Memory) : m.Open 0 none := .inl rfl

theorem closed (h : m.byteAt i = 0) : m.Open (i + 1) none := .inr h

theorem opened (h : m.Open i none) (hi : m.byteAt i ≠ 0) : m.Open (i + 1) (some i) := by
  refine ⟨Nat.lt_succ_self i, fun j hij hj => ?_, h⟩
  obtain rfl : j = i := by omega
  exact hi

theorem extended (h : m.Open i (some start)) (hi : m.byteAt i ≠ 0) :
    m.Open (i + 1) (some start) := by
  obtain ⟨hlt, hfilled, hbefore⟩ := h
  refine ⟨by omega, fun j hj hji => ?_, hbefore⟩
  rcases Nat.lt_succ_iff_lt_or_eq.1 hji with hlt | rfl
  · exact hfilled j hj hlt
  · exact hi

/-- An open run is complete at a zero and at the end of the memory. -/
theorem isRun (h : m.Open i (some start)) (hfits : i ≤ m.length) (hi : m.byteAt i = 0) :
    m.IsRun ⟨start, i⟩ := by
  obtain ⟨hlt, hfilled, hbefore⟩ := h
  exact ⟨hlt, hfits, hfilled, hbefore, .inr hi⟩

/-- A run that does not start before the open one is this one, or starts further on. -/
theorem eq_or_lt (h : m.Open i (some start)) (hi : m.byteAt i = 0) (hr : m.IsRun r)
    (hstart : start ≤ r.start) : r = ⟨start, i⟩ ∨ i < r.start := by
  obtain ⟨-, hfilled, -⟩ := h
  have hpos := hr.nonempty
  by_cases hin : r.start ≤ i
  · refine .inl ?_
    -- the byte before a run is zero, so the run starts where the open one does
    have hfirst : r.start = start := by
      rcases hr.before with hzero | hzero
      · omega
      · by_contra hne
        exact hfilled (r.start - 1) (by omega) (by omega) hzero
    have hle : r.stop ≤ i := by
      by_contra hgt
      exact hr.filled i hin (by omega) hi
    have hge : i ≤ r.stop := by
      by_contra hlt
      exact hfilled r.stop (by omega) (by omega) hr.byteAt_stop
    cases r
    obtain rfl := hfirst
    obtain rfl : _ = i := Nat.le_antisymm hle hge
    rfl
  · exact .inr (Nat.lt_of_not_le hin)

end Open

/-! ### The scan -/

/-- The ranges are the runs that do not start before `low`, in ascending order, and every byte from
there on that is not zero is in one of them. -/
structure Finds (m : Memory) (low : Nat) (ranges : List ByteRange) : Prop where
  mem : ∀ r, r ∈ ranges ↔ m.IsRun r ∧ low ≤ r.start
  ordered : ranges.Pairwise fun r r' => r.stop < r'.start
  covers : ∀ j, low ≤ j → m.byteAt j ≠ 0 → ∃ r ∈ ranges, r.start ≤ j ∧ j < r.stop

namespace Finds

variable {ranges : List ByteRange}

/-- There is nothing to find behind the end. -/
theorem nil (h : m.length ≤ i) : m.Finds i [] where
  mem r := by
    refine iff_of_false List.not_mem_nil ?_
    rintro ⟨hr, hstart⟩
    have := hr.nonempty
    have := hr.fits
    omega
  ordered := .nil
  covers j hij hj := by
    have := lt_length_of_byteAt_ne hj
    omega

/-- No run starts at a zero. -/
theorem skip (h : m.Finds (i + 1) ranges) (hi : m.byteAt i = 0) : m.Finds i ranges where
  mem r := by
    rw [h.mem]
    refine and_congr_right fun hr => ⟨Nat.le_of_succ_le, fun hle => Nat.lt_of_le_of_ne hle ?_⟩
    rintro rfl
    exact hr.filled _ (Nat.le_refl _) hr.nonempty hi
  ordered := h.ordered
  covers j hij hj := by
    refine h.covers j (Nat.lt_of_le_of_ne hij ?_) hj
    rintro rfl
    exact hj hi

/-- At a zero the open run is complete, and the others start further on. -/
theorem cons (h : m.Finds (i + 1) ranges) (hopen : m.Open i (some start)) (hfits : i ≤ m.length)
    (hi : m.byteAt i = 0) : m.Finds start (⟨start, i⟩ :: ranges) where
  mem r := by
    rw [List.mem_cons, h.mem]
    constructor
    · rintro (rfl | ⟨hr, hlater⟩)
      · exact ⟨hopen.isRun hfits hi, Nat.le_refl _⟩
      · exact ⟨hr, Nat.le_trans (Nat.le_of_lt hopen.1) (Nat.le_of_succ_le hlater)⟩
    · rintro ⟨hr, hstart⟩
      exact (hopen.eq_or_lt hi hr hstart).imp_right fun hlater => ⟨hr, hlater⟩
  ordered := List.pairwise_cons.2 ⟨fun r hr => ((h.mem r).1 hr).2, h.ordered⟩
  covers j hstart hj := by
    rcases Nat.lt_trichotomy j i with hin | rfl | hout
    · exact ⟨_, List.mem_cons_self, hstart, hin⟩
    · exact absurd hi hj
    · obtain ⟨r, hr, hcovers⟩ := h.covers j hout hj
      exact ⟨r, List.mem_cons_of_mem _ hr, hcovers⟩

end Finds

/-- The scan finds the open run, if there is one, and the runs behind it. -/
theorem finds_rangesFrom (hopen : m.Open i begun) (hi : i ≤ m.length) :
    m.Finds (begun.getD i) (m.rangesFrom i begun) := by
  fun_induction m.rangesFrom i begun with
  | case1 i hlt ih =>
    have hbyte := byteAt_of_lt hlt
    by_cases hzero : m.bytes[i] = 0
    · simp only [hzero, ↓reduceIte, ↓reduceDIte] at ih ⊢
      have hi := hbyte.trans hzero
      exact (ih (.closed hi) hlt).skip hi
    · simp only [hzero, ↓reduceIte, ↓reduceDIte] at ih ⊢
      exact ih (hopen.opened (hbyte ▸ hzero)) hlt
  | case2 i hlt start hzero ih =>
    have hbyte := (byteAt_of_lt hlt).trans hzero
    exact (ih (.closed hbyte) hlt).cons hopen hi hbyte
  | case3 i hlt start hzero ih =>
    exact ih (hopen.extended (byteAt_of_lt hlt ▸ hzero)) hlt
  | case4 i hend => exact .nil (Nat.le_of_not_lt hend)
  | case5 i hend start =>
    have hle : m.length ≤ i := Nat.le_of_not_lt hend
    exact (Finds.nil (Nat.le_succ_of_le hle)).cons hopen hi (byteAt_of_le hle)

/-- The initialized ranges are the runs of the memory. -/
theorem finds_initializedRanges (m : Memory) : m.Finds 0 m.initializedRanges :=
  finds_rangesFrom (.zero m) (Nat.zero_le _)

/-! ### Initialized ranges -/

/-- Memories of one length with the same ranges and the same bytes in them have the same bytes. -/
theorem bytes_eq_of_ranges (hlength : m'.length = m.length)
    (hranges : m'.initializedRanges = m.initializedRanges)
    (hread : ∀ r ∈ m.initializedRanges, ∀ i, r.start ≤ i → i < r.stop → m'.byteAt i = m.byteAt i) :
    m'.bytes = m.bytes := by
  have hbyte : ∀ i, m'.byteAt i = m.byteAt i := by
    intro i
    by_cases hi : m.byteAt i = 0
    · by_contra hne
      -- the byte would be in a range of the one memory and outside of those of the other
      obtain ⟨r, hr, hstart, hstop⟩ :=
        (finds_initializedRanges m').covers i (Nat.zero_le _) (hi ▸ hne)
      have hr' := ((finds_initializedRanges m).mem r).1 (hranges ▸ hr)
      exact hr'.1.filled i hstart hstop hi
    · obtain ⟨r, hr, hstart, hstop⟩ :=
        (finds_initializedRanges m).covers i (Nat.zero_le _) hi
      exact hread r hr i hstart hstop
  have heq : (⟨m'.bytes, none⟩ : Memory) = ⟨m.bytes, none⟩ := ext_byteAt rfl hlength hbyte
  exact (Memory.mk.inj heq).1

/-- **The initialized ranges are exactly the maximal runs of bytes that are not zero.** They come in
ascending order with a zero between any two, they cover a position exactly if its byte is not zero,
and with the length and the bytes in them the bytes of the memory are determined. -/
theorem initializedRanges_exact (m : Memory) :
    (∀ r, r ∈ m.initializedRanges ↔ m.IsRun r) ∧
    (m.initializedRanges.Pairwise fun r r' => r.stop < r'.start ∧ m.byteAt r.stop = 0) ∧
    (∀ i, (∃ r ∈ m.initializedRanges, r.start ≤ i ∧ i < r.stop) ↔
      i < m.length ∧ m.byteAt i ≠ 0) ∧
    ∀ m' : Memory, m'.length = m.length → m'.initializedRanges = m.initializedRanges →
      (∀ r ∈ m.initializedRanges, ∀ i, r.start ≤ i → i < r.stop → m'.byteAt i = m.byteAt i) →
      m'.bytes = m.bytes := by
  have hfinds := finds_initializedRanges m
  have hmem : ∀ r, r ∈ m.initializedRanges ↔ m.IsRun r := fun r =>
    (hfinds.mem r).trans (and_iff_left (Nat.zero_le _))
  refine ⟨hmem, ?_, fun i => ⟨?_, ?_⟩, fun m' => bytes_eq_of_ranges⟩
  · refine hfinds.ordered.imp_of_mem fun hr _ hlt => ⟨hlt, ?_⟩
    exact ((hmem _).1 hr).byteAt_stop
  · rintro ⟨r, hr, hstart, hstop⟩
    have hrun := (hmem r).1 hr
    exact ⟨Nat.lt_of_lt_of_le hstop hrun.fits, hrun.filled i hstart hstop⟩
  · rintro ⟨-, hi⟩
    exact hfinds.covers i (Nat.zero_le _) hi

/-- A memory with runs at both of its ends, one of them a single byte. -/
def edged : Memory := ⟨⟨#[1, 0, 2, 3, 0, 0, 4]⟩, none⟩

/-- A zeroed memory into which the bytes of these runs were written. -/
def rewritten : Memory :=
  (((⟨zeros 7, none⟩ : Memory).setBytes 6 [4]).setBytes 2 [2, 3]).setBytes 0 [1]

theorem initializedRanges_exact_edged :
    edged.initializedRanges = [⟨0, 1⟩, ⟨2, 4⟩, ⟨6, 7⟩] ∧ edged.IsRun ⟨2, 4⟩ ∧
      rewritten.bytes = edged.bytes := by
  have hranges : edged.initializedRanges = [⟨0, 1⟩, ⟨2, 4⟩, ⟨6, 7⟩] := by decide +kernel
  have hsame : rewritten.initializedRanges = edged.initializedRanges := by decide +kernel
  have hread : ∀ r ∈ edged.initializedRanges, ∀ i, r.start ≤ i → i < r.stop →
      rewritten.byteAt i = edged.byteAt i := by
    have hall : ∀ i < edged.length, rewritten.byteAt i = edged.byteAt i := by decide +kernel
    intro r hr i _ hi
    have hfits := (((initializedRanges_exact edged).1 r).1 hr).fits
    exact hall i (Nat.lt_of_lt_of_le hi hfits)
  have hlength : rewritten.length = edged.length := by decide +kernel
  obtain ⟨hmem, -, -, hbytes⟩ := initializedRanges_exact edged
  refine ⟨hranges, (hmem ⟨2, 4⟩).1 ?_, hbytes rewritten hlength hsame hread⟩
  rw [hranges]
  exact List.mem_cons_of_mem _ List.mem_cons_self

end Memory

end WasmCore
