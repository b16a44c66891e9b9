import WasmCore.Proofs.Binary.Assembly

/-!
# The order of sections

A module is the join of its sections, and sections of different ids can be joined in any order. So
the order of sections does not matter but for that of the custom sections among themselves, and
sections that are passed over can be left out.

`decode_permuted` says this of streams of complete sections, whatever encodings their sizes have.
-/

namespace WasmCore.Binary

/-! ### Joining in another order -/

/-- The section is a custom one. -/
def Frame.isCustom (f : Frame) : Bool := f.id = .custom

namespace Assembles

variable {f : Frame} {fs gs : List Frame} {m n : Module}

/-- A section can be put after others that have other ids. -/
theorem move (hf : f.Yields n) (h : Assembles (fs ++ gs) m) (hid : ∀ g ∈ fs, f.id ≠ g.id) :
    Assembles (fs ++ f :: gs) (n.join m) := by
  obtain ⟨m₁, m₂, hfs, hgs, rfl⟩ := h.of_append
  have hcomm : n.join m₁ = m₁.join n := by
    refine Module.join_comm fun id => ?_
    by_cases hne : id = f.id
    · exact .inr (hfs.sectionCount_eq_zero (hne ▸ hid))
    · exact .inl (hf.sectionCount_eq_zero hne)
  rw [← Module.join_assoc, hcomm, Module.join_assoc]
  exact hfs.append (.cons hf hgs)

end Assembles

variable {f : Frame} {fs as bs gs : List Frame} {m : Module}

/-- If `f` is the first of some sections with different keys, and has been moved behind others
without changing the order of custom sections, then these others have other ids. -/
theorem id_ne_of_moved (hfresh : ∀ g ∈ as, g.key ≠ f.key)
    (hcustom : (f :: fs).filter Frame.isCustom = (as ++ f :: bs).filter Frame.isCustom) :
    ∀ g ∈ as, f.id ≠ g.id := by
  intro g hg heq
  by_cases hf : f.id = .custom
  · -- the first custom section is `f`, so it would be among the others
    obtain ⟨g', as', has⟩ : ∃ g' as', as.filter Frame.isCustom = g' :: as' :=
      List.exists_cons_of_ne_nil
        (List.ne_nil_of_mem (List.mem_filter.2 ⟨hg, by simp [Frame.isCustom, ← heq, hf]⟩))
    have hg' : g' ∈ as.filter Frame.isCustom := has ▸ List.mem_cons_self
    rw [List.filter_append, has, List.filter_cons_of_pos (by simp [Frame.isCustom, hf])] at hcustom
    obtain rfl : f = g' := (List.cons.inj hcustom).1
    exact hfresh f (List.mem_filter.1 hg').1 rfl
  · exact hfresh g hg
      (Prod.ext heq.symm ((name?_of_ne (heq ▸ hf)).trans (name?_of_ne hf).symm))

/-- The custom sections other than `f` are in the same order. -/
theorem filter_eq_of_moved (hid : ∀ g ∈ as, f.id ≠ g.id)
    (hcustom : (f :: fs).filter Frame.isCustom = (as ++ f :: bs).filter Frame.isCustom) :
    fs.filter Frame.isCustom = (as ++ bs).filter Frame.isCustom := by
  by_cases hf : f.isCustom = true
  · have has : as.filter Frame.isCustom = [] := by
      simp only [Frame.isCustom, decide_eq_true_eq] at hf
      simpa [Frame.isCustom, hf, eq_comm] using hid
    simpa [List.filter_append, has, hf] using hcustom
  · simpa [List.filter_append, hf] using hcustom

namespace Assembles

/-- Sections with different keys are the same module in any order that keeps the custom sections in
theirs. -/
theorem perm (h : Assembles fs m) (hdistinct : (fs.map Frame.key).Nodup) (hperm : fs.Perm gs)
    (hcustom : fs.filter Frame.isCustom = gs.filter Frame.isCustom) : Assembles gs m := by
  induction h generalizing gs with
  | nil =>
    rw [hperm.symm.eq_nil]
    exact .nil
  | @cons f n fs m hf _ ih =>
    obtain ⟨as, bs, rfl⟩ := List.append_of_mem (hperm.mem_iff.1 List.mem_cons_self)
    have hrest : fs.Perm (as ++ bs) := (hperm.trans List.perm_middle).cons_inv
    rw [List.map_cons, List.nodup_cons] at hdistinct
    have hfresh : ∀ g ∈ as, g.key ≠ f.key := by
      intro g hg hkey
      refine hdistinct.1 (hkey ▸ List.mem_map_of_mem (hrest.mem_iff.2 ?_))
      exact List.mem_append_left bs hg
    have hid := id_ne_of_moved hfresh hcustom
    exact move hf (ih hdistinct.2 hrest (filter_eq_of_moved hid hcustom)) hid

/-- Sections that are passed over can be left out. -/
theorem sublist (h : Assembles fs m) (hsub : gs.Sublist fs)
    (hkept : gs.filter (fun f => !isSkipped f.id) = fs.filter (fun f => !isSkipped f.id)) :
    Assembles gs m := by
  induction hsub generalizing m with
  | slnil => exact h
  | @cons gs fs f hsub ih =>
    cases h with
    | @cons _ n _ m hf hfs =>
      by_cases hskipped : isSkipped f.id = true
      · rw [hf.eq_empty hskipped, Module.empty_join]
        exact ih hfs (by simpa [hskipped] using hkept)
      · -- more would be kept of `f :: fs` than there is
        have hlength := (hsub.filter fun f => !isSkipped f.id).length_le
        rw [hkept, List.filter_cons_of_pos (by simpa using hskipped), List.length_cons] at hlength
        exact absurd hlength (Nat.not_succ_le_self _)
  | @cons_cons gs fs f _ ih =>
    cases h with
    | cons hf hfs =>
      refine .cons hf (ih hfs ?_)
      by_cases hskipped : isSkipped f.id = true
      · simpa [hskipped] using hkept
      · simpa [hskipped] using hkept

end Assembles

/-! ### Streams of sections -/

/-- A complete section as it stands in a stream. -/
structure RawSection where
  id : UInt8
  /-- Any encoding of the size of the payload. -/
  size : List UInt8
  payload : List UInt8
  reads : Leb128.decodeUnsigned 32 size = (.ok payload.length, []) := by rfl
  deriving DecidableEq

namespace RawSection

/-- The bytes of a section. -/
def bytes (s : RawSection) : List UInt8 := s.id :: (s.size ++ s.payload)

/-- The section that is cut off these bytes. -/
def frame (s : RawSection) : Frame := ⟨.ofByte s.id, s.payload⟩

/-- The section is a custom one. -/
def isCustom (s : RawSection) : Bool := s.frame.isCustom

/-- The section is not a table, global, start or element section. -/
def isKept (s : RawSection) : Bool := !isSkipped s.frame.id

/-- The sections in a row are cut off a stream. -/
theorem sections (ss : List RawSection) :
    Sections (ss.flatMap bytes) (ss.map frame) [] := by
  induction ss with
  | nil => exact .nil []
  | cons s ss ih =>
    have hread : (Leb128.decodeUnsigned 32 s.size).1 ≠ .error .endOfInput := by
      rw [s.reads]
      nofun
    have hsize := Leb128.decodeUnsigned_append hread (s.payload ++ ss.flatMap bytes)
    rw [s.reads, List.nil_append, ← List.append_assoc] at hsize
    exact .cons s.id s.payload hsize ih

theorem filter_map_frame {p : Frame → Bool} (ss : List RawSection) :
    (ss.map frame).filter p = (ss.filter fun s => p s.frame).map frame := List.filter_map

end RawSection

/-- The stream of a module with these sections. -/
def rawStream (ss : List RawSection) : Stream := ⟨header ++ ss.flatMap RawSection.bytes, .clean⟩

/-- A module is decoded from its sections in any order that keeps the custom sections in theirs. -/
theorem decode_rawStream_of_perm {ss ss' : List RawSection} {m : Module} (hperm : ss.Perm ss')
    (hcustom : ss.filter RawSection.isCustom = ss'.filter RawSection.isCustom)
    (h : decode (rawStream ss) = .ok m) : decode (rawStream ss') = .ok m := by
  obtain ⟨hfs, hdistinct, hpaired⟩ := (RawSection.sections ss).decode_eq_ok_iff.1 h
  have hframes : (ss.map RawSection.frame).Perm (ss'.map RawSection.frame) := hperm.map _
  refine (RawSection.sections ss').decode_eq_ok_iff.2 ⟨hfs.perm hdistinct hframes ?_, ?_, hpaired⟩
  · rw [RawSection.filter_map_frame, RawSection.filter_map_frame]
    exact congrArg _ hcustom
  · exact (hframes.map Frame.key).nodup_iff.1 hdistinct

/-- **The order of sections does not matter**, as long as the custom sections keep theirs: what is
decoded from a list of sections is decoded from the permuted list. Table, global, start and element
sections can be left out. -/
theorem decode_permuted (ss : List RawSection) :
    (∀ ss' m, ss.Perm ss' → ss.filter RawSection.isCustom = ss'.filter RawSection.isCustom →
      (decode (rawStream ss) = .ok m ↔ decode (rawStream ss') = .ok m)) ∧
    ∀ ss' m, ss'.Sublist ss → ss'.filter RawSection.isKept = ss.filter RawSection.isKept →
      decode (rawStream ss) = .ok m → decode (rawStream ss') = .ok m := by
  refine ⟨?_, ?_⟩
  · intro ss' m hperm hcustom
    exact ⟨decode_rawStream_of_perm hperm hcustom,
      decode_rawStream_of_perm hperm.symm hcustom.symm⟩
  · intro ss' m hsub hkept h
    obtain ⟨hfs, hdistinct, hpaired⟩ := (RawSection.sections ss).decode_eq_ok_iff.1 h
    have hframes : (ss'.map RawSection.frame).Sublist (ss.map RawSection.frame) := hsub.map _
    refine (RawSection.sections ss').decode_eq_ok_iff.2 ⟨hfs.sublist hframes ?_, ?_, hpaired⟩
    · rw [RawSection.filter_map_frame, RawSection.filter_map_frame]
      exact congrArg _ hkept
    · exact hdistinct.sublist (hframes.map Frame.key)

/-- Two custom sections with a function, its code and its type between and behind them, and a table
section; one size is padded. -/
def scattered : List RawSection :=
  [{ id := 0, size := [2], payload := [1, 0x62] },
    { id := 3, size := [0x82, 0], payload := [1, 0] },
    { id := 4, size := [1], payload := [0] },
    { id := 0, size := [3], payload := [1, 0x61, 7] },
    { id := 10, size := [4], payload := [1, 2, 0, 0x0b] },
    { id := 1, size := [4], payload := [1, 0x60, 0, 0] }]

/-- The same sections in another order. -/
def gathered : List RawSection :=
  [{ id := 1, size := [4], payload := [1, 0x60, 0, 0] },
    { id := 3, size := [0x82, 0], payload := [1, 0] },
    { id := 10, size := [4], payload := [1, 2, 0, 0x0b] },
    { id := 4, size := [1], payload := [0] },
    { id := 0, size := [2], payload := [1, 0x62] },
    { id := 0, size := [3], payload := [1, 0x61, 7] }]

/-- The module that they are decoded to. -/
def gatheredModule : Module where
  types := [⟨[], []⟩]
  functions := [0]
  codes := [⟨[], #[]⟩]
  customs := [⟨"b", []⟩, ⟨"a", [7]⟩]

theorem decode_permuted_scattered :
    scattered.Perm gathered ∧
      scattered.filter RawSection.isCustom = gathered.filter RawSection.isCustom ∧
      decode (rawStream scattered) = .ok gatheredModule ∧
      decode (rawStream gathered) = .ok gatheredModule ∧
      decode (rawStream (gathered.eraseIdx 3)) = .ok gatheredModule := by
  have hperm : scattered.Perm gathered := by decide
  have hcustom : scattered.filter RawSection.isCustom = gathered.filter RawSection.isCustom := rfl
  have hscattered : decode (rawStream scattered) = .ok gatheredModule := rfl
  have hgathered := ((decode_permuted scattered).1 _ _ hperm hcustom).1 hscattered
  exact ⟨hperm, hcustom, hscattered, hgathered,
    (decode_permuted gathered).2 _ _ (List.eraseIdx_sublist ..) rfl hgathered⟩

end WasmCore.Binary
