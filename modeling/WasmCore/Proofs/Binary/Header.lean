import WasmCore.Proofs.Binary.Classes

/-!
# Headers

The header is read and judged in two steps of four bytes: the magic number, then the version. A
complete header is accepted exactly if it is right, and otherwise the module is to blame. A header
that is cut off is truncated, unless a complete magic number in it is wrong (`readHeader_exact`):
then the module is to blame although the stream ends before the version
(`readHeader_wrongAndShort`).
-/

namespace WasmCore.Binary

variable {bytes : List UInt8}

/-- The bytes start with the magic number, or end inside of it. -/
def StartsRight (bytes : List UInt8) : Prop := bytes.length < 4 ∨ magicNumber <+: bytes

/-- Truncation is found if nothing before it is wrong. -/
theorem readHeader_of_startsRight (h : StartsRight bytes) (hshort : bytes.length < 8) :
    ∃ e, readHeader ⟨bytes, .clean⟩ = .error e ∧ DecodeError.Wraps .truncated e := by
  by_cases hmagic : bytes.length < 4
  · exact ⟨_, readHeader_of_short hmagic .clean, .within _ .self⟩
  · exact ⟨_, readHeader_of_magic (h.resolve_left hmagic) hshort .clean, .within _ .self⟩

/-- A wrong magic number is found before anything else is read. -/
theorem readHeader_of_not_startsRight (h : ¬ StartsRight bytes) (ending : Ending) :
    readHeader ⟨bytes, ending⟩ = .error .magic := by
  obtain ⟨hlong, hprefix⟩ := not_or.1 h
  obtain ⟨magic, rest, hm, rfl⟩ := exists_field hlong
  have hwrong : magic ≠ magicNumber := by
    rintro rfl
    exact hprefix (List.prefix_append _ _)
  rw [readHeader_append hm, if_neg hwrong]

/-- A complete header is right and accepted, or wrong and refused. -/
theorem readHeader_of_complete (h : 8 ≤ bytes.length) (ending : Ending) :
    (bytes.take 8 = header ∧ readHeader ⟨bytes, ending⟩ = .ok ⟨bytes.drop 8, ending⟩) ∨
    (bytes.take 8 ≠ header ∧
      ∃ e, readHeader ⟨bytes, ending⟩ = .error e ∧ e.kind.isInvalid = true) := by
  have hfirst : ¬ bytes.length < 4 := by omega
  obtain ⟨magic, tail, hm, rfl⟩ := exists_field hfirst
  rw [List.length_append, hm] at h
  have hsecond : ¬ tail.length < 4 := by omega
  obtain ⟨version, rest, hv, rfl⟩ := exists_field hsecond
  have hlength : (magic ++ version).length = 8 := by rw [List.length_append, hm, hv]
  have htake : (magic ++ (version ++ rest)).take 8 = magic ++ version := by
    rw [← List.append_assoc, List.take_left' hlength]
  have hdrop : (magic ++ (version ++ rest)).drop 8 = rest := by
    rw [← List.append_assoc, List.drop_left' hlength]
  have hright : magic ++ version = header ↔ magic = magicNumber ∧ version = formatVersion :=
    ⟨fun heq => List.append_inj heq hm, fun heq => by rw [heq.1, heq.2, header]⟩
  rw [htake, hdrop, readHeader_append hm, headerField_append hv, Except.bind, Ne, hright]
  by_cases hmagic : magic = magicNumber
  · rw [if_pos hmagic]
    by_cases hversion : version = formatVersion
    · exact .inl ⟨⟨hmagic, hversion⟩, if_pos hversion⟩
    · exact .inr ⟨fun hboth => hversion hboth.2, _, if_neg hversion, rfl⟩
  · rw [if_neg hmagic]
    exact .inr ⟨fun hboth => hmagic hboth.1, _, rfl, rfl⟩

/-- **What becomes of a header.** If it is cut off, the stream is truncated and no module is blamed,
provided that the magic number is right as far as it can be judged; otherwise the magic number is
blamed. If it is complete, it is accepted exactly if it is right, and what follows it is left;
otherwise the module is to blame. -/
theorem readHeader_exact (bytes : List UInt8) :
    (bytes.length < 8 → ∃ e, readHeader ⟨bytes, .clean⟩ = .error e ∧
      decode ⟨bytes, .clean⟩ = .error e ∧
      (StartsRight bytes → DecodeError.Wraps .truncated e ∧ e.kind.isInvalid = false) ∧
      (¬ StartsRight bytes → e = .magic)) ∧
    (8 ≤ bytes.length →
      (∀ s, readHeader ⟨bytes, .clean⟩ = .ok s ↔
        bytes.take 8 = header ∧ s = ⟨bytes.drop 8, .clean⟩) ∧
      (bytes.take 8 ≠ header → ∃ e, readHeader ⟨bytes, .clean⟩ = .error e ∧
        decode ⟨bytes, .clean⟩ = .error e ∧ e.kind.isInvalid = true)) := by
  constructor
  · intro hshort
    by_cases hstart : StartsRight bytes
    · obtain ⟨e, he, hwraps⟩ := readHeader_of_startsRight hstart hshort
      have hkind : e.kind = .truncated := hwraps.kind
      exact ⟨e, he, decode_of_readHeader he, fun _ => ⟨hwraps, by rw [hkind]; rfl⟩,
        fun hwrong => absurd hstart hwrong⟩
    · have he := readHeader_of_not_startsRight hstart .clean
      exact ⟨_, he, decode_of_readHeader he, fun hright => absurd hright hstart, fun _ => rfl⟩
  · intro hlong
    rcases readHeader_of_complete hlong .clean with ⟨hright, hok⟩ | ⟨hwrong, e, he, hkind⟩
    · refine ⟨fun s => ?_, fun hwrong => absurd hright hwrong⟩
      rw [hok, Except.ok.injEq, eq_comm]
      exact (and_iff_right hright).symm
    · refine ⟨fun s => ?_, fun _ => ⟨e, he, decode_of_readHeader he, hkind⟩⟩
      rw [he]
      exact iff_of_false nofun fun hright => hwrong hright.1

theorem readHeader_exact_cutOff :
    (∃ e, readHeader ⟨magicNumber ++ [1, 0], .clean⟩ = .error e ∧
      DecodeError.Wraps .truncated e ∧ e.kind.isInvalid = false) ∧
    readHeader ⟨header ++ [3, 2], .clean⟩ = .ok ⟨[3, 2], .clean⟩ ∧
    ∃ e, readHeader ⟨magicNumber ++ [2, 0, 0, 0], .clean⟩ = .error e ∧
      e.kind.isInvalid = true := by
  obtain ⟨e, he, -, hcut, -⟩ := (readHeader_exact (magicNumber ++ [1, 0])).1 (by decide)
  obtain ⟨hok, -⟩ := (readHeader_exact (header ++ [3, 2])).2 (by decide)
  obtain ⟨-, hwrong⟩ := (readHeader_exact (magicNumber ++ [2, 0, 0, 0])).2 (by decide)
  obtain ⟨e', he', -, hkind⟩ := hwrong (by decide)
  exact ⟨⟨e, he, hcut (.inr (List.prefix_append _ _))⟩, (hok _).2 ⟨rfl, rfl⟩, e', he', hkind⟩

/-- Five bytes that do not start a module. -/
def wrongAndShort : List UInt8 := [0x62, 0x6f, 0x67, 0x75, 0x73]

/-- **A wrong magic number is blamed although the header is cut off.** The stream ends before the
version, but that is not what is reported. -/
theorem readHeader_wrongAndShort : wrongAndShort.length < 8 ∧
    ∃ e, readHeader ⟨wrongAndShort, .clean⟩ = .error e ∧
      decode ⟨wrongAndShort, .clean⟩ = .error e ∧
      ¬ DecodeError.Wraps .truncated e ∧ e.kind.isInvalid = true :=
  ⟨by decide, .magic, rfl, rfl, nofun, rfl⟩

end WasmCore.Binary
