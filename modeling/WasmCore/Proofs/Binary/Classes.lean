import Mathlib.Logic.Basic
import WasmCore.Proofs.Binary.RoundTrip

/-!
# Classes of decoding errors

The bytes of a stream are one of three things (`stream_cases`): the module is to blame for
something in them, whatever follows them (`Refused`); or they end inside of the header, or inside of
a section when all that stands before it is right (`RunsOut`); or they are complete sections that
can be decoded (`Complete`). Running out of the bytes of a complete section is no case of the
second.

So a stream that is read to its end without a failure is either decoded or refused, and if it is
refused then either the module is to blame or the stream has run out (`decode_classes`).
-/

namespace WasmCore.Binary

/-! ### Three kinds of streams -/

/-- The bytes start with these complete sections, and the others are left. -/
inductive Sections : List UInt8 → List Frame → List UInt8 → Prop
  | nil (bytes : List UInt8) : Sections bytes [] bytes
  | cons {bytes left left' : List UInt8} {fs : List Frame} (b : UInt8) (payload : List UInt8)
    (hsize : Leb128.decodeUnsigned 32 bytes = (.ok payload.length, payload ++ left))
    (hrest : Sections left fs left') :
    Sections (b :: bytes) (⟨.ofByte b, payload⟩ :: fs) left'

/-- After the id of a section, the bytes end inside of its size or before the end of its payload. -/
inductive Cut (bytes : List UInt8) : Prop
  | size (hlength : bytes.length < 5) (h : ∀ b ∈ bytes, Leb128.continues b = true)
  | payload {size : Nat} {left : List UInt8}
    (hsize : Leb128.decodeUnsigned 32 bytes = (.ok size, left)) (h : left.length < size)

/-- The bytes end inside of the header, or inside of a section after others that are right. -/
inductive RunsOut : List UInt8 → Prop
  | magic {bytes : List UInt8} (h : bytes.length < 4) : RunsOut bytes
  | version {bytes : List UInt8} (hmagic : magicNumber <+: bytes) (h : bytes.length < 8) :
    RunsOut bytes
  | section {bytes rest : List UInt8} {fs : List Frame} {d : Draft} {b : UInt8}
    (hfs : Sections bytes fs (b :: rest)) (hd : Draft.addAll {} fs = (d, none)) (h : Cut rest) :
    RunsOut (header ++ bytes)

/-- The bytes are the header and complete sections that are decoded to this draft. -/
def Complete (bytes : List UInt8) (d : Draft) : Prop :=
  ∃ body fs, bytes = header ++ body ∧ Sections body fs [] ∧ Draft.addAll {} fs = (d, none)

/-- Whatever follows the bytes, the stream is refused with this error. -/
def Refused (bytes : List UInt8) (e : DecodeError) : Prop :=
  ∀ rest ending, decode ⟨bytes ++ rest, ending⟩ = .error e

/-! ### Errors -/

/-- The module is to blame, and for more than that functions and codes differ in number, which shows
only at the end of the stream. -/
def DecodeError.isEarly : DecodeError → Bool
  | .invalid (.flaw (.lengthsDiffer _ _)) => false
  | e => e.kind.isInvalid

theorem DecodeError.isInvalid_of_isEarly {e : DecodeError} (h : e.isEarly = true) :
    e.kind.isInvalid = true := by
  unfold isEarly at h
  split at h
  · cases h
  · exact h

/-- The error is `cause`, met at any number of places. -/
inductive DecodeError.Wraps (cause : DecodeError) : DecodeError → Prop
  | self : Wraps cause cause
  | within {e : DecodeError} (place : Place) (h : Wraps cause e) : Wraps cause (.within place e)

theorem DecodeError.Wraps.kind {cause e : DecodeError} (h : cause.Wraps e) :
    e.kind = cause.kind := by
  induction h with
  | self => rfl
  | within _ _ ih => exact ih

/-! ### Headers -/

theorem headerField_error {place : Place} {bytes : List UInt8} {ending : Ending}
    (h : bytes.length < 4) :
    headerField place ⟨bytes, ending⟩ = .error (.within place ending.error) := by
  have hshort : ¬ hasBytes 4 bytes = true := by
    rw [hasBytes_iff]
    omega
  rw [headerField, if_neg hshort]

theorem headerField_append {place : Place} {field bytes : List UInt8} {ending : Ending}
    (h : field.length = 4) :
    headerField place ⟨field ++ bytes, ending⟩ = .ok (field, ⟨bytes, ending⟩) := by
  have hlong : hasBytes 4 (field ++ bytes) = true := by
    rw [hasBytes_iff, List.length_append]
    omega
  rw [headerField, if_pos hlong, List.take_left' h, List.drop_left' h]

/-- After the first four bytes the version is read if they are right. -/
theorem readHeader_append {magic rest : List UInt8} {ending : Ending} (h : magic.length = 4) :
    readHeader ⟨magic ++ rest, ending⟩ =
      if magic = magicNumber then
        (headerField .version ⟨rest, ending⟩).bind fun r =>
          if r.1 = formatVersion then .ok r.2 else .error (.version r.1)
      else .error .magic := by
  rw [readHeader, headerField_append h]
  rfl

/-- A stream that ends inside of the magic number. -/
theorem readHeader_of_short {bytes : List UInt8} (h : bytes.length < 4) (ending : Ending) :
    readHeader ⟨bytes, ending⟩ = .error (.within .magic ending.error) := by
  rw [readHeader, headerField_error h]
  rfl

/-- A stream that ends after the magic number, before or inside of the version. -/
theorem readHeader_of_magic {bytes : List UInt8} (hmagic : magicNumber <+: bytes)
    (h : bytes.length < 8) (ending : Ending) :
    readHeader ⟨bytes, ending⟩ = .error (.within .version ending.error) := by
  obtain ⟨version, rfl⟩ := hmagic
  have hversion : version.length < 4 := by
    rw [List.length_append] at h
    exact Nat.lt_of_add_lt_add_left h
  rw [readHeader_append rfl, if_pos rfl, headerField_error hversion]
  rfl

theorem exists_field {bytes : List UInt8} (h : ¬ bytes.length < 4) :
    ∃ field rest, field.length = 4 ∧ bytes = field ++ rest :=
  ⟨bytes.take 4, bytes.drop 4, List.length_take_of_le (by omega),
    (List.take_append_drop 4 _).symm⟩

/-- What becomes of the header: the bytes end inside of it, it is wrong, or it is right. -/
theorem readHeader_cases (bytes : List UInt8) :
    bytes.length < 4 ∨ (magicNumber <+: bytes ∧ bytes.length < 8) ∨
    (∃ e, (∀ rest ending, readHeader ⟨bytes ++ rest, ending⟩ = .error e) ∧ e.isEarly = true) ∨
    ∃ rest, bytes = header ++ rest := by
  by_cases hmagic : bytes.length < 4
  · exact .inl hmagic
  obtain ⟨magic, rest, hm, rfl⟩ := exists_field hmagic
  refine .inr ?_
  by_cases hright : magic = magicNumber
  · subst hright
    by_cases hversion : rest.length < 4
    · refine .inl ⟨List.prefix_append _ _, ?_⟩
      rw [List.length_append]
      omega
    · obtain ⟨version, rest, hv, rfl⟩ := exists_field hversion
      by_cases hformat : version = formatVersion
      · exact .inr (.inr ⟨rest, by rw [hformat, header, List.append_assoc]⟩)
      · refine .inr (.inl ⟨.version version, fun rest' ending => ?_, rfl⟩)
        rw [List.append_assoc, readHeader_append rfl, if_pos rfl, List.append_assoc,
          headerField_append hv]
        exact if_neg hformat
  · refine .inr (.inl ⟨.magic, fun rest' ending => ?_, rfl⟩)
    rw [List.append_assoc, readHeader_append hm, if_neg hright]

/-! ### Sections -/

variable {bytes left rest : List UInt8} {fs : List Frame} {b : UInt8} {ending : Ending}

/-- A complete section is cut off. -/
theorem framesFrom_section {payload : List UInt8}
    (hsize : Leb128.decodeUnsigned 32 bytes = (.ok payload.length, payload ++ left))
    (b : UInt8) (fuel : Nat) :
    framesFrom ending (fuel + 1) (b :: bytes) =
      (⟨.ofByte b, payload⟩ :: (framesFrom ending fuel left).1,
        (framesFrom ending fuel left).2) := by
  simp only [framesFrom, sectionSize, hsize, sectionPayload_append]

/-- Inside of a section the stream is truncated, unless it failed. -/
theorem framesFrom_cut (h : Cut rest) (b : UInt8) :
    ∃ e, (∀ fuel, framesFrom ending (fuel + 1) (b :: rest) = ([], some e)) ∧
      ending.error.Wraps e := by
  cases h with
  | size hlength hall =>
    have hend : (Leb128.decodeUnsigned 32 rest).1 = .error .endOfInput :=
      Leb128.decodeUnsigned_endOfInput.2 ⟨by omega, hall⟩
    obtain ⟨left, hd⟩ : ∃ left, Leb128.decodeUnsigned 32 rest = (.error .endOfInput, left) :=
      ⟨_, Prod.ext hend rfl⟩
    simp only [framesFrom, sectionSize, hd]
    cases ending with
    | clean => exact ⟨_, fun _ => rfl, .within _ .self⟩
    | failing reason => exact ⟨_, fun _ => rfl, .within _ (.within _ .self)⟩
  | @payload size left hsize hshort =>
    have hno : ¬ hasBytes size left = true := by
      rw [hasBytes_iff]
      omega
    simp only [framesFrom, sectionSize, hsize, sectionPayload, if_neg hno]
    cases ending <;> exact ⟨_, fun _ => rfl, .within _ .self⟩

/-- After a size that is no number no more sections are cut off. -/
theorem framesFrom_overflow (h : Leb128.decodeUnsigned 32 rest = (.error .overflow, left))
    (b : UInt8) (fuel : Nat) : framesFrom ending (fuel + 1) (b :: rest) =
      ([], some (.within (.sectionSize (.ofByte b)) (.invalid .overflow))) := by
  simp only [framesFrom, sectionSize, h]

/-- What becomes of the bytes after the id of a section: the section is complete, the bytes end
inside of it, or its size is no number. -/
theorem section_cases (rest : List UInt8) :
    (∃ payload left, Leb128.decodeUnsigned 32 rest = (.ok payload.length, payload ++ left)) ∨
    Cut rest ∨ ∃ left, Leb128.decodeUnsigned 32 rest = (.error .overflow, left) := by
  cases hd : Leb128.decodeUnsigned 32 rest with
  | mk result left =>
    match result with
    | .ok size =>
      by_cases hshort : left.length < size
      · exact .inr (.inl (.payload hd hshort))
      · refine .inl ⟨left.take size, left.drop size, ?_⟩
        rw [List.length_take_of_le (by omega), List.take_append_drop]
    | .error .endOfInput =>
      have hend : (Leb128.decodeUnsigned 32 rest).1 = .error .endOfInput := by rw [hd]
      obtain ⟨hlength, hall⟩ := Leb128.decodeUnsigned_endOfInput.1 hend
      exact .inr (.inl (.size (by omega) hall))
    | .error .overflow => exact .inr (.inr ⟨left, rfl⟩)

theorem Sections.framesFrom (h : Sections bytes fs left) {fuel : Nat}
    (hfuel : bytes.length ≤ fuel) :
    ∃ fuel', left.length ≤ fuel' ∧ framesFrom ending fuel bytes =
      (fs ++ (framesFrom ending fuel' left).1, (framesFrom ending fuel' left).2) := by
  induction h generalizing fuel with
  | nil bytes => exact ⟨fuel, hfuel, rfl⟩
  | @cons bytes left left' fs b payload hsize hrest ih =>
    obtain ⟨-, hlength⟩ := Leb128.decodeUnsigned_spec hsize
    rw [List.length_append] at hlength
    rw [List.length_cons] at hfuel
    obtain ⟨fuel, rfl⟩ := Nat.exists_eq_add_of_lt (Nat.zero_lt_of_lt hfuel)
    have hshorter : left.length ≤ 0 + fuel := by omega
    obtain ⟨fuel', hfuel', hframes⟩ := ih hshorter
    refine ⟨fuel', hfuel', ?_⟩
    rw [framesFrom_section hsize, hframes, List.cons_append]

/-- What follows the bytes is left after them. -/
theorem Sections.append (h : Sections bytes fs left) (rest : List UInt8) :
    Sections (bytes ++ rest) fs (left ++ rest) := by
  induction h with
  | nil bytes => exact .nil _
  | @cons bytes left left' fs b payload hsize _ ih =>
    have hread : (Leb128.decodeUnsigned 32 bytes).1 ≠ .error .endOfInput := by
      rw [hsize]
      nofun
    have hsize' := Leb128.decodeUnsigned_append hread rest
    rw [hsize, List.append_assoc] at hsize'
    exact .cons b payload hsize' ih

/-- All bytes belong to complete sections, up to those that end inside of another section or have
a size that is no number. -/
theorem exists_sections (bytes : List UInt8) :
    ∃ fs left, Sections bytes fs left ∧ (left = [] ∨ ∃ b rest, left = b :: rest ∧
      (Cut rest ∨ ∃ left, Leb128.decodeUnsigned 32 rest = (.error .overflow, left))) := by
  induction hlength : bytes.length using Nat.strongRecOn generalizing bytes with
  | ind n ih =>
    cases bytes with
    | nil => exact ⟨[], [], .nil _, .inl rfl⟩
    | cons b rest =>
      rcases section_cases rest with ⟨payload, left, hsize⟩ | hstop
      · obtain ⟨-, hshorter⟩ := Leb128.decodeUnsigned_spec hsize
        rw [List.length_append] at hshorter
        rw [List.length_cons] at hlength
        obtain ⟨fs, left', hsections, hleft⟩ := ih left.length (by omega) left rfl
        exact ⟨_, left', .cons b payload hsize hsections, hleft⟩
      · exact ⟨[], _, .nil _, .inr ⟨b, rest, rfl, hstop⟩⟩

/-! ### Drafts -/

theorem isInvalid_malformed (e : DecodeError) : e.malformed.kind.isInvalid = true := by
  unfold DecodeError.malformed
  split
  · assumption
  · rfl

namespace Draft

variable {d d' : Draft} {f : Frame} {e : DecodeError}

/-- Whatever a section fails with, the module is to blame. -/
theorem add_isEarly (h : d.add f = .error e) : e.isEarly = true := by
  unfold add at h
  split at h
  · cases h
    rfl
  · split at h
    · rename_i e' _
      cases h
      exact isInvalid_malformed e'
    · split at h
      · cases h
      · cases h
        rfl

theorem add_error (h : d.add f = .error e) : e.kind.isInvalid = true :=
  DecodeError.isInvalid_of_isEarly (add_isEarly h)

theorem addAll_isEarly {fs : List Frame} (h : d.addAll fs = (d', some e)) : e.isEarly = true := by
  induction fs generalizing d with
  | nil => cases h
  | cons f fs ih =>
    rw [addAll] at h
    split at h
    · rename_i hadd
      cases h
      exact add_isEarly hadd
    · exact ih h

theorem finish_error (h : d.finish = .error e) :
    ∃ functions codes, e = .invalid (.flaw (.lengthsDiffer functions codes)) := by
  unfold finish at h
  split at h
  · cases h
  · cases h
    exact ⟨_, _, rfl⟩

/-- A section that fails ends the decoding, whatever follows it. -/
theorem addAll_of_add_error {fs : List Frame} (hd : d.addAll fs = (d', none))
    (h : d'.add f = .error e) (gs : List Frame) : d.addAll (fs ++ f :: gs) = (d', some e) := by
  rw [addAll_append hd, addAll, h]

/-- What follows a section that fails does not matter. -/
theorem addAll_of_error {fs : List Frame} (h : d.addAll fs = (d', some e)) (gs : List Frame) :
    d.addAll (fs ++ gs) = (d', some e) := by
  induction fs generalizing d with
  | nil => cases h
  | cons f fs ih =>
    rw [List.cons_append, addAll] at *
    split at h
    · exact h
    · exact ih h

end Draft

/-! ### Modules -/

/-- Decodes sections that were cut off after those of the draft, and finishes the module unless
an error stands after them. -/
def Draft.complete (d : Draft) (cut : List Frame × Option DecodeError) :
    Except DecodeError Module :=
  match d.addAll cut.1, cut.2 with
  | (_, some e), _ => .error e
  | (_, none), some e => .error e
  | (d, none), none => d.finish

theorem decode_eq_complete (s : Stream) :
    decode s = (readHeader s).bind fun rest => Draft.complete {} (frames rest) := by
  rw [decode, decodeWithEvents]
  cases readHeader s with
  | error e => rfl
  | ok rest =>
    simp only [Except.bind, Draft.complete]
    rcases Draft.addAll {} (frames rest).1 with ⟨d, _ | e⟩
    · cases (frames rest).2 <;> rfl
    · rfl

theorem decode_of_readHeader {s : Stream} {e : DecodeError} (h : readHeader s = .error e) :
    decode s = .error e := by
  rw [decode_eq_complete, h]
  rfl

/-- After the header, the sections are decoded, and what stands after the last complete one
matters only if all of these are right. -/
theorem decode_header (bytes : List UInt8) (ending : Ending) : decode ⟨header ++ bytes, ending⟩ =
    match Draft.addAll {} (frames ⟨bytes, ending⟩).1, (frames ⟨bytes, ending⟩).2 with
    | (_, some e), _ => .error e
    | (_, none), some e => .error e
    | (d, none), none => d.finish := by
  rw [decode_eq_complete, readHeader_header]
  rfl

namespace Sections

/-- The sections that are cut off start with the complete ones. -/
theorem frames (h : Sections bytes fs left) :
    ∃ gs failure, frames ⟨bytes, ending⟩ = (fs ++ gs, failure) := by
  obtain ⟨fuel, -, hframes⟩ := h.framesFrom (Nat.le_refl _)
  exact ⟨_, _, hframes⟩

/-- If no more sections are cut off after the complete ones, what stands there matters. -/
theorem decode_of_framesFrom {d : Draft} {e : DecodeError} (h : Sections bytes fs (b :: rest))
    (hd : Draft.addAll {} fs = (d, none))
    (hlast : ∀ fuel, Binary.framesFrom ending (fuel + 1) (b :: rest) = ([], some e)) :
    decode ⟨header ++ bytes, ending⟩ = .error e := by
  obtain ⟨fuel, hfuel, hframes⟩ := h.framesFrom (Nat.le_refl _)
  rw [List.length_cons] at hfuel
  obtain ⟨fuel, rfl⟩ := Nat.exists_eq_add_of_lt (Nat.zero_lt_of_lt hfuel)
  rw [hlast, List.append_nil] at hframes
  rw [decode_header, Binary.frames, hframes]
  simp only [hd]

/-- A section that cannot be decoded after those before it. -/
theorem refused_of_addAll {d : Draft} {e : DecodeError} (h : Sections bytes fs left)
    (hd : Draft.addAll {} fs = (d, some e)) : Refused (header ++ bytes) e := by
  intro rest ending
  obtain ⟨gs, failure, hframes⟩ := (h.append rest).frames
  rw [List.append_assoc, decode_header, hframes, Draft.addAll_of_error hd]

/-- A section whose size is no number. -/
theorem refused_of_overflow {d : Draft} (h : Sections bytes fs (b :: rest))
    (hd : Draft.addAll {} fs = (d, none))
    (hsize : Leb128.decodeUnsigned 32 rest = (.error .overflow, left)) :
    Refused (header ++ bytes) (.within (.sectionSize (.ofByte b)) (.invalid .overflow)) := by
  intro rest' ending
  have hread : (Leb128.decodeUnsigned 32 rest).1 ≠ .error .endOfInput := by
    rw [hsize]
    nofun
  have hsize' := Leb128.decodeUnsigned_append hread rest'
  rw [hsize] at hsize'
  rw [List.append_assoc]
  exact (h.append rest').decode_of_framesFrom hd (framesFrom_overflow hsize' b)

end Sections

/-- A stream that runs out is truncated, unless it failed. -/
theorem RunsOut.decode (h : RunsOut bytes) (ending : Ending) :
    ∃ e, decode ⟨bytes, ending⟩ = .error e ∧ ending.error.Wraps e := by
  cases h with
  | magic hlength =>
    exact ⟨_, decode_of_readHeader (readHeader_of_short hlength ending), .within _ .self⟩
  | version hmagic hlength =>
    exact ⟨_, decode_of_readHeader (readHeader_of_magic hmagic hlength ending), .within _ .self⟩
  | «section» hfs hd hcut =>
    obtain ⟨e, hlast, hwraps⟩ := framesFrom_cut hcut _
    exact ⟨e, hfs.decode_of_framesFrom hd hlast, hwraps⟩

theorem RunsOut.truncated (h : RunsOut bytes) :
    ∃ e, Binary.decode ⟨bytes, .clean⟩ = .error e ∧ e.kind = .truncated := by
  obtain ⟨e, he, hwraps⟩ := h.decode .clean
  exact ⟨e, he, hwraps.kind⟩

/-- What becomes of a stream: the module is to blame whatever follows, or the bytes end inside of
something, or they are complete sections. -/
theorem stream_cases (bytes : List UInt8) :
    (∃ e, Refused bytes e ∧ e.isEarly = true) ∨ RunsOut bytes ∨ ∃ d, Complete bytes d := by
  rcases readHeader_cases bytes with hshort | ⟨hmagic, hshort⟩ | ⟨e, he, hearly⟩ | ⟨body, rfl⟩
  · exact .inr (.inl (.magic hshort))
  · exact .inr (.inl (.version hmagic hshort))
  · exact .inl ⟨e, fun rest ending => decode_of_readHeader (he rest ending), hearly⟩
  obtain ⟨fs, left, hsections, hleft⟩ := exists_sections body
  cases hd : Draft.addAll {} fs with
  | mk d flaw =>
    cases flaw with
    | some e => exact .inl ⟨e, hsections.refused_of_addAll hd, Draft.addAll_isEarly hd⟩
    | none =>
      rcases hleft with rfl | ⟨b, rest, rfl, hcut | ⟨left, hoverflow⟩⟩
      · exact .inr (.inr ⟨d, body, fs, rfl, hsections, hd⟩)
      · exact .inr (.inl (.section hsections hd hcut))
      · exact .inl ⟨_, hsections.refused_of_overflow hd hoverflow, rfl⟩

theorem Refused.decode {e : DecodeError} (h : Refused bytes e) (ending : Ending) :
    Binary.decode ⟨bytes, ending⟩ = .error e := by
  have hall := h [] ending
  rwa [List.append_nil] at hall

/-- Complete sections are the whole module if nothing follows them. -/
theorem Complete.decode {d : Draft} (h : Complete bytes d) :
    Binary.decode ⟨bytes, .clean⟩ = d.finish := by
  obtain ⟨body, fs, rfl, hsections, hd⟩ := h
  obtain ⟨fuel, -, hframes⟩ := hsections.framesFrom (Nat.le_refl _)
  have hlast : Binary.framesFrom .clean fuel [] = ([], none) := by cases fuel <;> rfl
  rw [hlast, List.append_nil] at hframes
  rw [decode_header, Binary.frames, hframes]
  simp only [hd]

/-- If reading fails after complete sections, the id of the next one cannot be read. -/
theorem Complete.decode_failing {d : Draft} (h : Complete bytes d) (reason : String) :
    Binary.decode ⟨bytes, .failing reason⟩ = .error (.within .sectionId (.source reason)) := by
  obtain ⟨body, fs, rfl, hsections, hd⟩ := h
  obtain ⟨fuel, -, hframes⟩ := hsections.framesFrom (Nat.le_refl _)
  have hlast : Binary.framesFrom (.failing reason) fuel [] =
    ([], some (.within .sectionId (.source reason))) := by cases fuel <;> rfl
  rw [hlast, List.append_nil] at hframes
  rw [decode_header, Binary.frames, hframes]
  simp only [hd]

/-- A stream is decoded, or the module is to blame, or the stream runs out. -/
theorem decode_cases (bytes : List UInt8) :
    (∃ m, decode ⟨bytes, .clean⟩ = .ok m) ∨
    (∃ e, decode ⟨bytes, .clean⟩ = .error e ∧ e.kind.isInvalid = true) ∨ RunsOut bytes := by
  rcases stream_cases bytes with ⟨e, hrefused, hearly⟩ | hout | ⟨d, hcomplete⟩
  · exact .inr (.inl ⟨e, hrefused.decode .clean, DecodeError.isInvalid_of_isEarly hearly⟩)
  · exact .inr (.inr hout)
  · cases hfinish : d.finish with
    | ok m => exact .inl ⟨m, hcomplete.decode.trans hfinish⟩
    | error e =>
      obtain ⟨functions, codes, rfl⟩ := Draft.finish_error hfinish
      exact .inr (.inl ⟨_, hcomplete.decode.trans hfinish, rfl⟩)

/-- **Decoding errors are classified exactly.** A stream is decoded, or the module is to blame, or
the stream is truncated, and it is truncated exactly if it runs out. Whatever the contents of
a complete section fail with, be it the end of their bytes, the module is to blame. -/
theorem decode_classes (bytes : List UInt8) :
    ((∃ m, decode ⟨bytes, .clean⟩ = .ok m) ∨ ∃ e, decode ⟨bytes, .clean⟩ = .error e ∧
      Xor (e.kind.isInvalid = true) (e.kind = .truncated)) ∧
    ((∃ e, decode ⟨bytes, .clean⟩ = .error e ∧ e.kind = .truncated) ↔ RunsOut bytes) ∧
    ∀ body fs f gs left d e, bytes = header ++ body → Sections body (fs ++ f :: gs) left →
      Draft.addAll {} fs = (d, none) → f.id ∉ d.seen →
      sectionContents d.module f.id f.payload = .error e →
      ∃ e', decode ⟨bytes, .clean⟩ = .error e' ∧ e' = .within (.inSection f.id) e.malformed ∧
        e'.kind.isInvalid = true ∧ e'.kind ≠ .truncated ∧ e'.kind ≠ .endOfInput := by
  have hdisjoint {e : DecodeError} (h : e.kind.isInvalid = true) : e.kind ≠ .truncated := by
    intro htruncated
    rw [htruncated] at h
    cases h
  refine ⟨?_, ⟨?_, RunsOut.truncated⟩, ?_⟩
  · rcases decode_cases bytes with hm | ⟨e, he, hkind⟩ | hout
    · exact .inl hm
    · exact .inr ⟨e, he, .inl ⟨hkind, hdisjoint hkind⟩⟩
    · obtain ⟨e, he, hkind⟩ := hout.truncated
      exact .inr ⟨e, he, .inr ⟨hkind, fun hinvalid => hdisjoint hinvalid hkind⟩⟩
  · rintro ⟨e, he, hkind⟩
    rcases decode_cases bytes with ⟨m, hm⟩ | ⟨e', he', hinvalid⟩ | hout
    · cases he.symm.trans hm
    · cases he.symm.trans he'
      exact absurd hkind (hdisjoint hinvalid)
    · exact hout
  · rintro body fs f gs left d e rfl hsections hd hseen hfail
    have hadd : d.add f = .error (.within (.inSection f.id) e.malformed) := by
      rw [Draft.add, if_neg hseen, hfail]
    have hinvalid := Draft.add_error hadd
    obtain ⟨hs, failure, hframes⟩ := hsections.frames
    refine ⟨_, ?_, rfl, hinvalid, hdisjoint hinvalid, ?_⟩
    · rw [decode_header, hframes, List.append_assoc, List.cons_append,
        Draft.addAll_of_add_error hd hadd]
    · intro hend
      rw [hend] at hinvalid
      cases hinvalid

/-- A section of functions that ends inside of a type index. -/
def endingInIndex : Frame := ⟨.functions, [1, 0x80]⟩

theorem decode_classes_endingInIndex :
    (∃ e, sectionContents {} .functions endingInIndex.payload = .error e ∧ e.kind = .endOfInput ∧
      decode ⟨header ++ [3, 2, 1, 0x80], .clean⟩ =
        .error (.within (.inSection .functions) (.invalid e))) ∧
    (∃ e, decode ⟨header ++ [3, 2, 1], .clean⟩ = .error e ∧ e.kind = .truncated) ∧
    RunsOut (header ++ [3, 2, 1]) := by
  have hsections : Sections [3, 2, 1, 0x80] ([] ++ endingInIndex :: []) [] :=
    .cons 3 [1, 0x80] rfl (.nil [])
  obtain ⟨-, -, hcontents⟩ := decode_classes (header ++ [3, 2, 1, 0x80])
  obtain ⟨-, hout, -⟩ := decode_classes (header ++ [3, 2, 1])
  have htruncated : ∃ e, decode ⟨header ++ [3, 2, 1], .clean⟩ = .error e ∧ e.kind = .truncated :=
    ⟨_, rfl, rfl⟩
  refine ⟨⟨.within .typeIndex (.within .integer .endOfInput), rfl, rfl, ?_⟩, htruncated,
    hout.1 htruncated⟩
  obtain ⟨e', he', heq, -⟩ := hcontents _ _ _ _ _ {} _ rfl hsections rfl nofun rfl
  rw [he', heq]
  rfl

end WasmCore.Binary
