import WasmCore.Proofs.Binary.Reader

/-!
# Streams that fail

What becomes of bytes if reading fails after the last of them. Either there is something in them for
which the module is refused whatever follows (`FoundIn`), and then nothing else is reported. Or it
takes the end of the bytes to tell (`DecidedAtEnd`): they are accepted, or truncated, or only the
functions and codes in them differ in number. Then the failure is reported, and it is neither taken
for an end of the stream nor for a fault of the module.

`Source.failure_reported` puts this together for the readers that deliver the bytes.
-/

namespace WasmCore.Binary

variable {bytes : List UInt8} {e : DecodeError}

/-- The error is that of the stream if it ends cleanly after the bytes, and also if more bytes
follow. -/
def FoundIn (bytes : List UInt8) (e : DecodeError) : Prop :=
  ∀ rest, decode ⟨bytes ++ rest, .clean⟩ = .error e

/-- What becomes of the bytes depends on the stream ending after them. -/
inductive DecidedAtEnd (bytes : List UInt8) : Prop
  | accepted {m : Module} (h : decode ⟨bytes, .clean⟩ = .ok m)
  | truncated {e : DecodeError} (h : decode ⟨bytes, .clean⟩ = .error e)
    (hkind : e.kind = .truncated)
  /-- The last check, of the numbers of functions and codes, is the only one to fail. -/
  | unpaired {functions codes : Nat}
    (h : decode ⟨bytes, .clean⟩ = .error (.invalid (.flaw (.lengthsDiffer functions codes))))

/-! ### Which of the two -/

theorem FoundIn.decode (h : FoundIn bytes e) : Binary.decode ⟨bytes, .clean⟩ = .error e := by
  have hnone := h []
  rwa [List.append_nil] at hnone

/-- Complete sections can be followed by another one that is cut off. -/
theorem Complete.runsOut_append {d : Draft} (h : Complete bytes d) (b : UInt8) :
    RunsOut (bytes ++ [b]) := by
  obtain ⟨body, fs, rfl, hsections, hd⟩ := h
  rw [List.append_assoc]
  exact .section (hsections.append [b]) hd (.size (by decide) nofun)

/-- An error in the bytes is none of those that show at their end. -/
theorem Refused.not_decidedAtEnd (h : Refused bytes e) (hearly : e.isEarly = true) :
    ¬ DecidedAtEnd bytes := by
  have hdecode := h.decode .clean
  rintro (hm | ⟨he, hkind⟩ | he)
  · cases hm.symm.trans hdecode
  · cases he.symm.trans hdecode
    have hinvalid := DecodeError.isInvalid_of_isEarly hearly
    rw [hkind] at hinvalid
    cases hinvalid
  · cases he.symm.trans hdecode
    cases hearly

theorem RunsOut.decidedAtEnd (h : RunsOut bytes) : DecidedAtEnd bytes := by
  obtain ⟨e, he, hkind⟩ := h.truncated
  exact .truncated he hkind

theorem Complete.decidedAtEnd {d : Draft} (h : Complete bytes d) : DecidedAtEnd bytes := by
  cases hfinish : d.finish with
  | ok m => exact .accepted (h.decode.trans hfinish)
  | error e =>
    obtain ⟨functions, codes, rfl⟩ := Draft.finish_error hfinish
    exact .unpaired (h.decode.trans hfinish)

/-- An error of the module that is found in the bytes stands whatever comes after them, be it
a failure. -/
theorem FoundIn.refused (h : FoundIn bytes e) (hkind : e.kind.isInvalid = true) :
    Refused bytes e ∧ e.isEarly = true := by
  have hnever {part : List UInt8} (hout : RunsOut part)
      (hpart : Binary.decode ⟨part, .clean⟩ = .error e) : False := by
    obtain ⟨e', he', htruncated⟩ := hout.truncated
    cases hpart.symm.trans he'
    rw [htruncated] at hkind
    cases hkind
  rcases stream_cases bytes with ⟨e', hrefused, hearly⟩ | hout | ⟨d, hcomplete⟩
  · cases h.decode.symm.trans (hrefused.decode .clean)
    exact ⟨hrefused, hearly⟩
  · exact (hnever hout h.decode).elim
  · exact (hnever (hcomplete.runsOut_append 0) (h [0])).elim

/-- Either the bytes contain an error of the module or it takes their end to tell. -/
theorem foundIn_xor_decidedAtEnd (bytes : List UInt8) :
    Xor (∃ e, e.kind.isInvalid = true ∧ FoundIn bytes e) (DecidedAtEnd bytes) := by
  have hnotBoth : ¬ ((∃ e, e.kind.isInvalid = true ∧ FoundIn bytes e) ∧ DecidedAtEnd bytes) := by
    rintro ⟨⟨e, hkind, hfound⟩, hend⟩
    obtain ⟨hrefused, hearly⟩ := hfound.refused hkind
    exact hrefused.not_decidedAtEnd hearly hend
  rw [xor_iff_or_and_not_and]
  refine ⟨?_, hnotBoth⟩
  rcases stream_cases bytes with ⟨e, hrefused, hearly⟩ | hout | ⟨d, hcomplete⟩
  · exact .inl ⟨e, DecodeError.isInvalid_of_isEarly hearly, fun rest => hrefused rest .clean⟩
  · exact .inr hout.decidedAtEnd
  · exact .inr hcomplete.decidedAtEnd

/-! ### What is reported -/

/-- If it takes the end of the bytes to tell, a failure there is reported as itself. -/
theorem DecidedAtEnd.decode_failing (h : DecidedAtEnd bytes) (reason : String) :
    ∃ e, decode ⟨bytes, .failing reason⟩ = .error e ∧ DecodeError.Wraps (.source reason) e := by
  rcases stream_cases bytes with ⟨e, hrefused, hearly⟩ | hout | ⟨d, hcomplete⟩
  · exact absurd h (hrefused.not_decidedAtEnd hearly)
  · exact hout.decode (.failing reason)
  · exact ⟨_, hcomplete.decode_failing reason, .within _ .self⟩

namespace Source

variable {src : Source} {reason : String}

theorem decode_of_foundIn (h : src.stream = ⟨bytes, .failing reason⟩)
    (hkind : e.kind.isInvalid = true) (hfound : FoundIn bytes e) : src.decode = .error e := by
  rw [src.decode_eq, h]
  exact (hfound.refused hkind).1.decode (.failing reason)

theorem decode_of_decidedAtEnd (h : src.stream = ⟨bytes, .failing reason⟩)
    (hend : DecidedAtEnd bytes) : ∃ e, src.decode = .error e ∧
      DecodeError.Wraps (.source reason) e ∧ e.kind.isInvalid = false ∧ e.kind ≠ .truncated := by
  obtain ⟨e, he, hwraps⟩ := hend.decode_failing reason
  have hkind : e.kind = .source := hwraps.kind
  refine ⟨e, ?_, hwraps, by rw [hkind]; rfl, by rw [hkind]; nofun⟩
  rw [src.decode_eq, h, he]

/-- **Read failures are never mistaken for module content.** If reading fails after the bytes, no
module is decoded. An error of the module that is found in the bytes is reported as if the stream
ended; in all other cases, which are those where it takes the end of the bytes to tell, what is
reported wraps the failure, and it blames neither the module nor an end of the stream. Nothing
depends on how the reader delivers the bytes, and whether it offers them singly. -/
theorem failure_reported (src : Source) (h : src.stream = ⟨bytes, .failing reason⟩) :
    (∀ m, src.decode ≠ .ok m) ∧
    (∀ e, e.kind.isInvalid = true → FoundIn bytes e → src.decode = .error e) ∧
    (DecidedAtEnd bytes → ∃ e, src.decode = .error e ∧ DecodeError.Wraps (.source reason) e ∧
      e.kind.isInvalid = false ∧ e.kind ≠ .truncated) ∧
    Xor (∃ e, e.kind.isInvalid = true ∧ FoundIn bytes e) (DecidedAtEnd bytes) ∧
    ∀ src' : Source, src'.stream = src.stream → src'.decode = src.decode := by
  have hxor := foundIn_xor_decidedAtEnd bytes
  refine ⟨?_, fun _ => decode_of_foundIn h, decode_of_decidedAtEnd h, hxor, ?_⟩
  · intro m hm
    rcases hxor.or with ⟨e, hkind, hfound⟩ | hend
    · cases hm.symm.trans (decode_of_foundIn h hkind hfound)
    · obtain ⟨e, he, -⟩ := decode_of_decidedAtEnd h hend
      cases hm.symm.trans he
  · intro src' hstream
    rw [src'.decode_eq, src.decode_eq, hstream]

/-- Delivers the bytes one by one, without offering to, and fails. -/
def dripping (bytes : List UInt8) (reason : String) : Source :=
  .portions (ByteReader.trickling 0 (.failing reason)).toReader bytes

/-- Delivers the bytes three at a time, or singly, and fails. -/
def trickling (bytes : List UInt8) (reason : String) : Source :=
  .bytes (ByteReader.trickling 2 (.failing reason)) bytes

/-- Two sections of memories, both without any. -/
def twiceMemories : List UInt8 := header ++ [5, 1, 0, 5, 1, 0]

theorem failure_reported_onFire :
    (∃ e, (dripping header "disk on fire").decode = .error e ∧
      DecodeError.Wraps (.source "disk on fire") e ∧ e.kind.isInvalid = false) ∧
    (∃ e, (trickling (header ++ [5, 2, 1]) "disk on fire").decode = .error e ∧
      DecodeError.Wraps (.source "disk on fire") e ∧ e.kind ≠ .truncated) ∧
    (dripping twiceMemories "disk on fire").decode =
      .error (.invalid (.flaw (.repeatedSection .memories))) ∧
    (trickling twiceMemories "disk on fire").decode =
      (dripping twiceMemories "disk on fire").decode := by
  have haccepted : DecidedAtEnd header := .accepted (m := {}) rfl
  have htruncated : DecidedAtEnd (header ++ [5, 2, 1]) :=
    .truncated (e := .within (.sectionShort .memories 1 2) .truncated) rfl rfl
  have hsections : Sections [5, 1, 0, 5, 1, 0] [⟨.memories, [0]⟩, ⟨.memories, [0]⟩] [] :=
    .cons 5 [0] rfl (.cons 5 [0] rfl (.nil []))
  have hfound : FoundIn twiceMemories (.invalid (.flaw (.repeatedSection .memories))) :=
    fun rest => hsections.refused_of_addAll rfl rest .clean
  obtain ⟨-, -, hheader, -, -⟩ := failure_reported (dripping header "disk on fire") rfl
  obtain ⟨-, -, hcut, -, -⟩ :=
    failure_reported (trickling (header ++ [5, 2, 1]) "disk on fire") rfl
  obtain ⟨-, htwice, -, -, hsame⟩ := failure_reported (dripping twiceMemories "disk on fire") rfl
  obtain ⟨e, he, hwraps, hkind, -⟩ := hheader haccepted
  obtain ⟨e', he', hwraps', -, hkind'⟩ := hcut htruncated
  exact ⟨⟨e, he, hwraps, hkind⟩, ⟨e', he', hwraps', hkind'⟩, htwice _ rfl hfound, hsame _ rfl⟩

end Source

end WasmCore.Binary
