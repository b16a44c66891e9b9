import WasmCore.Proofs.Binary.Assembly

/-!
# Truncated modules

What becomes of a stream that is decoded when it is cut off somewhere. Between two sections the
sections before the cut are decoded, and only the number of functions can fail to be that of codes;
anywhere else the stream runs out (`decode_cutOff`). No section is decoded from a part of its
payload.
-/

namespace WasmCore.Binary

variable {bytes part rest left : List UInt8} {fs gs : List Frame} {m : Module}

/-! ### Sections of a part -/

namespace Sections

/-- The complete sections of a stream start with any that it starts with. -/
theorem of_part (h : Sections bytes gs left) (hall : Sections bytes fs []) :
    ∃ hs, fs = gs ++ hs ∧ Sections left hs [] := by
  induction h generalizing fs with
  | nil bytes => exact ⟨fs, rfl, hall⟩
  | cons b payload hsize _ ih =>
    cases hall with
    | cons _ payload' hsize' hrest' =>
      obtain ⟨hlength, hbytes⟩ := Prod.mk.inj (hsize.symm.trans hsize')
      obtain ⟨rfl, rfl⟩ := List.append_inj hbytes (Except.ok.inj hlength)
      obtain ⟨hs, rfl, hhs⟩ := ih hrest'
      exact ⟨hs, rfl, hhs⟩

/-- A part of complete sections starts with some of them, and ends there or inside of the next. -/
theorem take (h : Sections (part ++ rest) fs []) :
    ∃ gs left, Sections part gs left ∧ (left = [] ∨ ∃ b cut, left = b :: cut ∧ Cut cut) := by
  generalize hbytes : part ++ rest = bytes at h
  generalize hend : ([] : List UInt8) = ending at h
  induction h generalizing part with
  | nil bytes =>
    subst hend
    rw [(List.append_eq_nil_iff.1 hbytes).1]
    exact ⟨[], [], .nil _, .inl rfl⟩
  | @cons bytes left left' fs b payload hsize _ ih =>
    cases part with
    | nil => exact ⟨[], [], .nil [], .inl hend⟩
    | cons b' part =>
      obtain ⟨rfl, rfl⟩ : b' = b ∧ part ++ rest = bytes := by simpa using hbytes
      rcases Leb128.decodeUnsigned_of_append hsize with ⟨after, hafter, hread⟩ | hshort
      · by_cases hpayload : after.length < payload.length
        · exact ⟨[], _, .nil _, .inr ⟨b', part, rfl, .payload hread hpayload⟩⟩
        · -- the payload is complete
          have hprefix : payload <+: after :=
            List.prefix_of_prefix_length_le (List.prefix_append payload _)
              (hafter ▸ List.prefix_append after rest) (by omega)
          obtain ⟨next, rfl⟩ := hprefix
          rw [List.append_assoc, List.append_cancel_left_eq] at hafter
          obtain ⟨gs, left'', hgs, hleft⟩ := ih hafter.symm hend
          exact ⟨_, left'', .cons b' payload hread hgs, hleft⟩
      · obtain ⟨hlength, hall⟩ := Leb128.decodeUnsigned_endOfInput.1 hshort
        exact ⟨[], _, .nil _, .inr ⟨b', part, rfl, .size (by omega) hall⟩⟩

end Sections

/-- If sections are decoded, so are the first of them. -/
theorem Draft.exists_addAll_of_append (h : Assembles (fs ++ gs) m)
    (hdistinct : ((fs ++ gs).map Frame.key).Nodup) :
    ∃ d n', Draft.addAll {} fs = (d, none) ∧ Assembles fs d.module ∧ Assembles gs n' ∧
      m = d.module.join n' := by
  obtain ⟨n, n', hfs, hgs, rfl⟩ := h.of_append
  rw [List.map_append] at hdistinct
  obtain ⟨d, hd, hmodule⟩ := Draft.made_empty.exists_addAll hfs (List.nodup_append.1 hdistinct).1
  obtain rfl : d.module = n := hmodule.trans (Module.empty_join n)
  exact ⟨d, n', hd, hfs, hgs, rfl⟩

/-! ### Modules -/

/-- A decoded stream is the header and complete sections. -/
theorem exists_sections_of_decode (h : decode ⟨bytes, .clean⟩ = .ok m) :
    ∃ body fs, bytes = header ++ body ∧ Sections body fs [] := by
  rcases stream_cases bytes with ⟨e, hrefused, -⟩ | hout | ⟨d, body, fs, hbytes, hsections, -⟩
  · cases h.symm.trans (hrefused.decode .clean)
  · obtain ⟨e, he, -⟩ := hout.truncated
    cases h.symm.trans he
  · exact ⟨body, fs, hbytes, hsections⟩

/-- The bytes are the header and these complete sections. -/
def EndsAfter (part : List UInt8) (fs : List Frame) : Prop :=
  ∃ body, part = header ++ body ∧ Sections body fs []

/-- The bytes are decoded to the module `n`, unless there are functions without code or codes
without function. -/
def DecodesTo (bytes : List UInt8) (n : Module) : Prop :=
  decode ⟨bytes, .clean⟩ =
    if n.functions.length = n.codes.length then .ok n
    else .error (.invalid (.flaw (.lengthsDiffer n.functions.length n.codes.length)))

/-- Where the first sections of a module end, they are decoded. -/
theorem decode_endsAfter (h : decode ⟨bytes, .clean⟩ = .ok m) (hpart : part <+: bytes)
    (hends : EndsAfter part fs) :
    ∃ n n' gs, EndsAfter bytes (fs ++ gs) ∧ Assembles fs n ∧ Assembles gs n' ∧ m = n.join n' ∧
      DecodesTo part n := by
  obtain ⟨body, rfl, hfs⟩ := hends
  obtain ⟨rest, rfl⟩ := hpart
  obtain ⟨body', all, hbody, hall⟩ := exists_sections_of_decode h
  obtain rfl : body ++ rest = body' := by
    rwa [List.append_assoc, List.append_cancel_left_eq] at hbody
  obtain ⟨gs, rfl, -⟩ := (hfs.append rest).of_part hall
  rw [List.append_assoc] at h
  obtain ⟨hassembles, hdistinct, -⟩ := hall.decode_eq_ok_iff.1 h
  obtain ⟨d, n', hd, hn, hn', rfl⟩ := Draft.exists_addAll_of_append hassembles hdistinct
  refine ⟨d.module, n', gs, ⟨_, List.append_assoc .., hall⟩, hn, hn', rfl, ?_⟩
  rw [DecodesTo, hfs.decode_eq, hd]
  rfl

/-- Anywhere else than between two sections, a module that is cut off runs out. -/
theorem runsOut_of_part (h : decode ⟨bytes, .clean⟩ = .ok m) (hpart : part <+: bytes)
    (hends : ∀ fs, ¬ EndsAfter part fs) : RunsOut part := by
  obtain ⟨body, all, rfl, hall⟩ := exists_sections_of_decode h
  have hheader : header.length = 8 := rfl
  by_cases hlength : part.length < 8
  · by_cases hmagic : part.length < 4
    · exact .magic hmagic
    · refine .version ?_ hlength
      refine List.prefix_of_prefix_length_le ?_ hpart (Nat.le_of_not_lt hmagic)
      exact (List.prefix_append magicNumber formatVersion).trans (List.prefix_append header body)
  · have hbegins : header <+: part :=
      List.prefix_of_prefix_length_le (List.prefix_append header body) hpart (by omega)
    obtain ⟨begun, rfl⟩ := hbegins
    obtain ⟨rest, hrest⟩ := hpart
    rw [List.append_assoc, List.append_cancel_left_eq] at hrest
    subst hrest
    obtain ⟨gs, left, hgs, rfl | ⟨b, cut, rfl, hcut⟩⟩ := hall.take
    · exact absurd ⟨begun, rfl, hgs⟩ (hends gs)
    · obtain ⟨hs, rfl, -⟩ := (hgs.append rest).of_part hall
      obtain ⟨hassembles, hdistinct, -⟩ := hall.decode_eq_ok_iff.1 h
      obtain ⟨d, -, hd, -⟩ := Draft.exists_addAll_of_append hassembles hdistinct
      exact .section hgs hd hcut

/-- **Truncation is detected as such.** When a stream that is decoded is cut off between two
sections, what is decoded are exactly the sections before the cut, and the only thing that can be
wrong with them is that the functions and codes among them differ in number. Cut off anywhere else,
the stream is truncated, and the module is not to blame. -/
theorem decode_cutOff (h : decode ⟨bytes, .clean⟩ = .ok m) (hpart : part <+: bytes) :
    (∀ fs, EndsAfter part fs →
      ∃ n n' gs, EndsAfter bytes (fs ++ gs) ∧ Assembles fs n ∧ Assembles gs n' ∧ m = n.join n' ∧
        DecodesTo part n) ∧
    ((∀ fs, ¬ EndsAfter part fs) →
      ∃ e, decode ⟨part, .clean⟩ = .error e ∧ e.kind = .truncated ∧ e.kind.isInvalid = false) := by
  refine ⟨fun fs hends => decode_endsAfter h hpart hends, fun hends => ?_⟩
  obtain ⟨e, he, hkind⟩ := (runsOut_of_part h hpart hends).truncated
  exact ⟨e, he, hkind, by rw [hkind]; rfl⟩

/-- A type, a function of it, and its code. -/
def oneFunction : List UInt8 :=
  header ++ [1, 4, 1, 0x60, 0, 0, 3, 2, 1, 0, 10, 4, 1, 2, 0, 0x0b]

/-- The module that it encodes. -/
def oneFunctionModule : Module where
  types := [⟨[], []⟩]
  functions := [0]
  codes := [⟨[], #[]⟩]

/-- Its sections before the code. -/
def uncoded : List Frame := [⟨.types, [1, 0x60, 0, 0]⟩, ⟨.functions, [1, 0]⟩]

theorem decode_cutOff_oneFunction :
    decode ⟨oneFunction, .clean⟩ = .ok oneFunctionModule ∧
      EndsAfter (oneFunction.take 18) uncoded ∧
      (∃ n, DecodesTo (oneFunction.take 18) n ∧ Assembles uncoded n) ∧
      (∀ fs, ¬ EndsAfter (oneFunction.take 21) fs) ∧
      ∃ e, decode ⟨oneFunction.take 21, .clean⟩ = .error e ∧ e.kind = .truncated := by
  have hdecode : decode ⟨oneFunction, .clean⟩ = .ok oneFunctionModule := rfl
  have hends : EndsAfter (oneFunction.take 18) uncoded :=
    ⟨_, rfl, .cons 1 [1, 0x60, 0, 0] rfl (.cons 3 [1, 0] rfl (.nil []))⟩
  have hinside : decode ⟨oneFunction.take 21, .clean⟩ =
    .error (.within (.sectionShort .codes 1 4) .truncated) := rfl
  have hnot : ∀ fs, ¬ EndsAfter (oneFunction.take 21) fs := by
    intro fs hfs
    obtain ⟨n, -, -, -, -, -, -, hto⟩ :=
      (decode_cutOff hdecode (List.take_prefix 21 _)).1 fs hfs
    rw [DecodesTo, hinside] at hto
    split at hto <;> cases hto
  obtain ⟨n, -, -, -, hn, -, -, hto⟩ :=
    (decode_cutOff hdecode (List.take_prefix 18 _)).1 uncoded hends
  obtain ⟨e, he, hkind, -⟩ := (decode_cutOff hdecode (List.take_prefix 21 _)).2 hnot
  exact ⟨hdecode, hends, ⟨n, hto, hn⟩, hnot, e, he, hkind⟩

end WasmCore.Binary
