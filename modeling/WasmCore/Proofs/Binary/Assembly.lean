import WasmCore.Proofs.Binary.Canonical
import WasmCore.Proofs.Binary.Classes

/-!
# Modules as joins of their sections

What a section contributes to a module can be decoded without the others: `Frame.Yields` says which
module the section alone is, and `Assembles` joins these. Decoding sections in their order gives
their join (`Draft.Made.addAll`), and it fails only if one of them cannot be decoded alone or two of
them have the same key, which is the id, and for custom sections also the name
(`Draft.Made.exists_addAll`).

So what is decoded from complete sections is known without following the decoder
(`Sections.decode_eq_ok_iff`).
-/

namespace WasmCore

open Binary

/-! ### Joins -/

namespace Module

/-- The module that has what both have; of two sections of debug names it has the first. -/
def join (m n : Module) : Module where
  types := m.types ++ n.types
  imports := m.imports ++ n.imports
  functions := m.functions ++ n.functions
  memories := m.memories ++ n.memories
  exports := m.exports ++ n.exports
  codes := m.codes ++ n.codes
  data := m.data ++ n.data
  names := m.names.or n.names
  customs := m.customs ++ n.customs

@[simp] theorem join_empty (m : Module) : m.join {} = m := by simp [join]

@[simp] theorem empty_join (m : Module) : join {} m = m := by simp [join]

theorem join_assoc (a b c : Module) : (a.join b).join c = a.join (b.join c) := by
  simp [join, Option.or_assoc]

theorem sectionCount_join_eq_zero {m n : Module} {id : SectionId} :
    (m.join n).sectionCount id = 0 ↔ m.sectionCount id = 0 ∧ n.sectionCount id = 0 := by
  cases id with
  | custom =>
    simp only [sectionCount, join, List.length_append, Option.isSome_or]
    cases m.names <;> cases n.names <;> simp
  | types | imports | functions | memories | exports | codes | data => simp [sectionCount, join]
  | tables | globals | start | elements | other b => simp [sectionCount]

/-- Modules without a common section can be joined in either order. -/
theorem join_comm {m n : Module} (h : ∀ id, m.sectionCount id = 0 ∨ n.sectionCount id = 0) :
    m.join n = n.join m := by
  have hlist {α : Type} {xs ys : List α} (h : xs.length = 0 ∨ ys.length = 0) :
      xs ++ ys = ys ++ xs := by
    rcases h with h | h <;> simp [List.length_eq_zero_iff.1 h]
  have hcustom : (m.customs = [] ∧ m.names = none) ∨ (n.customs = [] ∧ n.names = none) := by
    simpa [sectionCount] using h .custom
  have hcustoms : m.customs ++ n.customs = n.customs ++ m.customs := by
    rcases hcustom with ⟨h, -⟩ | ⟨h, -⟩ <;> simp [h]
  have hnames : m.names.or n.names = n.names.or m.names := by
    rcases hcustom with ⟨-, h⟩ | ⟨-, h⟩ <;> simp [h]
  simp only [join, hlist (h .types), hlist (h .imports), hlist (h .functions),
    hlist (h .memories), hlist (h .exports), hlist (h .codes), hlist (h .data), hcustoms, hnames]

end Module

namespace Binary

open Decoder

theorem hasCustom_join (m n : Module) (name : String) :
    hasCustom (m.join n) name = (hasCustom m name || hasCustom n name) := by
  simp only [hasCustom, Module.join, List.any_append, Option.isSome_or, Bool.and_or_distrib_left]
  ac_rfl

/-! ### Sections alone -/

/-- The name of a custom section. -/
def Frame.name? (f : Frame) : Option String :=
  match f.id with
  | .custom => (text .customSection f.payload).toOption.map Prod.fst
  | _ => none

/-- What no two sections of a module have in common: the id, and the name of a custom section. -/
def Frame.key (f : Frame) : SectionId × Option String := (f.id, f.name?)

/-- The section alone is this module. -/
def Frame.Yields (f : Frame) (n : Module) : Prop :=
  Reads (sectionContents {} f.id) f.payload n []

variable {f : Frame} {m m' n : Module} {payload : List UInt8}

theorem name?_of_reads {name : String} {rest : List UInt8}
    (h : Reads (text .customSection) payload name rest) :
    Frame.name? ⟨.custom, payload⟩ = some name := by
  rw [Reads] at h
  simp only [Frame.name?, h]
  rfl

theorem names_eq_none (h : hasCustom m "name" = false) : m.names = none := by
  simpa [hasCustom] using (Bool.or_eq_false_iff.1 h).2

/-- The module that a custom section is, by its name and what follows that. -/
def IsCustom (name : String) (contents : List UInt8) (n : Module) : Prop :=
  if name = "name" then ∃ names, Reads nameSection contents names [] ∧ n = { names := some names }
  else n = { customs := [⟨name, contents⟩] }

/-- A custom section is added unless there is one of its name. -/
theorem reads_customSection_iff : Reads (customSection m) payload m' [] ↔
    ∃ name contents n, Reads (text .customSection) payload name contents ∧
      hasCustom m name = false ∧ IsCustom name contents n ∧ m' = m.join n := by
  simp only [customSection, reads_bind]
  constructor
  · rintro ⟨name, contents, hname, hr⟩
    split at hr
    · exact absurd hr not_reads_fail
    · rename_i hfresh
      have hfresh : hasCustom m name = false := by simpa using hfresh
      split at hr
      · rename_i hreserved
        simp only [reads_bind, reads_pure] at hr
        obtain ⟨names, left, hnames, rfl, rfl⟩ := hr
        refine ⟨name, contents, { names := some names }, hname, hfresh, ?_, ?_⟩
        · rw [IsCustom, if_pos hreserved]
          exact ⟨names, hnames, rfl⟩
        · have hnone := names_eq_none (hreserved ▸ hfresh)
          simp [Module.join, hnone]
      · rename_i hreserved
        simp only [reads_bind, reads_all, reads_pure] at hr
        obtain ⟨data, _, ⟨rfl, rfl⟩, rfl, -⟩ := hr
        refine ⟨name, data, { customs := [⟨name, data⟩] }, hname, hfresh, ?_, ?_⟩
        · rw [IsCustom, if_neg hreserved]
        · simp [Module.join]
  · rintro ⟨name, contents, n, hname, hfresh, hn, rfl⟩
    refine ⟨name, contents, hname, ?_⟩
    rw [if_neg (by simp [hfresh])]
    unfold IsCustom at hn
    split at hn
    · rename_i hreserved
      obtain ⟨names, hnames, rfl⟩ := hn
      have hnone := names_eq_none (hreserved ▸ hfresh)
      rw [if_pos hreserved]
      refine hnames.bind (reads_pure.2 ⟨?_, rfl⟩)
      simp [Module.join, hnone]
    · rename_i hreserved
      obtain rfl := hn
      rw [if_neg hreserved]
      refine Reads.bind (reads_all.2 ⟨rfl, rfl⟩) (reads_pure.2 ⟨?_, rfl⟩)
      simp [Module.join]

/-- A section other than a custom one sets a part of the module that was empty. -/
theorem reads_sectionContents_of_ne (hid : f.id ≠ .custom) (hempty : m.sectionCount f.id = 0) :
    Reads (sectionContents m f.id) f.payload m' [] ↔ ∃ n, f.Yields n ∧ m' = m.join n := by
  obtain ⟨id, payload⟩ := f
  cases id with
  | custom => exact absurd rfl hid
  | types | imports | functions | memories | exports | codes | data =>
    have hnone := List.length_eq_zero_iff.1 hempty
    simp only [Frame.Yields, sectionContents, reads_bind, reads_pure]
    constructor
    · rintro ⟨xs, mid, hxs, rfl, hmid⟩
      exact ⟨_, ⟨xs, mid, hxs, rfl, hmid⟩, by simp [Module.join, hnone]⟩
    · rintro ⟨n, ⟨xs, mid, hxs, rfl, hmid⟩, rfl⟩
      exact ⟨xs, mid, hxs, by simp [Module.join, hnone], hmid⟩
  | tables | globals | start | elements | other b => simp [Frame.Yields, sectionContents]

theorem name?_of_ne (hid : f.id ≠ .custom) : f.name? = none := by
  obtain ⟨id, payload⟩ := f
  cases id <;> first | rfl | exact absurd rfl hid

/-- **A section adds the module that it is alone**, unless it is a custom section of a name that is
taken. -/
theorem reads_sectionContents (hempty : f.id ≠ .custom → m.sectionCount f.id = 0) :
    Reads (sectionContents m f.id) f.payload m' [] ↔
      ∃ n, f.Yields n ∧ (∀ name, f.name? = some name → hasCustom m name = false) ∧
        m' = m.join n := by
  by_cases hid : f.id = .custom
  · obtain ⟨id, payload⟩ := f
    cases hid
    refine reads_customSection_iff.trans ⟨?_, ?_⟩
    · rintro ⟨name, contents, n, hname, hfresh, hn, rfl⟩
      refine ⟨n, ?_, ?_, rfl⟩
      · exact reads_customSection_iff.2
          ⟨name, contents, n, hname, by simp [hasCustom], hn, by simp⟩
      · rw [name?_of_reads hname]
        rintro _ ⟨⟩
        exact hfresh
    · rintro ⟨n, hyields, hfresh, rfl⟩
      obtain ⟨name, contents, n', hname, -, hn, rfl⟩ := reads_customSection_iff.1 hyields
      rw [Module.empty_join]
      exact ⟨name, contents, n', hname, hfresh name (name?_of_reads hname), hn, rfl⟩
  · rw [reads_sectionContents_of_ne hid (hempty hid), name?_of_ne hid]
    simp

namespace Frame.Yields

/-- What a custom section is alone. -/
theorem isCustom (h : f.Yields n) (hid : f.id = .custom) :
    ∃ name contents, f.name? = some name ∧ IsCustom name contents n := by
  obtain ⟨id, payload⟩ := f
  cases hid
  obtain ⟨name, contents, n', hname, -, hn, rfl⟩ := reads_customSection_iff.1 h
  rw [Module.empty_join]
  exact ⟨name, contents, name?_of_reads hname, hn⟩

/-- A section adds nothing to the others. -/
theorem sectionCount_eq_zero (h : f.Yields n) {id : SectionId} (hne : id ≠ f.id) :
    n.sectionCount id = 0 := by
  by_cases hid : f.id = .custom
  · obtain ⟨name, contents, -, hn⟩ := h.isCustom hid
    rw [hid] at hne
    unfold IsCustom at hn
    split at hn
    · obtain ⟨names, -, rfl⟩ := hn
      cases id <;> first | rfl | exact absurd rfl hne
    · cases hn
      cases id <;> first | rfl | exact absurd rfl hne
  · obtain ⟨id', payload⟩ := f
    cases id' with
    | custom => exact absurd rfl hid
    | types | imports | functions | memories | exports | codes | data =>
      simp only [Yields, sectionContents, reads_bind, reads_pure] at h
      obtain ⟨xs, -, -, rfl, -⟩ := h
      cases id <;> first | rfl | exact absurd rfl hne
    | tables | globals | start | elements =>
      simp only [Yields, sectionContents, reads_bind, reads_pure] at h
      obtain ⟨-, -, -, rfl, -⟩ := h
      cases id <;> rfl
    | other b => exact absurd h not_reads_fail

/-- A section that is passed over adds nothing. -/
theorem eq_empty (h : f.Yields n) (hskipped : isSkipped f.id = true) : n = {} := by
  obtain ⟨id, payload⟩ := f
  cases id with
  | tables | globals | start | elements =>
    simp only [Yields, sectionContents, reads_bind, reads_pure] at h
    obtain ⟨-, -, -, rfl, -⟩ := h
    rfl
  | _ => cases hskipped

/-- The custom sections of a section alone are the section itself if it is one. -/
theorem hasCustom_iff (h : f.Yields n) {name : String} :
    hasCustom n name = true ↔ f.key = (.custom, some name) := by
  by_cases hid : f.id = .custom
  · obtain ⟨name', contents, hname, hn⟩ := h.isCustom hid
    simp only [Frame.key, hid, hname, Prod.mk.injEq, Option.some.injEq, true_and]
    unfold IsCustom at hn
    split at hn
    · rename_i hreserved
      obtain ⟨names, -, rfl⟩ := hn
      simp [hasCustom, hreserved, eq_comm]
    · cases hn
      simp [hasCustom]
  · have hcount : n.sectionCount .custom = 0 := h.sectionCount_eq_zero (Ne.symm hid)
    have hnone : n.customs = [] ∧ n.names = none := by simpa [Module.sectionCount] using hcount
    simp [hasCustom, hnone, Frame.key, hid]

end Frame.Yields

/-! ### Sections together -/

/-- The sections, each decoded alone, are together this module. -/
inductive Assembles : List Frame → Module → Prop
  | nil : Assembles [] {}
  | cons {f : Frame} {n : Module} {fs : List Frame} {m : Module} (hf : f.Yields n)
    (hfs : Assembles fs m) : Assembles (f :: fs) (n.join m)

namespace Assembles

variable {fs gs : List Frame}

theorem append (h : Assembles fs m) (h' : Assembles gs n) : Assembles (fs ++ gs) (m.join n) := by
  induction h with
  | nil =>
    rw [Module.empty_join]
    exact h'
  | cons hf _ ih =>
    rw [Module.join_assoc]
    exact .cons hf ih

theorem of_append (h : Assembles (fs ++ gs) m) :
    ∃ n n', Assembles fs n ∧ Assembles gs n' ∧ m = n.join n' := by
  induction fs generalizing m with
  | nil => exact ⟨{}, m, .nil, h, (Module.empty_join m).symm⟩
  | cons f fs ih =>
    cases h with
    | cons hf hfs =>
      obtain ⟨n, n', hn, hn', rfl⟩ := ih hfs
      exact ⟨_, n', .cons hf hn, hn', (Module.join_assoc _ _ _).symm⟩

theorem singleton (h : f.Yields n) : Assembles [f] n := by
  have hsingle := Assembles.cons h .nil
  rwa [Module.join_empty] at hsingle

/-- Sections that are not there add nothing. -/
theorem sectionCount_eq_zero (h : Assembles fs m) {id : SectionId}
    (hid : ∀ f ∈ fs, id ≠ f.id) : m.sectionCount id = 0 := by
  induction h with
  | nil => cases id <;> rfl
  | cons hf _ ih =>
    rw [List.forall_mem_cons] at hid
    exact Module.sectionCount_join_eq_zero.2 ⟨hf.sectionCount_eq_zero hid.1, ih hid.2⟩

/-- The module has a custom section of a name if the name is that of one of the sections. -/
theorem hasCustom_iff (h : Assembles fs m) {name : String} :
    hasCustom m name = true ↔ (.custom, some name) ∈ fs.map Frame.key := by
  induction h with
  | nil => simp [hasCustom]
  | cons hf _ ih =>
    rw [hasCustom_join, Bool.or_eq_true, hf.hasCustom_iff, ih, List.map_cons, List.mem_cons,
      eq_comm]

end Assembles

/-! ### Drafts -/

namespace Draft

variable {d d' : Draft} {fs gs : List Frame}

/-- The draft has been made of these sections. -/
structure Made (d : Draft) (fs : List Frame) : Prop where
  assembles : Assembles fs d.module
  distinct : (fs.map Frame.key).Nodup
  seen : ∀ id, id ∈ d.seen ↔ id ≠ .custom ∧ ∃ f ∈ fs, f.id = id

theorem made_empty : Made {} [] := ⟨.nil, List.nodup_nil, by simp⟩

namespace Made

/-- Apart from custom sections, a part of the module is empty until its section has been seen. -/
theorem sectionCount_eq_zero (h : d.Made fs) (hseen : f.id ∉ d.seen) (hid : f.id ≠ .custom) :
    d.module.sectionCount f.id = 0 := by
  refine h.assembles.sectionCount_eq_zero fun g hg heq => hseen ?_
  exact (h.seen f.id).2 ⟨hid, g, hg, heq.symm⟩

/-- A draft knows the keys of its sections. -/
theorem key_not_mem_iff (h : d.Made fs) (hf : f.Yields n) :
    f.key ∉ fs.map Frame.key ↔
      f.id ∉ d.seen ∧ ∀ name, f.name? = some name → hasCustom d.module name = false := by
  by_cases hid : f.id = .custom
  · obtain ⟨name, contents, hname, -⟩ := hf.isCustom hid
    have hseen : f.id ∉ d.seen := fun hmem => ((h.seen f.id).1 hmem).1 hid
    rw [Frame.key, hid, hname, ← h.assembles.hasCustom_iff, Bool.not_eq_true]
    rw [hid] at hseen
    simp [hseen]
  · have hmem : f.key ∈ fs.map Frame.key ↔ f.id ∈ d.seen := by
      rw [h.seen, List.mem_map]
      refine ⟨?_, ?_⟩
      · rintro ⟨g, hg, hkey⟩
        exact ⟨hid, g, hg, congrArg Prod.fst hkey⟩
      · rintro ⟨-, g, hg, heq⟩
        refine ⟨g, hg, Prod.ext heq ?_⟩
        exact (name?_of_ne (heq ▸ hid)).trans (name?_of_ne hid).symm
    rw [hmem, name?_of_ne hid]
    simp

/-- A section that can be decoded alone is added unless its key is taken. -/
theorem exists_add (h : d.Made fs) (hf : f.Yields n) (hkey : f.key ∉ fs.map Frame.key) :
    ∃ d', d.add f = .ok d' ∧ d'.module = d.module.join n ∧ d'.Made (fs ++ [f]) := by
  obtain ⟨hseen, hfresh⟩ := (h.key_not_mem_iff hf).1 hkey
  have hreads := (reads_sectionContents (h.sectionCount_eq_zero hseen)).2 ⟨n, hf, hfresh, rfl⟩
  obtain ⟨d', hadd, hmodule, hseen'⟩ := Draft.exists_add hseen hreads
  refine ⟨d', hadd, hmodule, ?_, ?_, ?_⟩
  · rw [hmodule]
    exact h.assembles.append (.singleton hf)
  · rw [List.map_append, List.map_singleton, List.nodup_append]
    refine ⟨h.distinct, by simp, ?_⟩
    intro key hmem key' hmem' heq
    rw [List.mem_singleton.1 hmem'] at heq
    exact hkey (heq ▸ hmem)
  · intro id
    have hbefore := h.seen id
    rw [hseen']
    split <;> grind

/-- A section that was added can be decoded alone, and its key was not taken. -/
theorem of_add (h : d.Made fs) (hadd : d.add f = .ok d') :
    (∃ n, f.Yields n ∧ d'.module = d.module.join n) ∧ d'.Made (fs ++ [f]) := by
  have hseen : f.id ∉ d.seen := by
    intro hmem
    rw [add, if_pos hmem] at hadd
    cases hadd
  have hempty := h.sectionCount_eq_zero hseen
  obtain ⟨n, hf, hfresh, hmodule⟩ := (reads_sectionContents hempty).1 (add_eq_ok hadd)
  obtain ⟨d'', hadd', -, hmade⟩ := h.exists_add hf ((h.key_not_mem_iff hf).2 ⟨hseen, hfresh⟩)
  obtain rfl : d'' = d' := Except.ok.inj (hadd'.symm.trans hadd)
  exact ⟨⟨n, hf, hmodule⟩, hmade⟩

/-- What was decoded from sections that follow others. -/
theorem addAll (h : d.Made fs) (hadd : d.addAll gs = (d', none)) :
    (∃ n, Assembles gs n ∧ d'.module = d.module.join n) ∧ d'.Made (fs ++ gs) := by
  induction gs generalizing d fs with
  | nil =>
    obtain rfl : d = d' := congrArg Prod.fst hadd
    exact ⟨⟨{}, .nil, (Module.join_empty _).symm⟩, by rwa [List.append_nil]⟩
  | cons f gs ih =>
    rw [Draft.addAll] at hadd
    split at hadd
    · cases congrArg Prod.snd hadd
    · rename_i d₁ hfirst
      obtain ⟨⟨n, hf, hn⟩, hmade⟩ := h.of_add hfirst
      obtain ⟨⟨n', hgs, hn'⟩, hmade'⟩ := ih hmade hadd
      rw [List.append_assoc, List.singleton_append] at hmade'
      refine ⟨⟨n.join n', .cons hf hgs, ?_⟩, hmade'⟩
      rw [hn', hn, Module.join_assoc]

/-- Sections that can be decoded alone and have different keys are decoded. -/
theorem exists_addAll (h : d.Made fs) (hgs : Assembles gs n)
    (hdistinct : ((fs ++ gs).map Frame.key).Nodup) :
    ∃ d', d.addAll gs = (d', none) ∧ d'.module = d.module.join n := by
  induction hgs generalizing d fs with
  | nil => exact ⟨d, rfl, (Module.join_empty _).symm⟩
  | @cons f n gs m hf hgs ih =>
    have hkey : f.key ∉ fs.map Frame.key := by
      intro hmem
      rw [List.map_append, List.map_cons] at hdistinct
      exact (List.nodup_append.1 hdistinct).2.2 _ hmem _ List.mem_cons_self rfl
    obtain ⟨d₁, hadd, hmodule, hmade⟩ := h.exists_add hf hkey
    obtain ⟨d', hall, hmodule'⟩ := ih hmade (by simpa using hdistinct)
    refine ⟨d', by rw [Draft.addAll, hadd]; exact hall, ?_⟩
    rw [hmodule', hmodule, Module.join_assoc]

end Made

end Draft

/-! ### Streams of complete sections -/

variable {bytes : List UInt8} {fs : List Frame}

theorem Sections.decode_eq (h : Sections bytes fs []) : decode ⟨header ++ bytes, .clean⟩ =
    match Draft.addAll {} fs with
    | (_, some e) => .error e
    | (d, none) => d.finish := by
  split
  · rename_i hd
    exact (h.refused_of_addAll hd).decode .clean
  · rename_i hd
    exact Complete.decode ⟨bytes, fs, rfl, h, hd⟩

/-- **What complete sections are decoded to**: each of them can be decoded alone, no two have the
same key, and together they are a module in which every function has its code. -/
theorem Sections.decode_eq_ok_iff (h : Sections bytes fs []) :
    decode ⟨header ++ bytes, .clean⟩ = .ok m ↔
      Assembles fs m ∧ (fs.map Frame.key).Nodup ∧ m.functions.length = m.codes.length := by
  rw [h.decode_eq]
  constructor
  · intro hm
    split at hm
    · cases hm
    · rename_i d hd
      obtain ⟨-, hmade⟩ := Draft.made_empty.addAll hd
      unfold Draft.finish at hm
      split at hm
      · rename_i hpaired
        cases hm
        exact ⟨hmade.assembles, hmade.distinct, hpaired⟩
      · cases hm
  · rintro ⟨hfs, hdistinct, hpaired⟩
    obtain ⟨d, hd, hmodule⟩ := Draft.made_empty.exists_addAll hfs hdistinct
    obtain rfl : d.module = m := hmodule.trans (Module.empty_join m)
    rw [hd]
    exact if_pos hpaired

end Binary

end WasmCore
