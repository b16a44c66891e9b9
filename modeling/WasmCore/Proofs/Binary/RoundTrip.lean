import WasmCore.Proofs.Binary.Frames

/-!
# Modules: decoding undoes encoding

`Module.Formed` says which modules the format can express, and `Module.WellFormed` adds what the
encoder needs: imports that have an encoding, and sizes that fit. A well-formed module is decoded
from its encoding (`decode_encode`).

The proof follows the sections of the encoding. `Adds` says how sections change the module that was
decoded so far; each section sets the part of the module it encodes, and a section that is left out
would have set it to what it is before.
-/

namespace WasmCore

open Binary

namespace Module

/-- The parts of the module are ones that the format can express. -/
structure Formed (m : Module) : Prop where
  types : ∀ t ∈ m.types, t.Numeric
  imports : ∀ i ∈ m.imports, i.desc.Formed
  memories : ∀ t ∈ m.memories, ∃ t' ∈ t, t'.Bounded
  exports : ExportsFormed m.exports
  codes : ∀ c ∈ m.codes, c.Formed
  data : ∀ d ∈ m.data, WellNested d.offset
  /-- No two custom sections have the same name. -/
  customs : (m.customs.map CustomSection.name).Nodup
  /-- None of them is the section of debug names. -/
  reserved : ∀ c ∈ m.customs, c.name ≠ "name"

/-- The module can be written and read back: also its imports have an encoding, every function has
its code, and the sizes of sections fit into 32 bits. -/
structure WellFormed (m : Module) : Prop extends Formed m where
  linkable : ∀ i ∈ m.imports, i.desc.Linkable
  paired : m.functions.length = m.codes.length
  sizes : ∀ f ∈ sections m, f.payload.length < 2 ^ 32

end Module

namespace Binary

open Decoder

/-! ### Adding sections to a draft -/

namespace Draft

theorem addAll_append {d d' : Draft} {fs : List Frame} (h : d.addAll fs = (d', none))
    (gs : List Frame) : d.addAll (fs ++ gs) = d'.addAll gs := by
  induction fs generalizing d with
  | nil =>
    obtain rfl : d = d' := congrArg Prod.fst h
    rfl
  | cons f fs ih =>
    simp only [List.cons_append, addAll] at h ⊢
    split at h
    · cases congrArg Prod.snd h
    · exact ih h

/-- A section that is not there yet is added if all of its contents can be decoded. -/
theorem exists_add {d : Draft} {f : Frame} {m : Module} (hseen : f.id ∉ d.seen)
    (h : Reads (sectionContents d.module f.id) f.payload m []) :
    ∃ d', d.add f = .ok d' ∧ d'.module = m ∧
      d'.seen = if f.id = .custom then d.seen else f.id :: d.seen := by
  rw [Reads] at h
  simp only [add, hseen, ↓reduceIte, h, List.isEmpty_nil]
  exact ⟨_, rfl, rfl, rfl⟩

end Draft

/-- The sections turn one module with sections seen before into another. -/
def Adds (fs : List Frame) (m : Module) (seen : List SectionId) (m' : Module)
    (seen' : List SectionId) : Prop :=
  ∀ d : Draft, d.module = m → d.seen ⊆ seen →
    ∃ d', d.addAll fs = (d', none) ∧ d'.module = m' ∧ d'.seen ⊆ seen'

theorem Adds.nil (m : Module) (seen : List SectionId) : Adds [] m seen m seen :=
  fun d hm hs => ⟨d, rfl, hm, hs⟩

theorem Adds.append {fs gs : List Frame} {m m' m'' : Module} {seen seen' seen'' : List SectionId}
    (h : Adds fs m seen m' seen') (h' : Adds gs m' seen' m'' seen'') :
    Adds (fs ++ gs) m seen m'' seen'' := by
  intro d hm hs
  obtain ⟨d', hd', hm', hs'⟩ := h d hm hs
  obtain ⟨d'', hd'', hm'', hs''⟩ := h' d' hm' hs'
  exact ⟨d'', (Draft.addAll_append hd' gs).trans hd'', hm'', hs''⟩

theorem adds_of_reads {f : Frame} {m m' : Module} {seen : List SectionId} (hid : f.id ∉ seen)
    (h : Reads (sectionContents m f.id) f.payload m' []) :
    Adds [f] m seen m' (if f.id = .custom then seen else f.id :: seen) := by
  rintro d rfl hs
  obtain ⟨d', hd, hm, hseen⟩ := Draft.exists_add (fun hmem => hid (hs hmem)) h
  refine ⟨d', by rw [Draft.addAll, hd]; rfl, hm, ?_⟩
  rw [hseen]
  split
  · exact hs
  · exact List.cons_subset_cons _ hs

/-- A section of items sets the list of these items; without the section it stays empty. -/
theorem adds_items {α : Type} {id : SectionId} {encode : α → List UInt8} {valid : List α → Prop}
    {items : Decoder (List α)} {m : Module} {seen : List SectionId} {xs : List α}
    (set : List α → Module)
    (hitems : Restores items (fun xs => encodeVector (xs.map encode)) valid)
    (hset : sectionContents m id = do pure (set (← items))) (hnil : set [] = m)
    (hid : id ∉ seen) (hne : id ≠ .custom) (hxs : valid xs)
    (hsize : ∀ f ∈ itemFrames id (xs.map encode), f.payload.length < 2 ^ 32) :
    Adds (itemFrames id (xs.map encode)) m seen (set xs) (id :: seen) := by
  cases xs with
  | nil =>
    intro d hm hs
    exact ⟨d, rfl, hm.trans hnil.symm, fun x hx => List.mem_cons_of_mem id (hs hx)⟩
  | cons x xs =>
    have hframes : itemFrames id ((x :: xs).map encode) =
        [⟨id, encodeVector ((x :: xs).map encode)⟩] := rfl
    rw [hframes] at hsize ⊢
    have hr := hitems (x :: xs) [] hxs (hsize _ List.mem_cons_self)
    rw [List.append_nil] at hr
    have h := adds_of_reads (f := ⟨id, encodeVector ((x :: xs).map encode)⟩) (m := m) hid
      (by rw [hset]; exact hr.bind (reads_pure.2 ⟨rfl, rfl⟩))
    rwa [if_neg hne] at h

theorem reads_customSection {m : Module} {c : CustomSection} (hm : m.names = none)
    (hfresh : c.name ∉ m.customs.map CustomSection.name) (hname : c.name ≠ "name")
    (hsize : (customFrame c).payload.length < 2 ^ 32) :
    Reads (customSection m) (customFrame c).payload { m with customs := m.customs ++ [c] } [] := by
  obtain ⟨name, data⟩ := c
  simp only [customFrame, List.length_append] at hsize ⊢
  have hno : hasCustom m name = false := by
    simpa [hasCustom, hm] using hfresh
  refine (text_restores name data trivial (by omega)).bind ?_
  rw [hno]
  simp only [Bool.false_eq_true, ↓reduceIte, hname]
  exact Reads.bind (reads_all.2 ⟨rfl, rfl⟩) (reads_pure.2 ⟨rfl, rfl⟩)

/-- Custom sections are added one after the other. -/
theorem adds_customs {m : Module} {seen : List SectionId} {cs : List CustomSection}
    (hm : m.names = none) (hseen : .custom ∉ seen)
    (hnodup : ((m.customs ++ cs).map CustomSection.name).Nodup)
    (hname : ∀ c ∈ cs, c.name ≠ "name")
    (hsize : ∀ c ∈ cs, (customFrame c).payload.length < 2 ^ 32) :
    Adds (cs.map customFrame) m seen { m with customs := m.customs ++ cs } seen := by
  induction cs generalizing m with
  | nil => simpa using Adds.nil m seen
  | cons c cs ih =>
    rw [List.forall_mem_cons] at hname hsize
    have hfresh : c.name ∉ m.customs.map CustomSection.name := by
      intro hmem
      rw [List.map_append, List.map_cons] at hnodup
      exact (List.nodup_append.1 hnodup).2.2 _ hmem _ List.mem_cons_self rfl
    have hfirst : Adds [customFrame c] m seen { m with customs := m.customs ++ [c] } seen :=
      adds_of_reads hseen (reads_customSection hm hfresh hname.1 hsize.1)
    have hrest : Adds (cs.map customFrame) { m with customs := m.customs ++ [c] } seen
        { m with customs := m.customs ++ [c] ++ cs } seen :=
      ih hm (by simpa using hnodup) hname.2 hsize.2
    rw [List.append_assoc, List.singleton_append] at hrest
    exact hfirst.append hrest

/-- The debug names come after the other custom sections. -/
theorem adds_names {m : Module} {seen : List SectionId} {names : Option NameSection}
    (hm : m.names = none) (hseen : .custom ∉ seen) (hname : ∀ c ∈ m.customs, c.name ≠ "name")
    (hsize : ∀ f ∈ nameFrames names, f.payload.length < 2 ^ 32) :
    Adds (nameFrames names) m seen { m with names } seen := by
  cases names with
  | none =>
    have hsame : { m with names := none } = m := by rw [← hm]
    rw [hsame]
    exact Adds.nil m seen
  | some names =>
    refine adds_of_reads hseen ?_
    have hsize := hsize _ List.mem_cons_self
    simp only [List.length_append] at hsize
    have hno : hasCustom m "name" = false := by
      simpa [hasCustom, hm] using hname
    refine (text_restores "name" (encodeNames names) trivial (by omega)).bind ?_
    rw [hno]
    simp only [Bool.false_eq_true, ↓reduceIte]
    exact (reads_nameSection names (by omega)).bind (reads_pure.2 ⟨rfl, rfl⟩)

/-- Decoding the sections of a well-formed module gives the module. -/
theorem adds_sections {m : Module} (h : m.WellFormed) : ∃ seen, Adds (sections m) {} [] m seen := by
  have hsize := h.sizes
  simp only [sections, List.mem_append, or_imp, forall_and] at hsize
  obtain ⟨⟨⟨⟨⟨⟨⟨⟨hc, ht⟩, hi⟩, hf⟩, hm⟩, he⟩, hco⟩, hd⟩, hn⟩ := hsize
  obtain ⟨types, imports, functions, memories, exports, codes, data, names, customs⟩ := m
  -- each section sets one more part of the module; a section comes only once
  have hcustoms : Adds (customs.map customFrame) {} [] { customs } [] :=
    adds_customs rfl (by simp) h.customs h.reserved fun c hmem => hc _ (List.mem_map_of_mem hmem)
  have htypes : Adds (itemFrames .types (types.map encodeFunctionType)) { customs } []
      { customs, types } [.types] :=
    adds_items (fun types => { customs, types }) typeSection_restores rfl rfl (by simp) (by simp)
      h.types ht
  have himports : Adds (itemFrames .imports (imports.map importBytes)) { customs, types } [.types]
      { customs, types, imports } [.imports, .types] :=
    adds_items (fun imports => { customs, types, imports }) importSection_restores rfl rfl
      (by simp) (by simp) (fun i hi => ⟨h.imports i hi, h.linkable i hi⟩) hi
  have hfunctions : Adds (itemFrames .functions (functions.map encodeU32))
      { customs, types, imports } [.imports, .types]
      { customs, types, imports, functions } [.functions, .imports, .types] :=
    adds_items (fun functions => { customs, types, imports, functions }) functionSection_restores
      rfl rfl (by simp) (by simp) (fun _ _ => trivial) hf
  have hmemories : Adds (itemFrames .memories (memories.map memoryBytes))
      { customs, types, imports, functions } [.functions, .imports, .types]
      { customs, types, imports, functions, memories }
      [.memories, .functions, .imports, .types] :=
    adds_items (fun memories => { customs, types, imports, functions, memories })
      memorySection_restores rfl rfl (by simp) (by simp) h.memories hm
  have hexports : Adds (itemFrames .exports (exports.map encodeExport))
      { customs, types, imports, functions, memories } [.memories, .functions, .imports, .types]
      { customs, types, imports, functions, memories, exports }
      [.exports, .memories, .functions, .imports, .types] :=
    adds_items (fun exports => { customs, types, imports, functions, memories, exports })
      exportSection_restores rfl rfl (by simp) (by simp) h.exports he
  have hcodes : Adds (itemFrames .codes (codes.map encodeCode))
      { customs, types, imports, functions, memories, exports }
      [.exports, .memories, .functions, .imports, .types]
      { customs, types, imports, functions, memories, exports, codes }
      [.codes, .exports, .memories, .functions, .imports, .types] :=
    adds_items (fun codes => { customs, types, imports, functions, memories, exports, codes })
      codeSection_restores rfl rfl (by simp) (by simp) h.codes hco
  have hdata : Adds (itemFrames .data (data.map encodeData))
      { customs, types, imports, functions, memories, exports, codes }
      [.codes, .exports, .memories, .functions, .imports, .types]
      { customs, types, imports, functions, memories, exports, codes, data }
      [.data, .codes, .exports, .memories, .functions, .imports, .types] :=
    adds_items (fun data => { customs, types, imports, functions, memories, exports, codes, data })
      dataSection_restores rfl rfl (by simp) (by simp) h.data hd
  have hnames : Adds (nameFrames names)
      { customs, types, imports, functions, memories, exports, codes, data }
      [.data, .codes, .exports, .memories, .functions, .imports, .types]
      { customs, types, imports, functions, memories, exports, codes, data, names }
      [.data, .codes, .exports, .memories, .functions, .imports, .types] :=
    adds_names rfl (by simp) h.reserved hn
  exact ⟨_, hcustoms.append htypes |>.append himports |>.append hfunctions |>.append hmemories
    |>.append hexports |>.append hcodes |>.append hdata |>.append hnames⟩

/-! ### Whole modules -/

theorem readHeader_header (bytes : List UInt8) (ending : Ending) :
    readHeader ⟨header ++ bytes, ending⟩ = .ok ⟨bytes, ending⟩ := rfl

theorem headerField_spec {place : Place} {s s' : Stream} {field : List UInt8}
    (h : headerField place s = .ok (field, s')) : s.bytes.length = 4 + s'.bytes.length := by
  unfold headerField at h
  split at h
  · rename_i hn
    rw [hasBytes_iff] at hn
    obtain ⟨rfl, rfl⟩ := Prod.mk.inj (Except.ok.inj h)
    simp only [List.length_drop]
    omega
  · cases h

theorem readHeader_spec {s s' : Stream} (h : readHeader s = .ok s') :
    s.bytes.length = header.length + s'.bytes.length := by
  simp only [readHeader, bind, Except.bind] at h
  split at h
  · cases h
  · rename_i r hmagic
    split at h
    · split at h
      · cases h
      · rename_i r' hversion
        split at h
        · have h₁ := headerField_spec hmagic
          have h₂ := headerField_spec hversion
          obtain rfl : r'.2 = s' := Except.ok.inj h
          rw [h₁, h₂]
          simp only [header, magicNumber, formatVersion, List.length_append, List.length_cons,
            List.length_nil]
          omega
        · cases h
    · cases h

/-- A decoded module is made from the sections that follow the header. -/
theorem decode_eq_ok {s : Stream} {m : Module} :
    decode s = .ok m ↔ ∃ s' fs d, readHeader s = .ok s' ∧ frames s' = (fs, none) ∧
      Draft.addAll {} fs = (d, none) ∧ d.finish = .ok m := by
  simp only [decode, decodeWithEvents]
  constructor
  · intro h
    split at h
    · cases h
    · rename_i s' hs
      split at h
      · cases h
      · rename_i d hd
        split at h
        · cases h
        · rename_i hf
          exact ⟨s', _, d, hs, Prod.ext rfl hf, hd, h⟩
  · rintro ⟨s', fs, d, hs, hf, hd, hm⟩
    rw [hs]
    simp only [hf, hd, hm]

theorem id_of_mem_itemFrames {id : SectionId} {items : List (List UInt8)} {f : Frame}
    (h : f ∈ itemFrames id items) : f.id = id := by
  unfold itemFrames at h
  split at h
  · cases h
  · rw [List.mem_singleton.1 h]

theorem id_of_mem_nameFrames {names : Option NameSection} {f : Frame} (h : f ∈ nameFrames names) :
    f.id = .custom := by
  cases names with
  | none => cases h
  | some n => rw [List.mem_singleton.1 h]

theorem id_mem_of_mem_sections {m : Module} {f : Frame} (h : f ∈ sections m) :
    f.id ∈ SectionId.all := by
  simp only [sections, List.mem_append, List.mem_map] at h
  rcases h with (((((((⟨c, -, rfl⟩ | h) | h) | h) | h) | h) | h) | h) | h
  · exact List.mem_cons_self
  iterate 7
    · rw [id_of_mem_itemFrames h]
      decide
  · rw [id_of_mem_nameFrames h]
    decide

/-- The encoding of a well-formed module is decoded to it. -/
theorem decode_framesBytes {m : Module} (h : m.WellFormed) :
    decode ⟨header ++ framesBytes (sections m), .clean⟩ = .ok m := by
  obtain ⟨seen, hadds⟩ := adds_sections h
  obtain ⟨d, hd, rfl, -⟩ := hadds {} rfl (List.Subset.refl _)
  refine decode_eq_ok.2 ⟨_, _, d, readHeader_header _ _, ?_, hd, ?_⟩
  · exact framesFrom_framesBytes (fun f hf => id_mem_of_mem_sections hf) h.sizes (Nat.le_refl _)
  · rw [Draft.finish, if_pos h.paired]

/-- **Decoding undoes encoding**: every well-formed module has an encoding, and decoding that
succeeds and gives the module. -/
theorem decode_encode {m : Module} (h : m.WellFormed) :
    ∃ bytes, encode m = .ok bytes ∧ decode ⟨bytes, .clean⟩ = .ok m :=
  ⟨_, encode_eq (fun i hi => ⟨h.imports i hi, h.linkable i hi⟩) h.memories, decode_framesBytes h⟩

/-- A module with every section that is written. -/
def everySection : Module where
  types := [⟨[.i32, .f64], [.i32]⟩, ⟨[], []⟩]
  imports := [⟨"env", "f", .function 1⟩, ⟨"env", "memory", .memory (some ⟨1, some 65536⟩)⟩]
  functions := [0]
  memories := [some ⟨0, none⟩]
  exports := [⟨"é", .function, 1⟩, ⟨"memory", .memory, 0⟩]
  codes := [⟨[.i32, .i32, .f32], #[.localGet 0, .cond .i32 (some 3) 7,
    .const .i32 0xffffffffffffff80, .otherwise, .loop .empty 6, .brTable [0, 1] 300, .close,
    .close]⟩]
  data := [⟨1, #[.const .i32 8], [1, 2, 3]⟩]
  names := some { functions := [⟨0, "f"⟩] }
  customs := [⟨"a", []⟩, ⟨"b", [0xff]⟩]

theorem everySection_wellFormed : everySection.WellFormed where
  types := by simp [everySection, FunctionType.Numeric, ValueType.isNumeric]
  imports := by
    simp [everySection, ImportDesc.Formed, MemoryType.Bounded, maxPages]
  memories := by simp [everySection, MemoryType.Bounded, maxPages]
  exports := by simp [everySection, ExportsFormed, ExternKind.Known]
  codes := by
    have hbody : WellNested #[.localGet 0, .cond .i32 (some 3) 7, .const .i32 0xffffffffffffff80,
        .otherwise, .loop .empty 6, .brTable [0, 1] 300, .close, .close] := by
      refine ⟨.plain (.localGet 0) (.condElse .i32 (.plain (.const .i32 0xffffffffffffff80) .done)
        (.loop .empty (.plain (.brTable [0, 1] 300) .done) .done) .done), ?_, rfl⟩
      simp [Structured.Encodable, Structured.Forall, Instruction.isStructural,
        Instruction.Encodable, ValueType.IsBlockType, ValueType.isNumeric]
    simpa [everySection, Code.Formed, ValueType.isNumeric, maxLocals] using hbody
  data := by
    have hoffset : WellNested #[.const .i32 8] := by
      refine ⟨.plain (.const .i32 8) .done, ?_, rfl⟩
      simp [Structured.Encodable, Structured.Forall, Instruction.isStructural,
        Instruction.Encodable]
    simpa [everySection] using hoffset
  customs := by decide
  reserved := by decide
  linkable := by simp [everySection, ImportDesc.Linkable, ImportDesc.kind]
  paired := rfl
  sizes := by decide +kernel

theorem decode_encode_everySection :
    everySection.WellFormed ∧
      ∃ bytes, encode everySection = .ok bytes ∧ decode ⟨bytes, .clean⟩ = .ok everySection :=
  ⟨everySection_wellFormed, decode_encode everySection_wellFormed⟩

end Binary

end WasmCore
