import WasmCore.Proofs.Binary.Expression

/-!
# Sections: decoding undoes encoding

The contents of the sections of types, imports, functions, memories and exports. For each kind of
item this module says which items the format can express, and that they are read back from their
encoding and never take more bytes when they are written again.

The decoder also reads imports of tables and globals, which have no encoding: `ImportDesc.Formed` is
what it reads, and `ImportDesc.Linkable` what can be written.
-/

namespace WasmCore

/-- Parameters and results are numbers. -/
def FunctionType.Numeric (t : FunctionType) : Prop :=
  (∀ p ∈ t.params, p.isNumeric = true) ∧ ∀ r ∈ t.results, r.isNumeric = true

/-- The limits are within the address space, and the minimum is not above the maximum. -/
def MemoryType.Bounded (t : MemoryType) : Prop :=
  t.min ≤ maxPages ∧ ∀ max ∈ t.max, max ≤ maxPages ∧ t.min ≤ max

/-- The import has one of the four kinds, and a memory has sound limits. -/
def ImportDesc.Formed : ImportDesc → Prop
  | .function _ | .table | .global => True
  | .memory type => ∃ t ∈ type, t.Bounded
  | .other _ => False

/-- The import is a function or a memory. -/
def ImportDesc.Linkable (d : ImportDesc) : Prop := d.kind = .function ∨ d.kind = .memory

/-- The kind is one of the four of the format. -/
def ExternKind.Known (kind : ExternKind) : Prop := ∀ code, kind ≠ .other code

namespace Binary

open Decoder

/-! ### Types -/

theorem valueTypes_restores :
    Restores valueTypes (fun ts => encodeVector (ts.map fun t => [t.code]))
      fun ts => ∀ t ∈ ts, t.isNumeric = true :=
  counted_restores (fun _ => valueType_restores) fun _ _ => Nat.one_pos

theorem valueTypes_compacts :
    Compacts valueTypes (fun ts => encodeVector (ts.map fun t => [t.code]))
      fun ts => ∀ t ∈ ts, t.isNumeric = true :=
  counted_compacts fun _ => valueType_compacts

theorem functionType_restores :
    Restores functionType encodeFunctionType FunctionType.Numeric := by
  rintro ⟨params, results⟩ rest ⟨hp, hr⟩ hlen
  simp only [encodeFunctionType, List.cons_append, List.length_cons, List.length_append] at hlen
  simp only [encodeFunctionType, List.cons_append, List.append_assoc]
  refine (reads_within.2 (reads_byte.2 rfl)).bind ?_
  rw [if_pos rfl]
  refine (valueTypes_restores.within params _ hp (by omega)).bind ?_
  refine (valueTypes_restores.within results rest hr (by omega)).bind ?_
  exact reads_pure.2 ⟨rfl, rfl⟩

theorem functionType_compacts :
    Compacts functionType encodeFunctionType FunctionType.Numeric := by
  intro bytes t rest h
  simp only [functionType, reads_bind, reads_within, reads_byte] at h
  obtain ⟨form, mid, rfl, h⟩ := h
  split at h
  · simp only [reads_bind, reads_within, reads_pure] at h
    obtain ⟨params, mid₁, hp, results, _, hr, rfl, rfl⟩ := h
    obtain ⟨hvp, hlp⟩ := valueTypes_compacts _ _ _ hp
    obtain ⟨hvr, hlr⟩ := valueTypes_compacts _ _ _ hr
    refine ⟨⟨hvp, hvr⟩, ?_⟩
    simp only [encodeFunctionType, List.cons_append, List.length_cons, List.length_append]
    dsimp only at hlp hlr
    omega
  · exact absurd h not_reads_fail

theorem length_encodeFunctionType_pos (t : FunctionType) : 0 < (encodeFunctionType t).length := by
  simp [encodeFunctionType]

theorem typeSection_restores :
    Restores typeSection (fun ts => encodeVector (ts.map encodeFunctionType))
      fun ts => ∀ t ∈ ts, t.Numeric :=
  counted_restores (fun _ => functionType_restores.concealing) fun t _ =>
    length_encodeFunctionType_pos t

theorem typeSection_compacts :
    Compacts typeSection (fun ts => encodeVector (ts.map encodeFunctionType))
      fun ts => ∀ t ∈ ts, t.Numeric :=
  counted_compacts fun _ => functionType_compacts.concealing

/-! ### Memories -/

/-- The encoding of limits. -/
def limitBytes : MemoryType → List UInt8
  | ⟨min, none⟩ => 0 :: encodeU32 min
  | ⟨min, some max⟩ => 1 :: encodeU32 min ++ encodeU32 max

theorem encodeMemoryType_some (t : MemoryType) :
    encodeMemoryType (some t) = .ok (limitBytes t) := by
  obtain ⟨min, max⟩ := t
  cases max <;> rfl

theorem reads_limits (t : MemoryType) (rest : List UInt8) :
    Reads limits (limitBytes t ++ rest) t rest := by
  obtain ⟨min, max⟩ := t
  cases max with
  | none =>
    refine (reads_within.2 (reads_byte.2 rfl)).bind ?_
    exact (reads_within.2 (reads_u32_encodeU32 min rest)).bind (reads_pure.2 ⟨rfl, rfl⟩)
  | some max =>
    simp only [limitBytes, List.cons_append, List.append_assoc]
    refine (reads_within.2 (reads_byte.2 rfl)).bind ?_
    refine (reads_within.2 (reads_u32_encodeU32 min _)).bind ?_
    exact (reads_within.2 (reads_u32_encodeU32 max rest)).bind (reads_pure.2 ⟨rfl, rfl⟩)

theorem length_le_of_reads_limits {bytes rest : List UInt8} {t : MemoryType}
    (h : Reads limits bytes t rest) : (limitBytes t).length + rest.length ≤ bytes.length := by
  simp only [limits, reads_bind, reads_within, reads_byte] at h
  obtain ⟨flag, mid, rfl, h⟩ := h
  split at h
  · simp only [reads_bind, reads_within, reads_pure] at h
    obtain ⟨min, _, hmin, rfl, rfl⟩ := h
    have := length_le_of_reads_u32 hmin
    simp only [limitBytes, List.length_cons]
    omega
  · split at h
    · simp only [reads_bind, reads_within, reads_pure] at h
      obtain ⟨min, mid₁, hmin, max, _, hmax, rfl, rfl⟩ := h
      have := length_le_of_reads_u32 hmin
      have := length_le_of_reads_u32 hmax
      simp only [limitBytes, List.cons_append, List.length_cons, List.length_append]
      omega
    · exact absurd h not_reads_fail

theorem memoryFlaw?_eq_none {t : MemoryType} : memoryFlaw? t = none ↔ t.Bounded := by
  obtain ⟨min, max⟩ := t
  cases max with
  | none => simp [memoryFlaw?, MemoryType.Bounded]
  | some max =>
    simp only [memoryFlaw?, MemoryType.Bounded, Option.mem_def, Option.some.injEq, forall_eq']
    split
    · rename_i h
      simp [UInt32.not_le.2 h]
    · rename_i h
      have hmin := UInt32.not_lt.1 h
      split
      · rename_i h
        simp [UInt32.not_le.2 h]
      · rename_i h
        have hmax := UInt32.not_lt.1 h
        split <;> simp_all

theorem memoryType_restores : Restores memoryType limitBytes MemoryType.Bounded := by
  intro t rest ht _
  refine (reads_limits t rest).bind ?_
  rw [memoryFlaw?_eq_none.2 ht]
  exact reads_pure.2 ⟨rfl, rfl⟩

theorem memoryType_compacts : Compacts memoryType limitBytes MemoryType.Bounded := by
  intro bytes t rest h
  simp only [memoryType, reads_bind] at h
  obtain ⟨t, mid, ht, h⟩ := h
  split at h
  · rename_i hflaw
    obtain ⟨rfl, rfl⟩ := reads_pure.1 h
    exact ⟨memoryFlaw?_eq_none.1 hflaw, length_le_of_reads_limits ht⟩
  · exact absurd h not_reads_fail

/-- The encoding of a memory, of which there is none without a type. -/
def memoryBytes : Option MemoryType → List UInt8
  | some t => limitBytes t
  | none => []

theorem length_limitBytes_pos (t : MemoryType) : 0 < (limitBytes t).length := by
  obtain ⟨min, max⟩ := t
  cases max <;> simp [limitBytes]

theorem memorySection_restores :
    Restores memorySection (fun ms => encodeVector (ms.map memoryBytes))
      fun ms => ∀ m ∈ ms, ∃ t ∈ m, t.Bounded := by
  refine counted_restores (fun _ => ?_) ?_
  · rintro m rest ⟨t, rfl, ht⟩ hlen
    exact reads_map.2 ⟨t, memoryType_restores.within t rest ht hlen, rfl⟩
  · rintro m ⟨t, rfl, -⟩
    exact length_limitBytes_pos t

theorem memorySection_compacts :
    Compacts memorySection (fun ms => encodeVector (ms.map memoryBytes))
      fun ms => ∀ m ∈ ms, ∃ t ∈ m, t.Bounded := by
  refine counted_compacts fun _ bytes m rest h => ?_
  obtain ⟨t, ht, rfl⟩ := reads_map.1 h
  obtain ⟨hb, hlen⟩ := memoryType_compacts.within _ _ _ ht
  exact ⟨⟨t, rfl, hb⟩, hlen⟩

/-! ### Imports -/

/-- The encoding of what an import denotes after the byte of its kind; only functions and memories
have one. -/
def importDescBytes : ImportDesc → List UInt8
  | .function type => encodeU32 type
  | .memory type => memoryBytes type
  | _ => []

/-- The encoding of an import. -/
def importBytes (i : Import) : List UInt8 :=
  encodeText i.module ++ encodeText i.name ++ i.desc.kind.code :: importDescBytes i.desc

theorem encodeImport_eq {i : Import} (hf : i.desc.Formed) (hl : i.desc.Linkable) :
    encodeImport i = .ok (importBytes i) := by
  obtain ⟨module, name, desc⟩ := i
  cases desc with
  | function type => rfl
  | memory type =>
    obtain ⟨t, rfl, -⟩ := hf
    simp only [encodeImport, encodeImportDesc, encodeMemoryType_some]
    rfl
  | table | global | other code => simp [ImportDesc.Linkable, ImportDesc.kind] at hl

theorem importDesc_restores :
    Restores importDesc (fun d => d.kind.code :: importDescBytes d)
      fun d => d.Formed ∧ d.Linkable := by
  rintro d rest ⟨hf, hl⟩ hlen
  refine (reads_within.2 (reads_byte.2 rfl)).bind ?_
  cases d with
  | function type =>
    exact (reads_within.2 (reads_u32_encodeU32 type rest)).bind (reads_pure.2 ⟨rfl, rfl⟩)
  | memory type =>
    obtain ⟨t, rfl, ht⟩ := hf
    have hlen : (limitBytes t).length < 2 ^ 32 := Nat.lt_of_succ_lt hlen
    exact (memoryType_restores.within t rest ht hlen).bind (reads_pure.2 ⟨rfl, rfl⟩)
  | table | global | other code => simp [ImportDesc.Linkable, ImportDesc.kind] at hl

theorem length_le_of_reads_tableType {bytes rest : List UInt8} {u : Unit}
    (h : Reads tableType bytes u rest) : rest.length ≤ bytes.length := by
  simp only [tableType, reads_bind, reads_within, reads_byte] at h
  obtain ⟨b, mid, rfl, h⟩ := h
  split at h
  · simp only [reads_bind, reads_pure] at h
    obtain ⟨t, _, ht, -, rfl⟩ := h
    have := length_le_of_reads_limits ht
    simp only [List.length_cons]
    omega
  · exact absurd h not_reads_fail

theorem length_le_of_reads_globalType {bytes rest : List UInt8} {u : Unit}
    (h : Reads globalType bytes u rest) : rest.length ≤ bytes.length := by
  simp only [globalType, reads_bind, reads_within, reads_byte] at h
  obtain ⟨t, _, ht, b, mid, rfl, h⟩ := h
  have hlen := (valueType_compacts _ _ _ ht).2
  split at h
  · obtain ⟨-, rfl⟩ := reads_pure.1 h
    simp only [List.length_cons] at hlen
    omega
  · exact absurd h not_reads_fail

theorem importDesc_compacts :
    Compacts importDesc (fun d => d.kind.code :: importDescBytes d) ImportDesc.Formed := by
  intro bytes d rest h
  simp only [importDesc, reads_bind, reads_within, reads_byte] at h
  obtain ⟨b, mid, rfl, h⟩ := h
  -- a function, a table, a memory or a global, in the order of their bytes
  split at h
  · simp only [reads_bind, reads_within, reads_pure] at h
    obtain ⟨type, _, ht, rfl, rfl⟩ := h
    have := length_le_of_reads_u32 ht
    exact ⟨trivial, by simp only [importDescBytes, List.length_cons]; omega⟩
  · simp only [reads_bind, reads_within, reads_pure] at h
    obtain ⟨_, _, ht, rfl, rfl⟩ := h
    have := length_le_of_reads_tableType ht
    exact ⟨trivial, by simp only [importDescBytes, List.length_cons, List.length_nil]; omega⟩
  · simp only [reads_bind, reads_within, reads_pure] at h
    obtain ⟨t, _, ht, rfl, rfl⟩ := h
    obtain ⟨hb, hlen⟩ := memoryType_compacts _ _ _ ht
    refine ⟨⟨t, rfl, hb⟩, ?_⟩
    simp only [importDescBytes, memoryBytes, List.length_cons]
    omega
  · simp only [reads_bind, reads_within, reads_pure] at h
    obtain ⟨_, _, ht, rfl, rfl⟩ := h
    have := length_le_of_reads_globalType ht
    exact ⟨trivial, by simp only [importDescBytes, List.length_cons, List.length_nil]; omega⟩
  · exact absurd h not_reads_fail

theorem importEntry_restores :
    Restores importEntry importBytes fun i => i.desc.Formed ∧ i.desc.Linkable := by
  rintro ⟨module, name, desc⟩ rest hd hlen
  simp only [importBytes, List.length_append, List.length_cons] at hlen
  simp only [importBytes, List.append_assoc]
  refine (text_restores module _ trivial (by omega)).bind ?_
  refine (text_restores name _ trivial (by omega)).bind ?_
  refine (importDesc_restores desc rest hd (by simp only [List.length_cons]; omega)).bind ?_
  exact reads_pure.2 ⟨rfl, rfl⟩

theorem importEntry_compacts : Compacts importEntry importBytes fun i => i.desc.Formed := by
  intro bytes i rest h
  simp only [importEntry, reads_bind, reads_pure] at h
  obtain ⟨module, mid, hm, name, mid₁, hn, desc, _, hd, rfl, rfl⟩ := h
  have hm := (text_compacts _ _ _ hm).2
  have hn := (text_compacts _ _ _ hn).2
  obtain ⟨hf, hd⟩ := importDesc_compacts _ _ _ hd
  refine ⟨hf, ?_⟩
  simp only [importBytes, List.length_append]
  dsimp only at hd
  omega

theorem length_importBytes_pos (i : Import) : 0 < (importBytes i).length := by
  simp only [importBytes, List.length_append, List.length_cons]
  omega

theorem importSection_restores :
    Restores importSection (fun is => encodeVector (is.map importBytes))
      fun is => ∀ i ∈ is, i.desc.Formed ∧ i.desc.Linkable :=
  counted_restores (fun _ => importEntry_restores.within) fun i _ => length_importBytes_pos i

theorem importSection_compacts :
    Compacts importSection (fun is => encodeVector (is.map importBytes))
      fun is => ∀ i ∈ is, i.desc.Formed :=
  counted_compacts fun _ => importEntry_compacts.within

/-! ### Functions and exports -/

theorem functionSection_restores :
    Restores functionSection (fun fs => encodeVector (fs.map encodeU32))
      fun fs => ∀ f ∈ fs, True :=
  counted_restores (fun _ => u32_restores.within) fun n _ => length_encodeU32_pos n

theorem functionSection_compacts :
    Compacts functionSection (fun fs => encodeVector (fs.map encodeU32)) fun fs => ∀ f ∈ fs, True :=
  counted_compacts fun _ => u32_compacts.within

theorem exportEntry_restores :
    Restores exportEntry encodeExport fun e => e.kind.Known := by
  rintro ⟨name, kind, index⟩ rest hk hlen
  simp only [encodeExport, List.length_append] at hlen
  simp only [encodeExport, List.append_assoc]
  refine (text_restores name _ trivial (by omega)).bind ?_
  refine (reads_within.2 (reads_byte.2 rfl)).bind ?_
  cases kind with
  | other code => exact absurd rfl (hk code)
  | _ => exact (reads_within.2 (reads_u32_encodeU32 index rest)).bind (reads_pure.2 ⟨rfl, rfl⟩)

theorem exportEntry_compacts :
    Compacts exportEntry encodeExport fun e => e.kind.Known := by
  intro bytes e rest h
  simp only [exportEntry, reads_bind, reads_within, reads_byte] at h
  obtain ⟨name, _, hn, b, mid, rfl, h⟩ := h
  have hn := (text_compacts _ _ _ hn).2
  split at h
  · exact absurd h not_reads_fail
  · rename_i hk
    simp only [reads_bind, reads_within, reads_pure] at h
    obtain ⟨index, _, hi, rfl, rfl⟩ := h
    have hi := length_le_of_reads_u32 hi
    refine ⟨hk, ?_⟩
    simp only [encodeExport, List.length_append, List.length_cons] at hn ⊢
    omega

theorem length_encodeExport_pos (e : Export) : 0 < (encodeExport e).length := by
  simp only [encodeExport, List.length_append, List.length_cons]
  omega

/-- The exports have kinds of the format, and no two of them have the same name. -/
def ExportsFormed (es : List Export) : Prop :=
  (∀ e ∈ es, e.kind.Known) ∧ (es.map Export.name).Nodup

theorem exportEntries_restores {es : List Export} (he : ExportsFormed es) (position : Nat)
    {taken : List String} (ht : ∀ e ∈ es, e.name ∉ taken)
    (hlen : (es.map encodeExport).flatten.length < 2 ^ 32) (rest : List UInt8) :
    Reads (exportEntries es.length position taken) ((es.map encodeExport).flatten ++ rest) es
      rest := by
  induction es generalizing position taken with
  | nil => exact reads_pure.2 ⟨rfl, rfl⟩
  | cons e es ih =>
    obtain ⟨hk, hn⟩ := he
    obtain ⟨hfresh, hn⟩ := List.nodup_cons.1 hn
    simp only [List.map_cons, List.flatten_cons, List.length_append] at hlen
    simp only [List.map_cons, List.flatten_cons, List.append_assoc]
    refine (exportEntry_restores.within e _ (hk e List.mem_cons_self) (by omega)).bind ?_
    rw [if_neg (ht e List.mem_cons_self)]
    -- the names that are taken grow by one; those that follow avoid it too
    have htail : ∀ e' ∈ es, e'.name ∉ e.name :: taken := by
      intro e' he'
      rw [List.mem_cons, not_or]
      refine ⟨fun heq => hfresh ?_, ht e' (List.mem_cons_of_mem e he')⟩
      exact heq ▸ List.mem_map_of_mem he'
    refine (ih ⟨fun e' he' => hk e' (List.mem_cons_of_mem e he'), hn⟩ (position + 1) htail
      (by omega)).bind ?_
    exact reads_pure.2 ⟨rfl, rfl⟩

theorem exportEntries_compacts {n position : Nat} {taken : List String} {bytes rest : List UInt8}
    {es : List Export} (h : Reads (exportEntries n position taken) bytes es rest) :
    es.length = n ∧ ExportsFormed es ∧ (∀ e ∈ es, e.name ∉ taken) ∧
      (es.map encodeExport).flatten.length + rest.length ≤ bytes.length := by
  induction n generalizing position taken bytes es with
  | zero =>
    obtain ⟨rfl, rfl⟩ := reads_pure.1 h
    simp [ExportsFormed]
  | succ n ih =>
    simp only [exportEntries, reads_bind, reads_within] at h
    obtain ⟨e, mid, he, h⟩ := h
    obtain ⟨hk, hle⟩ := exportEntry_compacts _ _ _ he
    split at h
    · exact absurd h not_reads_fail
    · rename_i hfresh
      simp only [reads_bind, reads_pure] at h
      obtain ⟨es, _, hes, rfl, rfl⟩ := h
      obtain ⟨hcount, ⟨hks, hns⟩, hts, hls⟩ := ih hes
      refine ⟨by simp [hcount], ⟨?_, ?_⟩, ?_, ?_⟩
      · simpa using ⟨hk, hks⟩
      · rw [List.map_cons, List.nodup_cons]
        refine ⟨?_, hns⟩
        rw [List.mem_map]
        rintro ⟨e', he', heq⟩
        exact hts e' he' (heq ▸ List.mem_cons_self)
      · simp only [List.mem_cons, forall_eq_or_imp]
        exact ⟨hfresh, fun e' he' hmem => hts e' he' (List.mem_cons_of_mem _ hmem)⟩
      · simp only [List.map_cons, List.flatten_cons, List.length_append]
        omega

theorem exportSection_eq :
    exportSection = numbered .vectorSize .vector fun n => exportEntries n 0 [] := rfl

theorem exportSection_restores :
    Restores exportSection (fun es => encodeVector (es.map encodeExport)) ExportsFormed := by
  rw [exportSection_eq]
  refine numbered_restores (fun es rest he hlen => ?_) fun _ _ e _ => length_encodeExport_pos e
  exact exportEntries_restores he 0 (by simp) hlen rest

theorem exportSection_compacts :
    Compacts exportSection (fun es => encodeVector (es.map encodeExport)) ExportsFormed := by
  rw [exportSection_eq]
  refine numbered_compacts fun h => ?_
  obtain ⟨hcount, he, -, hls⟩ := exportEntries_compacts h
  exact ⟨hcount, he, hls⟩

end Binary

end WasmCore
