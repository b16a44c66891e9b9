import WasmCore.Proofs.Binary.Code
import WasmCore.Proofs.Binary.Names
import WasmCore.Proofs.Binary.Section

/-!
# Modules as sequences of sections

`sections` lists the sections that the encoder writes for a module, and `encode_eq` says that the
encoding of a module is the header and these sections in a row. Cutting a stream into sections
undoes putting them in a row (`framesFrom_framesBytes`), and sections that were cut off take no more
bytes when they are written again (`framesFrom_spec`).
-/

namespace WasmCore.Binary

open Decoder

/-! ### Sections in a row -/

/-- The encoding of a section. -/
def Frame.bytes (f : Frame) : List UInt8 := encodeSection f.id f.payload

/-- The encoding of sections in a row. -/
def framesBytes (fs : List Frame) : List UInt8 := fs.flatMap Frame.bytes

theorem framesBytes_cons (f : Frame) (fs : List Frame) :
    framesBytes (f :: fs) = f.bytes ++ framesBytes fs := rfl

theorem framesBytes_append (fs gs : List Frame) :
    framesBytes (fs ++ gs) = framesBytes fs ++ framesBytes gs :=
  List.flatMap_append

theorem framesBytes_singleton (f : Frame) : framesBytes [f] = f.bytes := List.append_nil _

/-- The section of encoded items, if there are any. -/
def itemFrames (id : SectionId) (items : List (List UInt8)) : List Frame :=
  if items.isEmpty then [] else [⟨id, encodeVector items⟩]

theorem framesBytes_itemFrames (id : SectionId) (items : List (List UInt8)) :
    framesBytes (itemFrames id items) = encodeItems id items := by
  unfold itemFrames encodeItems
  split
  · rfl
  · exact framesBytes_singleton _

/-- The section of a custom section. -/
def customFrame (c : CustomSection) : Frame := ⟨.custom, encodeText c.name ++ c.data⟩

/-- The section of the debug names, if there are any. -/
def nameFrames : Option NameSection → List Frame
  | none => []
  | some n => [⟨.custom, encodeText "name" ++ encodeNames n⟩]

/-- The sections of a module in the order in which they are written. -/
def sections (m : Module) : List Frame :=
  m.customs.map customFrame ++
    itemFrames .types (m.types.map encodeFunctionType) ++
    itemFrames .imports (m.imports.map importBytes) ++
    itemFrames .functions (m.functions.map encodeU32) ++
    itemFrames .memories (m.memories.map memoryBytes) ++
    itemFrames .exports (m.exports.map encodeExport) ++
    itemFrames .codes (m.codes.map encodeCode) ++
    itemFrames .data (m.data.map encodeData) ++
    nameFrames m.names

/-- The header of a module. -/
def header : List UInt8 := magicNumber ++ formatVersion

theorem mapM_ok {α β ε : Type} {f : α → Except ε β} {g : α → β} {xs : List α}
    (h : ∀ x ∈ xs, f x = .ok (g x)) : xs.mapM f = .ok (xs.map g) := by
  induction xs with
  | nil => rfl
  | cons x xs ih =>
    rw [List.forall_mem_cons] at h
    rw [List.mapM_cons, h.1, ih h.2]
    rfl

/-- The encoding of a module whose imports and memories have one. -/
theorem encode_eq {m : Module} (hi : ∀ i ∈ m.imports, i.desc.Formed ∧ i.desc.Linkable)
    (hm : ∀ t ∈ m.memories, ∃ t' ∈ t, t'.Bounded) :
    encode m = .ok (header ++ framesBytes (sections m)) := by
  have himports : m.imports.mapM encodeImport = .ok (m.imports.map importBytes) :=
    mapM_ok fun i h => encodeImport_eq (hi i h).1 (hi i h).2
  have hmemories : m.memories.mapM encodeMemoryType = .ok (m.memories.map memoryBytes) := by
    refine mapM_ok fun t h => ?_
    obtain ⟨t, rfl, -⟩ := hm t h
    exact encodeMemoryType_some t
  have hcustoms : framesBytes (m.customs.map customFrame) =
      m.customs.flatMap fun c => encodeSection .custom (encodeText c.name ++ c.data) := by
    rw [framesBytes, List.flatMap_map]
    rfl
  have hnames : framesBytes (nameFrames m.names) =
      match m.names with
      | none => []
      | some names => encodeSection .custom (encodeText "name" ++ encodeNames names) := by
    cases m.names with
    | none => rfl
    | some names => exact framesBytes_singleton _
  simp only [encode, himports, hmemories, sections, framesBytes_append, framesBytes_itemFrames,
    hcustoms, hnames, header, List.append_assoc]
  rfl

/-! ### Cutting a stream into sections -/

theorem ofByte_byte {id : SectionId} (h : id ∈ SectionId.all) :
    SectionId.ofByte id.byte = id := by
  revert id
  decide

theorem sectionSize_encodeCount {n : Nat} (hn : n < 2 ^ 32) (id : SectionId) (ending : Ending)
    (rest : List UInt8) : sectionSize id ⟨encodeCount n ++ rest, ending⟩ = .ok (n, rest) := by
  have h := Leb128.decodeUnsigned_encodeUnsigned hn rest
  simp [sectionSize, encodeCount, encodeU32, UInt32.toNat_ofNat_of_lt' hn, h]

theorem sectionPayload_append (id : SectionId) (payload rest : List UInt8) (ending : Ending) :
    sectionPayload id payload.length ⟨payload ++ rest, ending⟩ = .ok (payload, rest) := by
  simp [sectionPayload]

theorem framesFrom_framesBytes {fs : List Frame} (hid : ∀ f ∈ fs, f.id ∈ SectionId.all)
    (hsize : ∀ f ∈ fs, f.payload.length < 2 ^ 32) {fuel : Nat}
    (hfuel : (framesBytes fs).length ≤ fuel) :
    framesFrom .clean fuel (framesBytes fs) = (fs, none) := by
  induction fs generalizing fuel with
  | nil => cases fuel <;> rfl
  | cons f fs ih =>
    obtain ⟨id, payload⟩ := f
    rw [List.forall_mem_cons] at hid hsize
    have hbytes : framesBytes (⟨id, payload⟩ :: fs) =
        id.byte :: (encodeCount payload.length ++ (payload ++ framesBytes fs)) := by
      simp [framesBytes_cons, Frame.bytes, encodeSection, sized]
    rw [hbytes] at hfuel ⊢
    simp only [List.length_cons, List.length_append] at hfuel
    obtain ⟨fuel, rfl⟩ := Nat.exists_eq_add_of_lt (Nat.zero_lt_of_lt hfuel)
    rw [framesFrom, ofByte_byte hid.1]
    simp only [sectionSize_encodeCount hsize.1, sectionPayload_append,
      ih hid.2 hsize.2 (by omega : (framesBytes fs).length ≤ 0 + fuel)]

theorem sectionSize_spec {id : SectionId} {s : Stream} {n : Nat} {rest : List UInt8}
    (h : sectionSize id s = .ok (n, rest)) :
    n < 2 ^ 32 ∧ (encodeCount n).length + rest.length ≤ s.bytes.length := by
  unfold sectionSize at h
  split at h
  · rename_i k left hd
    obtain ⟨rfl, rfl⟩ : k = n ∧ left = rest := by simpa using h
    obtain ⟨hk, hlen⟩ := Leb128.decodeUnsigned_spec hd
    exact ⟨hk, by rwa [length_encodeCount hk]⟩
  · cases h
  · split at h <;> cases h

theorem sectionPayload_spec {id : SectionId} {n : Nat} {s : Stream} {payload rest : List UInt8}
    (h : sectionPayload id n s = .ok (payload, rest)) :
    payload.length = n ∧ s.bytes.length = n + rest.length := by
  unfold sectionPayload at h
  split at h
  · rename_i hn
    rw [hasBytes_iff] at hn
    obtain ⟨rfl, rfl⟩ : s.bytes.take n = payload ∧ s.bytes.drop n = rest := by simpa using h
    refine ⟨List.length_take_of_le hn, ?_⟩
    rw [List.length_drop]
    omega
  · split at h <;> cases h

/-- Sections that were cut off a stream take no more bytes when they are put in a row again. -/
theorem framesFrom_spec {ending : Ending} {fuel : Nat} {bytes : List UInt8} {fs : List Frame}
    {failure : Option DecodeError} (h : framesFrom ending fuel bytes = (fs, failure)) :
    (∀ f ∈ fs, f.payload.length < 2 ^ 32) ∧ (framesBytes fs).length ≤ bytes.length := by
  induction fuel generalizing bytes fs failure with
  | zero =>
    have : fs = [] := by
      cases bytes with
      | nil => cases ending <;> simp_all [framesFrom]
      | cons b bytes => simp_all [framesFrom]
    simp [this, framesBytes]
  | succ fuel ih =>
    cases bytes with
    | nil =>
      have : fs = [] := by cases ending <;> simp_all [framesFrom]
      simp [this, framesBytes]
    | cons b bytes =>
      simp only [framesFrom] at h
      split at h
      · obtain ⟨rfl, rfl⟩ := Prod.mk.inj h
        simp [framesBytes]
      · rename_i n rest hsize
        split at h
        · obtain ⟨rfl, rfl⟩ := Prod.mk.inj h
          simp [framesBytes]
        · rename_i payload rest' hpayload
          obtain ⟨hn, hle⟩ := sectionSize_spec hsize
          obtain ⟨hp, hrest⟩ := sectionPayload_spec hpayload
          -- a failure further on keeps the sections before it
          obtain ⟨hsmall, hlen⟩ := ih (Prod.eta (framesFrom ending fuel rest')).symm
          dsimp only at hle hrest
          obtain ⟨rfl, rfl⟩ := Prod.mk.inj h
          rw [List.forall_mem_cons]
          refine ⟨⟨by simpa [hp] using hn, hsmall⟩, ?_⟩
          simp only [framesBytes_cons, Frame.bytes, encodeSection, sized, hp, List.length_append,
            List.length_cons] at hlen ⊢
          omega

end WasmCore.Binary
