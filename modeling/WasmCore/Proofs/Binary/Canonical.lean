import WasmCore.Proofs.Binary.RoundTrip

/-!
# Encoding a decoded module

There are many encodings of one module: padded integers, split groups of locals, sections in any
order, sections and debug names that are passed over. Encoding a decoded module picks one of them
that is no longer (`encode_decoded`).

This is by an invariant of the decoder, `Module.Compact`: what was decoded so far is formed, and its
sections take no more bytes than those they were decoded from. As sizes only shrink, they fit into
32 bits again.
-/

namespace WasmCore

open Binary

namespace Binary

open Decoder

/-! ### Lists of sections -/

/-- The sections have sizes that fit into 32 bits and take at most `n` bytes. -/
def Fits (fs : List Frame) (n : Nat) : Prop :=
  (∀ f ∈ fs, f.payload.length < 2 ^ 32) ∧ (framesBytes fs).length ≤ n

theorem Fits.mono {fs : List Frame} {n k : Nat} (h : Fits fs n) (hnk : n ≤ k) : Fits fs k :=
  ⟨h.1, Nat.le_trans h.2 hnk⟩

theorem Fits.append {fs gs : List Frame} {n k : Nat} (h : Fits fs n) (h' : Fits gs k) :
    Fits (fs ++ gs) (n + k) := by
  refine ⟨?_, ?_⟩
  · intro f hf
    rcases List.mem_append.1 hf with hf | hf
    · exact h.1 f hf
    · exact h'.1 f hf
  · rw [framesBytes_append, List.length_append]
    exact Nat.add_le_add h.2 h'.2

theorem Fits.left {fs gs : List Frame} {n : Nat} (h : Fits (fs ++ gs) n) :
    Fits fs (framesBytes fs).length :=
  ⟨fun f hf => h.1 f (List.mem_append_left gs hf), Nat.le_refl _⟩

theorem Fits.right {fs gs : List Frame} {n : Nat} (h : Fits (fs ++ gs) n) :
    Fits gs (n - (framesBytes fs).length) := by
  refine ⟨fun f hf => h.1 f (List.mem_append_right fs hf), ?_⟩
  have hlen := h.2
  rw [framesBytes_append, List.length_append] at hlen
  omega

/-- Changing one of several lists of sections costs what it adds to that list. -/
theorem Fits.modify {lists : List (List Frame)} {n k : Nat} (h : Fits lists.flatten n) (i : Nat)
    {g : List Frame → List Frame} (hg : ∀ fs j, Fits fs j → Fits (g fs) (j + k)) :
    Fits (lists.modify i g).flatten (n + k) := by
  induction lists generalizing i n with
  | nil => exact (by simpa using h : Fits ([].modify i g).flatten n).mono (Nat.le_add_right n k)
  | cons fs lists ih =>
    have hle := h.2
    rw [List.flatten_cons, framesBytes_append, List.length_append] at hle
    cases i with
    | zero =>
      rw [List.modify_zero_cons, List.flatten_cons]
      exact ((hg fs _ h.left).append h.right).mono (by omega)
    | succ i =>
      rw [List.modify_succ_cons, List.flatten_cons]
      exact (h.left.append (ih h.right i)).mono (by omega)

/-- The sections of a module, one list for each part of it. -/
def sectionLists (m : Module) : List (List Frame) :=
  [m.customs.map customFrame,
    itemFrames .types (m.types.map encodeFunctionType),
    itemFrames .imports (m.imports.map importBytes),
    itemFrames .functions (m.functions.map encodeU32),
    itemFrames .memories (m.memories.map memoryBytes),
    itemFrames .exports (m.exports.map encodeExport),
    itemFrames .codes (m.codes.map encodeCode),
    itemFrames .data (m.data.map encodeData),
    nameFrames m.names]

theorem sections_eq (m : Module) : sections m = (sectionLists m).flatten := by
  simp [sections, sectionLists]

theorem fits_frame {id id' : SectionId} {contents payload : List UInt8}
    (h : contents.length ≤ payload.length) (hp : payload.length < 2 ^ 32) :
    Fits [⟨id, contents⟩] (Frame.bytes ⟨id', payload⟩).length := by
  refine ⟨?_, ?_⟩
  · intro f hf
    rw [List.mem_singleton.1 hf]
    exact Nat.lt_of_le_of_lt h hp
  · have := length_sized_mono h hp
    simp only [framesBytes_singleton, Frame.bytes, encodeSection, List.length_cons]
    omega

theorem fits_itemFrames {id id' : SectionId} {items : List (List UInt8)} {payload : List UInt8}
    (h : (encodeVector items).length ≤ payload.length) (hp : payload.length < 2 ^ 32) :
    Fits (itemFrames id items) (Frame.bytes ⟨id', payload⟩).length := by
  unfold itemFrames
  split
  · exact ⟨by simp, Nat.zero_le _⟩
  · exact fits_frame h hp

end Binary

/-- The module is formed, and its sections take at most `n` bytes. -/
structure Module.Compact (m : Module) (n : Nat) : Prop where
  formed : m.Formed
  fits : Fits (sections m) n

namespace Binary

open Decoder

/-! ### What decoding a section keeps -/

theorem compact_empty : Module.Compact {} 0 where
  formed := by constructor <;> simp [ExportsFormed]
  fits := ⟨by simp [sections, itemFrames, nameFrames], by decide⟩

/-- Replacing one list of sections by another. -/
theorem Fits.replace {m m' : Module} {n k : Nat} (h : Fits (sections m) n) (i : Nat)
    {fs : List Frame} (hfs : Fits fs k)
    (hm : sectionLists m' = (sectionLists m).modify i fun _ => fs) :
    Fits (sections m') (n + k) := by
  rw [sections_eq, hm]
  rw [sections_eq] at h
  exact h.modify i fun _ j _ => hfs.mono (Nat.le_add_left k j)

theorem not_hasCustom {m : Module} {name : String} (h : hasCustom m name = false) :
    name ∉ m.customs.map CustomSection.name := by
  intro hmem
  obtain ⟨c, hc, rfl⟩ := List.mem_map.1 hmem
  have : hasCustom m c.name = true := by
    rw [hasCustom, Bool.or_eq_true]
    exact .inl (List.any_eq_true.2 ⟨c, hc, by simp⟩)
  simp [this] at h

theorem compact_customSection {m m' : Module} {n : Nat} {payload : List UInt8}
    (h : m.Compact n) (hp : payload.length < 2 ^ 32)
    (hr : Reads (customSection m) payload m' []) :
    m'.Compact (n + (Frame.bytes ⟨.custom, payload⟩).length) := by
  simp only [customSection, reads_bind] at hr
  obtain ⟨name, mid, hname, hr⟩ := hr
  have hlen := (text_compacts _ _ _ hname).2
  split at hr
  · exact absurd hr not_reads_fail
  · rename_i hfresh
    split at hr
    · -- the debug names, which are written last whatever their place was
      rename_i hn
      simp only [reads_bind, reads_pure] at hr
      obtain ⟨names, _, hnames, rfl, rfl⟩ := hr
      have hle := (nameSection_compacts _ _ _ hnames).2
      refine ⟨{ h.formed with }, h.fits.replace 8 (fits_frame ?_ hp) rfl⟩
      rw [← hn, List.length_append]
      simp only [List.length_nil] at hle
      omega
    · rename_i hn
      simp only [reads_bind, reads_all, reads_pure] at hr
      obtain ⟨data, _, ⟨rfl, rfl⟩, rfl, -⟩ := hr
      have hnot := not_hasCustom (by simpa using hfresh)
      refine ⟨{ h.formed with customs := ?_, reserved := ?_ }, ?_⟩
      · rw [List.map_append, List.nodup_append]
        refine ⟨h.formed.customs, by simp, ?_⟩
        intro a ha b hb hab
        obtain rfl : b = name := by simpa using hb
        exact hnot (hab ▸ ha)
      · intro c hc
        rcases List.mem_append.1 hc with hc | hc
        · exact h.formed.reserved c hc
        · rw [List.mem_singleton.1 hc]
          exact hn
      · have hfits := h.fits
        rw [sections_eq] at hfits ⊢
        have hlists : sectionLists { m with customs := m.customs ++ [⟨name, data⟩] } =
            (sectionLists m).modify 0 (· ++ [customFrame ⟨name, data⟩]) := by
          simp [sectionLists]
        rw [hlists]
        refine hfits.modify 0 fun fs j hfs => hfs.append (fits_frame ?_ hp)
        rw [List.length_append]
        omega

/-- Decoding a section of items replaces one list of sections by that of the items. -/
theorem compact_items {α : Type} {m m' : Module} {n : Nat} {id id' : SectionId}
    {payload : List UInt8} {items : Decoder (List α)} {encode : α → List UInt8}
    {valid : List α → Prop} {set : List α → Module} (h : m.Compact n)
    (hp : payload.length < 2 ^ 32)
    (hitems : Compacts items (fun xs => encodeVector (xs.map encode)) valid) (i : Nat)
    (hr : Reads (do pure (set (← items))) payload m' [])
    (hformed : ∀ xs, valid xs → (set xs).Formed)
    (hlists : ∀ xs, sectionLists (set xs) =
      (sectionLists m).modify i fun _ => itemFrames id' (xs.map encode)) :
    m'.Compact (n + (Frame.bytes ⟨id, payload⟩).length) := by
  simp only [reads_bind, reads_pure] at hr
  obtain ⟨xs, _, hxs, rfl, -⟩ := hr
  obtain ⟨hv, hlen⟩ := hitems _ _ _ hxs
  have hfits : Fits (itemFrames id' (xs.map encode)) (Frame.bytes ⟨id, payload⟩).length :=
    fits_itemFrames (Nat.le_of_add_right_le hlen) hp
  exact ⟨hformed xs hv, h.fits.replace i hfits (hlists xs)⟩

/-- Decoding a section keeps the module compact. -/
theorem compact_section {m m' : Module} {n : Nat} {id : SectionId} {payload : List UInt8}
    (h : m.Compact n) (hp : payload.length < 2 ^ 32)
    (hr : Reads (sectionContents m id) payload m' []) :
    m'.Compact (n + (Frame.bytes ⟨id, payload⟩).length) := by
  cases id with
  | custom => exact compact_customSection h hp hr
  | types =>
    exact compact_items h hp typeSection_compacts 1 hr
      (fun _ hv => { h.formed with types := hv }) fun _ => rfl
  | imports =>
    exact compact_items h hp importSection_compacts 2 hr
      (fun _ hv => { h.formed with imports := hv }) fun _ => rfl
  | functions =>
    exact compact_items h hp functionSection_compacts 3 hr
      (fun _ _ => { h.formed with }) fun _ => rfl
  | memories =>
    exact compact_items h hp memorySection_compacts 4 hr
      (fun _ hv => { h.formed with memories := hv }) fun _ => rfl
  | exports =>
    exact compact_items h hp exportSection_compacts 5 hr
      (fun _ hv => { h.formed with exports := hv }) fun _ => rfl
  | codes =>
    exact compact_items h hp codeSection_compacts 6 hr
      (fun _ hv => { h.formed with codes := hv }) fun _ => rfl
  | data =>
    exact compact_items h hp dataSection_compacts 7 hr
      (fun _ hv => { h.formed with data := hv }) fun _ => rfl
  | tables | globals | start | elements =>
    -- these are passed over, so nothing is written for them
    simp only [sectionContents, reads_bind, reads_all, reads_pure] at hr
    obtain ⟨-, -, -, rfl, -⟩ := hr
    exact ⟨h.formed, h.fits.mono (Nat.le_add_right _ _)⟩
  | other b => exact absurd hr not_reads_fail

/-! ### Whole modules -/

theorem Draft.add_eq_ok {d d' : Draft} {f : Frame} (h : d.add f = .ok d') :
    Reads (sectionContents d.module f.id) f.payload d'.module [] := by
  unfold add at h
  split at h
  · cases h
  · split at h
    · cases h
    · rename_i m left hr
      split at h
      · rename_i hleft
        obtain rfl := Except.ok.inj h
        rw [List.isEmpty_iff.1 hleft] at hr
        exact hr
      · cases h

theorem compact_addAll {d d' : Draft} {n : Nat} {fs : List Frame} (h : d.module.Compact n)
    (hfs : ∀ f ∈ fs, f.payload.length < 2 ^ 32) (ha : d.addAll fs = (d', none)) :
    d'.module.Compact (n + (framesBytes fs).length) := by
  induction fs generalizing d n with
  | nil =>
    obtain rfl : d = d' := congrArg Prod.fst ha
    exact h
  | cons f fs ih =>
    rw [List.forall_mem_cons] at hfs
    rw [Draft.addAll] at ha
    split at ha
    · cases congrArg Prod.snd ha
    · rename_i d₁ hd
      have hnext := ih (compact_section h hfs.1 (Draft.add_eq_ok hd)) hfs.2 ha
      rwa [framesBytes_cons, List.length_append, ← Nat.add_assoc]

/-- A decoded module is formed, its functions have their codes, and its sections take no more bytes
than what followed the header. -/
theorem compact_of_decode {s : Stream} {m : Module} (h : decode s = .ok m) :
    ∃ n, m.Compact n ∧ header.length + n ≤ s.bytes.length ∧
      m.functions.length = m.codes.length := by
  obtain ⟨s', fs, d, hheader, hframes, hd, hm⟩ := decode_eq_ok.1 h
  obtain ⟨hfs, hlen⟩ := framesFrom_spec hframes
  have hcompact := compact_addAll compact_empty hfs hd
  have hbytes := readHeader_spec hheader
  unfold Draft.finish at hm
  split at hm
  · rename_i hpaired
    obtain rfl := Except.ok.inj hm
    exact ⟨_, hcompact, by omega, hpaired⟩
  · cases hm

/-- **Encoding a decoded module picks a canonical form**: whatever stream a module was decoded
from, if its imports are functions and memories then it has an encoding that is no longer than the
stream and is decoded to the same module. -/
theorem encode_decoded {s : Stream} {m : Module} (h : decode s = .ok m)
    (hi : ∀ i ∈ m.imports, i.desc.Linkable) :
    ∃ bytes, encode m = .ok bytes ∧ bytes.length ≤ s.bytes.length ∧
      decode ⟨bytes, .clean⟩ = .ok m := by
  obtain ⟨n, hcompact, hlen, hpaired⟩ := compact_of_decode h
  have hwell : m.WellFormed := ⟨hcompact.formed, hi, hpaired, hcompact.fits.1⟩
  refine ⟨_, encode_eq (fun i hmem => ⟨hwell.imports i hmem, hi i hmem⟩) hwell.memories, ?_,
    decode_framesBytes hwell⟩
  have hle := hcompact.fits.2
  rw [List.length_append]
  omega

/-- A stream with a padded size, sections out of order, one that is passed over, split and empty
groups of locals, and debug names of an unknown part and of one that comes twice. -/
def paddedStream : Stream where
  bytes := [0x00, 0x61, 0x73, 0x6d, 0x01, 0x00, 0x00, 0x00,
    0x03, 0x82, 0x00, 0x01, 0x00,
    0x0a, 0x0a, 0x01, 0x08, 0x03, 0x00, 0x7f, 0x01, 0x7f, 0x01, 0x7f, 0x0b,
    0x04, 0x01, 0x00,
    0x01, 0x04, 0x01, 0x60, 0x00, 0x00,
    0x00, 0x10, 0x04, 0x6e, 0x61, 0x6d, 0x65, 0x09, 0x01, 0xff, 0x00, 0x02, 0x01, 0x61, 0x00, 0x02,
    0x01, 0x62]

/-- The module that it encodes. -/
def paddedModule : Module where
  types := [⟨[], []⟩]
  functions := [0]
  codes := [⟨[.i32, .i32], #[]⟩]
  names := some { module := "b" }

theorem decode_paddedStream : decode paddedStream = .ok paddedModule := rfl

theorem encode_decoded_paddedStream :
    decode paddedStream = .ok paddedModule ∧ (∀ i ∈ paddedModule.imports, i.desc.Linkable) ∧
      ∃ bytes, encode paddedModule = .ok bytes ∧ bytes.length ≤ paddedStream.bytes.length ∧
        decode ⟨bytes, .clean⟩ = .ok paddedModule :=
  ⟨decode_paddedStream, by simp [paddedModule],
    encode_decoded decode_paddedStream (by simp [paddedModule])⟩

end Binary

end WasmCore
