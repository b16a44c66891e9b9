import WasmCore.Proofs.Binary.Decoder

/-!
# Debug names: decoding undoes encoding

The parts of the debug names may come in any order and more than once, and parts that say nothing
are left out when they are written. `nameParts_compacts` is by induction on the parts: each one
replaces names by others, so the encoding of the names so far grows by no more than the bytes of the
part.
-/

namespace WasmCore.Binary

open Decoder

/-! ### Names of functions and locals -/

/-- An index and a name, whose role depends on the index. -/
def nameAssoc (place : Place) (role : UInt32 → TextRole) : Decoder NameAssoc := do
  let index ← within place u32
  let name ← text (role index)
  pure ⟨index, name⟩

theorem functionName_eq :
    functionName = nameAssoc (.functionIndex functionPart) fun index => .function index.toNat := rfl

theorem localName_eq (function : UInt32) :
    localName function = nameAssoc (.localIndexOf function.toNat) fun index =>
      .localOf function.toNat index.toNat := rfl

theorem nameAssoc_restores {place : Place} {role : UInt32 → TextRole} :
    Restores (nameAssoc place role) encodeNameAssoc fun _ => True := by
  rintro ⟨index, name⟩ rest - hlen
  simp only [encodeNameAssoc, List.length_append] at hlen
  simp only [encodeNameAssoc, List.append_assoc]
  refine (reads_within.2 (reads_u32_encodeU32 index _)).bind ?_
  exact (text_restores name rest trivial (by omega)).bind (reads_pure.2 ⟨rfl, rfl⟩)

theorem nameAssoc_compacts {place : Place} {role : UInt32 → TextRole} :
    Compacts (nameAssoc place role) encodeNameAssoc fun _ => True := by
  intro bytes n rest h
  simp only [nameAssoc, reads_bind, reads_within, reads_pure] at h
  obtain ⟨index, mid, hi, name, _, hn, rfl, rfl⟩ := h
  have hi := length_le_of_reads_u32 hi
  have hn := (text_compacts _ _ _ hn).2
  refine ⟨trivial, ?_⟩
  simp only [encodeNameAssoc, List.length_append]
  omega

theorem length_encodeNameAssoc_pos (n : NameAssoc) : 0 < (encodeNameAssoc n).length := by
  have := length_encodeU32_pos n.index
  simp only [encodeNameAssoc, List.length_append]
  omega

theorem functionNames_eq :
    functionNames = counted (.functionCount functionPart) (.functions functionPart)
      fun _ => nameAssoc (.functionIndex functionPart) fun index => .function index.toNat := by
  simp only [functionNames, functionCount, counted, bind_assoc, pure_bind, functionName_eq]

theorem functionNames_restores : Restores functionNames encodeNameMap fun _ => True := by
  intro names rest _ hlen
  rw [functionNames_eq]
  exact counted_restores (fun _ => nameAssoc_restores)
    (fun n _ => length_encodeNameAssoc_pos n) names rest (fun _ _ => trivial) hlen

theorem functionNames_compacts : Compacts functionNames encodeNameMap fun _ => True := by
  intro bytes names rest h
  rw [functionNames_eq] at h
  exact ⟨trivial, (counted_compacts (fun _ => nameAssoc_compacts) _ _ _ h).2⟩

/-- The encoding of the names of the locals of a function. -/
def localNamesBytes (l : LocalNames) : List UInt8 := encodeU32 l.index ++ encodeNameMap l.names

theorem localNamesEntry_eq :
    localNamesEntry = (do
      let function ← within (.functionIndex localPart) u32
      let names ← counted (.localCountOf function.toNat) (.localsOf function.toNat)
        fun _ => nameAssoc (.localIndexOf function.toNat) fun index =>
          .localOf function.toNat index.toNat
      pure ⟨function, names⟩) := by
  simp only [localNamesEntry, counted, bind_assoc, localName_eq]

theorem localNamesEntry_restores :
    Restores localNamesEntry localNamesBytes fun _ => True := by
  rintro ⟨index, names⟩ rest - hlen
  simp only [localNamesBytes, List.length_append] at hlen
  simp only [localNamesBytes, List.append_assoc, localNamesEntry_eq]
  refine (reads_within.2 (reads_u32_encodeU32 index _)).bind ?_
  refine (counted_restores (fun _ => nameAssoc_restores)
    (fun n _ => length_encodeNameAssoc_pos n) names rest (fun _ _ => trivial)
    (Nat.lt_of_le_of_lt (Nat.le_add_left _ _) hlen)).bind ?_
  exact reads_pure.2 ⟨rfl, rfl⟩

theorem localNamesEntry_compacts :
    Compacts localNamesEntry localNamesBytes fun _ => True := by
  intro bytes l rest h
  simp only [localNamesEntry_eq, reads_bind, reads_within, reads_pure] at h
  obtain ⟨index, mid, hi, names, _, hn, rfl, rfl⟩ := h
  have hi := length_le_of_reads_u32 hi
  have hn : (encodeNameMap names).length + rest.length ≤ mid.length :=
    (counted_compacts (fun _ => nameAssoc_compacts) _ _ _ hn).2
  refine ⟨trivial, ?_⟩
  simp only [localNamesBytes, List.length_append]
  omega

theorem length_localNamesBytes_pos (l : LocalNames) : 0 < (localNamesBytes l).length := by
  have := length_encodeU32_pos l.index
  simp only [localNamesBytes, List.length_append]
  omega

theorem localNames_eq :
    localNames = counted (.functionCount localPart) (.functions localPart)
      fun _ => localNamesEntry := by
  simp only [localNames, functionCount, counted, bind_assoc, pure_bind]

theorem localNames_restores :
    Restores localNames (fun ls => encodeVector (ls.map localNamesBytes)) fun _ => True := by
  intro names rest _ hlen
  rw [localNames_eq]
  exact counted_restores (fun _ => localNamesEntry_restores)
    (fun l _ => length_localNamesBytes_pos l) names rest (fun _ _ => trivial) hlen

theorem localNames_compacts :
    Compacts localNames (fun ls => encodeVector (ls.map localNamesBytes)) fun _ => True := by
  intro bytes names rest h
  rw [localNames_eq] at h
  exact ⟨trivial, (counted_compacts (fun _ => localNamesEntry_compacts) _ _ _ h).2⟩

/-! ### Parts -/

theorem nameParts_succ (fuel : Nat) (names : NameSection) :
    nameParts (fuel + 1) names = (do
      if ← atEnd then pure names
      else
        let id := (← byte).toNat
        let bytes ← part (.subsectionSize id) (.subsection id)
        match namePart? names id with
        | none => nameParts fuel names
        | some contents => do
          let (added, left) ← nested bytes contents
          if left.isEmpty then nameParts fuel added
          else fail (.flaw (.bytesAfterSubsection id left.length))) := by
  refine bind_congr fun ended => ?_
  cases ended with
  | false => exact bind_congr fun id => (part_bind _ _ _).symm
  | true => rfl

theorem reads_nameParts_nil (fuel : Nat) (names : NameSection) :
    Reads (nameParts fuel names) [] names [] := by
  cases fuel with
  | zero => exact reads_pure.2 ⟨rfl, rfl⟩
  | succ fuel =>
    rw [nameParts_succ]
    exact Reads.bind (reads_atEnd.2 ⟨rfl, rfl⟩) (reads_pure.2 ⟨rfl, rfl⟩)

theorem reads_nameParts_cons {fuel id : Nat} {names added r : NameSection}
    {d : Decoder NameSection} {contents mid rest : List UInt8} (hid : id < 256)
    (hd : namePart? names id = some d) (hr : Reads d contents added [])
    (hlen : (sized contents).length < 2 ^ 32) (hnext : Reads (nameParts fuel added) mid r rest) :
    Reads (nameParts (fuel + 1) names) (id.toUInt8 :: sized contents ++ mid) r rest := by
  rw [nameParts_succ]
  refine Reads.bind (reads_atEnd.2 ⟨rfl, rfl⟩) ?_
  refine Reads.bind (reads_byte.2 rfl) ?_
  dsimp only
  rw [Leb128.toNat_toUInt8 hid]
  refine (part_restores contents mid trivial hlen).bind ?_
  rw [hd]
  exact Reads.bind (reads_nested.2 ⟨hr, rfl⟩) hnext

/-- Reads the parts of names, with any fuel that suffices. -/
def ReadsParts (names : NameSection) (bytes : List UInt8) (r : NameSection) : Prop :=
  ∀ fuel, bytes.length ≤ fuel → Reads (nameParts fuel names) bytes r []

/-- A part that is left out adds nothing. -/
theorem readsParts_encodeNamePart {id : Nat} {names r : NameSection} {empty : Bool}
    {d : Decoder NameSection} {contents mid : List UInt8} (added : NameSection) (hid : id < 256)
    (hempty : empty = true → added = names) (hd : namePart? names id = some d)
    (hr : (sized contents).length < 2 ^ 32 → Reads d contents added [])
    (hlen : (encodeNamePart id empty contents).length < 2 ^ 32) (hnext : ReadsParts added mid r) :
    ReadsParts names (encodeNamePart id empty contents ++ mid) r := by
  intro fuel hfuel
  unfold encodeNamePart at hlen hfuel ⊢
  split at hfuel
  · rename_i he
    rw [if_pos he]
    exact hempty he ▸ hnext fuel hfuel
  · rename_i he
    rw [if_neg he] at hlen ⊢
    simp only [List.length_cons, List.cons_append, List.length_append] at hlen hfuel
    obtain ⟨fuel, rfl⟩ := Nat.exists_eq_add_of_lt (Nat.zero_lt_of_lt hfuel)
    exact reads_nameParts_cons hid hd (hr (by omega)) (by omega) (hnext _ (by omega))

theorem encodeNames_eq (n : NameSection) :
    encodeNames n = encodeNamePart modulePart n.module.isEmpty (encodeText n.module) ++
      encodeNamePart functionPart n.functions.isEmpty (encodeNameMap n.functions) ++
      encodeNamePart localPart n.locals.isEmpty (encodeVector (n.locals.map localNamesBytes)) :=
  rfl

theorem readsParts_encodeNames (n : NameSection) (hlen : (encodeNames n).length < 2 ^ 32) :
    ReadsParts {} (encodeNames n) n := by
  obtain ⟨module, functions, locals⟩ := n
  simp only [encodeNames_eq, List.length_append] at hlen
  simp only [encodeNames_eq, List.append_assoc]
  have hmodule (h) : Reads (text .moduleName) (encodeText module ++ []) module [] :=
    text_restores module [] trivial h
  have hfunctions (h) := functionNames_restores functions [] trivial h
  have hlocals (h) := localNames_restores locals [] trivial h
  simp only [List.append_nil] at hmodule hfunctions hlocals
  -- the names as they are after each part
  refine readsParts_encodeNamePart { module } (by decide) ?_ rfl (fun h => ?_) (by omega) ?_
  · intro h
    rw [String.isEmpty_iff.1 h]
  · exact (hmodule (length_lt_of_sized h)).bind (reads_pure.2 ⟨rfl, rfl⟩)
  rw [← List.append_nil (encodeNamePart localPart _ _)]
  refine readsParts_encodeNamePart { module, functions } (by decide) ?_ rfl (fun h => ?_)
    (by omega) ?_
  · intro h
    rw [List.isEmpty_iff.1 h]
  · exact (hfunctions (length_lt_of_sized h)).bind (reads_pure.2 ⟨rfl, rfl⟩)
  refine readsParts_encodeNamePart _ (by decide) ?_ rfl (fun h => ?_) (by omega)
    fun fuel _ => reads_nameParts_nil fuel _
  · intro h
    rw [List.isEmpty_iff.1 h]
  · exact (hlocals (length_lt_of_sized h)).bind (reads_pure.2 ⟨rfl, rfl⟩)

/-- Debug names are read back from their encoding. -/
theorem reads_nameSection (n : NameSection) (hlen : (encodeNames n).length < 2 ^ 32) :
    Reads nameSection (encodeNames n) n [] :=
  Reads.bind (reads_remaining.2 ⟨rfl, rfl⟩) (readsParts_encodeNames n hlen _ (Nat.le_refl _))

theorem length_encodeNamePart_le {contents bytes : List UInt8} (id : Nat) (empty : Bool)
    (h : contents.length ≤ bytes.length) (hb : bytes.length < 2 ^ 32) :
    (encodeNamePart id empty contents).length ≤ (sized bytes).length + 1 := by
  have := length_sized_mono h hb
  unfold encodeNamePart
  split
  · simp
  · simp only [List.length_cons]
    omega

/-- A part adds no more to the encoding of the names so far than it takes. -/
theorem length_encodeNames_of_namePart {id : Nat} {names added : NameSection}
    {d : Decoder NameSection} {contents left : List UInt8} (hd : namePart? names id = some d)
    (hr : Reads d contents added left) (hb : contents.length < 2 ^ 32) :
    (encodeNames added).length ≤ (encodeNames names).length + (sized contents).length + 1 := by
  unfold namePart? at hd
  split at hd
  · cases hd
    simp only [reads_bind, reads_pure] at hr
    obtain ⟨s, _, hs, rfl, rfl⟩ := hr
    have hlen := (text_compacts _ _ _ hs).2
    have := length_encodeNamePart_le modulePart s.isEmpty
      (by omega : (encodeText s).length ≤ contents.length) hb
    simp only [encodeNames_eq, List.length_append]
    omega
  · split at hd
    · cases hd
      simp only [reads_bind, reads_pure] at hr
      obtain ⟨fs, _, hfs, rfl, rfl⟩ := hr
      have hlen := (functionNames_compacts _ _ _ hfs).2
      have := length_encodeNamePart_le functionPart fs.isEmpty
        (by omega : (encodeNameMap fs).length ≤ contents.length) hb
      simp only [encodeNames_eq, List.length_append]
      omega
    · split at hd
      · cases hd
        simp only [reads_bind, reads_pure] at hr
        obtain ⟨ls, _, hls, rfl, rfl⟩ := hr
        have hlen := (localNames_compacts _ _ _ hls).2
        dsimp only at hlen
        have := length_encodeNamePart_le localPart ls.isEmpty
          (by omega : (encodeVector (ls.map localNamesBytes)).length ≤ contents.length) hb
        simp only [encodeNames_eq, List.length_append]
        omega
      · cases hd

theorem nameParts_compacts {fuel : Nat} {names r : NameSection} {bytes rest : List UInt8}
    (h : Reads (nameParts fuel names) bytes r rest) :
    (encodeNames r).length + rest.length ≤ (encodeNames names).length + bytes.length := by
  induction fuel generalizing names bytes with
  | zero =>
    obtain ⟨rfl, rfl⟩ := reads_pure.1 h
    exact Nat.le_refl _
  | succ fuel ih =>
    simp only [nameParts_succ, reads_bind, reads_atEnd] at h
    obtain ⟨_, _, ⟨rfl, rfl⟩, h⟩ := h
    split at h
    · obtain ⟨rfl, rfl⟩ := reads_pure.1 h
      exact Nat.le_refl _
    · simp only [reads_bind, reads_byte] at h
      obtain ⟨b, mid, rfl, contents, mid₁, hp, h⟩ := h
      obtain ⟨hsize, hlen⟩ := part_compacts _ _ _ hp
      split at h
      · -- a part of an unknown kind is passed over
        have := ih h
        simp only [List.length_cons]
        omega
      · rename_i d hd
        simp only [reads_bind] at h
        obtain ⟨⟨added, left⟩, _, hn, h⟩ := h
        obtain ⟨hr, rfl⟩ := reads_nested.1 hn
        have hadded := length_encodeNames_of_namePart hd hr hsize
        dsimp only at h
        split at h
        · have := ih h
          simp only [List.length_cons]
          omega
        · exact absurd h not_reads_fail

/-- Whatever debug names are read take no more bytes when they are written again. -/
theorem nameSection_compacts : Compacts nameSection encodeNames fun _ => True := by
  intro bytes n rest h
  simp only [nameSection, reads_bind, reads_remaining] at h
  obtain ⟨_, _, ⟨rfl, rfl⟩, h⟩ := h
  have hlen := nameParts_compacts h
  have hnone : (encodeNames {}).length = 0 := rfl
  exact ⟨trivial, by omega⟩

end WasmCore.Binary
