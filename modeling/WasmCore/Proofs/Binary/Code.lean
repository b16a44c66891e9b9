import WasmCore.Proofs.Binary.Expression

/-!
# Function bodies and data segments: decoding undoes encoding

The locals of a function are written as runs of equal types. The decoder accepts any groups, also
empty ones and neighbours of the same type, so `length_addRun_le` compares these with the runs:
merging two groups does not take more bytes than the groups did.
-/

namespace WasmCore

/-- Declared locals are numbers and not too many, and the body is well nested. -/
def Code.Formed (c : Code) : Prop :=
  (∀ t ∈ c.locals, t.isNumeric = true) ∧ c.locals.length ≤ Binary.maxLocals ∧ WellNested c.body

namespace Binary

open Decoder

/-! ### Groups of locals -/

/-- The encoding of a group of equal locals. -/
def groupBytes (g : Nat × ValueType) : List UInt8 := encodeCount g.1 ++ [g.2.code]

/-- The locals of groups. -/
def expand (groups : List (Nat × ValueType)) : List ValueType :=
  groups.flatMap fun g => List.replicate g.1 g.2

theorem expand_cons (g : Nat × ValueType) (groups : List (Nat × ValueType)) :
    expand (g :: groups) = List.replicate g.1 g.2 ++ expand groups := rfl

/-- Puts a group before others, as one with the first of them if they have the same type. -/
def addRun (n : Nat) (t : ValueType) : List (Nat × ValueType) → List (Nat × ValueType)
  | (k, u) :: more => if t = u then (k + n, u) :: more else (n, t) :: (k, u) :: more
  | [] => [(n, t)]

theorem runs_cons (t : ValueType) (types : List ValueType) :
    runs (t :: types) = addRun 1 t (runs types) := rfl

theorem addRun_addRun (m n : Nat) (t : ValueType) (groups : List (Nat × ValueType)) :
    addRun m t (addRun n t groups) = addRun (n + m) t groups := by
  cases groups with
  | nil => simp [addRun]
  | cons g groups =>
    obtain ⟨k, u⟩ := g
    by_cases h : t = u <;> simp [addRun, h, Nat.add_assoc]

theorem runs_replicate (n : Nat) (t : ValueType) (types : List ValueType) :
    runs (List.replicate (n + 1) t ++ types) = addRun (n + 1) t (runs types) := by
  induction n with
  | zero => exact runs_cons t types
  | succ n ih => rw [List.replicate_succ, List.cons_append, runs_cons, ih, addRun_addRun]

theorem expand_addRun (n : Nat) (t : ValueType) (groups : List (Nat × ValueType)) :
    expand (addRun n t groups) = List.replicate n t ++ expand groups := by
  cases groups with
  | nil => rfl
  | cons g groups =>
    obtain ⟨k, u⟩ := g
    by_cases h : t = u
    · simp only [addRun, h, ↓reduceIte, expand_cons]
      rw [Nat.add_comm, ← List.replicate_append_replicate, List.append_assoc]
    · simp only [addRun, h, ↓reduceIte, expand_cons]

theorem expand_runs (types : List ValueType) : expand (runs types) = types := by
  induction types with
  | nil => rfl
  | cons t types ih => rw [runs_cons, expand_addRun, ih, List.replicate_one, List.singleton_append]

theorem pos_of_mem_addRun {n : Nat} {t : ValueType} {groups : List (Nat × ValueType)} (hn : 0 < n)
    (h : ∀ g ∈ groups, 0 < g.1) : ∀ g ∈ addRun n t groups, 0 < g.1 := by
  cases groups with
  | nil => simpa [addRun] using hn
  | cons g groups =>
    obtain ⟨k, u⟩ := g
    rw [List.forall_mem_cons] at h
    by_cases ht : t = u
    · simp only [addRun, ht, ↓reduceIte, List.forall_mem_cons]
      exact ⟨by omega, h.2⟩
    · simp only [addRun, ht, ↓reduceIte, List.forall_mem_cons]
      exact ⟨hn, h⟩

theorem pos_of_mem_runs (types : List ValueType) : ∀ g ∈ runs types, 0 < g.1 := by
  induction types with
  | nil => simp [runs]
  | cons t types ih =>
    rw [runs_cons]
    exact pos_of_mem_addRun Nat.one_pos ih

theorem length_addRun_le (n : Nat) (t : ValueType) (groups : List (Nat × ValueType)) :
    (addRun n t groups).length ≤ groups.length + 1 := by
  cases groups with
  | nil => simp [addRun]
  | cons g groups =>
    obtain ⟨k, u⟩ := g
    by_cases h : t = u <;> simp [addRun, h]

theorem length_runs_le (types : List ValueType) : (runs types).length ≤ types.length := by
  induction types with
  | nil => simp [runs]
  | cons t types ih =>
    rw [runs_cons]
    exact Nat.le_trans (length_addRun_le 1 t _) (Nat.succ_le_succ ih)

theorem mem_expand {groups : List (Nat × ValueType)} {g : Nat × ValueType} (h : g ∈ groups)
    (hg : 0 < g.1) : g.2 ∈ expand groups :=
  List.mem_flatMap.2 ⟨g, h, List.mem_replicate.2 ⟨by omega, rfl⟩⟩

theorem length_encodeCount {n : Nat} (h : n < 2 ^ 32) :
    (encodeCount n).length = (Leb128.encodeUnsigned n).length := by
  rw [encodeCount, encodeU32, UInt32.toNat_ofNat_of_lt' h]

/-- Adding two counts does not need more bytes than writing both. -/
theorem length_encodeCount_add {m n : Nat} (h : m + n < 2 ^ 32) :
    (encodeCount (m + n)).length ≤ (encodeCount m).length + (encodeCount n).length := by
  rw [length_encodeCount h, length_encodeCount (by omega), length_encodeCount (by omega)]
  have hm := Leb128.length_encodeUnsigned_pos m
  have hn := Leb128.length_encodeUnsigned_pos n
  -- the sum is less than 128 times the larger count, which takes one byte more
  rcases Nat.le_total m n with hle | hle
  · have hmono := length_encodeUnsigned_mono (by omega : m + n ≤ 0 + 128 * n)
    have := Leb128.length_encodeUnsigned_le 0 n (by decide)
    omega
  · have hmono := length_encodeUnsigned_mono (by omega : m + n ≤ 0 + 128 * m)
    have := Leb128.length_encodeUnsigned_le 0 m (by decide)
    omega

/-- The encoding of groups in a row. -/
def groupsBytes (groups : List (Nat × ValueType)) : List UInt8 := (groups.map groupBytes).flatten

theorem groupsBytes_cons (g : Nat × ValueType) (groups : List (Nat × ValueType)) :
    groupsBytes (g :: groups) = groupBytes g ++ groupsBytes groups := rfl

/-- A group that is merged with the next one takes no more bytes than one that is not. -/
theorem length_groupsBytes_addRun {n : Nat} {t : ValueType} {groups : List (Nat × ValueType)}
    (h : n + (expand groups).length < 2 ^ 32) :
    (groupsBytes (addRun n t groups)).length ≤
      (groupBytes (n, t)).length + (groupsBytes groups).length := by
  cases groups with
  | nil => simp [addRun, groupsBytes]
  | cons g groups =>
    obtain ⟨k, u⟩ := g
    rw [expand_cons, List.length_append, List.length_replicate] at h
    by_cases ht : t = u
    · have hadd := length_encodeCount_add (by omega : k + n < 2 ^ 32)
      simp only [addRun, ht, ↓reduceIte, groupsBytes_cons, groupBytes, List.length_append,
        List.length_cons, List.length_nil]
      omega
    · simp only [addRun, ht, ↓reduceIte, groupsBytes_cons, List.length_append]
      omega

theorem length_groupsBytes_runs_le {n : Nat} (t : ValueType) {types : List ValueType}
    (h : n + types.length < 2 ^ 32) :
    (groupsBytes (runs (List.replicate n t ++ types))).length ≤
      (groupBytes (n, t)).length + (groupsBytes (runs types)).length := by
  cases n with
  | zero =>
    -- an empty group is not written
    rw [List.replicate_zero, List.nil_append]
    omega
  | succ n =>
    rw [runs_replicate]
    exact length_groupsBytes_addRun (by rwa [expand_runs])

theorem length_runs_replicate_le (n : Nat) (t : ValueType) (types : List ValueType) :
    (runs (List.replicate n t ++ types)).length ≤ (runs types).length + 1 := by
  cases n with
  | zero => exact Nat.le_succ _
  | succ n =>
    rw [runs_replicate]
    exact length_addRun_le (n + 1) t (runs types)

/-! ### Locals -/

theorem localGroups_restores {groups : List (Nat × ValueType)} {declared : Nat}
    (hnum : ∀ g ∈ groups, g.2.isNumeric = true)
    (htotal : declared + (expand groups).length ≤ maxLocals) (rest : List UInt8) :
    Reads (localGroups groups.length declared) (groupsBytes groups ++ rest) (expand groups)
      rest := by
  induction groups generalizing declared with
  | nil => exact reads_pure.2 ⟨rfl, rfl⟩
  | cons g groups ih =>
    obtain ⟨n, t⟩ := g
    rw [List.forall_mem_cons] at hnum
    rw [expand_cons, List.length_append, List.length_replicate] at htotal
    have hn : n < 2 ^ 32 := by
      simp only [maxLocals] at htotal
      omega
    obtain ⟨k, rfl, hk⟩ := reads_u32_encodeCount hn (t.code :: (groupsBytes groups ++ rest))
    simp only [groupsBytes_cons, groupBytes, List.append_assoc, List.cons_append, List.nil_append]
    refine (reads_within.2 hk).bind ?_
    rw [if_neg (by omega)]
    refine (valueType_restores.within t _ hnum.1 (by simp)).bind ?_
    exact (ih hnum.2 (by omega)).bind (reads_pure.2 ⟨rfl, rfl⟩)

theorem localGroups_compacts {k declared : Nat} {types : List ValueType} {bytes rest : List UInt8}
    (h : Reads (localGroups k declared) bytes types rest) (hd : declared ≤ maxLocals) :
    (∀ t ∈ types, t.isNumeric = true) ∧ declared + types.length ≤ maxLocals ∧
      (runs types).length ≤ k ∧ (groupsBytes (runs types)).length + rest.length ≤ bytes.length := by
  induction k generalizing declared types bytes with
  | zero =>
    obtain ⟨rfl, rfl⟩ := reads_pure.1 h
    simp [runs, groupsBytes, hd]
  | succ k ih =>
    simp only [localGroups, reads_bind, reads_within] at h
    obtain ⟨n, mid, hn, h⟩ := h
    have hn := length_le_of_reads_u32 hn
    split at h
    · exact absurd h not_reads_fail
    · simp only [reads_bind, reads_within, reads_pure] at h
      obtain ⟨t, mid₁, ht, types, _, hts, rfl, rfl⟩ := h
      obtain ⟨hnum, hlt⟩ := valueType_compacts _ _ _ ht
      obtain ⟨hnums, htotal, hcount, hlen⟩ := ih hts (by omega)
      have hbytes : (groupBytes (n.toNat, t)).length = (encodeU32 n).length + 1 := by
        simp [groupBytes, encodeCount]
      have hruns := length_runs_replicate_le n.toNat t types
      have hsmall : n.toNat + types.length < 2 ^ 32 := by
        simp only [maxLocals] at htotal
        omega
      have hgroup := length_groupsBytes_runs_le t hsmall
      refine ⟨?_, ?_, by omega, ?_⟩
      · simp only [List.mem_append, List.mem_replicate]
        rintro u (⟨-, rfl⟩ | hu)
        · exact hnum
        · exact hnums u hu
      · simp only [List.length_append, List.length_replicate]
        omega
      · simp only [List.length_cons, List.length_nil] at hlt
        omega

/-! ### Bodies -/

/-- The encoding of the locals and the body of a function, without its size. -/
def bodyBytes (c : Code) : List UInt8 :=
  encodeCount (runs c.locals).length ++ groupsBytes (runs c.locals) ++ encodeExpression c.body

theorem encodeCode_eq (c : Code) : encodeCode c = sized (bodyBytes c) := by
  change sized (encodeVector ((runs c.locals).map groupBytes) ++ encodeExpression c.body) = _
  rw [encodeVector, List.length_map, bodyBytes, groupsBytes]

theorem functionBody_restores : Restores functionBody bodyBytes Code.Formed := by
  rintro ⟨types, body⟩ rest ⟨hnum, htotal, hbody⟩ hlen
  dsimp only at htotal
  have hcount := length_runs_le types
  obtain ⟨n, hn, hr⟩ := reads_u32_encodeCount
    (by simp only [maxLocals] at htotal; omega : (runs types).length < 2 ^ 32)
    (groupsBytes (runs types) ++ (encodeExpression body ++ rest))
  have hgroups : ∀ g ∈ runs types, g.2.isNumeric = true := by
    intro g hg
    have := mem_expand hg (pos_of_mem_runs types g hg)
    rw [expand_runs] at this
    exact hnum _ this
  have hlocals : Reads (localGroups (runs types).length 0)
      (groupsBytes (runs types) ++ (encodeExpression body ++ rest)) (expand (runs types))
      (encodeExpression body ++ rest) :=
    localGroups_restores hgroups (by rw [expand_runs]; omega) _
  rw [expand_runs] at hlocals
  simp only [bodyBytes, List.length_append] at hlen
  simp only [bodyBytes, List.append_assoc]
  refine (reads_within.2 hr).bind ?_
  rw [hn]
  refine hlocals.bind ?_
  exact (expression_restores body rest hbody (by omega)).bind (reads_pure.2 ⟨rfl, rfl⟩)

theorem functionBody_compacts : Compacts functionBody bodyBytes Code.Formed := by
  intro bytes c rest h
  simp only [functionBody, reads_bind, reads_within, reads_pure] at h
  obtain ⟨n, mid, hn, types, mid₁, hl, body, _, hb, rfl, rfl⟩ := h
  have hn := length_le_of_reads_u32 hn
  obtain ⟨hnum, htotal, hcount, hlen⟩ := localGroups_compacts hl (Nat.zero_le _)
  obtain ⟨hbody, hlb⟩ := expression_compacts _ _ _ hb
  refine ⟨⟨hnum, by simpa using htotal, hbody⟩, ?_⟩
  have hmono := length_encodeUnsigned_mono hcount
  have hnum : (encodeCount (runs types).length).length ≤ (encodeU32 n).length := by
    rw [length_encodeCount (Nat.lt_of_le_of_lt hcount n.toNat_lt)]
    exact hmono
  simp only [bodyBytes, List.length_append]
  omega

theorem codeEntry_eq :
    codeEntry = (do
      let bytes ← part .codeSize .code
      let (code, left) ← nested bytes functionBody
      if left.isEmpty then pure code else fail (.flaw (.bytesAfterBody left.length))) := by
  simp only [codeEntry, part_bind]

theorem codeEntry_restores : Restores codeEntry encodeCode Code.Formed := by
  intro c rest hc hlen
  rw [encodeCode_eq] at hlen ⊢
  rw [codeEntry_eq]
  have hbody := functionBody_restores c [] hc (length_lt_of_sized hlen)
  rw [List.append_nil] at hbody
  refine (part_restores (bodyBytes c) rest trivial hlen).bind ?_
  refine Reads.bind (reads_nested.2 ⟨hbody, rfl⟩) ?_
  exact reads_pure.2 ⟨rfl, rfl⟩

theorem codeEntry_compacts : Compacts codeEntry encodeCode Code.Formed := by
  intro bytes c rest h
  simp only [codeEntry_eq, reads_bind] at h
  obtain ⟨xs, mid, hp, ⟨c', left⟩, _, hn, h⟩ := h
  obtain ⟨hb, rfl⟩ := reads_nested.1 hn
  obtain ⟨hsize, hlen⟩ := part_compacts _ _ _ hp
  obtain ⟨hc, hle⟩ := functionBody_compacts _ _ _ hb
  dsimp only at h
  split at h
  · obtain ⟨rfl, rfl⟩ := reads_pure.1 h
    have hmono := length_sized_mono (by omega : (bodyBytes c).length ≤ xs.length) hsize
    rw [encodeCode_eq]
    exact ⟨hc, by omega⟩
  · exact absurd h not_reads_fail

theorem length_encodeCode_pos (c : Code) : 0 < (encodeCode c).length := by
  rw [encodeCode_eq]
  exact length_sized_pos _

theorem codeSection_restores :
    Restores codeSection (fun cs => encodeVector (cs.map encodeCode))
      fun cs => ∀ c ∈ cs, c.Formed :=
  counted_restores (fun _ => codeEntry_restores.concealing) fun c _ => length_encodeCode_pos c

theorem codeSection_compacts :
    Compacts codeSection (fun cs => encodeVector (cs.map encodeCode))
      fun cs => ∀ c ∈ cs, c.Formed :=
  counted_compacts fun _ => codeEntry_compacts.concealing

/-! ### Data segments -/

theorem dataSegment_eq :
    dataSegment = (do
      let memory ← within .segmentMemory u32
      let offset ← within .segmentOffset expression
      let init ← part .segmentSize .data
      pure ⟨memory, offset, init⟩) := by
  simp only [dataSegment, part_bind]

theorem dataSegment_restores :
    Restores dataSegment encodeData fun d => WellNested d.offset := by
  rintro ⟨memory, offset, init⟩ rest ho hlen
  simp only [encodeData, List.length_append] at hlen
  simp only [encodeData, List.append_assoc, dataSegment_eq]
  refine (reads_within.2 (reads_u32_encodeU32 memory _)).bind ?_
  refine (expression_restores.within offset _ ho (by omega)).bind ?_
  exact (part_restores init rest trivial (by omega)).bind (reads_pure.2 ⟨rfl, rfl⟩)

theorem dataSegment_compacts :
    Compacts dataSegment encodeData fun d => WellNested d.offset := by
  intro bytes d rest h
  simp only [dataSegment_eq, reads_bind, reads_within, reads_pure] at h
  obtain ⟨memory, mid, hm, offset, mid₁, ho, init, _, hi, rfl, rfl⟩ := h
  have hm := length_le_of_reads_u32 hm
  obtain ⟨hw, ho⟩ := expression_compacts _ _ _ ho
  have hi := (part_compacts _ _ _ hi).2
  refine ⟨hw, ?_⟩
  simp only [encodeData, List.length_append]
  omega

theorem length_encodeData_pos (d : DataSegment) : 0 < (encodeData d).length := by
  have := length_encodeU32_pos d.memory
  simp only [encodeData, List.length_append]
  omega

theorem dataSection_restores :
    Restores dataSection (fun ds => encodeVector (ds.map encodeData))
      fun ds => ∀ d ∈ ds, WellNested d.offset :=
  counted_restores (fun _ => dataSegment_restores.within) fun d _ => length_encodeData_pos d

theorem dataSection_compacts :
    Compacts dataSection (fun ds => encodeVector (ds.map encodeData))
      fun ds => ∀ d ∈ ds, WellNested d.offset :=
  counted_compacts fun _ => dataSegment_compacts.within

end Binary

end WasmCore
