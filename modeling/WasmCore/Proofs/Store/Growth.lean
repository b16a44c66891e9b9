import WasmCore.Store.Basic

/-!
# Growth of stores

A store is only ever extended: modules and functions stay where they are and as they are, and a
memory keeps its bound and does not shrink. `Store.Grows` says that one store is a later state of
another in this sense, and every way to change a store is shown to be one. `Store.Reworked` is the
case in which nothing was added, and `Store.ReworkedAt` that in which at most one memory differs;
`Store.Appended` is the case in which functions and memories were added and nothing else was done.
-/

namespace WasmCore

/-! ### Memories -/

theorem size_zeros (n : Nat) : (zeros n).size = n := by
  fun_induction zeros n with
  | case1 => rfl
  | case2 n hn half heven ih => simp [half, ih]; omega
  | case3 n hn half hodd ih => simp [half, ih]; omega

theorem Memory.length_ofType (t : MemoryType) :
    (Memory.ofType t).length = t.min.toNat * pageSize := size_zeros _

/-- A later state of a memory: it has the same bound and is not shorter. -/
structure Memory.Grows (m m' : Memory) : Prop where
  max : m'.max = m.max
  length : m.length ≤ m'.length

namespace Memory

theorem Grows.refl (m : Memory) : m.Grows m := ⟨rfl, Nat.le_refl _⟩

theorem Grows.trans {m m' m'' : Memory} (h : m.Grows m') (h' : m'.Grows m'') : m.Grows m'' :=
  ⟨h'.max.trans h.max, Nat.le_trans h.length h'.length⟩

@[simp] theorem length_setByte (m : Memory) (i : Nat) (b : UInt8) :
    (m.setByte i b).length = m.length := by
  unfold setByte
  split
  · exact Array.size_set ..
  · rfl

@[simp] theorem max_setByte (m : Memory) (i : Nat) (b : UInt8) :
    (m.setByte i b).max = m.max := by
  unfold setByte
  split <;> rfl

@[simp] theorem length_setBytes (m : Memory) (offset : Nat) (bytes : List UInt8) :
    (m.setBytes offset bytes).length = m.length := by
  induction bytes generalizing m offset with
  | nil => rfl
  | cons b bytes ih => rw [setBytes, ih, length_setByte]

@[simp] theorem max_setBytes (m : Memory) (offset : Nat) (bytes : List UInt8) :
    (m.setBytes offset bytes).max = m.max := by
  induction bytes generalizing m offset with
  | nil => rfl
  | cons b bytes ih => rw [setBytes, ih, max_setByte]

theorem grows_setBytes (m : Memory) (offset : Nat) (bytes : List UInt8) :
    m.Grows (m.setBytes offset bytes) :=
  ⟨max_setBytes m offset bytes, Nat.le_of_eq (length_setBytes m offset bytes).symm⟩

@[simp] theorem length_setNumber (m : Memory) (offset width value : Nat) :
    (m.setNumber offset width value).length = m.length := by
  induction width generalizing m offset value with
  | zero => rfl
  | succ w ih => rw [setNumber, ih, length_setByte]

@[simp] theorem max_setNumber (m : Memory) (offset width value : Nat) :
    (m.setNumber offset width value).max = m.max := by
  induction width generalizing m offset value with
  | zero => rfl
  | succ w ih => rw [setNumber, ih, max_setByte]

theorem grows_setNumber (m : Memory) (offset width value : Nat) :
    m.Grows (m.setNumber offset width value) :=
  ⟨max_setNumber m offset width value, Nat.le_of_eq (length_setNumber m offset width value).symm⟩

theorem grows_extended (m : Memory) (delta : Nat) : m.Grows (m.extended delta) := by
  refine ⟨rfl, ?_⟩
  simp only [extended, length, ByteArray.size_append]
  omega

end Memory

/-! ### Stores -/

/-- A later state of a store: nothing was removed or replaced but the contents of memories. -/
structure Store.Grows (s s' : Store) : Prop where
  modules : s.modules.toList <+: s'.modules.toList
  functions : s.functions.toList <+: s'.functions.toList
  memories : ∀ a m, s.memory? a = some m → ∃ m', s'.memory? a = some m' ∧ m.Grows m'
  pageLimit : s'.pageLimit = s.pageLimit

namespace Store

variable {s s' s'' : Store}

theorem Grows.refl (s : Store) : s.Grows s where
  modules := List.prefix_rfl
  functions := List.prefix_rfl
  memories := fun _ m h => ⟨m, h, Memory.Grows.refl m⟩
  pageLimit := rfl

theorem Grows.trans (h : s.Grows s') (h' : s'.Grows s'') : s.Grows s'' where
  modules := h.modules.trans h'.modules
  functions := h.functions.trans h'.functions
  memories := by
    intro a m hm
    obtain ⟨m', hm', hg⟩ := h.memories a m hm
    obtain ⟨m'', hm'', hg'⟩ := h'.memories a m' hm'
    exact ⟨m'', hm'', hg.trans hg'⟩
  pageLimit := h'.pageLimit.trans h.pageLimit

theorem memory?_isSome_iff {a : MemoryAddr} : (s.memory? a).isSome ↔ a.index < s.memories.size := by
  simp [memory?]

theorem grows_addModule (s : Store) (m : ModuleInstance) : s.Grows (s.addModule m).1 where
  modules := by simp [addModule]
  functions := List.prefix_rfl
  memories := fun _ m h => ⟨m, h, Memory.Grows.refl m⟩
  pageLimit := rfl

theorem grows_modifyMemory {f : Memory → Memory} (hf : ∀ m : Memory, m.Grows (f m)) (s : Store)
    (a : MemoryAddr) : s.Grows (s.modifyMemory a f) where
  modules := List.prefix_rfl
  functions := List.prefix_rfl
  memories := by
    intro b m h
    simp only [memory?, modifyMemory] at h ⊢
    rw [Array.getElem?_modify]
    -- the memory that is changed, or another one
    split
    · exact ⟨f m, by simp [h], hf m⟩
    · exact ⟨m, h, Memory.Grows.refl m⟩
  pageLimit := rfl

/-- Only what becomes of a memory that is there matters. -/
theorem modifyMemory_congr {a : MemoryAddr} {m : Memory} {g g' : Memory → Memory}
    (h : s.memory? a = some m) (hg : g m = g' m) : s.modifyMemory a g = s.modifyMemory a g' := by
  have hsame : s.memories.modify a.index g = s.memories.modify a.index g' := by
    refine Array.ext_getElem? fun i => ?_
    rw [Array.getElem?_modify, Array.getElem?_modify]
    by_cases hi : a.index = i
    · have hm : s.memories[i]? = some m := hi ▸ h
      simp [hi, hm, hg]
    · simp [hi]
  simp only [Store.modifyMemory, hsame]

theorem modifyMemory_id (s : Store) (a : MemoryAddr) : s.modifyMemory a (fun m => m) = s := by
  have hsame : s.memories.modify a.index (fun m => m) = s.memories := by
    refine Array.ext_getElem? fun i => ?_
    rw [Array.getElem?_modify]
    split <;> simp
  simp only [Store.modifyMemory, hsame]

theorem modifyMemory_modifyMemory (s : Store) (a : MemoryAddr) (g g' : Memory → Memory) :
    (s.modifyMemory a g).modifyMemory a g' = s.modifyMemory a fun m => g' (g m) := by
  have hsame : (s.memories.modify a.index g).modify a.index g' =
      s.memories.modify a.index fun m => g' (g m) := by
    refine Array.ext_getElem? fun i => ?_
    rw [Array.getElem?_modify, Array.getElem?_modify, Array.getElem?_modify]
    split
    · exact Option.map_map ..
    · rfl
  simp only [Store.modifyMemory, hsame]

theorem memory?_modifyMemory_self {a : MemoryAddr} {m : Memory} (h : s.memory? a = some m)
    (g : Memory → Memory) : (s.modifyMemory a g).memory? a = some (g m) := by
  have hm : s.memories[a.index]? = some m := h
  simp [memory?, Store.modifyMemory, Array.getElem?_modify, hm]

end Store

/-! ### Reworked stores -/

/-- A later state of a store in which only the contents of memories differ. -/
structure Store.Reworked (s s' : Store) : Prop extends s.Grows s' where
  sameModules : s'.modules = s.modules
  sameFunctions : s'.functions = s.functions
  sameCount : s'.memories.size = s.memories.size

namespace Store.Reworked

variable {s s' s'' : Store}

theorem refl (s : Store) : s.Reworked s := ⟨.refl s, rfl, rfl, rfl⟩

theorem trans (h : s.Reworked s') (h' : s'.Reworked s'') : s.Reworked s'' :=
  ⟨h.toGrows.trans h'.toGrows, h'.sameModules.trans h.sameModules,
    h'.sameFunctions.trans h.sameFunctions, h'.sameCount.trans h.sameCount⟩

theorem modifyMemory {f : Memory → Memory} (hf : ∀ m : Memory, m.Grows (f m)) (s : Store)
    (a : MemoryAddr) : s.Reworked (s.modifyMemory a f) :=
  ⟨grows_modifyMemory hf s a, rfl, rfl, Array.size_modify ..⟩

theorem firstMemory? (h : s.Reworked s') (a : ModuleAddr) :
    s'.firstMemory? a = s.firstMemory? a := by
  simp only [Store.firstMemory?, module?, h.sameModules]

end Store.Reworked

/-- A later state of a store in which only the contents of one memory differ. -/
structure Store.ReworkedAt (own : Option MemoryAddr) (s s' : Store) : Prop extends
    s.Reworked s' where
  others : ∀ k, own ≠ some k → s'.memory? k = s.memory? k

namespace Store.ReworkedAt

variable {s s' s'' : Store} {own : Option MemoryAddr}

theorem refl (s : Store) : ReworkedAt own s s := ⟨.refl s, fun _ _ => rfl⟩

theorem trans (h : ReworkedAt own s s') (h' : ReworkedAt own s' s'') : ReworkedAt own s s'' :=
  ⟨h.toReworked.trans h'.toReworked, fun k hk => (h'.others k hk).trans (h.others k hk)⟩

theorem modifyMemory {f : Memory → Memory} (hf : ∀ m : Memory, m.Grows (f m)) (s : Store)
    (a : MemoryAddr) : ReworkedAt (some a) s (s.modifyMemory a f) where
  toReworked := .modifyMemory hf s a
  others := by
    intro k hk
    have hne : a.index ≠ k.index := by
      intro h
      cases a
      cases k
      exact hk (congrArg (fun i => some (MemoryAddr.mk i)) h)
    simp only [memory?, Store.modifyMemory, Array.getElem?_modify, hne, ↓reduceIte]

end Store.ReworkedAt

/-! ### Appended stores -/

/-- A later state of a store that has more functions and memories; those it had are unchanged. -/
structure Store.Appended (s s' : Store) : Prop where
  modules : s'.modules = s.modules
  functions : s.functions.toList <+: s'.functions.toList
  memories : s.memories.toList <+: s'.memories.toList
  pageLimit : s'.pageLimit = s.pageLimit

namespace Store.Appended

variable {s s' s'' : Store}

theorem refl (s : Store) : s.Appended s := ⟨rfl, List.prefix_rfl, List.prefix_rfl, rfl⟩

theorem trans (h : s.Appended s') (h' : s'.Appended s'') : s.Appended s'' :=
  ⟨h'.modules.trans h.modules, h.functions.trans h'.functions, h.memories.trans h'.memories,
    h'.pageLimit.trans h.pageLimit⟩

theorem addFunction (s : Store) (f : FunctionInstance) : s.Appended (s.addFunction f).1 :=
  ⟨rfl, by simp [Store.addFunction], List.prefix_rfl, rfl⟩

theorem addMemory (s : Store) (m : Memory) : s.Appended (s.addMemory m).1 :=
  ⟨rfl, List.prefix_rfl, by simp [Store.addMemory], rfl⟩

theorem memory? (h : s.Appended s') {a : MemoryAddr} {m : Memory} (hm : s.memory? a = some m) :
    s'.memory? a = some m := by
  obtain ⟨added, hadded⟩ := h.memories
  simp only [Store.memory?, ← Array.getElem?_toList, ← hadded] at hm ⊢
  rw [List.getElem?_append_left (List.getElem?_eq_some_iff.1 hm).1, hm]

theorem grows (h : s.Appended s') : s.Grows s' where
  modules := by simp [h.modules]
  functions := h.functions
  memories := fun _ m hm => ⟨m, h.memory? hm, .refl m⟩
  pageLimit := h.pageLimit

end Store.Appended

end WasmCore
