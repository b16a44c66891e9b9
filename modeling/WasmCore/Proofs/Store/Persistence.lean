import WasmCore.Proofs.Store.Upkeep
import WasmCore.Store.HostModule

/-!
# What linking leaves behind

Instantiation is no transaction, but before it copies data it only adds functions and memories to
the store, and after that it only adds memories. So there are two stores that a failure can start
from: the one before, and the one with the data of the module, which has been copied by the time
exports are made (`Store.instantiate_error`). If no reference of the store dangles, linking never
comes across a handle that denotes nothing.

Hence instantiation only extends a store, whether it succeeds or fails (`Store.instantiate_grows`),
and so does the registration of a host module (`Store.register_grows`). Handles denote the same
thing for ever.
-/

namespace WasmCore

namespace Store

variable {s : Store}

theorem refers_of_referent? {i : Import} {x : ExternAddr} (h : s.referent? i = some x) :
    s.Refers x := by
  rw [referent?_eq] at h
  cases hr : s.resolveImport i with
  | error e => simp [hr, Except.toOption] at h
  | ok e =>
    simp only [hr, Except.toOption, Option.map_some, Option.some.injEq] at h
    exact h ▸ refers_of_resolveImport hr

/-- A function of a linked module was referred to before, or it is new. -/
theorem mem_functionSpace {m : Module} {f : FunctionAddr} (h : f ∈ s.functionSpace m) :
    s.Refers (.function f) ∨
      s.functions.size ≤ f.index ∧ f.index < s.functions.size + m.functions.length := by
  rcases List.mem_append.1 h with himported | hdefined
  · obtain ⟨i, -, hi⟩ := List.mem_filterMap.1 himported
    unfold importedFunction? at hi
    split at hi
    · rename_i hreferent
      cases hi
      exact .inl (refers_of_referent? hreferent)
    · cases hi
  · obtain ⟨n, hn, rfl⟩ := List.mem_map.1 hdefined
    exact .inr (List.mem_range'_1.1 hn)

/-- A memory of a linked module was referred to before, or it is new. -/
theorem mem_memorySpace {m : Module} {a : MemoryAddr} (h : a ∈ s.memorySpace m) :
    s.Refers (.memory a) ∨
      s.memories.size ≤ a.index ∧ a.index < s.memories.size + m.memories.length := by
  rcases List.mem_append.1 h with himported | hdefined
  · obtain ⟨i, -, hi⟩ := List.mem_filterMap.1 himported
    unfold importedMemory? at hi
    split at hi
    · rename_i hreferent
      cases hi
      exact .inl (refers_of_referent? hreferent)
    · cases hi
  · obtain ⟨n, hn, rfl⟩ := List.mem_map.1 hdefined
    exact .inr (List.mem_range'_1.1 hn)

theorem defining_appended (s : Store) (m : Module) : s.Appended (s.defining m) :=
  ⟨rfl, by simp [defining], by simp [defining], rfl⟩

/-- Preparing a module for its exports only extends a store. -/
theorem initialized_grows (s : Store) (m : Module) : s.Grows (s.initialized m) :=
  (s.defining_appended m).grows.trans Link.initialized_reworked.toGrows

theorem Closed.initialized (h : s.Closed) (m : Module) : (s.initialized m).Closed := by
  intro x hx
  have hrefers := (refers_congr Link.initialized_reworked.sameModules).1 hx
  exact (s.initialized_grows m).denotes (h x hrefers)

end Store

namespace Link

/-! ### Linking only adds -/

/-- So far linking has only added to the store `s`. If no reference of `s` dangles, the instance has
no memory that is not there. -/
structure Adding (s s' : Store) (memories : Array MemoryAddr) : Prop where
  store : s.Appended s'
  memories : s.Closed → ∀ a ∈ memories, s'.Denotes (.memory a)

/-- Linking has only added to the store `s`, and if no reference of `s` dangles, it has not failed
because of a handle that denotes nothing. -/
def Added (s : Store) (e : LinkError) (s' : Store) : Prop :=
  s.Appended s' ∧ (s.Closed → e ≠ .dangling)

/-- What is referred to stays there, as long as linking only adds. -/
theorem Adding.denotes {s s' : Store} {memories : Array MemoryAddr} (h : Adding s s' memories)
    (hs : s.Closed) {x : ExternAddr} (hx : s'.Refers x) : s'.Denotes x :=
  h.store.grows.denotes (hs x ((Store.refers_congr h.store.modules).1 hx))

theorem upkeep_adding (s : Store) : Upkeep (Adding s) (Added s) where
  addFunction := by
    intro s' memories f h
    exact ⟨h.store.trans (.addFunction s' f), h.memories⟩
  addMemory := by
    intro s' memories type t h _
    have hadded := Store.Appended.addMemory s' (.ofType t)
    exact ⟨h.store.trans hadded, fun hs a ha => hadded.grows.denotes (h.memories hs a ha)⟩
  bindMemory := by
    intro s' memories a h ha
    refine ⟨h.store, fun hs b hb => ?_⟩
    rcases Array.mem_push.1 hb with hb | rfl
    · exact h.memories hs b hb
    · exact ha.elim (h.denotes hs) id
  refused := fun h he => ⟨h.store, fun _ => he⟩
  missingFunction := by
    intro s' memories f h hrefers hnone
    refine ⟨h.store, fun hs => ?_⟩
    have hlt : f.index < s'.functions.size := h.denotes hs hrefers
    simp [Store.function?, hlt] at hnone
  missingMemory := by
    intro s' memories a h ha hnone
    refine ⟨h.store, fun hs => ?_⟩
    have hlt : a.index < s'.memories.size := h.memories hs a ha
    simp [Store.memory?, hlt] at hnone

/-! ### Failures -/

variable {s : Store}

/-- Copies of data do not fail. -/
theorem copies_succeed {P : Linking → Prop} {E : LinkError → Linking → Prop}
    (placed : List PlacedData) : Triple P (placed.forM copyData) (fun _ _ => True) E := by
  have hcopies : Keeps (fun _ => True) E (placed.forM copyData) :=
    .forM (fun _ => .modifyGet fun _ => id) placed
  exact hcopies.mono (fun _ _ => trivial) (fun _ _ => id) fun _ _ => id

/-- The memories of a module that only lacks its exports are all there. -/
theorem memorySpace_denotes {m : Module} (hs : (s.initialized m).Closed) (h : s.Ready m)
    {a : MemoryAddr} (ha : a ∈ s.memorySpace m) : (s.initialized m).Denotes (.memory a) := by
  rcases Store.mem_memorySpace ha with hrefers | ⟨-, hlt⟩
  · exact hs _ ((Store.refers_congr initialized_reworked.sameModules).2 hrefers)
  · show a.index < (s.initialized m).memories.size
    rwa [size_memories_initialized h.memories]

/-- Linking that fails has only added to the store, or to the store with the data of the module. -/
theorem linkModule_error {name : String} {m : Module} {e : LinkError} {l : Linking}
    (h : linkModule m ⟨s.modules.size⟩ { store := s, inst := { name, names := m.names } } =
      .error e l) :
    (¬ s.Ready m → s.Appended l.store) ∧ (s.Ready m → (s.initialized m).Appended l.store) ∧
      (s.Closed → e ≠ .dangling) := by
  rw [linkModule_eq] at h
  by_cases hready : s.Ready m
  · obtain ⟨l₁, hl₁, hd⟩ := (prepare_decides s name m).exists_ok hready
      { store := s, inst := { name, names := m.names } } rfl
    simp only [Bind.bind, EStateM.bind, hl₁] at h
    have hstore : l₁.store = s.initialized m := congrArg Draft.store hd
    have hmemories : l₁.inst.memories = (s.memorySpace m).toArray :=
      (congrArg (fun d => d.inst.memories) hd).trans
        (congrArg ModuleInstance.memories (inst_filled name hready.lengths))
    -- only exports are left, which are made from the store with the data
    have hstart : During (Adding (s.initialized m)) l₁ := by
      refine ⟨hstore ▸ .refl _, fun hs a ha => ?_⟩
      rw [hmemories, List.mem_toArray] at ha
      rw [hstore]
      exact memorySpace_denotes hs hready ha
    have hexports := (upkeep_adding (s.initialized m)).exports (R := fun _ => True)
      (fun _ _ _ _ => trivial) m
    obtain ⟨happended, hdangling⟩ := hexports.of_error hstart h
    exact ⟨fun hn => absurd hready hn, fun _ => happended, fun hs => hdangling (hs.initialized m)⟩
  · obtain ⟨e₁, l₁, hl₁⟩ := (prepare_decides s name m).exists_error hready
      { store := s, inst := { name, names := m.names } } rfl
    simp only [Bind.bind, EStateM.bind, hl₁] at h
    cases h
    have hstart : During (Adding s) { store := s, inst := { name, names := m.names } } :=
      ⟨.refl s, fun _ a ha => absurd ha (Array.not_mem_empty a)⟩
    have hprepare := (upkeep_adding s).prepare copies_succeed m ⟨s.modules.size⟩
    obtain ⟨happended, hdangling⟩ := hprepare.of_error hstart hl₁
    exact ⟨fun _ => happended, fun hr => absurd hr hready, hdangling⟩

end Link

namespace Store

variable {s : Store}

/-- **What a failed instantiation leaves behind.** If the module was ready but for its exports, its
data has been copied; otherwise functions and memories have at most been added. -/
theorem instantiate_error {name : String} {m : Module} {e : LinkError}
    (h : (s.instantiate name m).result = .error e) :
    (¬ s.Ready m → s.Appended (s.instantiate name m).store) ∧
      (s.Ready m → (s.initialized m).Appended (s.instantiate name m).store) ∧
      (s.Closed → e ≠ .dangling) := by
  unfold instantiate at h ⊢
  split
  · rename_i a l hl
    rw [hl] at h
    cases h
  · rename_i e' l hl
    rw [hl] at h
    cases h
    exact Link.linkModule_error hl

/-- A failed instantiation registers nothing. -/
theorem modules_of_error {name : String} {m : Module} {e : LinkError}
    (h : (s.instantiate name m).result = .error e) :
    (s.instantiate name m).store.modules = s.modules := by
  obtain ⟨hearly, hlate, -⟩ := instantiate_error h
  by_cases hr : s.Ready m
  · exact (hlate hr).modules.trans Link.initialized_reworked.sameModules
  · exact (hearly hr).modules

theorem linked_grows (s : Store) (name : String) (m : Module) : s.Grows (s.linked name m) := by
  have hexports : (s.initialized m).Appended
      ((Link.Draft.initialized s name m).exporting s m m.exports).store :=
    ⟨rfl, List.prefix_rfl, by simp [Link.Draft.exporting, Link.Draft.initialized], rfl⟩
  rw [← Link.store_exporting name]
  exact ((s.initialized_grows m).trans hexports.grows).trans (grows_addModule _ _)

/-- **Instantiation only extends a store**, also where it fails. -/
theorem instantiate_grows (s : Store) (name : String) (m : Module) :
    s.Grows (s.instantiate name m).store := by
  by_cases hl : s.Linkable m
  · rw [(instantiate_of_linkable hl name).2]
    exact s.linked_grows name m
  · obtain ⟨e, he⟩ := instantiate_of_not_linkable hl name
    obtain ⟨hearly, hlate, -⟩ := instantiate_error he
    by_cases hr : s.Ready m
    · exact (s.initialized_grows m).trans (hlate hr).grows
    · exact (hearly hr).grows

/-- **Registration of a host module only extends a store.** -/
theorem register_grows (s : Store) (m : HostModule) : s.Grows (s.register m).store where
  modules := by simp [register, addModule]
  functions := by simp [register, addModule]
  memories := by
    intro a mem h
    refine ⟨mem, ?_, .refl mem⟩
    have hlt := memory?_isSome_iff.1 (Option.isSome_of_mem h)
    simp only [memory?, register, addModule] at h ⊢
    rw [Array.getElem?_append_left hlt]
    exact h
  pageLimit := rfl

end Store

end WasmCore
