import WasmCore.Proofs.Store.Growth
import WasmCore.Proofs.Store.Linking

/-!
# Instantiation succeeds exactly for linkable modules

The phases of linking together: a module is instantiated if and only if it is `Store.Linkable`, and
the store is then `Store.linked` (`Store.instantiate_ok_iff`). Memories can be shared, so that the
data of a module may go to one memory under several indices; the segments are copied in their order,
after all of them have been found to have room.
-/

namespace WasmCore

namespace Link

/-! ### Modules -/

theorem register_decides {p : Prop} (hp : p) (m : Module) {d : Draft} {n : Nat}
    (hn : d.store.modules.size = n) :
    Decides (register m) d p ⟨n⟩ { d with store := (d.store.addModule d.inst).1 } := by
  subst hn
  have hadd := Decides.add (d := d) (p := True) trivial fun d => d.store.addModule d.inst
  have hreport (a : ModuleAddr) (d : Draft) : Decides (do
      let l ← get
      report (.moduleInstantiated l.inst.name a l.inst.functions.size (m.importCount .function)
        l.inst.memories.size l.inst.exports.size)
      pure a) d (True ∧ True) a d :=
    .get fun _ _ => (report_decides trivial _).bind fun _ => .pure trivial
  exact (hadd.bind fun _ => hreport _ _).congr (by simp [hp]) fun _ => rfl

/-- The draft of a module before anything of it is linked. -/
def Draft.empty (s : Store) (name : String) (m : Module) : Draft :=
  ⟨s, { name, names := m.names }, #[]⟩

/-- The draft of a module that has all its functions and memories, but no data and no exports. -/
def Draft.filled (s : Store) (name : String) (m : Module) : Draft :=
  (((Draft.empty s name m).importing m.imports).defining m ⟨s.modules.size⟩
    (m.functions.zip m.codes).zipIdx).allocating m.memories

/-- The draft of a module that only lacks its exports. -/
def Draft.initialized (s : Store) (name : String) (m : Module) : Draft :=
  { Draft.filled s name m with store := s.initialized m }

section Linked

variable {s : Store} {m : Module}

theorem inst_filled (name : String) (h : m.functions.length = m.codes.length) :
    (Draft.filled s name m).inst = { s.linkedInstance name m with exports := #[] } := by
  simp [Draft.filled, Draft.empty, Draft.importing, Draft.defining, Draft.allocating,
    Store.linkedInstance, Store.functionSpace, Store.memorySpace, h]

theorem memoryTypes_filled (name : String) :
    (Draft.filled s name m).memoryTypes = m.memoryTypes.toArray := by
  simp [Draft.filled, Draft.empty, Draft.importing, Draft.defining, Draft.allocating,
    Module.memoryTypes]

theorem foldl_copy_reworked (placed : List PlacedData) (s : Store) :
    s.Reworked (placed.foldl Store.copy s) := by
  induction placed generalizing s with
  | nil => exact .refl s
  | cons p placed ih => exact (Store.Reworked.modifyMemory (·.grows_setBytes _ _) s _).trans (ih _)

/-- Copying data leaves everything as it is but the contents of memories. -/
theorem initialized_reworked : (s.defining m).Reworked (s.initialized m) := foldl_copy_reworked _ _

theorem initialized_complete (name : String) (h : m.functions.length = m.codes.length) :
    (Draft.initialized s name m).Complete s m where
  functions := congrArg ModuleInstance.functions (inst_filled name h)
  memoryTypes := memoryTypes_filled name
  pageLimit := initialized_reworked.pageLimit

theorem size_memories_initialized (h : ∀ type ∈ m.memories, s.Allows type) :
    (s.initialized m).memories.size = s.memories.size + m.memories.length := by
  -- no memory is left out, as every declared one has a type
  have hall : (m.memories.filterMap (Option.map Memory.ofType)).length = m.memories.length := by
    rw [List.filterMap_length_eq_length]
    intro type htype
    obtain ⟨t, rfl, -⟩ := h type htype
    rfl
  rw [initialized_reworked.sameCount]
  simp [Store.defining, hall]

theorem inst_exporting (name : String) (h : s.Linkable m) :
    ((Draft.initialized s name m).exporting s m m.exports).inst = s.linkedInstance name m := by
  simp only [Draft.exporting, Draft.initialized, inst_filled name h.lengths,
    size_memories_initialized h.memories]
  simp [Store.linkedInstance]

theorem store_exporting (name : String) :
    (((Draft.initialized s name m).exporting s m m.exports).store.addModule
      (s.linkedInstance name m)).1 = s.linked name m := by
  have hw := initialized_reworked (s := s) (m := m)
  simp only [Draft.exporting, Draft.initialized, Store.addModule, Store.linked, hw.sameModules,
    hw.sameFunctions, hw.pageLimit]
  rfl

/-- Exports and registration make the linked store of a module that only lacks them. -/
theorem register_exporting (name : String) (h : s.Linkable m) :
    let d := (Draft.initialized s name m).exporting s m m.exports
    { d with store := (d.store.addModule d.inst).1 } =
      (⟨s.linked name m, s.linkedInstance name m, m.memoryTypes.toArray⟩ : Draft) := by
  intro d
  have htypes : d.memoryTypes = m.memoryTypes.toArray := memoryTypes_filled name
  simp only [d, htypes, inst_exporting name h, store_exporting]

end Linked

/-- Links a module up to its exports. -/
def prepare (m : Module) (owner : ModuleAddr) : Link Unit := do
  m.imports.forM (importItem m)
  defineFunctions m owner
  m.memories.zipIdx.forM fun (type, i) => defineMemory i type
  initializeData m

theorem linkModule_eq (m : Module) (owner : ModuleAddr) :
    linkModule m owner = (do
      prepare m owner
      m.exports.forM exportItem
      register m) := by
  simp only [linkModule, prepare, bind_assoc]

/-- A module is prepared exactly if it can be linked but for its exports. -/
theorem prepare_decides (s : Store) (name : String) (m : Module) :
    Decides (prepare m ⟨s.modules.size⟩) (.empty s name m) (s.Ready m) ()
      (.initialized s name m) := by
  refine Decides.congr (.bind (imports_decides m m.imports _) fun _ =>
    .bind (defineFunctions_decides m _ _) fun hf =>
    .bind (defineMemories_decides m.memories _) fun _ =>
    initializeData_decides (d := .filled s name m) rfl
      (congrArg ModuleInstance.memories (inst_filled name hf.1))) ?_ fun _ => rfl
  -- the conditions in the order in which they are checked
  constructor
  · rintro ⟨himports, ⟨hlengths, hfunctions⟩, hmemories, hdata⟩
    exact ⟨himports, hlengths, hfunctions, hmemories, hdata⟩
  · rintro ⟨himports, hlengths, hfunctions, hmemories, hdata⟩
    exact ⟨himports, ⟨hlengths, hfunctions⟩, hmemories, hdata⟩

/-- Linking succeeds exactly if the module is linkable, and then makes the linked store. -/
theorem linkModule_decides (s : Store) (name : String) (m : Module) :
    Decides (linkModule m ⟨s.modules.size⟩) (.empty s name m) (s.Linkable m)
      ⟨s.modules.size⟩ ⟨s.linked name m, s.linkedInstance name m, m.memoryTypes.toArray⟩ := by
  have hsize : ((Draft.initialized s name m).exporting s m m.exports).store.modules.size =
      s.modules.size := congrArg Array.size initialized_reworked.sameModules
  rw [linkModule_eq]
  refine Decides.congr (.bind (prepare_decides s name m) fun hready =>
    .bind (exports_decides m.exports (initialized_complete name hready.lengths)) fun _ =>
    register_decides trivial m hsize) ?_ ?_
  · rw [Store.linkable_iff, and_true]
  · rintro ⟨hready, hexports, -⟩
    exact register_exporting name (Store.linkable_iff.2 ⟨hready, hexports⟩)

end Link

namespace Store

variable {s : Store} {m : Module}

theorem instantiate_of_linkable (h : s.Linkable m) (name : String) :
    (s.instantiate name m).result = .ok ⟨s.modules.size⟩ ∧
      (s.instantiate name m).store = s.linked name m := by
  obtain ⟨l, hl, hd⟩ := (Link.linkModule_decides s name m).exists_ok h
    { store := s, inst := { name, names := m.names } } rfl
  simp only [instantiate, hl, true_and]
  exact congrArg Link.Draft.store hd

theorem instantiate_of_not_linkable (h : ¬ s.Linkable m) (name : String) :
    ∃ e, (s.instantiate name m).result = .error e := by
  obtain ⟨e, l, hl⟩ := (Link.linkModule_decides s name m).exists_error h
    { store := s, inst := { name, names := m.names } } rfl
  simp only [instantiate, hl]
  exact ⟨e, rfl⟩

/-- **Linking is decided by the module and the store alone.** A module is instantiated exactly if it
is linkable. It then gets the next handle, and the store becomes the linked one: nothing else is
added to it and nothing else is written. -/
theorem instantiate_ok_iff (s : Store) (name : String) (m : Module) :
    ((∃ a, (s.instantiate name m).result = .ok a) ↔ s.Linkable m) ∧
      ∀ a, (s.instantiate name m).result = .ok a →
        a = ⟨s.modules.size⟩ ∧ (s.instantiate name m).store = s.linked name m := by
  have hlinkable {a : ModuleAddr} (ha : (s.instantiate name m).result = .ok a) :
      s.Linkable m := by
    by_cases h : s.Linkable m
    · exact h
    · obtain ⟨e, he⟩ := instantiate_of_not_linkable h name
      cases ha.symm.trans he
  refine ⟨⟨fun ⟨_, ha⟩ => hlinkable ha, fun h => ⟨_, (instantiate_of_linkable h name).1⟩⟩, ?_⟩
  intro a ha
  obtain ⟨hresult, hstore⟩ := instantiate_of_linkable (hlinkable ha) name
  exact ⟨Except.ok.inj (ha.symm.trans hresult), hstore⟩

/-- A store with one host module, which shares a memory of one page. -/
def sharing : Store where
  modules := #[{
    name := "env"
    functions := #[⟨0⟩]
    memories := #[⟨0⟩]
    exports := #[⟨"tick", .function ⟨0⟩⟩, ⟨"page", .memory ⟨0⟩⟩] }]
  functions := #[⟨⟨[], []⟩, .host fun _ => .done []⟩]
  memories := #[.ofType ⟨1, none⟩]
  pageLimit := 1

/-- A module that imports one memory twice, so that its second data segment overwrites a part of
the first. -/
def aliasing : Module where
  types := [⟨[], []⟩]
  imports := [⟨"env", "page", .memory none⟩, ⟨"env", "page", .memory (some ⟨0, none⟩)⟩,
    ⟨"env", "tick", .function 0⟩]
  functions := [0]
  codes := [⟨[], #[.call 0]⟩]
  data := [⟨0, #[.const .i32 65532], [1, 2, 3, 4]⟩, ⟨1, #[.const .i32 65533], [5]⟩]
  exports := [⟨"run", .function, 1⟩, ⟨"page", .memory, 1⟩]

theorem aliasing_linkable : sharing.Linkable aliasing := by
  have hpage (type : Option MemoryType) :
      sharing.referent? ⟨"env", "page", .memory type⟩ = some (.memory ⟨0⟩) := rfl
  have htick : sharing.referent? ⟨"env", "tick", .function 0⟩ = some (.function ⟨0⟩) := rfl
  have hspace : sharing.memorySpace aliasing = [⟨0⟩, ⟨0⟩] := rfl
  have hlength : (Memory.ofType ⟨1, none⟩).length = 65536 := Memory.length_ofType _
  refine ⟨?_, rfl, by simp [aliasing], by simp [aliasing], ?_, ?_⟩
  · intro i hi
    simp only [aliasing, List.mem_cons, List.not_mem_nil, or_false] at hi
    rcases hi with rfl | rfl | rfl
    · exact ⟨⟨0⟩, hpage _⟩
    · exact ⟨⟨0⟩, hpage _⟩
    · exact ⟨⟨0⟩, _, htick, rfl, rfl⟩
  · intro d hd
    simp only [aliasing, List.mem_cons, List.not_mem_nil, or_false] at hd
    rcases hd with rfl | rfl
    · exact ⟨65532, ⟨0⟩, .ofType ⟨1, none⟩, rfl, by rw [hspace]; rfl, rfl, by simp [hlength]⟩
    · exact ⟨65533, ⟨0⟩, .ofType ⟨1, none⟩, rfl, by rw [hspace]; rfl, rfl, by simp [hlength]⟩
  · intro e he
    simp only [aliasing, List.mem_cons, List.not_mem_nil, or_false] at he
    rcases he with rfl | rfl
    · show 1 < (sharing.functionSpace aliasing).length
      decide
    · exact ⟨some ⟨0, none⟩, by decide, _, rfl, by decide, by simp⟩

theorem instantiate_ok_iff_aliasing : sharing.Linkable aliasing ∧
    (sharing.instantiate "guest" aliasing).result = .ok ⟨1⟩ ∧
    (sharing.instantiate "guest" aliasing).store = sharing.linked "guest" aliasing := by
  obtain ⟨hiff, hlinked⟩ := instantiate_ok_iff sharing "guest" aliasing
  obtain ⟨a, ha⟩ := hiff.2 aliasing_linkable
  obtain ⟨rfl, hstore⟩ := hlinked a ha
  exact ⟨aliasing_linkable, ha, hstore⟩

end Store

end WasmCore
