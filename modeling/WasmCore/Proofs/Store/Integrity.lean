import WasmCore.Proofs.Store.History

/-!
# Integrity of references

In a reachable store no reference dangles, and a function that a module refers to is owned by a
registered module. A change never makes a reference to something that was already in the store and
that nothing referred to (`Store.Change.refers`): what it adds to the references is new. So what a
failed instantiation has added stays unreferenced for ever, and handles can be looked up without a
check. `Store.Reachable.integrity` puts this together.
-/

namespace WasmCore

namespace Store

variable {s s' : Store}

/-- The references of a store are in order. -/
structure Sound (s : Store) : Prop where
  closed : s.Closed
  owners : ∀ f owner, s.Refers (.function f) → s.owner? f = some owner →
    owner.index < s.modules.size

/-- Something that a change from `s` to `s'` has added; if it is a function of a module, that module
is there. -/
structure Fresh (s s' : Store) (x : ExternAddr) : Prop where
  unknown : ¬ s.Denotes x
  denotes : s'.Denotes x
  owners : ∀ f owner, x = .function f → s'.owner? f = some owner →
    owner.index < s'.modules.size

/-! ### Linked modules -/

section Linked

variable {m : Module}

theorem body_of_mem_definitions {owner : ModuleAddr} {fn : FunctionInstance}
    (h : fn ∈ m.definitions owner) :
    ∃ position code, fn.body = .defined owner position code := by
  obtain ⟨⟨⟨type, code⟩, position⟩, -, hdefinition⟩ := List.mem_filterMap.1 h
  obtain ⟨t, -, rfl⟩ := Option.map_eq_some_iff.1 hdefinition
  exact ⟨position, code, rfl⟩

theorem length_definitions (h : s.Ready m) (owner : ModuleAddr) :
    (m.definitions owner).length = m.functions.length := by
  have hall : (m.definitions owner).length = (m.functions.zip m.codes).zipIdx.length := by
    refine List.filterMap_length_eq_length.2 fun ⟨⟨type, code⟩, position⟩ hmem => ?_
    have htype : type ∈ m.functions := (List.of_mem_zip (List.fst_mem_of_mem_zipIdx hmem)).1
    simp [Module.definition?, h.functions type htype]
  rw [hall, List.length_zipIdx, List.length_zip, ← h.lengths, Nat.min_self]

/-- What the exports of a linked module denote: its functions, and memories that come one after
the other. -/
theorem mem_exportInstances {functions : List FunctionAddr} {es : List Export}
    {e : ExportInstance} {next : Nat} (hes : ∀ e ∈ es, s.CanExport m e)
    (h : e ∈ exportInstances functions next es) :
    (∃ f ∈ functions, e.target = .function f) ∨
      ∃ a : MemoryAddr, e.target = .memory a ∧ next ≤ a.index ∧
        a.index < next + (es.filterMap m.exportedMemory?).length := by
  induction es generalizing next with
  | nil => cases h
  | cons e' es ih =>
    have hrest : ∀ e ∈ es, s.CanExport m e := fun e he => hes e (List.mem_cons_of_mem e' he)
    have hlength : (es.filterMap m.exportedMemory?).length ≤
        ((e' :: es).filterMap m.exportedMemory?).length :=
      ((List.sublist_cons_self e' es).filterMap _).length_le
    unfold exportInstances at h
    split at h
    · rename_i f _ hf
      rcases List.mem_cons.1 h with rfl | h
      · exact .inl ⟨f, List.mem_of_getElem? hf, rfl⟩
      · rcases ih hrest h with hfunction | ⟨a, ha, hle, hlt⟩
        · exact .inl hfunction
        · exact .inr ⟨a, ha, hle, by omega⟩
    · rename_i hkind
      -- this export makes a memory of its own
      have hcan := hes e' (List.mem_cons_self ..)
      simp only [CanExport, hkind] at hcan
      obtain ⟨type, htype, t, rfl, -⟩ := hcan
      have hmemory : m.exportedMemory? e' = some (.ofType t) := by
        simp [Module.exportedMemory?, hkind, htype]
      rw [List.filterMap_cons_some hmemory, List.length_cons]
      rcases List.mem_cons.1 h with rfl | h
      · exact .inr ⟨⟨next⟩, rfl, Nat.le_refl _, by simp⟩
      · rcases ih hrest h with hfunction | ⟨a, ha, hle, hlt⟩
        · exact .inl hfunction
        · exact .inr ⟨a, ha, by omega, by omega⟩
    · rcases ih hrest h with hfunction | ⟨a, ha, hle, hlt⟩
      · exact .inl hfunction
      · exact .inr ⟨a, ha, hle, by omega⟩

/-- What linking adds to the functions are those that the module defines. -/
theorem definition_of_linked (name : String) {f : FunctionAddr} {fn : FunctionInstance}
    (hle : s.functions.size ≤ f.index) (hf : (s.linked name m).function? f = some fn) :
    (m.definitions ⟨s.modules.size⟩)[f.index - s.functions.size]? = some fn := by
  rw [← hf]
  simp [function?, linked, Array.getElem?_append_right hle]

/-- A function that a linked module has and that was not referred to before is new, and the module
owns it. -/
theorem fresh_function (h : s.Ready m) (name : String) {f : FunctionAddr}
    (hle : s.functions.size ≤ f.index)
    (hlt : f.index < s.functions.size + m.functions.length) :
    s.Fresh (s.linked name m) (.function f) := by
  have hlength := length_definitions h ⟨s.modules.size⟩
  refine ⟨Nat.not_lt.2 hle, ?_, ?_⟩
  · simpa [Denotes, linked, hlength] using hlt
  · rintro _ owner ⟨⟩ howner
    cases hfn : (s.linked name m).function? f with
    | none => simp [owner?, hfn] at howner
    | some fn =>
      obtain ⟨position, code, hbody⟩ :=
        body_of_mem_definitions (List.mem_of_getElem? (definition_of_linked name hle hfn))
      simp only [owner?, hfn, Option.map_some, hbody, Option.some.injEq] at howner
      subst howner
      simp [linked]

theorem fresh_memory (h : s.Linkable m) (name : String) {a : MemoryAddr}
    (hle : s.memories.size ≤ a.index)
    (hlt : a.index < s.memories.size + m.memories.length +
      (m.exports.filterMap m.exportedMemory?).length) :
    s.Fresh (s.linked name m) (.memory a) := by
  refine ⟨Nat.not_lt.2 hle, ?_, nofun⟩
  simpa [Denotes, linked, Link.size_memories_initialized h.memories] using hlt

/-- What a linked module refers to was referred to before, or it is new. -/
theorem refers_linkedInstance (h : s.Linkable m) (name : String) {x : ExternAddr}
    (hx : (s.linkedInstance name m).Refers x) : s.Refers x ∨ s.Fresh (s.linked name m) x := by
  have hready := (linkable_iff.1 h).1
  have hfunction {f : FunctionAddr} (hf : f ∈ s.functionSpace m) :
      s.Refers (.function f) ∨ s.Fresh (s.linked name m) (.function f) := by
    rcases mem_functionSpace hf with hrefers | ⟨hle, hlt⟩
    · exact .inl hrefers
    · exact .inr (fresh_function hready name hle hlt)
  cases x with
  | function f =>
    rcases hx with hf | ⟨e, he, htarget⟩
    · exact hfunction (List.mem_toArray.1 hf)
    · rcases mem_exportInstances h.exports (List.mem_toArray.1 he) with
        ⟨g, hg, hsame⟩ | ⟨a, ha, -⟩
      · cases htarget.symm.trans hsame
        exact hfunction hg
      · cases htarget.symm.trans ha
  | memory a =>
    rcases hx with ha | ⟨e, he, htarget⟩
    · rcases mem_memorySpace (List.mem_toArray.1 ha) with hrefers | ⟨hle, hlt⟩
      · exact .inl hrefers
      · exact .inr (fresh_memory h name hle (by omega))
    · rcases mem_exportInstances h.exports (List.mem_toArray.1 he) with
        ⟨g, -, hg⟩ | ⟨b, hb, hle, hlt⟩
      · cases htarget.symm.trans hg
      · cases htarget.symm.trans hb
        exact .inr (fresh_memory h name (by omega) hlt)

theorem refers_instantiate {name : String} {x : ExternAddr}
    (hx : (s.instantiate name m).store.Refers x) :
    s.Refers x ∨ s.Fresh (s.instantiate name m).store x := by
  by_cases h : s.Linkable m
  · rw [(instantiate_of_linkable h name).2] at hx ⊢
    obtain ⟨inst, hinst, hrefers⟩ := hx
    rcases Array.mem_push.1 hinst with hold | rfl
    · exact .inl ⟨inst, hold, hrefers⟩
    · exact refers_linkedInstance h name hrefers
  · -- a failure registers nothing
    obtain ⟨e, he⟩ := instantiate_of_not_linkable h name
    exact .inl ((refers_congr (modules_of_error he)).1 hx)

end Linked

/-! ### Host modules -/

section Registered

variable {m : HostModule}

/-- What the registration of a host module adds to the functions is implemented by the host. -/
theorem body_of_registered (hm : m.Proper) {f : FunctionAddr} {fn : FunctionInstance}
    (hle : s.functions.size ≤ f.index) (hf : (s.register m).store.function? f = some fn) :
    ∃ run, fn.body = .host run := by
  have hnew : (s.register m).store.function? f = m.functions[f.index - s.functions.size]? := by
    simp [function?, register, addModule, Array.getElem?_append_right hle]
  exact hm.functions fn (Array.mem_of_getElem? (hnew.symm.trans hf))

/-- A registered function is new, and it has no owner. -/
theorem fresh_registered_function (hm : m.Proper) {f : FunctionAddr}
    (hle : s.functions.size ≤ f.index) (hlt : f.index < s.functions.size + m.functions.size) :
    s.Fresh (s.register m).store (.function f) := by
  refine ⟨Nat.not_lt.2 hle, ?_, ?_⟩
  · simpa [Denotes, register, addModule] using hlt
  · rintro _ owner ⟨⟩ howner
    cases hfn : (s.register m).store.function? f with
    | none => simp [owner?, hfn] at howner
    | some fn =>
      obtain ⟨run, hrun⟩ := body_of_registered hm hle hfn
      simp [owner?, hfn, hrun] at howner

theorem fresh_registered_memory {a : MemoryAddr} (hle : s.memories.size ≤ a.index)
    (hlt : a.index < s.memories.size + m.memories.size) :
    s.Fresh (s.register m).store (.memory a) := by
  refine ⟨Nat.not_lt.2 hle, ?_, nofun⟩
  simpa [Denotes, register, addModule] using hlt

theorem refers_register (hm : m.Proper) {x : ExternAddr} (hx : (s.register m).store.Refers x) :
    s.Refers x ∨ s.Fresh (s.register m).store x := by
  obtain ⟨inst, hinst, hrefers⟩ := hx
  rcases Array.mem_push.1 hinst with hold | rfl
  · exact .inl ⟨inst, hold, hrefers⟩
  refine .inr ?_
  cases x with
  | function f =>
    rcases hrefers with hf | ⟨e, he, htarget⟩
    · obtain ⟨i, rfl⟩ := Array.mem_ofFn.1 hf
      exact fresh_registered_function hm (Nat.le_add_right _ _) (Nat.add_lt_add_left i.2 _)
    · obtain ⟨⟨name, item⟩, hmem, rfl⟩ := Array.mem_map.1 he
      have hhas : m.Has item := hm.exports _ hmem
      cases item with
      | function i =>
        cases htarget
        exact fresh_registered_function hm (Nat.le_add_right _ _) (Nat.add_lt_add_left hhas _)
      | memory i => cases htarget
  | memory a =>
    rcases hrefers with ha | ⟨e, he, htarget⟩
    · obtain ⟨i, rfl⟩ := Array.mem_ofFn.1 ha
      exact fresh_registered_memory (Nat.le_add_right _ _) (Nat.add_lt_add_left i.2 _)
    · obtain ⟨⟨name, item⟩, hmem, rfl⟩ := Array.mem_map.1 he
      have hhas : m.Has item := hm.exports _ hmem
      cases item with
      | function i => cases htarget
      | memory i =>
        cases htarget
        exact fresh_registered_memory (Nat.le_add_right _ _) (Nat.add_lt_add_left hhas _)

end Registered

/-! ### Histories -/

/-- **A change makes no reference to what was there unreferenced.** -/
theorem Change.refers (h : s.Change s') {x : ExternAddr} (hx : s'.Refers x) :
    s.Refers x ∨ s.Fresh s' x := by
  cases h with
  | instantiate _ name m => exact refers_instantiate hx
  | synthesize hm hr =>
    rw [eq_register_of_synthesize hr] at hx ⊢
    exact refers_register (HostModule.proper_of_ofDeclarations hm) hx
  | external hm hr =>
    rw [eq_register_of_external hr] at hx ⊢
    exact refers_register (HostModule.proper_of_ofDeclarations hm) hx
  | execute c fuel => exact .inl ((refers_congr (c.run_reworked fuel).sameModules).1 hx)
  | write _ a hf => exact .inl hx

theorem Sound.change (hs : s.Sound) (h : s.Change s') : s'.Sound where
  closed := by
    intro x hx
    rcases h.refers hx with hold | hfresh
    · exact h.grows.denotes (hs.closed x hold)
    · exact hfresh.denotes
  owners := by
    intro f owner hf howner
    rcases h.refers hf with hold | hfresh
    · rw [h.grows.owner? (hs.closed _ hold)] at howner
      exact Nat.lt_of_lt_of_le (hs.owners f owner hold howner) h.grows.modules_size
    · exact hfresh.owners f owner rfl howner

theorem sound_new (limit : Nat) : (Store.new limit).Sound where
  closed := by
    rintro x ⟨m, hm, -⟩
    cases Array.not_mem_empty m hm
  owners := by
    rintro f owner ⟨m, hm, -⟩
    cases Array.not_mem_empty m hm

theorem Reachable.sound (h : s.Reachable) : s.Sound :=
  h.invariant sound_new fun _ _ hs hchange => hs.change hchange

/-- What is in a store and nothing refers to is never referred to later. -/
theorem Later.refers (h : s.Later s') {x : ExternAddr} (hx : s.Denotes x) (hx' : s'.Refers x) :
    s.Refers x := by
  induction h with
  | refl => exact hx'
  | tail hlater hchange ih =>
    rcases hchange.refers hx' with hold | hfresh
    · exact ih hold
    · exact absurd ((Later.grows hlater).denotes hx) hfresh.unknown

/-- **Integrity of references.** In a reachable store every reference denotes something, exports
are functions or memories, and functions that are referred to have registered owners. A failed
instantiation has not come across a handle that denotes nothing, and what it has added is not
referred to, now or later. Declared exports denote functions or memories of their module. -/
theorem Reachable.integrity (h : s.Reachable) :
    s.Sound ∧
    (∀ inst ∈ s.modules, ∀ e ∈ inst.exports,
      e.target.kind = .function ∨ e.target.kind = .memory) ∧
    (∀ name m e, (s.instantiate name m).result = .error e → e ≠ .dangling ∧
      ∀ s', (s.instantiate name m).store.Later s' → ∀ x, ¬ s.Denotes x →
        (s.instantiate name m).store.Denotes x → ¬ s'.Refers x) ∧
    ∀ name ds m, HostModule.ofDeclarations name ds = .ok m → ∀ e ∈ m.exports, m.Has e.2 := by
  refine ⟨h.sound, ?_, ?_, ?_⟩
  · intro inst _ e _
    cases e.target with
    | function f => exact .inl rfl
    | memory a => exact .inr rfl
  · intro name m e he
    obtain ⟨-, -, hdangling⟩ := instantiate_error he
    refine ⟨hdangling h.sound.closed, ?_⟩
    intro s' hlater x hunknown hx hrefers
    -- a reference to it would be one of the modules that were there before
    have hbefore : s.Refers x := (refers_congr (modules_of_error he)).1 (hlater.refers hx hrefers)
    exact hunknown (h.sound.closed x hbefore)
  · intro name ds m hm e he
    exact (HostModule.proper_of_ofDeclarations hm).exports e he

theorem sharing_reachable : sharing.Reachable := by
  let declarations : List Declaration :=
    [.function "tick" ⟨[], []⟩ fun _ => .done [], .memory "page" ⟨1, none⟩]
  let module : HostModule :=
    { name := "env"
      functions := #[⟨⟨[], []⟩, .host fun _ => .done []⟩]
      memories := #[⟨1, none⟩]
      exports := #[("tick", .function 0), ("page", .memory 0)] }
  have hm : HostModule.ofDeclarations "env" declarations = .ok module := rfl
  have hr : (Store.new 1).external module = .ok ((Store.new 1).register module) := rfl
  have hs : ((Store.new 1).register module).store = sharing := by
    simp [module, register, addModule, Store.new, sharing, Array.ofFn_succ, maxPages]
  rw [← hs]
  exact ⟨1, .single (.external hm hr)⟩

/-- A module that fails after its function has been added: it exports one that it does not have. -/
def orphaning : Module where
  types := [⟨[], []⟩]
  imports := [⟨"env", "tick", .function 0⟩]
  functions := [0]
  codes := [⟨[], #[.call 0]⟩]
  exports := [⟨"run", .function, 2⟩]

theorem integrity_orphaning : sharing.Reachable ∧
    (∃ e, (sharing.instantiate "guest" orphaning).result = .error e) ∧
    (sharing.instantiate "guest" orphaning).store.Denotes (.function ⟨1⟩) ∧
    ∀ s', (sharing.instantiate "guest" orphaning).store.Later s' → ¬ s'.Refers (.function ⟨1⟩) := by
  have hexport : ¬ sharing.Linkable orphaning := by
    intro h
    have hlt : 2 < (sharing.functionSpace orphaning).length :=
      h.exports _ (List.mem_singleton_self _)
    revert hlt
    decide
  have hadded : (sharing.instantiate "guest" orphaning).store.Denotes (.function ⟨1⟩) := by
    show 1 < (sharing.instantiate "guest" orphaning).store.functions.size
    decide +kernel
  obtain ⟨e, he⟩ := instantiate_of_not_linkable hexport "guest"
  obtain ⟨-, -, hfailed, -⟩ := sharing_reachable.integrity
  refine ⟨sharing_reachable, ⟨e, he⟩, hadded, fun s' hlater => ?_⟩
  have hunknown : ¬ sharing.Denotes (.function ⟨1⟩) := Nat.lt_irrefl 1
  exact (hfailed "guest" orphaning e he).2 s' hlater _ hunknown hadded

end Store

end WasmCore
