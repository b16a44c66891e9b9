import Mathlib.Data.List.Basic
import WasmCore.Proofs.Store.Stability
import WasmCore.Report

/-!
# Owners of functions

A function of a module names its owner and its position there. For a function that some module
refers to this is true: its owner is registered and has it, and no other such function claims the
same place. For any other function it is not (`Store.Reachable.ownership`). Such functions are left
by failed instantiations: they name the handle that their module would have got, and the module that
gets this handle next does not have them (`Store.ownership_inherited`).

`Store.Change.place?_of_new` says what a change adds, and `Store.Attributed` is the invariant.
-/

namespace WasmCore

namespace Store

variable {s s' : Store} {f g : FunctionAddr} {place : ModuleAddr × Nat}

/-- The owner that a function names, and the position of its code there; none for a function of the
host. -/
def place? (s : Store) (f : FunctionAddr) : Option (ModuleAddr × Nat) :=
  match (s.function? f).map FunctionInstance.body with
  | some (.defined owner position _) => some (owner, position)
  | _ => none

/-- The module has the function in its index space. -/
def Has (s : Store) (a : ModuleAddr) (f : FunctionAddr) : Prop :=
  ∃ m, s.module? a = some m ∧ f ∈ m.functions

/-- In the report of the store the function is one of the host, or it is shown with the handle of a
module that has it. -/
def Credits (s : Store) (f : FunctionAddr) (fn : FunctionInstance) : Prop :=
  let start := "  * " ++ Report.four (f.index + 1) ++ " " ++ fn.type.text ++ " "
  Report.functionLine fn f.index = Report.entry (start ++ "<extern>") ∨
    ∃ owner position, s.Has owner f ∧ Report.functionLine fn f.index =
      Report.entry (start ++ owner.text ++ " " ++ Report.four position)

theorem owner?_eq (s : Store) (f : FunctionAddr) : s.owner? f = (s.place? f).map Prod.fst := by
  unfold owner? place?
  generalize (s.function? f).map FunctionInstance.body = body
  rcases body with _ | ⟨_ | _⟩ <;> rfl

theorem exists_position {owner : ModuleAddr} (h : s.owner? f = some owner) :
    ∃ position, s.place? f = some (owner, position) := by
  rw [owner?_eq] at h
  obtain ⟨⟨a, position⟩, hplace, rfl⟩ := Option.map_eq_some_iff.1 h
  exact ⟨position, hplace⟩

theorem Has.refers {a : ModuleAddr} (h : s.Has a f) : s.Refers (.function f) := by
  obtain ⟨m, hm, hf⟩ := h
  exact ⟨m, Array.mem_of_getElem? hm, .inl hf⟩

theorem Has.mono {a : ModuleAddr} (h : s.Has a f) (hgrows : s.Grows s') : s'.Has a f := by
  obtain ⟨m, hm, hf⟩ := h
  exact ⟨m, hgrows.module? hm, hf⟩

theorem Grows.place? (h : s.Grows s') (hf : s.Denotes (.function f)) :
    s'.place? f = s.place? f := by
  obtain ⟨fn, hfn, hfn'⟩ := h.preserves hf
  simp only [Store.place?, hfn, hfn']

/-! ### What a change adds -/

/-- The functions that a module defines are at the positions at which it has them. -/
theorem body_of_definition {m : Module} (h : s.Ready m) {owner : ModuleAddr} {i : Nat}
    {fn : FunctionInstance} (hfn : (m.definitions owner)[i]? = some fn) :
    ∃ code, fn.body = .defined owner i code := by
  -- none is left out, so positions among the definitions are those in the module
  let define (d : (UInt32 × Code) × Nat) : FunctionInstance :=
    ⟨m.types[d.1.1.toNat]?.getD default, .defined owner d.2 d.1.2⟩
  have hall : m.definitions owner = (m.functions.zip m.codes).zipIdx.map define := by
    refine List.filterMap_eq_map_iff_forall_eq_some.2 fun ⟨⟨type, code⟩, position⟩ hmem => ?_
    have htype : type ∈ m.functions := (List.of_mem_zip (List.fst_mem_of_mem_zipIdx hmem)).1
    simp [Module.definition?, define, h.functions type htype]
  rw [hall, List.getElem?_map, Option.map_eq_some_iff] at hfn
  obtain ⟨⟨⟨type, code⟩, position⟩, hmem, rfl⟩ := hfn
  rw [List.getElem?_zipIdx, Option.map_eq_some_iff] at hmem
  obtain ⟨d, -, hd⟩ := hmem
  cases hd
  exact ⟨code, by simp [define]⟩

/-- A linked module has the functions that linking has added. -/
theorem has_of_linked {m : Module} (h : s.Linkable m) (name : String)
    (hnew : ¬ s.Denotes (.function f)) (hf : (s.linked name m).Denotes (.function f)) :
    (s.linked name m).Has ⟨s.modules.size⟩ f := by
  have hlength := length_definitions (linkable_iff.1 h).1 ⟨s.modules.size⟩
  have hlt : f.index < s.functions.size + m.functions.length := by
    simpa [Denotes, linked, hlength] using hf
  refine ⟨s.linkedInstance name m, by simp [module?, linked], List.mem_toArray.2 ?_⟩
  exact List.mem_append_right _ (List.mem_map.2
    ⟨f.index, List.mem_range'_1.2 ⟨Nat.not_lt.1 hnew, hlt⟩, rfl⟩)

/-- A registered host module has the functions that its registration has added. -/
theorem refers_of_registered {m : HostModule} (hnew : ¬ s.Denotes (.function f))
    (hf : (s.register m).store.Denotes (.function f)) :
    (s.register m).store.Refers (.function f) := by
  have hlt : f.index < s.functions.size + m.functions.size := by
    simpa [Denotes, register, addModule] using hf
  have hle : s.functions.size ≤ f.index := Nat.not_lt.1 hnew
  refine ⟨_, Array.mem_push_self, .inl (Array.mem_ofFn.2 ⟨⟨f.index - s.functions.size, ?_⟩, ?_⟩)⟩
  · omega
  · exact congrArg FunctionAddr.mk (Nat.add_sub_cancel' hle)

theorem place?_of_registered {m : HostModule} (hm : m.Proper) (hnew : ¬ s.Denotes (.function f)) :
    (s.register m).store.place? f = none := by
  unfold place?
  cases hfn : (s.register m).store.function? f with
  | none => rfl
  | some fn =>
    obtain ⟨run, hrun⟩ := body_of_registered hm (Nat.not_lt.1 hnew) hfn
    simp [hrun]

/-- A new function that a module refers to is one that the new module has defined. -/
theorem Change.place?_of_new (h : s.Change s') (hs : s.Sound) (hnew : ¬ s.Denotes (.function f))
    (hf : s'.Refers (.function f)) (hplace : s'.place? f = some place) :
    place = (⟨s.modules.size⟩, f.index - s.functions.size) ∧ s'.Has ⟨s.modules.size⟩ f := by
  have hdenotes := (hs.change h).closed _ hf
  cases h with
  | instantiate _ name m =>
    by_cases hlinkable : s.Linkable m
    · rw [(instantiate_of_linkable hlinkable name).2] at hplace hdenotes ⊢
      refine ⟨?_, has_of_linked hlinkable name hnew hdenotes⟩
      cases hfn : (s.linked name m).function? f with
      | none => simp [Store.place?, hfn] at hplace
      | some fn =>
        obtain ⟨code, hbody⟩ := body_of_definition (linkable_iff.1 hlinkable).1
          (definition_of_linked name (Nat.not_lt.1 hnew) hfn)
        simp only [Store.place?, hfn, Option.map_some, hbody, Option.some.injEq] at hplace
        exact hplace.symm
    · obtain ⟨e, he⟩ := instantiate_of_not_linkable hlinkable name
      exact absurd (hs.closed _ ((refers_congr (modules_of_error he)).1 hf)) hnew
  | synthesize hm hr =>
    rw [eq_register_of_synthesize hr] at hplace
    rw [place?_of_registered (HostModule.proper_of_ofDeclarations hm) hnew] at hplace
    cases hplace
  | external hm hr =>
    rw [eq_register_of_external hr] at hplace
    rw [place?_of_registered (HostModule.proper_of_ofDeclarations hm) hnew] at hplace
    cases hplace
  | execute c fuel =>
    exact absurd (hs.closed _ ((refers_congr (c.run_reworked fuel).sameModules).1 hf)) hnew
  | write _ a hw => exact absurd (hs.closed _ hf) hnew

/-- What a change that registers a module adds to the functions is in the index space of that
module. -/
theorem Change.refers_of_new (h : s.Change s') (hregisters : s'.modules.size ≠ s.modules.size)
    (hnew : ¬ s.Denotes (.function f)) (hf : s'.Denotes (.function f)) :
    s'.Refers (.function f) := by
  cases h with
  | instantiate _ name m =>
    by_cases hlinkable : s.Linkable m
    · rw [(instantiate_of_linkable hlinkable name).2] at hf ⊢
      exact (has_of_linked hlinkable name hnew hf).refers
    · obtain ⟨e, he⟩ := instantiate_of_not_linkable hlinkable name
      exact absurd (congrArg Array.size (modules_of_error he)) hregisters
  | synthesize hm hr =>
    rw [eq_register_of_synthesize hr] at hf ⊢
    exact refers_of_registered hnew hf
  | external hm hr =>
    rw [eq_register_of_external hr] at hf ⊢
    exact refers_of_registered hnew hf
  | execute c fuel =>
    exact absurd (congrArg Array.size (c.run_reworked fuel).sameModules) hregisters
  | write _ a hw => exact absurd rfl hregisters

/-! ### Histories -/

/-- What the functions that modules refer to say of their owners is true, and no two of them are at
the same place. -/
structure Attributed (s : Store) : Prop where
  has : ∀ f owner position, s.Refers (.function f) → s.place? f = some (owner, position) →
    s.Has owner f
  distinct : ∀ f g place, s.Refers (.function f) → s.Refers (.function g) →
    s.place? f = some place → s.place? g = some place → f = g

/-- A function that was there was referred to before, if it is now. -/
theorem Change.refers_of_denotes (h : s.Change s') (hold : s.Denotes (.function f))
    (hf : s'.Refers (.function f)) : s.Refers (.function f) := by
  rcases h.refers hf with hbefore | hfresh
  · exact hbefore
  · exact absurd hold hfresh.unknown

/-- No function that was there before is at the place of a new one. -/
theorem Change.place?_ne (h : s.Change s') (hs : s.Sound) (hold : s.Denotes (.function f))
    (hnew : ¬ s.Denotes (.function g)) (hf : s'.Refers (.function f))
    (hg : s'.Refers (.function g)) (hplace : s'.place? g = some place) :
    s'.place? f ≠ some place := by
  intro hsame
  obtain ⟨rfl, -⟩ := h.place?_of_new hs hnew hg hplace
  rw [h.grows.place? hold] at hsame
  have howner : s.owner? f = some ⟨s.modules.size⟩ := by rw [owner?_eq, hsame, Option.map_some]
  -- the owner of the old function was registered before
  exact Nat.lt_irrefl _ (hs.owners f _ (h.refers_of_denotes hold hf) howner)

theorem Attributed.change (ha : s.Attributed) (hs : s.Sound) (h : s.Change s') :
    s'.Attributed where
  has := by
    intro f owner position hf hplace
    by_cases hold : s.Denotes (.function f)
    · rw [h.grows.place? hold] at hplace
      exact (ha.has f owner position (h.refers_of_denotes hold hf) hplace).mono h.grows
    · obtain ⟨hsame, hhas⟩ := h.place?_of_new hs hold hf hplace
      cases hsame
      exact hhas
  distinct := by
    intro f g place hf hg hplace hplace'
    by_cases hold : s.Denotes (.function f) <;> by_cases hold' : s.Denotes (.function g)
    · rw [h.grows.place? hold] at hplace
      rw [h.grows.place? hold'] at hplace'
      exact ha.distinct f g place (h.refers_of_denotes hold hf) (h.refers_of_denotes hold' hg)
        hplace hplace'
    · exact absurd hplace (h.place?_ne hs hold hold' hf hg hplace')
    · exact absurd hplace' (h.place?_ne hs hold' hold hg hf hplace)
    · obtain ⟨rfl, -⟩ := h.place?_of_new hs hold hf hplace
      obtain ⟨hsame, -⟩ := h.place?_of_new hs hold' hg hplace'
      have hle : s.functions.size ≤ f.index := Nat.not_lt.1 hold
      have hle' : s.functions.size ≤ g.index := Nat.not_lt.1 hold'
      have hposition : f.index - s.functions.size = g.index - s.functions.size :=
        congrArg Prod.snd hsame
      have hindex : f.index = g.index := by omega
      cases f
      cases g
      exact congrArg FunctionAddr.mk hindex

theorem attributed_new (limit : Nat) : (Store.new limit).Attributed where
  has := by
    rintro f owner position ⟨m, hm, -⟩
    cases Array.not_mem_empty m hm
  distinct := by
    rintro f g place ⟨m, hm, -⟩
    cases Array.not_mem_empty m hm

theorem Reachable.attributed (h : s.Reachable) : s.Attributed := by
  refine (h.invariant (I := fun s => s.Sound ∧ s.Attributed) ?_ ?_).2
  · exact fun limit => ⟨sound_new limit, attributed_new limit⟩
  · exact fun s s' ⟨hs, ha⟩ hchange => ⟨hs.change hchange, ha.change hs hchange⟩

/-- A change that adds functions only if it registers a module: no instantiation fails after it has
added some. -/
def Tidy (s s' : Store) : Prop :=
  s.Change s' ∧ (s'.modules.size = s.modules.size → s'.functions.size = s.functions.size)

/-- In a store that tidy changes have made, modules refer to all functions. -/
theorem refers_of_tidy {limit : Nat} (h : Relation.ReflTransGen Tidy (Store.new limit) s)
    (hf : s.Denotes (.function f)) : s.Refers (.function f) := by
  induction h with
  | refl => exact absurd hf (Nat.not_lt_zero _)
  | @tail before after _ hstep ih =>
    obtain ⟨hchange, htidy⟩ := hstep
    by_cases hold : before.Denotes (.function f)
    · obtain ⟨m, hm, hrefers⟩ := ih hold
      obtain ⟨added, hadded⟩ := hchange.grows.modules
      refine ⟨m, Array.mem_toList_iff.1 ?_, hrefers⟩
      rw [← hadded]
      exact List.mem_append_left _ (Array.mem_toList_iff.2 hm)
    · refine hchange.refers_of_new (fun hsame => hold ?_) hold hf
      exact Nat.lt_of_lt_of_eq hf (htidy hsame)

/-- **A function names its owner truly exactly if a module refers to it.** In a reachable store the
owner that a function names is registered and has it if and only if some module refers to the
function; no two such functions name the same place, and the report shows them with modules that
have them. What a failed instantiation has left is never in the index space of a module. Without
such instantiations all functions are referred to. -/
theorem Reachable.ownership (h : s.Reachable) :
    (∀ f owner, s.owner? f = some owner → (s.Has owner f ↔ s.Refers (.function f))) ∧
    (∀ f g place, s.Refers (.function f) → s.Refers (.function g) →
      s.place? f = some place → s.place? g = some place → f = g) ∧
    (∀ f fn, s.function? f = some fn → s.Refers (.function f) → s.Credits f fn) ∧
    (∀ name m e, (s.instantiate name m).result = .error e →
      ∀ s', (s.instantiate name m).store.Later s' → ∀ f, ¬ s.Denotes (.function f) →
        (s.instantiate name m).store.Denotes (.function f) → ∀ a, ¬ s'.Has a f) ∧
    ((∃ limit, Relation.ReflTransGen Tidy (Store.new limit) s) →
      ∀ f, s.Denotes (.function f) → s.Refers (.function f)) := by
  have hattributed := h.attributed
  refine ⟨?_, hattributed.distinct, ?_, ?_, ?_⟩
  · intro f owner howner
    obtain ⟨position, hplace⟩ := exists_position howner
    exact ⟨Has.refers, fun hf => hattributed.has f owner position hf hplace⟩
  · rintro f ⟨type, body⟩ hfn hf
    cases body with
    | host run => exact .inl rfl
    | defined owner position code =>
      have hplace : s.place? f = some (owner, position) := by simp [place?, hfn]
      exact .inr ⟨owner, position, hattributed.has f owner position hf hplace, rfl⟩
  · intro name m e he s' hlater f hnew hf a hhas
    -- a reference to it would be one of the modules that were there before
    have hbefore := (refers_congr (modules_of_error he)).1 (hlater.refers hf hhas.refers)
    exact hnew (h.sound.closed _ hbefore)
  · rintro ⟨limit, htidy⟩ f hf
    exact refers_of_tidy htidy hf

/-- A module with one function. -/
def succeeding : Module where
  types := [⟨[], []⟩]
  functions := [0]
  codes := [⟨[], #[]⟩]

/-- The store in which one module has failed after its function was added, and another one has got
the handle that it would have had. -/
def inherited : Store :=
  ((sharing.instantiate "guest" orphaning).store.instantiate "heir" succeeding).store

theorem inherited_reachable : inherited.Reachable := by
  obtain ⟨limit, hsharing⟩ := sharing_reachable
  exact ⟨limit, (hsharing.tail (.instantiate _ _ _)).tail (.instantiate _ _ _)⟩

theorem ownership_heir : inherited.Reachable ∧ inherited.owner? ⟨2⟩ = some ⟨1⟩ ∧
    inherited.Refers (.function ⟨2⟩) ∧ inherited.Has ⟨1⟩ ⟨2⟩ ∧
    inherited.owner? ⟨1⟩ = some ⟨1⟩ ∧ ¬ inherited.Refers (.function ⟨1⟩) := by
  have hmodule : (inherited.module? ⟨1⟩).map ModuleInstance.functions = some #[⟨2⟩] := by
    decide +kernel
  have howner : inherited.owner? ⟨2⟩ = some ⟨1⟩ := by decide +kernel
  have howner' : inherited.owner? ⟨1⟩ = some ⟨1⟩ := by decide +kernel
  obtain ⟨m, hm, hfunctions⟩ := Option.map_eq_some_iff.1 hmodule
  have hhas : inherited.Has ⟨1⟩ ⟨2⟩ := ⟨m, hm, by simp [hfunctions]⟩
  obtain ⟨howners, -⟩ := inherited_reachable.ownership
  refine ⟨inherited_reachable, howner, (howners _ _ howner).1 hhas, hhas, howner', ?_⟩
  -- the module that has got the handle does not have the function that was left
  rw [← howners _ _ howner']
  rintro ⟨m', hm', hmem⟩
  cases hm.symm.trans hm'
  simp [hfunctions] at hmem

/-- **A failed instantiation leaves a function to the next module.** That module does not have it,
but owns it by name, at the place of a function of its own; so the report says. -/
theorem ownership_inherited : inherited.Reachable ∧
    inherited.place? ⟨1⟩ = some (⟨1⟩, 0) ∧ inherited.place? ⟨2⟩ = some (⟨1⟩, 0) ∧
    (∃ m, inherited.module? ⟨1⟩ = some m ∧ (⟨1⟩ : FunctionAddr) ∉ m.functions) ∧
    ∃ fn, inherited.function? ⟨1⟩ = some fn ∧
      (Report.functionLine fn 1).text = "  * 0002 () -> () [ModuleAddr]0x0001 0000" := by
  have hmodule : (inherited.module? ⟨1⟩).map ModuleInstance.functions = some #[⟨2⟩] := by
    decide +kernel
  have hline : (inherited.function? ⟨1⟩).map (fun fn => (Report.functionLine fn 1).text) =
      some "  * 0002 () -> () [ModuleAddr]0x0001 0000" := by
    decide +kernel
  obtain ⟨m, hm, hfunctions⟩ := Option.map_eq_some_iff.1 hmodule
  obtain ⟨fn, hfn, htext⟩ := Option.map_eq_some_iff.1 hline
  refine ⟨inherited_reachable, by decide +kernel, by decide +kernel, ⟨m, hm, ?_⟩, fn, hfn, htext⟩
  simp [hfunctions]

end Store

end WasmCore
