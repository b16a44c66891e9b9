import WasmCore.Proofs.Store.Instantiation
import WasmCore.Proofs.Store.Reference

/-!
# What linking keeps

Linking changes a store in few ways: it adds functions and memories, and it puts memories into the
index space of the instance that a module refers to or that have just been added. A property that
these changes keep (`Link.Upkeep`) is kept by every phase up to the exports, whether it succeeds or
fails (`Link.Upkeep.prepare`, `Link.Upkeep.exports`). Only copies of data and the registration of
the module are described by what they do.

A failure because of a handle that denotes nothing needs a handle that a module refers to, or one in
the index space of the instance. It is told from other failures, so that properties of stores in
which no reference dangles can exclude it.
-/

namespace WasmCore

namespace Store

variable {s : Store}

/-! ### Imports refer to something -/

theorem resolve_eq_ok_iff {a : ModuleAddr} {name : String} {e : ExportInstance} :
    s.resolve a name = .ok e ↔ ∃ m, s.module? a = some m ∧ m.find? name = some e := by
  unfold resolve
  cases s.module? a with
  | none => simp
  | some m =>
    simp only [Option.some.injEq, exists_eq_left']
    cases m.find? name <;> simp

theorem resolveImport_eq_ok_iff {i : Import} {e : ExportInstance} :
    s.resolveImport i = .ok e ↔
      ∃ a, s.findModule? i.module = some a ∧ s.resolve a i.name = .ok e := by
  unfold resolveImport
  cases s.findModule? i.module <;> simp

/-- What is found under the name of an export is something that the module refers to. -/
theorem refers_of_resolve {a : ModuleAddr} {name : String} {e : ExportInstance}
    (h : s.resolve a name = .ok e) : s.Refers e.target := by
  obtain ⟨m, hm, he⟩ := resolve_eq_ok_iff.1 h
  have hmem : e ∈ m.exports := Array.mem_of_find?_eq_some he
  refine ⟨m, Array.mem_of_getElem? hm, ?_⟩
  cases ht : e.target with
  | function f => exact .inr ⟨e, hmem, ht⟩
  | memory a => exact .inr ⟨e, hmem, ht⟩

theorem refers_of_resolveImport {i : Import} {e : ExportInstance}
    (h : s.resolveImport i = .ok e) : s.Refers e.target := by
  obtain ⟨a, -, ha⟩ := resolveImport_eq_ok_iff.1 h
  exact refers_of_resolve ha

theorem resolveImport_ne_dangling {i : Import} {e : LinkError}
    (h : s.resolveImport i = .error e) : e ≠ .dangling := by
  unfold resolveImport at h
  split at h
  · cases h
    nofun
  · unfold resolve at h
    split at h
    · cases h
      nofun
    · split at h
      · cases h
        nofun
      · cases h

end Store

namespace Link

/-! ### Upkeep -/

/-- A property of the store and of the memories of the instance that the changes made by linking
keep, and a property of stores that holds after each failure. -/
structure Upkeep (I : Store → Array MemoryAddr → Prop) (E : LinkError → Store → Prop) : Prop where
  addFunction : ∀ {s memories} (f : FunctionInstance), I s memories →
    I (s.addFunction f).1 memories
  /-- A memory is added after its type has been checked. -/
  addMemory : ∀ {s memories type t}, I s memories → checkMemoryType s.pageLimit type = .ok t →
    I (s.addMemory (.ofType t)).1 memories
  /-- A memory of the instance is an imported one or a new one. -/
  bindMemory : ∀ {s memories a}, I s memories →
    s.Refers (.memory a) ∨ s.Denotes (.memory a) → I s (memories.push a)
  refused : ∀ {s memories e}, I s memories → e ≠ .dangling → E e s
  missingFunction : ∀ {s memories f}, I s memories → s.Refers (.function f) →
    s.function? f = none → E .dangling s
  missingMemory : ∀ {s memories a}, I s memories → a ∈ memories →
    s.memory? a = none → E .dangling s

/-- The property `I` of what was linked so far. -/
abbrev During (I : Store → Array MemoryAddr → Prop) (l : Linking) : Prop :=
  I l.store l.inst.memories

/-- The property `E` of a store that linking leaves behind. -/
abbrev Behind (E : LinkError → Store → Prop) (e : LinkError) (l : Linking) : Prop :=
  E e l.store

namespace Upkeep

variable {I : Store → Array MemoryAddr → Prop} {E : LinkError → Store → Prop}
  {α : Type} {Q : α → Linking → Prop}

theorem throw (h : Upkeep I E) {e : LinkError} (he : e ≠ .dangling) :
    Triple (During I) (MonadExcept.throw e) Q (Behind E) :=
  .throw fun _ hl => h.refused hl he

/-- A change of what was linked that touches neither the store nor the memories. -/
theorem modifyInst {f : Linking → Linking}
    (hf : ∀ l, (f l).store = l.store ∧ (f l).inst.memories = l.inst.memories) :
    Keeps (During I) (Behind E) (modify f : Link Unit) := by
  refine .modifyGet fun l hl => ?_
  obtain ⟨hstore, hmemories⟩ := hf l
  simpa only [During, hstore, hmemories] using hl

theorem bindFunction (a : FunctionAddr) : Keeps (During I) (Behind E) (Link.bindFunction a) :=
  modifyInst fun _ => ⟨rfl, rfl⟩

theorem bindExport (e : ExportInstance) : Keeps (During I) (Behind E) (Link.bindExport e) :=
  modifyInst fun _ => ⟨rfl, rfl⟩

theorem report (e : Event) : Keeps (During I) (Behind E) (Link.report e) :=
  modifyInst fun _ => ⟨rfl, rfl⟩

/-- The new memory is there as soon as it has been added. -/
theorem allocate (h : Upkeep I E) {l : Linking} (hl : During I l) {type : Option MemoryType}
    {t : MemoryType} (ht : checkMemoryType l.store.pageLimit type = .ok t) :
    Triple (· = l) (Link.allocate t)
      (fun a l' => During I l' ∧ l'.store.Denotes (.memory a)) (Behind E) := by
  refine .modifyGet fun l' hl' => ?_
  subst hl'
  exact ⟨h.addMemory hl ht, by simp [Store.Denotes, Store.addMemory]⟩

/-! ### Phases -/

theorem importFunction (h : Upkeep I E) (m : Module) (i : Import) (type : UInt32)
    (a : FunctionAddr) :
    Triple (fun l => During I l ∧ l.store.Refers (.function a)) (Link.importFunction m i type a)
      (fun _ => During I) (Behind E) := by
  unfold Link.importFunction
  split
  · exact .throw fun l hl => h.refused hl.1 (by simp)
  · refine .get fun l hl => ?_
    split
    · rename_i hnone
      exact .throw fun l' hl' => hl' ▸ h.missingFunction hl.1 hl.2 hnone
    · split
      · exact (bindFunction a).start hl.1
      · exact (h.throw (by simp)).start hl.1

theorem importItem (h : Upkeep I E) (m : Module) (i : Import) :
    Keeps (During I) (Behind E) (Link.importItem m i) := by
  refine .get fun l hl => ?_
  split
  · rename_i e he
    exact (h.throw (Store.resolveImport_ne_dangling he)).start hl
  · rename_i found hfound
    have hrefers := Store.refers_of_resolveImport hfound
    dsimp only
    split
    · rename_i type a _ ha
      exact ((h.importFunction m i type a).start ⟨hl, ha ▸ hrefers⟩).bind fun _ => report _
    · rename_i type a _ ha
      refine .bind (.modifyGet fun l' hl' => ?_) fun _ => report _
      subst hl'
      exact h.bindMemory hl (.inl (ha ▸ hrefers))
    · exact ((h.throw (by simp)).start hl).bind fun _ => report _

theorem defineFunction (h : Upkeep I E) (m : Module) (owner : ModuleAddr) (position : Nat)
    (type : UInt32) (code : Code) :
    Keeps (During I) (Behind E) (Link.defineFunction m owner position type code) := by
  unfold Link.defineFunction
  split
  · exact h.throw (by simp)
  · exact .bind (.modifyGet fun l hl => h.addFunction _ hl) bindFunction

theorem defineFunctions (h : Upkeep I E) (m : Module) (owner : ModuleAddr) :
    Keeps (During I) (Behind E) (Link.defineFunctions m owner) := by
  unfold Link.defineFunctions
  split
  · exact .forM (fun ((type, code), i) => h.defineFunction m owner i type code) _
  · exact h.throw (by simp)

theorem defineMemory (h : Upkeep I E) (position : Nat) (type : Option MemoryType) :
    Keeps (During I) (Behind E) (Link.defineMemory position type) := by
  refine .get fun l hl => ?_
  split
  · rename_i t ht
    exact (h.allocate hl ht).bind fun a => .modifyGet fun l' hl' => h.bindMemory hl'.1 (.inr hl'.2)
  · exact (h.throw (by simp)).start hl

theorem placeData (h : Upkeep I E) (position : Nat) (d : DataSegment) :
    Keeps (During I) (Behind E) (Link.placeData position d) := by
  unfold Link.placeData
  split
  · exact h.throw (by simp)
  · refine .get fun l hl => ?_
    split
    · exact (h.throw (by simp)).start hl
    · rename_i a ha
      split
      · rename_i hnone
        exact .throw fun l' hl' => hl' ▸ h.missingMemory hl (Array.mem_of_getElem? ha) hnone
      · split
        · exact .pure fun l' hl' => hl' ▸ hl
        · exact (h.throw (by simp)).start hl

theorem exportItem (h : Upkeep I E) (e : Export) :
    Keeps (During I) (Behind E) (Link.exportItem e) := by
  refine .get fun l hl => ?_
  split
  · split
    · exact (h.throw (by simp)).start hl
    · exact (bindExport _).start hl
  · split
    · exact (h.throw (by simp)).start hl
    · split
      · rename_i t ht
        have hnew := (h.allocate hl ht).mono (fun _ => id) (fun _ _ => And.left) fun _ _ => id
        exact hnew.bind fun a => bindExport _
      · exact (h.throw (by simp)).start hl
  · exact (h.throw (by simp)).start hl

/-- Up to the exports, given what the copies of data do. All segments are checked before any of
them is copied. -/
theorem prepare (h : Upkeep I E) {R : Linking → Prop}
    (hcopies : ∀ placed : List PlacedData,
      Triple (During I) (placed.forM copyData) (fun _ => R) (Behind E))
    (m : Module) (owner : ModuleAddr) :
    Triple (During I) (Link.prepare m owner) (fun _ => R) (Behind E) :=
  .bind (.forM (h.importItem m) _) fun _ =>
    .bind (h.defineFunctions m owner) fun _ =>
    .bind (.forM (fun (type, i) => h.defineMemory i type) _) fun _ =>
    .bind (.mapM (fun (d, i) => h.placeData i d) _) fun placed => hcopies placed

/-- From the exports on, given what the registration of the module does. -/
theorem exports (h : Upkeep I E) {R : Linking → Prop}
    (hregister : ∀ l l', During I l → l'.store = (l.store.addModule l.inst).1 → R l') (m : Module) :
    Triple (During I) (do m.exports.forM Link.exportItem; register m) (fun _ => R) (Behind E) :=
  .bind (.forM h.exportItem _) fun _ l hl => hregister l _ hl rfl

end Upkeep

end Link

end WasmCore
