import WasmCore.Engine
import WasmCore.Proofs.Store.Sizes

/-!
# Declarations of host modules

A host module is registered exactly if its declarations are well formed: their names are distinct,
every synonym is declared after its target, functions have numeric types, and the memories are
allowed under the limit of the store (`Declaration.WellFormed`). Then the functions and memories of
the store are followed by those that were declared, in this order, and every name stands for what it
was declared for. Otherwise the engine stays as it was (`Engine.hostModule_all_or_nothing`).
-/

namespace WasmCore

/-! ### Lists -/

/-- No element of a list stands before itself exactly if the elements are distinct. -/
theorem nodup_iff_not_mem_take {α : Type} {l : List α} :
    l.Nodup ↔ ∀ i x, l[i]? = some x → x ∉ l.take i := by
  rw [List.nodup_iff_getElem?_ne_getElem?]
  constructor
  · intro h i x hx hmem
    obtain ⟨j, hj, rfl⟩ := List.mem_take_iff_getElem.1 hmem
    obtain ⟨hi, -⟩ := List.getElem?_eq_some_iff.1 hx
    refine h j i (by omega) hi ?_
    rw [hx, List.getElem?_eq_getElem]
  · intro h i j hij hj hsame
    refine h j l[j] (List.getElem?_eq_getElem hj) (List.mem_take_iff_getElem.2 ⟨i, by omega, ?_⟩)
    rw [List.getElem?_eq_getElem (by omega), List.getElem?_eq_getElem hj] at hsame
    exact Option.some.inj hsame

/-- The place of what an element adds is behind what the elements before it add. -/
theorem getElem?_filterMap_take {α β : Type} {f : α → Option β} {l : List α} {i : Nat} {x : α}
    {y : β} (hx : l[i]? = some x) (hy : f x = some y) :
    (l.filterMap f)[((l.take i).filterMap f).length]? = some y := by
  induction l generalizing i with
  | nil => cases hx
  | cons z l ih =>
    cases i with
    | zero =>
      cases hx
      simp [hy]
    | succ i =>
      rw [List.getElem?_cons_succ] at hx
      cases hz : f z <;> simp [hz, ih hx]

/-! ### Sequences of declarations -/

namespace Declaration

/-- The name that is declared. -/
def name : Declaration → String
  | function name _ _ => name
  | memory name _ => name
  | synonym name _ => name

/-- The function that is added. -/
def function? : Declaration → Option FunctionInstance
  | function _ type run => some ⟨type, .host run⟩
  | _ => none

/-- The type of the memory that is added. -/
def memory? : Declaration → Option MemoryType
  | memory _ type => some type
  | _ => none

/-- One name is declared as a synonym of another one. -/
def IsSynonym (ds : List Declaration) (n target : String) : Prop := .synonym n target ∈ ds

/-- What makes a sequence of declarations a host module under a limit of pages. -/
structure WellFormed (limit : Nat) (ds : List Declaration) : Prop where
  distinct : (ds.map name).Nodup
  targets : ∀ (i : Nat) n target, ds[i]? = some (.synonym n target) →
    target ∈ (ds.take i).map name
  numeric : ∀ n type run, .function n type run ∈ ds →
    ∀ t ∈ type.params ++ type.results, t.isNumeric = true
  allowed : ∀ n type, .memory n type ∈ ds →
    type.min.toNat ≤ limit ∧ ∀ max, type.max = some max → type.min ≤ max

/-- A declaration can follow others. -/
def Fits (before : List Declaration) (d : Declaration) : Prop :=
  d.name ∉ before.map name ∧
    match d with
    | function _ type _ => ∀ t ∈ type.params ++ type.results, t.isNumeric = true
    | memory _ _ => True
    | synonym _ target => target ∈ before.map name

/-- Each of the declarations can follow those before it. -/
def Follow (before ds : List Declaration) : Prop :=
  ∀ (i : Nat) d, ds[i]? = some d → d.Fits (before ++ ds.take i)

variable {d : Declaration} {before ds : List Declaration}

theorem follow_nil (before : List Declaration) : Follow before [] := nofun

theorem follow_cons : Follow before (d :: ds) ↔ d.Fits before ∧ Follow (before ++ [d]) ds := by
  refine ⟨fun h => ⟨?_, fun i x hx => ?_⟩, fun ⟨hd, hds⟩ i x hx => ?_⟩
  · simpa using h 0 d rfl
  · simpa using h (i + 1) x hx
  · cases i with
    | zero =>
      cases hx
      simpa using hd
    | succ i => simpa using hds i x hx

theorem wellFormed_iff {limit : Nat} : WellFormed limit ds ↔ Follow [] ds ∧
    ∀ type ∈ ds.filterMap memory?, type.min.toNat ≤ limit ∧
      ∀ max, type.max = some max → type.min ≤ max := by
  constructor
  · intro h
    refine ⟨fun i d hd => ⟨?_, ?_⟩, ?_⟩
    · have hname : (ds.map name)[i]? = some d.name := by rw [List.getElem?_map, hd, Option.map_some]
      simpa [List.map_take] using nodup_iff_not_mem_take.1 h.distinct i d.name hname
    · cases d with
      | function n type run => exact h.numeric n type run (List.mem_of_getElem? hd)
      | memory n type => trivial
      | synonym n target => exact h.targets i n target hd
    · intro type htype
      obtain ⟨d, hd, hd'⟩ := List.mem_filterMap.1 htype
      cases d with
      | memory n _ =>
        cases hd'
        exact h.allowed n type hd
      | _ => cases hd'
  · rintro ⟨hfollow, hallowed⟩
    constructor
    · refine nodup_iff_not_mem_take.2 fun i n hn => ?_
      rw [List.getElem?_map] at hn
      obtain ⟨d, hd, rfl⟩ := Option.map_eq_some_iff.1 hn
      simpa [List.map_take] using (hfollow i d hd).1
    · intro i n target hd
      exact (hfollow i _ hd).2
    · intro n type run hd
      obtain ⟨i, hi⟩ := List.mem_iff_getElem?.1 hd
      exact (hfollow i _ hi).2
    · intro n type hd
      exact hallowed type (List.mem_filterMap.2 ⟨_, hd, rfl⟩)

end Declaration

open Declaration

/-! ### What is declared -/

namespace HostModule

variable {m m' : HostModule} {name n : String} {item : DeclaredItem} {d : Declaration}
  {before ds : List Declaration}

theorem find?_addExport (h : m.find? name = none) (item : DeclaredItem) :
    (m.addExport name item).find? n = if n = name then some item else m.find? n := by
  simp only [find?, addExport, Array.find?_push] at h ⊢
  by_cases hn : n = name
  · subst hn
    rw [Option.map_eq_none_iff] at h
    simp [h]
  · have hne : name ≠ n := fun h => hn h.symm
    simp [hn, hne]

/-- A name stands for what it was declared for, after the declarations `before`. -/
def Gives (m : HostModule) (before : List Declaration) : Declaration → Prop
  | .function n _ _ => m.find? n = some (.function (before.filterMap function?).length)
  | .memory n _ => m.find? n = some (.memory (before.filterMap memory?).length)
  | .synonym n target => ∃ item, m.find? n = some item ∧ m.find? target = some item

/-- A host module is what was declared. -/
structure Declares (m : HostModule) (name : String) (ds : List Declaration) : Prop where
  name : m.name = name
  functions : m.functions.toList = ds.filterMap function?
  memories : m.memories.toList = ds.filterMap memory?
  names : ∀ n, (m.find? n).isSome = true ↔ n ∈ ds.map Declaration.name
  gives : ∀ (i : Nat) d, ds[i]? = some d → m.Gives (ds.take i) d

theorem Gives.mono (h : ∀ n item, m.find? n = some item → m'.find? n = some item)
    (hd : m.Gives before d) : m'.Gives before d := by
  cases d with
  | function n type run => exact h _ _ hd
  | memory n type => exact h _ _ hd
  | synonym n target =>
    obtain ⟨item, hn, htarget⟩ := hd
    exact ⟨item, h _ _ hn, h _ _ htarget⟩

theorem declares_nil (name : String) : Declares { name } name [] where
  name := rfl
  functions := rfl
  memories := rfl
  names := by simp [find?]
  gives := nofun

/-- An export under a free name is a declaration if it gives what was declared. -/
theorem Declares.addExport (h : m.Declares name before) (hfree : m.find? d.name = none)
    (hname : m'.name = m.name)
    (hfind : ∀ n, m'.find? n = if n = d.name then some item else m.find? n)
    (hfunctions : m'.functions.toList = m.functions.toList ++ d.function?.toList)
    (hmemories : m'.memories.toList = m.memories.toList ++ d.memory?.toList)
    (hgives : m'.Gives before d) : m'.Declares name (before ++ [d]) where
  name := hname.trans h.name
  functions := by
    rw [hfunctions, h.functions, List.filterMap_append]
    cases d <;> rfl
  memories := by
    rw [hmemories, h.memories, List.filterMap_append]
    cases d <;> rfl
  names := by
    intro n
    rw [hfind, List.map_append, List.mem_append, ← h.names]
    by_cases hn : n = d.name <;> simp [hn]
  gives := by
    have hextends : ∀ n item, m.find? n = some item → m'.find? n = some item := by
      intro n item hitem
      rw [hfind, if_neg, hitem]
      rintro rfl
      rw [hfree] at hitem
      cases hitem
    intro i x hx
    by_cases hi : i < before.length
    · rw [List.getElem?_append_left hi] at hx
      rw [List.take_append_of_le_length (Nat.le_of_lt hi)]
      exact (h.gives i x hx).mono hextends
    · obtain ⟨hlt, -⟩ := List.getElem?_eq_some_iff.1 hx
      obtain rfl : i = before.length := by
        rw [List.length_append, List.length_singleton] at hlt
        omega
      rw [List.getElem?_concat_length] at hx
      cases hx
      simpa using hgives

/-- A declaration succeeds exactly if it fits those before it, and then it is added to them. -/
theorem Declares.declare_iff (h : m.Declares name before) (d : Declaration) :
    (∃ m', m.declare d = .ok m') ↔ d.Fits before := by
  unfold Fits
  rw [← h.names]
  cases d with
  | function n type run =>
    simp only [HostModule.declare, Declaration.name]
    by_cases hn : (m.find? n).isSome = true
    · simp [hn]
    · rw [if_neg hn]
      cases ht : (type.params ++ type.results).find? fun t => !t.isNumeric with
      | none => simpa [hn, or_imp, forall_and] using ht
      | some t =>
        refine iff_of_false (by rintro ⟨m', hm'⟩; cases hm') fun hfits => ?_
        have hnumeric := hfits.2 t (List.mem_of_find?_eq_some ht)
        simpa [hnumeric] using List.find?_some ht
  | memory n type =>
    simp only [HostModule.declare, Declaration.name]
    by_cases hn : (m.find? n).isSome = true <;> simp [hn]
  | synonym n target =>
    simp only [HostModule.declare, Declaration.name]
    by_cases hn : (m.find? n).isSome = true
    · simp [hn]
    · rw [if_neg hn, ← h.names]
      cases m.find? target <;> simp [hn]

theorem Declares.declare (h : m.Declares name before) (hd : m.declare d = .ok m') :
    m'.Declares name (before ++ [d]) := by
  cases d with
  | function n type run =>
    simp only [HostModule.declare] at hd
    split at hd
    · cases hd
    · rename_i hn
      split at hd
      · cases hd
      · cases hd
        have hfind {n' : String} := find?_addExport (n := n')
          (m := { m with functions := m.functions.push ⟨type, .host run⟩ })
          (Option.not_isSome_iff_eq_none.1 hn) (.function m.functions.size)
        refine h.addExport (Option.not_isSome_iff_eq_none.1 hn) rfl (fun _ => hfind)
          Array.toList_push ?_ ?_
        · exact (List.append_nil _).symm
        · refine hfind.trans ((if_pos rfl).trans ?_)
          rw [← h.functions, Array.length_toList]
  | memory n type =>
    simp only [HostModule.declare] at hd
    split at hd
    · cases hd
    · rename_i hn
      cases hd
      have hfind {n' : String} := find?_addExport (n := n')
        (m := { m with memories := m.memories.push type })
        (Option.not_isSome_iff_eq_none.1 hn) (.memory m.memories.size)
      refine h.addExport (Option.not_isSome_iff_eq_none.1 hn) rfl (fun _ => hfind) ?_
        Array.toList_push ?_
      · exact (List.append_nil _).symm
      · refine hfind.trans ((if_pos rfl).trans ?_)
        rw [← h.memories, Array.length_toList]
  | synonym n target =>
    simp only [HostModule.declare] at hd
    split at hd
    · cases hd
    · rename_i hn
      split at hd
      · cases hd
      · rename_i item hitem
        cases hd
        have hnone := Option.not_isSome_iff_eq_none.1 hn
        have hfind {n' : String} := find?_addExport (n := n') hnone item
        refine h.addExport hnone rfl (fun _ => hfind) (List.append_nil _).symm
          (List.append_nil _).symm ⟨item, hfind.trans (if_pos rfl), ?_⟩
        rw [hfind, hitem, ite_self]

/-- Declarations succeed exactly if each of them fits those before it. -/
theorem Declares.declareAll_iff (h : m.Declares name before) (ds : List Declaration) :
    (∃ m', ds.foldlM HostModule.declare m = .ok m') ↔ Follow before ds := by
  induction ds generalizing m before with
  | nil => exact iff_of_true ⟨m, rfl⟩ (follow_nil before)
  | cons d ds ih =>
    rw [follow_cons, ← h.declare_iff, List.foldlM_cons]
    cases hd : m.declare d with
    | error e => exact iff_of_false (fun ⟨_, h⟩ => nomatch h) (fun ⟨⟨_, h⟩, _⟩ => nomatch h)
    | ok m₁ =>
      rw [← ih (h.declare hd)]
      exact ⟨fun hds => ⟨⟨m₁, rfl⟩, hds⟩, fun hds => hds.2⟩

theorem Declares.declareAll (h : m.Declares name before)
    (hds : ds.foldlM HostModule.declare m = .ok m') : m'.Declares name (before ++ ds) := by
  induction ds generalizing m before with
  | nil =>
    cases hds
    simpa using h
  | cons d ds ih =>
    rw [List.foldlM_cons] at hds
    cases hd : m.declare d with
    | error e =>
      rw [hd] at hds
      cases hds
    | ok m₁ =>
      rw [hd] at hds
      simpa using ih (h.declare hd) hds

/-- A synonym of a synonym, and so on, stands for the same as its last target. -/
theorem Declares.of_chain (h : m.Declares name ds) {target : String}
    (hchain : Relation.TransGen (IsSynonym ds) n target) :
    ∃ item, m.find? n = some item ∧ m.find? target = some item := by
  have hone {n target : String} (hd : IsSynonym ds n target) :
      ∃ item, m.find? n = some item ∧ m.find? target = some item := by
    obtain ⟨i, hi⟩ := List.mem_iff_getElem?.1 hd
    exact h.gives i _ hi
  induction hchain with
  | single hd => exact hone hd
  | tail _ hd ih =>
    obtain ⟨item, hn, hmiddle⟩ := ih
    obtain ⟨item', hmiddle', htarget⟩ := hone hd
    cases hmiddle.symm.trans hmiddle'
    exact ⟨item, hn, htarget⟩

/-- No flaw is found exactly if all declared memories are allowed. -/
theorem memoryFlaw?_eq_none_iff {limit : Nat} : m.memoryFlaw? limit = none ↔
    ∀ type ∈ m.memories.toList, type.min.toNat ≤ limit ∧
      ∀ max, type.max = some max → type.min ≤ max := by
  constructor
  · intro h type htype
    have hcheck := m.memoryFlaw?_eq_none h type (Array.mem_toList_iff.1 htype)
    exact (Link.checkMemoryType_eq_ok_iff.1 hcheck).2
  · intro h
    refine List.findSome?_eq_none_iff.2 fun ⟨type, i⟩ htype => ?_
    have hcheck : checkMemoryType limit (some type) = .ok type :=
      Link.checkMemoryType_eq_ok_iff.2 ⟨rfl, h type (List.fst_mem_of_mem_zipIdx htype)⟩
    simp only [hcheck]

end HostModule

/-! ### Registration -/

/-- What a declared export denotes once it is registered in a store. -/
def DeclaredItem.addr (s : Store) : DeclaredItem → ExternAddr
  | .function i => .function ⟨s.functions.size + i⟩
  | .memory i => .memory ⟨s.memories.size + i⟩

namespace Store

variable (s : Store) (m : HostModule)

theorem register_toList : (s.register m).store.functions.toList =
      s.functions.toList ++ m.functions.toList ∧
    (s.register m).store.memories.toList =
      s.memories.toList ++ m.memories.toList.map Memory.ofType := by
  simp [register, addModule]

/-- The registered module is a new one, with the exports that were declared. -/
theorem register_module : ∃ inst, (s.register m).store.modules = s.modules.push inst ∧
    inst.name = m.name ∧ (s.register m).addr = ⟨s.modules.size⟩ ∧
    ∀ n, inst.find? n = (m.find? n).map fun item => ⟨n, item.addr s⟩ := by
  obtain ⟨inst, hinst, hname, hexports⟩ : ∃ inst,
      (s.register m).store.modules = s.modules.push inst ∧ inst.name = m.name ∧
      inst.exports = m.exports.map fun x => ⟨x.1, x.2.addr s⟩ := by
    refine ⟨_, rfl, rfl, congrArg (m.exports.map ·) (funext fun x => ?_)⟩
    obtain ⟨name, item⟩ := x
    cases item <;> rfl
  refine ⟨inst, hinst, hname, rfl, fun n => ?_⟩
  simp only [ModuleInstance.find?, HostModule.find?, hexports, Array.find?_map, Option.map_map]
  refine Option.map_congr fun x hx => ?_
  have hn : x.1 = n := by simpa using Array.find?_some hx
  rw [← hn]
  rfl

end Store

namespace Engine

/-- A name of a module stands for something, for modules that import it and for the host. -/
structure Exports (e : Engine) (a : ModuleAddr) (name : String) (x : ExternAddr) : Prop where
  imported : e.store.resolve a name = .ok ⟨name, x⟩
  function : ∀ f, e.exportedFunction? a name = some f ↔ x = .function f
  memory : ∀ b, e.exportedMemory? a name = some b ↔ x = .memory b

theorem exports_of_find? {e : Engine} {a : ModuleAddr} {inst : ModuleInstance} {name : String}
    {x : ExternAddr} (ha : e.store.module? a = some inst) (hx : inst.find? name = some ⟨name, x⟩) :
    e.Exports a name x where
  imported := Store.resolve_eq_ok_iff.2 ⟨inst, ha, hx⟩
  function := by
    intro f
    simp only [exportedFunction?, ha, hx, Option.bind_eq_bind, Option.bind_some]
    cases x <;> simp
  memory := by
    intro b
    simp only [exportedMemory?, ha, hx, Option.bind_eq_bind, Option.bind_some]
    cases x <;> simp

theorem registerHost_eq_ok_iff {e : Engine} {m : HostModule} {r : Registered} :
    e.registerHost .either m = .ok r ↔ r = e.store.register m ∧
      ∀ type ∈ m.memories.toList, type.min.toNat ≤ e.store.pageLimit ∧
        ∀ max, type.max = some max → type.min ≤ max := by
  rw [← HostModule.memoryFlaw?_eq_none_iff]
  simp only [registerHost]
  by_cases hempty : m.memories.isEmpty = true
  · rw [if_pos hempty, Store.synthesize, if_pos hempty, Except.ok.injEq]
    have hnone : m.memoryFlaw? e.store.pageLimit = none := by
      rw [HostModule.memoryFlaw?_eq_none_iff, Array.isEmpty_iff.1 hempty]
      nofun
    simp only [hnone, and_true]
    exact eq_comm
  · rw [if_neg hempty, Store.external]
    cases m.memoryFlaw? e.store.pageLimit with
    | none => simp [eq_comm]
    | some flaw => simp

/-- What registration comes to: a module that was declared is added, or nothing happens. -/
theorem hostModule_cases (e : Engine) (name : String) (ds : List Declaration) :
    (∃ (m : HostModule) (e' : Engine), WellFormed e.store.pageLimit ds ∧ m.Declares name ds ∧
      e'.store = (e.store.register m).store ∧
      e.hostModule .either name ds = (e', .ok (e.store.register m).addr)) ∨
    (¬ WellFormed e.store.pageLimit ds ∧
      ∃ err, e.hostModule .either name ds = (e, .error err)) := by
  unfold hostModule HostModule.ofDeclarations
  cases hds : ds.foldlM HostModule.declare { name } with
  | error err =>
    refine .inr ⟨fun hwell => ?_, _, rfl⟩
    obtain ⟨m, hm⟩ := ((HostModule.declares_nil name).declareAll_iff ds).2
      (wellFormed_iff.1 hwell).1
    cases hds.symm.trans hm
  | ok m =>
    have hm : m.Declares name ds := (HostModule.declares_nil name).declareAll hds
    have hfollow := ((HostModule.declares_nil name).declareAll_iff ds).1 ⟨m, hds⟩
    cases hr : e.registerHost .either m with
    | ok r =>
      obtain ⟨rfl, hallowed⟩ := registerHost_eq_ok_iff.1 hr
      rw [hm.memories] at hallowed
      exact .inl ⟨m, _, wellFormed_iff.2 ⟨hfollow, hallowed⟩, hm, rfl, by
        simp only [hr]
        rfl⟩
    | error err =>
      refine .inr ⟨fun hwell => ?_, .register err, by simp only [hr]⟩
      have hallowed := (wellFormed_iff.1 hwell).2
      rw [← hm.memories] at hallowed
      cases hr.symm.trans (registerHost_eq_ok_iff.2 ⟨rfl, hallowed⟩)

/-- **Host modules are registered completely or not at all.** A host module is registered exactly if
its declarations are well formed. Then the store has one more function for each function that was
declared and one more zeroed memory for each memory, in the order of the declarations; every name
stands for what was added for it, and every synonym, also through other synonyms, for what its
target stands for. Otherwise the engine is as it was. -/
theorem hostModule_all_or_nothing (e : Engine) (name : String) (ds : List Declaration) :
    ((∃ e' a, e.hostModule .either name ds = (e', .ok a)) ↔ WellFormed e.store.pageLimit ds) ∧
    (∀ e' err, e.hostModule .either name ds = (e', .error err) → e' = e) ∧
    ∀ e' a, e.hostModule .either name ds = (e', .ok a) →
      e'.store.functions.toList = e.store.functions.toList ++ ds.filterMap function? ∧
      e'.store.memories.toList =
        e.store.memories.toList ++ (ds.filterMap memory?).map Memory.ofType ∧
      (∃ inst, e'.store.modules = e.store.modules.push inst ∧ inst.name = name) ∧
      a = ⟨e.store.modules.size⟩ ∧
      (∀ (i : Nat) n type run, ds[i]? = some (.function n type run) →
        ∃ f, e'.Exports a n (.function f) ∧
          f.index = e.store.functions.size + ((ds.take i).filterMap function?).length ∧
          e'.store.function? f = some ⟨type, .host run⟩) ∧
      (∀ (i : Nat) n type, ds[i]? = some (.memory n type) →
        ∃ b m, e'.Exports a n (.memory b) ∧
          b.index = e.store.memories.size + ((ds.take i).filterMap memory?).length ∧
          e'.store.memory? b = some m ∧ m.length = type.min.toNat * pageSize ∧
          m.max = type.max ∧ ∀ k, m.byteAt k = 0) ∧
      ∀ n target, Relation.TransGen (IsSynonym ds) n target →
        ∃ x, e'.Exports a n x ∧ e'.Exports a target x := by
  rcases e.hostModule_cases name ds with ⟨m, e', hwell, hm, hstore, hresult⟩ | ⟨hwell, err, hresult⟩
  · refine ⟨iff_of_true ⟨_, _, hresult⟩ hwell, ?_, ?_⟩
    · intro e₁ err h
      cases hresult.symm.trans h
    · intro e₁ a h
      cases hresult.symm.trans h
      obtain ⟨inst, hinst, hname, haddr, hfind⟩ := e.store.register_module m
      obtain ⟨hfunctions, hmemories⟩ := e.store.register_toList m
      rw [← hstore] at hinst hfunctions hmemories
      rw [hm.functions] at hfunctions
      rw [hm.memories] at hmemories
      have hmodule : e'.store.module? (e.store.register m).addr = some inst := by
        rw [haddr, Store.module?, hinst, Array.getElem?_push_size]
      have hexports {n : String} {item : DeclaredItem} (hitem : m.find? n = some item) :
          e'.Exports (e.store.register m).addr n (item.addr e.store) :=
        exports_of_find? hmodule (by rw [hfind, hitem, Option.map_some])
      refine ⟨hfunctions, hmemories, ⟨inst, hinst, hname.trans hm.name⟩, haddr, ?_, ?_, ?_⟩
      · intro i n type run hd
        refine ⟨_, hexports (hm.gives i _ hd), rfl, ?_⟩
        rw [Store.function?, ← Array.getElem?_toList, hfunctions, ← Array.length_toList,
          List.getElem?_append_right (Nat.le_add_right ..), Nat.add_sub_cancel_left]
        exact getElem?_filterMap_take hd rfl
      · intro i n type hd
        refine ⟨_, .ofType type, hexports (hm.gives i _ hd), rfl, ?_, Memory.length_ofType type,
          rfl, Memory.byteAt_ofType type⟩
        rw [Store.memory?, ← Array.getElem?_toList, hmemories, ← Array.length_toList,
          List.getElem?_append_right (Nat.le_add_right ..), Nat.add_sub_cancel_left,
          List.getElem?_map, getElem?_filterMap_take (f := Declaration.memory?) hd rfl,
          Option.map_some]
      · intro n target hchain
        obtain ⟨item, hn, htarget⟩ := hm.of_chain hchain
        exact ⟨_, hexports hn, hexports htarget⟩
  · refine ⟨iff_of_false ?_ hwell, ?_, ?_⟩
    · rintro ⟨e', a, h⟩
      cases hresult.symm.trans h
    · intro e' err' h
      cases hresult.symm.trans h
      rfl
    · intro e' a h
      cases hresult.symm.trans h

theorem hostModule_all_or_nothing_chain :
    let e := Engine.default
    let tick : Declaration := .function "tick" ⟨[], [.i32]⟩ fun _ => .done [.i32 7]
    let ds : List Declaration :=
      [.memory "page" ⟨1, some 2⟩, tick, .synonym "tock" "tick", .synonym "tack" "tock"]
    (∃ e' a f b m, e.hostModule .either "env" ds = (e', .ok a) ∧
      e'.Exports a "tick" (.function f) ∧ e'.Exports a "tack" (.function f) ∧
      e'.Exports a "page" (.memory b) ∧ e'.store.memory? b = some m ∧ m.length = 65536) ∧
    ¬ WellFormed e.store.pageLimit (.synonym "tock" "tick" :: ds) := by
  intro e tick ds
  obtain ⟨-, -, hadded⟩ := e.hostModule_all_or_nothing "env" ds
  obtain ⟨hiff, -, -⟩ := e.hostModule_all_or_nothing "env" (.synonym "tock" "tick" :: ds)
  obtain ⟨e', a, h⟩ : ∃ e' a, e.hostModule .either "env" ds = (e', .ok a) := ⟨_, _, rfl⟩
  obtain ⟨-, -, -, -, hfunctions, hmemories, hchains⟩ := hadded e' a h
  obtain ⟨f, htick, -⟩ := hfunctions 1 _ _ _ rfl
  obtain ⟨b, m, hpage, -, hm, hlength, -⟩ := hmemories 0 _ _ rfl
  have htock : IsSynonym ds "tock" "tick" := .tail _ (.tail _ (.head _))
  have htack : IsSynonym ds "tack" "tock" := .tail _ (.tail _ (.tail _ (.head _)))
  obtain ⟨x, htack, hx⟩ := hchains "tack" "tick" (.tail (.single htack) htock)
  cases htick.imported.symm.trans hx.imported
  refine ⟨⟨e', a, f, b, m, h, htick, htack, hpage, hm, hlength⟩, fun hwell => ?_⟩
  obtain ⟨e', a, h⟩ := hiff.2 hwell
  cases h

end Engine

end WasmCore
