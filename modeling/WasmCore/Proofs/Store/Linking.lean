import WasmCore.Proofs.Store.Linkable
import WasmCore.Proofs.Store.Triple

/-!
# The phases of linking

A step of linking is described by the condition under which it succeeds and by what it makes then
(`Link.Decides`). Such descriptions compose, so that each phase of linking gets one from those of
its steps: `imports_decides`, `defineFunctions_decides`, `defineMemories_decides`,
`initializeData_decides` and `exports_decides`.
-/

namespace WasmCore

/-! ### References -/

namespace Store

variable {s : Store}

/-- The export that linking finds for an import is the one that the import refers to. -/
theorem referent?_eq (i : Import) :
    s.referent? i = (s.resolveImport i).toOption.map ExportInstance.target := by
  unfold referent? resolveImport findModule? resolve module? ModuleInstance.find?
  rw [Array.find?_toList, Array.find?_eq_bind_findIdx?_getElem?]
  cases s.modules.findIdx? fun m => m.name = i.module with
  | none => rfl
  | some j =>
    cases hm : s.modules[j]? with
    | none => simp [hm, Except.toOption]
    | some m =>
      cases he : m.exports.find? fun e => e.name = i.name with
      | none => simp [hm, he, Except.toOption]
      | some e => simp [hm, he, Except.toOption]

end Store

namespace Link

/-! ### Steps of linking -/

/-- What linking has made so far, apart from what it has reported. -/
structure Draft where
  store : Store
  inst : ModuleInstance
  memoryTypes : Array (Option MemoryType)

/-- The draft of a module that is being linked. -/
def draft (l : Linking) : Draft := ⟨l.store, l.inst, l.memoryTypes⟩

/-- From a draft `d` a step succeeds exactly under the condition `p`, and then it yields `a` and
makes the draft `d'`. -/
structure Decides {α : Type} (x : Link α) (d : Draft) (p : Prop) (a : α) (d' : Draft) : Prop where
  succeeds : p → Triple (draft · = d) x (fun b l => b = a ∧ draft l = d') fun _ _ => False
  fails : ¬ p → Triple (draft · = d) x (fun _ _ => False) fun _ _ => True

namespace Decides

variable {α β : Type} {x : Link α} {d d' d'' : Draft} {p q : Prop} {a : α} {b : β}

theorem exists_ok (h : Decides x d p a d') (hp : p) (l : Linking) (hl : draft l = d) :
    ∃ l', x l = .ok a l' ∧ draft l' = d' := by
  have hend := h.succeeds hp
  cases hr : x l with
  | ok b l' =>
    obtain ⟨rfl, hl'⟩ := hend.of_ok hl hr
    exact ⟨l', rfl, hl'⟩
  | error e l' => exact (hend.of_error hl hr).elim

theorem exists_error (h : Decides x d p a d') (hp : ¬ p) (l : Linking) (hl : draft l = d) :
    ∃ e l', x l = .error e l' := by
  cases hr : x l with
  | ok b l' => exact ((h.fails hp).of_ok hl hr).elim
  | error e l' => exact ⟨e, l', rfl⟩

theorem pure (hp : p) : Decides (Pure.pure a) d p a d :=
  ⟨fun _ => .pure fun _ hl => ⟨rfl, hl⟩, fun hn => absurd hp hn⟩

theorem throw {e : LinkError} (hn : ¬ p) : Decides (MonadExcept.throw e) d p a d' :=
  ⟨fun hp => absurd hp hn, fun _ => .throw fun _ _ => trivial⟩

theorem modifyGet {f : Linking → α × Linking} (hp : p)
    (hf : ∀ l, draft l = d → (f l).1 = a ∧ draft (f l).2 = d') :
    Decides (MonadState.modifyGet f) d p a d' :=
  ⟨fun _ => .modifyGet hf, fun hn => absurd hp hn⟩

theorem modify {f : Linking → Linking} (hp : p) (hf : ∀ l, draft l = d → draft (f l) = d') :
    Decides (MonadState.modifyGet fun l => ((), f l)) d p () d' :=
  modifyGet hp fun l hl => ⟨rfl, hf l hl⟩

/-- Something is added to the store. -/
theorem add (hp : p) (g : Draft → Store × α) :
    Decides (MonadState.modifyGet fun l =>
        let (store, a) := g (draft l)
        (a, { l with store := store })) d p (g d).2 { d with store := (g d).1 } :=
  modifyGet hp fun l hl => by subst hl; exact ⟨rfl, rfl⟩

/-- A step that looks at what was linked so far. -/
theorem get {k : Linking → Link α} (hk : ∀ l, draft l = d → Decides (k l) d p a d') :
    Decides (MonadState.get >>= k) d p a d' where
  succeeds := fun hp => .get fun l hl => ((hk l hl).succeeds hp).start hl
  fails := fun hn => .get fun l hl => ((hk l hl).fails hn).start hl

theorem bind {k : α → Link β} (hx : Decides x d p a d') (hk : p → Decides (k a) d' q b d'') :
    Decides (x >>= k) d (p ∧ q) b d'' where
  succeeds := by
    rintro ⟨hp, hq⟩
    refine (hx.succeeds hp).bind fun a' => .given fun ha => ?_
    exact ha ▸ (hk hp).succeeds hq
  fails := by
    intro hn
    by_cases hp : p
    · have hfirst : Triple (draft · = d) x (fun b l => b = a ∧ draft l = d') fun _ _ => True :=
        (hx.succeeds hp).mono (fun _ => id) (fun _ _ => id) fun _ _ _ => trivial
      refine hfirst.bind fun a' => .given fun ha => ?_
      exact ha ▸ (hk hp).fails fun hq => hn ⟨hp, hq⟩
    · exact (hx.fails hp).bind fun _ _ => False.elim

/-- The condition may be replaced by an equivalent one, and what is made under it by the same. -/
theorem congr (hx : Decides x d p a d') (hpq : p ↔ q) (hd : p → d' = d'') :
    Decides x d q a d'' where
  succeeds := fun hq => hd (hpq.2 hq) ▸ hx.succeeds (hpq.2 hq)
  fails := fun hn => hx.fails fun hp => hn (hpq.1 hp)

theorem yields (hx : Decides x d p a d') {a' : α} (ha : p → a = a') : Decides x d p a' d' where
  succeeds := fun hp => ha hp ▸ hx.succeeds hp
  fails := hx.fails

/-- A step for each element of a list. The drafts on the way satisfy `I`, and `after` says what is
made by the steps for several elements. -/
theorem forM {f : α → Link Unit} {P : α → Prop} (I : Draft → Prop)
    (after : Draft → List α → Draft)
    (hf : ∀ d x, I d → Decides (f x) d (P x) () (after d [x]))
    (hI : ∀ d x, I d → P x → I (after d [x]))
    (hnil : ∀ d, after d [] = d)
    (hcons : ∀ d x xs, I d → P x → after (after d [x]) xs = after d (x :: xs))
    (xs : List α) (hd : I d) : Decides (xs.forM f) d (∀ x ∈ xs, P x) () (after d xs) := by
  induction xs generalizing d with
  | nil =>
    rw [hnil]
    exact .pure (by simp)
  | cons x xs ih =>
    have hx := hf d x hd
    refine (hx.bind fun hP => ih (hI d x hd hP)).congr List.forall_mem_cons.symm ?_
    rintro ⟨hP, -⟩
    exact hcons d x xs hd hP

/-- A step for each element of a list that makes nothing and yields what `g` gives. -/
theorem mapM {f : α → Link β} {P : α → Prop} {g : α → Option β}
    (hf : ∀ x, ∃ y, Decides (f x) d (P x) y d ∧ (P x → g x = some y)) (xs : List α) :
    Decides (xs.mapM f) d (∀ x ∈ xs, P x) (xs.filterMap g) d := by
  induction xs with
  | nil =>
    rw [List.mapM_nil]
    exact .pure (by simp)
  | cons x xs ih =>
    obtain ⟨y, hx, hy⟩ := hf x
    rw [List.mapM_cons]
    have hxs : Decides (f x >>= fun b => xs.mapM f >>= fun bs => Pure.pure (b :: bs)) d
        (P x ∧ (∀ x ∈ xs, P x) ∧ True) (y :: xs.filterMap g) d :=
      hx.bind fun _ => ih.bind fun _ => .pure trivial
    refine (hxs.congr (by simp) fun _ => rfl).yields fun hP => ?_
    rw [List.filterMap_cons_some (hy (hP x List.mem_cons_self))]

end Decides

/-! ### Imports -/

namespace Draft

variable (d : Draft)

/-- A function in the index space of the instance. -/
def withFunction (a : FunctionAddr) : Draft :=
  { d with inst := { d.inst with functions := d.inst.functions.push a } }

/-- A memory in the index space of the instance. -/
def withMemory (a : MemoryAddr) (type : Option MemoryType) : Draft :=
  { d with
    inst := { d.inst with memories := d.inst.memories.push a }
    memoryTypes := d.memoryTypes.push type }

/-- The draft with imports bound to what they refer to. -/
def importing (imports : List Import) : Draft :=
  { d with
    inst := { d.inst with
      functions := d.inst.functions ++ (imports.filterMap d.store.importedFunction?).toArray
      memories := d.inst.memories ++ (imports.filterMap d.store.importedMemory?).toArray }
    memoryTypes := d.memoryTypes ++ (imports.filterMap Import.memoryType?).toArray }

theorem importing_nil : d.importing [] = d := by simp [importing]

theorem importing_importing (is js : List Import) :
    (d.importing is).importing js = d.importing (is ++ js) := by
  simp [importing]

theorem importing_function {i : Import} {type : UInt32} {a : FunctionAddr}
    (hi : i.desc = .function type) (ha : d.store.referent? i = some (.function a)) :
    d.importing [i] = d.withFunction a := by
  simp [importing, withFunction, Store.importedFunction?, Store.importedMemory?,
    Import.memoryType?, hi, ha]

theorem importing_memory {i : Import} {type : Option MemoryType} {a : MemoryAddr}
    (hi : i.desc = .memory type) (ha : d.store.referent? i = some (.memory a)) :
    d.importing [i] = d.withMemory a type := by
  simp [importing, withMemory, Store.importedFunction?, Store.importedMemory?,
    Import.memoryType?, hi, ha]

end Draft

theorem bindFunction_decides {d : Draft} {p : Prop} (hp : p) (a : FunctionAddr) :
    Decides (bindFunction a) d p () (d.withFunction a) :=
  .modify hp fun l hl => by subst hl; rfl

theorem bindMemory_decides {d : Draft} {p : Prop} (hp : p) (a : MemoryAddr)
    (type : Option MemoryType) : Decides (bindMemory a type) d p () (d.withMemory a type) :=
  .modify hp fun l hl => by subst hl; rfl

theorem report_decides {d : Draft} {p : Prop} (hp : p) (e : Event) :
    Decides (report e) d p () d :=
  .modify hp fun _ hl => hl

theorem importFunction_decides (m : Module) (i : Import) (type : UInt32) (a : FunctionAddr)
    (d : Draft) :
    Decides (importFunction m i type a) d
      (∃ f, d.store.function? a = some f ∧ m.types[type.toNat]? = some f.type) ()
      (d.withFunction a) := by
  unfold importFunction
  cases ht : m.types[type.toNat]? with
  | none => exact .throw (by simp)
  | some expected =>
    refine .get fun l hl => ?_
    subst hl
    simp only [draft]
    cases hf : l.store.function? a with
    | none => exact .throw (by simp)
    | some f =>
      by_cases he : f.type = expected
      · simp only [he, ↓reduceIte]
        exact bindFunction_decides ⟨f, rfl, by rw [he]⟩ a
      · simp only [he, ↓reduceIte]
        exact .throw (by simp [Ne.symm he])

/-- An import is bound exactly if it is met. -/
theorem importItem_decides (m : Module) (i : Import) (d : Draft) :
    Decides (importItem m i) d (d.store.Meets m i) () (d.importing [i]) := by
  refine .get fun l hl => ?_
  subst hl
  have href := l.store.referent?_eq i
  cases hr : l.store.resolveImport i with
  | error e =>
    simp only [hr, Except.toOption, Option.map_none] at href
    refine .throw fun h => ?_
    simp only [draft, Store.Meets, href] at h
    split at h <;> simp at h
  | ok found =>
    simp only [hr, Except.toOption, Option.map_some] at href
    rcases i with ⟨module, name, desc⟩
    rcases found with ⟨exportName, target⟩
    -- the kinds must agree, and only functions and memories can be exported at all
    cases desc with
    | function type =>
      cases target with
      | function a =>
        rw [Draft.importing_function _ rfl href]
        refine ((importFunction_decides m _ type a _).bind fun _ =>
          report_decides trivial _).congr ?_ fun _ => rfl
        simp only [Store.Meets, draft, href]
        simp
      | memory a => exact .throw (by simp [Store.Meets, draft, href])
    | memory type =>
      cases target with
      | function a => exact .throw (by simp [Store.Meets, draft, href])
      | memory a =>
        rw [Draft.importing_memory _ rfl href]
        refine ((bindMemory_decides trivial a type).bind fun _ =>
          report_decides trivial _).congr ?_ fun _ => rfl
        simp [Store.Meets, draft, href]
    | table => exact .throw (by simp [Store.Meets])
    | global => exact .throw (by simp [Store.Meets])
    | other code => exact .throw (by simp [Store.Meets])

/-- Imports are bound exactly if all of them are met. -/
theorem imports_decides (m : Module) (imports : List Import) (d : Draft) :
    Decides (imports.forM (importItem m)) d (∀ i ∈ imports, d.store.Meets m i) ()
      (d.importing imports) := by
  -- binding an import does not change the store, so all of them are looked up in the same one
  have hitem : ∀ (d' : Draft) (i : Import), d'.store = d.store →
      Decides (importItem m i) d' (d.store.Meets m i) () (d'.importing [i]) := by
    intro d' i hd'
    rw [← hd']
    exact importItem_decides m i d'
  have hkeeps : ∀ (d' : Draft) (i : Import), d'.store = d.store → d.store.Meets m i →
      (d'.importing [i]).store = d.store := by
    intro d' i hd' _
    exact hd'
  exact .forM (fun d' => d'.store = d.store) Draft.importing hitem hkeeps Draft.importing_nil
    (fun d' i is _ _ => d'.importing_importing [i] is) imports rfl

/-! ### Functions -/

theorem forall_mem_zipIdx {α : Type} {P : α → Prop} (xs : List α) :
    (∀ x ∈ xs.zipIdx, P x.1) ↔ ∀ x ∈ xs, P x := by
  conv => rhs; rw [← xs.zipIdx_map_fst 0]
  simp only [List.forall_mem_map]

/-- The draft with functions that the module defines. -/
def Draft.defining (d : Draft) (m : Module) (owner : ModuleAddr)
    (fs : List ((UInt32 × Code) × Nat)) : Draft :=
  { d with
    store := { d.store with
      functions := d.store.functions ++ (fs.filterMap (m.definition? owner)).toArray }
    inst := { d.inst with
      functions := d.inst.functions ++
        ((List.range' d.store.functions.size fs.length).map FunctionAddr.mk).toArray } }

theorem Draft.defining_cons {m : Module} {owner : ModuleAddr} {f : (UInt32 × Code) × Nat}
    (hf : f.1.1.toNat < m.types.length) (d : Draft) (fs : List ((UInt32 × Code) × Nat)) :
    (d.defining m owner [f]).defining m owner fs = d.defining m owner (f :: fs) := by
  rcases f with ⟨⟨type, code⟩, position⟩
  simp [defining, Module.definition?, List.getElem?_eq_getElem hf, List.range'_succ]

/-- A function is defined exactly if its type is there. -/
theorem defineFunction_decides (m : Module) (owner : ModuleAddr) (f : (UInt32 × Code) × Nat)
    (d : Draft) :
    Decides (defineFunction m owner f.2 f.1.1 f.1.2) d (f.1.1.toNat < m.types.length) ()
      (d.defining m owner [f]) := by
  rcases f with ⟨⟨type, code⟩, position⟩
  unfold defineFunction
  by_cases ht : type.toNat < m.types.length
  · simp only [List.getElem?_eq_getElem ht]
    have hadd := Decides.add (d := d) (p := True) trivial fun d =>
      d.store.addFunction ⟨m.types[type.toNat], .defined owner position code⟩
    refine (hadd.bind fun _ => bindFunction_decides trivial _).congr (by simp [ht]) fun _ => ?_
    simp [Draft.withFunction, Draft.defining, Store.addFunction, Module.definition?,
      List.getElem?_eq_getElem ht]
  · simp only [List.getElem?_eq_none (Nat.le_of_not_lt ht)]
    exact .throw ht

/-- The functions are defined exactly if each of them has code and a type. -/
theorem defineFunctions_decides (m : Module) (owner : ModuleAddr) (d : Draft) :
    Decides (defineFunctions m owner) d
      (m.functions.length = m.codes.length ∧ ∀ type ∈ m.functions, type.toNat < m.types.length) ()
      (d.defining m owner (m.functions.zip m.codes).zipIdx) := by
  unfold defineFunctions
  by_cases hl : m.functions.length = m.codes.length
  · simp only [hl, ↓reduceIte, true_and]
    have hnil : ∀ d : Draft, d.defining m owner [] = d := by
      intro d
      simp [Draft.defining]
    have hall := Decides.forM (d := d) (fun _ => True) (fun d => d.defining m owner)
      (fun d f _ => defineFunction_decides m owner f d) (fun _ _ _ _ => trivial) hnil
      (fun d f fs _ hf => d.defining_cons hf fs) (m.functions.zip m.codes).zipIdx trivial
    refine hall.congr ?_ fun _ => rfl
    -- with as many codes as functions, pairing them up loses no function
    rw [forall_mem_zipIdx (P := fun f : UInt32 × Code => f.1.toNat < m.types.length)]
    conv => rhs; rw [← List.map_fst_zip (Nat.le_of_eq hl)]
    simp only [List.forall_mem_map]
  · simp only [hl, ↓reduceIte, false_and]
    exact .throw id

/-! ### Memories -/

theorem checkMemoryType_eq_ok_iff {limit : Nat} {type : Option MemoryType} {t : MemoryType} :
    checkMemoryType limit type = .ok t ↔
      type = some t ∧ t.min.toNat ≤ limit ∧ ∀ max, t.max = some max → t.min ≤ max := by
  cases type with
  | none => simp [checkMemoryType]
  | some u =>
    simp only [checkMemoryType]
    by_cases hl : limit < u.min.toNat
    · rw [if_pos hl]
      constructor
      · intro h
        cases h
      · rintro ⟨h, hmin, -⟩
        cases h
        omega
    · rw [if_neg hl]
      cases hm : u.max with
      | none => grind
      | some max => grind

/-- The draft with zeroed memories of some types. -/
def Draft.allocating (d : Draft) (types : List (Option MemoryType)) : Draft :=
  { d with
    store := { d.store with
      memories := d.store.memories ++ (types.filterMap (Option.map Memory.ofType)).toArray }
    inst := { d.inst with
      memories := d.inst.memories ++
        ((List.range' d.store.memories.size types.length).map MemoryAddr.mk).toArray }
    memoryTypes := d.memoryTypes ++ types.toArray }

theorem Draft.allocating_cons (d : Draft) (t : MemoryType) (types : List (Option MemoryType)) :
    (d.allocating [some t]).allocating types = d.allocating (some t :: types) := by
  simp [allocating, List.range'_succ]

theorem allocate_decides {p : Prop} (hp : p) (t : MemoryType) (d : Draft) :
    Decides (allocate t) d p ⟨d.store.memories.size⟩
      { d with store := (d.store.addMemory (.ofType t)).1 } :=
  .add hp fun d => d.store.addMemory (.ofType t)

/-- A memory is defined exactly if its type is allowed. -/
theorem defineMemory_decides (position : Nat) (type : Option MemoryType) (d : Draft) :
    Decides (defineMemory position type) d (d.store.Allows type) () (d.allocating [type]) := by
  refine .get fun l hl => ?_
  subst hl
  cases hc : checkMemoryType l.store.pageLimit type with
  | ok t =>
    have ht := checkMemoryType_eq_ok_iff.1 hc
    refine ((allocate_decides trivial t (draft l)).bind fun _ =>
      bindMemory_decides trivial _ type).congr ?_ fun _ => ?_
    · simpa using ⟨t, ht⟩
    · simp [Draft.withMemory, Draft.allocating, Store.addMemory, ht.1]
  | error flaw =>
    refine .throw fun ⟨t, ht⟩ => ?_
    cases hc.symm.trans (checkMemoryType_eq_ok_iff.2 ht)

/-- The memories are defined exactly if all their types are allowed. -/
theorem defineMemories_decides (types : List (Option MemoryType)) (d : Draft) :
    Decides (types.zipIdx.forM fun (type, i) => defineMemory i type) d
      (∀ type ∈ types, d.store.Allows type) () (d.allocating types) := by
  have hitem : ∀ (d' : Draft) (x : Option MemoryType × Nat),
      d'.store.pageLimit = d.store.pageLimit →
      Decides (defineMemory x.2 x.1) d' (d.store.Allows x.1) () (d'.allocating [x.1]) := by
    intro d' x hd'
    have hx := defineMemory_decides x.2 x.1 d'
    simpa [Store.Allows, hd'] using hx
  have hnil : ∀ d : Draft, d.allocating [] = d := by
    intro d
    simp [Draft.allocating]
  have hcons : ∀ (d' : Draft) (x : Option MemoryType × Nat) (xs : List (Option MemoryType × Nat)),
      d'.store.pageLimit = d.store.pageLimit → d.store.Allows x.1 →
      (d'.allocating [x.1]).allocating (xs.map Prod.fst) =
        d'.allocating ((x :: xs).map Prod.fst) := by
    rintro d' x xs - ⟨t, ht, -⟩
    simpa [ht] using d'.allocating_cons t (xs.map Prod.fst)
  have hall := Decides.forM (d := d) (fun d' => d'.store.pageLimit = d.store.pageLimit)
    (fun d xs => d.allocating (xs.map Prod.fst)) hitem (fun _ _ hd' _ => hd') hnil hcons
    types.zipIdx rfl
  rw [List.zipIdx_map_fst] at hall
  exact hall.congr (forall_mem_zipIdx types) fun _ => rfl

/-! ### Data -/

theorem dataOffset?_eq_some_iff {code : Array Instruction} {n : Nat} :
    dataOffset? code = some n ↔
      ∃ payload : UInt64, code = #[.const .i32 payload] ∧ payload.toUInt32.toNat = n := by
  unfold dataOffset?
  split
  · rename_i payload hcode
    have hcode : code = #[.const .i32 payload] := Array.toList_inj.1 hcode
    simp [hcode]
  · rename_i hne
    simp only [reduceCtorEq, false_iff]
    rintro ⟨payload, rfl, -⟩
    exact hne payload rfl

section Data

variable {s : Store} {m : Module} {d : Draft}

/-- A data segment has room exactly if it is placed in a memory that reaches as far. -/
theorem hasRoom_iff {seg : DataSegment} :
    s.HasRoom m seg ↔ ∃ placed mem, s.placement? m seg = some placed ∧
      (s.defining m).memory? placed.memory = some mem ∧
      mem.hasLength placed.offset placed.init.length := by
  unfold Store.HasRoom Store.placement?
  constructor
  · rintro ⟨payload, a, mem, ho, ha, hmem, hlen⟩
    refine ⟨⟨a, payload.toUInt32.toNat, seg.init⟩, mem, ?_, hmem, ?_⟩
    · simp [dataOffset?_eq_some_iff.2 ⟨payload, ho, rfl⟩, ha]
    · simpa [Memory.hasLength] using hlen
  · rintro ⟨placed, mem, hp, hmem, hlen⟩
    simp only [Option.bind_eq_bind, Option.bind_eq_some_iff, Option.some.injEq] at hp
    obtain ⟨offset, ho, a, ha, rfl⟩ := hp
    obtain ⟨payload, hcode, rfl⟩ := dataOffset?_eq_some_iff.1 ho
    exact ⟨payload, a, mem, hcode, ha, hmem, by simpa [Memory.hasLength] using hlen⟩

/-- A data segment is placed exactly if it has room. -/
theorem placeData_decides (hs : d.store = s.defining m)
    (hm : d.inst.memories = (s.memorySpace m).toArray) (position : Nat) (seg : DataSegment) :
    ∃ placed, Decides (placeData position seg) d (s.HasRoom m seg) placed d ∧
      (s.HasRoom m seg → s.placement? m seg = some placed) := by
  by_cases h : s.HasRoom m seg
  · obtain ⟨placed, mem, hp, hmem, hlen⟩ := hasRoom_iff.1 h
    refine ⟨placed, ?_, fun _ => hp⟩
    simp only [Store.placement?, Option.bind_eq_bind, Option.bind_eq_some_iff,
      Option.some.injEq] at hp
    obtain ⟨offset, ho, a, ha, rfl⟩ := hp
    simp only [placeData, ho]
    refine .get fun l hl => ?_
    subst hl
    simp only [draft] at hs hm
    simp only [hs, hm, List.getElem?_toArray, ha, hmem, hlen, ↓reduceIte]
    exact .pure h
  · -- had no check failed, the segment would have room
    refine ⟨⟨⟨0⟩, 0, []⟩, ?_, fun hr => absurd hr h⟩
    unfold placeData
    split
    · exact .throw h
    · rename_i offset ho
      refine .get fun l hl => ?_
      subst hl
      simp only [draft] at hs hm
      simp only [hs, hm, List.getElem?_toArray]
      split
      · exact .throw h
      · rename_i a ha
        split
        · exact .throw h
        · rename_i mem hmem
          split
          · rename_i hlen
            refine absurd (hasRoom_iff.2 ⟨⟨a, offset, seg.init⟩, mem, ?_, hmem, hlen⟩) h
            simp [Store.placement?, ho, ha]
          · exact .throw h

theorem copyData_decides {p : Prop} (hp : p) (placed : PlacedData) (d : Draft) :
    Decides (copyData placed) d p () { d with store := d.store.copy placed } :=
  .modify hp fun l hl => by subst hl; rfl

/-- Data is copied exactly if all of it has room. -/
theorem initializeData_decides (hs : d.store = s.defining m)
    (hm : d.inst.memories = (s.memorySpace m).toArray) :
    Decides (initializeData m) d (∀ seg ∈ m.data, s.HasRoom m seg) ()
      { d with store := s.initialized m } := by
  have hplace := Decides.mapM (f := fun x : DataSegment × Nat => placeData x.2 x.1)
    (P := fun x => s.HasRoom m x.1) (g := fun x => s.placement? m x.1)
    (fun x => placeData_decides hs hm x.2 x.1) m.data.zipIdx
  have hcopy (placed : List PlacedData) : Decides (placed.forM copyData) d (∀ x ∈ placed, True) ()
      { d with store := placed.foldl Store.copy d.store } :=
    .forM (fun _ => True) (fun d ps => { d with store := ps.foldl Store.copy d.store })
      (fun d x _ => copyData_decides trivial x d) (fun _ _ _ _ => trivial) (fun _ => rfl)
      (fun _ _ _ _ _ => rfl) placed trivial
  refine (hplace.bind fun _ => hcopy _).congr ?_ fun _ => ?_
  · simpa using forall_mem_zipIdx m.data
  · have hfirst : m.data.zipIdx.filterMap (fun x => s.placement? m x.1) =
        m.data.filterMap (s.placement? m) := by
      conv => rhs; rw [← m.data.zipIdx_map_fst 0, List.filterMap_map]
      rfl
    rw [hfirst, hs, Store.initialized]

end Data

/-! ### Exports -/

section Exports

variable {s : Store} {m : Module}

/-- The draft with exports of the module `m`, which is to be linked into `s`. -/
def Draft.exporting (d : Draft) (s : Store) (m : Module) (es : List Export) : Draft :=
  { d with
    store := { d.store with
      memories := d.store.memories ++ (es.filterMap m.exportedMemory?).toArray }
    inst := { d.inst with
      exports := d.inst.exports ++
        (exportInstances (s.functionSpace m) d.store.memories.size es).toArray } }

/-- All index spaces of the module `m` are complete in a draft. -/
structure Draft.Complete (d : Draft) (s : Store) (m : Module) : Prop where
  functions : d.inst.functions = (s.functionSpace m).toArray
  memoryTypes : d.memoryTypes = m.memoryTypes.toArray
  pageLimit : d.store.pageLimit = s.pageLimit

theorem Draft.exporting_cons {e : Export} (he : s.CanExport m e) (d : Draft) (es : List Export) :
    (d.exporting s m [e]).exporting s m es = d.exporting s m (e :: es) := by
  rcases e with ⟨name, kind, index⟩
  cases kind with
  | function =>
    have hf : (s.functionSpace m)[index.toNat]? = some _ := List.getElem?_eq_getElem he
    simp [exporting, exportInstances, Module.exportedMemory?, hf]
  | memory =>
    obtain ⟨type, htype, t, rfl, -⟩ := he
    simp [exporting, exportInstances, Module.exportedMemory?, htype]
  | table => cases he
  | global => cases he
  | other code => cases he

theorem bindExport_decides {p : Prop} (hp : p) (e : ExportInstance) (d : Draft) :
    Decides (bindExport e) d p ()
      { d with inst := { d.inst with exports := d.inst.exports.push e } } :=
  .modify hp fun l hl => by subst hl; rfl

/-- An export is made exactly if the module can export it. -/
theorem exportItem_decides (e : Export) {d : Draft} (hd : d.Complete s m) :
    Decides (exportItem e) d (s.CanExport m e) () (d.exporting s m [e]) := by
  refine .get fun l hl => ?_
  subst hl
  have hfunctions : l.inst.functions = (s.functionSpace m).toArray := hd.functions
  have htypes : l.memoryTypes = m.memoryTypes.toArray := hd.memoryTypes
  have hlimit : l.store.pageLimit = s.pageLimit := hd.pageLimit
  rcases e with ⟨name, kind, index⟩
  cases kind with
  | function =>
    simp only [hfunctions, List.getElem?_toArray]
    split
    · rename_i hf
      exact .throw (Nat.not_lt.2 (List.getElem?_eq_none_iff.1 hf))
    · rename_i a hf
      refine (bindExport_decides ?_ _ _).congr Iff.rfl fun _ => ?_
      · exact (List.getElem?_eq_some_iff.1 hf).1
      · simp [Draft.exporting, exportInstances, Module.exportedMemory?, hf]
  | memory =>
    simp only [htypes, hlimit, List.getElem?_toArray]
    split
    · rename_i ht
      exact .throw (by simp [Store.CanExport, ht])
    · rename_i type ht
      split
      · rename_i t hc
        have hallowed := checkMemoryType_eq_ok_iff.1 hc
        refine ((allocate_decides trivial t (draft l)).bind fun _ =>
          bindExport_decides trivial _ _).congr ?_ fun _ => ?_
        · simpa using ⟨type, ht, t, hallowed⟩
        · simp [Draft.exporting, exportInstances, Module.exportedMemory?, Store.addMemory, ht,
            hallowed.1]
      · rename_i flaw hc
        refine .throw ?_
        rintro ⟨type', ht', t, hallowed⟩
        cases ht.symm.trans ht'
        cases hc.symm.trans (checkMemoryType_eq_ok_iff.2 hallowed)
  | table => exact .throw id
  | global => exact .throw id
  | other code => exact .throw id

/-- Exports are made exactly if the module can export all of them. -/
theorem exports_decides (es : List Export) {d : Draft} (hd : d.Complete s m) :
    Decides (es.forM exportItem) d (∀ e ∈ es, s.CanExport m e) () (d.exporting s m es) := by
  -- exports add to the store and to the list of exports, but not to the index spaces
  have hkeeps : ∀ (d : Draft) (e : Export), d.Complete s m → s.CanExport m e →
      (d.exporting s m [e]).Complete s m := by
    intro d e hd _
    exact ⟨hd.functions, hd.memoryTypes, hd.pageLimit⟩
  have hnil : ∀ d : Draft, d.exporting s m [] = d := by
    intro d
    simp [Draft.exporting, exportInstances]
  exact .forM (fun d => d.Complete s m) (fun d => d.exporting s m)
    (fun _ e hd => exportItem_decides e hd) hkeeps hnil
    (fun d _ es _ he => d.exporting_cons he es) es hd

end Exports

end Link

end WasmCore
