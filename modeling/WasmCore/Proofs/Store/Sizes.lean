import WasmCore.Proofs.Store.Failure

/-!
# Sizes of memories

A memory is a whole number of pages, and no more than the limit of the store and its own bound
permit. Memories are made in four ways and grown by one instruction, each with a check of its own:
`Store.Sized` is the invariant that all of these keep (`Store.Steady.sized`), in failed
instantiations as well.

`Store.memory_sizes` puts this together, and says exactly what `memory.grow` does.
-/

namespace WasmCore

/-! ### Memories -/

/-- The memory is a whole number of pages, which exceeds neither the limit nor its own bound. -/
structure Memory.Sized (m : Memory) (limit : Nat) : Prop where
  whole : m.length = pageSize * m.pages
  limited : m.pages ≤ limit
  bounded : ∀ max, m.max = some max → m.pages ≤ max.toNat

/-- With `delta` more pages the memory exceeds neither the limit nor its own bound. -/
def Memory.HasRoom (m : Memory) (delta limit : Nat) : Prop :=
  m.pages + delta ≤ limit ∧ ∀ max, m.max = some max → m.pages + delta ≤ max.toNat

namespace Memory

variable {m m' : Memory} {limit delta : Nat}

theorem Sized.congr (h : m.Sized limit) (hlength : m'.length = m.length) (hmax : m'.max = m.max) :
    m'.Sized limit := by
  have hpages : m'.pages = m.pages := by rw [pages, hlength, pages]
  refine ⟨?_, ?_, ?_⟩
  · rw [hlength, hpages, h.whole]
  · rw [hpages]
    exact h.limited
  · rw [hpages, hmax]
    exact h.bounded

/-- A new memory is sized if its type has been checked. -/
theorem sized_ofType {type : Option MemoryType} {t : MemoryType}
    (h : checkMemoryType limit type = .ok t) : (ofType t).Sized limit := by
  obtain ⟨-, hmin, hmax⟩ := Link.checkMemoryType_eq_ok_iff.1 h
  have hpages : (ofType t).pages = t.min.toNat := by
    rw [pages, length_ofType, Nat.mul_div_cancel _ (by decide)]
  refine ⟨?_, ?_, ?_⟩
  · rw [hpages, length_ofType, Nat.mul_comm]
  · rw [hpages]
    exact hmin
  · intro max hm
    rw [hpages]
    exact hmax max hm

theorem length_extended (m : Memory) (delta : Nat) :
    (m.extended delta).length = m.length + pageSize * delta := by
  rw [length, extended, ByteArray.size_append, size_zeros, Nat.mul_comm]
  rfl

theorem pages_extended (m : Memory) (delta : Nat) : (m.extended delta).pages = m.pages + delta := by
  rw [pages, length_extended, Nat.add_mul_div_left _ _ (by decide)]
  rfl

theorem canGrow_iff : m.canGrow delta limit = true ↔ m.HasRoom delta limit := by
  rw [canGrow, decide_eq_true_eq, bound, HasRoom]
  cases m.max with
  | none => simp
  | some max => simp only [Option.some.injEq, forall_eq', Nat.le_min, and_comm]

theorem Sized.extended (h : m.Sized limit) (hcan : m.canGrow delta limit = true) :
    (m.extended delta).Sized limit := by
  obtain ⟨hlimit, hmax⟩ := canGrow_iff.1 hcan
  refine ⟨?_, ?_, ?_⟩
  · rw [length_extended, pages_extended, h.whole, Nat.mul_add]
  · rw [pages_extended]
    exact hlimit
  · rw [pages_extended]
    exact hmax

/-- The old bytes stay where they are. -/
theorem byteAt_extended_of_lt {i : Nat} (h : i < m.length) :
    (m.extended delta).byteAt i = m.byteAt i := by
  have hold : i < m.bytes.size := h
  have hnew : i < (m.extended delta).bytes.size :=
    Nat.lt_of_lt_of_le hold (m.grows_extended delta).length
  rw [byteAt, byteAt, dif_pos hnew, dif_pos hold]
  exact ByteArray.getElem_append_left hold

/-- The new bytes are zero. -/
theorem byteAt_extended_of_le {i : Nat} (h : m.length ≤ i) : (m.extended delta).byteAt i = 0 := by
  rw [byteAt]
  split
  · rename_i hi
    exact (ByteArray.getElem_append_right h).trans (getElem_zeros _)
  · rfl

end Memory

/-! ### Stores -/

/-- The store has this limit, and all memories keep to it. -/
structure Store.Sized (s : Store) (limit : Nat) : Prop where
  pageLimit : s.pageLimit = limit
  memories : ∀ m ∈ s.memories, m.Sized limit

namespace Store

variable {s s' : Store} {limit : Nat}

theorem sized_new (limit : Nat) : (Store.new limit).Sized (Store.new limit).pageLimit where
  pageLimit := rfl
  memories := fun _ hm => absurd hm (Array.not_mem_empty _)

theorem pageLimit_new (limit : Nat) : (Store.new limit).pageLimit ≤ 65536 := by
  unfold new
  dsimp only
  split
  · exact Nat.le_refl _
  · rename_i h
    simp only [Bool.or_eq_true, decide_eq_true_eq, not_or, Nat.not_lt] at h
    exact h.2

theorem Sized.addMemory (h : s.Sized limit) {m : Memory} (hm : m.Sized limit) :
    (s.addMemory m).1.Sized limit where
  pageLimit := h.pageLimit
  memories := by
    intro m' hm'
    rcases Array.mem_push.1 hm' with hold | rfl
    · exact h.memories m' hold
    · exact hm

theorem Sized.modifyMemory (h : s.Sized limit) {a : MemoryAddr} {g : Memory → Memory}
    (hg : ∀ m, s.memory? a = some m → m.Sized limit → (g m).Sized limit) :
    (s.modifyMemory a g).Sized limit where
  pageLimit := h.pageLimit
  memories := by
    intro m' hm'
    obtain ⟨i, hi⟩ := Array.getElem?_of_mem hm'
    rw [Store.modifyMemory, Array.getElem?_modify] at hi
    split at hi
    · rename_i hindex
      obtain ⟨m, hm, rfl⟩ := Option.map_eq_some_iff.1 hi
      rw [← hindex] at hm
      exact hg m hm (h.memories m (Array.mem_of_getElem? hm))
    · exact h.memories m' (Array.mem_of_getElem? hi)

/-- Bytes may change as long as memories keep their lengths and bounds. -/
theorem Sized.rewrite (h : s.Sized limit) (a : MemoryAddr) {g : Memory → Memory}
    (hg : ∀ m : Memory, (g m).length = m.length ∧ (g m).max = m.max) :
    (s.modifyMemory a g).Sized limit :=
  h.modifyMemory fun m _ hm => hm.congr (hg m).1 (hg m).2

theorem Sized.register (h : s.Sized limit) {m : HostModule}
    (hm : ∀ t ∈ m.memories, (Memory.ofType t).Sized limit) : (s.register m).store.Sized limit where
  pageLimit := h.pageLimit
  memories := by
    intro m' hm'
    rcases Array.mem_append.1 hm' with hold | hnew
    · exact h.memories m' hold
    · obtain ⟨t, ht, rfl⟩ := Array.mem_map.1 hnew
      exact hm t ht

end Store

/-! ### Linking -/

namespace Link

/-- Linking adds memories only after their types have been checked against the limit. -/
theorem upkeep_sized (limit : Nat) :
    Upkeep (fun s _ => s.Sized limit) (fun _ s => s.Sized limit) where
  addFunction := fun _ hs => ⟨hs.pageLimit, hs.memories⟩
  addMemory := by
    intro s _ type t hs ht
    rw [hs.pageLimit] at ht
    exact hs.addMemory (Memory.sized_ofType ht)
  bindMemory := fun hs _ => hs
  refused := fun hs _ => hs
  missingFunction := fun hs _ _ => hs
  missingMemory := fun hs _ _ => hs

/-- Whether it succeeds or fails, linking keeps the sizes in order. -/
theorem linkModule_sized (limit : Nat) (m : Module) (owner : ModuleAddr) :
    Keeps (fun l => l.store.Sized limit) (fun _ l => l.store.Sized limit) (linkModule m owner) := by
  have hcopies (placed : List PlacedData) : Keeps (fun l => l.store.Sized limit)
      (fun _ l => l.store.Sized limit) (placed.forM copyData) :=
    .forM (fun d => .modifyGet fun _ hl => hl.rewrite d.memory fun m =>
      ⟨m.length_setBytes d.offset d.init, m.max_setBytes d.offset d.init⟩) placed
  have hregister : ∀ l l' : Linking, l.store.Sized limit →
      l'.store = (l.store.addModule l.inst).1 → l'.store.Sized limit := by
    intro l l' hl hl'
    rw [hl']
    exact ⟨hl.pageLimit, hl.memories⟩
  rw [linkModule_eq]
  exact ((upkeep_sized limit).prepare hcopies m owner).bind fun _ =>
    (upkeep_sized limit).exports hregister m

end Link

/-! ### Execution -/

namespace Machine

/-- Instructions keep the sizes in order. A memory is extended only if it can be, with the limit
that the store has at that point. -/
theorem elementary_sized (limit : Nat) :
    Exec.Elementary fun f f' => f.store.Sized limit → f'.store.Sized limit where
  refl := fun _ hf => hf
  trans := fun _ _ _ hfirst hsecond hf => hsecond (hfirst hf)
  operands := by
    intro α x _ f hf
    rw [Exec.store_operands]
    exact hf
  unwind := fun _ _ _ hf => hf
  setLocal := by
    intro index f hf
    rw [Exec.store_setLocal]
    exact hf
  write := by
    intro a address width value f hf
    exact hf.rewrite a fun m =>
      ⟨m.length_setNumber address width value, m.max_setNumber address width value⟩
  grow := by
    intro a delta m f hm hcan hf
    rw [hf.pageLimit] at hcan
    refine hf.modifyMemory fun m' hm' hsized => ?_
    cases hm.symm.trans hm'
    exact hsized.extended hcan

namespace Config

variable {c : Config} {limit : Nat}

theorem sized_step (h : c.world.store.Sized limit) : c.step.world.store.Sized limit := by
  rcases c.step_store with hsame | ⟨b, i, hstore⟩
  · rw [hsame]
    exact h
  · rw [hstore]
    exact (elementary_sized limit).script (b.script i) c.setting.focus h

theorem sized_run (h : c.world.store.Sized limit) (fuel : Nat) :
    (c.run fuel).world.store.Sized limit := by
  induction fuel generalizing c with
  | zero => exact h
  | succ fuel ih =>
    rw [run_succ]
    exact ih (sized_step h)

/-! ### Growing -/

/-- The machine is about to execute `memory.grow` with an operand, on the memory `m`. -/
structure IsGrowing (c : Config) (b : Body) (finish : Finish) (a : MemoryAddr) (m : Memory)
    (delta : UInt32) (values : List Value) : Prop where
  now : c.now = .body b finish
  code : b.code[b.position]? = some .memoryGrow
  operand : c.stack.current.values = .i32 delta :: values
  handle : c.memory? = some a
  memory : c.world.store.memory? a = some m

variable {b : Body} {finish : Finish} {a : MemoryAddr} {m : Memory} {delta : UInt32}
  {values : List Value}

/-- The instruction extends the memory and leaves its former size on the stack, or it leaves the
store as it is and says so. -/
theorem growMemory_apply {f : Focus} (hvalues : f.frame.values = .i32 delta :: values)
    (hhandle : f.memory? = some a) (hmemory : f.store.memory? a = some m) :
    Exec.growMemory f =
      if m.canGrow delta.toNat f.store.pageLimit then
        .ok () ⟨f.store.modifyMemory a (·.extended delta.toNat),
          { f.frame with values := .i32 (.ofNat m.pages) :: values }⟩
      else .ok () ⟨f.store, { f.frame with values := .i32 0xffffffff :: values }⟩ := by
  rcases f with ⟨store, location, values', locals⟩
  dsimp only at hvalues hmemory
  subst hvalues
  have hlook := Exec.memoryAddr_apply ⟨store, location, .i32 delta :: values, locals⟩
  have hpop : Exec.operands .popI32 ⟨store, location, .i32 delta :: values, locals⟩ =
      .ok delta ⟨store, location, values, locals⟩ := by
    have hbits : (Value.i32 delta).bits.toUInt32 = delta := UInt32.toUInt32_toUInt64 delta
    show EStateM.Result.ok (Value.i32 delta).bits.toUInt32 _ = _
    rw [hbits]
  have hpages := Exec.inspect_apply a (·.pages) ⟨store, location, values, locals⟩
  have hcan := Exec.inspect_apply a (·.canGrow delta.toNat store.pageLimit)
    ⟨store, location, values, locals⟩
  rw [hhandle] at hlook
  rw [hmemory] at hpages hcan
  rw [Exec.growMemory, Exec.bind_of_ok hlook, Exec.bind_of_ok hpop, Exec.get_bind_apply,
    Exec.bind_of_ok hpages, Exec.bind_of_ok hcan]
  split <;> rfl

/-- The step extends the memory and pushes its former number of pages, or it pushes the number that
stands for a failure; nothing else changes. -/
theorem IsGrowing.step_eq (h : c.IsGrowing b finish a m delta values) : c.step =
    if m.canGrow delta.toNat c.world.store.pageLimit then
      { c.withValues (.i32 (.ofNat m.pages) :: values) with
        world := { c.world with store := c.world.store.modifyMemory a (·.extended delta.toNat) }
        now := .body b.next finish }
    else { c.withValues (.i32 0xffffffff :: values) with now := .body b.next finish } := by
  have hgrow := growMemory_apply (f := c.setting.focus) h.operand h.handle h.memory
  have hstep : c.step = c.resume b finish (c.setting.perform (b.step .memoryGrow)) := by
    simp only [Config.step, h.now]
    exact stepBody_of_some h.code finish
  have hplain {f : Focus} (hf : Exec.growMemory c.setting.focus = .ok () f) :
      b.step .memoryGrow c.setting.focus = .ok (.proceed b.next) f := Exec.bind_of_ok hf _
  rw [hstep, Setting.perform]
  by_cases hcan : m.canGrow delta.toNat c.world.store.pageLimit = true
  · rw [hplain (hgrow.trans (if_pos hcan)), if_pos hcan]
    rfl
  · rw [hplain (hgrow.trans (if_neg hcan)), if_neg hcan]
    rfl

/-- On a memory that is a whole number of pages and within the limit, the instruction does what
arithmetic without bounds says. -/
theorem IsGrowing.step_sized (h : c.IsGrowing b finish a m delta values)
    (hm : m.Sized c.world.store.pageLimit) (hlimit : c.world.store.pageLimit ≤ 65536) :
    (m.HasRoom delta.toNat c.world.store.pageLimit → ∃ m' v,
      c.step = { c.withValues (.i32 v :: values) with
        world := { c.world with store := c.world.store.modifyMemory a fun _ => m' }
        now := .body b.next finish } ∧
      v.toNat = m.pages ∧ m'.max = m.max ∧ m'.length = 65536 * (m.pages + delta.toNat) ∧
      (∀ i < m.length, m'.byteAt i = m.byteAt i) ∧ ∀ i, m.length ≤ i → m'.byteAt i = 0) ∧
    (¬ m.HasRoom delta.toNat c.world.store.pageLimit →
      c.step = { c.withValues (.i32 0xffffffff :: values) with now := .body b.next finish }) := by
  refine ⟨fun hroom => ?_, fun hroom => ?_⟩
  · have hpushed : (UInt32.ofNat m.pages).toNat = m.pages := by
      have hle : m.pages ≤ 65536 := Nat.le_trans hm.limited hlimit
      exact UInt32.toNat_ofNat_of_lt' (Nat.lt_of_le_of_lt hle (by decide))
    have hstore : c.world.store.modifyMemory a (·.extended delta.toNat) =
        c.world.store.modifyMemory a fun _ => m.extended delta.toNat :=
      Store.modifyMemory_congr h.memory rfl
    rw [h.step_eq, if_pos (Memory.canGrow_iff.2 hroom), hstore]
    refine ⟨m.extended delta.toNat, .ofNat m.pages, rfl, hpushed, rfl, ?_, ?_, ?_⟩
    · rw [m.length_extended, hm.whole, ← Nat.mul_add]
      rfl
    · intro i hi
      exact Memory.byteAt_extended_of_lt hi
    · intro i hi
      exact Memory.byteAt_extended_of_le hi
  · rw [h.step_eq, if_neg fun hcan => hroom (Memory.canGrow_iff.1 hcan)]

end Config

end Machine

/-! ### Histories -/

/-- If no flaw is found, all declared memories have been checked. -/
theorem HostModule.memoryFlaw?_eq_none (m : HostModule) {limit : Nat}
    (h : m.memoryFlaw? limit = none) (t : MemoryType) (ht : t ∈ m.memories) :
    checkMemoryType limit (some t) = .ok t := by
  obtain ⟨i, hi⟩ := Array.getElem?_of_mem ht
  rw [← Array.getElem?_toList] at hi
  have hnone := List.findSome?_eq_none_iff.1 h (t, i) (List.mem_zipIdx_iff_getElem?.2 hi)
  cases hc : checkMemoryType limit (some t) with
  | error flaw => simp [hc] at hnone
  | ok t' =>
    obtain ⟨hsame, -⟩ := Link.checkMemoryType_eq_ok_iff.1 hc
    cases hsame
    rfl

namespace Store

variable {s s' : Store} {limit : Nat}

/-- One change of a store by which the host resizes no memory. -/
abbrev Steady : Store → Store → Prop :=
  ChangeWith fun g => ∀ m : Memory, (g m).length = m.length ∧ (g m).max = m.max

theorem Steady.change (h : s.Steady s') : s.Change s' :=
  h.mono fun _ hg m => ⟨(hg m).2, Nat.le_of_eq (hg m).1.symm⟩

theorem sized_instantiate (h : s.Sized limit) (name : String) (m : Module) :
    (s.instantiate name m).store.Sized limit := by
  have hlinked := Link.linkModule_sized limit m ⟨s.modules.size⟩
    { store := s, inst := { name, names := m.names } } h
  unfold instantiate
  split
  · rename_i hr
    rwa [hr] at hlinked
  · rename_i hr
    rwa [hr] at hlinked

theorem Steady.sized (h : s.Steady s') (hs : s.Sized limit) : s'.Sized limit := by
  cases h with
  | instantiate _ name m => exact sized_instantiate hs name m
  | @synthesize _ _ _ m _ _ hr =>
    rw [eq_register_of_synthesize hr]
    refine hs.register fun t ht => ?_
    -- a synthesized module has no memories
    unfold Store.synthesize at hr
    split at hr
    · rename_i hempty
      rw [Array.isEmpty_iff.1 hempty] at ht
      exact absurd ht (Array.not_mem_empty t)
    · cases hr
  | @external _ _ _ m _ _ hr =>
    rw [eq_register_of_external hr]
    refine hs.register fun t ht => ?_
    unfold Store.external at hr
    split at hr
    · cases hr
    · rename_i hflaw
      rw [hs.pageLimit] at hflaw
      exact Memory.sized_ofType (m.memoryFlaw?_eq_none hflaw t ht)
  | execute c fuel => exact Machine.Config.sized_run hs fuel
  | write _ a hg => exact hs.rewrite a hg

theorem sized_of_steady (h : Relation.ReflTransGen Steady s s') (hs : s.Sized limit) :
    s'.Sized limit := by
  induction h with
  | refl => exact hs
  | tail _ hchange ih => exact hchange.sized ih

/-- **Sizes of memories.** Whatever is instantiated, registered and executed, successfully or not,
every memory is a whole number of pages, which exceeds neither the limit of the store nor its own
bound, and it never shrinks. With an operand that keeps to both, `memory.grow` adds as many zeroed
pages, keeps all bytes that were there and pushes the former number of pages; with any other operand
it pushes the greatest number and changes nothing. -/
theorem memory_sizes (h : Relation.ReflTransGen Steady (Store.new limit) s) :
    s.pageLimit = (Store.new limit).pageLimit ∧ s.pageLimit ≤ 65536 ∧
    (∀ a m, s.memory? a = some m → ∃ p, m.length = 65536 * p ∧ p ≤ s.pageLimit ∧
      ∀ max, m.max = some max → p ≤ max.toNat) ∧
    (∀ s', Relation.ReflTransGen Steady s s' → ∀ a m, s.memory? a = some m →
      ∃ m', s'.memory? a = some m' ∧ m'.max = m.max ∧ m.length ≤ m'.length) ∧
    ∀ (c : Machine.Config) b finish a m delta values p, c.world.store = s →
      c.IsGrowing b finish a m delta values → m.length = 65536 * p →
      (p + delta.toNat ≤ s.pageLimit → (∀ max, m.max = some max → p + delta.toNat ≤ max.toNat) →
        ∃ m' v, c.step = { c.withValues (.i32 v :: values) with
            world := { c.world with store := s.modifyMemory a fun _ => m' }
            now := .body b.next finish } ∧
          v.toNat = p ∧ m'.max = m.max ∧ m'.length = 65536 * (p + delta.toNat) ∧
          (∀ i < m.length, m'.byteAt i = m.byteAt i) ∧ ∀ i, m.length ≤ i → m'.byteAt i = 0) ∧
      ((s.pageLimit < p + delta.toNat ∨ ∃ max, m.max = some max ∧ max.toNat < p + delta.toNat) →
        c.step = { c.withValues (.i32 0xffffffff :: values) with now := .body b.next finish }) := by
  have hsized := sized_of_steady h (sized_new limit)
  have hlimit : s.pageLimit ≤ 65536 := by
    rw [hsized.pageLimit]
    exact pageLimit_new limit
  have hmemory {a : MemoryAddr} {m : Memory} (hm : s.memory? a = some m) : m.Sized s.pageLimit := by
    rw [hsized.pageLimit]
    exact hsized.memories m (Array.mem_of_getElem? hm)
  refine ⟨hsized.pageLimit, hlimit, ?_, ?_, ?_⟩
  · intro a m hm
    exact ⟨m.pages, (hmemory hm).whole, (hmemory hm).limited, (hmemory hm).bounded⟩
  · intro s' hlater a m hm
    have hchanges : s.Later s' := Relation.ReflTransGen.mono (fun _ _ => Steady.change) _ _ hlater
    obtain ⟨m', hm', hgrown⟩ := (Later.grows hchanges).memories a m hm
    exact ⟨m', hm', hgrown.max, hgrown.length⟩
  · rintro c b finish a m delta values p rfl hgrowing hp
    have hpages : m.pages = p := by
      rw [Memory.pages, hp]
      exact Nat.mul_div_cancel_left p (by decide)
    subst hpages
    obtain ⟨hroom, hfull⟩ := hgrowing.step_sized (hmemory hgrowing.memory) hlimit
    refine ⟨fun hlimit hmax => hroom ⟨hlimit, hmax⟩, fun hexceeds => hfull ?_⟩
    rintro ⟨hfits, hmax⟩
    rcases hexceeds with hlt | ⟨max, hm, hlt⟩
    · exact absurd hfits (Nat.not_le.2 hlt)
    · exact absurd (hmax max hm) (Nat.not_le.2 hlt)

/-- A store with a memory of one page, which may grow to two. -/
def roomy : Store :=
  ((Store.new 3).register
    { name := "env", memories := #[⟨1, some 2⟩], exports := #[("page", .memory 0)] }).store

/-- A machine that is about to grow this memory. -/
def growing (delta : UInt32) : Machine.Config :=
  ((Machine.Thread.new ⟨0⟩ 1).push (.i32 delta)).config ⟨roomy, {}, #[]⟩
    (.body { code := #[.memoryGrow] } .stop)

theorem memory_sizes_roomy : Relation.ReflTransGen Steady (Store.new 3) roomy ∧
    (∃ b, (growing 1).IsGrowing b .stop ⟨0⟩ (.ofType ⟨1, some 2⟩) 1 [] ∧
      (growing 1).step.stack.current.values = [.i32 1]) ∧
    ∃ b, (growing 2).IsGrowing b .stop ⟨0⟩ (.ofType ⟨1, some 2⟩) 2 [] ∧
      (growing 2).step.stack.current.values = [.i32 0xffffffff] := by
  have hdeclared : HostModule.ofDeclarations "env" [.memory "page" ⟨1, some 2⟩] =
      .ok { name := "env", memories := #[⟨1, some 2⟩], exports := #[("page", .memory 0)] } := rfl
  have hsteady : Relation.ReflTransGen Steady (Store.new 3) roomy :=
    .single (.external hdeclared rfl)
  have hlength : (Memory.ofType ⟨1, some 2⟩).length = 65536 * 1 := Memory.length_ofType _
  have hmemory : roomy.memory? ⟨0⟩ = some (.ofType ⟨1, some 2⟩) := by
    simp [roomy, memory?, Store.register, addModule, Store.new]
  have hgrowing (delta : UInt32) : (growing delta).IsGrowing { code := #[.memoryGrow] } .stop ⟨0⟩
      (.ofType ⟨1, some 2⟩) delta [] := ⟨rfl, rfl, rfl, rfl, hmemory⟩
  obtain ⟨-, -, -, -, hgrow⟩ := memory_sizes hsteady
  refine ⟨hsteady, ⟨_, hgrowing 1, ?_⟩, _, hgrowing 2, ?_⟩
  · have hmax : ∀ max, some (2 : UInt32) = some max → 1 + (1 : UInt32).toNat ≤ max.toNat := by
      rintro max ⟨⟩
      decide
    obtain ⟨hone, -⟩ := hgrow _ _ _ _ _ _ _ _ rfl (hgrowing 1) hlength
    obtain ⟨m', v, hstep, hpushed, -⟩ := hone (by decide) hmax
    have hv : v = 1 := UInt32.toNat_inj.1 hpushed
    rw [hstep, hv]
    rfl
  · obtain ⟨-, htwo⟩ := hgrow _ _ _ _ _ _ _ _ rfl (hgrowing 2) hlength
    rw [htwo (.inr ⟨2, rfl, by decide⟩)]
    rfl

end Store

end WasmCore
