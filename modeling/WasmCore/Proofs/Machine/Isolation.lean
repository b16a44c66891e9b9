import WasmCore.Proofs.Machine.CallContract

/-!
# Isolation of calls

The code that a call can reach belongs to the modules that are involved in it (`Store.Involves`):
the module that makes the call, the owner of the function, and with each module the owners of the
functions in its index space. If host functions do not call back, a call changes nothing in a store
but the first memories of these modules, and each of its frames belongs to the owner of its
function. So imported code calls and accesses what its own module has, and never what the importing
one has.

`Config.Confined` is what a step keeps (`Config.Confined.step`), and `Thread.isolation` what holds
at any time of a call.
-/

namespace WasmCore

/-! ### Involved modules -/

namespace Store

variable (s : Store)

/-- The least set of modules that has the caller, the owner of the function that is called, and
with each module the owners of all functions in its index space. -/
inductive Involves (caller : ModuleAddr) (callee : FunctionAddr) : ModuleAddr → Prop
  | caller : Involves caller callee caller
  | callee {owner : ModuleAddr} (h : s.owner? callee = some owner) : Involves caller callee owner
  | function {a owner : ModuleAddr} {m : ModuleInstance} {f : FunctionAddr}
    (ha : Involves caller callee a) (hm : s.module? a = some m) (hf : f ∈ m.functions)
    (howner : s.owner? f = some owner) : Involves caller callee owner

/-- No host function calls back. -/
def Quiet : Prop :=
  ∀ fn ∈ s.functions, ∀ run, fn.body = .host run → ∀ params, (run params).Calls fun _ => False

/-- The function is not one of a module outside of `P`. -/
def OwnedIn (P : ModuleAddr → Prop) (f : FunctionAddr) : Prop :=
  ∀ owner, s.owner? f = some owner → P owner

/-- From `s` to `s'` only the contents of first memories of modules in `P` have changed. -/
structure Spares (P : ModuleAddr → Prop) (s' : Store) : Prop where
  modules : s'.modules = s.modules
  functions : s'.functions = s.functions
  count : s'.memories.size = s.memories.size
  memories : ∀ k, s'.memory? k ≠ s.memory? k → ∃ a, P a ∧ s.firstMemory? a = some k

end Store

theorem HostProgram.Calls.mono {P Q : FunctionAddr → Prop} (hPQ : ∀ f, P f → Q f)
    {p : HostProgram} (h : p.Calls P) : p.Calls Q := by
  induction p with
  | done results => trivial
  | fail failure => trivial
  | callerModule next ih => exact fun a => ih a (h a)
  | callerMemory next ih => exact fun m => ih m (h m)
  | push v next ih => exact ih h
  | invoke f next ih => exact ⟨hPQ f h.1, fun r => ih r (h.2 r)⟩
  | print text next ih => exact fun isOpen => ih isOpen (h isOpen)
  | report e next ih => exact ih h

namespace Machine

/-- The frame belongs to a module in `P`, which is the owner of its function if it has one. -/
structure Frame.HomeIn (s : Store) (P : ModuleAddr → Prop) (fr : Frame) : Prop where
  module : P fr.location.module
  owner : ∀ f, fr.location.function = some f → s.owner? f = some fr.location.module

theorem Frame.HomeIn.congr {s : Store} {P : ModuleAddr → Prop} {fr fr' : Frame}
    (h : fr.HomeIn s P) (hl : fr'.location = fr.location) : fr'.HomeIn s P := by
  refine ⟨?_, ?_⟩
  · rw [hl]
    exact h.module
  · rw [hl]
    exact h.owner

namespace CallStack

variable {s : Store} {P : ModuleAddr → Prop} {base st st' : CallStack} {own : List Frame}

/-- On top of the frames of `base`, the stack `st` has the frames `own` of a call, which are at
home. -/
structure Houses (s : Store) (P : ModuleAddr → Prop) (base : CallStack) (own : List Frame)
    (st : CallStack) : Prop where
  frames : st.frames = own ++ base.frames
  homes : ∀ fr ∈ own, fr.HomeIn s P

namespace Houses

/-- The innermost frame of a call is the current one. -/
theorem exists_cons (h : Houses s P base own st) (hpos : 0 < own.length) :
    ∃ rest, own = st.current :: rest ∧ st.below = rest ++ base.frames := by
  obtain ⟨fr, rest, rfl⟩ := List.exists_cons_of_length_pos hpos
  have hframes := h.frames
  simp only [CallStack.frames, List.cons_append, List.cons.injEq] at hframes
  exact ⟨rest, by rw [hframes.1], hframes.2⟩

theorem current (h : Houses s P base own st) (hpos : 0 < own.length) :
    st.current.HomeIn s P := by
  obtain ⟨rest, rfl, -⟩ := h.exists_cons hpos
  exact h.homes _ (List.mem_cons_self ..)

theorem keeps (h : Houses s P base own st) (hpos : 0 < own.length) (hs : st.Keeps st') :
    ∃ own', own'.length = own.length ∧ Houses s P base own' st' := by
  obtain ⟨rest, rfl, hbelow⟩ := h.exists_cons hpos
  refine ⟨st'.current :: rest, rfl, ?_, ?_⟩
  · rw [CallStack.frames, hs.below, hbelow, List.cons_append]
  · intro fr hfr
    rcases List.mem_cons.1 hfr with rfl | hfr
    · exact (h.current hpos).congr hs.location
    · exact h.homes fr (List.mem_cons_of_mem _ hfr)

theorem enters {fr : Frame} (h : Houses s P base own st) (hpos : 0 < own.length)
    (hbelow : st'.below = fr :: st.below) (hl : fr.location = st.current.location)
    (hhome : st'.current.HomeIn s P) :
    ∃ own', own'.length = own.length + 1 ∧ Houses s P base own' st' := by
  obtain ⟨rest, rfl, hrest⟩ := h.exists_cons hpos
  refine ⟨st'.current :: fr :: rest, rfl, ?_, ?_⟩
  · rw [CallStack.frames, hbelow, hrest, List.cons_append, List.cons_append]
  · intro g hg
    rcases List.mem_cons.1 hg with rfl | hg
    · exact hhome
    · rcases List.mem_cons.1 hg with rfl | hg
      · exact (h.current hpos).congr hl
      · exact h.homes g (List.mem_cons_of_mem _ hg)

theorem leaves (h : Houses s P base own st) (hpos : 0 < own.length)
    (hs : st.below = st'.frames) :
    ∃ own', own'.length + 1 = own.length ∧ Houses s P base own' st' := by
  obtain ⟨rest, rfl, hrest⟩ := h.exists_cons hpos
  exact ⟨rest, rfl, hs.symm.trans hrest, fun fr hfr => h.homes fr (List.mem_cons_of_mem _ hfr)⟩

end Houses

end CallStack

namespace Config

variable {s : Store} {P : ModuleAddr → Prop} {base : CallStack} {own : List Frame} {c c' : Config}

/-- The tasks of a call have the frames `own`, and they call only functions that no module outside
of `P` owns. -/
structure Tracks (s : Store) (P : ModuleAddr → Prop) (own : List Frame) (c : Config) : Prop where
  entered : own.length = c.entered
  calls : ∀ w ∈ c.tasks, w.Calls (s.OwnedIn P)
  invoked : ∀ f, c.now = .invoke f → s.OwnedIn P f

/-- A call over `base` has kept to the modules in `P`, and unless it has ended it goes on so. -/
structure Confined (s : Store) (P : ModuleAddr → Prop) (base : CallStack) (c : Config) : Prop where
  store : s.Spares P c.world.store
  stack : ∃ own, CallStack.Houses s P base own c.stack ∧
    (c.isHalted = true ∨ c.Tracks s P own)

theorem Tracks.of_tasks (hc : c.Tracks s P own) {own' : List Frame}
    (hlength : own'.length = own.length) (ht : c'.tasks = c.tasks)
    (hnow : ∀ f, c'.now ≠ .invoke f) : c'.Tracks s P own' where
  entered := by rw [hlength, hc.entered, Config.entered, Config.entered, ht]
  calls := by
    rw [ht]
    exact hc.calls
  invoked := fun f h => absurd h (hnow f)

/-- What `callee?` finds is in the index space of the module of the current frame. -/
theorem mem_functions_of_callee? {index : UInt32} {f : FunctionAddr}
    (h : c.callee? index = some f) :
    ∃ m, c.world.store.module? c.stack.current.location.module = some m ∧ f ∈ m.functions := by
  obtain ⟨m, hm, hf⟩ := Option.bind_eq_some_iff.1 h
  exact ⟨m, hm, Array.mem_of_getElem? hf⟩

/-- A step changes only the first memory of the module of the current frame. -/
theorem spares_step (hs : s.Spares P c.world.store) (hhome : P c.stack.current.location.module) :
    s.Spares P c.step.world.store := by
  have hw := step_reworkedAt c
  refine ⟨hw.sameModules.trans hs.modules, hw.sameFunctions.trans hs.functions,
    hw.sameCount.trans hs.count, ?_⟩
  intro k hk
  by_cases hown : c.memory? = some k
  · refine ⟨_, hhome, ?_⟩
    rw [← hown]
    simp only [Config.memory?, Focus.memory?, Store.firstMemory?, Store.module?, setting,
      Setting.focus, hs.modules]
  · exact hs.memories k (hw.others k hown ▸ hk)

section Closed

-- host functions do not call back, and `P` has with each module the owners of its functions
variable (hquiet : s.Quiet)
  (hclosed : ∀ a m f, P a → s.module? a = some m → f ∈ m.functions → s.OwnedIn P f)

include hquiet hclosed

/-- A turn of a call that is in progress. -/
theorem Turn.houses (h : c.Turn c') (hpos : 0 < c.entered) (hs : s.Spares P c.world.store)
    (hhouse : CallStack.Houses s P base own c.stack) (hc : c.Tracks s P own) :
    ∃ own', CallStack.Houses s P base own' c'.stack ∧
      (c'.isHalted = true ∨ c'.Tracks s P own') := by
  have hlength : 0 < own.length := by
    rw [hc.entered]
    exact hpos
  have howners (f : FunctionAddr) : c.world.store.owner? f = s.owner? f := by
    simp only [Store.owner?, Store.function?, hs.functions]
  cases h with
  | rests hhalted hsame =>
    rw [hsame]
    exact ⟨own, hhouse, .inl hhalted⟩
  | breaks hnow hkeeps =>
    obtain ⟨own', -, hhouse'⟩ := hhouse.keeps hlength hkeeps
    exact ⟨own', hhouse', .inl (by simp [isHalted, hnow])⟩
  | @advances w w' ws ht ht' hw hkeeps hcall =>
    obtain ⟨own', hlength', hhouse'⟩ := hhouse.keeps hlength hkeeps
    have hcalls := hc.calls
    rw [ht, List.forall_mem_cons] at hcalls
    refine ⟨own', hhouse', .inr ⟨?_, ?_, ?_⟩⟩
    · rw [hlength', hc.entered]
      simp [Config.entered, ht, ht', hw.ownsFrame, List.countP_cons]
    · rw [ht', List.forall_mem_cons]
      exact ⟨hw.calls _ hcalls.1, hcalls.2⟩
    · intro f hf
      rcases hcall f hf with ⟨index, hcallee⟩ | hall
      · -- a call instruction takes the function from the index space of the frame's module
        obtain ⟨m, hm, hmem⟩ := mem_functions_of_callee? hcallee
        simp only [Store.module?, hs.modules] at hm
        exact hclosed _ m f (hhouse.current hlength).module hm hmem
      · exact hall _ hcalls.1
  | @enters f owner values w hnow howner ht' hown hcalls hnow' hlocation hbelow =>
    rw [howners] at howner
    have hhome : c'.stack.current.HomeIn s P := by
      refine ⟨?_, ?_⟩
      · rw [hlocation]
        exact hc.invoked f hnow owner howner
      · rw [hlocation]
        rintro g ⟨⟩
        exact howner
    obtain ⟨own', hlength', hhouse'⟩ := hhouse.enters hlength hbelow rfl hhome
    refine ⟨own', hhouse', .inr ⟨?_, ?_, fun g hg => absurd hg (hnow' g)⟩⟩
    · rw [hlength', hc.entered]
      simp [Config.entered, ht', hown]
    · rw [ht', List.forall_mem_cons]
      exact ⟨hcalls _, hc.calls⟩
  | @delegates f fn run params hnow hf hrun ht' hnow' hkeeps =>
    obtain ⟨own', hlength', hhouse'⟩ := hhouse.keeps hlength hkeeps
    have hmem : fn ∈ s.functions := by
      simp only [Store.function?, hs.functions] at hf
      exact Array.mem_of_getElem? hf
    refine ⟨own', hhouse', .inr ⟨?_, ?_, fun g hg => absurd hg (hnow' g)⟩⟩
    · rw [hlength', hc.entered]
      simp [Config.entered, ht', Waiting.ownsFrame]
    · rw [ht', List.forall_mem_cons]
      refine ⟨fun _ => ?_, hc.calls⟩
      exact (hquiet fn hmem run hrun params).mono fun _ => False.elim
  | @refuses f t hnow ht' hnow' hkeeps =>
    obtain ⟨own', hlength', hhouse'⟩ := hhouse.keeps hlength hkeeps
    refine ⟨own', hhouse', .inr (hc.of_tasks hlength' ht' ?_)⟩
    intro g hg
    cases hnow'.symm.trans hg
  | @ends w ws r ht ht' hnow' _ hleaves =>
    have hcalls : ∀ w ∈ c'.tasks, w.Calls (s.OwnedIn P) := by
      have hall := hc.calls
      rw [ht, List.forall_mem_cons] at hall
      rw [ht']
      exact hall.2
    have hinvoked : ∀ f, c'.now = .invoke f → s.OwnedIn P f := by
      intro g hg
      cases hnow'.symm.trans hg
    have hentered := hc.entered
    split at hleaves
    · rename_i hown
      obtain ⟨own', hlength', hhouse'⟩ := hhouse.leaves hlength hleaves
      simp only [Config.entered, ht, List.countP_cons, hown, ↓reduceIte] at hentered
      refine ⟨own', hhouse', .inr ⟨?_, hcalls, hinvoked⟩⟩
      rw [Config.entered, ht']
      omega
    · rename_i hown
      obtain ⟨own', hlength', hhouse'⟩ := hhouse.keeps hlength hleaves
      refine ⟨own', hhouse', .inr ⟨?_, hcalls, hinvoked⟩⟩
      rw [hlength', hentered]
      simp [Config.entered, ht, ht', hown]

theorem Confined.step {w : Waiting} (hown : w.ownsFrame = true) (hu : c.Upholds w base)
    (hc : c.Confined s P base) : c.step.Confined s P base := by
  obtain ⟨own, hhouse, hhalted | ht⟩ := hc.stack
  · rw [step_of_isHalted hhalted]
    exact hc
  · cases hu with
    | broken hnow =>
      rw [step_of_isHalted (by simp [isHalted, hnow])]
      exact hc
    | ended htasks hnow _ _ =>
      rw [step_of_isHalted (isHalted_of_ended htasks hnow)]
      exact hc
    | running hroot hw _ =>
      have hpos : 0 < c.entered := entered_pos hroot (hw.ownsFrame.trans hown)
      have hlength : 0 < own.length := by
        rw [ht.entered]
        exact hpos
      exact ⟨spares_step hc.store (hhouse.current hlength).module,
        (step_turn c).houses hquiet hclosed hpos hc.store hhouse ht⟩

theorem Confined.run {w : Waiting} (hown : w.ownsFrame = true) (hu : c.Upholds w base)
    (hc : c.Confined s P base) (n : Nat) : (c.run n).Confined s P base := by
  induction n generalizing c with
  | zero => exact hc
  | succ n ih =>
    rw [run_succ]
    exact ih hu.step (hc.step hquiet hclosed hown hu)

end Closed

/-- While a body is executed, its frame is the innermost one of the call. -/
theorem Confined.current_homeIn {w : Waiting} (hown : w.ownsFrame = true) (hu : c.Upholds w base)
    (hc : c.Confined s P base) {b : Body} {finish : Finish} (hnow : c.now = .body b finish) :
    c.stack.current.HomeIn s P := by
  have hrunning : c.isHalted = false := by simp [isHalted, hnow]
  obtain ⟨own, hhouse, hhalted | ht⟩ := hc.stack
  · cases hrunning.symm.trans hhalted
  · cases hu with
    | broken hbroken => cases hnow.symm.trans hbroken
    | ended _ hanswer _ _ => cases hnow.symm.trans hanswer
    | running hroot hw _ =>
      refine hhouse.current ?_
      rw [ht.entered]
      exact entered_pos hroot (hw.ownsFrame.trans hown)

/-- What is so at any time of a call of `f` from the module `a`, which was made in the store `s` and
over the frames of `base`. -/
structure Isolated (s : Store) (a : ModuleAddr) (f : FunctionAddr) (base : CallStack)
    (c : Config) : Prop where
  store : s.Spares (s.Involves a f) c.world.store
  frames : ∃ own, c.stack.frames = own ++ base.frames ∧ ∀ fr ∈ own, fr.HomeIn s (s.Involves a f)
  /-- The code of a function finds functions and a memory where its owner has them. -/
  resolves : ∀ b finish g, c.now = .body b finish → c.stack.current.location.function = some g →
    ∃ owner, s.owner? g = some owner ∧ c.memory? = s.firstMemory? owner ∧
      ∀ index, c.callee? index = (s.module? owner).bind fun m => m.functions[index.toNat]?

end Config

namespace Thread

variable {w : World}

theorem callConfig_confined (t : Thread) (w : World) (a : ModuleAddr) (f : FunctionAddr)
    (arguments : List (Array Instruction)) :
    (t.callConfig w a f arguments).Confined w.store (w.store.Involves a f) t.stack := by
  have hspares : w.store.Spares (w.store.Involves a f) w.store :=
    ⟨rfl, rfl, rfl, fun _ hk => absurd rfl hk⟩
  unfold callConfig Config.enter
  split
  · -- at the ceiling the call is over
    exact ⟨hspares, [], ⟨rfl, nofun⟩, .inl rfl⟩
  · refine ⟨hspares, [{ location := ⟨a, none⟩ }], ⟨rfl, ?_⟩, .inr ⟨rfl, ?_, nofun⟩⟩
    · intro fr hfr
      rw [List.mem_singleton.1 hfr]
      exact ⟨.caller, nofun⟩
    · intro task htask
      rw [List.mem_singleton.1 htask]
      exact fun owner howner => .callee howner

/-- **Isolation of a call.** If host functions do not call back, a call leaves modules, functions
and the number of memories as they are, and changes no memories but the first ones of the modules
that are involved in it. At any time its frames are at home: each belongs to an involved module,
which is the owner of its function, and code uses what the owner of its function has. -/
theorem isolation (hquiet : w.store.Quiet) (t : Thread) (a : ModuleAddr) (f : FunctionAddr)
    (arguments : List (Array Instruction)) :
    (∀ fuel, w.store.Spares (w.store.Involves a f)
      (t.call w fuel a f arguments).world.store) ∧
    ∀ n, ((t.callConfig w a f arguments).run n).Isolated w.store a f t.stack := by
  have hu := t.callConfig_upholds w a f arguments
  have hconfined (n : Nat) : ((t.callConfig w a f arguments).run n).Confined w.store
      (w.store.Involves a f) t.stack := by
    refine (t.callConfig_confined w a f arguments).run hquiet ?_ rfl hu n
    intro b m g hb hm hg owner howner
    exact .function hb hm hg howner
  refine ⟨fun fuel => (hconfined fuel).store, fun n => ?_⟩
  have hc := hconfined n
  obtain ⟨own, hhouse, -⟩ := hc.stack
  refine ⟨hc.store, ⟨own, hhouse.frames, hhouse.homes⟩, ?_⟩
  intro b finish g hnow hg
  have hhome := hc.current_homeIn rfl (hu.run n) hnow
  refine ⟨_, hhome.owner g hg, ?_, ?_⟩
  · simp only [Config.memory?, Focus.memory?, Store.firstMemory?, Store.module?, Config.setting,
      Setting.focus, hc.store.modules]
  · intro index
    simp only [Config.callee?, Store.module?, hc.store.modules]
    rfl

/-- A store in which a guest calls a library that grows its memory. Each has a memory of its own,
and so has a third module. -/
def layered : World where
  store :=
    { modules := #[
        { name := "library", functions := #[⟨0⟩], memories := #[⟨0⟩] },
        { name := "guest", functions := #[⟨0⟩, ⟨1⟩], memories := #[⟨1⟩] },
        { name := "bystander", functions := #[⟨2⟩], memories := #[⟨2⟩] }]
      functions := #[
        ⟨⟨[], [.i32]⟩, .defined ⟨0⟩ 0 ⟨[], #[.const .i32 1, .memoryGrow]⟩⟩,
        ⟨⟨[], [.i32]⟩, .defined ⟨1⟩ 0 ⟨[], #[.call 0]⟩⟩,
        ⟨⟨[], []⟩, .host fun _ => .done []⟩]
      memories := #[⟨.empty, none⟩, ⟨.empty, none⟩, ⟨.empty, none⟩]
      pageLimit := 1 }

theorem isolation_layered : layered.store.Quiet ∧
    ((Thread.new ⟨1⟩ 0).call layered 20 ⟨1⟩ ⟨1⟩ []).outcome = .values [.i32 0] ∧
    ((Thread.new ⟨1⟩ 0).call layered 20 ⟨1⟩ ⟨1⟩ []).world.store.memory? ⟨2⟩ =
      some ⟨.empty, none⟩ := by
  have hquiet : layered.store.Quiet := by
    intro fn hfn run hrun params
    simp only [layered, List.mem_toArray, List.mem_cons, List.not_mem_nil, or_false] at hfn
    rcases hfn with rfl | rfl | rfl
    · cases hrun
    · cases hrun
    · cases hrun
      trivial
  -- the bystander owns no function, so it is not involved, and the memory is only its own
  have howner (g : FunctionAddr) : layered.store.owner? g ≠ some ⟨2⟩ := by
    rcases g with ⟨_ | _ | _ | i⟩ <;> simp [layered, Store.owner?, Store.function?]
  have hinvolved : ¬ layered.store.Involves ⟨1⟩ ⟨1⟩ ⟨2⟩ := by
    intro h
    cases h with
    | callee h => exact howner _ h
    | function _ _ _ h => exact howner _ h
  have hfirst (b : ModuleAddr) (hb : layered.store.firstMemory? b = some ⟨2⟩) : b = ⟨2⟩ := by
    rcases b with ⟨_ | _ | _ | i⟩ <;> simp_all [layered, Store.firstMemory?, Store.module?]
  obtain ⟨hspares, -⟩ := isolation hquiet (Thread.new ⟨1⟩ 0) ⟨1⟩ ⟨1⟩ []
  refine ⟨hquiet, by decide, Classical.byContradiction fun hchanged => ?_⟩
  obtain ⟨b, hb, hmemory⟩ := (hspares 20).memories ⟨2⟩ hchanged
  exact hinvolved (hfirst b hmemory ▸ hb)

end Thread

end Machine

end WasmCore
