import WasmCore.Proofs.Machine.CallContract

/-!
# The locations of nested calls

While a thread runs, the locations above those of the stack it was started with are those of the
frames that tasks in progress own (`Config.Above`). A step leaves these locations as they are, adds
that of a function which its owner has defined, or removes the innermost one (`Config.Above.step`).
So the functions are in the modules that have defined them, as long as nobody changes their owners
(`Config.Above.runAmid`).
-/

namespace WasmCore

/-- The location of a function, in the module that has defined it. -/
def Location.IsCall (l : Location) (s : Store) : Prop :=
  ∃ f, l.function = some f ∧ s.owner? f = some l.module

/-- The module of the location has defined its function, if there is one. -/
def Location.AtHome (l : Location) (s : Store) : Prop :=
  ∀ f, l.function = some f → s.owner? f = some l.module

theorem Location.IsCall.atHome {l : Location} {s : Store} (h : l.IsCall s) : l.AtHome s := by
  obtain ⟨f, hf, howner⟩ := h
  intro g hg
  cases hf.symm.trans hg
  exact howner

theorem Store.owner?_congr {s s' : Store} (h : s'.functions = s.functions) :
    s'.owner? = s.owner? := by
  funext f
  simp only [owner?, function?, h]

theorem Location.atHome_congr {s s' : Store} (h : s'.functions = s.functions) (l : Location) :
    l.AtHome s' ↔ l.AtHome s := by
  rw [AtHome, AtHome, Store.owner?_congr h]

namespace Machine

/-- No function that has an owner gets another one. -/
def Changes.KeepOwners (changes : Changes) : Prop :=
  ∀ f a, changes.Keep fun s => s.owner? f = some a

variable {c c' : Config} {base : CallStack} {own : List Location}

namespace CallStack

theorem length_trace (s : CallStack) : s.trace.length = s.depth := by
  simp [trace, s.depth_eq]

theorem Keeps.trace {s s' : CallStack} (h : s.Keeps s') : s'.trace = s.trace := by
  rw [CallStack.trace, h.location, h.below]
  rfl

theorem Keeps.depth {s s' : CallStack} (h : s.Keeps s') : s'.depth = s.depth := by
  rw [s'.depth_eq, h.below, ← s.depth_eq]

end CallStack

namespace Config

/-- Above the locations of `base` are those in `own`, and unless the machine has halted, each of
them belongs to a task in progress. -/
structure Above (base : CallStack) (own : List Location) (c : Config) : Prop where
  trace : c.stack.trace = own ++ base.trace
  entered : c.isHalted = false → own.length = c.entered

/-- What a step can make of the locations above a stack. -/
inductive Moved (s : Store) (own : List Location) : List Location → Prop
  | stays : Moved s own own
  | enters {l : Location} (h : l.IsCall s) : Moved s own (l :: own)
  | leaves {l : Location} {rest : List Location} (h : own = l :: rest) : Moved s own rest

theorem Above.keeps (h : c.Above base own) (hs : c.stack.Keeps c'.stack)
    (he : c'.isHalted = false → own.length = c'.entered) : c'.Above base own :=
  ⟨hs.trace.trans h.trace, he⟩

theorem Turn.above (h : c.Turn c') (hc : c.Above base own) (hrun : c.isHalted = false) :
    ∃ own', c'.Above base own' ∧ Moved c.world.store own own' := by
  have hown := hc.entered hrun
  cases h with
  | rests hhalted _ => cases hrun.symm.trans hhalted
  | breaks hnow hs =>
    refine ⟨own, hc.keeps hs fun hrun' => ?_, .stays⟩
    simp [isHalted, hnow] at hrun'
  | advances ht ht' hw hs _ =>
    refine ⟨own, hc.keeps hs fun _ => ?_, .stays⟩
    simp [hown, entered, ht, ht', hw.ownsFrame, List.countP_cons]
  | @enters f owner values w _ howner ht' hw _ _ hlocation hbelow =>
    refine ⟨⟨owner, some f⟩ :: own, ⟨?_, fun _ => ?_⟩, .enters ⟨f, rfl, howner⟩⟩
    · rw [List.cons_append, ← hc.trace, CallStack.trace, hlocation, hbelow]
      rfl
    · simp [hown, entered, ht', hw]
  | delegates _ _ _ ht' _ hs =>
    refine ⟨own, hc.keeps hs fun _ => ?_, .stays⟩
    simp [hown, entered, ht', Waiting.ownsFrame]
  | refuses _ ht' _ hs =>
    refine ⟨own, hc.keeps hs fun _ => ?_, .stays⟩
    rw [hown, entered, entered, ht']
  | @ends w ws r ht ht' _ _ hs =>
    split at hs
    · -- the frame of the task that ends is the innermost one
      rename_i hw
      have hlength : own.length = c'.entered + 1 := by simp [hown, entered, ht, ht', hw]
      obtain ⟨l, rest, rfl⟩ := List.exists_cons_of_length_eq_add_one hlength
      refine ⟨rest, ⟨?_, fun _ => Nat.succ.inj hlength⟩, .leaves rfl⟩
      have htrace := hc.trace
      rw [CallStack.trace, hs, List.cons_append] at htrace
      exact (List.cons.inj htrace).2
    · rename_i hw
      refine ⟨own, hc.keeps hs fun _ => ?_, .stays⟩
      simp [hown, entered, ht, ht', hw]

/-- **A step enters a function, leaves the innermost frame, or stays where it is.** -/
theorem Above.step (h : c.Above base own) :
    ∃ own', c.step.Above base own' ∧ Moved c.world.store own own' := by
  cases hrun : c.isHalted with
  | true =>
    rw [step_of_isHalted hrun]
    exact ⟨own, h, .stays⟩
  | false => exact (step_turn c).above h hrun

theorem Moved.atHome {s : Store} {own own' : List Location} (h : Moved s own own')
    (hown : ∀ l ∈ own, l.AtHome s) : ∀ l ∈ own', l.AtHome s := by
  cases h with
  | stays => exact hown
  | enters hcall => exact List.forall_mem_cons.2 ⟨hcall.atHome, hown⟩
  | leaves howns => exact (List.forall_mem_cons.1 (howns ▸ hown)).2

/-- Above the stack that a run was started with, functions are in the modules that have defined
them. -/
theorem Above.runAmid {changes : Changes} (hchanges : changes.KeepOwners) (h : c.Above base own)
    (hown : ∀ l ∈ own, l.AtHome c.world.store) (n : Nat) :
    ∃ own', (c.runAmid changes n).Above base own' ∧
      ∀ l ∈ own', l.AtHome (c.runAmid changes n).world.store := by
  refine runAmid_invariant
    (I := fun c => ∃ own, c.Above base own ∧ ∀ l ∈ own, l.AtHome c.world.store)
    ⟨own, h, hown⟩ ?_ ?_ n
  · rintro c ⟨own, habove, hown⟩
    obtain ⟨own', habove', hmoved⟩ := habove.step
    refine ⟨own', habove', fun l hl => ?_⟩
    have hfunctions := c.step_reworkedAt.toReworked.sameFunctions
    exact (l.atHome_congr hfunctions).2 (hmoved.atHome hown l hl)
  · rintro k c ⟨own, habove, hown⟩
    refine ⟨own, ⟨habove.trace, habove.entered⟩, fun l hl f hf => ?_⟩
    exact hchanges f l.module k c.world (hown l hl f hf)

/-- A machine that is about to enter a frame of its own, or refuses to. -/
theorem above_enter (hw : c.waiting = []) (f : Frame) (b : Body) (finish : Finish)
    (hown : finish.ownsFrame = true) :
    ∃ own, (c.enter f b finish).Above c.stack own ∧ own <:+ [f.location] := by
  unfold enter
  split
  · refine ⟨[], ⟨rfl, fun _ => ?_⟩, List.nil_suffix⟩
    simp [entered, tasks, raise, Now.task?, hw]
  · refine ⟨[f.location], ⟨rfl, fun _ => ?_⟩, List.suffix_rfl⟩
    simp [entered, tasks, Now.task?, hw, Waiting.ownsFrame, hown]

end Config

end Machine

end WasmCore
