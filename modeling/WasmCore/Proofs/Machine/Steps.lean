import WasmCore.Machine.Thread

/-!
# Runs as sequences of steps

A halted machine stays as it is, so a run with fuel is a number of steps. What waits for the end of
a run has no part in it, and the ceiling only where a frame is entered: apart from that, a machine
does the same under another ceiling and with more waiting below (`Config.step_recast`), so a run
can be made part of a longer one (`Config.run_extend`).
-/

namespace WasmCore.Machine

/-! ### Settings -/

/-- What a machine has apart from what it does: the world, the calls in progress and their
ceiling. -/
structure Setting where
  world : World
  stack : CallStack
  ceiling : Nat

/-- The setting of a configuration. -/
def Config.setting (c : Config) : Setting := ⟨c.world, c.stack, c.ceiling⟩

namespace Setting

variable (σ : Setting)

/-- The machine that does something in a setting. -/
def config (now : Now) (waiting : List Waiting) : Config :=
  ⟨σ.world, σ.stack, σ.ceiling, now, waiting⟩

/-- What an instruction sees of a setting. -/
def focus : Focus := ⟨σ.world.store, σ.stack.current⟩

/-- The setting in which an instruction has changed what it sees. -/
def refocus (f : Focus) : Setting :=
  { σ with
    world := { σ.world with store := f.store }
    stack := { σ.stack with current := f.frame } }

/-- Carries out the effect of an instruction. -/
def perform {α : Type} (x : Exec α) : EStateM.Result Stop Setting α :=
  match x σ.focus with
  | .ok a f => .ok a (σ.refocus f)
  | .error stop f => .error stop (σ.refocus f)

end Setting

namespace Config

variable {c : Config} {m n : Nat}

/-! ### Halting -/

theorem step_of_isHalted (h : c.isHalted = true) : c.step = c := by
  unfold isHalted at h
  unfold step
  split at h
  · rename_i r hnow
    rw [hnow]
    cases hw : c.waiting with
    | nil => rfl
    | cons w rest => simp [hw] at h
  · rename_i d hnow
    rw [hnow]
  · cases h

theorem run_of_isHalted (h : c.isHalted = true) (n : Nat) : c.run n = c := by
  cases n with
  | zero => rfl
  | succ n => simp [run, h]

theorem run_succ (c : Config) (n : Nat) : c.run (n + 1) = c.step.run n := by
  by_cases h : c.isHalted = true
  · rw [run_of_isHalted h, step_of_isHalted h, run_of_isHalted h]
  · simp [run, h]

theorem run_add (c : Config) (m n : Nat) : c.run (m + n) = (c.run m).run n := by
  induction m generalizing c with
  | zero => simp [run]
  | succ m ih => rw [Nat.succ_add, run_succ, run_succ, ih]

theorem run_succ_last (c : Config) (n : Nat) : c.run (n + 1) = (c.run n).step := by
  rw [run_add, run_succ]
  rfl

/-- Once halted, a run gets no further. -/
theorem run_eq_of_le (h : (c.run m).isHalted = true) (hmn : m ≤ n) : c.run n = c.run m := by
  obtain ⟨k, rfl⟩ := Nat.exists_eq_add_of_le hmn
  rw [run_add, run_of_isHalted h]

/-- What is left of a run after some of its steps halts in the remaining ones. -/
theorem isHalted_run_sub (h : (c.run n).isHalted = true) (m : Nat) :
    ((c.run m).run (n - m)).isHalted = true := by
  rcases Nat.le_total m n with hmn | hnm
  · rw [← run_add, Nat.add_sub_cancel' hmn]
    exact h
  · rw [Nat.sub_eq_zero_of_le hnm, run_eq_of_le h hnm]
    exact h

/-- A run that halts does so for the first time somewhere. -/
theorem exists_first_halt (h : (c.run n).isHalted = true) :
    ∃ m ≤ n, (c.run m).isHalted = true ∧ ∀ k < m, (c.run k).isHalted = false := by
  induction n with
  | zero => exact ⟨0, Nat.le_refl 0, h, fun k hk => absurd hk (Nat.not_lt_zero k)⟩
  | succ n ih =>
    -- either the run had halted one step before, or this step is the first halt
    by_cases hn : (c.run n).isHalted = true
    · obtain ⟨m, hm, hh, hk⟩ := ih hn
      exact ⟨m, Nat.le_succ_of_le hm, hh, hk⟩
    · refine ⟨n + 1, Nat.le_refl _, h, fun k hk => ?_⟩
      cases hkh : (c.run k).isHalted with
      | false => rfl
      | true => exact absurd (run_eq_of_le hkh (Nat.le_of_lt_succ hk) ▸ hkh) hn

theorem outcome_ne_outOfFuel : c.outcome ≠ .outOfFuel ↔ c.isHalted = true := by
  unfold outcome isHalted
  rcases c with ⟨world, stack, ceiling, now, waiting⟩
  rcases now with _ | _ | _ | (_ | _) | _ <;> cases waiting <;> simp

/-! ### Instructions -/

/-- What a body does after the effect of an instruction. -/
def resume (c : Config) (b : Body) (finish : Finish) :
    EStateM.Result Stop Setting Move → Config
  | .error (.fault f) σ => ((σ.config c.now c.waiting).raise f).leaveWith finish
  | .error (.defect d) σ => σ.config (.broken d) c.waiting
  | .ok (.proceed b') σ => σ.config (.body b' finish) c.waiting
  | .ok .leave σ => (σ.config c.now c.waiting).finishBody finish
  | .ok (.call index) σ => (σ.config c.now c.waiting).callFrom b finish index

theorem stepBody_of_none {b : Body} (h : b.code[b.position]? = none) (finish : Finish) :
    c.stepBody b finish = c.finishBody finish := by
  unfold stepBody
  rw [h]

theorem stepBody_of_some {b : Body} {i : Instruction} (h : b.code[b.position]? = some i)
    (finish : Finish) :
    c.stepBody b finish = c.resume b finish (c.setting.perform (b.step i)) := by
  rcases c with ⟨⟨store, console, events⟩, ⟨frame, below, depth, hd⟩, ceiling, now, waiting⟩
  unfold stepBody
  rw [h]
  simp only [Setting.perform, Setting.focus, setting]
  cases b.step i ⟨store, frame⟩ with
  | error stop f => cases stop <;> rfl
  | ok move f => cases move <;> rfl

/-! ### Other ceilings, more waiting -/

/-- The machine with another ceiling, and with more waiting for its end. -/
def recast (c : Config) (m : Nat) (more : List Waiting) : Config :=
  { c with ceiling := m, waiting := c.waiting ++ more }

/-- A function of a module is about to be entered: it is there, and its parameters can be taken
from the operand stack. -/
structure Entering (c : Config) (f : FunctionAddr) : Prop where
  now : c.now = .invoke f
  ready : ∃ fn owner position code params values, c.world.store.function? f = some fn ∧
    fn.body = .defined owner position code ∧
    Operands.popValues fn.type.params c.stack.current.values = .ok params values

variable {more : List Waiting}

theorem leave_recast : (c.recast m more).leave = c.leave.recast m more := by
  unfold leave
  simp only [recast]
  split <;> rfl

theorem leaveWith_recast (finish : Finish) :
    (c.recast m more).leaveWith finish = (c.leaveWith finish).recast m more := by
  unfold leaveWith
  split
  · exact leave_recast
  · rfl

theorem finishBody_recast (finish : Finish) :
    (c.recast m more).finishBody finish = (c.finishBody finish).recast m more := by
  cases finish with
  | results types =>
    simp only [finishBody, recast]
    split
    · exact leave_recast (c := (c.withValues _).raise _)
    · split
      · exact leave_recast (c := { c.withValues _ with now := .answer (.ok _) })
      · exact leave_recast (c := (c.withValues _).raise _)
  | single =>
    simp only [finishBody, recast]
    split
    · exact leave_recast (c := (c.withValues _).raise _)
    · split
      · exact leave_recast (c := { c.withValues _ with now := .answer (.ok _) })
      · exact leave_recast (c := (c.withValues _).raise _)
  | arguments rest f => cases rest <;> rfl
  | stop => rfl

/-- A frame is entered, or refused, if that would also have been so before. -/
theorem enter_recast (h : m ≤ c.stack.depth ↔ c.ceiling ≤ c.stack.depth) (f : Frame) (b : Body)
    (finish : Finish) :
    (c.recast m more).enter f b finish = (c.enter f b finish).recast m more := by
  have hfull : (c.recast m more).ceiling ≤ (c.recast m more).stack.depth ↔
      c.ceiling ≤ c.stack.depth := h
  simp only [enter, hfull]
  split <;> rfl

theorem callFrom_recast (b : Body) (finish : Finish) (index : UInt32) :
    (c.recast m more).callFrom b finish index = (c.callFrom b finish index).recast m more := by
  unfold callFrom
  have hc : (c.recast m more).callee? index = c.callee? index := rfl
  rw [hc]
  split
  · rfl
  · exact leaveWith_recast (c := c.raise _) finish

theorem stepBody_recast (b : Body) (finish : Finish) :
    (c.recast m more).stepBody b finish = (c.stepBody b finish).recast m more := by
  cases h : b.code[b.position]? with
  | none =>
    rw [stepBody_of_none h, stepBody_of_none h]
    exact finishBody_recast finish
  | some i =>
    have hfocus : (c.recast m more).setting.focus = c.setting.focus := rfl
    rw [stepBody_of_some h, stepBody_of_some h]
    unfold Setting.perform
    rw [hfocus]
    cases b.step i c.setting.focus with
    | error stop f =>
      cases stop with
      | fault e =>
        exact leaveWith_recast (c := ((c.setting.refocus f).config c.now c.waiting).raise e) finish
      | defect d => rfl
    | ok move f =>
      cases move with
      | proceed b' => rfl
      | leave => exact finishBody_recast (c := (c.setting.refocus f).config c.now c.waiting) finish
      | call index =>
        exact callFrom_recast (c := (c.setting.refocus f).config c.now c.waiting) b finish index

theorem stepInvoke_recast {f : FunctionAddr} (hnow : c.now = .invoke f)
    (h : c.Entering f → (m ≤ c.stack.depth ↔ c.ceiling ≤ c.stack.depth)) :
    (c.recast m more).stepInvoke f = (c.stepInvoke f).recast m more := by
  simp only [stepInvoke, recast]
  split
  · rfl
  · rename_i fn hf
    split
    · rfl
    · rename_i params values hpop
      split
      · rfl
      · rename_i owner position code hbody
        have hentering : c.Entering f :=
          ⟨hnow, fn, owner, position, code, params, values, hf, hbody, hpop⟩
        exact enter_recast (c := c.withValues values) (h hentering) _ _ _

theorem stepHost_recast (type : FunctionType) (p : HostProgram) :
    (c.recast m more).stepHost type p = (c.stepHost type p).recast m more := by
  cases p with
  | done results =>
    simp only [stepHost, recast]
    split <;> rfl
  | fail failure => cases failure <;> rfl
  | print text next =>
    by_cases h : c.world.console.isOpen = true
    · simp only [stepHost, recast, h, ↓reduceIte]
    · simp only [stepHost, recast, h]
      rfl
  | callerModule next => rfl
  | callerMemory next => rfl
  | push v next => rfl
  | invoke f next => rfl
  | report e next => rfl

theorem stepAnswer_recast (r : Except Trap (List Value)) (w : Waiting) (rest : List Waiting) :
    (c.recast m more).stepAnswer r w (rest ++ more) = (c.stepAnswer r w rest).recast m more := by
  cases w with
  | frame => exact leave_recast (c := { c with waiting := rest })
  | host type next => rfl
  | body b finish =>
    cases r with
    | ok results => rfl
    | error t => exact leaveWith_recast (c := { c with waiting := rest }) finish

/-- A machine that has not halted makes the same step with more waiting for its end, and also under
another ceiling, unless that one alone lets a frame be entered. -/
theorem step_recast (hrun : c.isHalted = false)
    (h : ∀ f, c.Entering f → (m ≤ c.stack.depth ↔ c.ceiling ≤ c.stack.depth)) :
    (c.recast m more).step = c.step.recast m more := by
  rcases c with ⟨world, stack, ceiling, now, waiting⟩
  cases now with
  | body b finish => exact stepBody_recast b finish
  | invoke f => exact stepInvoke_recast rfl (h f)
  | host type p => exact stepHost_recast type p
  | answer r =>
    cases waiting with
    | nil => simp [isHalted] at hrun
    | cons w rest => exact stepAnswer_recast r w rest
  | broken d => rfl

/-- The ceiling never changes. -/
theorem step_ceiling (c : Config) : c.step.ceiling = c.ceiling := by
  cases hrun : c.isHalted with
  | true => rw [step_of_isHalted hrun]
  | false =>
    -- the step is the same under the ceiling that the machine has
    have hsame : c.recast c.ceiling [] = c := by simp only [recast, List.append_nil]
    have hstep : (c.recast c.ceiling []).step = c.step.recast c.ceiling [] :=
      step_recast hrun fun _ _ => Iff.rfl
    rw [hsame] at hstep
    rw [hstep]
    rfl

theorem run_ceiling (c : Config) (n : Nat) : (c.run n).ceiling = c.ceiling := by
  induction n with
  | zero => rfl
  | succ n ih => rw [run_succ_last, step_ceiling, ih]

/-- The machine with more waiting for its end. -/
def extend (c : Config) (more : List Waiting) : Config := { c with waiting := c.waiting ++ more }

theorem step_extend (h : c.isHalted = false) : (c.extend more).step = c.step.extend more :=
  calc (c.extend more).step
    _ = c.step.recast c.ceiling more := step_recast h fun _ _ => Iff.rfl
    _ = c.step.extend more := by rw [← step_ceiling c]; rfl

theorem isHalted_of_extend {w : Waiting} (h : (c.extend (w :: more)).isHalted = true) :
    c.isHalted = true := by
  rcases c with ⟨world, stack, ceiling, now, waiting⟩
  cases now <;> simp_all [isHalted, extend]

/-- Up to the point where a run halts, it is the same with more waiting for its end. -/
theorem run_extend (h : ∀ k < n, (c.run k).isHalted = false) :
    (c.extend more).run n = (c.run n).extend more := by
  induction n generalizing c with
  | zero => rfl
  | succ n ih =>
    -- a machine that has halted would stop here, while with more waiting it goes on
    have h0 : c.isHalted = false := h 0 (Nat.succ_pos n)
    rw [run_succ, run_succ, step_extend h0]
    refine ih fun k hk => ?_
    rw [← run_succ]
    exact h (k + 1) (Nat.succ_lt_succ hk)

end Config

end WasmCore.Machine
