import WasmCore.Proofs.Machine.Faults

/-!
# Where traps are raised

A trap is raised by a step that answers with one which was not on its way before: no call has
answered with it, and no host function passes it on. `Config.Raises.origin` says all about such a
step: the trap shows the calls in progress at that time, and its fault is that of too many nested
calls only if a frame was about to be entered at the ceiling, or if a host function says so.
-/

namespace WasmCore.Machine

/-- The trap that is on its way: the answer to a call, or one that a host function passes on. -/
def Now.passing? : Now → Option Trap
  | .answer (.error t) => some t
  | .host _ (.fail (.trapped t)) => some t
  | _ => none

namespace Config

variable {c : Config} {t : Trap} {trace : List Location} {r r' : Except Trap (List Value)}

/-- The next step raises a trap. -/
structure Raises (c : Config) (t : Trap) : Prop where
  fresh : c.now.passing? = none
  raised : c.step.now = .answer (.error t)

/-- The host function that runs fails with a fault of its own. -/
def HostFails (c : Config) : Prop := ∃ type f, c.now = .host type (.fail (.fault f))

/-! ### Answers on their way -/

theorem answer_of_leave (h : c.leave.now = .answer r) : c.now = .answer r := by
  unfold leave at h
  split at h
  · exact h
  · cases h

theorem answer_of_leaveWith {finish : Finish} (h : (c.leaveWith finish).now = .answer r) :
    c.now = .answer r := by
  unfold leaveWith at h
  split at h
  · exact answer_of_leave h
  · exact h

/-- An answer that is passed on stays the same. -/
theorem answer_step (hnow : c.now = .answer r) (h : c.step.now = .answer r') : r' = r := by
  cases hwaiting : c.waiting with
  | nil =>
    simp only [step, hnow, hwaiting] at h
    cases h
    rfl
  | cons w rest =>
    simp only [step, hnow, hwaiting] at h
    cases w with
    | frame =>
      have hsame : c.now = .answer r' := answer_of_leave (c := { c with waiting := rest }) h
      cases hnow.symm.trans hsame
      rfl
    | host type next => cases h
    | body b finish =>
      cases r with
      | ok results => cases h
      | error t =>
        have hsame : c.now = .answer r' := answer_of_leaveWith (c := { c with waiting := rest }) h
        cases hnow.symm.trans hsame
        rfl

/-! ### Bodies -/

/-- If the machine has just answered with a trap, it shows these calls and not that they are too
many. -/
def Blames (trace : List Location) (c : Config) : Prop :=
  ∀ t, c.now = .answer (.error t) → t.trace = trace ∧ t.cause.Shallow

theorem blames_raise {f : Fault} (hf : f.Shallow) (htrace : c.stack.trace = trace) :
    (c.raise f).Blames trace := by
  rintro t ⟨⟩
  exact ⟨htrace, hf⟩

theorem Blames.leave (h : c.Blames trace) : c.leave.Blames trace :=
  fun t ht => h t (answer_of_leave ht)

theorem Blames.leaveWith (h : c.Blames trace) (finish : Finish) :
    (c.leaveWith finish).Blames trace :=
  fun t ht => h t (answer_of_leaveWith ht)

theorem blames_finishBody (htrace : c.stack.trace = trace) (finish : Finish) :
    (c.finishBody finish).Blames trace := by
  have hstay (values : List Value) : (c.withValues values).stack.trace = trace := htrace
  have hleft : Fault.stackNotEmpty.Shallow := by
    rintro ⟨⟩
  cases finish with
  | results types =>
    simp only [finishBody]
    split
    · rename_i f values hpop
      exact (blames_raise (Operands.shallow_of_popValues hpop) (hstay values)).leave
    · rename_i results values hpop
      split
      · refine Blames.leave ?_
        rintro t ⟨⟩
      · exact (blames_raise hleft (hstay values)).leave
  | single =>
    simp only [finishBody]
    split
    · rename_i f values hpop
      exact (blames_raise (Operands.shallow_of_pop hpop) (hstay values)).leave
    · rename_i v values hpop
      split
      · refine Blames.leave ?_
        rintro t ⟨⟩
      · exact (blames_raise hleft (hstay values)).leave
  | arguments rest f => cases rest <;> rintro t ⟨⟩
  | stop => rintro t ⟨⟩

theorem blames_callFrom (htrace : c.stack.trace = trace) (b : Body) (finish : Finish)
    (index : UInt32) : (c.callFrom b finish index).Blames trace := by
  unfold callFrom
  split
  · exact nofun
  · refine (blames_raise ?_ htrace).leaveWith finish
    exact nofun

theorem blames_stepBody (c : Config) (b : Body) (finish : Finish) :
    (c.stepBody b finish).Blames c.stack.trace := by
  cases hi : b.code[b.position]? with
  | none =>
    rw [stepBody_of_none hi]
    exact blames_finishBody rfl finish
  | some i =>
    have hx := Exec.Works.step b i c.setting.focus nofun
    rw [stepBody_of_some hi]
    unfold Setting.perform
    -- the instruction has not moved the frame to another place
    have htrace {f : Focus} (hf : c.setting.focus.Worked f) :
        (c.setting.refocus f).stack.trace = c.stack.trace :=
      congrArg (· :: c.stack.below.map Frame.location) hf.location
    cases hr : b.step i c.setting.focus with
    | error stop f =>
      rw [hr] at hx
      cases stop with
      | fault e => exact (blames_raise (b.shallow_of_step hr) (htrace hx)).leaveWith finish
      | defect d => exact nofun
    | ok move f =>
      rw [hr] at hx
      cases move with
      | proceed b' => exact nofun
      | leave => exact blames_finishBody (htrace hx) finish
      | call index => exact blames_callFrom (htrace hx) b finish index

/-! ### Calls -/

theorem shallow_of_resultFault? {type : FunctionType} {results : List Value} {f : Fault}
    (h : resultFault? type results = some f) : f.Shallow := by
  unfold resultFault? at h
  split at h
  · obtain ⟨x, -, hx⟩ := List.exists_of_findSome?_eq_some h
    dsimp only at hx
    split at hx
    · cases hx
    · cases hx
      exact Fault.shallow_ofValueError _
  · cases h
    exact nofun

/-- What a call can fail with before anything is started. -/
theorem stepInvoke_trap {f : FunctionAddr} (hnow : c.now = .invoke f)
    (h : (c.stepInvoke f).now = .answer (.error t)) : t.trace = c.stack.trace ∧
      (t.cause.Shallow ∨
        c.Entering f ∧ c.ceiling ≤ c.stack.depth ∧ t.cause = .callStackOverflow) := by
  unfold stepInvoke at h
  split at h
  · cases h
    exact ⟨rfl, .inl nofun⟩
  · rename_i fn hf
    split at h
    · rename_i e values hpop
      cases h
      exact ⟨rfl, .inl (Operands.shallow_of_popValues hpop)⟩
    · rename_i params values hpop
      dsimp only at h
      split at h
      · cases h
      · rename_i owner position code hbody
        unfold enter at h
        split at h
        · rename_i hfull
          cases h
          refine ⟨rfl, .inr ⟨⟨hnow, ?_⟩, hfull, rfl⟩⟩
          exact ⟨fn, owner, position, code, params, values, hf, hbody, hpop⟩
        · cases h

theorem stepHost_trap {type : FunctionType} {p : HostProgram} (hnow : c.now = .host type p)
    (hfresh : c.now.passing? = none) (h : (c.stepHost type p).now = .answer (.error t)) :
    t.trace = c.stack.trace ∧ (t.cause.Shallow ∨ c.HostFails) := by
  cases p with
  | done results =>
    simp only [stepHost] at h
    split at h
    · cases h
    · rename_i f hfault
      cases h
      exact ⟨rfl, .inl (shallow_of_resultFault? hfault)⟩
  | fail failure =>
    cases failure with
    | fault f =>
      cases h
      exact ⟨rfl, .inr ⟨type, f, hnow⟩⟩
    | trapped u =>
      rw [hnow] at hfresh
      cases hfresh
  | print text next =>
    simp only [stepHost] at h
    split at h <;> cases h
  | callerModule next => cases h
  | callerMemory next => cases h
  | push v next => cases h
  | invoke f next => cases h
  | report e next => cases h

/-! ### Steps -/

/-- **Where a trap comes from.** A trap shows the calls that are in progress when it is raised. Its
fault is that of too many nested calls only if a frame was about to be entered at the ceiling,
unless a host function has made up the fault. -/
theorem Raises.origin (h : c.Raises t) : t.trace = c.stack.trace ∧
    (t.cause.Shallow ∨ c.HostFails ∨
      ∃ f, c.Entering f ∧ c.ceiling ≤ c.stack.depth ∧ t.cause = .callStackOverflow) := by
  obtain ⟨hfresh, hraised⟩ := h
  cases hnow : c.now with
  | body b finish =>
    simp only [step, hnow] at hraised
    obtain ⟨htrace, hshallow⟩ := c.blames_stepBody b finish t hraised
    exact ⟨htrace, .inl hshallow⟩
  | invoke f =>
    simp only [step, hnow] at hraised
    obtain ⟨htrace, hshallow | hfull⟩ := stepInvoke_trap hnow hraised
    · exact ⟨htrace, .inl hshallow⟩
    · exact ⟨htrace, .inr (.inr ⟨f, hfull⟩)⟩
  | host type p =>
    simp only [step, hnow] at hraised
    obtain ⟨htrace, hshallow | hfails⟩ := stepHost_trap hnow hfresh hraised
    · exact ⟨htrace, .inl hshallow⟩
    · exact ⟨htrace, .inr (.inl hfails)⟩
  | answer r =>
    cases r with
    | error u =>
      rw [hnow] at hfresh
      cases hfresh
    | ok results => cases answer_step hnow hraised
  | broken d =>
    simp only [step, hnow] at hraised
    cases hraised

end Config

end WasmCore.Machine
