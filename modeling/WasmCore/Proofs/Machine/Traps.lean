import WasmCore.Host.Stock
import WasmCore.Proofs.Machine.Nesting
import WasmCore.Proofs.Machine.Raise
import WasmCore.Proofs.Machine.Safety

/-!
# Traps tell where they were raised

A trap shows the calls that were in progress when it was raised, and nothing that it passes on its
way changes it: not the bodies that it ends, and not the host functions that pass it on.

This needs that host functions fail only with faults of their own and with traps that their calls
have answered with: `HostProgram.Relays`. Then every trap that a machine has at hand was raised in
one of its steps (`Config.Relaying.runAmid`), and `Thread.trap_trace` says what it tells. Others may
change the world meanwhile, as long as functions keep their owners and host functions keep to this
rule (`Thread.trap_trace_amid`).
-/

namespace WasmCore

/-! ### Host functions -/

/-- The host program fails with faults of its own, with traps in `known`, and with those that its
calls have answered with. -/
def HostProgram.Relays (known : Trap → Prop) : HostProgram → Prop
  | .done _ => True
  | .fail (.fault _) => True
  | .fail (.trapped t) => known t
  | .callerModule next => ∀ a, (next a).Relays known
  | .callerMemory next => ∀ m, (next m).Relays known
  | .push _ next => next.Relays known
  | .invoke _ next => ∀ r, (next r).Relays fun t => r = .error t ∨ known t
  | .print _ next => ∀ isOpen, (next isOpen).Relays known
  | .report _ next => next.Relays known

theorem HostProgram.Relays.mono {p : HostProgram} {known known' : Trap → Prop}
    (h : p.Relays known) (hknown : ∀ t, known t → known' t) : p.Relays known' := by
  induction p generalizing known known' with
  | done results => trivial
  | fail failure =>
    cases failure with
    | fault f => trivial
    | trapped t => exact hknown t h
  | callerModule next ih => exact fun a => ih a (h a) hknown
  | callerMemory next ih => exact fun m => ih m (h m) hknown
  | push v next ih => exact ih h hknown
  | invoke f next ih => exact fun r => ih r (h r) fun t => Or.imp_right (hknown t)
  | print text next ih => exact fun isOpen => ih isOpen (h isOpen) hknown
  | report e next ih => exact ih h hknown

theorem Host.relays_pushing {next : HostProgram} {known : Trap → Prop} (h : next.Relays known)
    (values : List Value) : (pushing values next).Relays known := by
  induction values with
  | nil => exact h
  | cons v values ih => exact ih

theorem Host.relays_relay {known : Trap → Prop} (values : List Value) (f : FunctionAddr)
    (recover : Option (List Value)) (params : List Value) :
    (relay values f recover params).Relays known := by
  refine relays_pushing ?_ _
  intro r
  cases r with
  | ok results => trivial
  | error t =>
    cases recover with
    | some results => trivial
    | none => exact .inl rfl

/-- No host function makes up a trap. -/
def Store.Relaying (s : Store) : Prop :=
  ∀ fn ∈ s.functions, ∀ run, fn.body = .host run → ∀ params, (run params).Relays fun _ => False

theorem Store.Relaying.reworked {s s' : Store} (hs : s.Relaying) (h : s.Reworked s') :
    s'.Relaying := by
  rwa [Relaying, h.sameFunctions]

namespace Machine

/-! ### Tasks -/

namespace Waiting

/-- If the task is a host function, it passes on only the trap it is given and those in `known`. -/
def Relays (known : Trap → Prop) : Waiting → Prop
  | .host _ next => ∀ r, (next r).Relays fun t => r = .error t ∨ known t
  | _ => True

variable {w w' : Waiting} {known known' : Trap → Prop}

theorem Relays.mono (h : w.Relays known) (hknown : ∀ t, known t → known' t) :
    w.Relays known' := by
  cases w with
  | host type next => exact fun r => (h r).mono fun t => Or.imp_right (hknown t)
  | frame => trivial
  | body b finish => trivial

/-- A host program in progress. -/
theorem relays_host {type : FunctionType} {p : HostProgram} (h : p.Relays known) :
    (Waiting.host type fun _ => p).Relays known :=
  fun _ => h.mono fun _ => .inr

theorem Relays.program {type : FunctionType} {p : HostProgram}
    (h : (Waiting.host type fun _ => p).Relays known) : p.Relays known := by
  refine (h (.ok [])).mono fun t ht => ?_
  rcases ht with hok | ht
  · cases hok
  · exact ht

theorem relays_body (b : Body) (finish : Finish) : (Waiting.body b finish).Relays known := trivial

theorem relays_of_ownsFrame (h : w.ownsFrame = true) : w.Relays known := by
  cases w with
  | host type next => cases h
  | frame => trivial
  | body b finish => trivial

/-- A body does not go on as a host function. -/
theorem Continues.relays {b : Body} {finish : Finish} (h : (Waiting.body b finish).Continues w) :
    w.Relays known := by
  cases w with
  | host type next =>
    have hown := h.ownsFrame
    have howed := h.owed
    cases finish with
    | stop => cases howed
    | results types => cases hown
    | single => cases hown
    | arguments rest f => cases hown
  | frame => trivial
  | body b' finish' => trivial

end Waiting

namespace Config

variable {c c' : Config} {known known' : Trap → Prop} {t : Trap}

/-- All traps at hand are in `known`: the one that a call has answered with, and those that host
functions in progress may pass on. -/
structure Relaying (known : Trap → Prop) (c : Config) : Prop where
  answer : ∀ t, c.now = .answer (.error t) → known t
  tasks : c.isHalted = false → ∀ w ∈ c.tasks, w.Relays known

theorem Relaying.mono (h : c.Relaying known) (hknown : ∀ t, known t → known' t) :
    c.Relaying known' where
  answer := fun t ht => hknown t (h.answer t ht)
  tasks := fun hrun w hw => (h.tasks hrun w hw).mono hknown

/-! ### Steps -/

theorem Relaying.answer_step (h : c.Relaying known) (ht : c.step.now = .answer (.error t)) :
    c.Raises t ∨ known t := by
  cases hpassing : c.now.passing? with
  | none => exact .inl ⟨hpassing, ht⟩
  | some u =>
    refine .inr ?_
    unfold Now.passing? at hpassing
    split at hpassing
    · rename_i u' hnow
      cases hpassing
      cases Config.answer_step hnow ht
      exact h.answer t hnow
    · rename_i type u' hnow
      cases hpassing
      have hrun : c.isHalted = false := by simp [isHalted, hnow]
      have hcurrent : (Waiting.host type fun _ => .fail (.trapped u)) ∈ c.tasks := by
        simp [Config.tasks, hnow, Now.task?]
      simp only [Config.step, hnow] at ht
      cases ht
      exact (h.tasks hrun _ hcurrent).program
    · cases hpassing

/-- What is in progress after a step from a task that is not a host function. -/
theorem Relaying.tasks_stepBody (h : ∀ w ∈ c.waiting, w.Relays known) {b : Body} {finish : Finish}
    (hnow : c.now = .body b finish) (hrun : (c.stepBody b finish).isHalted = false) :
    ∀ w ∈ (c.stepBody b finish).tasks, w.Relays known := by
  have ht : c.tasks = .body b finish :: c.waiting := tasks_of_task?_eq_some (by rw [hnow]; rfl)
  cases turn_stepBody hnow with
  | rests hhalted _ => simp [isHalted, hnow] at hhalted
  | breaks hbroken _ => simp [isHalted, hbroken] at hrun
  | advances ht₁ ht' hw _ _ =>
    cases ht.symm.trans ht₁
    rw [ht']
    exact List.forall_mem_cons.2 ⟨hw.relays, h⟩
  | enters hinvoke => cases hnow.symm.trans hinvoke
  | delegates hinvoke => cases hnow.symm.trans hinvoke
  | refuses hinvoke => cases hnow.symm.trans hinvoke
  | ends ht₁ ht' _ _ _ =>
    cases ht.symm.trans ht₁
    rw [ht']
    exact h

theorem Relaying.tasks_stepInvoke (hs : c.world.store.Relaying)
    (h : ∀ w ∈ c.waiting, w.Relays known) (f : FunctionAddr) :
    ∀ w ∈ (c.stepInvoke f).tasks, w.Relays known := by
  unfold stepInvoke
  split
  · exact h
  · rename_i fn hf
    split
    · exact h
    · rename_i params values hpop
      dsimp only
      split
      · rename_i run hrun
        have hmem : fn ∈ c.world.store.functions := Array.mem_of_getElem? hf
        have hprogram : (run params).Relays known := (hs fn hmem run hrun params).mono nofun
        exact List.forall_mem_cons.2 ⟨Waiting.relays_host hprogram, h⟩
      · unfold enter
        split
        · exact h
        · exact List.forall_mem_cons.2 ⟨Waiting.relays_of_ownsFrame rfl, h⟩

theorem Relaying.tasks_stepHost (h : ∀ w ∈ c.waiting, w.Relays known) {type : FunctionType}
    {p : HostProgram} (hp : p.Relays known) :
    ∀ w ∈ (c.stepHost type p).tasks, w.Relays known := by
  -- the program goes on as another one that relays
  have hnext {p' : HostProgram} (hp' : p'.Relays known) :
      ∀ w ∈ (Waiting.host type fun _ => p') :: c.waiting, w.Relays known :=
    List.forall_mem_cons.2 ⟨Waiting.relays_host hp', h⟩
  cases p with
  | done results =>
    simp only [stepHost]
    split <;> exact h
  | fail failure => cases failure <;> exact h
  | callerModule next => exact hnext (hp _)
  | callerMemory next => exact hnext (hp _)
  | push v next => exact hnext hp
  | invoke f next => exact List.forall_mem_cons.2 ⟨hp, h⟩
  | print text next =>
    simp only [stepHost]
    split
    · exact hnext (hp true)
    · exact hnext (hp false)
  | report e next => exact hnext hp

theorem tasks_leave (h : c.now.task? = none) : c.leave.tasks = c.waiting := by
  unfold leave
  split
  · exact tasks_of_task?_eq_none h
  · rfl

theorem tasks_leaveWith (h : c.now.task? = none) (finish : Finish) :
    (c.leaveWith finish).tasks = c.waiting := by
  unfold leaveWith
  split
  · exact tasks_leave h
  · exact tasks_of_task?_eq_none h

theorem Relaying.tasks_stepAnswer {r : Except Trap (List Value)} (hnow : c.now = .answer r)
    (hr : ∀ t, r = .error t → known t) {w : Waiting} {rest : List Waiting}
    (hw : w.Relays known) (h : ∀ w ∈ rest, w.Relays known) :
    ∀ v ∈ (c.stepAnswer r w rest).tasks, v.Relays known := by
  have htask : c.now.task? = none := by rw [hnow]; rfl
  cases w with
  | frame =>
    have ht : (c.stepAnswer r .frame rest).tasks = rest :=
      tasks_leave (c := { c with waiting := rest }) htask
    rw [ht]
    exact h
  | host type next =>
    -- the trap that the host function gets is the answer, which is known
    have hprogram : (next r).Relays known := (hw r).mono fun t ht => ht.elim (hr t) id
    exact List.forall_mem_cons.2 ⟨Waiting.relays_host hprogram, h⟩
  | body b finish =>
    cases r with
    | ok results => exact List.forall_mem_cons.2 ⟨Waiting.relays_body b.next finish, h⟩
    | error t =>
      have ht : (c.stepAnswer (.error t) (.body b finish) rest).tasks = rest :=
        tasks_leaveWith (c := { c with waiting := rest }) htask finish
      rw [ht]
      exact h

/-- **The next traps at hand are those at hand and the one that is raised.** -/
theorem Relaying.step (hs : c.world.store.Relaying) (h : c.Relaying known) :
    c.step.Relaying fun t => c.Raises t ∨ known t := by
  refine ⟨fun t ht => h.answer_step ht, fun hrun' => ?_⟩
  cases hrun : c.isHalted with
  | true =>
    rw [step_of_isHalted hrun, hrun] at hrun'
    cases hrun'
  | false =>
    have htasks := h.tasks hrun
    have hwaiting : ∀ w ∈ c.waiting, w.Relays known :=
      fun w hw => htasks w (List.mem_append_right _ hw)
    suffices hsuff : ∀ w ∈ c.step.tasks, w.Relays known from
      fun w hw => (hsuff w hw).mono fun _ => .inr
    cases hnow : c.now with
    | body b finish =>
      simp only [Config.step, hnow] at hrun' ⊢
      exact Relaying.tasks_stepBody hwaiting hnow hrun'
    | invoke f =>
      simp only [Config.step, hnow]
      exact Relaying.tasks_stepInvoke hs hwaiting f
    | host type p =>
      have hcurrent : (Waiting.host type fun _ => p) ∈ c.tasks := by
        simp [Config.tasks, hnow, Now.task?]
      simp only [Config.step, hnow]
      exact Relaying.tasks_stepHost hwaiting (htasks _ hcurrent).program
    | answer r =>
      cases hw : c.waiting with
      | nil => simp [isHalted, hnow, hw] at hrun
      | cons w rest =>
        rw [hw] at hwaiting
        obtain ⟨hfirst, hrest⟩ := List.forall_mem_cons.1 hwaiting
        have hr : ∀ t, r = .error t → known t := fun t ht => h.answer t (ht ▸ hnow)
        simp only [Config.step, hnow, hw]
        exact Relaying.tasks_stepAnswer hnow hr hfirst hrest
    | broken d => simp [isHalted, hnow] at hrun

/-- All traps at hand after some steps were raised in one of them, or were there before. -/
theorem Relaying.runAmid {changes : Changes} (hchanges : changes.Keep Store.Relaying)
    (hs : c.world.store.Relaying) (h : c.Relaying known) (n : Nat) :
    (c.runAmid changes n).Relaying fun t =>
      (∃ k < n, (c.runAmid changes k).Raises t) ∨ known t := by
  induction n with
  | zero => exact h.mono fun _ => .inr
  | succ n ih =>
    have hs' := runAmid_store (fun _ _ h' hs => hs.reworked h') hchanges hs n
    have hstep := Relaying.step hs' ih
    have hchanged : (c.runAmid changes (n + 1)).Relaying _ := ⟨hstep.answer, hstep.tasks⟩
    refine hchanged.mono ?_
    rintro t (hraises | ⟨k, hk, hraises⟩ | hknown)
    · exact .inl ⟨n, Nat.lt_succ_self n, hraises⟩
    · exact .inl ⟨k, Nat.lt_succ_of_lt hk, hraises⟩
    · exact .inr hknown

theorem now_of_outcome (h : c.outcome = .trap t) : c.now = .answer (.error t) := by
  unfold outcome at h
  split at h
  · cases h
  · rename_i hnow _
    cases h
    exact hnow
  · cases h
  · cases h

end Config

/-! ### Threads -/

namespace Thread

variable {t : Thread} {w : World} {c : Config} {tr : Trap} {changes : Changes}

theorem Starts.above (h : t.Starts w c) :
    ∃ own, c.Above t.stack own ∧ ∀ l ∈ own, l.AtHome c.world.store := by
  -- a frame that the thread enters itself belongs to no function
  have hframe {own : List Location} {a : ModuleAddr} (hown : own <:+ [⟨a, none⟩]) :
      ∀ l ∈ own, l.AtHome c.world.store := by
    intro l hl f hf
    rw [List.mem_singleton.1 (hown.mem hl)] at hf
    cases hf
  have hidle (he : c.entered = 0) (hs : c.stack = t.stack) :
      ∃ own, c.Above t.stack own ∧ ∀ l ∈ own, l.AtHome c.world.store :=
    ⟨[], ⟨by rw [hs]; rfl, fun _ => he.symm⟩, nofun⟩
  cases h with
  | eval a code =>
    obtain ⟨own, habove, hown⟩ :=
      Config.above_enter (c := t.config w _) rfl { location := ⟨a, none⟩ } { code } .single rfl
    exact ⟨own, habove, hframe hown⟩
  | call a f arguments =>
    obtain ⟨own, habove, hown⟩ := Config.above_enter (c := t.config w _) rfl
      { location := ⟨a, none⟩ } { code := #[] } (.arguments arguments f) rfl
    exact ⟨own, habove, hframe hown⟩
  | invoke f => exact hidle rfl rfl
  | exec hbottom code => exact hidle rfl rfl

/-- A thread is stopped before the first step only if it cannot enter a frame. -/
theorem Starts.trace_of_answer (h : t.Starts w c) (hnow : c.now = .answer (.error tr)) :
    tr.trace = c.stack.trace := by
  have henter {c₀ : Config} {f : Frame} {b : Body} {finish : Finish}
      (hnow : (c₀.enter f b finish).now = .answer (.error tr)) :
      tr.trace = (c₀.enter f b finish).stack.trace := by
    unfold Config.enter at hnow ⊢
    split at hnow
    · rename_i hfull
      rw [if_pos hfull]
      cases hnow
      rfl
    · cases hnow
  cases h with
  | eval a code => exact henter hnow
  | call a f arguments => exact henter hnow
  | invoke f => cases hnow
  | exec hbottom code => cases hnow

theorem Starts.relaying (h : t.Starts w c) :
    c.Relaying fun tr => c.now = .answer (.error tr) := by
  refine ⟨fun _ => id, fun _ => ?_⟩
  have henter {f : Frame} {b : Body} {finish : Finish} :
      ∀ v ∈ ((t.config w (.answer (.ok []))).enter f b finish).tasks,
        v.Relays fun tr => c.now = .answer (.error tr) := by
    unfold Config.enter
    split
    · exact nofun
    · exact List.forall_mem_singleton.2 (Waiting.relays_body b finish)
  cases h with
  | eval a code => exact henter
  | call a f arguments => exact henter
  | invoke f => exact nofun
  | exec hbottom code => exact List.forall_mem_singleton.2 (Waiting.relays_body _ _)

theorem Starts.store_eq (h : t.Starts w c) : c.world.store = w.store := by
  cases h with
  | eval a code => exact Config.store_enter _ _ _
  | call a f arguments => exact Config.store_enter _ _ _
  | invoke f => rfl
  | exec hbottom code => rfl

/-- The trap was raised after `k` steps of `c`, which the thread `t` has started. -/
structure RaisedAt (t : Thread) (changes : Changes) (c : Config) (k : Nat) (tr : Trap) : Prop where
  /-- It was raised in the next step, or before the first one. -/
  raised : (c.runAmid changes k).Raises tr ∨ k = 0 ∧ c.now = .answer (.error tr)
  /-- It shows the calls that are in progress then. -/
  trace : tr.trace = (c.runAmid changes k).stack.trace
  /-- The outermost of them are those of the thread, and the functions of the others are in the
  modules that have defined them. -/
  frames : ∃ above, tr.trace = above ++ t.stack.trace ∧
    ∀ l ∈ above, l.AtHome (c.runAmid changes k).world.store

theorem Starts.raisedAt (h : t.Starts w c) (hw : w.store.Relaying)
    (hrelaying : changes.Keep Store.Relaying) (howners : changes.KeepOwners) {n : Nat}
    (hnow : (c.runAmid changes n).now = .answer (.error tr)) :
    ∃ k ≤ n, t.RaisedAt changes c k tr := by
  have hraised : ∃ k ≤ n, tr.trace = (c.runAmid changes k).stack.trace ∧
      ((c.runAmid changes k).Raises tr ∨ k = 0 ∧ c.now = .answer (.error tr)) := by
    have hrelayed := h.relaying.runAmid hrelaying (h.store_eq ▸ hw) n
    rcases hrelayed.answer tr hnow with ⟨k, hk, hraises⟩ | hstart
    · exact ⟨k, Nat.le_of_lt hk, hraises.origin.1, .inl hraises⟩
    · exact ⟨0, Nat.zero_le _, h.trace_of_answer hstart, .inr ⟨rfl, hstart⟩⟩
  obtain ⟨k, hk, htrace, hraises⟩ := hraised
  obtain ⟨own, habove, hhome⟩ := h.above
  obtain ⟨own', habove', hhome'⟩ := habove.runAmid howners hhome k
  exact ⟨k, hk, hraises, htrace, own', htrace.trans habove'.trace, hhome'⟩

/-- **Traps tell where they were raised, whatever others do meanwhile**, as long as no function
changes its owner, no reference dangles and no host function makes up a trap. At any time of an
evaluation, a call or an invocation, an error is a trap which was raised in some step and has not
changed since. -/
theorem trap_trace_amid (hc : t.Starts w c) (hstore : w.store.Closed) (hw : w.store.Relaying)
    (hclosed : changes.Keep Store.Closed) (hrelaying : changes.Keep Store.Relaying)
    (howners : changes.KeepOwners) (n : Nat) :
    (∀ d, (c.runAmid changes n).now ≠ .broken d) ∧
      ∀ tr, (c.runAmid changes n).now = .answer (.error tr) →
        ∃ k ≤ n, t.RaisedAt changes c k tr := by
  refine ⟨fun d hd => ?_, fun tr hnow => hc.raisedAt hw hrelaying howners hnow⟩
  have hsound := ((hc.secure hstore).runAmid hclosed n).sound
  rw [Config.settle, hd] at hsound
  cases hsound

/-- What a trap tells that a run of `c` has come to in at most `fuel` steps, if the thread was `t`
when it started `c`. -/
structure Tells (t : Thread) (w : World) (c : Config) (fuel : Nat) (tr : Trap) : Prop where
  /-- It is the trap that was raised in some step, or before the first one, and it shows the calls
  that were in progress then. -/
  raised : ∃ k ≤ fuel, tr.trace = (c.run k).stack.trace ∧
    ((c.run k).Raises tr ∨ k = 0 ∧ c.now = .answer (.error tr))
  /-- The outermost of them are those of the thread, and the functions of the others are in the
  modules that have defined them. -/
  frames : ∃ above, tr.trace = above ++ t.stack.trace ∧ ∀ l ∈ above, l.AtHome w.store

theorem RaisedAt.tells {k fuel : Nat} (h : t.RaisedAt .still c k tr) (hk : k ≤ fuel)
    (hc : t.Starts w c) : t.Tells w c fuel tr := by
  obtain ⟨hraised, htrace, above, hframes, hhome⟩ := h
  rw [Config.runAmid_still] at hraised htrace hhome
  refine ⟨⟨k, hk, htrace, hraised⟩, above, hframes, fun l hl => ?_⟩
  -- nobody has added or removed a function
  have hfunctions := (c.run_reworked k).sameFunctions
  exact hc.store_eq ▸ (l.atHome_congr hfunctions).1 (hhome l hl)

/-- **Traps tell where they were raised.** If host functions fail only with faults of their own and
with traps that their calls have answered with, an error of an evaluation, a call or an invocation
is a trap which was raised in some step and has not changed since. It shows all calls that were in
progress then, innermost first, so the outermost ones are those of the thread; the functions of the
others are in the modules that have defined them. The same holds at any time of a run, so for the
errors that host functions get from their calls. The thread is any, also one that a host function
calls back. -/
theorem trap_trace (t : Thread) (hstore : w.store.Reachable) (hw : w.store.Relaying) (fuel : Nat) :
    (∀ a code tr, (t.eval w fuel a code).outcome = .trap tr →
      t.Tells w (t.evalConfig w a code) fuel tr) ∧
    (∀ a f arguments tr, (t.call w fuel a f arguments).outcome = .trap tr →
      t.Tells w (t.callConfig w a f arguments) fuel tr) ∧
    (∀ f tr, (t.invoke w fuel f).outcome = .trap tr →
      t.Tells w (t.config w (.invoke f)) fuel tr) ∧
    ∀ c, t.Starts w c → (∀ d, (c.run fuel).now ≠ .broken d) ∧
      ∀ tr, (c.run fuel).now = .answer (.error tr) → t.Tells w c fuel tr := by
  have hamid {c : Config} (hc : t.Starts w c) : (∀ d, (c.run fuel).now ≠ .broken d) ∧
      ∀ tr, (c.run fuel).now = .answer (.error tr) → t.Tells w c fuel tr := by
    have h := trap_trace_amid hc hstore.sound.closed hw (Changes.still_keep _)
      (Changes.still_keep _) (fun _ _ => Changes.still_keep _) fuel
    rw [Config.runAmid_still] at h
    refine ⟨h.1, fun tr hnow => ?_⟩
    obtain ⟨k, hk, hraised⟩ := h.2 tr hnow
    exact hraised.tells hk hc
  refine ⟨?_, ?_, ?_, fun c hc => hamid hc⟩
  · intro a code tr h
    exact (hamid (.eval a code)).2 tr (Config.now_of_outcome h)
  · intro a f arguments tr h
    exact (hamid (.call a f arguments)).2 tr (Config.now_of_outcome h)
  · intro f tr h
    exact (hamid (.invoke f)).2 tr (Config.now_of_outcome h)

/-- A host module with a function that calls another one and passes its trap on. -/
def relayingHost : HostModule where
  name := "env"
  functions := #[⟨⟨[], []⟩, .host (Host.relay [] ⟨1⟩ none)⟩]
  exports := #[("again", .function 0)]

/-- A module with a function that traps, and one that calls the host. -/
def trapping : Module where
  types := [⟨[], []⟩]
  imports := [⟨"env", "again", .function 0⟩]
  functions := [0, 0]
  codes := [⟨[], #[.unreachable]⟩, ⟨[], #[.call 0]⟩]

/-- A store in which a function calls a trapping one through the host. -/
def calledBack : World where
  store := (((Store.new 1).register relayingHost).store.instantiate "guest" trapping).store

theorem calledBack_reachable : calledBack.store.Reachable := by
  have hm : HostModule.ofDeclarations "env"
      [.function "again" ⟨[], []⟩ (Host.relay [] ⟨1⟩ none)] = .ok relayingHost := rfl
  have hr : (Store.new 1).synthesize relayingHost = .ok ((Store.new 1).register relayingHost) := rfl
  exact ⟨1, .tail (.single (.synthesize hm hr)) (.instantiate _ "guest" trapping)⟩

theorem calledBack_relaying : calledBack.store.Relaying := by
  intro fn hfn run hrun params
  obtain ⟨i, hi, hget⟩ := Array.mem_iff_getElem.1 hfn
  have hsize : calledBack.store.functions.size = 3 := by decide +kernel
  have hfn : calledBack.store.function? ⟨i⟩ = some fn := by
    rw [Store.function?, ← hget]
    exact Array.getElem?_eq_getElem hi
  cases i with
  | succ j =>
    -- all functions but the first one are those of the module
    have howners : ∀ k < 3, (calledBack.store.owner? ⟨k⟩).isSome ∨ k = 0 := by decide +kernel
    have howner := howners (j + 1) (hsize ▸ hi)
    simp [Store.owner?, hfn, hrun] at howner
  | zero =>
    have hkept := ((Store.new 1).register relayingHost).store.instantiate_grows "guest" trapping
    obtain ⟨added, hadded⟩ := hkept.functions
    have hregistered : calledBack.store.function? ⟨0⟩ =
        some ⟨⟨[], []⟩, .host (Host.relay [] ⟨1⟩ none)⟩ := by
      rw [Store.function?, ← Array.getElem?_toList, calledBack, ← hadded]
      rfl
    cases hregistered.symm.trans hfn
    cases hrun
    exact Host.relays_relay _ _ _ _

/-- The trap that comes through the host to a thread which calls the second function. -/
def innerTrap : Trap := ⟨.unreachable, [⟨⟨1⟩, some ⟨1⟩⟩, ⟨⟨1⟩, some ⟨2⟩⟩, ⟨⟨1⟩, none⟩]⟩

theorem trap_trace_calledBack : calledBack.store.Reachable ∧ calledBack.store.Relaying ∧
    ((Thread.new ⟨1⟩ 5).invoke calledBack 20 ⟨2⟩).outcome = .trap innerTrap ∧
    (Thread.new ⟨1⟩ 5).Tells calledBack ((Thread.new ⟨1⟩ 5).config calledBack (.invoke ⟨2⟩)) 20
      innerTrap := by
  have houtcome : ((Thread.new ⟨1⟩ 5).invoke calledBack 20 ⟨2⟩).outcome = .trap innerTrap := by
    decide +kernel
  obtain ⟨-, -, hinvoke, -⟩ :=
    trap_trace (Thread.new ⟨1⟩ 5) calledBack_reachable calledBack_relaying 20
  exact ⟨calledBack_reachable, calledBack_relaying, houtcome, hinvoke _ _ houtcome⟩

end Thread

end Machine

end WasmCore
