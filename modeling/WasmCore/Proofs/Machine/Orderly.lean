import WasmCore.Proofs.Machine.Forward
import WasmCore.Proofs.Machine.Isolation
import WasmCore.Proofs.Machine.Steps

/-!
# Machines in which nothing loops

`Config.Orderly` says of a machine that no function of its store has a loop and that none of the
host calls back. Every step keeps it so (`Config.Orderly.step`): instructions go forward, also those
that make a call, once it has returned (`Config.passes_stepBody`, `Config.resumes_stepAnswer`), and
a call starts nothing that loops (`Config.starts_stepInvoke`).
-/

namespace WasmCore

/-- No function of a module has a loop, and the constructs of all of them are in place. -/
def Store.Straight (s : Store) : Prop :=
  ∀ fn ∈ s.functions, ∀ owner position code, fn.body = .defined owner position code →
    WasmCore.Straight code.body

/-- Nothing in the store loops or calls back. -/
structure Store.Tame (s : Store) : Prop where
  straight : s.Straight
  quiet : s.Quiet

namespace Machine

/-! ### Orderly machines -/

/-- The arguments that are still to be evaluated are without loops. -/
def Finish.Straight : Finish → Prop
  | .arguments rest _ => ∀ code ∈ rest, WasmCore.Straight code
  | _ => True

/-- What the machine does only goes forward. -/
def Now.Orderly : Now → Prop
  | .body b finish => b.Forward ∧ finish.Straight
  | .host _ p => p.Calls fun _ => False
  | _ => True

/-- What waits for an answer only goes forward after it. -/
def Waiting.Orderly : Waiting → Prop
  | .body b finish => b.Precedes b.next ∧ finish.Straight
  | .frame => True
  | .host _ _ => False

namespace Config

variable {c c' c₁ : Config} {b : Body} {finish : Finish}

/-- A machine in which nothing loops or calls back. -/
structure Orderly (c : Config) : Prop where
  straight : c.world.store.Straight
  quiet : c.world.store.Quiet
  now : c.now.Orderly
  waiting : ∀ w ∈ c.waiting, w.Orderly

/-! ### Bodies -/

/-- The same waits for both, at the same depth. -/
structure Level (c c₁ : Config) : Prop where
  waiting : c₁.waiting = c.waiting
  depth : c₁.stack.depth = c.stack.depth

/-- From `c` to `c'` the body that is executed has ended. -/
inductive Leaves (finish : Finish) (c c' : Config) : Prop
  /-- There is an answer, and the frame is left if the body owns it. -/
  | answers {r : Except Trap (List Value)} (hnow : c'.now = .answer r)
    (hwaiting : c'.waiting = c.waiting)
    (hdepth : c.stack.depth = if finish.ownsFrame then c'.stack.depth + 1 else c'.stack.depth)
  /-- The next argument is evaluated. -/
  | follows {code : Array Instruction} {rest : List (Array Instruction)} {f : FunctionAddr}
    (hfinish : finish = .arguments (code :: rest) f)
    (hnow : c'.now = .body { code } (.arguments rest f)) (hwaiting : c'.waiting = c.waiting)
    (hdepth : c'.stack.depth = c.stack.depth)
  /-- The function is called with all arguments. -/
  | applies {f : FunctionAddr} (hfinish : finish = .arguments [] f) (hnow : c'.now = .invoke f)
    (hwaiting : c'.waiting = .frame :: c.waiting) (hdepth : c'.stack.depth = c.stack.depth)
  | breaks {d : Defect} (hnow : c'.now = .broken d) (hwaiting : c'.waiting = c.waiting)

/-- From `c` to `c'` a body has executed an instruction: it is further ahead, or waits for a call to
go on ahead after it, or has ended. -/
inductive Passes (b : Body) (finish : Finish) (c c' : Config) : Prop
  | ahead {b' : Body} (hnow : c'.now = .body b' finish) (hb : b.Precedes b') (hc : c.Level c')
  | calls {f : FunctionAddr} (hnow : c'.now = .invoke f) (hb : b.Precedes b.next)
    (hwaiting : c'.waiting = .body b finish :: c.waiting)
    (hdepth : c'.stack.depth = c.stack.depth)
  | leaves (h : c.Leaves finish c')

/-- From `c` to `c'` the call that a body has made is over: the body goes on after it, or has
ended. -/
def Resumes (b : Body) (finish : Finish) (c c' : Config) : Prop :=
  (c'.now = .body b.next finish ∧ c.Level c') ∨ c.Leaves finish c'

theorem leaves_leave (hnow : ∃ r, c₁.now = .answer r) (hc : c.Level c₁)
    (hown : finish.ownsFrame = true) : c.Leaves finish c₁.leave := by
  rcases c₁ with ⟨world, ⟨frame, _ | ⟨f, fs⟩, depth, h⟩, ceiling, now, waiting⟩
  · exact .breaks rfl hc.waiting
  · obtain ⟨r, hr⟩ := hnow
    refine .answers hr hc.waiting ?_
    rw [if_pos hown, ← hc.depth]
    exact (Nat.succ_pred_eq_of_pos (h ▸ Nat.succ_pos _)).symm

/-- To leave a frame is to end as an expression does. -/
theorem leaves_frame {r : Except Trap (List Value)} (hnow : c.now = .answer r) :
    c.Leaves .single c.leave :=
  leaves_leave ⟨r, hnow⟩ ⟨rfl, rfl⟩ rfl

theorem leaves_leaveWith (hnow : ∃ r, c₁.now = .answer r) (hc : c.Level c₁) :
    c.Leaves finish (c₁.leaveWith finish) := by
  unfold leaveWith
  split
  · rename_i hown
    exact leaves_leave hnow hc hown
  · rename_i hown
    obtain ⟨r, hr⟩ := hnow
    refine .answers hr hc.waiting ?_
    rw [if_neg hown, hc.depth]

theorem leaves_raise (hc : c.Level c₁) (e : Fault) :
    c.Leaves finish ((c₁.raise e).leaveWith finish) :=
  leaves_leaveWith ⟨_, rfl⟩ ⟨hc.waiting, hc.depth⟩

theorem leaves_finishBody (hc : c.Level c₁) :
    c.Leaves finish (c₁.finishBody finish) := by
  cases finish with
  | results types =>
    simp only [finishBody]
    split
    · exact leaves_leave ⟨_, rfl⟩ ⟨hc.waiting, hc.depth⟩ rfl
    · split <;> exact leaves_leave ⟨_, rfl⟩ ⟨hc.waiting, hc.depth⟩ rfl
  | single =>
    simp only [finishBody]
    split
    · exact leaves_leave ⟨_, rfl⟩ ⟨hc.waiting, hc.depth⟩ rfl
    · split <;> exact leaves_leave ⟨_, rfl⟩ ⟨hc.waiting, hc.depth⟩ rfl
  | arguments rest f =>
    cases rest with
    | nil => exact .applies rfl rfl (congrArg _ hc.waiting) hc.depth
    | cons code rest => exact .follows rfl rfl hc.waiting hc.depth
  | stop => exact .answers rfl hc.waiting hc.depth.symm

/-- **A body without loops only goes forward.** -/
theorem passes_stepBody (hb : b.Forward) {i : Instruction} (hi : b.code[b.position]? = some i)
    (finish : Finish) (c : Config) : c.Passes b finish (c.stepBody b finish) := by
  rw [stepBody_of_some hi]
  unfold Setting.perform
  have hlevel (f : Focus) : c.Level ((c.setting.refocus f).config c.now c.waiting) := ⟨rfl, rfl⟩
  cases hr : b.step i c.setting.focus with
  | error stop f =>
    cases stop with
    | fault e => exact .leaves (leaves_raise (hlevel f) e)
    | defect d => exact .leaves (.breaks rfl rfl)
  | ok move f =>
    have honward := hb.step hi _ _ _ hr
    cases move with
    | proceed b' => exact .ahead rfl honward ⟨rfl, rfl⟩
    | leave => exact .leaves (leaves_finishBody (hlevel f))
    | call index =>
      show c.Passes b finish
        (((c.setting.refocus f).config c.now c.waiting).callFrom b finish index)
      unfold callFrom
      split
      · exact .calls rfl honward rfl rfl
      · exact .leaves (leaves_raise (hlevel f) _)

/-! ### Steps of orderly machines -/

theorem Leaves.orderly (h : c.Leaves finish c') (hfinish : finish.Straight)
    (hw : ∀ w ∈ c.waiting, w.Orderly) : c'.now.Orderly ∧ ∀ w ∈ c'.waiting, w.Orderly := by
  cases h with
  | answers hnow hwaiting _ => exact ⟨hnow ▸ trivial, hwaiting ▸ hw⟩
  | follows hfinish' hnow hwaiting _ =>
    subst hfinish'
    have hcode := List.forall_mem_cons.1 hfinish
    refine ⟨?_, hwaiting ▸ hw⟩
    rw [hnow]
    exact ⟨.start hcode.1 none, hcode.2⟩
  | applies _ hnow hwaiting _ =>
    refine ⟨hnow ▸ trivial, ?_⟩
    rw [hwaiting]
    exact List.forall_mem_cons.2 ⟨trivial, hw⟩
  | breaks hnow hwaiting => exact ⟨hnow ▸ trivial, hwaiting ▸ hw⟩

theorem Passes.orderly (h : c.Passes b finish c') (hfinish : finish.Straight)
    (hw : ∀ w ∈ c.waiting, w.Orderly) : c'.now.Orderly ∧ ∀ w ∈ c'.waiting, w.Orderly := by
  cases h with
  | ahead hnow hb hc =>
    refine ⟨?_, hc.waiting ▸ hw⟩
    rw [hnow]
    exact ⟨hb.forward, hfinish⟩
  | calls hnow hb hwaiting _ =>
    refine ⟨hnow ▸ trivial, ?_⟩
    rw [hwaiting]
    exact List.forall_mem_cons.2 ⟨⟨hb, hfinish⟩, hw⟩
  | leaves h => exact h.orderly hfinish hw

/-- What a call starts: nothing, a host program that does not call back, or a body that only goes
forward, one frame deeper. -/
inductive Starts (c c' : Config) : Prop
  | fails {t : Trap} (hnow : c'.now = .answer (.error t)) (hc : c.Level c')
  | host {type : FunctionType} {p : HostProgram} (hnow : c'.now = .host type p)
    (hp : p.Calls fun _ => False) (hc : c.Level c')
  | enters {b : Body} {types : List ValueType} (hnow : c'.now = .body b (.results types))
    (hb : b.Forward) (hroom : c.stack.depth < c.ceiling) (hwaiting : c'.waiting = c.waiting)
    (hdepth : c'.stack.depth = c.stack.depth + 1)

theorem starts_stepInvoke (hc : c.Orderly) (f : FunctionAddr) : c.Starts (c.stepInvoke f) := by
  unfold stepInvoke
  split
  · exact .fails rfl ⟨rfl, rfl⟩
  · rename_i fn hf
    have hmem : fn ∈ c.world.store.functions := Array.mem_of_getElem? hf
    split
    · exact .fails rfl ⟨rfl, rfl⟩
    · dsimp only
      split
      · rename_i run hrun
        exact .host rfl (hc.quiet fn hmem run hrun _) ⟨rfl, rfl⟩
      · rename_i owner position code hcode
        have hforward : Body.Forward { code := code.body, arity := some fn.type.results.length } :=
          .start (hc.straight fn hmem owner position code hcode) _
        unfold enter
        split
        · exact .fails rfl ⟨rfl, rfl⟩
        · rename_i hroom
          exact .enters rfl hforward (Nat.lt_of_not_le hroom) rfl rfl

theorem Starts.orderly (h : c.Starts c') (hw : ∀ w ∈ c.waiting, w.Orderly) :
    c'.now.Orderly ∧ ∀ w ∈ c'.waiting, w.Orderly := by
  cases h with
  | fails hnow hc => exact ⟨hnow ▸ trivial, hc.waiting ▸ hw⟩
  | host hnow hp hc =>
    rw [hnow]
    exact ⟨hp, hc.waiting ▸ hw⟩
  | enters hnow hb _ hwaiting _ =>
    rw [hnow]
    exact ⟨⟨hb, trivial⟩, hwaiting ▸ hw⟩

theorem orderly_stepHost {p : HostProgram} (hp : p.Calls fun _ => False) (type : FunctionType) :
    (c.stepHost type p).now.Orderly ∧ c.Level (c.stepHost type p) := by
  cases p with
  | done results =>
    simp only [stepHost]
    split <;> exact ⟨trivial, rfl, rfl⟩
  | fail failure => cases failure <;> exact ⟨trivial, rfl, rfl⟩
  | callerModule next => exact ⟨hp _, rfl, rfl⟩
  | callerMemory next => exact ⟨hp _, rfl, rfl⟩
  | push v next => exact ⟨hp, rfl, rfl⟩
  | invoke f next => exact hp.1.elim
  | print text next =>
    simp only [stepHost]
    split
    · exact ⟨hp true, rfl, rfl⟩
    · exact ⟨hp false, rfl, rfl⟩
  | report e next => exact ⟨hp, rfl, rfl⟩

theorem step_of_answer {r : Except Trap (List Value)} {w : Waiting} {ws : List Waiting}
    (hnow : c.now = .answer r) (hwaiting : c.waiting = w :: ws) : c.step = c.stepAnswer r w ws := by
  simp only [step, hnow, hwaiting]

/-- A body that has made a call goes on after it, or ends. -/
theorem resumes_stepAnswer {r : Except Trap (List Value)} (hnow : c.now = .answer r) (b : Body)
    (finish : Finish) (ws : List Waiting) :
    ({ c with waiting := ws } : Config).Resumes b finish (c.stepAnswer r (.body b finish) ws) := by
  cases r with
  | ok results => exact .inl ⟨rfl, rfl, rfl⟩
  | error t => exact .inr (leaves_leaveWith ⟨_, hnow⟩ ⟨rfl, rfl⟩)

theorem Orderly.step_tasks (h : c.Orderly) :
    c.step.now.Orderly ∧ ∀ w ∈ c.step.waiting, w.Orderly := by
  have hstart := h.now
  cases hnow : c.now with
  | body b finish =>
    rw [hnow] at hstart
    simp only [step, hnow]
    cases hi : b.code[b.position]? with
    | none =>
      rw [stepBody_of_none hi]
      exact (leaves_finishBody ⟨rfl, rfl⟩).orderly hstart.2 h.waiting
    | some i => exact (passes_stepBody hstart.1 hi finish c).orderly hstart.2 h.waiting
  | invoke f =>
    simp only [step, hnow]
    exact (starts_stepInvoke h f).orderly h.waiting
  | host type p =>
    rw [hnow] at hstart
    simp only [step, hnow]
    obtain ⟨hnow', hlevel⟩ := c.orderly_stepHost hstart type
    exact ⟨hnow', hlevel.waiting ▸ h.waiting⟩
  | answer r =>
    simp only [step, hnow]
    cases hwaiting : c.waiting with
    | nil => exact ⟨h.now, h.waiting⟩
    | cons w rest =>
      obtain ⟨hw, hrest⟩ := List.forall_mem_cons.1 (hwaiting ▸ h.waiting)
      cases w with
      | body b finish =>
        rcases resumes_stepAnswer hnow b finish rest with ⟨hnow', hlevel⟩ | hleaves
        · rw [hnow', hlevel.waiting]
          exact ⟨⟨hw.1.forward, hw.2⟩, hrest⟩
        · exact hleaves.orderly hw.2 hrest
      | frame =>
        have hleaves := leaves_frame (c := { c with waiting := rest }) hnow
        exact hleaves.orderly trivial hrest
      | host type next => exact hw.elim
  | broken d =>
    simp only [step, hnow]
    exact ⟨trivial, h.waiting⟩

theorem Orderly.step (h : c.Orderly) : c.step.Orderly := by
  have hfunctions := c.step_reworkedAt.toReworked.sameFunctions
  obtain ⟨hnow, hwaiting⟩ := h.step_tasks
  refine ⟨?_, ?_, hnow, hwaiting⟩
  · unfold Store.Straight
    rw [hfunctions]
    exact h.straight
  · unfold Store.Quiet
    rw [hfunctions]
    exact h.quiet

theorem Orderly.tame (h : c.Orderly) : c.world.store.Tame := ⟨h.straight, h.quiet⟩

theorem Orderly.changed (h : c.Orderly) {f : World → World} (hf : (f c.world).store.Tame) :
    (c.changed f).Orderly := ⟨hf.straight, hf.quiet, h.now, h.waiting⟩

theorem Orderly.runAmid {changes : Changes} (hchanges : changes.Keep Store.Tame) (h : c.Orderly)
    (n : Nat) : (c.runAmid changes n).Orderly :=
  runAmid_invariant h (fun _ => Orderly.step)
    (fun k c hc => hc.changed (hchanges k c.world hc.tame)) n

end Config

end Machine

end WasmCore
