import WasmCore.Proofs.Machine.Effects
import WasmCore.Proofs.Machine.Operands
import WasmCore.Proofs.Store.Reference

/-!
# Tasks and frames

A machine has tasks in progress, one inside of the other: bodies, host functions, and frames that
were entered to make a call. Some of them own a frame, which is left when they end.

`Config.Turn` says all that a step can do to tasks and frames: the innermost task goes on, starts
another one or ends. No step touches a frame below the current one, and only a task that owns its
frame leaves it. `Config.step_turn` shows that every step is such a turn, so that what holds of a
machine throughout a run can be read off the turns.
-/

namespace WasmCore

/-- The host program calls only functions in `P`, whatever answers it gets. -/
def HostProgram.Calls (P : FunctionAddr → Prop) : HostProgram → Prop
  | .done _ => True
  | .fail _ => True
  | .callerModule next => ∀ a, (next a).Calls P
  | .callerMemory next => ∀ m, (next m).Calls P
  | .push _ next => next.Calls P
  | .invoke f next => P f ∧ ∀ r, (next r).Calls P
  | .print _ next => ∀ isOpen, (next isOpen).Calls P
  | .report _ next => next.Calls P

namespace Machine

/-! ### Tasks -/

/-- After the body only functions in `P` are called. -/
def Finish.Calls (P : FunctionAddr → Prop) : Finish → Prop
  | .arguments _ f => P f
  | _ => True

namespace Waiting

/-- The task has a frame of its own, which is left when it ends. -/
def ownsFrame : Waiting → Bool
  | .body _ finish => finish.ownsFrame
  | .frame => true
  | .host _ _ => false

/-- The types of the results that the task has to yield, if they are declared. -/
def owed? : Waiting → Option (List ValueType)
  | .body _ (.results types) => some types
  | .host type _ => some type.results
  | _ => none

/-- Apart from the call instructions of a body, the task calls only functions in `P`. -/
def Calls (P : FunctionAddr → Prop) : Waiting → Prop
  | .body _ finish => finish.Calls P
  | .frame => True
  | .host _ next => ∀ r, (next r).Calls P

/-- A task can go on as another one. -/
structure Continues (w w' : Waiting) : Prop where
  ownsFrame : w'.ownsFrame = w.ownsFrame
  owed : w'.owed? = w.owed?
  calls : ∀ P : FunctionAddr → Prop, w.Calls P → w'.Calls P

theorem Continues.refl (w : Waiting) : w.Continues w := ⟨rfl, rfl, fun _ h => h⟩

theorem Continues.body (b b' : Body) (finish : Finish) :
    (Waiting.body b finish).Continues (.body b' finish) :=
  ⟨rfl, by cases finish <;> rfl, fun _ h => h⟩

/-- The task may end with this answer: results have the types that it owes. -/
def Pays (w : Waiting) (r : Except Trap (List Value)) : Prop :=
  ∀ results types, r = .ok results → w.owed? = some types → results.map Value.type = types

theorem pays_error (w : Waiting) (t : Trap) : w.Pays (.error t) := nofun

theorem pays_of_owed?_eq_none {w : Waiting} (h : w.owed? = none) (r : Except Trap (List Value)) :
    w.Pays r := by
  intro results types _ htypes
  cases h.symm.trans htypes

end Waiting

/-- What the machine does, as a task. -/
def Now.task? : Now → Option Waiting
  | .body b finish => some (.body b finish)
  | .host type p => some (.host type fun _ => p)
  | _ => none

/-- The tasks in progress, innermost first. -/
def Config.tasks (c : Config) : List Waiting := c.now.task?.toList ++ c.waiting

theorem Config.tasks_of_task?_eq_some {c : Config} {w : Waiting} (h : c.now.task? = some w) :
    c.tasks = w :: c.waiting := by
  simp [tasks, h]

theorem Config.tasks_of_task?_eq_none {c : Config} (h : c.now.task? = none) :
    c.tasks = c.waiting := by
  simp [tasks, h]

/-- The number of frames that belong to tasks in progress. -/
def Config.entered (c : Config) : Nat := c.tasks.countP Waiting.ownsFrame

/-! ### Frames -/

namespace CallStack

/-- All frames, innermost first. -/
def frames (s : CallStack) : List Frame := s.current :: s.below

theorem ext_frames {s s' : CallStack} (h : s.frames = s'.frames) : s = s' := by
  rcases s with ⟨f, fs, depth, hd⟩
  rcases s' with ⟨f', fs', depth', hd'⟩
  cases h
  subst hd hd'
  rfl

/-- Only the current frame differs, which still belongs where it did. -/
structure Keeps (s s' : CallStack) : Prop where
  below : s'.below = s.below
  location : s'.current.location = s.current.location

theorem Keeps.refl (s : CallStack) : s.Keeps s := ⟨rfl, rfl⟩

end CallStack

/-! ### Turns -/

/-- What a step from `c` to `c'` can do. -/
inductive Config.Turn (c c' : Config) : Prop
  /-- A halted machine stays as it is. -/
  | rests (h : c.isHalted = true) (hc : c' = c)
  /-- The machine cannot go on. -/
  | breaks {d : Defect} (hnow : c'.now = .broken d) (hs : c.stack.Keeps c'.stack)
  /-- The innermost task goes on, possibly with a call. -/
  | advances {w w' : Waiting} {ws : List Waiting} (ht : c.tasks = w :: ws)
    (ht' : c'.tasks = w' :: ws) (hw : w.Continues w') (hs : c.stack.Keeps c'.stack)
    (hcall : ∀ f, c'.now = .invoke f →
      (∃ index, c.callee? index = some f) ∨ ∀ P : FunctionAddr → Prop, w.Calls P → P f)
  /-- A function of a module is entered. -/
  | enters {f : FunctionAddr} {owner : ModuleAddr} {values : List Value} {w : Waiting}
    (hnow : c.now = .invoke f) (howner : c.world.store.owner? f = some owner)
    (ht' : c'.tasks = w :: c.tasks) (hown : w.ownsFrame = true)
    (hcalls : ∀ P : FunctionAddr → Prop, w.Calls P) (hnow' : ∀ f, c'.now ≠ .invoke f)
    (hlocation : c'.stack.current.location = ⟨owner, some f⟩)
    (hbelow : c'.stack.below = { c.stack.current with values } :: c.stack.below)
  /-- A function of the host is started, in the frame of its caller. -/
  | delegates {f : FunctionAddr} {fn : FunctionInstance} {run : List Value → HostProgram}
    {params : List Value} (hnow : c.now = .invoke f)
    (hf : c.world.store.function? f = some fn) (hrun : fn.body = .host run)
    (ht' : c'.tasks = .host fn.type (fun _ => run params) :: c.tasks)
    (hnow' : ∀ f, c'.now ≠ .invoke f) (hs : c.stack.Keeps c'.stack)
  /-- A call fails before anything is started. -/
  | refuses {f : FunctionAddr} {t : Trap} (hnow : c.now = .invoke f)
    (ht' : c'.tasks = c.tasks) (hnow' : c'.now = .answer (.error t))
    (hs : c.stack.Keeps c'.stack)
  /-- The innermost task ends; its frame is left if it has one. -/
  | ends {w : Waiting} {ws : List Waiting} {r : Except Trap (List Value)}
    (ht : c.tasks = w :: ws) (ht' : c'.tasks = ws) (hnow' : c'.now = .answer r) (hr : w.Pays r)
    (hs : if w.ownsFrame then c.stack.below = c'.stack.frames else c.stack.Keeps c'.stack)

namespace Config

variable {c c₁ : Config} {b : Body} {finish : Finish} {ws : List Waiting}

/-- The innermost task goes on without a call. -/
theorem turn_goesOn {w w' : Waiting} (ht : c.tasks = w :: ws) (hnow : c₁.now.task? = some w')
    (hwaiting : c₁.waiting = ws) (hw : w.Continues w') (hs : c.stack.Keeps c₁.stack) :
    c.Turn c₁ := by
  refine .advances ht ?_ hw hs ?_
  · rw [tasks_of_task?_eq_some hnow, hwaiting]
  · intro f hf
    rw [hf] at hnow
    cases hnow

/-- A task that owns its frame ends by leaving it. -/
theorem turn_leave {w : Waiting} {r : Except Trap (List Value)} (ht : c.tasks = w :: ws)
    (hown : w.ownsFrame = true) (hr : w.Pays r) (hs : c.stack.Keeps c₁.stack)
    (hnow : c₁.now = .answer r) (hw : c₁.waiting = ws) : c.Turn c₁.leave := by
  rcases c₁ with ⟨world, ⟨f, below, depth, hd⟩, ceiling, now, waiting⟩
  dsimp only at hnow hw
  subst hnow hw
  cases below with
  | nil => exact .breaks rfl hs
  | cons g below =>
    refine .ends ht rfl rfl hr ?_
    rw [if_pos hown]
    exact hs.below.symm

theorem turn_leaveWith {r : Except Trap (List Value)} (ht : c.tasks = .body b finish :: ws)
    (hr : (Waiting.body b finish).Pays r) (hs : c.stack.Keeps c₁.stack)
    (hnow : c₁.now = .answer r) (hw : c₁.waiting = ws) : c.Turn (c₁.leaveWith finish) := by
  by_cases hown : (Waiting.body b finish).ownsFrame = true
  · have hleave : c₁.leaveWith finish = c₁.leave := if_pos hown
    rw [hleave]
    exact turn_leave ht hown hr hs hnow hw
  · have hstay : c₁.leaveWith finish = c₁ := if_neg hown
    have htasks : c₁.tasks = ws := by
      rw [tasks_of_task?_eq_none (by rw [hnow]; rfl), hw]
    rw [hstay]
    refine .ends ht htasks hnow hr ?_
    rw [if_neg hown]
    exact hs

/-- The end of a body: it goes on with the next argument or with the call, or it ends. -/
theorem turn_finishBody (ht : c.tasks = .body b finish :: ws) (hs : c.stack.Keeps c₁.stack)
    (hw : c₁.waiting = ws) : c.Turn (c₁.finishBody finish) := by
  subst hw
  have hkeeps (values : List Value) : c.stack.Keeps (c₁.withValues values).stack :=
    ⟨hs.below, hs.location⟩
  cases finish with
  | results types =>
    simp only [finishBody]
    split
    · exact turn_leave ht rfl (Waiting.pays_error _ _) (hkeeps _) rfl rfl
    · rename_i results values hpop
      split
      · refine turn_leave ht rfl ?_ (hkeeps _) rfl rfl
        rintro results types' ⟨⟩ ⟨⟩
        exact (Operands.popValues_ok hpop).1
      · exact turn_leave ht rfl (Waiting.pays_error _ _) (hkeeps _) rfl rfl
  | single =>
    -- an expression owes no declared types
    have hpays (r : Except Trap (List Value)) : (Waiting.body b .single).Pays r :=
      Waiting.pays_of_owed?_eq_none rfl r
    simp only [finishBody]
    split
    · exact turn_leave ht rfl (hpays _) (hkeeps _) rfl rfl
    · split
      · exact turn_leave ht rfl (hpays _) (hkeeps _) rfl rfl
      · exact turn_leave ht rfl (hpays _) (hkeeps _) rfl rfl
  | arguments rest f =>
    cases rest with
    | nil =>
      refine .advances ht rfl ⟨rfl, rfl, fun _ _ => trivial⟩ hs ?_
      rintro g ⟨⟩
      exact .inr fun _ h => h
    | cons code rest => exact turn_goesOn ht rfl rfl ⟨rfl, rfl, fun _ h => h⟩ hs
  | stop => exact .ends ht rfl rfl (Waiting.pays_of_owed?_eq_none rfl _) hs

/-- A call instruction of a body: the body waits for the answer, or it ends. -/
theorem turn_callFrom (ht : c.tasks = .body b finish :: ws) (hs : c.stack.Keeps c₁.stack)
    (hcallee : ∀ index, c₁.callee? index = c.callee? index) (hw : c₁.waiting = ws)
    (index : UInt32) : c.Turn (c₁.callFrom b finish index) := by
  subst hw
  unfold callFrom
  split
  · rename_i f hf
    refine .advances ht rfl (.refl _) hs ?_
    rintro g ⟨⟩
    exact .inl ⟨index, hcallee index ▸ hf⟩
  · exact turn_leaveWith ht (Waiting.pays_error _ _) hs rfl rfl

theorem turn_stepBody (hnow : c.now = .body b finish) : c.Turn (c.stepBody b finish) := by
  have ht : c.tasks = .body b finish :: c.waiting :=
    tasks_of_task?_eq_some (by rw [hnow]; rfl)
  cases hi : b.code[b.position]? with
  | none =>
    rw [stepBody_of_none hi]
    exact turn_finishBody ht (.refl _) rfl
  | some i =>
    have hx := Exec.Works.step b i c.setting.focus nofun
    rw [stepBody_of_some hi]
    unfold Setting.perform
    cases hr : b.step i c.setting.focus with
    | error stop f =>
      rw [hr] at hx
      have hs : c.stack.Keeps (c.setting.refocus f).stack := ⟨rfl, hx.location⟩
      cases stop with
      | fault e => exact turn_leaveWith ht (Waiting.pays_error _ _) hs rfl rfl
      | defect d => exact .breaks rfl hs
    | ok move f =>
      rw [hr] at hx
      have hs : c.stack.Keeps (c.setting.refocus f).stack := ⟨rfl, hx.location⟩
      cases move with
      | proceed b' => exact turn_goesOn ht rfl rfl (.body b b' finish) hs
      | leave => exact turn_finishBody ht hs rfl
      | call index =>
        -- the frame and the index spaces are those before the instruction
        have hcallee : ∀ index, ((c.setting.refocus f).config c.now c.waiting).callee? index =
            c.callee? index := by
          intro index
          have hmodules : f.store.modules = c.world.store.modules := hx.store.sameModules
          have hlocation : f.frame.location = c.stack.current.location := hx.location
          simp only [callee?, Setting.config, Setting.refocus, setting, Store.module?, hlocation,
            hmodules]
        exact turn_callFrom ht hs hcallee rfl index

theorem turn_stepInvoke {f : FunctionAddr} (hnow : c.now = .invoke f) :
    c.Turn (c.stepInvoke f) := by
  have ht : c.waiting = c.tasks := (tasks_of_task?_eq_none (by rw [hnow]; rfl)).symm
  have hstarted (w : Waiting) : w :: c.waiting = w :: c.tasks := by rw [ht]
  unfold stepInvoke
  split
  · exact .refuses hnow ht rfl (.refl _)
  · rename_i fn hf
    split
    · exact .refuses hnow ht rfl ⟨rfl, rfl⟩
    · rename_i params values hpop
      dsimp only
      split
      · rename_i run hrun
        refine .delegates hnow hf hrun (hstarted (.host fn.type fun _ => run params)) ?_ ⟨rfl, rfl⟩
        rintro g ⟨⟩
      · rename_i owner position code hcode
        have howner : c.world.store.owner? f = some owner := by simp [Store.owner?, hf, hcode]
        unfold enter
        split
        · exact .refuses hnow ht rfl ⟨rfl, rfl⟩
        · refine .enters hnow howner (hstarted (.body _ (.results _))) rfl (fun _ => trivial) ?_ rfl
            rfl
          rintro g ⟨⟩

theorem turn_stepHost {type : FunctionType} {p : HostProgram} (hnow : c.now = .host type p) :
    c.Turn (c.stepHost type p) := by
  have ht : c.tasks = .host type (fun _ => p) :: c.waiting :=
    tasks_of_task?_eq_some (by rw [hnow]; rfl)
  cases p with
  | done results =>
    simp only [stepHost]
    split
    · rename_i hfault
      refine .ends ht rfl rfl ?_ (.refl _)
      rintro results types ⟨⟩ ⟨⟩
      exact resultFault?_eq_none hfault
    · exact .ends ht rfl rfl (Waiting.pays_error _ _) (.refl _)
  | fail failure =>
    cases failure with
    | fault f => exact .ends ht rfl rfl (Waiting.pays_error _ _) (.refl _)
    | trapped t => exact .ends ht rfl rfl (Waiting.pays_error _ _) (.refl _)
  | callerModule next =>
    exact turn_goesOn ht rfl rfl ⟨rfl, rfl, fun _ h r => h r _⟩ (.refl _)
  | callerMemory next =>
    exact turn_goesOn ht rfl rfl ⟨rfl, rfl, fun _ h r => h r _⟩ (.refl _)
  | push v next => exact turn_goesOn ht rfl rfl ⟨rfl, rfl, fun _ h => h⟩ ⟨rfl, rfl⟩
  | invoke f next =>
    refine .advances ht rfl ⟨rfl, rfl, fun _ h r => (h r).2 r⟩ (.refl _) ?_
    rintro g ⟨⟩
    exact .inr fun _ h => (h (.ok [])).1
  | print text next =>
    simp only [stepHost]
    split
    · exact turn_goesOn ht rfl rfl ⟨rfl, rfl, fun _ h r => h r _⟩ (.refl _)
    · exact turn_goesOn ht rfl rfl ⟨rfl, rfl, fun _ h r => h r _⟩ (.refl _)
  | report e next => exact turn_goesOn ht rfl rfl ⟨rfl, rfl, fun _ h => h⟩ (.refl _)

theorem turn_stepAnswer {r : Except Trap (List Value)} {w : Waiting} (hnow : c.now = .answer r)
    (hw : c.waiting = w :: ws) : c.Turn (c.stepAnswer r w ws) := by
  have ht : c.tasks = w :: ws := by
    rw [tasks_of_task?_eq_none (by rw [hnow]; rfl), hw]
  cases w with
  | frame => exact turn_leave ht rfl (Waiting.pays_of_owed?_eq_none rfl r) (.refl _) hnow rfl
  | host type next => exact turn_goesOn ht rfl rfl ⟨rfl, rfl, fun _ h _ => h r⟩ (.refl _)
  | body b finish =>
    cases r with
    | ok results =>
      exact turn_goesOn ht rfl rfl (.body b b.next finish) ⟨rfl, rfl⟩
    | error t => exact turn_leaveWith ht (Waiting.pays_error _ _) (.refl _) hnow rfl

/-- **Every step is a turn.** -/
theorem step_turn (c : Config) : c.Turn c.step := by
  cases hnow : c.now with
  | body b finish =>
    simp only [step, hnow]
    exact turn_stepBody hnow
  | invoke f =>
    simp only [step, hnow]
    exact turn_stepInvoke hnow
  | host type p =>
    simp only [step, hnow]
    exact turn_stepHost hnow
  | answer r =>
    cases hw : c.waiting with
    | nil =>
      have hhalted : c.isHalted = true := by simp [isHalted, hnow, hw]
      exact .rests hhalted (step_of_isHalted hhalted)
    | cons w ws =>
      simp only [step, hnow, hw]
      exact turn_stepAnswer hnow hw
  | broken d =>
    have hhalted : c.isHalted = true := by simp [isHalted, hnow]
    exact .rests hhalted (step_of_isHalted hhalted)

end Config

end Machine

end WasmCore
