import WasmCore.Proofs.Machine.Changes
import WasmCore.Proofs.Machine.Tasks

/-!
# The call contract

Whatever code does and host functions ask for, a call gives the stack back as it found it. A task
that owns a frame leaves all frames below it untouched; any other one can at most change the frame
in which it was started. `Config.Upholds` follows the outermost task of a machine from its start to
its end, and `Thread.call_contract` says what that means for the operations of a thread.

The promises are about frames and not about the world, so that they are kept whatever others make of
the world meanwhile (`Thread.call_contract_amid`).
-/

namespace WasmCore.Machine

namespace Waiting

theorem Continues.trans {w w' w'' : Waiting} (h : w.Continues w') (h' : w'.Continues w'') :
    w.Continues w'' :=
  ⟨h'.ownsFrame.trans h.ownsFrame, h'.owed.trans h.owed, fun P hP => h'.calls P (h.calls P hP)⟩

theorem Continues.pays {w w' : Waiting} (h : w.Continues w') {r : Except Trap (List Value)}
    (hr : w'.Pays r) : w.Pays r :=
  fun results types hok htypes => hr results types hok (h.owed.trans htypes)

end Waiting

/-- The run has come to an end, with results or with a trap. -/
def Outcome.isReturn : Outcome → Bool
  | .values _ => true
  | .trap _ => true
  | _ => false

namespace Config

variable {c c' : Config} {own : Bool} {s : CallStack} {w : Waiting}

/-! ### Frames below those of the tasks -/

/-- The frames of `s` lie below those of the tasks, unchanged: all of them if the outermost task
owns a frame, and otherwise all but the one in which that task was started. -/
structure Over (own : Bool) (s : CallStack) (c : Config) : Prop where
  below : c.stack.below.drop c.entered = s.below
  frames : own = true → c.stack.frames.drop c.entered = s.frames

namespace Over

theorem idle (he : c.entered = 0) (hs : c.stack = s) : c.Over own s where
  below := by
    rw [he, hs]
    rfl
  frames := by
    intro _
    rw [he, hs]
    rfl

theorem first (he : c.entered = 1) (hb : c.stack.below = s.frames) : c.Over own s where
  below := by
    rw [he, hb]
    rfl
  frames := by
    intro _
    rw [he, ← hb]
    rfl

theorem keeps (h : c.Over own s) (hpos : own = true → 0 < c.entered)
    (he : c'.entered = c.entered) (hb : c'.stack.below = c.stack.below) : c'.Over own s where
  below := by rw [he, hb, h.below]
  frames := by
    intro hown
    obtain ⟨n, hn⟩ := Nat.exists_eq_add_one_of_ne_zero (Nat.ne_of_gt (hpos hown))
    rw [← h.frames hown, he, hn]
    simp only [CallStack.frames, List.drop_succ_cons, hb]

theorem enters {f : Frame} (h : c.Over own s) (hpos : own = true → 0 < c.entered)
    (he : c'.entered = c.entered + 1) (hb : c'.stack.below = f :: c.stack.below) :
    c'.Over own s where
  below := by rw [he, hb, List.drop_succ_cons, h.below]
  frames := by
    intro hown
    obtain ⟨n, hn⟩ := Nat.exists_eq_add_one_of_ne_zero (Nat.ne_of_gt (hpos hown))
    rw [← h.frames hown, he, hn]
    simp only [CallStack.frames, List.drop_succ_cons, hb]

theorem leaves (h : c.Over own s) (he : c.entered = c'.entered + 1)
    (hb : c.stack.below = c'.stack.frames) : c'.Over own s where
  below := by rw [← h.below, he, hb, CallStack.frames, List.drop_succ_cons]
  frames := by
    intro hown
    rw [← h.frames hown, he, ← hb]
    rfl

end Over

/-! ### The outermost task -/

/-- The machine keeps the promises of the outermost task `w`, which was started over `s`: the task
is still in progress, or it has ended with an answer that pays what it owes. -/
inductive Upholds (w : Waiting) (s : CallStack) (c : Config) : Prop
  | broken {d : Defect} (hnow : c.now = .broken d)
  | running {w' : Waiting} (hroot : c.tasks.getLast? = some w') (hw : w.Continues w')
    (hs : c.Over w.ownsFrame s)
  | ended {r : Except Trap (List Value)} (ht : c.tasks = []) (hnow : c.now = .answer r)
    (hr : w.Pays r) (hs : c.Over w.ownsFrame s)

theorem entered_pos (hroot : c.tasks.getLast? = some w) (hown : w.ownsFrame = true) :
    0 < c.entered :=
  List.countP_pos_iff.2 ⟨w, List.mem_of_getLast? hroot, hown⟩

theorem isHalted_of_ended {r : Except Trap (List Value)} (ht : c.tasks = [])
    (hnow : c.now = .answer r) : c.isHalted = true := by
  have hwaiting : c.waiting = [] := by
    rw [← tasks_of_task?_eq_none (by rw [hnow]; rfl), ht]
  simp [isHalted, hnow, hwaiting]

/-- A machine with a task in progress has only halted if it cannot go on. -/
theorem broken_of_isHalted (hroot : c.tasks.getLast? = some w) (h : c.isHalted = true) :
    ∃ d, c.now = .broken d := by
  unfold isHalted at h
  split at h
  · rename_i r hnow
    rw [tasks_of_task?_eq_none (by rw [hnow]; rfl), List.isEmpty_iff.1 h] at hroot
    cases hroot
  · exact ⟨_, by assumption⟩
  · cases h

theorem answer_of_isReturn (h : c.outcome.isReturn = true) :
    ∃ r, c.now = .answer r ∧ c.waiting = [] := by
  unfold outcome at h
  split at h
  · exact ⟨_, by assumption, by assumption⟩
  · exact ⟨_, by assumption, by assumption⟩
  · cases h
  · cases h

/-- A turn of a machine whose outermost task is in progress. -/
theorem Turn.upholds (h : c.Turn c') {w' : Waiting} (hroot : c.tasks.getLast? = some w')
    (hw : w.Continues w') (hs : c.Over w.ownsFrame s) : c'.Upholds w s := by
  have hpos : w.ownsFrame = true → 0 < c.entered :=
    fun hown => entered_pos hroot (hw.ownsFrame.trans hown)
  cases h with
  | rests hhalted hc =>
    obtain ⟨d, hnow⟩ := broken_of_isHalted hroot hhalted
    exact .broken (hc ▸ hnow)
  | breaks hnow _ => exact .broken hnow
  | @advances v v' ws ht ht' hv hkeeps _ =>
    have he : c'.entered = c.entered := by simp [entered, ht, ht', hv.ownsFrame, List.countP_cons]
    have hs' := hs.keeps hpos he hkeeps.below
    rw [ht] at hroot
    -- the innermost task may be the outermost one
    cases ws with
    | nil =>
      cases hroot
      exact .running (by rw [ht']; rfl) (hw.trans hv) hs'
    | cons u ws => exact .running (by rw [ht', ← hroot]; rfl) hw hs'
  | enters _ _ ht' hown _ _ _ hbelow =>
    have he : c'.entered = c.entered + 1 := by simp [entered, ht', hown]
    refine .running ?_ hw (hs.enters hpos he hbelow)
    rw [ht', List.getLast?_cons, hroot]
    rfl
  | delegates _ _ _ ht' _ hkeeps =>
    have he : c'.entered = c.entered := by simp [entered, ht', Waiting.ownsFrame]
    refine .running ?_ hw (hs.keeps hpos he hkeeps.below)
    rw [ht', List.getLast?_cons, hroot]
    rfl
  | refuses _ ht' _ hkeeps =>
    have he : c'.entered = c.entered := by simp [entered, ht']
    exact .running (ht' ▸ hroot) hw (hs.keeps hpos he hkeeps.below)
  | @ends v ws r ht ht' hnow hr hleaves =>
    have hs' : c'.Over w.ownsFrame s := by
      split at hleaves
      · rename_i hown
        exact hs.leaves (by simp [entered, ht, ht', hown]) hleaves
      · rename_i hown
        exact hs.keeps hpos (by simp [entered, ht, ht', hown]) hleaves.below
    rw [ht] at hroot
    cases ws with
    | nil =>
      cases hroot
      exact .ended ht' hnow (hw.pays hr) hs'
    | cons u ws => exact .running (by rw [ht', ← hroot]; rfl) hw hs'

theorem Upholds.step (h : c.Upholds w s) : c.step.Upholds w s := by
  cases h with
  | broken hnow =>
    rw [step_of_isHalted (by simp [isHalted, hnow])]
    exact .broken hnow
  | running hroot hw hs => exact (step_turn c).upholds hroot hw hs
  | ended ht hnow hr hs =>
    rw [step_of_isHalted (isHalted_of_ended ht hnow)]
    exact .ended ht hnow hr hs

theorem Upholds.changed (h : c.Upholds w s) (f : World → World) : (c.changed f).Upholds w s := by
  cases h with
  | broken hnow => exact .broken hnow
  | running hroot hw hs => exact .running hroot hw ⟨hs.below, hs.frames⟩
  | ended ht hnow hr hs => exact .ended ht hnow hr ⟨hs.below, hs.frames⟩

theorem Upholds.runAmid (h : c.Upholds w s) (changes : Changes) (n : Nat) :
    (c.runAmid changes n).Upholds w s :=
  runAmid_invariant h (fun _ => Upholds.step) (fun k _ hc => hc.changed (changes k)) n

theorem Upholds.run (h : c.Upholds w s) (n : Nat) : (c.run n).Upholds w s :=
  c.runAmid_still n ▸ h.runAmid .still n

/-- What holds when the outermost task has returned: it has changed at most the frame in which it
was started, and not even that one if it had a frame of its own. -/
theorem Upholds.returned (h : c.Upholds w s) (hr : c.outcome.isReturn = true) :
    c.stack.below = s.below ∧ (w.ownsFrame = true → c.stack = s) ∧
      ∀ results types, c.outcome = .values results → w.owed? = some types →
        results.map Value.type = types := by
  obtain ⟨r, hnow, hwaiting⟩ := answer_of_isReturn hr
  have ht : c.tasks = [] := by rw [tasks_of_task?_eq_none (by rw [hnow]; rfl), hwaiting]
  have he : c.entered = 0 := by simp [entered, ht]
  cases h with
  | broken hbroken => cases hnow.symm.trans hbroken
  | running hroot _ _ =>
    rw [ht] at hroot
    cases hroot
  | @ended r' _ hnow' hpays hs =>
    have hbelow := hs.below
    rw [he] at hbelow
    refine ⟨hbelow, ?_, ?_⟩
    · intro hown
      have hframes := hs.frames hown
      rw [he] at hframes
      exact CallStack.ext_frames hframes
    · intro results types hvalues htypes
      refine hpays results types ?_ htypes
      rw [outcome, hnow', hwaiting] at hvalues
      cases r' with
      | ok results' =>
        cases hvalues
        rfl
      | error t => cases hvalues

/-! ### Starts -/

/-- A body that has a frame of its own is the outermost task of the machine that enters it. -/
theorem enter_upholds (hw : c.waiting = []) (f : Frame) (b : Body) (finish : Finish)
    (hown : finish.ownsFrame = true) : (c.enter f b finish).Upholds (.body b finish) c.stack := by
  unfold enter
  split
  · -- at the ceiling nothing is entered
    have ht : (c.raise .callStackOverflow).tasks = [] := hw
    exact .ended ht rfl (Waiting.pays_error _ _) (.idle (by simp [entered, ht]) rfl)
  · have ht : ({ c with stack := c.stack.enter f, now := .body b finish } : Config).tasks =
        [.body b finish] := congrArg (Waiting.body b finish :: ·) hw
    refine .running (by rw [ht]; rfl) (.refl _) (.first ?_ rfl)
    simp [entered, ht, Waiting.ownsFrame, hown]

/-- A host program is the outermost task of the machine that starts it, in the frame of its
caller. -/
theorem host_upholds (hw : c.waiting = []) {type : FunctionType} {p : HostProgram}
    (hnow : c.now = .host type p) : c.Upholds (.host type fun _ => p) c.stack := by
  have ht : c.tasks = [.host type fun _ => p] := by
    rw [tasks_of_task?_eq_some (by rw [hnow]; rfl), hw]
  exact .running (by rw [ht]; rfl) (.refl _) (.idle (by simp [entered, ht, Waiting.ownsFrame]) rfl)

end Config

/-! ### Threads -/

namespace Thread

variable {t : Thread} {w : World} {f : FunctionAddr}

/-! ### Evaluations and calls -/

theorem evalConfig_upholds (t : Thread) (w : World) (a : ModuleAddr) (code : Array Instruction) :
    (t.evalConfig w a code).Upholds (.body { code } .single) t.stack :=
  Config.enter_upholds (c := t.config w _) rfl _ _ _ rfl

theorem callConfig_upholds (t : Thread) (w : World) (a : ModuleAddr) (f : FunctionAddr)
    (arguments : List (Array Instruction)) :
    (t.callConfig w a f arguments).Upholds (.body { code := #[] } (.arguments arguments f))
      t.stack :=
  Config.enter_upholds (c := t.config w _) rfl _ _ _ rfl

/-- What a machine of this thread leaves behind. -/
def ran (t : Thread) (c : Config) : Ran := ⟨c.world, { t with stack := c.stack }, c.outcome⟩

/-- A thread comes back from a task with a frame of its own as it was. -/
theorem thread_ran {c : Config} {task : Waiting} (h : c.Upholds task t.stack)
    (hown : task.ownsFrame = true) (hr : c.outcome.isReturn = true) : (t.ran c).thread = t := by
  obtain ⟨-, hstack, -⟩ := h.returned hr
  show ({ t with stack := c.stack } : Thread) = t
  rw [hstack hown]

/-! ### Invocations -/

/-- What the call of a function from the current frame may leave behind. -/
structure Invoked (t : Thread) (w : World) (f : FunctionAddr) (r : Ran) : Prop where
  ceiling : r.thread.ceiling = t.ceiling
  depth : r.thread.stack.depth = t.stack.depth
  below : r.thread.stack.below = t.stack.below
  /-- A function of a module takes its parameters from the operand stack and changes nothing else;
  if it traps, it may have taken any number of values. -/
  frame : ∀ fn owner, w.store.function? f = some fn → w.store.owner? f = some owner →
    ∃ taken values, r.thread.stack.current = { t.stack.current with values } ∧
      t.stack.current.values = taken ++ values ∧
      ∀ results, r.outcome = .values results → taken.length = fn.type.params.length
  results : ∀ fn results, w.store.function? f = some fn → r.outcome = .values results →
    results.map Value.type = fn.type.results

section

variable {c : Config} {fn : FunctionInstance} {values : List Value} {changes : Changes} {n : Nat}

/-- A call that was refused: at most some values are gone from the operand stack. -/
theorem invoked_of_trap {taken : List Value} {trap : Trap} (hnow : c.now = .answer (.error trap))
    (hwaiting : c.waiting = [])
    (hstack : c.stack = t.stack.modifyCurrent fun fr => { fr with values })
    (hvalues : t.stack.current.values = taken ++ values) :
    t.Invoked w f (t.ran (c.runAmid changes n)) := by
  have hhalted : (c.runAmid changes 0).isHalted = true := by
    show c.isHalted = true
    simp [Config.isHalted, hnow, hwaiting]
  obtain ⟨w', hrun⟩ := Config.exists_runAmid_eq hhalted (Nat.zero_le n)
  have houtcome : (t.ran (c.runAmid changes n)).outcome = .trap trap := by
    rw [hrun]
    show c.outcome = .trap trap
    rw [Config.outcome, hnow, hwaiting]
  have hthread : (t.ran (c.runAmid changes n)).thread.stack =
      t.stack.modifyCurrent fun fr => { fr with values } := by
    rw [hrun]
    exact hstack
  refine ⟨rfl, by rw [hthread]; rfl, by rw [hthread]; rfl, ?_, ?_⟩
  · intro fn owner _ _
    refine ⟨taken, values, by rw [hthread]; rfl, hvalues, ?_⟩
    intro results h
    cases houtcome.symm.trans h
  · intro fn results _ h
    cases houtcome.symm.trans h

/-- A function of the host runs in the frame of its caller. -/
theorem invoked_of_host {run : List Value → HostProgram} {p : HostProgram}
    (hf : w.store.function? f = some fn) (hbody : fn.body = .host run)
    (hnow : c.now = .host fn.type p) (hwaiting : c.waiting = [])
    (hbelow : c.stack.below = t.stack.below)
    (hr : (c.runAmid changes n).outcome.isReturn = true) :
    t.Invoked w f (t.ran (c.runAmid changes n)) := by
  obtain ⟨hbelow', -, hresults⟩ :=
    ((Config.host_upholds hwaiting hnow).runAmid changes n).returned hr
  have hsame : (t.ran (c.runAmid changes n)).thread.stack.below = t.stack.below :=
    hbelow'.trans hbelow
  refine ⟨rfl, ?_, hsame, ?_, ?_⟩
  · rw [CallStack.depth_eq, CallStack.depth_eq, hsame]
  · intro fn' owner _ howner
    simp [Store.owner?, hf, hbody] at howner
  · intro fn' results hf' hvalues
    cases hf.symm.trans hf'
    exact hresults results _ hvalues rfl

/-- A function of a module runs in a frame of its own, so it only takes its parameters. -/
theorem invoked_of_body {b : Body} {params : List Value} (hf : w.store.function? f = some fn)
    (hstack : t.stack.current.values = params.reverse ++ values)
    (htypes : params.map Value.type = fn.type.params)
    (h : c.Upholds (.body b (.results fn.type.results))
      (t.stack.modifyCurrent fun fr => { fr with values }))
    (hr : (c.runAmid changes n).outcome.isReturn = true) :
    t.Invoked w f (t.ran (c.runAmid changes n)) := by
  obtain ⟨-, hsame, hresults⟩ := (h.runAmid changes n).returned hr
  have hthread : (t.ran (c.runAmid changes n)).thread.stack =
      t.stack.modifyCurrent fun fr => { fr with values } := hsame rfl
  refine ⟨rfl, by rw [hthread]; rfl, by rw [hthread]; rfl, ?_, ?_⟩
  · intro fn' owner hf' _
    cases hf.symm.trans hf'
    refine ⟨params.reverse, values, by rw [hthread]; rfl, hstack, fun _ _ => ?_⟩
    rw [List.length_reverse, ← htypes, List.length_map]
  · intro fn' results hf' hvalues
    cases hf.symm.trans hf'
    exact hresults results _ hvalues rfl

end

theorem invoked_of_isReturn {changes : Changes} {n : Nat}
    (hr : ((t.config w (.invoke f)).runAmid changes n).outcome.isReturn = true) :
    t.Invoked w f (t.ran ((t.config w (.invoke f)).runAmid changes n)) := by
  cases n with
  | zero => cases hr
  | succ n =>
    have hstep : (t.config w (.invoke f)).step = (t.config w (.invoke f)).stepInvoke f := rfl
    rw [Config.runAmid_succ_first, hstep] at hr ⊢
    unfold Config.stepInvoke at hr ⊢
    cases hf : w.store.function? f with
    | none =>
      simp only [config, hf] at hr ⊢
      exact invoked_of_trap rfl rfl rfl (List.nil_append _).symm
    | some fn =>
      simp only [config, hf] at hr ⊢
      cases hpop : Operands.popValues fn.type.params t.stack.current.values with
      | error e values =>
        simp only [hpop] at hr ⊢
        obtain ⟨taken, htaken⟩ := Operands.popValues_error hpop
        exact invoked_of_trap rfl rfl rfl htaken.symm
      | ok params values =>
        simp only [hpop] at hr ⊢
        obtain ⟨htypes, hvalues⟩ := Operands.popValues_ok hpop
        cases hbody : fn.body with
        | host run =>
          simp only [hbody] at hr ⊢
          exact invoked_of_host hf hbody rfl rfl rfl hr
        | defined owner position code =>
          simp only [hbody] at hr ⊢
          have hstart := Config.enter_upholds (c := (t.config w (.invoke f)).withValues values) rfl
            { location := ⟨owner, some f⟩, locals := Config.initialLocals params code.locals }
            { code := code.body, arity := some fn.type.results.length }
            (.results fn.type.results) rfl
          exact invoked_of_body hf hvalues htypes (hstart.changed _) hr

/-- **The call contract, whatever others do meanwhile.** Evaluating an expression and calling a
function in a new frame give a thread back as it was, with results or with a trap. Calling a
function from the current frame can change only that frame; a function of a module takes no more
than its parameters from it, and results have the declared types. -/
theorem call_contract_amid (t : Thread) (w : World) (changes : Changes) (n : Nat) :
    (∀ a code, let c := (t.evalConfig w a code).runAmid changes n
      c.outcome.isReturn = true → (t.ran c).thread = t) ∧
    (∀ a f arguments, let c := (t.callConfig w a f arguments).runAmid changes n
      c.outcome.isReturn = true → (t.ran c).thread = t) ∧
    ∀ f, let c := (t.config w (.invoke f)).runAmid changes n
      c.outcome.isReturn = true → t.Invoked w f (t.ran c) := by
  refine ⟨?_, ?_, fun f hr => invoked_of_isReturn hr⟩
  · intro a code c hr
    exact thread_ran ((t.evalConfig_upholds w a code).runAmid changes n) rfl hr
  · intro a f arguments c hr
    exact thread_ran ((t.callConfig_upholds w a f arguments).runAmid changes n) rfl hr

/-- A store in which a function of the host calls back: it puts an argument on the operand stack of
its caller and calls a function of the module that called it. -/
def reentrant : World where
  store :=
    { modules := #[{ name := "guest", functions := #[⟨0⟩, ⟨1⟩, ⟨2⟩] }]
      functions := #[
        ⟨⟨[], [.i32]⟩, .host fun _ => .push (.i32 5) (.invoke ⟨2⟩ fun
          | .ok results => .done results
          | .error t => .fail (.trapped t))⟩,
        ⟨⟨[.i32], [.i32]⟩, .defined ⟨0⟩ 0 ⟨[], #[.call 0]⟩⟩,
        ⟨⟨[.i32], [.i32]⟩, .defined ⟨0⟩ 1 ⟨[], #[.localGet 0]⟩⟩]
      pageLimit := 1 }

/-- A thread that is about to call a function with one of the values on its operand stack. -/
def caller : Thread := ((Thread.new ⟨0⟩ 3).push (.i32 9)).push (.i32 7)

/-- A clock that the first function of a store tells: it is another program after each step. -/
def clock : Changes := fun k w =>
  let tell : FunctionInstance → FunctionInstance := fun fn =>
    { fn with body := .host fun _ => .done [.i32 (.ofNat k)] }
  { w with store := { w.store with functions := w.store.functions.modify 0 tell } }

/-- The clock goes on between the two calls. -/
example : ((caller.evalConfig reentrant ⟨0⟩
    #[.call 0, .call 0, .numeric (.intBinary .w32 .sub)]).runAmid clock 11).outcome =
      .values [.i32 (0 - 4)] := by
  decide

/-- **The call contract.** Evaluating an expression and calling a function in a new frame give a
thread back as it was, with results or with a trap. Calling a function from the current frame can
change only that frame; a function of a module takes no more than its parameters from it, and
results have the declared types. -/
theorem call_contract (t : Thread) (w : World) (fuel : Nat) :
    (∀ a code, (t.eval w fuel a code).outcome.isReturn = true →
      (t.eval w fuel a code).thread = t) ∧
    (∀ a f arguments, (t.call w fuel a f arguments).outcome.isReturn = true →
      (t.call w fuel a f arguments).thread = t) ∧
    ∀ f, (t.invoke w fuel f).outcome.isReturn = true → t.Invoked w f (t.invoke w fuel f) := by
  have h := t.call_contract_amid w .still fuel
  simp only [Config.runAmid_still] at h
  exact h

theorem call_contract_reentrant :
    (caller.invoke reentrant 20 ⟨1⟩).outcome = .values [.i32 5] ∧
      caller.Invoked reentrant ⟨1⟩ (caller.invoke reentrant 20 ⟨1⟩) := by
  have h : (caller.invoke reentrant 20 ⟨1⟩).outcome = .values [.i32 5] := by decide
  exact ⟨h, (call_contract caller reentrant 20).2.2 ⟨1⟩ (by rw [h]; rfl)⟩

end Thread

end WasmCore.Machine
