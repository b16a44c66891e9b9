import WasmCore.Proofs.Machine.Checked
import WasmCore.Proofs.Machine.Life
import WasmCore.Proofs.Store.Integrity

/-!
# Safety

No execution panics. The checked machine panics only for a defect of the machine, and there are two
of these: a handle that denotes nothing, and an attempt to leave the bottom frame.

Instructions look up no handle but that of the memory of their frame, which is there if the
references of the store are in order. A frame is only left by a task that owns it, and there are
always at least as many frames above the bottom one as tasks that own one. `Config.Secure` is the
invariant, and `Config.Occurs.safety` is what it means for the operations of a thread.
-/

namespace WasmCore

/-- Execution leaves the references of a store in order. -/
theorem Store.Closed.reworked {s s' : Store} (hs : s.Closed) (h : s.Reworked s') : s'.Closed :=
  fun x hx => h.toGrows.denotes (hs x ((Store.refers_congr h.sameModules).1 hx))

/-- The first memory of a module is there if the references of the store are in order. -/
theorem Store.Closed.firstMemory {s : Store} (hs : s.Closed) {a : ModuleAddr} {b : MemoryAddr}
    (h : s.firstMemory? a = some b) : ∃ m, s.memory? b = some m := by
  obtain ⟨inst, hinst, hb⟩ := Option.bind_eq_some_iff.1 h
  have hrefers : s.Refers (.memory b) :=
    ⟨inst, Array.mem_of_getElem? hinst, .inl (Array.mem_of_getElem? hb)⟩
  exact Option.isSome_iff_exists.1 (memory?_isSome_iff.2 (hs _ hrefers))

namespace Machine

/-! ### Instructions -/

/-- The memory of the frame, if there is one, is in the store. -/
def Focus.Ready (f : Focus) : Prop := ∀ a, f.memory? = some a → ∃ m, f.store.memory? a = some m

theorem Focus.Worked.ready {f f' : Focus} (h : f.Worked f') (hf : f.Ready) : f'.Ready := by
  intro a ha
  rw [h.memory?] at ha
  obtain ⟨m, hm⟩ := hf a ha
  obtain ⟨m', hm', -⟩ := h.store.memories a m hm
  exact ⟨m', hm'⟩

/-- The effect does not end with a defect, if the memory of the frame is there. -/
def Exec.Sure {α : Type} (known : Option MemoryAddr) (x : Exec α) : Prop :=
  ∀ f : Focus, f.Ready → (∀ a, known = some a → f.memory? = some a) →
    ∀ d f', x f ≠ .error (.defect d) f'

namespace Exec.Sure

variable {α β : Type} {known : Option MemoryAddr}

theorem bind {x : Exec α} {k : α → Exec β} (hw : Works known x) (hx : Sure known x)
    (hk : ∀ a, Sure known (k a)) : Sure known (x >>= k) := by
  intro f hready hknown d f' h
  have hworked := hw f hknown
  cases hr : x f with
  | ok a middle =>
    rw [hr] at hworked
    rw [bind_of_ok hr] at h
    exact hk a middle (hworked.ready hready)
      (fun a ha => hworked.memory?.trans (hknown a ha)) d f' h
  | error stop middle =>
    rw [bind_of_error hr] at h
    cases h
    exact hx f hready hknown d f' hr

/-- The known memory is there. -/
theorem inspect (a : MemoryAddr) (look : Memory → α) : Sure (some a) (Exec.inspect a look) := by
  intro f hready hknown d f' h
  obtain ⟨m, hm⟩ := hready a (hknown a rfl)
  rw [inspect_apply, hm] at h
  cases h

theorem operands (x : Operands α) : Sure known (Exec.operands x) := by
  intro f _ _ d f' h
  rw [Script.operands_apply] at h
  cases hr : x f.frame.values <;> rw [hr] at h <;> cases h

theorem getLocal (index : UInt32) : Sure known (Exec.getLocal index) := by
  intro f _ _ d f' h
  rw [getLocal_apply] at h
  cases hl : f.frame.locals[index.toNat]? <;> rw [hl] at h <;> cases h

theorem setLocal (index : UInt32) : Sure known (Exec.setLocal index) := by
  refine bind (.getLocal index) (getLocal index) fun old => ?_
  refine bind (.operands _) (operands _) fun v => ?_
  exact bind (.modifyFrame _ _) nofun fun _ => nofun

/-- What follows the look-up of the memory of the frame has that memory. -/
theorem memoryAddr_bind {k : MemoryAddr → Exec α} (hk : ∀ a, Sure (some a) (k a)) :
    Sure none (Exec.memoryAddr >>= k) := by
  intro f hready _ d f' h
  have hlook := memoryAddr_apply f
  cases hm : f.memory? with
  | none =>
    rw [hm] at hlook
    rw [bind_of_error hlook] at h
    cases h
  | some a =>
    rw [hm] at hlook
    rw [bind_of_ok hlook] at h
    refine hk a f hready (fun b hb => ?_) d f' h
    cases hb
    exact hm

/-- **Instructions end without a defect.** -/
theorem of_script {x : Exec α} (sx : Script known x) : Sure known x := by
  induction sx with
  | pure a => nofun
  | fault e => nofun
  | bind sx _ hx hk => exact bind (.of_script sx) hx hk
  | operands => exact operands _
  | height => nofun
  | unwind => nofun
  | getLocal index => exact getLocal index
  | setLocal index => exact setLocal index
  | label labels depth _ _ hx hk =>
    split
    · exact hx
    · exact hk _ _ _
  | target => nofun
  | memory _ hk => exact memoryAddr_bind hk
  | pages a => exact inspect a _
  | read a => exact inspect a _
  | write a =>
    refine bind (.inspect a _) (inspect a _) fun fits => ?_
    split
    · nofun
    · nofun
  | grow a =>
    refine bind .get nofun fun f => bind (.inspect a _) (inspect a _) fun pages => ?_
    refine bind (.inspect a _) (inspect a _) fun can => ?_
    split
    · exact bind (.modifyMemory a fun m => m.grows_extended _) nofun fun _ => operands _
    · exact operands _

end Exec.Sure

/-! ### Steps -/

namespace Config

variable {c c' : Config}

/-- There are as many frames above the bottom one as tasks that own one, or more. -/
def Covered (c : Config) : Prop := c.entered ≤ c.stack.below.length

/-- A turn enters and leaves frames together with the tasks that own them. -/
theorem Turn.covered (h : c.Turn c') (hc : c.Covered) (hnow : ∀ d, c'.now ≠ .broken d) :
    c'.Covered := by
  unfold Covered at hc ⊢
  cases h with
  | rests _ hsame => rwa [hsame]
  | breaks hbroken _ => exact absurd hbroken (hnow _)
  | advances ht ht' hw hs _ =>
    have he : c'.entered = c.entered := by simp [entered, ht, ht', hw.ownsFrame, List.countP_cons]
    rwa [he, hs.below]
  | enters _ _ ht' hown _ _ _ hbelow =>
    have he : c'.entered = c.entered + 1 := by simp [entered, ht', hown]
    rw [he, hbelow, List.length_cons]
    omega
  | delegates _ _ _ ht' _ hs =>
    have he : c'.entered = c.entered := by simp [entered, ht', Waiting.ownsFrame]
    rwa [he, hs.below]
  | refuses _ ht' _ hs =>
    have he : c'.entered = c.entered := by simp [entered, ht']
    rwa [he, hs.below]
  | @ends w ws r ht ht' _ _ hs =>
    split at hs
    · rename_i hown
      have he : c.entered = c'.entered + 1 := by simp [entered, ht, ht', hown]
      rw [he, hs, CallStack.frames, List.length_cons] at hc
      omega
    · rename_i hown
      have he : c'.entered = c.entered := by simp [entered, ht, ht', hown]
      rwa [he, hs.below]

/-- A task that owns a frame stands over another frame. -/
theorem Covered.below_ne_nil (hc : c.Covered) {w : Waiting} (hw : w ∈ c.tasks)
    (hown : w.ownsFrame = true) : c.stack.below ≠ [] := by
  have hpos : 0 < c.entered := List.countP_pos_iff.2 ⟨w, hw, hown⟩
  intro hbelow
  rw [Covered, hbelow, List.length_nil] at hc
  omega

theorem settle_leave (hc : c.settle = .ok c) (hbelow : c.stack.below ≠ []) :
    c.leave.settle = .ok c.leave := by
  rcases c with ⟨world, ⟨f, below, depth, hd⟩, ceiling, now, waiting⟩
  cases below with
  | nil => exact absurd rfl hbelow
  | cons g below => exact settle_of_now hc rfl

theorem settle_leaveWith (hc : c.settle = .ok c) {finish : Finish}
    (hbelow : finish.ownsFrame = true → c.stack.below ≠ []) :
    (c.leaveWith finish).settle = .ok (c.leaveWith finish) := by
  unfold leaveWith
  split
  · rename_i hown
    exact settle_leave hc (hbelow hown)
  · exact hc

theorem settle_finishBody {finish : Finish}
    (hbelow : finish.ownsFrame = true → c.stack.below ≠ []) :
    (c.finishBody finish).settle = .ok (c.finishBody finish) := by
  cases finish with
  | results types =>
    have hover := hbelow rfl
    simp only [finishBody]
    split
    · exact settle_leave rfl hover
    · split
      · exact settle_leave rfl hover
      · exact settle_leave rfl hover
  | single =>
    have hover := hbelow rfl
    simp only [finishBody]
    split
    · exact settle_leave rfl hover
    · split
      · exact settle_leave rfl hover
      · exact settle_leave rfl hover
  | arguments rest f => cases rest <;> rfl
  | stop => rfl

theorem settle_callFrom (b : Body) {finish : Finish}
    (hbelow : finish.ownsFrame = true → c.stack.below ≠ []) (index : UInt32) :
    (c.callFrom b finish index).settle = .ok (c.callFrom b finish index) := by
  unfold callFrom
  split
  · rfl
  · exact settle_leaveWith rfl hbelow

theorem settle_stepBody (hs : c.world.store.Closed) (b : Body) {finish : Finish}
    (hbelow : finish.ownsFrame = true → c.stack.below ≠ []) :
    (c.stepBody b finish).settle = .ok (c.stepBody b finish) := by
  cases hi : b.code[b.position]? with
  | none =>
    rw [stepBody_of_none hi]
    exact settle_finishBody hbelow
  | some i =>
    have hsure := Exec.Sure.of_script (b.script i) c.setting.focus
      (fun a ha => hs.firstMemory ha) nofun
    rw [stepBody_of_some hi]
    unfold Setting.perform
    cases hr : b.step i c.setting.focus with
    | error stop f =>
      cases stop with
      | fault e => exact settle_leaveWith rfl hbelow
      | defect d => exact absurd hr (hsure d f)
    | ok move f =>
      cases move with
      | proceed b' => rfl
      | leave => exact settle_finishBody hbelow
      | call index =>
        have hover : finish.ownsFrame = true →
            ((c.setting.refocus f).config c.now c.waiting).stack.below ≠ [] := hbelow
        exact settle_callFrom b hover index

theorem settle_stepInvoke (c : Config) (f : FunctionAddr) :
    (c.stepInvoke f).settle = .ok (c.stepInvoke f) := by
  unfold stepInvoke
  split
  · rfl
  · split
    · rfl
    · dsimp only
      split
      · rfl
      · unfold enter
        split <;> rfl

theorem settle_stepHost (c : Config) (type : FunctionType) (p : HostProgram) :
    (c.stepHost type p).settle = .ok (c.stepHost type p) := by
  cases p with
  | done results =>
    simp only [stepHost]
    split <;> rfl
  | fail failure => cases failure <;> rfl
  | print text next =>
    simp only [stepHost]
    split <;> rfl
  | callerModule next => rfl
  | callerMemory next => rfl
  | push v next => rfl
  | invoke f next => rfl
  | report e next => rfl

theorem settle_stepAnswer (hc : c.settle = .ok c) (r : Except Trap (List Value)) {w : Waiting}
    (hbelow : w.ownsFrame = true → c.stack.below ≠ []) (rest : List Waiting) :
    (c.stepAnswer r w rest).settle = .ok (c.stepAnswer r w rest) := by
  have hrest : ({ c with waiting := rest } : Config).settle = .ok { c with waiting := rest } :=
    settle_of_now hc rfl
  cases w with
  | frame => exact settle_leave hrest (hbelow rfl)
  | host type next => rfl
  | body b finish =>
    cases r with
    | ok results => rfl
    | error t => exact settle_leaveWith hrest hbelow

/-- The machine does not stop with a defect, now or later. -/
structure Secure (c : Config) : Prop where
  store : c.world.store.Closed
  covered : c.Covered
  sound : c.settle = .ok c

theorem Secure.settle_step (h : c.Secure) : c.step.settle = .ok c.step := by
  -- only a task that is in progress leaves a frame
  have hbelow {w : Waiting} (hw : w ∈ c.tasks) : w.ownsFrame = true → c.stack.below ≠ [] :=
    h.covered.below_ne_nil hw
  cases hnow : c.now with
  | body b finish =>
    have hcurrent : .body b finish ∈ c.tasks := by simp [tasks, hnow, Now.task?]
    simp only [step, hnow]
    exact settle_stepBody h.store b (hbelow hcurrent)
  | invoke f =>
    simp only [step, hnow]
    exact settle_stepInvoke c f
  | host type p =>
    simp only [step, hnow]
    exact settle_stepHost c type p
  | answer r =>
    cases hwaiting : c.waiting with
    | nil =>
      simp only [step, hnow, hwaiting]
      exact h.sound
    | cons w rest =>
      have hnext : w ∈ c.tasks := by simp [tasks, hwaiting]
      simp only [step, hnow, hwaiting]
      exact settle_stepAnswer h.sound r (hbelow hnext) rest
  | broken d =>
    simp only [step, hnow]
    exact h.sound

theorem Secure.step (h : c.Secure) : c.step.Secure := by
  have hsettle := h.settle_step
  refine ⟨h.store.reworked (step_reworkedAt c).toReworked, ?_, hsettle⟩
  refine (step_turn c).covered h.covered fun d hd => ?_
  rw [settle, hd] at hsettle
  cases hsettle

theorem Secure.changed (h : c.Secure) {f : World → World} (hf : (f c.world).store.Closed) :
    (c.changed f).Secure := ⟨hf, h.covered, settle_of_now h.sound rfl⟩

theorem Secure.runAmid {changes : Changes} (hchanges : changes.Keep Store.Closed) (h : c.Secure)
    (n : Nat) : (c.runAmid changes n).Secure :=
  runAmid_invariant h (fun _ => Secure.step)
    (fun k c hc => hc.changed (hchanges k c.world hc.store)) n

theorem Secure.run (h : c.Secure) (fuel : Nat) : (c.run fuel).Secure :=
  c.runAmid_still fuel ▸ h.runAmid (Changes.still_keep _) fuel

/-- A machine goes on with a step, or after the host has changed the store. -/
inductive Proceeds : Config → Config → Prop
  | step (c : Config) : Proceeds c c.step
  | change (c : Config) {w : World} (hw : w.store.Reachable) : Proceeds c { c with world := w }

theorem Secure.proceeds (h : c.Secure) (hlater : Relation.ReflTransGen Proceeds c c') :
    c'.Secure := by
  induction hlater with
  | refl => exact h
  | tail _ hnext ih =>
    cases hnext with
    | step => exact ih.step
    | change hw => exact ih.changed (f := fun _ => _) hw.sound.closed

/-- **A secure machine runs without a panic.** -/
theorem Secure.checkedRun (h : c.Secure) (fuel : Nat) :
    c.checkedRun fuel = .ok (c.run fuel) :=
  (checkedRun_eq h.sound fuel).trans (h.run fuel).sound

/-- A machine that nothing waits for enters a frame of its own, or refuses to. -/
theorem secure_enter {f : Frame} {b : Body} {finish : Finish} (hs : c.world.store.Closed)
    (hw : c.waiting = []) : (c.enter f b finish).Secure := by
  unfold enter
  split
  · have hrefused : (c.raise .callStackOverflow).entered = 0 := by
      simp [entered, tasks, raise, Now.task?, hw]
    refine ⟨hs, ?_, rfl⟩
    rw [Covered, hrefused]
    exact Nat.zero_le _
  · have hentered : ({ c with stack := c.stack.enter f, now := .body b finish } :
        Config).entered ≤ 1 := by
      have htasks := List.countP_le_length (p := Waiting.ownsFrame) (l := [.body b finish])
      simpa [entered, tasks, Now.task?, hw] using htasks
    refine ⟨hs, ?_, rfl⟩
    rw [Covered]
    exact Nat.le_trans hentered (Nat.le_add_left _ _)

end Config

/-! ### Threads -/

namespace Thread

variable (t : Thread) (w : World) (fuel : Nat)

/-- Runs a machine of this thread. -/
def checkedFinish (c : Config) : Checked Ran := do
  let c ← c.checkedRun fuel
  .ok ⟨c.world, { t with stack := c.stack }, c.outcome⟩

/-- Evaluates an expression in a new frame of a module. -/
def checkedEval (a : ModuleAddr) (code : Array Instruction) : Checked Ran :=
  t.checkedFinish fuel (t.evalConfig w a code)

/-- Evaluates arguments in a new frame of a module and calls a function with them. -/
def checkedCall (a : ModuleAddr) (f : FunctionAddr) (arguments : List (Array Instruction)) :
    Checked Ran :=
  t.checkedFinish fuel (t.callConfig w a f arguments)

/-- Calls a function with parameters from the current frame. -/
def checkedInvoke (f : FunctionAddr) : Checked Ran :=
  t.checkedFinish fuel (t.config w (.invoke f))

/-- Executes code against the current frame, whose function is there if it has one. -/
def checkedExec (code : Array Instruction) : Checked Ran := do
  match t.stack.current.location.function with
  | none => t.checkedFinish fuel (t.config w (.body { code } .stop))
  | some f =>
    let fn ← Checked.denoted (← Checked.lookup w.store.functions f.index)
    let arity := some fn.type.results.length
    t.checkedFinish fuel (t.config w (.body { code, arity } .stop))

/-- The thread may start with this machine: it evaluates, calls or invokes, or it executes code in
its bottom frame. -/
inductive Starts : Config → Prop
  | eval (a : ModuleAddr) (code : Array Instruction) : Starts (t.evalConfig w a code)
  | call (a : ModuleAddr) (f : FunctionAddr) (arguments : List (Array Instruction)) :
    Starts (t.callConfig w a f arguments)
  | invoke (f : FunctionAddr) : Starts (t.config w (.invoke f))
  | exec (hbottom : t.stack.below = []) (code : Array Instruction) :
    Starts (t.config w (.body { code } .stop))

variable {t w}

theorem Starts.secure {c : Config} (h : t.Starts w c) (hs : w.store.Closed) : c.Secure := by
  cases h with
  | eval a code => exact Config.secure_enter hs rfl
  | call a f arguments => exact Config.secure_enter hs rfl
  | invoke f => exact ⟨hs, Nat.zero_le _, rfl⟩
  | exec hbottom code => exact ⟨hs, Nat.zero_le _, rfl⟩

theorem Starts.checkedFinish {c : Config} (h : t.Starts w c) (hs : w.store.Closed) :
    t.checkedFinish fuel c = .ok (t.finish fuel c) := by
  rw [Thread.checkedFinish, (h.secure hs).checkedRun, Checked.ok_bind]
  rfl

end Thread

namespace Config

variable {c : Config}

/-- The bottom frame of a thread belongs to no function. -/
theorem Occurs.function_bottom (h : c.Occurs) (hbottom : c.stack.below = []) :
    c.stack.current.location.function = none := by
  obtain ⟨a, ceiling, w, hlater⟩ := h
  have hpos (c : Config) : 0 < c.stack.depth := by
    rw [c.stack.depth_eq]
    exact Nat.succ_pos _
  -- the bottom frame is never left, so it is still the one that the thread was made with
  have hwithin : ((Thread.new a ceiling).idle w).Within 0 c :=
    Relation.ReflTransGen.mono (fun _ c' hnext => ⟨hnext, hpos c'⟩) _ _ hlater
  obtain ⟨hshape, -⟩ := hwithin.shape (hpos _)
  have hlocation : c.stack.current.location = ⟨a, none⟩ := by
    rw [CallStack.frameAt?, CallStack.frames, hbottom] at hshape
    exact congrArg Prod.fst (Option.some.inj hshape)
  rw [hlocation]

/-- **No execution panics.** Whatever has become of a thread, and whatever instantiations and
executions have made of a store, the thread evaluates, calls and invokes without an access outside
of a sequence, a look-up of a handle that denotes nothing, a division by zero or an attempt to leave
the bottom frame. The module, the code, the function and the arguments are any. In its bottom frame
the thread also executes any code. The host may change the store in between. -/
theorem Occurs.safety (h : c.Occurs) {w : World} (hw : w.store.Reachable) :
    (∀ fuel a code, c.thread.checkedEval w fuel a code = .ok (c.thread.eval w fuel a code)) ∧
    (∀ fuel a f arguments, c.thread.checkedCall w fuel a f arguments =
      .ok (c.thread.call w fuel a f arguments)) ∧
    (∀ fuel f, c.thread.checkedInvoke w fuel f = .ok (c.thread.invoke w fuel f)) ∧
    (c.stack.below = [] → ∀ fuel code,
      c.thread.checkedExec w fuel code = .ok (c.thread.exec w fuel code)) ∧
    ∀ start c', c.thread.Starts w start → Relation.ReflTransGen Proceeds start c' →
      c'.checkedStep = .ok c'.step := by
  have hclosed : w.store.Closed := hw.sound.closed
  refine ⟨?_, ?_, ?_, ?_, ?_⟩
  · intro fuel a code
    exact (Thread.Starts.eval a code).checkedFinish fuel hclosed
  · intro fuel a f arguments
    exact (Thread.Starts.call a f arguments).checkedFinish fuel hclosed
  · intro fuel f
    exact (Thread.Starts.invoke f).checkedFinish fuel hclosed
  · intro hbottom fuel code
    have hfunction : c.thread.stack.current.location.function = none := h.function_bottom hbottom
    simp only [Thread.checkedExec, Thread.exec, hfunction]
    exact (Thread.Starts.exec hbottom code).checkedFinish fuel hclosed
  · intro start c' hstart hlater
    exact (checkedStep_eq c').trans ((hstart.secure hclosed).proceeds hlater).settle_step

/-- A thread in a module that is not there. -/
def stray : Config := (Thread.new ⟨9⟩ 3).idle ⟨Store.sharing, {}, #[]⟩

/-- Code that leaves more constructs than it has entered, ends inside of one, and lies about its
positions. -/
def straying : Array Instruction :=
  #[.loop .i32 (-5), .const .i32 1, .brTable [0, 7] 0, .otherwise, .localGet 3]

theorem safety_stray : stray.Occurs ∧ Store.sharing.Reachable ∧ stray.stack.below = [] ∧
    stray.thread.checkedExec stray.world 9 straying =
      .ok (stray.thread.exec stray.world 9 straying) ∧
    (stray.thread.exec stray.world 9 straying).outcome = .values [] ∧
    stray.thread.checkedCall stray.world 9 ⟨4⟩ ⟨7⟩ [#[.const .i32 1]] =
      .ok (stray.thread.call stray.world 9 ⟨4⟩ ⟨7⟩ [#[.const .i32 1]]) ∧
    (stray.thread.call stray.world 9 ⟨4⟩ ⟨7⟩ [#[.const .i32 1]]).outcome =
      .trap ⟨.unknownFunction ⟨7⟩, [⟨⟨4⟩, none⟩, ⟨⟨9⟩, none⟩]⟩ := by
  have hoccurs : stray.Occurs := ⟨⟨9⟩, 3, _, .refl⟩
  have hstore : stray.world.store.Reachable := Store.sharing_reachable
  obtain ⟨-, hcall, -, hexec, -⟩ := hoccurs.safety hstore
  refine ⟨hoccurs, hstore, rfl, hexec rfl 9 straying, ?_, hcall 9 ⟨4⟩ ⟨7⟩ _, ?_⟩
  · decide +kernel
  · decide +kernel

end Config

end Machine

end WasmCore
