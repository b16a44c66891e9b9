import WasmCore.Proofs.Machine.Script
import WasmCore.Proofs.Machine.Steps
import WasmCore.Proofs.Store.Growth

/-!
# What execution does to a store

An instruction works on its frame and on one memory, the first one of the module of the frame:
`Focus.Worked` holds from what it sees before to what it sees after. Execution therefore changes
nothing in a store but the contents of memories, which it does not shrink (`Config.run_reworked`),
and a step changes at most the memory of the current frame (`Config.step_reworkedAt`).

What else instructions keep is shown for their elementary effects alone (`Exec.Elementary.script`).
-/

namespace WasmCore

namespace Machine

/-! ### Instructions -/

/-- The memory that an instruction works on. -/
def Focus.memory? (f : Focus) : Option MemoryAddr := f.store.firstMemory? f.frame.location.module

/-- What an instruction can make of what it sees: the frame belongs where it did, and in the store
only the contents of the memory of the frame differ. -/
structure Focus.Worked (f f' : Focus) : Prop where
  location : f'.frame.location = f.frame.location
  store : f.store.ReworkedAt f.memory? f'.store

namespace Focus.Worked

variable {f f' f'' : Focus}

theorem refl (f : Focus) : f.Worked f := ⟨rfl, .refl f.store⟩

theorem memory? (h : f.Worked f') : f'.memory? = f.memory? := by
  simp only [Focus.memory?, h.location, h.store.firstMemory?]

theorem trans (h : f.Worked f') (h' : f'.Worked f'') : f.Worked f'' :=
  ⟨h'.location.trans h.location, h.store.trans (h.memory? ▸ h'.store)⟩

end Focus.Worked

/-- The state in which an effect ends, however it ends. -/
def finalFocus {α : Type} : EStateM.Result Stop Focus α → Focus
  | .ok _ f => f
  | .error _ f => f

namespace Exec

variable {α β : Type} {f f' : Focus}

/-! The effects that only look, and sequences, as functions of what they see. -/

theorem bind_of_ok {x : Exec α} {a : α} (h : x f = .ok a f') (k : α → Exec β) :
    (x >>= k) f = k a f' := by
  simp only [Bind.bind, EStateM.bind, h]

theorem bind_of_error {x : Exec α} {stop : Stop} (h : x f = .error stop f') (k : α → Exec β) :
    (x >>= k) f = .error stop f' := by
  simp only [Bind.bind, EStateM.bind, h]

theorem get_bind_apply (k : Focus → Exec α) (f : Focus) :
    (MonadState.get >>= k : Exec α) f = k f f := rfl

theorem memoryAddr_apply (f : Focus) : memoryAddr f =
    (f.memory?.elim (fault .noMemory) pure : Exec MemoryAddr) f := by
  unfold memoryAddr Focus.memory?
  rw [get_bind_apply]
  cases f.store.firstMemory? f.frame.location.module with
  | none => rfl
  | some a => rfl

theorem inspect_apply (a : MemoryAddr) (look : Memory → α) (f : Focus) : inspect a look f =
    ((f.store.memory? a).elim (throw (.defect .missingInstance)) fun m => pure (look m) :
      Exec α) f := by
  unfold inspect
  rw [get_bind_apply]
  cases f.store.memory? a with
  | none => rfl
  | some m => rfl

theorem getLocal_apply (index : UInt32) (f : Focus) : getLocal index f =
    (f.frame.locals[index.toNat]?.elim (fault (.unknownLocal index.toNat)) pure :
      Exec Value) f := by
  unfold getLocal
  rw [get_bind_apply]
  cases f.frame.locals[index.toNat]? with
  | none => rfl
  | some v => rfl

end Exec

/-- The effect works on the frame and its memory, which is `known` to be this one if any. -/
def Exec.Works {α : Type} (known : Option MemoryAddr) (x : Exec α) : Prop :=
  ∀ f : Focus, (∀ a, known = some a → f.memory? = some a) → f.Worked (finalFocus (x f))

namespace Exec.Works

variable {α β : Type} {known : Option MemoryAddr}

theorem pure (a : α) : Works known (Pure.pure a : Exec α) := fun f _ => .refl f

theorem throw (stop : Stop) : Works known (MonadExcept.throw stop : Exec α) := fun f _ => .refl f

theorem fault (f : Fault) : Works known (Exec.fault f : Exec α) := throw (.fault f)

theorem get : Works known (MonadState.get : Exec Focus) := fun f _ => .refl f

theorem bind {x : Exec α} {k : α → Exec β} (hx : Works known x) (hk : ∀ a, Works known (k a)) :
    Works known (x >>= k) := by
  intro f hknown
  have hf := hx f hknown
  simp only [Bind.bind, EStateM.bind]
  cases hr : x f with
  | ok a f' =>
    rw [hr] at hf
    -- the memory of the frame is still the known one
    exact hf.trans (hk a f' fun a ha => hf.memory?.trans (hknown a ha))
  | error stop f' =>
    rw [hr] at hf
    exact hf

/-- The frame gets other values and locals. -/
theorem modifyFrame (values : Focus → List Value) (locals : Focus → Array Value) :
    Works known (modify fun f => { f with frame := ⟨f.frame.location, values f, locals f⟩ } :
      Exec Unit) :=
  fun f _ => ⟨rfl, .refl f.store⟩

theorem modifyMemory (a : MemoryAddr) {g : Memory → Memory} (hg : ∀ m : Memory, m.Grows (g m)) :
    Works (some a) (Exec.modifyMemory a g) := by
  intro f hknown
  refine ⟨rfl, ?_⟩
  rw [hknown a rfl]
  exact .modifyMemory hg f.store a

theorem operands (x : Operands α) : Works known (Exec.operands x) := by
  intro f _
  simp only [Exec.operands]
  cases x f.frame.values <;> exact ⟨rfl, .refl f.store⟩

theorem getLocal (index : UInt32) : Works known (Exec.getLocal index) := by
  refine get.bind fun f => ?_
  split
  · exact pure _
  · exact fault _

theorem setLocal (index : UInt32) : Works known (Exec.setLocal index) := by
  refine (getLocal index).bind fun old => (operands _).bind fun v => ?_
  exact (modifyFrame _ _).bind fun _ => pure v

/-- What follows the look-up of the memory of the frame knows that memory. -/
theorem memoryAddr_bind {k : MemoryAddr → Exec α} (hk : ∀ a, Works (some a) (k a)) :
    Works none (Exec.memoryAddr >>= k) := by
  intro f _
  simp only [Bind.bind, EStateM.bind, memoryAddr_apply]
  cases hm : f.memory? with
  | none => exact .refl f
  | some a =>
    refine hk a f fun b hb => ?_
    cases hb
    exact hm

theorem inspect (a : MemoryAddr) (look : Memory → α) : Works known (Exec.inspect a look) := by
  refine get.bind fun f => ?_
  split
  · exact pure _
  · exact throw _

theorem of_script {x : Exec α} (sx : Script known x) : Works known x := by
  induction sx with
  | pure a => exact pure a
  | fault f => exact fault f
  | bind _ _ hx hk => exact hx.bind hk
  | operands => exact operands _
  | height => exact get.bind fun f => pure _
  | unwind => exact modifyFrame _ _
  | getLocal index => exact getLocal index
  | setLocal index => exact setLocal index
  | label labels depth _ _ hx hk =>
    split
    · exact hx
    · exact hk _ _ _
  | target => exact pure _
  | memory _ hk => exact memoryAddr_bind hk
  | pages a => exact inspect a _
  | read a => exact inspect a _
  | write a =>
    refine (inspect a _).bind fun fits => ?_
    split
    · exact modifyMemory a fun m => m.grows_setNumber _ _ _
    · exact fault _
  | grow a =>
    refine get.bind fun f => (inspect a _).bind fun pages => (inspect a _).bind fun can => ?_
    split
    · exact (modifyMemory a fun m => m.grows_extended _).bind fun _ => operands _
    · exact operands _

/-- An instruction works on its frame and its memory. -/
theorem step (b : Body) (i : Instruction) : Works none (b.step i) := of_script (b.script i)

end Exec.Works

/-- What the elementary effects do to what is seen is in a relation. Those that only look are
covered by its reflexivity. -/
structure Exec.Elementary (R : Focus → Focus → Prop) : Prop where
  refl : ∀ f, R f f
  trans : ∀ f f' f'', R f f' → R f' f'' → R f f''
  operands : ∀ {α : Type} {x : Operands α}, Operands.Script x →
    ∀ f, R f (finalFocus (Exec.operands x f))
  unwind : ∀ height arity (f : Focus),
    R f { f with frame := { f.frame with values := unwind height arity f.frame.values } }
  setLocal : ∀ index f, R f (finalFocus (Exec.setLocal index f))
  write : ∀ a address width value (f : Focus),
    R f { f with store := f.store.modifyMemory a (·.setNumber address width value) }
  grow : ∀ a delta m (f : Focus), f.store.memory? a = some m →
    m.canGrow delta f.store.pageLimit = true →
    R f { f with store := f.store.modifyMemory a (·.extended delta) }

namespace Exec.Elementary

variable {α β : Type} {known : Option MemoryAddr} {R : Focus → Focus → Prop}

theorem bind (h : Elementary R) {x : Exec α} {k : α → Exec β} {f : Focus}
    (hx : R f (finalFocus (x f))) (hk : ∀ a f', x f = .ok a f' → R f' (finalFocus (k a f'))) :
    R f (finalFocus ((x >>= k) f)) := by
  cases hr : x f with
  | ok a f' =>
    rw [hr] at hx
    rw [bind_of_ok hr]
    exact h.trans _ _ _ hx (hk a f' hr)
  | error stop f' =>
    rw [hr] at hx
    rw [bind_of_error hr]
    exact hx

theorem inspect_bind (h : Elementary R) {a : MemoryAddr} {look : Memory → α} {k : α → Exec β}
    {f : Focus} (hk : ∀ m, f.store.memory? a = some m → R f (finalFocus (k (look m) f))) :
    R f (finalFocus ((Exec.inspect a look >>= k) f)) := by
  have hlook := inspect_apply a look f
  cases hm : f.store.memory? a with
  | none =>
    rw [hm] at hlook
    rw [bind_of_error hlook]
    exact h.refl f
  | some m =>
    rw [hm] at hlook
    rw [bind_of_ok hlook]
    exact hk m hm

/-- **What all elementary effects keep is kept by instructions.** -/
theorem script (h : Elementary R) {x : Exec α} (sx : Script known x) (f : Focus) :
    R f (finalFocus (x f)) := by
  induction sx generalizing f with
  | pure a => exact h.refl f
  | fault e => exact h.refl f
  | bind _ _ hx hk => exact h.bind (hx f) fun a f' _ => hk a f'
  | operands sx => exact h.operands sx f
  | height => exact h.refl f
  | unwind height arity => exact h.unwind height arity f
  | getLocal index =>
    rw [getLocal_apply]
    cases f.frame.locals[index.toNat]? <;> exact h.refl f
  | setLocal index => exact h.setLocal index f
  | label labels depth _ _ hx hk =>
    generalize labels.drop depth = entered
    cases entered with
    | nil => exact hx f
    | cons l outer => exact hk l outer (l :: outer) f
  | target => exact h.refl f
  | memory _ hk =>
    refine h.bind ?_ fun a f' _ => hk a f'
    rw [memoryAddr_apply]
    cases f.memory? <;> exact h.refl f
  | pages a | read a =>
    rw [inspect_apply]
    cases f.store.memory? a <;> exact h.refl f
  | write a address width value =>
    refine h.inspect_bind fun m _ => ?_
    split
    · exact h.write a address width value f
    · exact h.refl f
  | grow a delta =>
    rw [get_bind_apply]
    refine h.inspect_bind fun m hm => h.inspect_bind fun m' hm' => ?_
    split
    · rename_i hcan
      exact h.bind (h.grow a delta m' f hm' hcan) fun _ f' _ => h.operands (.push _) f'
    · exact h.operands (.push _) f

end Exec.Elementary

theorem Exec.store_operands {α : Type} (x : Operands α) (f : Focus) :
    (finalFocus (Exec.operands x f)).store = f.store := by
  simp only [Exec.operands]
  cases x f.frame.values <;> rfl

theorem Exec.store_setLocal (index : UInt32) (f : Focus) :
    (finalFocus (Exec.setLocal index f)).store = f.store := by
  simp only [Exec.setLocal, Bind.bind, EStateM.bind, getLocal_apply]
  cases f.frame.locals[index.toNat]? with
  | none => rfl
  | some old =>
    simp only [Option.elim_some, Pure.pure, EStateM.pure, Exec.operands]
    cases Operands.popTyped old.type f.frame.values <;> rfl

/-! ### Steps -/

namespace Config

variable {c : Config}

@[simp] theorem store_raise (f : Fault) : (c.raise f).world.store = c.world.store := rfl

@[simp] theorem store_withValues (values : List Value) :
    (c.withValues values).world.store = c.world.store := rfl

@[simp] theorem store_leave : c.leave.world.store = c.world.store := by
  unfold leave
  split <;> rfl

@[simp] theorem store_leaveWith (finish : Finish) :
    (c.leaveWith finish).world.store = c.world.store := by
  unfold leaveWith
  split
  · exact store_leave
  · rfl

@[simp] theorem store_enter (f : Frame) (b : Body) (finish : Finish) :
    (c.enter f b finish).world.store = c.world.store := by
  unfold enter
  split <;> rfl

@[simp] theorem store_finishBody (finish : Finish) :
    (c.finishBody finish).world.store = c.world.store := by
  cases finish with
  | results types =>
    simp only [finishBody]
    split
    · simp
    · split <;> simp
  | single =>
    simp only [finishBody]
    split
    · simp
    · split <;> simp
  | arguments rest f => cases rest <;> rfl
  | stop => rfl

@[simp] theorem store_callFrom (b : Body) (finish : Finish) (index : UInt32) :
    (c.callFrom b finish index).world.store = c.world.store := by
  unfold callFrom
  split
  · rfl
  · simp

@[simp] theorem store_stepInvoke (f : FunctionAddr) :
    (c.stepInvoke f).world.store = c.world.store := by
  unfold stepInvoke
  split
  · rfl
  · split
    · rfl
    · split
      · rfl
      · simp

@[simp] theorem store_stepHost (type : FunctionType) (p : HostProgram) :
    (c.stepHost type p).world.store = c.world.store := by
  cases p with
  | done results =>
    simp only [stepHost]
    split <;> rfl
  | fail failure => cases failure <;> rfl
  | print text next =>
    simp only [stepHost]
    split <;> rfl
  | callerModule next => rfl
  | callerMemory next => rfl
  | push v next => rfl
  | invoke f next => rfl
  | report e next => rfl

@[simp] theorem store_stepAnswer (r : Except Trap (List Value)) (w : Waiting)
    (rest : List Waiting) : (c.stepAnswer r w rest).world.store = c.world.store := by
  cases w with
  | frame => simp [stepAnswer]
  | host type next => rfl
  | body b finish => cases r <;> simp [stepAnswer]

/-- The memory that instructions of the current frame work on. -/
def memory? (c : Config) : Option MemoryAddr := c.setting.focus.memory?

/-- A body leaves the store as the effect of its instruction has left it. -/
theorem store_stepBody {b : Body} {i : Instruction} (h : b.code[b.position]? = some i)
    (finish : Finish) :
    (c.stepBody b finish).world.store = (finalFocus (b.step i c.setting.focus)).store := by
  rw [stepBody_of_some h]
  unfold Setting.perform
  cases b.step i c.setting.focus with
  | error stop f =>
    cases stop with
    | fault e =>
      simp only [resume, store_leaveWith, store_raise]
      rfl
    | defect d => rfl
  | ok move f =>
    cases move with
    | proceed b' => rfl
    | leave =>
      simp only [resume, store_finishBody]
      rfl
    | call index =>
      simp only [resume, store_callFrom]
      rfl

/-- A step leaves the store as it is, or as the effect of an instruction leaves it. -/
theorem step_store (c : Config) : c.step.world.store = c.world.store ∨
    ∃ (b : Body) (i : Instruction),
      c.step.world.store = (finalFocus (b.step i c.setting.focus)).store := by
  rcases c with ⟨world, stack, ceiling, now, waiting⟩
  cases now with
  | body b finish =>
    cases h : b.code[b.position]? with
    | none =>
      refine .inl ?_
      simp only [step, stepBody_of_none h, store_finishBody]
    | some i => exact .inr ⟨b, i, store_stepBody h finish⟩
  | invoke f => exact .inl (by simp [step])
  | host type p => exact .inl (by simp [step])
  | answer r =>
    refine .inl ?_
    cases waiting with
    | nil => rfl
    | cons w rest => simp [step]
  | broken d => exact .inl rfl

/-- A step changes nothing in the store but the contents of the memory of the current frame. -/
theorem step_reworkedAt (c : Config) : c.world.store.ReworkedAt c.memory? c.step.world.store := by
  rcases c.step_store with hsame | ⟨b, i, hstore⟩
  · rw [hsame]
    exact .refl _
  · rw [hstore]
    exact (Exec.Works.step b i c.setting.focus nofun).store

/-- **Execution keeps the registry.** A run leaves all modules and functions as they are and adds
no memory; each memory keeps its bound and does not shrink. -/
theorem run_reworked (c : Config) (fuel : Nat) :
    c.world.store.Reworked (c.run fuel).world.store := by
  induction fuel generalizing c with
  | zero => exact .refl _
  | succ fuel ih =>
    -- a halted machine makes steps too, which change nothing
    rw [run_succ]
    exact (step_reworkedAt c).toReworked.trans (ih c.step)

end Config

end Machine

end WasmCore
