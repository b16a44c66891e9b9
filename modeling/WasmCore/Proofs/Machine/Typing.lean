import WasmCore.Proofs.Machine.Effects
import WasmCore.Proofs.Machine.Tasks

/-!
# Types of operands and locals

No code is validated, but operations check the values that they take, and the placeholder is never
put on an operand stack. So all values on operand stacks are numbers (`Value.Proper`), whatever is
executed, and a local is only replaced by a value of its type.

`Frame.shape` is what never changes about a frame: where it belongs and the types of its locals.
`CallStack.Moves` says that a step keeps operands numbers and the shapes of all frames that are
there before and after it; `Config.step_moves` shows it of every step.
-/

namespace WasmCore

/-- A number of one of the four types; one of 32 bits has a payload of 32 bits. -/
structure Value.Proper (v : Value) : Prop where
  type : ∃ t : NumType, v.type = .num t
  payload : v.type = .i32 ∨ v.type = .f32 → v.bits.toNat < 2 ^ 32

theorem Value.proper_of_isNil_eq_false {v : Value} (h : v.isNil = false) : v.Proper := by
  cases v with
  | nil => cases h
  | i32 bits => exact ⟨⟨.i32, rfl⟩, fun _ => by simpa [Value.bits] using bits.toNat_lt⟩
  | i64 bits => exact ⟨⟨.i64, rfl⟩, by simp [Value.type]⟩
  | f32 bits => exact ⟨⟨.f32, rfl⟩, fun _ => by simpa [Value.bits] using bits.toNat_lt⟩
  | f64 bits => exact ⟨⟨.f64, rfl⟩, by simp [Value.type]⟩

namespace Machine

/-! ### Operand stacks -/

/-- All values are numbers. -/
def AllProper (values : List Value) : Prop := ∀ v ∈ values, v.Proper

theorem AllProper.of_suffix {values values' : List Value} (h : AllProper values)
    (hs : values' <:+ values) : AllProper values' :=
  fun v hv => h v (hs.subset hv)

theorem AllProper.push {values : List Value} (h : AllProper values) (v : Value) :
    AllProper (if v.isNil then values else v :: values) := by
  split
  · exact h
  · rename_i hv
    intro u hu
    rcases List.mem_cons.1 hu with rfl | hu
    · exact Value.proper_of_isNil_eq_false (Bool.eq_false_iff.2 hv)
    · exact h u hu

theorem AllProper.unwind {values : List Value} (h : AllProper values) (height : Nat)
    (arity : Option Nat) : AllProper (unwind height arity values) := by
  cases arity with
  | none => exact h
  | some k =>
    intro v hv
    rcases List.mem_append.1 hv with hv | hv
    · exact h v (List.mem_of_mem_take hv)
    · exact h v (List.mem_of_mem_drop hv)

/-- The operand stack that an operation leaves, however it ends. -/
def Operands.remaining {α : Type} : EStateM.Result Fault (List Value) α → List Value
  | .ok _ values => values
  | .error _ values => values

/-- What takes values and puts others on the stack leaves numbers. -/
theorem Operands.Script.allProper {α : Type} {x : Operands α} (sx : Script x)
    {values : List Value} (h : AllProper values) : AllProper (remaining (x values)) := by
  induction sx generalizing values with
  | pure a => exact h
  | throw f => exact h
  | @bind α β x k _ _ hx hk =>
    have hfirst := hx h
    simp only [Bind.bind, EStateM.bind]
    cases hr : x values with
    | ok a middle =>
      rw [hr] at hfirst
      exact hk a hfirst
    | error f middle =>
      rw [hr] at hfirst
      exact hfirst
  | pop =>
    cases values with
    | nil => exact h
    | cons v values => exact h.of_suffix (List.suffix_cons v values)
  | push v => exact h.push v
  | arithmetic op w a b =>
    cases op.evalBits w a b with
    | ok v => exact h.push _
    | error e => exact h

/-! ### Frames -/

namespace Frame

/-- The types of the locals. -/
def localTypes (f : Frame) : List ValueType := f.locals.toList.map Value.type

/-- Where a frame belongs, and the types of its locals. -/
def shape (f : Frame) : Location × List ValueType := (f.location, f.localTypes)

/-- What can be made of a frame while it is there: its operands stay numbers. -/
structure Settles (f f' : Frame) : Prop where
  values : AllProper f.values → AllProper f'.values
  shape : f'.shape = f.shape

variable {f f' f'' : Frame}

theorem Settles.refl (f : Frame) : f.Settles f := ⟨id, rfl⟩

theorem Settles.trans (h : f.Settles f') (h' : f'.Settles f'') : f.Settles f'' :=
  ⟨h'.values ∘ h.values, h'.shape.trans h.shape⟩

/-- Only values were taken from the operand stack. -/
theorem Settles.of_suffix {values : List Value} (h : values <:+ f.values) :
    f.Settles { f with values } :=
  ⟨fun hf => hf.of_suffix h, rfl⟩

theorem settles_pushAll (f : Frame) (vs : List Value) : f.Settles (f.pushAll vs) := by
  refine ⟨fun hf => ?_, rfl⟩
  show AllProper (vs.foldl _ f.values)
  induction vs generalizing f with
  | nil => exact hf
  | cons v vs ih => exact ih { f with values := _ } (hf.push v)

/-- A local is replaced by a value of its type. -/
theorem settles_setLocal {v old : Value} {i : Nat} (hold : f.locals[i]? = some old)
    (htype : v.type = old.type) :
    f.Settles { f with locals := f.locals.setIfInBounds i v } := by
  refine ⟨id, Prod.ext rfl ?_⟩
  simp only [shape, localTypes, Array.toList_setIfInBounds]
  refine List.ext_getElem? fun j => ?_
  simp only [List.getElem?_map, Array.getElem?_toList, List.getElem?_set]
  by_cases hj : i = j
  · subst hj
    obtain ⟨hi, rfl⟩ := Array.getElem?_eq_some_iff.1 hold
    simp [hi, htype]
  · simp [hj]

end Frame

/-! ### Instructions -/

theorem settles_operands {α : Type} {x : Operands α} (sx : Operands.Script x) (f : Focus) :
    f.frame.Settles (finalFocus (Exec.operands x f)).frame := by
  have hproper (hf : AllProper f.frame.values) := sx.allProper hf
  simp only [Exec.operands]
  cases hr : x f.frame.values with
  | ok a values =>
    rw [hr] at hproper
    exact ⟨hproper, rfl⟩
  | error e values =>
    rw [hr] at hproper
    exact ⟨hproper, rfl⟩

/-- A local gets a value that was checked against the type of the one before. -/
theorem settles_execSetLocal (index : UInt32) (f : Focus) :
    f.frame.Settles (finalFocus (Exec.setLocal index f)).frame := by
  simp only [Exec.setLocal, Bind.bind, EStateM.bind, Exec.getLocal_apply]
  cases hold : f.frame.locals[index.toNat]? with
  | none => exact .refl _
  | some old =>
    have htaken := settles_operands (.popTyped old.type) f
    simp only [Option.elim_some, Pure.pure, EStateM.pure, Exec.operands] at htaken ⊢
    cases hpop : Operands.popTyped old.type f.frame.values with
    | error e values =>
      rw [hpop] at htaken
      exact htaken
    | ok v values =>
      rw [hpop] at htaken
      exact htaken.trans (Frame.settles_setLocal hold (Operands.popTyped_ok hpop).1)

/-- Instructions keep the types of operands and locals. -/
theorem elementary_settles : Exec.Elementary fun f f' => f.frame.Settles f'.frame where
  refl := fun f => .refl f.frame
  trans := fun _ _ _ => .trans
  operands := settles_operands
  unwind := fun height arity _ => ⟨fun hf => hf.unwind height arity, rfl⟩
  setLocal := settles_execSetLocal
  write := fun _ _ _ _ f => .refl f.frame
  grow := fun _ _ _ f _ _ => .refl f.frame

/-! ### Call stacks -/

namespace CallStack

/-- All values on operand stacks are numbers. -/
def Proper (s : CallStack) : Prop := ∀ f ∈ s.frames, AllProper f.values

/-- The shape of each frame, innermost first. -/
def shapes (s : CallStack) : List (Location × List ValueType) := s.frames.map Frame.shape

/-- What can be made of a call stack while no frame is entered: operands stay numbers, and the
frames that are left are the outer ones. -/
structure Settles (s s' : CallStack) : Prop where
  proper : s.Proper → s'.Proper
  shapes : s'.shapes <:+ s.shapes

variable {s s' s'' : CallStack}

theorem Settles.refl (s : CallStack) : s.Settles s := ⟨id, List.suffix_rfl⟩

theorem Settles.trans (h : s.Settles s') (h' : s'.Settles s'') : s.Settles s'' :=
  ⟨h'.proper ∘ h.proper, h'.shapes.trans h.shapes⟩

theorem shapes_of_current (hc : s.current.Settles s'.current) (hb : s'.below = s.below) :
    s'.shapes = s.shapes := by
  simp only [shapes, frames, List.map_cons, hc.shape, hb]

/-- Only the current frame differs. -/
theorem settles_of_current (hc : s.current.Settles s'.current) (hb : s'.below = s.below) :
    s.Settles s' where
  proper := by
    intro hs f hf
    rcases List.mem_cons.1 hf with rfl | hf
    · exact hc.values (hs s.current (List.mem_cons_self ..))
    · exact hs f (List.mem_cons_of_mem _ (hb ▸ hf))
  shapes := shapes_of_current hc hb ▸ List.suffix_rfl

theorem settles_values {values : List Value} (h : values <:+ s.current.values) :
    s.Settles (s.modifyCurrent fun f => { f with values }) :=
  settles_of_current (.of_suffix h) rfl

theorem settles_pushAll (s : CallStack) (vs : List Value) :
    s.Settles (s.modifyCurrent (·.pushAll vs)) :=
  settles_of_current (s.current.settles_pushAll vs) rfl

theorem settles_leave? (h : s.leave? = some s') : s.Settles s' := by
  obtain ⟨f, below, depth, hd⟩ := s
  cases below with
  | nil => cases h
  | cons g below =>
    cases h
    exact ⟨fun hs f' hf' => hs f' (List.mem_cons_of_mem f hf'), List.suffix_cons _ _⟩

/-- What can be made of a call stack at once: operands stay numbers, and frames are only entered or
only left. -/
structure Moves (s s' : CallStack) : Prop where
  proper : s.Proper → s'.Proper
  shapes : s'.shapes <:+ s.shapes ∨ s.shapes <:+ s'.shapes

theorem Settles.moves (h : s.Settles s') : s.Moves s' := ⟨h.proper, .inl h.shapes⟩

/-- A frame without operands is entered. -/
theorem moves_enter {f : Frame} (hc : s.current.Settles s'.current) (hb : s'.below = s.below)
    (hf : f.values = []) : s.Moves (s'.enter f) where
  proper := by
    intro hs g hg
    rcases List.mem_cons.1 hg with rfl | hg
    · intro v hv
      rw [hf] at hv
      cases hv
    · exact (settles_of_current hc hb).proper hs g hg
  shapes := by
    rw [← shapes_of_current hc hb]
    exact .inr (List.suffix_cons _ _)

/-- The frame over `height` others. -/
def frameAt? (s : CallStack) (height : Nat) : Option Frame := s.frames.reverse[height]?

theorem shape_frameAt? (s : CallStack) (height : Nat) :
    (s.frameAt? height).map Frame.shape = s.shapes.reverse[height]? := by
  rw [frameAt?, shapes, ← List.map_reverse, List.getElem?_map]

theorem length_shapes (s : CallStack) : s.shapes.length = s.depth := by
  rw [shapes, List.length_map, frames, List.length_cons, s.depth_eq]

/-- Counted from its end, a list has the entries of its ends. -/
theorem getElem?_reverse_of_suffix {α : Type} {xs ys : List α} (h : xs <:+ ys) {i : Nat}
    (hi : i < xs.length) : ys.reverse[i]? = xs.reverse[i]? := by
  obtain ⟨more, rfl⟩ := h
  rw [List.reverse_append]
  exact List.getElem?_append_left (by rwa [List.length_reverse])

/-- A frame that is there before and after keeps its shape. -/
theorem Moves.shape_frameAt? (h : s.Moves s') {height : Nat} (hs : height < s.depth)
    (hs' : height < s'.depth) :
    (s'.frameAt? height).map Frame.shape = (s.frameAt? height).map Frame.shape := by
  rw [CallStack.shape_frameAt?, CallStack.shape_frameAt?]
  rcases h.shapes with hleft | hentered
  · exact (getElem?_reverse_of_suffix hleft (by rwa [length_shapes])).symm
  · exact getElem?_reverse_of_suffix hentered (by rwa [length_shapes])

end CallStack

/-! ### Steps -/

namespace Config

variable {c : Config}

theorem settles_leave (c : Config) : c.stack.Settles c.leave.stack := by
  unfold leave
  split
  · rename_i s hs
    exact CallStack.settles_leave? hs
  · exact .refl _

theorem settles_leaveWith (c : Config) (finish : Finish) :
    c.stack.Settles (c.leaveWith finish).stack := by
  unfold leaveWith
  split
  · exact c.settles_leave
  · exact .refl _

/-- Values were taken from the operand stack, and then the frame is left. -/
theorem settles_end {c₁ : Config} {values : List Value} (h : values <:+ c.stack.current.values)
    (hs : c₁.stack = (c.withValues values).stack) : c.stack.Settles c₁.leave.stack := by
  have hleave := c₁.settles_leave
  rw [hs] at hleave
  exact (CallStack.settles_values h).trans hleave

theorem settles_finishBody (c : Config) (finish : Finish) :
    c.stack.Settles (c.finishBody finish).stack := by
  cases finish with
  | results types =>
    simp only [finishBody]
    split
    · rename_i e values hpop
      exact settles_end (Operands.popValues_error hpop) rfl
    · rename_i results values hpop
      have hrest : values <:+ c.stack.current.values :=
        ⟨results.reverse, (Operands.popValues_ok hpop).2.symm⟩
      split
      · exact settles_end hrest rfl
      · exact settles_end hrest rfl
  | single =>
    simp only [finishBody]
    split
    · rename_i e values hpop
      exact settles_end (Operands.pop_error hpop) rfl
    · rename_i v values hpop
      have hrest : values <:+ c.stack.current.values := ⟨[v], (Operands.pop_ok hpop).symm⟩
      split
      · exact settles_end hrest rfl
      · exact settles_end hrest rfl
  | arguments rest f => cases rest <;> exact .refl _
  | stop => exact .refl _

theorem settles_callFrom (c : Config) (b : Body) (finish : Finish) (index : UInt32) :
    c.stack.Settles (c.callFrom b finish index).stack := by
  unfold callFrom
  split
  · exact .refl _
  · exact settles_leaveWith (c.raise _) finish

theorem settles_stepBody (c : Config) (b : Body) (finish : Finish) :
    c.stack.Settles (c.stepBody b finish).stack := by
  cases hi : b.code[b.position]? with
  | none =>
    rw [stepBody_of_none hi]
    exact c.settles_finishBody finish
  | some i =>
    have hx := elementary_settles.script (b.script i) c.setting.focus
    rw [stepBody_of_some hi]
    unfold Setting.perform
    cases hr : b.step i c.setting.focus with
    | error stop f =>
      rw [hr] at hx
      have hs : c.stack.Settles (c.setting.refocus f).stack :=
        CallStack.settles_of_current hx rfl
      cases stop with
      | fault e => exact hs.trans (settles_leaveWith (raise ((c.setting.refocus f).config _ _) e) _)
      | defect d => exact hs
    | ok move f =>
      rw [hr] at hx
      have hs : c.stack.Settles (c.setting.refocus f).stack :=
        CallStack.settles_of_current hx rfl
      cases move with
      | proceed b' => exact hs
      | leave => exact hs.trans (settles_finishBody ((c.setting.refocus f).config _ _) finish)
      | call index =>
        exact hs.trans (settles_callFrom ((c.setting.refocus f).config _ _) b finish index)

theorem settles_stepHost (c : Config) (type : FunctionType) (p : HostProgram) :
    c.stack.Settles (c.stepHost type p).stack := by
  cases p with
  | done results =>
    simp only [stepHost]
    split <;> exact .refl _
  | fail failure => cases failure <;> exact .refl _
  | push v next => exact c.stack.settles_pushAll _
  | print text next =>
    simp only [stepHost]
    split <;> exact .refl _
  | callerModule next => exact .refl _
  | callerMemory next => exact .refl _
  | invoke f next => exact .refl _
  | report e next => exact .refl _

theorem settles_stepAnswer (c : Config) (r : Except Trap (List Value)) (w : Waiting)
    (rest : List Waiting) : c.stack.Settles (c.stepAnswer r w rest).stack := by
  cases w with
  | frame => exact settles_leave { c with waiting := rest }
  | host type next => exact .refl _
  | body b finish =>
    cases r with
    | ok results => exact c.stack.settles_pushAll _
    | error t => exact settles_leaveWith { c with waiting := rest } finish

/-- A frame without operands is entered, or not because of the ceiling. -/
theorem moves_enter {c₁ : Config} {f : Frame} (hc : c.stack.current.Settles c₁.stack.current)
    (hb : c₁.stack.below = c.stack.below) (hf : f.values = []) (b : Body) (finish : Finish) :
    c.stack.Moves (c₁.enter f b finish).stack := by
  unfold enter
  split
  · exact (CallStack.settles_of_current hc hb).moves
  · exact CallStack.moves_enter hc hb hf

/-- A call takes its parameters and is refused or started. -/
theorem moves_stepInvoke (c : Config) (f : FunctionAddr) :
    c.stack.Moves (c.stepInvoke f).stack := by
  unfold stepInvoke
  split
  · exact (CallStack.Settles.refl _).moves
  · rename_i fn hf
    split
    · rename_i e values hpop
      exact (CallStack.settles_values (Operands.popValues_error hpop)).moves
    · rename_i params values hpop
      have hrest : values <:+ c.stack.current.values :=
        ⟨params.reverse, (Operands.popValues_ok hpop).2.symm⟩
      dsimp only
      split
      · exact (CallStack.settles_values hrest).moves
      · refine moves_enter ?_ ?_ ?_ _ _
        · exact .of_suffix hrest
        · rfl
        · rfl

/-- **No step breaks the types of operands and locals.** -/
theorem step_moves (c : Config) : c.stack.Moves c.step.stack := by
  cases hnow : c.now with
  | body b finish =>
    simp only [step, hnow]
    exact (c.settles_stepBody b finish).moves
  | invoke f =>
    simp only [step, hnow]
    exact c.moves_stepInvoke f
  | host type p =>
    simp only [step, hnow]
    exact (c.settles_stepHost type p).moves
  | answer r =>
    cases hw : c.waiting with
    | nil =>
      simp only [step, hnow, hw]
      exact (CallStack.Settles.refl _).moves
    | cons w rest =>
      simp only [step, hnow, hw]
      exact (c.settles_stepAnswer r w rest).moves
  | broken d =>
    simp only [step, hnow]
    exact (CallStack.Settles.refl _).moves

end Config

end Machine

end WasmCore
