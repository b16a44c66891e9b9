import WasmCore.Engine
import WasmCore.Proofs.Machine.LoadStore
import WasmCore.Proofs.Machine.Operands
import WasmCore.Proofs.Store.Integrity

/-!
# Arguments of calls

A function that is called by its export gets its arguments as constant expressions, which are
evaluated in a frame of their own, and takes its parameters from there. If the arguments have the
types of the parameters, the function starts with exactly these values; if one of them has another
type or is missing, the call traps before anything is entered (`Engine.call_binds_arguments`).

A placeholder leaves nothing on the stack, so that what was left can be too little, but never
something else than the arguments (`Operands.popValues_arguments`).
-/

namespace WasmCore

open Machine

theorem Value.ofNumBits_bits {v : Value} {type : NumType} (h : v.type = .num type) :
    ofNumBits type v.bits = v := by
  cases v <;> cases h <;> simp [ofNumBits, bits]

theorem Value.expression_of_type {v : Value} {type : NumType} (h : v.type = .num type) :
    v.expression = #[.const type v.bits] := by
  simp only [expression, h]

theorem Value.exists_type_of_ne_nil {v : Value} (h : v ≠ .nil) : ∃ type, v.type = .num type := by
  cases v with
  | nil => exact absurd rfl h
  | _ => exact ⟨_, rfl⟩

namespace Machine

/-! ### Parameters -/

/-- What arguments leave on an operand stack, top first. -/
def argumentStack (arguments : List Value) : List Value :=
  (arguments.filter fun v => !v.isNil).reverse

theorem argumentStack_of_ne_nil {arguments : List Value} (h : ∀ v ∈ arguments, v ≠ .nil) :
    argumentStack arguments = arguments.reverse := by
  refine congrArg List.reverse (List.filter_eq_self.2 fun v hv => ?_)
  obtain ⟨type, htype⟩ := Value.exists_type_of_ne_nil (h v hv)
  rw [Value.isNil_of_type htype]
  rfl

namespace Operands

variable {types : List ValueType} {arguments taken rest : List Value}

/-- Values of the right types can be taken. -/
theorem popValues_apply (h : arguments.map Value.type = types) (hnil : ∀ v ∈ arguments, v ≠ .nil)
    (rest : List Value) : popValues types (arguments.reverse ++ rest) = .ok arguments rest := by
  induction arguments generalizing types rest with
  | nil =>
    cases h
    rfl
  | cons v arguments ih =>
    cases h
    obtain ⟨type, htype⟩ := Value.exists_type_of_ne_nil (hnil v (List.mem_cons_self ..))
    have hothers := ih rfl (fun u hu => hnil u (List.mem_cons_of_mem v hu)) (v :: rest)
    rw [List.map_cons, popValues_cons, List.reverse_cons, List.append_assoc]
    refine (bind_of_ok hothers _).trans ?_
    rw [htype]
    exact bind_of_ok (popTyped_apply htype rest) _

/-- If as many values as there are arguments can be taken from what these have left, they are the
arguments. -/
theorem popValues_arguments (hlength : arguments.length = types.length)
    (h : popValues types (argumentStack arguments) = .ok taken rest) :
    (∀ v ∈ arguments, v ≠ .nil) ∧ arguments.map Value.type = types := by
  obtain ⟨htypes, hstack⟩ := popValues_ok h
  have htaken : taken.length = arguments.length := by
    rw [hlength, ← htypes, List.length_map]
  -- a placeholder would be missing from the stack
  have hcount := congrArg List.length hstack
  rw [argumentStack, List.length_reverse, List.length_append, List.length_reverse, htaken] at hcount
  have hle := List.length_filter_le (fun v : Value => !v.isNil) arguments
  have hnil : ∀ v ∈ arguments, v ≠ .nil := by
    rintro v hv rfl
    have hkept := List.length_filter_eq_length_iff.1
      (show (arguments.filter fun v => !v.isNil).length = arguments.length by omega) .nil hv
    cases hkept
  rw [argumentStack_of_ne_nil hnil, ← List.append_nil arguments.reverse] at hstack
  have hsame := (List.append_inj hstack (by simp only [List.length_reverse, htaken])).1
  cases List.reverse_inj.1 hsame
  exact ⟨hnil, htypes⟩

/-- As many arguments as there are types have the types one by one. -/
theorem forall_mem_zip_iff {arguments : List Value} {types : List ValueType}
    (hlength : arguments.length = types.length) :
    (∀ x ∈ arguments.zip types, x.1 ≠ .nil ∧ x.1.type = x.2) ↔
      (∀ v ∈ arguments, v ≠ .nil) ∧ arguments.map Value.type = types := by
  induction arguments generalizing types with
  | nil =>
    obtain rfl := List.length_eq_zero_iff.1 hlength.symm
    simp
  | cons v arguments ih =>
    cases types with
    | nil => cases hlength
    | cons type types =>
      simp only [List.zip_cons_cons, List.forall_mem_cons, ih (Nat.succ.inj hlength),
        List.map_cons, List.cons.injEq]
      tauto

end Operands

/-! ### Evaluation of arguments -/

namespace Config

variable {w : World} {c c' : Config} {P : Config → Prop}

/-- Up to here no function has been entered and nothing has changed in the world but that events may
have been reported. -/
structure Preparing (w : World) (c : Config) : Prop where
  store : c.world.store = w.store
  console : c.world.console = w.console
  outside : ∀ l ∈ c.stack.trace, l.function = none
  guest : ∀ type p, c.now ≠ .host type p

/-- Some steps lead from one machine to another, and all machines from the one to the other satisfy
`P`. -/
def Through (P : Config → Prop) (c c' : Config) : Prop :=
  ∃ n, c.run n = c' ∧ ∀ k ≤ n, P (c.run k)

theorem Through.refl (h : P c) : Through P c c := by
  refine ⟨0, rfl, fun k hk => ?_⟩
  obtain rfl := Nat.le_zero.1 hk
  exact h

theorem Through.head (h : P c) (hstep : Through P c.step c') : Through P c c' := by
  obtain ⟨n, hn, hP⟩ := hstep
  refine ⟨n + 1, (run_succ c n).trans hn, fun k hk => ?_⟩
  cases k with
  | zero => exact h
  | succ k =>
    rw [run_succ]
    exact hP k (Nat.le_of_succ_le_succ hk)

theorem Through.trans {c'' : Config} (h : Through P c c') (h' : Through P c' c'') :
    Through P c c'' := by
  obtain ⟨m, rfl, hm⟩ := h
  obtain ⟨n, rfl, hn⟩ := h'
  refine ⟨m + n, run_add c m n, fun k hk => ?_⟩
  rcases Nat.le_total k m with hle | hle
  · exact hm k hle
  · obtain ⟨j, rfl⟩ := Nat.exists_eq_add_of_le hle
    rw [run_add]
    exact hn j (by omega)

/-- If the last machine has halted, there are no others. -/
theorem Through.of_isHalted (h : Through P c c') (hhalted : c'.isHalted = true) :
    (∀ k, P (c.run k)) ∧ ∃ n, ∀ k, n ≤ k → c.run k = c' := by
  obtain ⟨n, rfl, hn⟩ := h
  refine ⟨fun k => ?_, n, fun k hk => run_eq_of_le hhalted hk⟩
  rcases Nat.le_total k n with hle | hle
  · exact hn k hle
  · rw [run_eq_of_le hhalted hle]
    exact hn n (Nat.le_refl n)

end Config

namespace Thread

variable (t : Thread) (w : World) (a : ModuleAddr) (f : FunctionAddr)

/-- The stack of a thread with the frame in which arguments are evaluated. -/
def argumentFrames (arguments : List Value) : CallStack :=
  t.stack.enter { location := ⟨a, none⟩, values := argumentStack arguments }

/-- The machine that has evaluated some arguments and not yet the others. -/
def arguing (b : Body) (done left : List Value) : Config where
  world := w
  stack := t.argumentFrames a done
  ceiling := t.ceiling
  now := .body b (.arguments (left.map Value.expression) f)

/-- The machine that has evaluated all arguments and calls the function. -/
def calling (arguments : List Value) : Config where
  world := w
  stack := t.argumentFrames a arguments
  ceiling := t.ceiling
  now := .invoke f
  waiting := [.frame]

variable {t w a f} {b : Body} {done left : List Value}

theorem callConfig_eq (hroom : t.stack.depth < t.ceiling) (arguments : List Value) :
    t.callConfig w a f (arguments.map Value.expression) =
      t.arguing w a f { code := #[] } [] arguments := by
  have hfull : ¬ (t.config w (.answer (.ok []))).ceiling ≤
      (t.config w (.answer (.ok []))).stack.depth := Nat.not_le.2 hroom
  unfold callConfig Config.enter
  rw [if_neg hfull]
  rfl

theorem outside_argumentFrames (h : ∀ l ∈ t.stack.trace, l.function = none)
    (arguments : List Value) : ∀ l ∈ (t.argumentFrames a arguments).trace, l.function = none := by
  intro l hl
  rcases List.mem_cons.1 hl with rfl | hl
  · rfl
  · exact h l hl

theorem arguing_preparing (h : ∀ l ∈ t.stack.trace, l.function = none) :
    (t.arguing w a f b done left).Preparing w :=
  ⟨rfl, rfl, outside_argumentFrames h done, nofun⟩

theorem calling_preparing (h : ∀ l ∈ t.stack.trace, l.function = none) (arguments : List Value) :
    (t.calling w a f arguments).Preparing w :=
  ⟨rfl, rfl, outside_argumentFrames h arguments, nofun⟩

theorem arguing_nil_step (hb : b.code[b.position]? = none) :
    (t.arguing w a f b done []).step = t.calling w a f done := by
  simp only [arguing, Config.step, Config.stepBody_of_none hb]
  rfl

theorem arguing_cons_step (hb : b.code[b.position]? = none) (v : Value) :
    (t.arguing w a f b done (v :: left)).step =
      t.arguing w a f { code := v.expression } done left := by
  simp only [arguing, Config.step, Config.stepBody_of_none hb]
  rfl

theorem argumentStack_concat {v : Value} {type : NumType} (h : v.type = .num type) :
    argumentStack (done ++ [v]) = v :: argumentStack done := by
  simp [argumentStack, Value.isNil_of_type h]

theorem arguing_push_step {v : Value} {type : NumType} (h : v.type = .num type) :
    (t.arguing w a f { code := v.expression } done left).step =
      t.arguing w a f { code := v.expression, position := 1 } (done ++ [v]) left := by
  let b : Body := { code := v.expression }
  have hcode : b.code[b.position]? = some (.const type v.bits) := by
    simp only [b, Value.expression_of_type h]
    rfl
  have hbody : b.step (.const type v.bits) =
      Exec.operands (.push (.ofNumBits type v.bits)) >>= fun _ => pure (.proceed b.next) := rfl
  have hpush := Operands.push_apply (Value.type_ofNumBits type v.bits) (argumentStack done)
  rw [Value.ofNumBits_bits h] at hpush hbody
  rw [← argumentStack_concat h] at hpush
  refine (Config.stepBody_of_some hcode _).trans ?_
  rw [Setting.perform, hbody, Exec.bind_of_ok (Exec.operands_of_ok hpush)]
  rfl

/-- All arguments are evaluated, one after the other, and then the function is called. -/
theorem arguing_through (h : ∀ l ∈ t.stack.trace, l.function = none)
    (hb : b.code[b.position]? = none) :
    Config.Through (Config.Preparing w) (t.arguing w a f b done left)
      (t.calling w a f (done ++ left)) := by
  induction left generalizing b done with
  | nil =>
    refine .head (arguing_preparing h) ?_
    rw [arguing_nil_step hb, List.append_nil]
    exact .refl (calling_preparing h done)
  | cons v left ih =>
    refine .head (arguing_preparing h) ?_
    rw [arguing_cons_step hb, List.append_cons]
    by_cases hv : v = .nil
    · subst hv
      -- the placeholder has no code, so that the next argument follows at once
      have hsame : t.arguing w a f { code := Value.nil.expression } done left =
          t.arguing w a f { code := Value.nil.expression } (done ++ [.nil]) left := by
        simp [arguing, argumentFrames, argumentStack, Value.isNil]
      rw [hsame]
      exact ih rfl
    · obtain ⟨type, htype⟩ := Value.exists_type_of_ne_nil hv
      refine .head (arguing_preparing h) ?_
      rw [arguing_push_step htype]
      exact ih (by rw [Value.expression_of_type htype]; rfl)

/-! ### The call itself -/

section

variable {fn : FunctionInstance} {arguments : List Value}

theorem calling_step_of_ok (hfn : w.store.function? f = some fn)
    (htypes : arguments.map Value.type = fn.type.params) (hnil : ∀ v ∈ arguments, v ≠ .nil)
    (hroom : t.stack.depth + 1 < t.ceiling) :
    (t.calling w a f arguments).step.world = w ∧
    match fn.body with
    | .defined owner _ code =>
      (t.calling w a f arguments).step.now =
        .body { code := code.body, arity := some fn.type.results.length }
          (.results fn.type.results) ∧
      (t.calling w a f arguments).step.stack.current =
        { location := ⟨owner, some f⟩
          locals := (arguments ++ code.locals.map Value.zero).toArray }
    | .host run => (t.calling w a f arguments).step.now = .host fn.type (run arguments) := by
  have hpop : Operands.popValues fn.type.params (argumentStack arguments) = .ok arguments [] := by
    rw [argumentStack_of_ne_nil hnil, ← List.append_nil arguments.reverse]
    exact Operands.popValues_apply htypes hnil []
  cases hbody : fn.body with
  | defined owner position code =>
    have hstep : (t.calling w a f arguments).step =
        ((t.calling w a f arguments).withValues []).enter
          { location := ⟨owner, some f⟩, locals := Config.initialLocals arguments code.locals }
          { code := code.body, arity := some fn.type.results.length }
          (.results fn.type.results) := by
      show (t.calling w a f arguments).stepInvoke f = _
      simp only [Config.stepInvoke, calling, hfn, argumentFrames, CallStack.enter, hpop, hbody]
    have hfull : ¬ ((t.calling w a f arguments).withValues []).ceiling ≤
        ((t.calling w a f arguments).withValues []).stack.depth := Nat.not_le.2 hroom
    rw [hstep, Config.enter, if_neg hfull]
    exact ⟨rfl, rfl, rfl⟩
  | host run =>
    have hstep : (t.calling w a f arguments).step =
        { (t.calling w a f arguments).withValues [] with
          now := .host fn.type (run arguments) } := by
      show (t.calling w a f arguments).stepInvoke f = _
      simp only [Config.stepInvoke, calling, hfn, argumentFrames, CallStack.enter, hpop, hbody]
    rw [hstep]
    exact ⟨rfl, rfl⟩

/-- The call traps, and nothing has been entered by then. -/
theorem calling_through_trap (h : ∀ l ∈ t.stack.trace, l.function = none)
    (hfn : w.store.function? f = some fn) {e : Fault} {rest : List Value}
    (hpop : Operands.popValues fn.type.params (argumentStack arguments) = .error e rest) :
    ∃ c tr, Config.Through (Config.Preparing w) (t.calling w a f arguments) c ∧
      c.isHalted = true ∧ c.outcome = .trap tr ∧ tr.cause = e := by
  let c := ((t.calling w a f arguments).withValues rest).raise e
  have hstep : (t.calling w a f arguments).step = c := by
    show (t.calling w a f arguments).stepInvoke f = _
    simp only [Config.stepInvoke, calling, hfn, argumentFrames, CallStack.enter, hpop]
    rfl
  have hraised : c.Preparing w := by
    refine ⟨rfl, rfl, outside_argumentFrames h arguments, fun type p hnow => ?_⟩
    cases hnow
  have hleft : c.step.Preparing w := by
    refine ⟨rfl, rfl, h, fun type p hnow => ?_⟩
    cases hnow
  refine ⟨c.step, ⟨e, c.stack.trace⟩, ?_, rfl, rfl, rfl⟩
  refine .head (calling_preparing h arguments) ?_
  rw [hstep]
  exact .head hraised (.refl hleft)

end

end Thread

end Machine

/-! ### Exported functions -/

namespace Engine

/-- The machine that calls an exported function. -/
def callConfig (e : Engine) (a : ModuleAddr) (f : FunctionAddr) (params : List Value) : Config :=
  (Thread.new a e.ceiling).callConfig e.world a f (params.map Value.expression)

variable {e : Engine} {a : ModuleAddr} {name : String} {f : FunctionAddr}

/-- What a call of an exported function leaves and ends with is what the run of its machine does. -/
theorem call_eq {fn : FunctionInstance} {params : List Value} (hf : e.store.function? f = some fn)
    (hparams : params.length = fn.type.params.length) (fuel : Nat) :
    e.call fuel a f params = ({ e with world := ((e.callConfig a f params).run fuel).world },
      .ran ((e.callConfig a f params).run fuel).outcome) := by
  simp only [call, hf, hparams]
  rfl

/-- What is exported by a reachable store is there. -/
theorem function?_of_exportedFunction? (h : e.store.Reachable)
    (hf : e.exportedFunction? a name = some f) : ∃ fn, e.store.function? f = some fn := by
  obtain ⟨m, hm, hf⟩ := Option.bind_eq_some_iff.1 hf
  obtain ⟨x, hx, hf⟩ := Option.bind_eq_some_iff.1 hf
  have hrefers := Store.refers_of_resolve (Store.resolve_eq_ok_iff.2 ⟨m, hm, hx⟩)
  have hdenotes := h.sound.closed _ hrefers
  cases htarget : x.target with
  | function g =>
    rw [htarget] at hf hdenotes
    cases hf
    exact ⟨_, Array.getElem?_eq_getElem hdenotes⟩
  | memory b =>
    rw [htarget] at hf
    cases hf

/-- **Arguments are passed faithfully.** The call of an exported function of a reachable store
evaluates its arguments first. If they have the types of the parameters, a function of a module
starts with exactly these values in its locals, before zeros for the locals it declares, and with an
empty operand stack, and a function of the host gets exactly these values. If an argument is missing
or has another type, the call traps; no function is entered, no memory changes, and the host does
not run. -/
theorem call_binds_arguments (h : e.store.Reachable) (hf : e.exportedFunction? a name = some f)
    (hceiling : 3 ≤ (Thread.new a e.ceiling).ceiling) :
    ∃ fn, e.store.function? f = some fn ∧ ∀ arguments : List Value,
      arguments.length = fn.type.params.length →
      let c := (Thread.new a e.ceiling).callConfig e.world a f (arguments.map Value.expression)
      (∀ fuel, e.call fuel a f arguments =
        ({ e with world := (c.run fuel).world }, .ran (c.run fuel).outcome)) ∧
      ((∀ x ∈ arguments.zip fn.type.params, x.1 ≠ .nil ∧ x.1.type = x.2) →
        ∃ n, (∀ k < n, (c.run k).Preparing e.world) ∧ (c.run n).world = e.world ∧
          match fn.body with
          | .defined owner _ code =>
            (c.run n).now = .body { code := code.body, arity := some fn.type.results.length }
              (.results fn.type.results) ∧
            (c.run n).stack.current =
              { location := ⟨owner, some f⟩
                locals := (arguments ++ code.locals.map Value.zero).toArray }
          | .host run => (c.run n).now = .host fn.type (run arguments)) ∧
      ((∃ x ∈ arguments.zip fn.type.params, x.1 = .nil ∨ x.1.type ≠ x.2) →
        (∀ n, (c.run n).Preparing e.world) ∧
        ∃ n t, t.cause.OfOperand ∧ ∀ fuel, n ≤ fuel → (c.run fuel).outcome = .trap t) := by
  obtain ⟨fn, hfn⟩ := function?_of_exportedFunction? h hf
  refine ⟨fn, hfn, fun arguments hlength => ?_⟩
  have houtside : ∀ l ∈ (Thread.new a e.ceiling).stack.trace, l.function = none := by
    intro l hl
    cases List.mem_singleton.1 hl
    rfl
  have hdepth : (Thread.new a e.ceiling).stack.depth = 1 := rfl
  have hthrough : Config.Through (Config.Preparing e.world)
      ((Thread.new a e.ceiling).callConfig e.world a f (arguments.map Value.expression))
      ((Thread.new a e.ceiling).calling e.world a f arguments) := by
    rw [Thread.callConfig_eq (by omega)]
    exact Thread.arguing_through houtside rfl
  refine ⟨call_eq hfn hlength, fun htyped => ?_, fun hwrong => ?_⟩
  · obtain ⟨hnil, htypes⟩ := (Operands.forall_mem_zip_iff hlength).1 htyped
    obtain ⟨hworld, hbound⟩ := Thread.calling_step_of_ok (t := Thread.new a e.ceiling) (a := a)
      hfn htypes hnil (by omega)
    obtain ⟨n, hn, hprepares⟩ := hthrough
    refine ⟨n + 1, fun k hk => hprepares k (Nat.le_of_lt_succ hk), ?_⟩
    rw [Config.run_succ_last, hn]
    exact ⟨hworld, hbound⟩
  · have hfails : ∃ fault rest, Operands.popValues fn.type.params (argumentStack arguments) =
        .error fault rest := by
      cases hpop : Operands.popValues fn.type.params (argumentStack arguments) with
      | error fault rest => exact ⟨fault, rest, rfl⟩
      | ok taken rest =>
        have hall := (Operands.forall_mem_zip_iff hlength).2
          (Operands.popValues_arguments hlength hpop)
        obtain ⟨x, hx, hx'⟩ := hwrong
        have hfits := hall x hx
        tauto
    obtain ⟨fault, rest, hpop⟩ := hfails
    obtain ⟨c, tr, htraps, hhalted, houtcome, rfl⟩ :=
      Thread.calling_through_trap (t := Thread.new a e.ceiling) (a := a) houtside hfn hpop
    obtain ⟨hprepares, n, hn⟩ := (hthrough.trans htraps).of_isHalted hhalted
    refine ⟨hprepares, n, tr, Operands.popValues_fault hpop, fun fuel hfuel => ?_⟩
    rw [hn fuel hfuel, houtcome]

/-- A module with a function of two parameters and one local. -/
def binding : Module where
  types := [⟨[.i32, .f64], []⟩]
  functions := [0]
  codes := [⟨[.i64], #[]⟩]
  exports := [⟨"run", .function, 0⟩]

/-- An engine with this module. -/
def bound : Engine where
  world := { store := ((Store.new 1).instantiate "guest" binding).store }
  ceiling := 3

theorem call_binds_arguments_two :
    bound.store.Reachable ∧ bound.exportedFunction? ⟨0⟩ "run" = some ⟨0⟩ ∧
    (∃ n, (((Thread.new ⟨0⟩ 3).callConfig bound.world ⟨0⟩ ⟨0⟩
        [#[.const .i32 7], #[.const .f64 0x7ff4000000000001]]).run n).stack.current =
      { location := ⟨⟨0⟩, some ⟨0⟩⟩, locals := #[.i32 7, .f64 0x7ff4000000000001, .i64 0] }) ∧
    ∃ n t, t.cause.OfOperand ∧
      ∀ fuel, n ≤ fuel → (bound.call fuel ⟨0⟩ ⟨0⟩ [.nil, .i32 7]).2 = .ran (.trap t) := by
  have hreachable : bound.store.Reachable := ⟨1, .single (.instantiate _ "guest" binding)⟩
  have hf : bound.exportedFunction? ⟨0⟩ "run" = some ⟨0⟩ := by with_unfolding_all rfl
  have hfn : bound.store.function? ⟨0⟩ =
      some ⟨⟨[.i32, .f64], []⟩, .defined ⟨0⟩ 0 ⟨[.i64], #[]⟩⟩ := by with_unfolding_all rfl
  obtain ⟨fn, hfn', hcalls⟩ := call_binds_arguments hreachable hf (by decide)
  cases hfn.symm.trans hfn'
  obtain ⟨-, hbinds, -⟩ := hcalls [.i32 7, .f64 0x7ff4000000000001] rfl
  obtain ⟨hran, -, htraps⟩ := hcalls [.nil, .i32 7] rfl
  obtain ⟨n, -, -, -, hcurrent⟩ := hbinds (by simp [Value.type])
  obtain ⟨-, n', t, ht, houtcome⟩ := htraps ⟨(.nil, .i32), by simp, .inl rfl⟩
  refine ⟨hreachable, hf, ⟨n, hcurrent⟩, n', t, ht, fun fuel hfuel => ?_⟩
  rw [hran fuel, houtcome fuel hfuel]

end Engine

end WasmCore
