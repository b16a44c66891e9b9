import WasmCore.Proofs.Structured.Layout
import WasmCore.Proofs.Structured.Semantics

/-!
# Flat and structured execution agree

A machine executes a body by its position in the flat sequence and a stack of labels, which at every
step are the labels of the constructs that enclose the position. `Lands` says where the machine is
when a construct ends with an exit: a branch to depth `n` is at the `n`-th label.

* `Runs.follows`: whatever structured execution does, the machine does too.
* `exists_runs`: if the machine halts, structured execution comes to an end. This is by induction
  on the number of steps: every instruction takes one, and so does every further iteration of a
  loop.
* `Structured.executing_ends_iff`: a machine that executes a flat sequence ends exactly as the
  structured code does.
-/

namespace WasmCore.Machine

namespace Setting

variable {σ σ' : Setting} {α β : Type}

theorem perform_bind (x : Exec α) (f : α → Exec β) :
    σ.perform (x >>= f) =
      match σ.perform x with
      | .ok a σ' => σ'.perform (f a)
      | .error stop σ' => .error stop σ' := by
  simp only [perform, bind, EStateM.bind]
  cases x σ.focus <;> rfl

theorem perform_bind_ok {x : Exec α} {f : α → Exec β} {a : α} (h : σ.perform x = .ok a σ') :
    σ.perform (x >>= f) = σ'.perform (f a) := by
  rw [perform_bind, h]

theorem perform_bind_error {x : Exec α} {f : α → Exec β} {stop : Stop}
    (h : σ.perform x = .error stop σ') : σ.perform (x >>= f) = .error stop σ' := by
  rw [perform_bind, h]

end Setting

namespace Config

/-! ### Ends -/

theorem Ends.exists_halt {c : Config} {o : Outcome} {σ : Setting} (h : c.Ends o σ) :
    ∃ n, (∀ k < n, (c.run k).isHalted = false) ∧ (c.run n).isHalted = true ∧
      (c.run n).outcome = o ∧ (c.run n).setting = σ := by
  obtain ⟨ho, n, rfl, rfl⟩ := h
  obtain ⟨m, hmn, hm, hk⟩ := exists_first_halt (outcome_ne_outOfFuel.1 ho)
  rw [run_eq_of_le hm hmn]
  exact ⟨m, hk, hm, rfl, rfl⟩

theorem ends_of_isHalted {c : Config} {n : Nat} (h : (c.run n).isHalted = true) :
    c.Ends (c.run n).outcome (c.run n).setting :=
  ⟨outcome_ne_outOfFuel.2 h, n, rfl, rfl⟩

/-- A machine comes to one end only. -/
theorem Ends.unique {c : Config} {o o' : Outcome} {σ σ' : Setting} (h : c.Ends o σ)
    (h' : c.Ends o' σ') : o = o' ∧ σ = σ' := by
  obtain ⟨ho, m, rfl, rfl⟩ := h
  obtain ⟨ho', n, rfl, rfl⟩ := h'
  rw [outcome_ne_outOfFuel] at ho ho'
  rcases Nat.le_total m n with hmn | hnm
  · rw [run_eq_of_le ho hmn]
    exact ⟨rfl, rfl⟩
  · rw [run_eq_of_le ho' hnm]
    exact ⟨rfl, rfl⟩

theorem eq_of_outcome_values {c : Config} {results : List Value}
    (h : c.outcome = .values results) : c = c.setting.config (.answer (.ok results)) [] := by
  rcases c with ⟨world, stack, ceiling, now, waiting⟩
  rcases now with _ | _ | _ | (_ | _) | _ <;> cases waiting <;> simp [outcome] at h
  subst h
  rfl

theorem eq_of_outcome_trap {c : Config} {t : Trap} (h : c.outcome = .trap t) :
    c = c.setting.config (.answer (.error t)) [] := by
  rcases c with ⟨world, stack, ceiling, now, waiting⟩
  rcases now with _ | _ | _ | (_ | _) | _ <;> cases waiting <;> simp [outcome] at h
  subst h
  rfl

theorem now_of_outcome_broken {c : Config} {d : Defect} (h : c.outcome = .broken d) :
    c.now = .broken d := by
  rcases c with ⟨world, stack, ceiling, now, waiting⟩
  rcases now with _ | _ | _ | (_ | _) | _ <;> cases waiting <;> simp_all [outcome]

/-- The end of a body does not depend on what the machine did before. -/
theorem finishBody_config (σ : Setting) (now now' : Now) (waiting : List Waiting)
    (finish : Finish) :
    (σ.config now waiting).finishBody finish = (σ.config now' waiting).finishBody finish := by
  cases finish with
  | results types =>
    simp only [finishBody, Setting.config]
    split
    · rfl
    · split <;> rfl
  | single =>
    simp only [finishBody, Setting.config]
    split
    · rfl
    · split <;> rfl
  | arguments rest f => cases rest <;> rfl
  | stop => rfl

end Config

/-! ### Bodies in execution -/

/-- What stays the same while a body is executed. -/
structure Context where
  code : Array Instruction
  arity : Option Nat
  finish : Finish
  waiting : List Waiting

namespace Context

variable (K : Context)

/-- The body at a position inside of constructs with these labels. -/
def body (p : Nat) (labels : List Label) : Body := ⟨K.code, p, labels, K.arity⟩

/-- The machine that executes the body from there. -/
def config (p : Nat) (labels : List Label) (σ : Setting) : Config :=
  σ.config (.body (K.body p labels) K.finish) K.waiting

/-- The machine that has left the body. -/
def left (σ : Setting) : Config := (σ.config (.answer (.ok [])) K.waiting).finishBody K.finish

/-- The machine at a position inside of constructs with these labels; it has left the body if that
is before the start. -/
def jumpTo (position : Int) (labels : List Label) (σ : Setting) : Config :=
  if 0 ≤ position then K.config position.toNat labels σ else K.left σ

/-- The machine that has branched to the label at a depth. -/
def branchTo (labels : List Label) (depth : Nat) (σ : Setting) : Config :=
  match labels.drop depth with
  | [] => K.left (σ.unwound 0 K.arity)
  | l :: outer =>
    if l.isLoop then K.config (l.start + 1) (l :: outer) (σ.unwound l.height (some 0))
    else K.jumpTo (l.endAt + 1) outer (σ.unwound l.height (some l.arity))

/-- The machine is where an exit leads, inside of constructs with these labels: at position `q` if
all of the code was executed. -/
def Lands (q : Nat) (labels : List Label) (σ : Setting) (c : Config) : Exit → Prop
  | .next => c = K.config q labels σ
  | .branch depth => c = K.branchTo labels depth σ
  | .ret => c = K.left (σ.unwound 0 K.arity)
  | .trap t => c = (σ.config (.answer (.error t)) K.waiting).leaveWith K.finish
  | .broken d => c.now = .broken d ∧ c.setting = σ

variable {K} {p q : Nat} {labels : List Label} {σ σ' : Setting} {i : Instruction} {e : Exit}

/-- Only code that was executed to its end leads to its end. -/
theorem Lands.of_ne_next {c : Config} (h : K.Lands p labels σ c e) (he : e ≠ .next) (q : Nat) :
    K.Lands q labels σ c e := by
  cases e with
  | next => exact absurd rfl he
  | branch depth => exact h
  | ret => exact h
  | trap t => exact h
  | broken d => exact h

/-! ### Single steps -/

theorem step_config (hi : K.code[p]? = some i) :
    (K.config p labels σ).step =
      (K.config p labels σ).resume (K.body p labels) K.finish
        (σ.perform ((K.body p labels).step i)) :=
  Config.stepBody_of_some (c := K.config p labels σ) (b := K.body p labels) hi K.finish

theorem resume_proceed {c : Config} (hw : c.waiting = K.waiting) (b : Body) :
    c.resume b K.finish (.ok (.proceed (K.body q labels)) σ) = K.config q labels σ := by
  simp only [Config.resume, hw]
  rfl

theorem resume_leave {c : Config} (hw : c.waiting = K.waiting) (b : Body) :
    c.resume b K.finish (.ok .leave σ) = K.left σ := by
  simp only [Config.resume, hw]
  exact Config.finishBody_config σ _ _ _ _

theorem resume_jump {c : Config} (hw : c.waiting = K.waiting) (b : Body) (position : Int) :
    c.resume b K.finish (.ok ((K.body q labels).jump position) σ) =
      K.jumpTo position labels σ := by
  unfold Body.jump jumpTo
  split
  · exact resume_proceed hw b
  · exact resume_leave hw b

theorem resume_branch {c : Config} (hw : c.waiting = K.waiting) (b : Body) (depth : UInt32) :
    c.resume b K.finish (σ.perform ((K.body q labels).branch depth)) =
      K.branchTo labels depth.toNat σ := by
  unfold Body.branch branchTo
  have hl : (K.body q labels).labels = labels := rfl
  rw [hl]
  cases labels.drop depth.toNat with
  | nil => exact resume_leave hw b
  | cons l outer =>
    by_cases hl : l.isLoop = true
    · simp only [hl]
      exact resume_proceed hw b
    · simp only [hl]
      exact resume_jump hw b _

/-- An instruction that was not completed ends the body. -/
theorem lands_stop {c : Config} (hw : c.waiting = K.waiting) (b : Body) (stop : Stop) :
    K.Lands q labels (stop.setting σ) (c.resume b K.finish (.error stop σ)) (stop.exit σ) := by
  cases stop with
  | fault f =>
    simp only [Stop.exit, Lands, Config.resume, hw]
    rfl
  | defect d => exact ⟨rfl, rfl⟩

/-- What a body makes of the effect of an instruction. -/
def follow (b : Body) : Transfer → Exec Move
  | .next => pure (.proceed b.next)
  | .branch depth => b.branch depth
  | .ret => b.step .ret

theorem step_eq_bind {x : Exec Transfer} (b : Body) (hx : effect? i = some x) :
    b.step i = x >>= follow b := by
  cases i <;> cases hx
  case brIf depth =>
    rw [bind_assoc]
    refine bind_congr fun c => ?_
    rw [pure_bind]
    split <;> rfl
  case unreachable | nop | br | ret => rfl
  all_goals
    rw [bind_assoc]
    refine bind_congr fun _ => ?_
    rw [pure_bind]
    rfl

theorem lands_follow {c : Config} (hw : c.waiting = K.waiting) (b : Body) (t : Transfer) :
    K.Lands (p + 1) labels σ
      (c.resume b K.finish (σ.perform (follow (K.body p labels) t))) t.exit := by
  cases t with
  | next => exact resume_proceed hw b
  | branch depth => exact resume_branch hw b depth
  | ret => exact resume_leave hw b

/-- The machine follows the effect of an instruction in one step. -/
theorem lands_effect {x : Exec Transfer} {t : Transfer} (hi : K.code[p]? = some i)
    (hx : effect? i = some x) (h : σ.perform x = .ok t σ') :
    K.Lands (p + 1) labels σ' (K.config p labels σ).step t.exit := by
  rw [step_config hi, step_eq_bind _ hx, Setting.perform_bind_ok h]
  exact lands_follow rfl _ t

theorem lands_effect_error {x : Exec Transfer} {stop : Stop} (hi : K.code[p]? = some i)
    (hx : effect? i = some x) (h : σ.perform x = .error stop σ') :
    K.Lands q labels (stop.setting σ') (K.config p labels σ).step (stop.exit σ') := by
  rw [step_config hi, step_eq_bind _ hx, Setting.perform_bind_error h]
  exact lands_stop rfl _ stop

/-! ### Calls -/

/-- The machine that has begun a call makes it apart from what waits for it. -/
theorem step_call {index : UInt32} {f : FunctionAddr} (hi : K.code[p]? = some (.call index))
    (hf : σ.callee? index = some f) :
    (K.config p labels σ).step = (σ.config (.invoke f) []).extend
      (.body (K.body p labels) K.finish :: K.waiting) := by
  rw [step_config hi]
  change (K.config p labels σ).callFrom _ _ index = _
  have hc : (K.config p labels σ).callee? index = some f := hf
  simp only [Config.callFrom, hc]
  rfl

theorem step_call_unknown {index : UInt32} (hi : K.code[p]? = some (.call index))
    (hf : σ.callee? index = none) :
    (K.config p labels σ).step =
      ((K.config p labels σ).raise (.unknownFunctionIndex index.toNat)).leaveWith K.finish := by
  rw [step_config hi]
  change (K.config p labels σ).callFrom _ _ index = _
  have hc : (K.config p labels σ).callee? index = none := hf
  simp only [Config.callFrom, hc]

/-- The machine is in the same state when the call ends, apart from what waits for it. -/
theorem run_call {index : UInt32} {f : FunctionAddr} {n : Nat}
    (hi : K.code[p]? = some (.call index)) (hf : σ.callee? index = some f)
    (h : ∀ k < n, ((σ.config (.invoke f) []).run k).isHalted = false) :
    (K.config p labels σ).run (n + 1) = ((σ.config (.invoke f) []).run n).extend
      (.body (K.body p labels) K.finish :: K.waiting) := by
  rw [Config.run_succ, step_call hi hf]
  exact Config.run_extend h

/-- A body that halts has seen its calls end. -/
theorem exists_halt_of_call {index : UInt32} {f : FunctionAddr} {n : Nat}
    (hi : K.code[p]? = some (.call index)) (hf : σ.callee? index = some f)
    (h : ((K.config p labels σ).run n).isHalted = true) :
    ∃ m, ((σ.config (.invoke f) []).run m).isHalted = true := by
  -- a call that never halts would keep the body from halting
  false_or_by_contra
  rename_i hno
  have hall : ∀ k, ((σ.config (.invoke f) []).run k).isHalted = false := by simpa using hno
  rw [← Config.run_eq_of_le h (Nat.le_succ n), run_call hi hf fun k _ => hall k] at h
  exact hno ⟨n, Config.isHalted_of_extend h⟩

/-- The machine follows an instruction. -/
theorem lands_does (labels : List Label) (hi : K.code[p]? = some i) (h : Does i σ e σ') :
    ∃ n, 0 < n ∧ K.Lands (p + 1) labels σ' ((K.config p labels σ).run n) e := by
  cases h with
  | acts hx h => exact ⟨1, Nat.one_pos, by rw [Config.run_succ]; exact lands_effect hi hx h⟩
  | stops hx h =>
    exact ⟨1, Nat.one_pos, by rw [Config.run_succ]; exact lands_effect_error hi hx h⟩
  | returns hf h =>
    -- one step begins the call and one takes up its results
    obtain ⟨n, hk, -, ho, hs⟩ := h.exists_halt
    refine ⟨n + 1 + 1, Nat.succ_pos _, ?_⟩
    rw [Config.run_add, run_call hi hf hk, Config.eq_of_outcome_values ho, hs]
    rfl
  | traps hf h =>
    obtain ⟨n, hk, -, ho, hs⟩ := h.exists_halt
    refine ⟨n + 1 + 1, Nat.succ_pos _, ?_⟩
    rw [Config.run_add, run_call hi hf hk, Config.eq_of_outcome_trap ho, hs]
    rfl
  | breaks hf h =>
    obtain ⟨n, hk, -, ho, hs⟩ := h.exists_halt
    refine ⟨n + 1, Nat.succ_pos _, ?_⟩
    rw [run_call hi hf hk]
    have hb := Config.now_of_outcome_broken ho
    exact ⟨hb, hs⟩
  | unknown hf =>
    refine ⟨1, Nat.one_pos, ?_⟩
    rw [Config.run_succ, step_call_unknown hi hf]
    rfl

/-! ### Constructs -/

theorem step_block {type : ValueType} {endAt : Int} (hi : K.code[p]? = some (.block type endAt)) :
    (K.config p labels σ).step =
      K.config (p + 1) (⟨p, endAt, σ.height, blockArity type, false⟩ :: labels) σ := by
  rw [step_config hi]
  rfl

theorem step_loop {type : ValueType} {endAt : Int} (hi : K.code[p]? = some (.loop type endAt)) :
    (K.config p labels σ).step =
      K.config (p + 1) (⟨p, endAt, σ.height, blockArity type, true⟩ :: labels) σ := by
  rw [step_config hi]
  rfl

theorem step_close {l : Label} (hi : K.code[p]? = some .close) :
    (K.config p (l :: labels) σ).step = K.config (p + 1) labels σ := by
  rw [step_config hi]
  rfl

theorem step_otherwise {l : Label} (hi : K.code[p]? = some .otherwise) :
    (K.config p (l :: labels) σ).step = K.jumpTo (l.endAt + 1) labels σ := by
  rw [step_config hi]
  exact resume_jump rfl _ _

theorem jumpTo_succ (q : Nat) : K.jumpTo ((q : Int) + 1) labels σ = K.config (q + 1) labels σ := by
  unfold jumpTo
  rw [if_pos (by omega)]
  rfl

/-- The machine at a conditional, when it has the condition. -/
theorem step_cond {type : ValueType} {elseAt : Option Int} {endAt : Int} {c : UInt32}
    (hi : K.code[p]? = some (.cond type elseAt endAt))
    (h : σ.perform (.operands .popI32) = .ok c σ') :
    (K.config p labels σ).step =
      if c = 0 then
        match elseAt with
        | some position => K.jumpTo (position + 1)
            (⟨p, endAt, σ'.height, blockArity type, false⟩ :: labels) σ'
        | none => K.jumpTo (endAt + 1) labels σ'
      else K.config (p + 1) (⟨p, endAt, σ'.height, blockArity type, false⟩ :: labels) σ' := by
  rw [step_config hi]
  unfold Body.step
  dsimp only
  rw [Setting.perform_bind_ok h]
  by_cases hc : c = 0
  · simp only [hc, ↓reduceIte]
    cases elseAt with
    | none => exact resume_jump rfl _ _
    | some position => exact resume_jump rfl _ _
  · simp only [hc, ↓reduceIte]
    exact resume_proceed rfl _

theorem lands_cond_stop {type : ValueType} {elseAt : Option Int} {endAt : Int} {stop : Stop}
    (hi : K.code[p]? = some (.cond type elseAt endAt))
    (h : σ.perform (.operands .popI32) = .error stop σ') :
    K.Lands q labels (stop.setting σ') (K.config p labels σ).step (stop.exit σ') := by
  rw [step_config hi]
  unfold Body.step
  dsimp only
  rw [Setting.perform_bind_error h]
  exact lands_stop rfl _ stop

/-- An exit of a construct that does not end at its label is an exit of what encloses it. -/
theorem Lands.outside {l : Label} {c : Config}
    (hr : ∀ σ, (K.config p (l :: labels) σ).step = K.config q labels σ)
    (h : K.Lands p (l :: labels) σ c e) (he : e ≠ .branch 0) :
    ∃ n, K.Lands q labels σ (c.run n) e.outside := by
  cases e with
  | next =>
    refine ⟨1, ?_⟩
    rw [Config.run_succ, h, hr]
    rfl
  | branch depth =>
    cases depth with
    | zero => exact absurd rfl he
    | succ depth => exact ⟨0, h⟩
  | ret => exact ⟨0, h⟩
  | trap t => exact ⟨0, h⟩
  | broken d => exact ⟨0, h⟩

/-- A block or an arm ends where its label says, whether by a branch or by itself. -/
theorem Lands.outside_block {l : Label} {c : Config} (hl : l.isLoop = false)
    (hend : l.endAt = (q : Nat))
    (hr : ∀ σ, (K.config p (l :: labels) σ).step = K.config (q + 1) labels σ)
    (h : K.Lands p (l :: labels) σ c e) :
    ∃ n, K.Lands (q + 1) labels (σ.outside e l.height l.arity) (c.run n) e.outside := by
  by_cases he : e = .branch 0
  · subst he
    refine ⟨0, ?_⟩
    simp only [Lands, branchTo, List.drop_zero, hl, hend, Bool.false_eq_true, ↓reduceIte,
      jumpTo_succ] at h
    exact h
  · simp only [Setting.outside, he, ↓reduceIte]
    exact h.outside hr he

/-- Where the machine is some steps after the next one, it is after more than none. -/
theorem exists_lands_of_step {c : Config} (h : ∃ n, K.Lands q labels σ' (c.step.run n) e) :
    ∃ n, (e ≠ .next → 0 < n) ∧ K.Lands q labels σ' (c.run n) e := by
  obtain ⟨n, hn⟩ := h
  refine ⟨n + 1, fun _ => Nat.succ_pos n, ?_⟩
  rw [Config.run_succ]
  exact hn

end Context

/-! ### The machine follows structured execution -/

/-- The machine does what a fragment of structured code does, wherever it stands in the flat
sequence. -/
def Follows (K : Context) : Fragment → Setting → Exit → Setting → Prop
  | .code s, σ, e, σ' => ∀ p labels, StandsAt K.code p (s.layout p) →
    ∃ n, (e ≠ .next → 0 < n) ∧ K.Lands (p + s.size) labels σ' ((K.config p labels σ).run n) e
  | .after e₀ s, σ, e, σ' => ∀ p labels c, StandsAt K.code p (s.layout p) →
    K.Lands p labels σ c e₀ → ∃ n, K.Lands (p + s.size) labels σ' (c.run n) e
  | .iteration height body, σ, e, σ' => ∀ p labels l, StandsAt K.code p (body.layout p) →
    K.code[p + body.size]? = some .close → l.isLoop = true → l.start + 1 = p →
    l.height = height →
    ∃ n, K.Lands (p + body.size + 1) labels σ' ((K.config p (l :: labels) σ).run n) e

open Context in
/-- The machine does what a block or an arm does, and then what follows it: the body stands at
position `p`, and what follows it after position `q`, where the label says that it ends. -/
theorem Follows.construct {K : Context} {body rest : Structured} {σ σ₁ σ₂ : Setting} {e e' : Exit}
    {labels : List Label} {l : Label} {p q : Nat} (hl : l.isLoop = false)
    (hend : l.endAt = (q : Nat))
    (hstep : ∀ σ, (K.config (p + body.size) (l :: labels) σ).step = K.config (q + 1) labels σ)
    (hb : StandsAt K.code p (body.layout p))
    (hr : StandsAt K.code (q + 1) (rest.layout (q + 1)))
    (ihb : Follows K (.code body) σ e σ₁)
    (ihr : Follows K (.after e.outside rest) (σ₁.outside e l.height l.arity) e' σ₂) :
    ∃ n, K.Lands (q + 1 + rest.size) labels σ₂ ((K.config p (l :: labels) σ).run n) e' := by
  obtain ⟨m, -, hm⟩ := ihb p (l :: labels) hb
  obtain ⟨k, hk⟩ := hm.outside_block hl hend hstep
  obtain ⟨n, hn⟩ := ihr (q + 1) labels _ hr hk
  refine ⟨m + k + n, ?_⟩
  rw [Config.run_add, Config.run_add]
  exact hn

open Context in
/-- **The machine follows structured execution.** -/
theorem Runs.follows {K : Context} {f : Fragment} {σ σ' : Setting} {e : Exit}
    (h : Runs f σ e σ') : Follows K f σ e σ' := by
  induction h with
  | done => exact fun p labels _ => ⟨0, fun he => absurd rfl he, rfl⟩
  | @plain i rest _ _ _ _ _ hi _ ih =>
    intro p labels hs
    obtain ⟨m, hm, hl⟩ := lands_does labels hs.1 hi
    obtain ⟨n, hn⟩ := ih (p + 1) labels _ hs.2 hl
    refine ⟨m + n, fun _ => by omega, ?_⟩
    rw [Config.run_add, Structured.add_size_plain]
    exact hn
  | @block type body rest _ _ _ _ _ _ _ ihb ihr =>
    intro p labels hs
    obtain ⟨hi, hb, hc, hr⟩ := Structured.standsAt_block hs
    apply exists_lands_of_step
    rw [step_block hi, Structured.add_size_block]
    exact Follows.construct rfl rfl (fun σ => step_close hc) hb hr ihb ihr
  | @loop type body rest σ _ _ _ _ _ _ ihb ihr =>
    intro p labels hs
    obtain ⟨hi, hb, hc, hr⟩ := Structured.standsAt_loop hs
    apply exists_lands_of_step
    rw [step_loop hi, Structured.add_size_loop]
    obtain ⟨m, hm⟩ := ihb (p + 1) labels
      ⟨p, (p + 1 + body.size : Nat), σ.height, blockArity type, true⟩ hb hc rfl rfl rfl
    obtain ⟨n, hn⟩ := ihr _ labels _ hr hm
    refine ⟨m + n, ?_⟩
    rw [Config.run_add]
    exact hn
  | condStops h =>
    intro p labels hs
    obtain ⟨hi, -⟩ := Structured.standsAt_cond hs
    exact exists_lands_of_step ⟨0, lands_cond_stop hi h⟩
  | @condZero type arm rest _ _ _ _ h _ ih =>
    intro p labels hs
    obtain ⟨hi, -, -, hr⟩ := Structured.standsAt_cond hs
    apply exists_lands_of_step
    rw [step_cond hi h, if_pos rfl, jumpTo_succ, Structured.add_size_cond]
    obtain ⟨n, -, hn⟩ := ih _ labels hr
    exact ⟨n, hn⟩
  | @condArm type arm rest _ _ _ _ _ _ _ h hc _ _ iha ihr =>
    intro p labels hs
    obtain ⟨hi, ha, hend, hr⟩ := Structured.standsAt_cond hs
    apply exists_lands_of_step
    rw [step_cond hi h, if_neg hc, Structured.add_size_cond]
    exact Follows.construct rfl rfl (fun σ => step_close hend) ha hr iha ihr
  | condElseStops h =>
    intro p labels hs
    obtain ⟨hi, -⟩ := Structured.standsAt_condElse hs
    exact exists_lands_of_step ⟨0, lands_cond_stop hi h⟩
  | @condElse type arm other rest _ c _ _ _ _ _ h _ _ iha ihr =>
    intro p labels hs
    obtain ⟨hi, ha, helse, ho, hend, hr⟩ := Structured.standsAt_condElse hs
    apply exists_lands_of_step
    rw [step_cond hi h, Structured.add_size_condElse]
    -- the second arm ends at the `end`, the first one at the `else`, which skips the second
    by_cases hc : c = 0
    · simp only [hc, ↓reduceIte, jumpTo_succ] at iha ⊢
      exact Follows.construct rfl rfl (fun σ => step_close hend) ho hr iha ihr
    · simp only [hc, ↓reduceIte] at iha ⊢
      exact Follows.construct rfl rfl (fun σ => (step_otherwise helse).trans (jumpTo_succ _))
        ha hr iha ihr
  | afterNext _ ih =>
    intro p labels c hs hl
    obtain ⟨n, -, hn⟩ := ih p labels hs
    exact ⟨n, by rw [hl]; exact hn⟩
  | afterExit he =>
    intro p labels c hs hl
    exact ⟨0, hl.of_ne_next he _⟩
  | again _ _ ihb ihr =>
    intro p labels l hs hc hl hp hh
    -- the branch has unwound to the label of the loop, which is kept
    obtain ⟨m, -, hm⟩ := ihb p (l :: labels) hs
    obtain ⟨n, hn⟩ := ihr p labels l hs hc hl hp hh
    refine ⟨m + n, ?_⟩
    simp only [Lands, branchTo, List.drop_zero, hl, ↓reduceIte, hp, hh] at hm
    rw [Config.run_add, hm]
    exact hn
  | last _ he ihb =>
    intro p labels l hs hc hl hp hh
    obtain ⟨m, -, hm⟩ := ihb p (l :: labels) hs
    obtain ⟨n, hn⟩ := hm.outside (fun σ => step_close hc) he
    exact ⟨m + n, by rw [Config.run_add]; exact hn⟩

/-! ### Structured execution ends if the machine halts -/

open Context in
theorem exists_does {K : Context} {p n : Nat} {labels : List Label} {σ : Setting} {i : Instruction}
    (hi : K.code[p]? = some i) (hp : i.isStructural = false)
    (h : ((K.config p labels σ).run n).isHalted = true) : ∃ e σ', Does i σ e σ' := by
  cases hx : effect? i with
  | some x =>
    cases hr : σ.perform x with
    | ok t σ' => exact ⟨_, _, .acts hx hr⟩
    | error stop σ' => exact ⟨_, _, .stops hx hr⟩
  | none =>
    obtain ⟨index, rfl⟩ : ∃ index, i = .call index := by
      cases i with
      | call index => exact ⟨index, rfl⟩
      | block | loop | cond | otherwise | close => cases hp
      | _ => cases hx
    cases hf : σ.callee? index with
    | none => exact ⟨_, _, .unknown hf⟩
    | some f =>
      obtain ⟨m, hm⟩ := exists_halt_of_call hi hf h
      have hends := Config.ends_of_isHalted hm
      cases ho : ((σ.config (.invoke f) []).run m).outcome with
      | values results => exact ⟨_, _, .returns hf (ho ▸ hends)⟩
      | trap t => exact ⟨_, _, .traps hf (ho ▸ hends)⟩
      | broken d => exact ⟨_, _, .breaks hf (ho ▸ hends)⟩
      | outOfFuel => exact absurd ho hends.1

/-- Structured code comes to an end if the machine that executes it halts within `n` steps. -/
def EndsWithin (K : Context) (n : Nat) : Prop :=
  ∀ (s : Structured) (p : Nat) (labels : List Label) (σ : Setting), s.Proper →
    StandsAt K.code p (s.layout p) → ((K.config p labels σ).run n).isHalted = true →
    ∃ e σ', Runs (.code s) σ e σ'

/-- What follows an exit comes to an end, if the machine halts from where the exit leads. -/
theorem exists_runs_after {K : Context} {n : Nat} (ih : EndsWithin K n) {e : Exit}
    {s : Structured} {σ : Setting} {labels : List Label} {p : Nat} {c : Config} (hs : s.Proper)
    (hat : StandsAt K.code p (s.layout p)) (hl : K.Lands p labels σ c e)
    (h : (c.run n).isHalted = true) : ∃ e' σ', Runs (.after e s) σ e' σ' := by
  by_cases he : e = .next
  · subst he
    rw [hl] at h
    obtain ⟨e', σ', hr⟩ := ih s p labels σ hs hat h
    exact ⟨e', σ', .afterNext hr⟩
  · exact ⟨e, σ, .afterExit he⟩

open Context in
/-- A block or an arm comes to an end, and then what follows it. -/
theorem exists_runs_construct {K : Context} {n : Nat} (ih : ∀ m ≤ n, EndsWithin K m)
    {body rest : Structured} {σ : Setting} {labels : List Label} {l : Label} {p q : Nat}
    (hl : l.isLoop = false) (hend : l.endAt = (q : Nat))
    (hstep : ∀ σ, (K.config (p + body.size) (l :: labels) σ).step = K.config (q + 1) labels σ)
    (hb : StandsAt K.code p (body.layout p))
    (hr : StandsAt K.code (q + 1) (rest.layout (q + 1))) (hpb : body.Proper) (hpr : rest.Proper)
    (h : ((K.config p (l :: labels) σ).run n).isHalted = true) :
    ∃ e σ₁ e' σ₂, Runs (.code body) σ e σ₁ ∧
      Runs (.after e.outside rest) (σ₁.outside e l.height l.arity) e' σ₂ := by
  obtain ⟨e, σ₁, hrun⟩ := ih n (Nat.le_refl n) body p _ σ hpb hb h
  obtain ⟨m, -, hm⟩ := hrun.follows (K := K) p (l :: labels) hb
  obtain ⟨k, hk⟩ := hm.outside_block hl hend hstep
  rw [← Config.run_add] at hk
  obtain ⟨e', σ₂, hafter⟩ := exists_runs_after (ih _ (Nat.sub_le _ _)) hpr hr hk
    (Config.isHalted_run_sub h (m + k))
  exact ⟨e, σ₁, e', σ₂, hrun, hafter⟩

open Context in
/-- A loop comes to an end: every branch back to its start takes a step. -/
theorem exists_runs_iteration {K : Context} {n : Nat} (ih : ∀ m ≤ n, EndsWithin K m)
    {body : Structured} {labels : List Label} {l : Label} {p : Nat} (hl : l.isLoop = true)
    (hp : l.start + 1 = p) (hb : StandsAt K.code p (body.layout p)) (hpb : body.Proper) :
    ∀ m ≤ n, ∀ σ, ((K.config p (l :: labels) σ).run m).isHalted = true →
      ∃ e σ', Runs (.iteration l.height body) σ e σ' := by
  intro m
  induction m using Nat.strongRecOn with
  | ind m ihm =>
    intro hmn σ h
    obtain ⟨e, σ₁, hrun⟩ := ih m hmn body p _ σ hpb hb h
    by_cases he : e = .branch 0
    · subst he
      -- the machine is at the start of the body again after `k` steps, so fewer are left
      obtain ⟨k, hpos, hk⟩ := hrun.follows (K := K) p (l :: labels) hb
      have hk0 : 0 < k := hpos (by simp)
      have hrest := Config.isHalted_run_sub h k
      simp only [Lands, branchTo, List.drop_zero, hl, ↓reduceIte, hp] at hk
      rw [hk] at hrest
      have hm0 : 0 < m := by
        cases m with
        | zero => simp [Config.run, Context.config, Setting.config, Config.isHalted] at h
        | succ m => exact Nat.succ_pos m
      obtain ⟨e', σ₂, hagain⟩ := ihm (m - k) (by omega) (by omega) _ hrest
      exact ⟨e', σ₂, .again hrun hagain⟩
    · exact ⟨_, _, .last hrun he⟩

open Context in
/-- **Structured execution comes to an end if the machine halts.** -/
theorem exists_runs (K : Context) (n : Nat) : EndsWithin K n := by
  induction n using Nat.strongRecOn with
  | ind n ih =>
    intro s p labels σ hs hat h
    -- a body has not halted, so at least one step is made, whatever stands there
    obtain ⟨n, rfl⟩ : ∃ m, n = m + 1 := by
      cases n with
      | zero => simp [Config.run, Context.config, Setting.config, Config.isHalted] at h
      | succ m => exact ⟨m, rfl⟩
    have ih' : ∀ m ≤ n, EndsWithin K m := fun m hm => ih m (Nat.lt_succ_of_le hm)
    have h' := h
    rw [Config.run_succ] at h'
    cases s with
    | done => exact ⟨_, _, .done⟩
    | plain i rest =>
      obtain ⟨e, σ₁, hi⟩ := exists_does hat.1 hs.1 h
      obtain ⟨m, hm, hl⟩ := lands_does labels hat.1 hi
      obtain ⟨e', σ₂, hr⟩ := exists_runs_after (ih _ (by omega)) hs.2 hat.2 hl
        (Config.isHalted_run_sub h m)
      exact ⟨e', σ₂, .plain hi hr⟩
    | block type body rest =>
      obtain ⟨hi, hb, hc, hr⟩ := Structured.standsAt_block hat
      rw [step_block hi] at h'
      obtain ⟨e, σ₁, e', σ₂, hrun, hafter⟩ :=
        exists_runs_construct ih' rfl rfl (fun σ => step_close hc) hb hr hs.2.1 hs.2.2 h'
      exact ⟨e', σ₂, .block hrun hafter⟩
    | loop type body rest =>
      obtain ⟨hi, hb, hc, hr⟩ := Structured.standsAt_loop hat
      rw [step_loop hi] at h'
      let l : Label := ⟨p, (p + 1 + body.size : Nat), σ.height, blockArity type, true⟩
      obtain ⟨e, σ₁, hrun⟩ :=
        exists_runs_iteration (l := l) ih' rfl rfl hb hs.2.1 n (Nat.le_refl n) σ h'
      obtain ⟨m, hm⟩ := hrun.follows (K := K) (p + 1) labels l hb hc rfl rfl rfl
      obtain ⟨e', σ₂, hafter⟩ := exists_runs_after (ih' _ (Nat.sub_le _ _)) hs.2.2 hr hm
        (Config.isHalted_run_sub h' m)
      exact ⟨e', σ₂, .loop hrun hafter⟩
    | cond type arm rest =>
      obtain ⟨hi, ha, hc, hr⟩ := Structured.standsAt_cond hat
      cases hpop : σ.perform (.operands .popI32) with
      | error stop σ₁ => exact ⟨_, _, .condStops hpop⟩
      | ok c σ₁ =>
        rw [step_cond hi hpop] at h'
        by_cases hz : c = 0
        · subst hz
          rw [if_pos rfl, jumpTo_succ] at h'
          obtain ⟨e, σ₂, hrun⟩ := ih' n (Nat.le_refl n) rest _ _ σ₁ hs.2.2 hr h'
          exact ⟨e, σ₂, .condZero hpop hrun⟩
        · rw [if_neg hz] at h'
          obtain ⟨e, σ₂, e', σ₃, hrun, hafter⟩ :=
            exists_runs_construct ih' rfl rfl (fun σ => step_close hc) ha hr hs.2.1 hs.2.2 h'
          exact ⟨e', σ₃, .condArm hpop hz hrun hafter⟩
    | condElse type arm other rest =>
      obtain ⟨hi, ha, helse, ho, hend, hr⟩ := Structured.standsAt_condElse hat
      cases hpop : σ.perform (.operands .popI32) with
      | error stop σ₁ => exact ⟨_, _, .condElseStops hpop⟩
      | ok c σ₁ =>
        rw [step_cond hi hpop] at h'
        by_cases hz : c = 0
        · simp only [hz, ↓reduceIte, jumpTo_succ] at h'
          obtain ⟨e, σ₂, e', σ₃, hrun, hafter⟩ := exists_runs_construct ih' rfl rfl
            (fun σ => step_close hend) ho hr hs.2.2.1 hs.2.2.2 h'
          exact ⟨e', σ₃, .condElse hpop (by rw [if_pos hz]; exact hrun) hafter⟩
        · rw [if_neg hz] at h'
          obtain ⟨e, σ₂, e', σ₃, hrun, hafter⟩ := exists_runs_construct ih' rfl rfl
            (fun σ => (step_otherwise helse).trans (jumpTo_succ _)) ha hr hs.2.1 hs.2.2.2 h'
          exact ⟨e', σ₃, .condElse hpop (by rw [if_neg hz]; exact hrun) hafter⟩

/-! ### Whole bodies -/

/-- The machine that executes a body against the current frame, with nothing waiting for it. -/
def Setting.executing (σ : Setting) (code : Array Instruction) (arity : Option Nat) : Config :=
  σ.config (.body { code, arity } .stop) []

/-- A machine that is where the exit of a whole body leads has the outcome of that exit, at the
latest after one more step. -/
theorem ends_of_lands {code : Array Instruction} {arity : Option Nat} {σ : Setting} {c : Config}
    {e : Exit} (h : Context.Lands ⟨code, arity, .stop, []⟩ code.size [] σ c e) :
    c.Ends (e.outcome σ arity).1 (e.outcome σ arity).2 := by
  cases e with
  | next =>
    refine ⟨by simp [Exit.outcome], 1, ?_⟩
    have hend : code[code.size]? = none := by simp
    have hstep : c.step = σ.config (.answer (.ok [])) [] := by
      rw [h]
      exact Config.stepBody_of_none hend .stop
    rw [Config.run_succ, hstep]
    exact ⟨rfl, rfl⟩
  | branch depth =>
    refine ⟨by simp [Exit.outcome], 0, ?_⟩
    simp only [Context.Lands, Context.branchTo, List.drop_nil] at h
    rw [h]
    exact ⟨rfl, rfl⟩
  | ret =>
    refine ⟨by simp [Exit.outcome], 0, ?_⟩
    rw [h]
    exact ⟨rfl, rfl⟩
  | trap t =>
    refine ⟨by simp [Exit.outcome], 0, ?_⟩
    rw [h]
    exact ⟨rfl, rfl⟩
  | broken d =>
    refine ⟨by simp [Exit.outcome], 0, ?_, h.2⟩
    simp only [Config.run, Config.outcome, h.1, Exit.outcome]

end WasmCore.Machine

namespace WasmCore.Structured

open Machine

theorem executing_ends {s : Structured} {arity : Option Nat} {σ σ' : Setting} {o : Outcome}
    (h : s.Ends arity σ o σ') : (σ.executing s.flatten arity).Ends o σ' := by
  obtain ⟨e, σ₁, hrun, ho⟩ := h
  obtain ⟨n, -, hn⟩ := hrun.follows (K := ⟨s.flatten, arity, .stop, []⟩) 0 [] s.standsAt_flatten
  rw [Nat.zero_add, ← size_flatten] at hn
  obtain ⟨hne, m, hm⟩ := ends_of_lands hn
  rw [ho] at hne hm
  refine ⟨hne, n + m, ?_⟩
  rw [Config.run_add]
  exact hm

/-- **Flat and structured execution agree**: the machine that executes the flat sequence comes to
an end exactly if the structured code does, and with the same outcome and setting. -/
theorem executing_ends_iff {s : Structured} (hs : s.Proper) (arity : Option Nat) (σ : Setting)
    (o : Outcome) (σ' : Setting) :
    (σ.executing s.flatten arity).Ends o σ' ↔ s.Ends arity σ o σ' := by
  refine ⟨fun h => ?_, executing_ends⟩
  -- the structured code has some end, which is that of the machine as this has only one
  obtain ⟨n, -, hn, -, -⟩ := h.exists_halt
  obtain ⟨e, σ₁, hrun⟩ := exists_runs ⟨s.flatten, arity, .stop, []⟩ n s 0 [] σ hs
    s.standsAt_flatten hn
  have hends : s.Ends arity σ (e.outcome σ₁ arity).1 (e.outcome σ₁ arity).2 :=
    ⟨e, σ₁, hrun, rfl⟩
  obtain ⟨rfl, rfl⟩ := h.unique (executing_ends hends)
  exact hends

end WasmCore.Structured
