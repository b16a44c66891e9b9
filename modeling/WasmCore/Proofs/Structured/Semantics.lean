import WasmCore.Instruction.Structured
import WasmCore.Proofs.Machine.Steps

/-!
# Structured execution

The meaning of structured code without positions and labels. Executing code ends in an `Exit`: it
runs to its end, branches out of a number of enclosing constructs, returns, traps or breaks.

* A block or an arm that branches to depth 0 unwinds to the height at which it was entered, keeps as
  many values as its type has, and is over.
* The body of a loop that branches to depth 0 unwinds to the height at which the loop was entered,
  keeps nothing, and runs again.
* A branch to depth `n + 1` leaves a construct as a branch to depth `n`.
* A conditional without a second arm does nothing if the condition is zero.
* A branch out of the outermost construct is a return.

Calls are what the machine makes of them: `Config.Ends` says how a configuration ends, and a call
instruction ends as the invocation of its function does.
-/

namespace WasmCore.Machine

/-! ### Settings -/

namespace Setting

variable (σ : Setting)

/-- The number of values on the operand stack. -/
def height : Nat := σ.stack.current.values.length

/-- Drops the values above a height, except the top ones. -/
def unwound (height : Nat) (arity : Option Nat) : Setting :=
  { σ with stack := σ.stack.modifyCurrent fun f =>
      { f with values := unwind height arity f.values } }

/-- Puts the results of a call on the operand stack. -/
def pushed (results : List Value) : Setting :=
  { σ with stack := σ.stack.modifyCurrent (·.pushAll results) }

/-- The handle of a function of the module of the current frame. -/
def callee? (index : UInt32) : Option FunctionAddr := do
  let m ← σ.world.store.module? σ.stack.current.location.module
  m.functions[index.toNat]?

/-- The trap of a fault at this point. -/
def trapOf (f : Fault) : Trap := ⟨f, σ.stack.trace⟩

/-- The setting in which the trap of a fault was reported. -/
def reporting (f : Fault) : Setting :=
  { σ with world :=
      σ.world.report (.trapRaised (σ.trapOf f).message (σ.trapOf f).trace.length) }

end Setting

/-- The machine comes to an end after finitely many steps, with this outcome and setting. -/
def Config.Ends (c : Config) (o : Outcome) (σ : Setting) : Prop :=
  o ≠ .outOfFuel ∧ ∃ fuel, (c.run fuel).outcome = o ∧ (c.run fuel).setting = σ

/-! ### Exits -/

/-- How the execution of structured code ends. -/
inductive Exit where
  /-- All of it was executed. -/
  | next
  /-- By a branch to the construct that lies `depth` constructs further out. -/
  | branch (depth : Nat)
  /-- By a return. -/
  | ret
  /-- By a trap. -/
  | trap (t : Trap)
  /-- The machine could not go on. -/
  | broken (d : Defect)
  deriving DecidableEq

/-- The exit of a construct whose body has an exit. -/
def Exit.outside : Exit → Exit
  | .branch 0 => .next
  | .branch (n + 1) => .branch n
  | e => e

/-- The setting after a block or an arm that was entered at a height: only a branch to its own end
unwinds. -/
def Setting.outside (σ : Setting) (e : Exit) (height arity : Nat) : Setting :=
  if e = .branch 0 then σ.unwound height (some arity) else σ

/-- The exit of an instruction that was not completed. -/
def Stop.exit (σ : Setting) : Stop → Exit
  | .fault f => .trap (σ.trapOf f)
  | .defect d => .broken d

/-- The setting after an instruction that was not completed. -/
def Stop.setting (σ : Setting) : Stop → Setting
  | .fault f => σ.reporting f
  | .defect _ => σ

/-- The outcome of code with an exit, and the setting it leaves: a branch that finds no construct is
a return, which keeps as many values as the arity says. -/
def Exit.outcome (σ : Setting) (arity : Option Nat) : Exit → Outcome × Setting
  | .next => (.values [], σ)
  | .branch _ | .ret => (.values [], σ.unwound 0 arity)
  | .trap t => (.trap t, σ)
  | .broken d => (.broken d, σ)

/-! ### Rules -/

/-- Where an instruction leads. -/
inductive Transfer where
  /-- To what follows it. -/
  | next
  /-- Out of constructs. -/
  | branch (depth : UInt32)
  /-- Out of the body. -/
  | ret

/-- The exit of an instruction. -/
def Transfer.exit : Transfer → Exit
  | .next => .next
  | .branch depth => .branch depth.toNat
  | .ret => .ret

/-- The effect of an instruction that neither calls nor opens or closes a construct. -/
def effect? : Instruction → Option (Exec Transfer)
  | .unreachable => some (Exec.fault .unreachable)
  | .nop => some (pure .next)
  | .br depth => some (pure (.branch depth))
  | .brIf depth => some do
    let c ← Exec.operands .popI32
    pure (if c = 0 then .next else .branch depth)
  | .brTable targets fallback => some do
    let i ← Exec.operands .popI32
    pure (.branch (targets.getD i.toNat fallback))
  | .ret => some (pure .ret)
  | .call _ | .block .. | .loop .. | .cond .. | .otherwise | .close => none
  | i => some do
    Exec.plain i
    pure .next

/-- The execution of one instruction. -/
inductive Does : Instruction → Setting → Exit → Setting → Prop
  | acts {i σ x t σ'} (hx : effect? i = some x) (h : σ.perform x = .ok t σ') :
    Does i σ t.exit σ'
  | stops {i σ x stop σ'} (hx : effect? i = some x)
    (h : σ.perform x = .error stop σ') : Does i σ (stop.exit σ') (stop.setting σ')
  | returns {index σ f results σ'} (hf : σ.callee? index = some f)
    (h : (σ.config (.invoke f) []).Ends (.values results) σ') :
    Does (.call index) σ .next (σ'.pushed results)
  | traps {index σ f t σ'} (hf : σ.callee? index = some f)
    (h : (σ.config (.invoke f) []).Ends (.trap t) σ') : Does (.call index) σ (.trap t) σ'
  | breaks {index σ f d σ'} (hf : σ.callee? index = some f)
    (h : (σ.config (.invoke f) []).Ends (.broken d) σ') : Does (.call index) σ (.broken d) σ'
  | unknown {index σ} (hf : σ.callee? index = none) :
    Does (.call index) σ (.trap (σ.trapOf (.unknownFunctionIndex index.toNat)))
      (σ.reporting (.unknownFunctionIndex index.toNat))

/-- A piece of structured code in execution. -/
inductive Fragment where
  /-- A sequence. -/
  | code (s : Structured)
  /-- The sequence that follows something with an exit. -/
  | after (e : Exit) (s : Structured)
  /-- The body of a loop that was entered at a height. -/
  | iteration (height : Nat) (body : Structured)

/-- The execution of structured code, from a setting to an exit and a setting. -/
inductive Runs : Fragment → Setting → Exit → Setting → Prop
  | done {σ} : Runs (.code .done) σ .next σ
  | plain {i rest σ e σ₁ e' σ₂} (hi : Does i σ e σ₁) (hr : Runs (.after e rest) σ₁ e' σ₂) :
    Runs (.code (.plain i rest)) σ e' σ₂
  | block {type body rest σ e σ₁ e' σ₂} (hb : Runs (.code body) σ e σ₁)
    (hr : Runs (.after e.outside rest) (σ₁.outside e σ.height (blockArity type)) e' σ₂) :
    Runs (.code (.block type body rest)) σ e' σ₂
  | loop {type body rest σ e σ₁ e' σ₂} (hb : Runs (.iteration σ.height body) σ e σ₁)
    (hr : Runs (.after e rest) σ₁ e' σ₂) : Runs (.code (.loop type body rest)) σ e' σ₂
  | condStops {type arm rest σ stop σ₁} (h : σ.perform (.operands .popI32) = .error stop σ₁) :
    Runs (.code (.cond type arm rest)) σ (stop.exit σ₁) (stop.setting σ₁)
  | condZero {type arm rest σ σ₁ e σ₂} (h : σ.perform (.operands .popI32) = .ok 0 σ₁)
    (hr : Runs (.code rest) σ₁ e σ₂) : Runs (.code (.cond type arm rest)) σ e σ₂
  | condArm {type arm rest σ c σ₁ e σ₂ e' σ₃} (h : σ.perform (.operands .popI32) = .ok c σ₁)
    (hc : c ≠ 0) (ha : Runs (.code arm) σ₁ e σ₂)
    (hr : Runs (.after e.outside rest) (σ₂.outside e σ₁.height (blockArity type)) e' σ₃) :
    Runs (.code (.cond type arm rest)) σ e' σ₃
  | condElseStops {type arm other rest σ stop σ₁}
    (h : σ.perform (.operands .popI32) = .error stop σ₁) :
    Runs (.code (.condElse type arm other rest)) σ (stop.exit σ₁) (stop.setting σ₁)
  | condElse {type arm other rest σ c σ₁ e σ₂ e' σ₃}
    (h : σ.perform (.operands .popI32) = .ok c σ₁)
    (ha : Runs (.code (if c = 0 then other else arm)) σ₁ e σ₂)
    (hr : Runs (.after e.outside rest) (σ₂.outside e σ₁.height (blockArity type)) e' σ₃) :
    Runs (.code (.condElse type arm other rest)) σ e' σ₃
  | afterNext {s σ e σ'} (h : Runs (.code s) σ e σ') : Runs (.after .next s) σ e σ'
  | afterExit {s σ e} (he : e ≠ .next) : Runs (.after e s) σ e σ
  | again {height body σ σ₁ e σ₂} (hb : Runs (.code body) σ (.branch 0) σ₁)
    (hr : Runs (.iteration height body) (σ₁.unwound height (some 0)) e σ₂) :
    Runs (.iteration height body) σ e σ₂
  | last {height body σ e σ₁} (hb : Runs (.code body) σ e σ₁) (he : e ≠ .branch 0) :
    Runs (.iteration height body) σ e.outside σ₁

end WasmCore.Machine

namespace WasmCore.Structured

open Machine

/-- Structured code comes to an end with this outcome and setting, where a return keeps as many
values as the arity says. -/
def Ends (s : Structured) (arity : Option Nat) (σ : Setting) (o : Outcome) (σ' : Setting) : Prop :=
  ∃ e σ₁, Runs (.code s) σ e σ₁ ∧ e.outcome σ₁ arity = (o, σ')

end WasmCore.Structured
