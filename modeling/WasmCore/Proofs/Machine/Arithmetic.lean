import WasmCore.Proofs.Integer
import WasmCore.Proofs.Machine.LoadStore
import WasmCore.Proofs.Machine.Operands

/-!
# Integer instructions

An integer instruction replaces exactly its operands by the integer that it makes of them, modulo
`2 ^ n` (`NumericOp.Computes`). If it makes none of them, or if an operand is missing or has another
type, it traps and leaves no value (`Config.Computing.integer_step`).
-/

namespace WasmCore

/-! ### Integers modulo a power of two -/

instance (r : IntRelation) {n : Nat} (a b : BitVec n) : Decidable (r.Relates a b) :=
  decidable_of_iff _ (r.holds_iff a b)

/-- The value of an integer modulo `2 ^ n`. -/
def Value.ofInteger (w : Width) (k : Int) : Value := .ofInt w (.ofInt w.bits k)

/-- What an integer instruction makes of its operands, top first. -/
inductive NumericOp.Computes : NumericOp → List Value → Except IntegerFailure Value → Prop
  | eqz {w : Width} (a : BitVec w.bits) :
    Computes (.eqz w) [.ofInt w a] (.ok (.ofInteger .w32 (if a.toNat = 0 then 1 else 0)))
  | intCompare {w : Width} (r : IntRelation) (a b : BitVec w.bits) :
    Computes (.intCompare w r) [.ofInt w b, .ofInt w a]
      (.ok (.ofInteger .w32 (if r.Relates a b then 1 else 0)))
  | intUnary {w : Width} (op : IntUnary) (a : BitVec w.bits) :
    Computes (.intUnary w op) [.ofInt w a] (.ok (.ofInteger w (op.count a)))
  | intBinary {w : Width} (op : IntBinary) (a b : BitVec w.bits) :
    Computes (.intBinary w op) [.ofInt w b, .ofInt w a]
      ((op.onIntegers a b).map (Value.ofInteger w))
  | wrap (a : BitVec 64) : Computes .wrap [.ofInt .w64 a] (.ok (.ofInteger .w32 a.toNat))
  | extendSigned (a : BitVec 32) :
    Computes (.extend .signed) [.ofInt .w32 a] (.ok (.ofInteger .w64 a.toInt))
  | extendUnsigned (a : BitVec 32) :
    Computes (.extend .unsigned) [.ofInt .w32 a] (.ok (.ofInteger .w64 a.toNat))

/-- The types of the operands of an integer instruction. -/
def NumericOp.integerOperands? : NumericOp → Option (List NumType)
  | .eqz w | .intUnary w _ => some [w.intType]
  | .intCompare w _ | .intBinary w _ => some [w.intType, w.intType]
  | .wrap => some [.i64]
  | .extend _ => some [.i32]
  | _ => none

/-- The opcode of an integer instruction. -/
def NumericOp.integerOpcode? : NumericOp → Option Nat
  | .eqz .w32 => some 0x45
  | .intCompare .w32 r => some (0x46 + r.ctorIdx)
  | .eqz .w64 => some 0x50
  | .intCompare .w64 r => some (0x51 + r.ctorIdx)
  | .intUnary .w32 op => some (0x67 + op.ctorIdx)
  | .intBinary .w32 op => some (0x6a + op.ctorIdx)
  | .intUnary .w64 op => some (0x79 + op.ctorIdx)
  | .intBinary .w64 op => some (0x7c + op.ctorIdx)
  | .wrap => some 0xa7
  | .extend .signed => some 0xac
  | .extend .unsigned => some 0xad
  | _ => none

theorem NumericOp.opcode_of_integer {op : NumericOp} {types : List NumType}
    (h : op.integerOperands? = some types) :
    op.integerOpcode? = some (Instruction.numeric op).opcode.toNat := by
  cases op with
  | eqz w => cases w <;> decide
  | intCompare w r => cases w <;> cases r <;> decide
  | intUnary w op => cases w <;> cases op <;> decide
  | intBinary w op => cases w <;> cases op <;> decide
  | wrap => decide
  | extend s => cases s <;> decide
  | _ => cases h

theorem Value.type_ofInt (w : Width) (a : BitVec w.bits) : (ofInt w a).type = .num w.intType := by
  cases w <;> rfl

theorem Value.ofInt_injective {w : Width} {a b : BitVec w.bits} (h : ofInt w a = ofInt w b) :
    a = b := by
  cases w <;> cases h <;> rfl

theorem Value.toNat_bits_ofInt (w : Width) (a : BitVec w.bits) :
    (ofInt w a).bits.toNat = a.toNat := by
  cases w with
  | w32 => exact UInt32.toNat_toUInt64 _
  | w64 => rfl

theorem Value.bits_ofInt_eq_zero (w : Width) (a : BitVec w.bits) :
    ((ofInt w a).bits == 0) = decide (a.toNat = 0) := by
  rw [Bool.eq_iff_iff, beq_iff_eq, decide_eq_true_eq, ← UInt64.toNat_inj, toNat_bits_ofInt]
  rfl

theorem Value.exists_ofInt {w : Width} {v : Value} (h : v.type = .num w.intType) :
    ∃ a, v = ofInt w a := by
  cases w with
  | w32 =>
    cases v with
    | i32 bits => exact ⟨bits.toBitVec, rfl⟩
    | _ => cases h
  | w64 =>
    cases v with
    | i64 bits => exact ⟨bits.toBitVec, rfl⟩
    | _ => cases h

/-- An integer instruction makes something of any operands of its types. -/
theorem NumericOp.exists_computes {op : NumericOp} {types : List NumType} {values : List Value}
    (h : op.integerOperands? = some types)
    (hvalues : (values.take types.length).map Value.type = types.map .num) :
    ∃ operands rest result, op.Computes operands result ∧ values = operands ++ rest := by
  obtain ⟨top, rest, rfl, htop⟩ : ∃ top rest, values = top ++ rest ∧
      top.map Value.type = types.map .num :=
    ⟨_, _, (List.take_append_drop types.length values).symm, hvalues⟩
  have hone (w : Width) (htypes : top.map Value.type = [.num w.intType]) :
      ∃ a, top = [.ofInt w a] := by
    obtain ⟨v, rfl, hv⟩ := List.map_eq_singleton_iff.1 htypes
    obtain ⟨a, rfl⟩ := Value.exists_ofInt hv
    exact ⟨a, rfl⟩
  have htwo (w : Width) (htypes : top.map Value.type = [.num w.intType, .num w.intType]) :
      ∃ a b, top = [.ofInt w b, .ofInt w a] := by
    obtain ⟨v, others, rfl, hv, hothers⟩ := List.map_eq_cons_iff.1 htypes
    obtain ⟨u, rfl, hu⟩ := List.map_eq_singleton_iff.1 hothers
    obtain ⟨b, rfl⟩ := Value.exists_ofInt hv
    obtain ⟨a, rfl⟩ := Value.exists_ofInt hu
    exact ⟨a, b, rfl⟩
  cases op with
  | eqz w =>
    cases h
    obtain ⟨a, rfl⟩ := hone w htop
    exact ⟨_, rest, _, .eqz a, rfl⟩
  | intCompare w r =>
    cases h
    obtain ⟨a, b, rfl⟩ := htwo w htop
    exact ⟨_, rest, _, .intCompare r a b, rfl⟩
  | intUnary w op =>
    cases h
    obtain ⟨a, rfl⟩ := hone w htop
    exact ⟨_, rest, _, .intUnary op a, rfl⟩
  | intBinary w op =>
    cases h
    obtain ⟨a, b, rfl⟩ := htwo w htop
    exact ⟨_, rest, _, .intBinary op a b, rfl⟩
  | wrap =>
    cases h
    obtain ⟨a, rfl⟩ := hone .w64 htop
    exact ⟨_, rest, _, .wrap a, rfl⟩
  | extend s =>
    cases h
    obtain ⟨a, rfl⟩ := hone .w32 htop
    cases s with
    | signed => exact ⟨_, rest, _, .extendSigned a, rfl⟩
    | unsigned => exact ⟨_, rest, _, .extendUnsigned a, rfl⟩
  | _ => cases h

theorem Width.bits_pos (w : Width) : 0 < w.bits := by
  cases w <;> decide

theorem IntRelation.holdsBits_eq (r : IntRelation) {w : Width} (a b : BitVec w.bits) :
    r.holdsBits w (Value.ofInt w a).bits (Value.ofInt w b).bits = r.holds a b := by
  cases w with
  | w32 =>
    simp only [holdsBits, Value.ofInt, Value.bits, UInt32.toUInt32_toUInt64]
    exact r.holds32_eq ..
  | w64 => exact r.holds64_eq ..

/-- An operation on words, with its result as a value, is the operation on bit vectors. -/
theorem IntBinary.evalBits_eq (op : IntBinary) {w : Width} (a b : BitVec w.bits) :
    (op.evalBits w (Value.ofInt w a).bits (Value.ofInt w b).bits).map (Value.ofNumBits w.intType) =
      (op.eval a b).map (Value.ofInt w) := by
  cases w with
  | w32 =>
    simp only [evalBits, Value.ofInt, Value.bits, UInt32.toUInt32_toUInt64, eval32_eq]
    change _ = (op.eval (n := 32) a b).map (Value.ofInt .w32)
    cases op.eval (n := 32) a b with
    | ok v => exact congrArg (fun u => Except.ok (Value.i32 u)) (UInt32.toUInt32_toUInt64 _)
    | error e => rfl
  | w64 =>
    simp only [evalBits, Value.ofInt, Value.bits, eval64_eq]
    change _ = (op.eval (n := 64) a b).map (Value.ofInt .w64)
    cases op.eval (n := 64) a b <;> rfl

namespace Machine

/-! ### Effects -/

namespace Operands

variable {α : Type} {rest values : List Value} {type : NumType}

theorem popBits_ofInt (w : Width) (a : BitVec w.bits) (rest : List Value) :
    popBits w.intType (.ofInt w a :: rest) = .ok (Value.ofInt w a).bits rest :=
  bind_of_ok (popTyped_apply (Value.type_ofInt w a) rest) _

theorem popInt_ofInt (w : Width) (a : BitVec w.bits) (rest : List Value) :
    popInt w (.ofInt w a :: rest) = .ok a rest := by
  refine (bind_of_ok (popBits_ofInt w a rest) _).trans ?_
  rw [Value.toNat_bits_ofInt, BitVec.ofNat_toNat, BitVec.setWidth_eq]
  rfl

theorem pushBool_apply {p : Prop} [Decidable p] {b : Bool} (h : b = decide p) (rest : List Value) :
    pushBool b rest = .ok () (.ofInteger .w32 (if p then 1 else 0) :: rest) := by
  subst h
  by_cases hp : p <;> simp only [hp, decide_true, decide_false] <;> rfl

/-- What an instruction leaves: its result, or nothing but what was below its operands. -/
def leaving (result : Except IntegerFailure Value) (rest : List Value) :
    EStateM.Result Fault (List Value) Unit :=
  match result with
  | .ok v => .ok () (v :: rest)
  | .error e => .error (.ofIntegerFailure e) rest

theorem pushInt_apply {w : Width} {a : BitVec w.bits} {k : Int} (h : a = .ofInt w.bits k)
    (rest : List Value) : pushInt w a rest = leaving (.ok (.ofInteger w k)) rest := by
  subst h
  exact push_apply (Value.type_ofInt w _) rest

theorem intBinary_apply (op : IntBinary) {w : Width} (a b : BitVec w.bits) (rest : List Value) :
    numeric (.intBinary w op) (.ofInt w b :: .ofInt w a :: rest) =
      leaving ((op.onIntegers a b).map (Value.ofInteger w)) rest := by
  have hresult : (op.onIntegers a b).map (Value.ofInteger w) =
      (op.evalBits w (Value.ofInt w a).bits (Value.ofInt w b).bits).map
        (Value.ofNumBits w.intType) := by
    rw [op.evalBits_eq, op.eval_eq w.bits_pos]
    cases op.onIntegers a b <;> rfl
  refine (bind_of_ok (popBits_ofInt w b _) _).trans ?_
  refine (bind_of_ok (popBits_ofInt w a rest) _).trans ?_
  rw [hresult]
  cases op.evalBits w (Value.ofInt w a).bits (Value.ofInt w b).bits with
  | ok v => exact push_apply (Value.type_ofNumBits ..) rest
  | error e => rfl

/-- An integer instruction replaces its operands by the integer that it makes of them. -/
theorem numeric_apply {op : NumericOp} {operands : List Value}
    {result : Except IntegerFailure Value} (h : op.Computes operands result) (rest : List Value) :
    numeric op (operands ++ rest) = leaving result rest := by
  cases h with
  | @eqz w a =>
    exact (bind_of_ok (popBits_ofInt w a rest) _).trans
      (pushBool_apply (Value.bits_ofInt_eq_zero w a) rest)
  | @intCompare w r a b =>
    refine (bind_of_ok (popBits_ofInt w b _) _).trans ?_
    refine (bind_of_ok (popBits_ofInt w a rest) _).trans (pushBool_apply ?_ rest)
    rw [IntRelation.holdsBits_eq, Bool.eq_iff_iff, decide_eq_true_eq, r.holds_iff]
  | @intUnary w op a =>
    refine (bind_of_ok (popInt_ofInt w a rest) _).trans (pushInt_apply ?_ rest)
    rw [op.eval_eq, BitVec.ofInt_natCast]
  | intBinary op a b => exact intBinary_apply op a b rest
  | wrap a =>
    refine (bind_of_ok (popInt_ofInt .w64 a rest) _).trans (pushInt_apply ?_ rest)
    exact (BitVec.ofInt_natCast 32 a.toNat).symm
  | extendSigned a => exact bind_of_ok (popInt_ofInt .w32 a rest) _
  | extendUnsigned a =>
    refine (bind_of_ok (popInt_ofInt .w32 a rest) _).trans (pushInt_apply ?_ rest)
    exact ((BitVec.ofInt_natCast 64 a.toNat).trans (BitVec.ofNat_toNat 64 a)).symm

theorem popBits_bind_fails {k : UInt64 → Operands Unit}
    (h : (values.take 1).map Value.type ≠ [.num type]) :
    ∃ f rest, (popBits type >>= k) values = .error f rest ∧ f.OfOperand := by
  cases hv : popTyped (.num type) values with
  | ok v rest =>
    obtain ⟨htype, rfl⟩ := popTyped_ok hv
    exact absurd (congrArg (fun t => [t]) htype) h
  | error f rest => exact ⟨f, rest, bind_of_error (bind_of_error hv _) k, popTyped_fault hv⟩

theorem popBits_popBits_bind_fails {k : UInt64 → UInt64 → Operands Unit}
    (h : (values.take 2).map Value.type ≠ [.num type, .num type]) :
    ∃ f rest, (popBits type >>= fun b => popBits type >>= fun a => k b a) values = .error f rest ∧
      f.OfOperand := by
  by_cases hfirst : (values.take 1).map Value.type = [.num type]
  · obtain ⟨v, others, rfl⟩ : ∃ v others, values = v :: others := by
      cases values with
      | nil => cases hfirst
      | cons v others => exact ⟨v, others, rfl⟩
    have htype : v.type = .num type := List.head_eq_of_cons_eq hfirst
    have hsecond : (others.take 1).map Value.type ≠ [.num type] := by
      intro hothers
      exact h (by rw [List.take_succ_cons, List.map_cons, hothers, htype])
    obtain ⟨f, rest, hpop, hf⟩ := popBits_bind_fails (k := k v.bits) hsecond
    have hv : popBits type (v :: others) = .ok v.bits others :=
      bind_of_ok (popTyped_apply htype others) _
    exact ⟨f, rest, (bind_of_ok hv _).trans hpop, hf⟩
  · exact popBits_bind_fails hfirst

/-- Without operands of its types, an integer instruction leaves no value. -/
theorem numeric_fails {op : NumericOp} {types : List NumType} (h : op.integerOperands? = some types)
    (hvalues : (values.take types.length).map Value.type ≠ types.map .num) :
    ∃ f rest, numeric op values = .error f rest ∧ f.OfOperand := by
  cases op with
  | eqz w =>
    cases h
    exact popBits_bind_fails hvalues
  | intCompare w r | intBinary w op =>
    cases h
    exact popBits_popBits_bind_fails hvalues
  | intUnary w op =>
    cases h
    simp only [numeric, popInt, bind_assoc]
    exact popBits_bind_fails hvalues
  | wrap | extend s =>
    cases h
    simp only [numeric, popInt, bind_assoc]
    exact popBits_bind_fails hvalues
  | _ => cases h

end Operands

/-! ### Steps -/

namespace Config

variable {c c' : Config}

/-- A machine is about to execute a numeric instruction: which one, and in which body. -/
structure Computing (c : Config) where
  op : NumericOp
  body : Body
  finish : Finish
  now_eq : c.now = .body body finish
  code_eq : body.code[body.position]? = some (.numeric op)

namespace Computing

variable (p : c.Computing)

/-- The machine after the instruction has left a value on what was below its operands. -/
def computed (v : Value) (rest : List Value) : Config :=
  { c.withValues (v :: rest) with now := .body p.body.next p.finish }

/-- The machine after a trap. -/
def trapped (f : Fault) (rest : List Value) : Config :=
  ((c.withValues rest).raise f).leaveWith p.finish

/-- The machine after the instruction has made an integer of its operands, or none. -/
def completed (result : Except IntegerFailure Value) (rest : List Value) : Config :=
  match result with
  | .ok v => p.computed v rest
  | .error e => p.trapped (.ofIntegerFailure e) rest

theorem step_eq : c.step =
    match Operands.numeric p.op c.stack.current.values with
    | .ok _ values => { c.withValues values with now := .body p.body.next p.finish }
    | .error f values => p.trapped f values := by
  have hstep : c.step = c.resume p.body p.finish
      (c.setting.perform (p.body.step (.numeric p.op))) := by
    simp only [Config.step, p.now_eq]
    exact stepBody_of_some p.code_eq p.finish
  have hbody : p.body.step (.numeric p.op) =
      Exec.operands (.numeric p.op) >>= fun _ => pure (.proceed p.body.next) := rfl
  rw [hstep, Setting.perform, hbody]
  cases hr : Operands.numeric p.op c.stack.current.values with
  | ok u values =>
    rw [Exec.bind_of_ok (Exec.operands_of_ok (f := c.setting.focus) hr)]
    rfl
  | error f values =>
    rw [Exec.bind_of_error (Exec.operands_of_error (f := c.setting.focus) hr)]
    rfl

theorem step_of_computes {operands rest : List Value} {result : Except IntegerFailure Value}
    (h : p.op.Computes operands result) (hvalues : c.stack.current.values = operands ++ rest) :
    c.step = p.completed result rest := by
  rw [p.step_eq, hvalues, Operands.numeric_apply h]
  cases result <;> rfl

theorem computed_ne_trapped (v : Value) (f : Fault) (rest rest' : List Value) :
    p.computed v rest ≠ p.trapped f rest' := by
  intro h
  have hnow := congrArg Config.now h
  unfold trapped leaveWith leave at hnow
  split at hnow
  · split at hnow <;> cases hnow
  · cases hnow

theorem computed_injective {v v' : Value} {rest rest' : List Value}
    (h : p.computed v rest = p.computed v' rest') : v = v' :=
  List.head_eq_of_cons_eq (congrArg (fun d : Config => d.stack.current.values) h)

/-- Traps of faults in different words are different. -/
theorem message_of_trapped {f f' : Fault} {rest rest' : List Value}
    (h : p.trapped f rest = p.trapped f' rest') : f.message = f'.message := by
  have hevents (f : Fault) (rest : List Value) : (p.trapped f rest).world.events =
      c.world.events.push (.trapRaised f.message c.stack.trace.length) := by
    unfold trapped leaveWith leave
    split
    · split <;> rfl
    · rfl
  have hsame : (p.trapped f rest).world.events = (p.trapped f' rest').world.events := by rw [h]
  rw [hevents, hevents, Array.push_eq_push] at hsame
  exact (Event.trapRaised.inj hsame.1).1

/-! ### Division -/

section

variable {p} {w : Width} {op : IntBinary} {a b : BitVec w.bits} {rest : List Value}

theorem step_of_intBinary (hop : p.op = .intBinary w op)
    (hvalues : c.stack.current.values = .ofInt w b :: .ofInt w a :: rest) :
    c.step = p.completed ((op.onIntegers a b).map (Value.ofInteger w)) rest := by
  have hcomputes := NumericOp.Computes.intBinary op a b
  rw [← hop] at hcomputes
  exact p.step_of_computes hcomputes hvalues

theorem step_eq_trapped_iff (hop : p.op = .intBinary w op)
    (hvalues : c.stack.current.values = .ofInt w b :: .ofInt w a :: rest) (e : IntegerFailure) :
    c.step = p.trapped (.ofIntegerFailure e) rest ↔ op.onIntegers a b = .error e := by
  have hstep := step_of_intBinary hop hvalues
  cases hr : op.onIntegers a b with
  | ok k =>
    rw [hr] at hstep
    exact iff_of_false (fun h => p.computed_ne_trapped _ _ _ _ (hstep.symm.trans h)) nofun
  | error e' =>
    rw [hr] at hstep
    refine ⟨fun h => ?_, fun h => by cases h; exact hstep⟩
    have hmessage := p.message_of_trapped (hstep.symm.trans h)
    cases e <;> cases e' <;> first | rfl | exact absurd hmessage (by decide)

theorem eval_of_step {q : BitVec w.bits} (hop : p.op = .intBinary w op)
    (hvalues : c.stack.current.values = .ofInt w b :: .ofInt w a :: rest)
    (hstep : c.step = p.computed (.ofInt w q) rest) : op.eval a b = .ok q := by
  have hcomputes := step_of_intBinary hop hvalues
  rw [op.eval_eq w.bits_pos]
  cases hr : op.onIntegers a b with
  | ok k =>
    rw [hr] at hcomputes
    have hq := p.computed_injective (hcomputes.symm.trans hstep)
    exact congrArg Except.ok (Value.ofInt_injective hq)
  | error e =>
    rw [hr] at hcomputes
    exact absurd (hstep.symm.trans hcomputes) (p.computed_ne_trapped _ _ _ _)

end

/-- **Integer instructions are exact.** With operands of its types on top of the stack, an integer
instruction replaces exactly these by the integer that it makes of them. Otherwise it traps.
Division and remainder trap if and only if the divisor is zero, and a signed division also if it is
the least number by `-1`; where there are a quotient and a remainder, they belong together. -/
theorem integer_step :
    (∀ operands rest result, p.op.Computes operands result →
      c.stack.current.values = operands ++ rest → c.step = p.completed result rest) ∧
    (∀ types, p.op.integerOperands? = some types →
      p.op.integerOpcode? = some (Instruction.numeric p.op).opcode.toNat ∧
      ((c.stack.current.values.take types.length).map Value.type = types.map .num →
        ∃ operands rest result, p.op.Computes operands result ∧
          c.stack.current.values = operands ++ rest) ∧
      ((c.stack.current.values.take types.length).map Value.type ≠ types.map .num →
        ∃ f rest, c.step = p.trapped f rest ∧ f.OfOperand)) ∧
    ∀ w op (a b : BitVec w.bits) rest, p.op = .intBinary w op →
      c.stack.current.values = .ofInt w b :: .ofInt w a :: rest →
      (c.step = p.trapped .divideByZero rest ↔ op ∈ [.divS, .divU, .remS, .remU] ∧ b = 0) ∧
      (c.step = p.trapped .integerOverflow rest ↔
        op = .divS ∧ a.toInt = -2 ^ (w.bits - 1) ∧ b.toInt = -1) ∧
      (op = .remS → a.toInt = -2 ^ (w.bits - 1) → b.toInt = -1 →
        c.step = p.computed (.ofInteger w 0) rest) ∧
      ∀ (c' : Config) (p' : c'.Computing) op' rest' q r, p'.op = .intBinary w op' →
        c'.stack.current.values = .ofInt w b :: .ofInt w a :: rest' →
        c.step = p.computed (.ofInt w q) rest → c'.step = p'.computed (.ofInt w r) rest' →
        (op = .divS → op' = .remS → a.toInt = b.toInt * q.toInt + r.toInt ∧
          |r.toInt| < |b.toInt| ∧ (r.toInt = 0 ∨ r.toInt.sign = a.toInt.sign)) ∧
        (op = .divU → op' = .remU → a.toNat = b.toNat * q.toNat + r.toNat ∧
          r.toNat < b.toNat) := by
  refine ⟨fun operands rest result h hvalues => p.step_of_computes h hvalues, ?_, ?_⟩
  · intro types htypes
    refine ⟨NumericOp.opcode_of_integer htypes, NumericOp.exists_computes htypes, fun hvalues => ?_⟩
    obtain ⟨f, rest, hfails, hf⟩ := Operands.numeric_fails htypes hvalues
    exact ⟨f, rest, by rw [p.step_eq, hfails], hf⟩
  · intro w op a b rest hop hvalues
    refine ⟨?_, ?_, ?_, ?_⟩
    · exact (step_eq_trapped_iff hop hvalues .divideByZero).trans
        IntBinary.onIntegers_eq_divideByZero_iff
    · exact (step_eq_trapped_iff hop hvalues .overflow).trans IntBinary.onIntegers_eq_overflow_iff
    · rintro rfl - hb
      have hzero : IntBinary.remS.onIntegers a b = .ok 0 := by
        simp only [IntBinary.onIntegers, hb, Int.tmod_neg, Int.tmod_one]
        rfl
      have hstep := step_of_intBinary hop hvalues
      rw [hzero] at hstep
      exact hstep
    · intro c' p' op' rest' q r hop' hvalues' hq hr
      have hquotient := eval_of_step hop hvalues hq
      have hremainder := eval_of_step hop' hvalues' hr
      refine ⟨?_, ?_⟩
      · rintro rfl rfl
        exact IntBinary.eval_divS_remS hquotient hremainder
      · rintro rfl rfl
        exact IntBinary.eval_divU_remU hquotient hremainder

end Computing

/-- Any numeric instruction on any operand stack can be executed. -/
def onMemory_computing (m : Memory) (op : NumericOp) (values : List Value) :
    (onMemory m (.numeric op) values).Computing where
  op := op
  body := { code := #[.numeric op] }
  finish := .stop
  now_eq := rfl
  code_eq := rfl

theorem Computing.integer_step_seven_by_two :
    let m : Memory := ⟨⟨#[]⟩, none⟩
    let quotient : NumericOp := .intBinary .w32 .divS
    let remainder : NumericOp := .intBinary .w32 .remS
    let operands : List Value := [.i32 2, .i32 (-7)]
    let extremes : List Value := [.i32 (-1), .i32 0x80000000]
    (onMemory m (.numeric quotient) operands).step =
      (onMemory_computing m quotient operands).computed (.i32 (-3)) [] ∧
    (onMemory m (.numeric remainder) operands).step =
      (onMemory_computing m remainder operands).computed (.i32 (-1)) [] ∧
    (-7 : BitVec 32).toInt = (2 : BitVec 32).toInt * (-3 : BitVec 32).toInt +
      (-1 : BitVec 32).toInt ∧
    (onMemory m (.numeric quotient) extremes).step =
      (onMemory_computing m quotient extremes).trapped .integerOverflow [] ∧
    (onMemory m (.numeric remainder) extremes).step =
      (onMemory_computing m remainder extremes).computed (.i32 0) [] ∧
    ∃ f rest, (onMemory m (.numeric quotient) [.i64 2, .i32 7]).step =
      (onMemory_computing m quotient [.i64 2, .i32 7]).trapped f rest ∧ f.OfOperand := by
  intro m quotient remainder operands extremes
  obtain ⟨hq, -, hdivision⟩ := (onMemory_computing m quotient operands).integer_step
  obtain ⟨hr, -, -⟩ := (onMemory_computing m remainder operands).integer_step
  obtain ⟨-, -, hoverflow⟩ := (onMemory_computing m quotient extremes).integer_step
  obtain ⟨-, -, hleast⟩ := (onMemory_computing m remainder extremes).integer_step
  obtain ⟨-, htypes, -⟩ := (onMemory_computing m quotient [.i64 2, .i32 7]).integer_step
  have hq := hq _ [] _ (.intBinary (w := .w32) .divS (-7 : BitVec 32) (2 : BitVec 32)) rfl
  have hr := hr _ [] _ (.intBinary (w := .w32) .remS (-7 : BitVec 32) (2 : BitVec 32)) rfl
  obtain ⟨-, -, -, htogether⟩ := hdivision .w32 .divS (-7 : BitVec 32) (2 : BitVec 32) [] rfl rfl
  obtain ⟨hsum, -⟩ := (htogether _ _ .remS [] (-3 : BitVec 32) (-1 : BitVec 32) rfl rfl hq hr).1
    rfl rfl
  obtain ⟨-, htraps, -, -⟩ := hoverflow .w32 .divS (BitVec.intMin 32) (-1 : BitVec 32) [] rfl rfl
  obtain ⟨-, -, hzero, -⟩ := hleast .w32 .remS (BitVec.intMin 32) (-1 : BitVec 32) [] rfl rfl
  exact ⟨hq, hr, hsum, htraps.2 ⟨rfl, by decide, by decide⟩,
    hzero rfl (by decide) (by decide), (htypes _ rfl).2.2 (by decide)⟩

end Config

end Machine
end WasmCore
