import WasmCore.Proofs.Machine.Effects
import WasmCore.Proofs.Machine.Operands

/-!
# Faults of instructions

Which faults an instruction can end with is read off its composition: `Exec.Script.FailsIn` holds if
every elementary effect in it fails only with faults in a set. So no instruction ends with the fault
of too many nested calls (`Body.shallow_of_step`); that one is left to the entry of a frame.
-/

namespace WasmCore

/-- Not the fault of too many nested calls. -/
def Fault.Shallow (f : Fault) : Prop := f.kind ≠ .callStackOverflow

theorem Fault.shallow_ofValueError (e : ValueError) : (Fault.ofValueError e).Shallow := by
  cases e <;> exact nofun

theorem Fault.shallow_ofIntegerFailure (e : IntegerFailure) :
    (Fault.ofIntegerFailure e).Shallow := by
  cases e <;> exact nofun

theorem shallow_of_truncateToInt {F : FloatFormat} {s : Signedness} {n bits : Nat} {f : Fault}
    (h : truncateToInt F s n bits = .error f) : f.Shallow := by
  unfold truncateToInt at h
  split at h
  · cases h
    exact nofun
  · cases h
    exact nofun
  · dsimp only at h
    split at h
    · cases h
    · cases h
      exact nofun

namespace Machine

/-! ### Operand stacks -/

namespace Operands.Script

variable {α : Type} {P : Fault → Prop}

/-- Every elementary operation fails only with faults in `P`. -/
def FailsIn (P : Fault → Prop) : {α : Type} → {x : Operands α} → Operands.Script x → Prop
  | _, _, .pure _ => True
  | _, _, .throw f => P f
  | _, _, .bind sx sk => sx.FailsIn P ∧ ∀ a, (sk a).FailsIn P
  | _, _, .pop => P .stackUnderflow
  | _, _, .push _ => True
  | _, _, .arithmetic _ _ _ _ => ∀ e, P (.ofIntegerFailure e)

theorem FailsIn.fault {x : Operands α} {sx : Operands.Script x} (h : sx.FailsIn P)
    {stack rest : List Value} {f : Fault} (hx : x stack = .error f rest) : P f := by
  induction sx generalizing stack rest with
  | pure a => cases hx
  | throw e =>
    cases hx
    exact h
  | bind sx sk ihx ihk =>
    rcases bind_eq_error hx with hfirst | ⟨a, middle, -, hthen⟩
    · exact ihx h.1 hfirst
    · exact ihk a (h.2 a) hthen
  | pop =>
    cases stack with
    | nil =>
      cases hx
      exact h
    | cons v stack => cases hx
  | push v => cases hx
  | arithmetic op w a b =>
    cases hop : op.evalBits w a b with
    | ok v =>
      rw [hop] at hx
      cases hx
    | error e =>
      rw [hop] at hx
      cases hx
      exact h e

theorem failsIn_ite {x y : Operands α} {p : Prop} [Decidable p] {sx : Operands.Script x}
    {sy : Operands.Script y} (hx : sx.FailsIn P) (hy : sy.FailsIn P) :
    (ite (p := p) sx sy).FailsIn P := by
  unfold ite
  split
  · exact hx
  · exact hy

theorem failsIn_popTyped (type : ValueType) : (popTyped type).FailsIn Fault.Shallow := by
  refine ⟨nofun, fun v => ?_⟩
  dsimp only
  generalize v.check type = checked
  cases checked with
  | ok u => trivial
  | error e => exact Fault.shallow_ofValueError e

theorem failsIn_popI32 : popI32.FailsIn Fault.Shallow := ⟨failsIn_popTyped _, fun _ => trivial⟩

theorem failsIn_popBits (type : NumType) : (popBits type).FailsIn Fault.Shallow :=
  ⟨failsIn_popTyped _, fun _ => trivial⟩

theorem failsIn_popInt (w : Width) : (popInt w).FailsIn Fault.Shallow :=
  ⟨failsIn_popBits _, fun _ => trivial⟩

theorem failsIn_popFloat (w : Width) : (popFloat w).FailsIn Fault.Shallow := failsIn_popBits _

theorem failsIn_select : select.FailsIn Fault.Shallow :=
  ⟨failsIn_popI32, fun _ => ⟨nofun, fun _ => ⟨failsIn_popTyped _, fun _ => trivial⟩⟩⟩

theorem failsIn_effectiveAddress (offset : UInt32) :
    (effectiveAddress offset).FailsIn Fault.Shallow := by
  refine ⟨failsIn_popI32, fun _ => ?_⟩
  exact failsIn_ite trivial nofun

theorem failsIn_numeric (op : NumericOp) : (numeric op).FailsIn Fault.Shallow := by
  cases op with
  | eqz w => exact ⟨failsIn_popBits _, fun _ => trivial⟩
  | intCompare w r => exact ⟨failsIn_popBits _, fun _ => ⟨failsIn_popBits _, fun _ => trivial⟩⟩
  | floatCompare w r => exact ⟨failsIn_popFloat _, fun _ => ⟨failsIn_popFloat _, fun _ => trivial⟩⟩
  | intUnary w op => exact ⟨failsIn_popInt _, fun _ => trivial⟩
  | intBinary w op =>
    exact ⟨failsIn_popBits _, fun _ => ⟨failsIn_popBits _, fun _ =>
      Fault.shallow_ofIntegerFailure⟩⟩
  | floatUnary w op => exact ⟨failsIn_popFloat _, fun _ => trivial⟩
  | floatBinary w op => exact ⟨failsIn_popFloat _, fun _ => ⟨failsIn_popFloat _, fun _ => trivial⟩⟩
  | wrap => exact ⟨failsIn_popInt _, fun _ => trivial⟩
  | extend s => exact ⟨failsIn_popInt _, fun _ => trivial⟩
  | truncate target source s =>
    refine ⟨failsIn_popFloat _, fun a => ?_⟩
    dsimp only
    generalize hv : truncateToInt source.format s target.bits a.toNat = truncated
    cases truncated with
    | ok v => trivial
    | error f => exact shallow_of_truncateToInt hv
  | convert target source s => exact ⟨failsIn_popInt _, fun _ => trivial⟩
  | demote => exact ⟨failsIn_popFloat _, fun _ => trivial⟩
  | promote => exact ⟨failsIn_popFloat _, fun _ => trivial⟩
  | floatBits w => exact ⟨failsIn_popFloat _, fun _ => trivial⟩
  | ofFloatBits w => exact ⟨failsIn_popInt _, fun _ => trivial⟩

end Operands.Script

theorem Operands.shallow_of_pop {stack rest : List Value} {f : Fault}
    (h : pop stack = .error f rest) : f.Shallow := by
  cases stack with
  | nil =>
    cases h
    exact nofun
  | cons v stack => cases h

theorem Operands.shallow_of_popValues {types : List ValueType} {stack rest : List Value}
    {f : Fault} (h : popValues types stack = .error f rest) : f.Shallow := by
  induction types generalizing rest with
  | nil => cases h
  | cons type types ih =>
    rw [popValues_cons] at h
    rcases bind_eq_error h with hothers | ⟨others, middle, -, hrest⟩
    · exact ih hothers
    · rcases bind_eq_error hrest with hv | ⟨v, last, -, hpure⟩
      · exact (Script.failsIn_popTyped type).fault hv
      · cases hpure

/-! ### Instructions -/

/-- The effect ends with no faults but those in `P`. -/
def Exec.Only {α : Type} (P : Fault → Prop) (x : Exec α) : Prop :=
  ∀ f f' e, x f = .error (.fault e) f' → P e

namespace Exec.Only

variable {α β : Type} {P : Fault → Prop}

theorem bind {x : Exec α} {k : α → Exec β} (hx : Only P x) (hk : ∀ a, Only P (k a)) :
    Only P (x >>= k) := by
  intro f f' e h
  cases hr : x f with
  | ok a middle =>
    rw [bind_of_ok hr] at h
    exact hk a middle f' e h
  | error stop middle =>
    rw [bind_of_error hr] at h
    cases h
    exact hx f f' e hr

theorem operands {x : Operands α} (hx : ∀ stack rest e, x stack = .error e rest → P e) :
    Only P (Exec.operands x) := by
  intro f f' e h
  simp only [Exec.operands] at h
  split at h
  · cases h
  · cases h
    exact hx _ _ _ (by assumption)

theorem getLocal {index : UInt32} (h : P (.unknownLocal index.toNat)) :
    Only P (Exec.getLocal index) := by
  intro f f' e hx
  rw [getLocal_apply] at hx
  cases hl : f.frame.locals[index.toNat]? with
  | none =>
    rw [hl] at hx
    cases hx
    exact h
  | some v =>
    rw [hl] at hx
    cases hx

theorem memoryAddr (h : P .noMemory) : Only P Exec.memoryAddr := by
  intro f f' e hx
  rw [memoryAddr_apply] at hx
  cases hm : f.memory? with
  | none =>
    rw [hm] at hx
    cases hx
    exact h
  | some a =>
    rw [hm] at hx
    cases hx

/-- A memory that is not there is a defect and no fault. -/
theorem inspect (a : MemoryAddr) (look : Memory → α) : Only P (Exec.inspect a look) := by
  intro f f' e hx
  rw [inspect_apply] at hx
  cases hm : f.store.memory? a with
  | none =>
    rw [hm] at hx
    cases hx
  | some m =>
    rw [hm] at hx
    cases hx

end Exec.Only

namespace Exec.Script

variable {α : Type} {known : Option MemoryAddr} {P : Fault → Prop}

/-- Every elementary effect fails only with faults in `P`. -/
def FailsIn (P : Fault → Prop) :
    {known : Option MemoryAddr} → {α : Type} → {x : Exec α} → Exec.Script known x → Prop
  | _, _, _, .pure _ => True
  | _, _, _, .fault f => P f
  | _, _, _, .bind sx sk => sx.FailsIn P ∧ ∀ a, (sk a).FailsIn P
  | _, _, _, .operands sx => sx.FailsIn P
  | _, _, _, .height => True
  | _, _, _, .unwind _ _ => True
  | _, _, _, .getLocal index => P (.unknownLocal index.toNat)
  | _, _, _, .setLocal index =>
    P (.unknownLocal index.toNat) ∧ ∀ type, (Operands.Script.popTyped type).FailsIn P
  | _, _, _, .label _ _ sx sk => sx.FailsIn P ∧ ∀ l outer entered, (sk l outer entered).FailsIn P
  | _, _, _, .target _ _ _ => True
  | _, _, _, .memory sk => P .noMemory ∧ ∀ a, (sk a).FailsIn P
  | _, _, _, .pages _ => True
  | _, _, _, .read _ _ _ => True
  | _, _, _, .write _ _ _ _ => P .outOfBounds
  | _, _, _, .grow _ _ => True

theorem FailsIn.only {x : Exec α} {sx : Exec.Script known x} (h : sx.FailsIn P) : Only P x := by
  induction sx with
  | pure a => nofun
  | fault e =>
    rintro f f' e ⟨⟩
    exact h
  | bind sx sk ihx ihk => exact (ihx h.1).bind fun a => ihk a (h.2 a)
  | operands sx => exact .operands fun _ _ _ => Operands.Script.FailsIn.fault h
  | height => nofun
  | unwind => nofun
  | getLocal index => exact .getLocal h
  | setLocal index =>
    refine (Only.getLocal h.1).bind fun old => ?_
    refine (Only.operands fun _ _ _ => (h.2 old.type).fault).bind fun v => ?_
    exact Only.bind nofun fun _ => nofun
  | label labels depth _ _ ihx ihk =>
    split
    · exact ihx h.1
    · exact ihk _ _ _ (h.2 _ _ _)
  | target => nofun
  | memory sk ihk => exact (Only.memoryAddr h.1).bind fun a => ihk a (h.2 a)
  | pages a | read a => exact .inspect a _
  | write a address width value =>
    refine (Only.inspect a _).bind fun fits => ?_
    split
    · nofun
    · rintro f f' e ⟨⟩
      exact h
  | grow a delta =>
    -- what is put on the operand stack is put there in any case
    have hpush (n : UInt32) : Only P (Exec.operands (Operands.pushI32 n)) := .operands nofun
    refine Only.bind nofun fun f => (Only.inspect a _).bind fun pages => ?_
    refine (Only.inspect a _).bind fun can => ?_
    split
    · exact Only.bind nofun fun _ => hpush _
    · exact hpush _

theorem failsIn_ite {x y : Exec α} {p : Prop} [Decidable p] {sx : Exec.Script known x}
    {sy : Exec.Script known y} (hx : sx.FailsIn P) (hy : sy.FailsIn P) :
    (ite (p := p) sx sy).FailsIn P := by
  unfold ite
  split
  · exact hx
  · exact hy

theorem failsIn_cast {x y : Exec α} (h : x = y) {sx : Exec.Script known x} (hx : sx.FailsIn P) :
    (h ▸ sx).FailsIn P := by
  cases h
  exact hx

theorem failsIn_load (op : LoadOp) (offset : UInt32) : (load op offset).FailsIn Fault.Shallow := by
  refine ⟨nofun, fun a => ⟨Operands.Script.failsIn_effectiveAddress offset, fun address => ?_⟩⟩
  refine ⟨trivial, fun read => ?_⟩
  cases read with
  | none => exact nofun
  | some n => trivial

theorem failsIn_store (op : StoreOp) (offset : UInt32) :
    (store op offset).FailsIn Fault.Shallow := by
  refine ⟨nofun, fun a => ⟨Operands.Script.failsIn_popTyped _, fun v => ?_⟩⟩
  exact ⟨Operands.Script.failsIn_effectiveAddress offset, fun address => nofun⟩

theorem failsIn_plain (i : Instruction) : (plain i).FailsIn Fault.Shallow := by
  cases i with
  | drop => exact ⟨nofun, fun _ => trivial⟩
  | select => exact Operands.Script.failsIn_select
  | localGet index => exact ⟨nofun, fun _ => trivial⟩
  | localSet index => exact ⟨⟨nofun, Operands.Script.failsIn_popTyped⟩, fun _ => trivial⟩
  | localTee index => exact ⟨⟨nofun, Operands.Script.failsIn_popTyped⟩, fun _ => trivial⟩
  | load op align offset => exact failsIn_load op offset
  | store op align offset => exact failsIn_store op offset
  | memorySize => exact ⟨nofun, fun _ => ⟨trivial, fun _ => trivial⟩⟩
  | memoryGrow => exact ⟨nofun, fun _ => ⟨Operands.Script.failsIn_popI32, fun _ => trivial⟩⟩
  | const type payload => trivial
  | numeric op => exact Operands.Script.failsIn_numeric op
  | _ => exact nofun

end Exec.Script

namespace Body

variable (b : Body)

theorem failsIn_branchScript (depth : UInt32) : (b.branchScript depth).FailsIn Fault.Shallow :=
  ⟨⟨trivial, fun _ => trivial⟩, fun _ _ _ => ⟨trivial, fun _ => trivial⟩⟩

theorem failsIn_script (i : Instruction) : (b.script i).FailsIn Fault.Shallow := by
  cases i with
  | unreachable => exact nofun
  | nop => trivial
  | block => exact ⟨trivial, fun _ => trivial⟩
  | loop => exact ⟨trivial, fun _ => trivial⟩
  | cond type elseAt endAt =>
    refine ⟨Operands.Script.failsIn_popI32, fun _ => ⟨trivial, fun _ => ?_⟩⟩
    refine Exec.Script.failsIn_ite ?_ trivial
    cases elseAt <;> trivial
  | otherwise => exact ⟨nofun, fun _ _ _ => trivial⟩
  | close => exact Exec.Script.failsIn_cast _ ⟨trivial, fun _ _ _ => trivial⟩
  | br depth => exact b.failsIn_branchScript depth
  | brIf depth =>
    refine ⟨Operands.Script.failsIn_popI32, fun _ => ?_⟩
    exact Exec.Script.failsIn_ite trivial (b.failsIn_branchScript depth)
  | brTable targets fallback =>
    exact ⟨Operands.Script.failsIn_popI32, fun _ => ⟨trivial, b.failsIn_branchScript⟩⟩
  | ret => exact ⟨trivial, fun _ => trivial⟩
  | call => trivial
  | _ => exact ⟨Exec.Script.failsIn_plain _, fun _ => trivial⟩

/-- **No instruction ends with the fault of too many nested calls.** -/
theorem shallow_of_step {i : Instruction} {f f' : Focus} {e : Fault}
    (h : b.step i f = .error (.fault e) f') : e.Shallow :=
  (b.failsIn_script i).only f f' e h

end Body

end Machine

end WasmCore
