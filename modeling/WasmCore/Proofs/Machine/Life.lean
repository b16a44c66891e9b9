import Mathlib.Logic.Relation
import WasmCore.Proofs.Machine.CallContract
import WasmCore.Proofs.Machine.Typing

/-!
# The life of a thread

A thread is made with a bottom frame, and its owner uses it again and again: it evaluates and calls,
works on the current frame, and enters and leaves frames. `Config.Next` is everything that can
happen next, a step of a run included, and `Config.Occurs` says that a machine is one that a thread
can become in this way. The world may be changed by others at any time.

`Config.Occurs.typing` is what always holds of the operand stacks and locals of a thread.
-/

namespace WasmCore.Machine

/-- A thread that does nothing. -/
def Thread.idle (t : Thread) (w : World) : Config := t.config w (.answer (.ok []))

namespace Config

/-- The thread of a machine. -/
def thread (c : Config) : Thread := ⟨c.stack, c.ceiling⟩

/-- What can happen next in the life of a thread: a step, a change that others make, and, between
two runs, something that the owner of the thread does. -/
inductive Next : Config → Config → Prop
  | step (c : Config) : Next c c.step
  | change (c : Config) (w : World) : Next c { c with world := w }
  | eval {c : Config} (h : c.isHalted = true) (a : ModuleAddr) (code : Array Instruction) :
    Next c (c.thread.evalConfig c.world a code)
  | call {c : Config} (h : c.isHalted = true) (a : ModuleAddr) (f : FunctionAddr)
    (arguments : List (Array Instruction)) : Next c (c.thread.callConfig c.world a f arguments)
  | invoke {c : Config} (h : c.isHalted = true) (f : FunctionAddr) :
    Next c (c.thread.config c.world (.invoke f))
  | exec {c : Config} (h : c.isHalted = true) (code : Array Instruction) (arity : Option Nat) :
    Next c (c.thread.config c.world (.body { code, arity } .stop))
  | push {c : Config} (h : c.isHalted = true) (v : Value) : Next c ((c.thread.push v).idle c.world)
  | pop {c : Config} (h : c.isHalted = true) :
    Next c ((c.thread.pop c.world).thread.idle (c.thread.pop c.world).world)
  | enter {c : Config} (h : c.isHalted = true) (location : Location) (locals : List Value) :
    Next c ((c.thread.enter location locals).idle c.world)
  | leave {c : Config} {t : Thread} (h : c.isHalted = true) (ht : c.thread.leave = .ok t) :
    Next c (t.idle c.world)

/-- A thread can become this machine. -/
def Occurs (c : Config) : Prop :=
  ∃ a ceiling w, Relation.ReflTransGen Next ((Thread.new a ceiling).idle w) c

/-- The machine can become another one without leaving the frame over `height` others. -/
def Within (height : Nat) (c c' : Config) : Prop :=
  Relation.ReflTransGen (fun c c' => c.Next c' ∧ height < c'.stack.depth) c c'

variable {c c' : Config}

/-- **Nothing that happens to a thread breaks the types of operands and locals.** -/
theorem Next.moves (h : c.Next c') : c.stack.Moves c'.stack := by
  cases h with
  | step => exact c.step_moves
  | change w => exact (CallStack.Settles.refl _).moves
  | eval h a code =>
    refine moves_enter ?_ ?_ ?_ _ _
    · exact .refl _
    · rfl
    · rfl
  | call h a f arguments =>
    refine moves_enter ?_ ?_ ?_ _ _
    · exact .refl _
    · rfl
    · rfl
  | invoke h f => exact (CallStack.Settles.refl _).moves
  | exec h code arity => exact (CallStack.Settles.refl _).moves
  | push h v => exact (c.stack.settles_pushAll [v]).moves
  | pop h =>
    unfold Thread.pop
    split
    · rename_i v values hpop
      have hrest : values <:+ c.stack.current.values := ⟨[v], (Operands.pop_ok hpop).symm⟩
      exact (CallStack.settles_values hrest).moves
    · exact (CallStack.Settles.refl _).moves
  | enter h location locals => exact CallStack.moves_enter (.refl _) rfl rfl
  | leave h ht =>
    unfold Thread.leave at ht
    split at ht
    · rename_i s hs
      cases ht
      exact (CallStack.settles_leave? hs).moves
    · cases ht

theorem Occurs.next (h : c.Occurs) (hnext : c.Next c') : c'.Occurs := by
  obtain ⟨a, ceiling, w, hlater⟩ := h
  exact ⟨a, ceiling, w, hlater.tail hnext⟩

theorem Occurs.run (h : c.Occurs) (n : Nat) : (c.run n).Occurs := by
  induction n generalizing c with
  | zero => exact h
  | succ n ih =>
    rw [run_succ]
    exact ih (h.next (.step c))

/-- A run that does not leave a frame. -/
theorem within_run {height n : Nat} (h : ∀ k < n, height < (c.run (k + 1)).stack.depth) :
    c.Within height (c.run n) := by
  induction n with
  | zero => exact .refl
  | succ n ih =>
    refine (ih fun k hk => h k (Nat.lt_succ_of_lt hk)).tail ⟨?_, h n (Nat.lt_succ_self n)⟩
    rw [run_succ_last]
    exact .step _

theorem Occurs.proper (h : c.Occurs) : c.stack.Proper := by
  obtain ⟨a, ceiling, w, hlater⟩ := h
  induction hlater with
  | refl =>
    intro f hf v hv
    cases List.mem_singleton.1 hf
    cases hv
  | tail _ hnext ih => exact hnext.moves.proper ih

/-- A frame keeps its shape until it is left. -/
theorem Within.shape {height : Nat} (h : c.Within height c') (hc : height < c.stack.depth) :
    (c'.stack.frameAt? height).map Frame.shape = (c.stack.frameAt? height).map Frame.shape ∧
      height < c'.stack.depth := by
  induction h with
  | refl => exact ⟨rfl, hc⟩
  | tail _ hnext ih =>
    obtain ⟨hshape, hbefore⟩ := ih
    exact ⟨(hnext.1.moves.shape_frameAt? hbefore hnext.2).trans hshape, hnext.2⟩

/-- **The types of operands and locals.** Whatever a thread executes and whatever host functions
return or push, all values on its operand stacks are numbers, of 32 bits where the type says so; and
from the entry of a frame until it is left, its locals have the same number and the same types. -/
theorem Occurs.typing (h : c.Occurs) :
    (∀ f ∈ c.stack.frames, ∀ v ∈ f.values, v.Proper) ∧
    ∀ height f c', c.stack.frameAt? height = some f → c.Within height c' →
      ∃ f', c'.stack.frameAt? height = some f' ∧ f'.location = f.location ∧
        f'.localTypes = f.localTypes := by
  refine ⟨h.proper, fun height f c' hf hwithin => ?_⟩
  have hheight : height < c.stack.depth := by
    obtain ⟨hlt, -⟩ := List.getElem?_eq_some_iff.1 hf
    simpa [CallStack.frames, CallStack.depth_eq] using hlt
  obtain ⟨hshape, -⟩ := hwithin.shape hheight
  rw [hf, Option.map_some, Option.map_eq_some_iff] at hshape
  obtain ⟨f', hf', hsame⟩ := hshape
  exact ⟨f', hf', congrArg Prod.fst hsame, congrArg Prod.snd hsame⟩

/-- The machine that has entered a function which calls back through the host. -/
def reentering : Config := (Thread.caller.config Thread.reentrant (.invoke ⟨1⟩)).run 1

theorem reentering_occurs : reentering.Occurs := by
  have hnew : ((Thread.new ⟨0⟩ 3).idle Thread.reentrant).Occurs := ⟨⟨0⟩, 3, _, .refl⟩
  have hfirst := hnew.next (.push rfl (.i32 9))
  have hsecond := hfirst.next (.push rfl (.i32 7))
  exact (hsecond.next (.invoke rfl ⟨1⟩)).run 1

theorem typing_reentering : reentering.Occurs ∧ reentering.Within 1 (reentering.run 10) ∧
    (reentering.run 5).stack.depth = 3 ∧ (∀ f ∈ reentering.stack.frames, ∀ v ∈ f.values, v.Proper) ∧
    ∃ f f', reentering.stack.frameAt? 1 = some f ∧ f.localTypes = [.i32] ∧
      (reentering.run 10).stack.frameAt? 1 = some f' ∧ f'.localTypes = [.i32] := by
  have hwithin : reentering.Within 1 (reentering.run 10) := within_run (by decide)
  obtain ⟨hvalues, hshapes⟩ := reentering_occurs.typing
  obtain ⟨f', hf', -, htypes⟩ := hshapes 1 _ _ rfl hwithin
  exact ⟨reentering_occurs, hwithin, by decide, hvalues, _, f', rfl, rfl, hf', htypes⟩

end Config

end WasmCore.Machine
