import WasmCore.Proofs.Machine.Effects

/-!
# Runs amid changes

A machine is not alone with its world. Between its requests a host function writes into memories,
instantiates modules and lets other threads run; and if it has a state of its own, it is another
program each time that it is called. All this is a change of the world between two steps, and
`Config.runAmid` is a run in which the world changes after every step, in any way. A run by itself
is the one in which nothing changes (`Config.runAmid_still`).

What steps and changes keep holds all along (`Config.runAmid_invariant`). Changes do not reach the
calls in progress, so that a machine which has halted stays as it is in another world
(`Config.exists_runAmid_eq`).
-/

namespace WasmCore.Machine

/-! ### Changes -/

/-- What others make of the world after each of the steps of a machine. -/
abbrev Changes := Nat → World → World

namespace Changes

variable {changes : Changes} {P : Store → Prop}

/-- Nothing is changed. -/
def still : Changes := fun _ w => w

/-- The changes after the first one. -/
def tail (changes : Changes) : Changes := fun k => changes (k + 1)

/-- If the store has the property, it still has it after each change. -/
def Keep (changes : Changes) (P : Store → Prop) : Prop :=
  ∀ k w, P w.store → P (changes k w).store

theorem still_keep (P : Store → Prop) : still.Keep P := fun _ _ => id

theorem Keep.tail (h : changes.Keep P) : changes.tail.Keep P := fun k => h (k + 1)

end Changes

namespace Config

variable {c : Config} {changes : Changes} {m n : Nat}

/-- The machine after a change of its world. -/
def changed (c : Config) (f : World → World) : Config := { c with world := f c.world }

/-- The machine after some steps, each of them followed by a change. -/
def runAmid (c : Config) (changes : Changes) : Nat → Config
  | 0 => c
  | n + 1 => (c.runAmid changes n).step.changed (changes n)

/-! ### Runs -/

theorem runAmid_succ (c : Config) (changes : Changes) (n : Nat) :
    c.runAmid changes (n + 1) = (c.runAmid changes n).step.changed (changes n) := rfl

theorem runAmid_succ_first (c : Config) (changes : Changes) (n : Nat) :
    c.runAmid changes (n + 1) = (c.step.changed (changes 0)).runAmid changes.tail n := by
  induction n with
  | zero => rfl
  | succ n ih =>
    rw [runAmid_succ, ih]
    rfl

/-- A run by itself. -/
theorem runAmid_still (c : Config) (n : Nat) : c.runAmid .still n = c.run n := by
  induction n with
  | zero => rfl
  | succ n ih =>
    rw [runAmid_succ, ih, run_succ_last]
    rfl

/-- **What steps and changes keep holds all along.** -/
theorem runAmid_invariant {I : Config → Prop} (h : I c) (hstep : ∀ c, I c → I c.step)
    (hchange : ∀ k c, I c → I (c.changed (changes k))) (n : Nat) : I (c.runAmid changes n) := by
  induction n with
  | zero => exact h
  | succ n ih => exact hchange n _ (hstep _ ih)

/-- What does not depend on the contents of memories is kept by steps. -/
theorem runAmid_store {P : Store → Prop} (hP : ∀ s s' : Store, s.Reworked s' → P s → P s')
    (hchanges : changes.Keep P) (h : P c.world.store) (n : Nat) :
    P (c.runAmid changes n).world.store :=
  runAmid_invariant (I := fun c => P c.world.store) h
    (fun c => hP _ _ (step_reworkedAt c).toReworked) (fun k c => hchanges k c.world) n

/-! ### Halting -/

/-- Once halted, only the world changes. -/
theorem exists_runAmid_eq (h : (c.runAmid changes m).isHalted = true) (hmn : m ≤ n) :
    ∃ w, c.runAmid changes n = { c.runAmid changes m with world := w } := by
  obtain ⟨k, rfl⟩ := Nat.exists_eq_add_of_le hmn
  induction k with
  | zero => exact ⟨_, rfl⟩
  | succ k ih =>
    obtain ⟨w, hw⟩ := ih (Nat.le_add_right m k)
    have hhalted : ({ c.runAmid changes m with world := w } : Config).isHalted = true := h
    rw [Nat.add_succ, runAmid_succ, hw, step_of_isHalted hhalted]
    exact ⟨_, rfl⟩

end Config

end WasmCore.Machine
