import Mathlib.Logic.Relation
import WasmCore.Proofs.Machine.Effects
import WasmCore.Proofs.Store.Persistence

/-!
# Histories of stores

A store changes when modules are instantiated, successfully or not, when host modules are
registered, when machines run in it, and when the host writes into a memory. `Store.Later` is any
sequence of such changes, and a store is `Store.Reachable` if it comes from an empty one. Every
change only extends the store (`Store.Later.grows`).

A machine may stop at any step and another one go on, so that these sequences also cover changes
which a host function makes while it is being called.
-/

namespace WasmCore

/-! ### Declared host modules -/

namespace HostModule

/-- What a declared export denotes is there. -/
def Has (m : HostModule) : DeclaredItem → Prop
  | .function i => i < m.functions.size
  | .memory i => i < m.memories.size

/-- All functions are implemented by the host, and every export denotes one of the functions or
memories. -/
structure Proper (m : HostModule) : Prop where
  functions : ∀ f ∈ m.functions, ∃ run, f.body = .host run
  exports : ∀ e ∈ m.exports, m.Has e.2

variable {m m' : HostModule}

theorem Has.mono {item : DeclaredItem} (h : m.Has item)
    (hf : m.functions.size ≤ m'.functions.size) (hm : m.memories.size ≤ m'.memories.size) :
    m'.Has item := by
  cases item with
  | function i => exact Nat.lt_of_lt_of_le h hf
  | memory i => exact Nat.lt_of_lt_of_le h hm

theorem Proper.addExport (h : m.Proper) (name : String) {item : DeclaredItem} (hi : m.Has item) :
    (m.addExport name item).Proper where
  functions := h.functions
  exports := by
    intro e he
    rcases Array.mem_push.1 he with he | rfl
    · exact h.exports e he
    · exact hi

theorem Proper.declare (h : m.Proper) {d : Declaration} (hd : m.declare d = .ok m') :
    m'.Proper := by
  cases d with
  | function name type run =>
    simp only [HostModule.declare] at hd
    split at hd
    · cases hd
    · split at hd
      · cases hd
      · cases hd
        have hextended : Proper { m with functions := m.functions.push ⟨type, .host run⟩ } := by
          constructor
          · intro f hf
            rcases Array.mem_push.1 hf with hf | rfl
            · exact h.functions f hf
            · exact ⟨run, rfl⟩
          · intro e he
            exact (h.exports e he).mono (by simp) (Nat.le_refl _)
        exact hextended.addExport name (by simp [Has])
  | memory name type =>
    simp only [HostModule.declare] at hd
    split at hd
    · cases hd
    · cases hd
      have hextended : Proper { m with memories := m.memories.push type } := by
        refine ⟨h.functions, ?_⟩
        intro e he
        exact (h.exports e he).mono (Nat.le_refl _) (by simp)
      exact hextended.addExport name (by simp [Has])
  | synonym name target =>
    simp only [HostModule.declare] at hd
    split at hd
    · cases hd
    · split at hd
      · cases hd
      · rename_i item hitem
        cases hd
        -- the other name stands for an export that is there
        obtain ⟨e, he, rfl⟩ := Option.map_eq_some_iff.1 hitem
        exact h.addExport name (h.exports e (Array.mem_of_find?_eq_some he))

theorem Proper.declareAll (h : m.Proper) {ds : List Declaration}
    (hd : ds.foldlM HostModule.declare m = .ok m') : m'.Proper := by
  induction ds generalizing m with
  | nil =>
    cases hd
    exact h
  | cons d ds ih =>
    rw [List.foldlM_cons] at hd
    cases hr : m.declare d with
    | error e =>
      rw [hr] at hd
      cases hd
    | ok m₁ =>
      rw [hr] at hd
      exact ih (h.declare hr) hd

/-- Declarations make a proper host module. -/
theorem proper_of_ofDeclarations {name : String} {ds : List Declaration}
    (h : ofDeclarations name ds = .ok m) : m.Proper := by
  unfold ofDeclarations at h
  split at h
  · rename_i m₁ hm₁
    cases h
    have hempty : Proper { name := name } :=
      ⟨fun f hf => absurd hf (Array.not_mem_empty f), fun e he => absurd he (Array.not_mem_empty e)⟩
    exact hempty.declareAll hm₁
  · cases h

end HostModule

/-! ### Changes -/

namespace Store

variable {s s' s'' : Store}

theorem eq_register_of_synthesize {m : HostModule} {r : Registered} (h : s.synthesize m = .ok r) :
    r = s.register m := by
  unfold synthesize at h
  split at h
  · cases h
    rfl
  · cases h

theorem eq_register_of_external {m : HostModule} {r : Registered} (h : s.external m = .ok r) :
    r = s.register m := by
  unfold external at h
  split at h
  · cases h
  · cases h
    rfl

/-- One change of a store; of the writes of the host into memories only some are permitted. -/
inductive ChangeWith (Permitted : (Memory → Memory) → Prop) : Store → Store → Prop
  /-- A module is instantiated, or its instantiation fails. -/
  | instantiate (s : Store) (name : String) (m : Module) :
    ChangeWith Permitted s (s.instantiate name m).store
  /-- A host module that has only functions is registered. -/
  | synthesize {s : Store} {name : String} {ds : List Declaration} {m : HostModule}
    {r : Registered} (hm : HostModule.ofDeclarations name ds = .ok m)
    (hr : s.synthesize m = .ok r) : ChangeWith Permitted s r.store
  /-- A host module is registered. -/
  | external {s : Store} {name : String} {ds : List Declaration} {m : HostModule}
    {r : Registered} (hm : HostModule.ofDeclarations name ds = .ok m)
    (hr : s.external m = .ok r) : ChangeWith Permitted s r.store
  /-- A machine makes some steps. -/
  | execute (c : Machine.Config) (fuel : Nat) :
    ChangeWith Permitted c.world.store (c.run fuel).world.store
  /-- The host writes into a memory. -/
  | write (s : Store) (a : MemoryAddr) {f : Memory → Memory} (hf : Permitted f) :
    ChangeWith Permitted s (s.modifyMemory a f)

theorem ChangeWith.mono {P Q : (Memory → Memory) → Prop} (hPQ : ∀ f, P f → Q f)
    (h : ChangeWith P s s') : ChangeWith Q s s' := by
  cases h with
  | instantiate _ name m => exact .instantiate s name m
  | synthesize hm hr => exact .synthesize hm hr
  | external hm hr => exact .external hm hr
  | execute c fuel => exact .execute c fuel
  | write _ a hf => exact .write s a (hPQ _ hf)

/-- One change of a store, in which the host may also extend a memory. -/
abbrev Change : Store → Store → Prop := ChangeWith fun f => ∀ m : Memory, m.Grows (f m)

/-- Any number of changes lead from one store to another. -/
def Later (s s' : Store) : Prop := Relation.ReflTransGen Change s s'

/-- Some changes lead from an empty store to this one. -/
def Reachable (s : Store) : Prop := ∃ limit, (Store.new limit).Later s

theorem Change.grows (h : s.Change s') : s.Grows s' := by
  cases h with
  | instantiate _ name m => exact s.instantiate_grows name m
  | @synthesize _ name ds m r hm hr =>
    rw [eq_register_of_synthesize hr]
    exact s.register_grows m
  | @external _ name ds m r hm hr =>
    rw [eq_register_of_external hr]
    exact s.register_grows m
  | execute c fuel => exact (c.run_reworked fuel).toGrows
  | write _ a hf => exact grows_modifyMemory hf s a

/-- **A store is only ever extended.** -/
theorem Later.grows (h : s.Later s') : s.Grows s' := by
  induction h with
  | refl => exact .refl s
  | tail _ hchange ih => exact ih.trans hchange.grows

/-- What holds of empty stores and is kept by every change holds of every reachable store. -/
theorem Reachable.invariant {I : Store → Prop} (h : s.Reachable) (h₀ : ∀ limit, I (.new limit))
    (hchange : ∀ s s', I s → s.Change s' → I s') : I s := by
  obtain ⟨limit, hlater⟩ := h
  induction hlater with
  | refl => exact h₀ limit
  | tail _ hstep ih => exact hchange _ _ ih hstep

end Store

end WasmCore
