import WasmCore.Proofs.Store.Growth

/-!
# References

What the modules of a store refer to: the functions and memories in their index spaces and exports.
What a handle denotes, and who owns a function, is the same in every later state of the store.
-/

namespace WasmCore

/-- The module refers to a function or a memory, in an index space or by an export. -/
def ModuleInstance.Refers (m : ModuleInstance) : ExternAddr → Prop
  | .function f => f ∈ m.functions ∨ ∃ e ∈ m.exports, e.target = .function f
  | .memory a => a ∈ m.memories ∨ ∃ e ∈ m.exports, e.target = .memory a

namespace Store

variable (s : Store)

/-- The module that defines a function; none for a function of the host. -/
def owner? (f : FunctionAddr) : Option ModuleAddr :=
  match (s.function? f).map FunctionInstance.body with
  | some (.defined owner _ _) => some owner
  | _ => none

/-- The handle is one of the store. -/
def Denotes : ExternAddr → Prop
  | .function f => f.index < s.functions.size
  | .memory a => a.index < s.memories.size

/-- Some module of the store refers to a function or a memory. -/
def Refers (x : ExternAddr) : Prop := ∃ m ∈ s.modules, m.Refers x

/-- No reference dangles. -/
def Closed : Prop := ∀ x, s.Refers x → s.Denotes x

variable {s} {s' : Store}

theorem refers_congr (h : s'.modules = s.modules) {x : ExternAddr} :
    s'.Refers x ↔ s.Refers x := by
  simp only [Refers, h]

theorem Grows.denotes (h : s.Grows s') {x : ExternAddr} (hx : s.Denotes x) : s'.Denotes x := by
  cases x with
  | function f =>
    have hlength := h.functions.length_le
    simp only [Denotes, Array.length_toList] at hx hlength ⊢
    omega
  | memory a =>
    obtain ⟨m, hm⟩ := Option.isSome_iff_exists.1 (memory?_isSome_iff.2 hx)
    obtain ⟨m', hm', -⟩ := h.memories a m hm
    exact memory?_isSome_iff.1 (Option.isSome_of_mem hm')

theorem Grows.owner? (h : s.Grows s') {f : FunctionAddr} (hf : s.Denotes (.function f)) :
    s'.owner? f = s.owner? f := by
  obtain ⟨added, hadded⟩ := h.functions
  have hlt : f.index < s.functions.toList.length := hf
  simp only [Store.owner?, function?, ← Array.getElem?_toList, ← hadded]
  rw [List.getElem?_append_left hlt]

theorem Grows.modules_size (h : s.Grows s') : s.modules.size ≤ s'.modules.size := by
  simpa using h.modules.length_le

end Store

end WasmCore
