import WasmCore.Proofs.Store.Integrity

/-!
# Stability of handles and names

A store is only ever extended, so a handle denotes the same thing for ever. Names are looked up from
the front: the first module of a name, and its first export of a name, stay the first ones whatever
is added behind them (`Store.Grows.findModule?`, `Store.Grows.resolve`). So a module that was found
once is found again, also when others are registered under its name, and an export that was found
once stands for the same function or memory in every later state (`Store.Reachable.stability`).
-/

namespace WasmCore

namespace Store

variable {s s' : Store} {a : ModuleAddr} {name : String} {e : ExportInstance}

/-! ### Handles -/

theorem Grows.module? (h : s.Grows s') {m : ModuleInstance} (hm : s.module? a = some m) :
    s'.module? a = some m := by
  obtain ⟨added, hadded⟩ := h.modules
  simp only [Store.module?, ← Array.getElem?_toList, ← hadded] at hm ⊢
  rw [List.getElem?_append_left (List.getElem?_eq_some_iff.1 hm).1, hm]

theorem Grows.function? (h : s.Grows s') {f : FunctionAddr} {fn : FunctionInstance}
    (hf : s.function? f = some fn) : s'.function? f = some fn := by
  obtain ⟨added, hadded⟩ := h.functions
  simp only [Store.function?, ← Array.getElem?_toList, ← hadded] at hf ⊢
  rw [List.getElem?_append_left (List.getElem?_eq_some_iff.1 hf).1, hf]

/-- A handle denotes the same in both stores: the same function, or a memory with the same bound
that is not shorter than before. -/
def Preserves (s s' : Store) : ExternAddr → Prop
  | .function f => ∃ fn, s.function? f = some fn ∧ s'.function? f = some fn
  | .memory b => ∃ m m', s.memory? b = some m ∧ s'.memory? b = some m' ∧ m.Grows m'

theorem Grows.preserves (h : s.Grows s') {x : ExternAddr} (hx : s.Denotes x) :
    s.Preserves s' x := by
  cases x with
  | function f =>
    have hf : s.function? f = some s.functions[f.index] := Array.getElem?_eq_getElem hx
    exact ⟨_, hf, h.function? hf⟩
  | memory b =>
    obtain ⟨m, hm⟩ := Option.isSome_iff_exists.1 (memory?_isSome_iff.2 hx)
    obtain ⟨m', hm', hgrown⟩ := h.memories b m hm
    exact ⟨m, m', hm, hm', hgrown⟩

/-! ### Names -/

theorem findModule?_eq (s : Store) (name : String) : s.findModule? name =
    (s.modules.toList.findIdx? fun m => m.name = name).map ModuleAddr.mk := by
  rw [← List.findIdx?_toArray, Array.toArray_toList, findModule?]

/-- The first module of a name stays the first one. -/
theorem Grows.findModule? (h : s.Grows s') (ha : s.findModule? name = some a) :
    s'.findModule? name = some a := by
  rw [findModule?_eq] at ha ⊢
  obtain ⟨i, hi, rfl⟩ := Option.map_eq_some_iff.1 ha
  rw [h.modules.findIdx?_eq_some hi, Option.map_some]

/-- A module keeps its exports. -/
theorem Grows.resolve (h : s.Grows s') (he : s.resolve a name = .ok e) :
    s'.resolve a name = .ok e := by
  obtain ⟨m, hm, hfind⟩ := resolve_eq_ok_iff.1 he
  exact resolve_eq_ok_iff.2 ⟨m, h.module? hm, hfind⟩

theorem Grows.resolveImport (h : s.Grows s') {i : Import} (he : s.resolveImport i = .ok e) :
    s'.resolveImport i = .ok e := by
  obtain ⟨b, hb, hresolve⟩ := resolveImport_eq_ok_iff.1 he
  exact resolveImport_eq_ok_iff.2 ⟨b, h.findModule? hb, h.resolve hresolve⟩

/-! ### Histories -/

/-- **Handles and names are stable.** Whatever happens to a reachable store later, its modules and
functions stay at the front of the new ones, unchanged, and its memories keep their bounds. The
module that was found under a name is found there for ever, and so is the export that was found in a
module or for an import, and it denotes the same function or memory. -/
theorem Reachable.stability (h : s.Reachable) (hlater : s.Later s') :
    s.modules.toList <+: s'.modules.toList ∧
    s.functions.toList <+: s'.functions.toList ∧
    (∀ b m, s.memory? b = some m → ∃ m', s'.memory? b = some m' ∧ m'.max = m.max) ∧
    (∀ name a, s.findModule? name = some a → s'.findModule? name = some a) ∧
    (∀ a name e, s.resolve a name = .ok e →
      s'.resolve a name = .ok e ∧ s.Preserves s' e.target) ∧
    ∀ i e, s.resolveImport i = .ok e → s'.resolveImport i = .ok e ∧ s.Preserves s' e.target := by
  have hgrows := hlater.grows
  -- what an export of a reachable store stands for is there, so that it can be the same later
  have hpreserves {e : ExportInstance} (he : s.Refers e.target) : s.Preserves s' e.target :=
    hgrows.preserves (h.sound.closed _ he)
  refine ⟨hgrows.modules, hgrows.functions, ?_, ?_, ?_, ?_⟩
  · intro b m hm
    obtain ⟨m', hm', hgrown⟩ := hgrows.memories b m hm
    exact ⟨m', hm', hgrown.max⟩
  · intro name a
    exact hgrows.findModule?
  · intro a name e he
    exact ⟨hgrows.resolve he, hpreserves (refers_of_resolve he)⟩
  · intro i e he
    exact ⟨hgrows.resolveImport he, hpreserves (refers_of_resolveImport he)⟩

/-- Another module under the name of the one that is there, with other exports of its names. -/
def shadowing : HostModule :=
  { name := "env"
    functions := #[⟨⟨[], [.i32]⟩, .host fun _ => .done [.i32 7]⟩]
    exports := #[("page", .function 0), ("tick", .function 0)] }

theorem stability_shadowing :
    let failed := (sharing.instantiate "guest" orphaning).store
    let later := (failed.register shadowing).store
    sharing.Reachable ∧ sharing.Later later ∧
    later.modules.toList.map ModuleInstance.name = ["env", "env"] ∧
    sharing.findModule? "env" = some ⟨0⟩ ∧ later.findModule? "env" = some ⟨0⟩ ∧
    later.resolve ⟨0⟩ "page" = .ok ⟨"page", .memory ⟨0⟩⟩ ∧
    sharing.Preserves later (.memory ⟨0⟩) := by
  intro failed later
  have hm : HostModule.ofDeclarations "env"
      [.function "page" ⟨[], [.i32]⟩ fun _ => .done [.i32 7], .synonym "tick" "page"] =
      .ok shadowing := rfl
  have hr : failed.synthesize shadowing = .ok (failed.register shadowing) := rfl
  have hlater : sharing.Later later :=
    .tail (.single (.instantiate sharing "guest" orphaning)) (.synthesize hm hr)
  have hfind : sharing.findModule? "env" = some ⟨0⟩ := by
    rw [findModule?_eq]
    rfl
  have hpage : sharing.resolve ⟨0⟩ "page" = .ok ⟨"page", .memory ⟨0⟩⟩ := rfl
  obtain ⟨-, -, -, hnames, hexports, -⟩ := sharing_reachable.stability hlater
  obtain ⟨hpage', hsame⟩ := hexports _ _ _ hpage
  refine ⟨sharing_reachable, hlater, ?_, hfind, hnames _ _ hfind, hpage', hsame⟩
  decide +kernel

end Store

end WasmCore
