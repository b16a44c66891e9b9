import WasmCore.Proofs.Memory
import WasmCore.Proofs.Store.Integrity

/-!
# Failed instantiation

A failed instantiation registers no module and leaves all functions as they are. It keeps the
length and the bound of every memory, but not always its bytes: if only an export is wrong, the
data of the module has been copied by then, also into memories that it imports
(`Store.Reachable.failed_instantiation`). So others may find a shared memory changed by a module
that was never registered (`Store.failed_instantiation_overwrites`).
-/

namespace WasmCore

/-! ### Bytes -/

theorem data_zeros (n : Nat) : (zeros n).data = Array.replicate n 0 := by
  fun_induction zeros n with
  | case1 => rfl
  | case2 n hn half heven ih =>
    rw [ByteArray.data_append, ih, Array.replicate_append_replicate]
    congr 1
    omega
  | case3 n hn half hodd ih =>
    rw [ByteArray.data_push, ByteArray.data_append, ih, Array.replicate_append_replicate,
      ← Array.replicate_succ]
    congr 1
    omega

theorem getElem_zeros {n i : Nat} (h : i < (zeros n).size) : (zeros n)[i] = 0 := by
  simp only [ByteArray.getElem_eq_getElem_data, data_zeros, Array.getElem_replicate]

namespace Memory

/-- A new memory is zeroed. -/
theorem byteAt_ofType (t : MemoryType) (i : Nat) : (Memory.ofType t).byteAt i = 0 := by
  unfold byteAt
  split
  · exact getElem_zeros _
  · rfl

end Memory

namespace Store

variable {s : Store} {m : Module}

/-! ### Copied data -/

/-- Copying data keeps the length and the bound of a memory, and a memory for which there is no
data. -/
theorem foldl_copy_memory? (placed : List Link.PlacedData) {a : MemoryAddr} {mem : Memory}
    (h : s.memory? a = some mem) :
    ∃ mem', (placed.foldl copy s).memory? a = some mem' ∧ mem'.length = mem.length ∧
      mem'.max = mem.max ∧ ((∀ p ∈ placed, p.memory ≠ a) → mem' = mem) := by
  induction placed generalizing s mem with
  | nil => exact ⟨mem, h, rfl, rfl, fun _ => rfl⟩
  | cons p placed ih =>
    by_cases hp : p.memory = a
    · subst hp
      have hcopy : (s.copy p).memory? p.memory = some (mem.setBytes p.offset p.init) := by
        have hmem : s.memories[p.memory.index]? = some mem := h
        simp [memory?, copy, modifyMemory, Array.getElem?_modify, hmem]
      obtain ⟨mem', hmem', hlength, hmax, -⟩ := ih hcopy
      refine ⟨mem', hmem', ?_, ?_, fun hnone => absurd rfl (hnone p (List.mem_cons_self ..))⟩
      · rw [hlength, Memory.length_setBytes]
      · rw [hmax, Memory.max_setBytes]
    · have hcopy : (s.copy p).memory? a = some mem := by
        rw [copy, (ReworkedAt.modifyMemory (·.grows_setBytes _ _) s p.memory).others a]
        · exact h
        · rintro ⟨⟩
          exact hp rfl
      obtain ⟨mem', hmem', hlength, hmax, hsame⟩ := ih hcopy
      exact ⟨mem', hmem', hlength, hmax, fun hnone =>
        hsame fun q hq => hnone q (List.mem_cons_of_mem p hq)⟩

/-- The data of a module keeps the length and the bound of every memory of the store, and those
memories into which no segment goes. -/
theorem initialized_memory? {a : MemoryAddr} {mem : Memory} (h : s.memory? a = some mem) :
    ∃ mem', (s.initialized m).memory? a = some mem' ∧ mem'.length = mem.length ∧
      mem'.max = mem.max ∧
      ((∀ d ∈ m.data, (s.memorySpace m)[d.memory.toNat]? ≠ some a) → mem' = mem) := by
  obtain ⟨mem', hmem', hlength, hmax, hsame⟩ := foldl_copy_memory?
    (m.data.filterMap (s.placement? m)) ((s.defining_appended m).memory? h)
  refine ⟨mem', hmem', hlength, hmax, fun hnone => hsame ?_⟩
  rintro p hp rfl
  obtain ⟨d, hd, hplace⟩ := List.mem_filterMap.1 hp
  simp only [placement?, Option.bind_eq_bind, Option.bind_eq_some_iff, Option.some.injEq] at hplace
  obtain ⟨offset, -, a, ha, rfl⟩ := hplace
  exact hnone d hd ha

/-! ### What is left -/

/-- A memory after a failed instantiation. -/
theorem memory?_of_error {name : String} {e : LinkError} {a : MemoryAddr} {mem : Memory}
    (he : (s.instantiate name m).result = .error e) (h : s.memory? a = some mem) :
    ∃ mem', (s.instantiate name m).store.memory? a = some mem' ∧ mem'.length = mem.length ∧
      mem'.max = mem.max ∧
      (s.Ready m → (s.initialized m).memory? a = some mem') ∧
      ((¬ s.Ready m ∨ ∀ d ∈ m.data, (s.memorySpace m)[d.memory.toNat]? ≠ some a) →
        mem' = mem) := by
  obtain ⟨hearly, hlate, -⟩ := instantiate_error he
  by_cases hr : s.Ready m
  · obtain ⟨mem', hmem', hlength, hmax, hsame⟩ := initialized_memory? (m := m) h
    refine ⟨mem', (hlate hr).memory? hmem', hlength, hmax, fun _ => hmem', ?_⟩
    rintro (hn | hnone)
    · exact absurd hr hn
    · exact hsame hnone
  · exact ⟨mem, (hearly hr).memory? h, rfl, rfl, fun hr' => absurd hr' hr, fun _ => rfl⟩

/-- **What a failed instantiation does to what was there.** Modules and functions stay as they are,
and nothing refers to what was added. Memories keep their length and their bound. Their bytes stay
as well unless the module was ready but for its exports; then its data has been copied, and only
memories for which there is data can differ. -/
theorem Reachable.failed_instantiation (h : s.Reachable) {name : String} {e : LinkError}
    (he : (s.instantiate name m).result = .error e) :
    (s.instantiate name m).store.modules = s.modules ∧
    s.functions.toList <+: (s.instantiate name m).store.functions.toList ∧
    (∀ x, (s.instantiate name m).store.Refers x → s.Denotes x) ∧
    ∀ a mem, s.memory? a = some mem →
      ∃ mem', (s.instantiate name m).store.memory? a = some mem' ∧ mem'.length = mem.length ∧
        mem'.max = mem.max ∧
        (s.Ready m → (s.initialized m).memory? a = some mem') ∧
        ((¬ s.Ready m ∨ ∀ d ∈ m.data, (s.memorySpace m)[d.memory.toNat]? ≠ some a) →
          mem' = mem) := by
  refine ⟨modules_of_error he, (s.instantiate_grows name m).functions, ?_, ?_⟩
  · intro x hx
    exact h.sound.closed x ((refers_congr (modules_of_error he)).1 hx)
  · intro a mem hmem
    exact memory?_of_error he hmem

/-- A module that imports a memory, has data for it, and exports a function that it does not
have. -/
def overwriting : Module where
  imports := [⟨"env", "page", .memory (some ⟨0, none⟩)⟩]
  data := [⟨0, #[.const .i32 0], [1]⟩]
  exports := [⟨"run", .function, 0⟩]

theorem overwriting_ready : sharing.Ready overwriting := by
  have hpage : sharing.referent? ⟨"env", "page", .memory (some ⟨0, none⟩)⟩ =
      some (.memory ⟨0⟩) := rfl
  have hspace : sharing.memorySpace overwriting = [⟨0⟩] := rfl
  have hlength : (Memory.ofType ⟨1, none⟩).length = 65536 := Memory.length_ofType _
  refine ⟨?_, rfl, by simp [overwriting], by simp [overwriting], ?_⟩
  · intro i hi
    rw [List.mem_singleton.1 hi]
    exact ⟨⟨0⟩, hpage⟩
  · intro d hd
    rw [List.mem_singleton.1 hd]
    exact ⟨0, ⟨0⟩, .ofType ⟨1, none⟩, rfl, by rw [hspace]; rfl, rfl, by simp [hlength]⟩

theorem overwriting_fails : ∃ e, (sharing.instantiate "guest" overwriting).result = .error e := by
  refine instantiate_of_not_linkable ?_ "guest"
  intro h
  have hlt : 0 < (sharing.functionSpace overwriting).length :=
    h.exports _ (List.mem_singleton_self _)
  revert hlt
  decide

theorem overwriting_initialized : (sharing.initialized overwriting).memory? ⟨0⟩ =
    some ((Memory.ofType ⟨1, none⟩).setBytes 0 [1]) := by
  have hplaced : overwriting.data.filterMap (sharing.placement? overwriting) =
      [⟨⟨0⟩, 0, [1]⟩] := rfl
  have hdefining : (sharing.defining overwriting).memories = #[.ofType ⟨1, none⟩] := rfl
  simp [initialized, hplaced, copy, modifyMemory, memory?, hdefining]

theorem failed_instantiation_overwriting : sharing.Reachable ∧
    (∃ e, (sharing.instantiate "guest" overwriting).result = .error e) ∧
    ∃ mem', (sharing.instantiate "guest" overwriting).store.memory? ⟨0⟩ = some mem' ∧
      mem'.length = 65536 ∧ (sharing.initialized overwriting).memory? ⟨0⟩ = some mem' := by
  obtain ⟨e, he⟩ := overwriting_fails
  obtain ⟨-, -, -, hmemories⟩ := sharing_reachable.failed_instantiation he
  obtain ⟨mem', hmem', hlength, -, hcopied, -⟩ := hmemories ⟨0⟩ (.ofType ⟨1, none⟩) rfl
  refine ⟨sharing_reachable, ⟨e, he⟩, mem', hmem', ?_, hcopied overwriting_ready⟩
  rw [hlength]
  exact Memory.length_ofType _

/-- **A failed instantiation may overwrite a shared memory.** The first byte of the memory of the
host changes, although the module is not registered. -/
theorem failed_instantiation_overwrites : sharing.Reachable ∧
    (∃ e, (sharing.instantiate "guest" overwriting).result = .error e) ∧
    ∃ mem mem', sharing.memory? ⟨0⟩ = some mem ∧
      (sharing.instantiate "guest" overwriting).store.memory? ⟨0⟩ = some mem' ∧
      mem.byteAt 0 = 0 ∧ mem'.byteAt 0 = 1 := by
  obtain ⟨e, he⟩ := overwriting_fails
  obtain ⟨-, hlate, -⟩ := instantiate_error he
  have hlength : 0 < (Memory.ofType ⟨1, none⟩).length := by
    rw [Memory.length_ofType]
    decide
  exact ⟨sharing_reachable, ⟨e, he⟩, _, _, rfl,
    (hlate overwriting_ready).memory? overwriting_initialized, Memory.byteAt_ofType _ _,
    Memory.byteAt_setByte_self hlength 1⟩

end Store

end WasmCore
