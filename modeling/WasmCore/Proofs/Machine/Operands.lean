import WasmCore.Machine.Config

/-!
# Taking values from an operand stack

Values are taken from the top and checked against types. If all of them can be taken, they have
exactly these types, and the rest of the stack remains (`Operands.popValues_ok`); if not, what
remains is still a lower part of the stack (`Operands.popValues_error`), and the fault is that of an
operand (`Operands.popValues_fault`). The results of a host function are checked in the same way
(`Config.resultFault?_eq_none`).
-/

namespace WasmCore

/-- The fault of an operand that is missing or has another type. -/
def Fault.OfOperand (f : Fault) : Prop := f.kind = .stackUnderflow ∨ f.kind = .typeMismatch

theorem Fault.ofOperand_ofValueError (e : ValueError) : (Fault.ofValueError e).OfOperand := by
  cases e with
  | missing => exact .inl rfl
  | mismatch expected actual => exact .inr rfl

theorem Value.type_of_check {v : Value} {type : ValueType} {u : Unit}
    (h : v.check type = .ok u) : v.type = type := by
  unfold check at h
  split at h
  · cases h
  · split at h
    · assumption
    · cases h

namespace Machine

namespace Operands

variable {α β : Type} {x : Operands α} {k : α → Operands β} {b : β} {type : ValueType}
  {types : List ValueType} {v : Value} {taken stack rest : List Value} {f : Fault}

theorem bind_of_ok {a : α} {middle : List Value} (h : x stack = .ok a middle) (k : α → Operands β) :
    (x >>= k) stack = k a middle := by
  simp only [bind, EStateM.bind, h]

theorem bind_of_error (h : x stack = .error f rest) (k : α → Operands β) :
    (x >>= k) stack = .error f rest := by
  simp only [bind, EStateM.bind, h]

theorem bind_eq_ok (h : (x >>= k) stack = .ok b rest) :
    ∃ a middle, x stack = .ok a middle ∧ k a middle = .ok b rest := by
  simp only [bind, EStateM.bind] at h
  split at h
  · exact ⟨_, _, by assumption, h⟩
  · cases h

theorem bind_eq_error (h : (x >>= k) stack = .error f rest) :
    x stack = .error f rest ∨ ∃ a middle, x stack = .ok a middle ∧ k a middle = .error f rest := by
  simp only [bind, EStateM.bind] at h
  split at h
  · exact .inr ⟨_, _, by assumption, h⟩
  · cases h
    exact .inl (by assumption)

theorem pop_ok (h : pop stack = .ok v rest) : stack = v :: rest := by
  cases stack with
  | nil => cases h
  | cons w stack =>
    cases h
    rfl

theorem pop_error (h : pop stack = .error f rest) : rest <:+ stack := by
  cases stack with
  | nil =>
    cases h
    exact List.suffix_rfl
  | cons w stack => cases h

theorem popTyped_ok (h : popTyped type stack = .ok v rest) :
    v.type = type ∧ stack = v :: rest := by
  obtain ⟨u, middle, hpop, hcheck⟩ := bind_eq_ok h
  cases stack with
  | nil => cases hpop
  | cons w stack =>
    cases hpop
    cases hc : u.check type with
    | ok _ =>
      rw [hc] at hcheck
      cases hcheck
      exact ⟨Value.type_of_check hc, rfl⟩
    | error e =>
      rw [hc] at hcheck
      cases hcheck

theorem popTyped_error (h : popTyped type stack = .error f rest) : rest <:+ stack := by
  cases stack with
  | nil =>
    cases h
    exact List.suffix_rfl
  | cons w stack =>
    rcases bind_eq_error h with hpop | ⟨u, middle, hpop, hcheck⟩
    · cases hpop
    · cases hpop
      -- the value that does not have the type is gone too
      cases hc : w.check type with
      | ok _ =>
        rw [hc] at hcheck
        cases hcheck
      | error e =>
        rw [hc] at hcheck
        cases hcheck
        exact List.suffix_cons w _

theorem popTyped_fault (h : popTyped type stack = .error f rest) : f.OfOperand := by
  cases stack with
  | nil =>
    cases h
    exact .inl rfl
  | cons w stack =>
    rcases bind_eq_error h with hpop | ⟨u, middle, hpop, hcheck⟩
    · cases hpop
    · cases hpop
      cases hc : w.check type with
      | ok _ =>
        rw [hc] at hcheck
        cases hcheck
      | error e =>
        rw [hc] at hcheck
        cases hcheck
        exact Fault.ofOperand_ofValueError e

theorem popValues_cons (type : ValueType) (types : List ValueType) :
    popValues (type :: types) = (do
      let taken ← popValues types
      let v ← popTyped type
      pure (v :: taken)) := by
  simp only [popValues, List.foldrM_cons]

/-- Values that could be taken have the given types, and were the top of the stack. -/
theorem popValues_ok (h : popValues types stack = .ok taken rest) :
    taken.map Value.type = types ∧ stack = taken.reverse ++ rest := by
  induction types generalizing taken rest with
  | nil =>
    cases h
    exact ⟨rfl, rfl⟩
  | cons type types ih =>
    rw [popValues_cons] at h
    obtain ⟨others, middle, hothers, h⟩ := bind_eq_ok h
    obtain ⟨v, last, hv, h⟩ := bind_eq_ok h
    cases h
    obtain ⟨htypes, rfl⟩ := ih hothers
    obtain ⟨htype, rfl⟩ := popTyped_ok hv
    exact ⟨by rw [List.map_cons, htype, htypes], by simp⟩

/-- What remains when not all values could be taken. -/
theorem popValues_error (h : popValues types stack = .error f rest) : rest <:+ stack := by
  induction types generalizing rest with
  | nil => cases h
  | cons type types ih =>
    rw [popValues_cons] at h
    rcases bind_eq_error h with hothers | ⟨others, middle, hothers, hrest⟩
    · exact ih hothers
    · obtain ⟨-, rfl⟩ := popValues_ok hothers
      rcases bind_eq_error hrest with hv | ⟨v, last, -, hpure⟩
      · exact (popTyped_error hv).trans (List.suffix_append _ _)
      · cases hpure

theorem popValues_fault (h : popValues types stack = .error f rest) : f.OfOperand := by
  induction types generalizing rest with
  | nil => cases h
  | cons type types ih =>
    rw [popValues_cons] at h
    rcases bind_eq_error h with hothers | ⟨others, middle, -, hrest⟩
    · exact ih hothers
    · rcases bind_eq_error hrest with hv | ⟨v, last, -, hpure⟩
      · exact popTyped_fault hv
      · cases hpure

end Operands

/-- Results of a host function with which nothing is wrong have the declared types. -/
theorem Config.resultFault?_eq_none {type : FunctionType} {results : List Value}
    (h : resultFault? type results = none) : results.map Value.type = type.results := by
  unfold resultFault? at h
  split at h
  · rename_i hlength
    rw [List.findSome?_eq_none_iff] at h
    refine List.ext_getElem (by simpa using hlength) fun i hi hi' => ?_
    rw [List.length_map] at hi
    have hmem : ((results[i], type.results[i]), i) ∈ (results.zip type.results).zipIdx := by
      rw [List.mk_mem_zipIdx_iff_getElem?, List.getElem?_zip_eq_some]
      exact ⟨List.getElem?_eq_getElem hi, List.getElem?_eq_getElem hi'⟩
    have hcheck := h _ hmem
    dsimp only at hcheck
    split at hcheck
    · rw [List.getElem_map]
      exact Value.type_of_check (by assumption)
    · cases hcheck
  · cases h

end Machine

end WasmCore
