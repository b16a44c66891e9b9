import WasmCore.Proofs.Structured.Matching

/-!
# Where constructs end

In the flat sequence of structured code every `else` and `end` is ahead of the instruction that
opens its construct, and a construct that opens inside of another one ends before it
(`Structured.placed_flatten`).
-/

namespace WasmCore

variable {code : Array Instruction} {p q : Nat} {i : Instruction}

/-- From `p` on, up to the `end` at `q`, the sequence holds only constructs that end before that. -/
structure Encloses (code : Array Instruction) (p q : Nat) : Prop where
  le : p ≤ q
  close : code[q]? = some .close
  inner : ∀ p' i endAt, p ≤ p' → p' < q → code[p']? = some i → i.endAt? = some endAt → endAt < q

theorem Encloses.mono (h : Encloses code p q) {p' : Nat} (hp : p ≤ p') (hq : p' ≤ q) :
    Encloses code p' q :=
  ⟨hq, h.close, fun p'' i endAt hle => h.inner p'' i endAt (Nat.le_trans hp hle)⟩

/-- The construct that the instruction at `p` opens, if any, ends before `hi`, and both its `else`
and its `end` are ahead. -/
def Resolved (code : Array Instruction) (p hi : Nat) (i : Instruction) : Prop :=
  ∀ endAt, i.endAt? = some endAt → ∃ q : Nat, endAt = q ∧ q < hi ∧ Encloses code (p + 1) q ∧
    ∀ elseAt, i.elseAt? = some elseAt → ∃ y : Nat, elseAt = y ∧ p < y ∧ y < q ∧
      code[y]? = some .otherwise

/-- The constructs that open from `lo` on and before `hi` end there as well. -/
def PlacedIn (code : Array Instruction) (lo hi : Nat) : Prop :=
  ∀ p i, lo ≤ p → p < hi → code[p]? = some i → Resolved code p hi i

/-- All constructs of the sequence end in it. -/
def Placed (code : Array Instruction) : Prop := PlacedIn code 0 code.size

/-- A construct that opens inside of another one ends before it. -/
theorem IsEndOf.lt_of_inside {p' q' : Nat} (h : IsEndOf code q p) (h' : IsEndOf code q' p')
    (hp : p < p') (hq : p' < q) : q' < q := by
  -- where the outer one ends, the depth is lower than anywhere in the inner one
  refine Nat.lt_of_not_le fun hle => ?_
  obtain ⟨i, hi, ho⟩ := h'.innermost.opens
  have hopen := depthAt_opens hi ho
  have hat := h.innermost.balanced.depth_le p' hp (Nat.le_of_lt hq)
  have hin := h'.innermost.balanced.depth_le q hq hle
  have heq := h.innermost.balanced.depth_eq
  omega

theorem MatchedIn.placed (h : MatchedIn code 0 code.size) : Placed code := by
  intro p i _ _ hi endAt hend
  obtain ⟨q, hq, hmatch, helse⟩ := (h.get hi).construct (Instruction.opens_of_endAt? hend)
  cases hend.symm.trans hq
  obtain ⟨hlt, -⟩ := Array.getElem?_eq_some_iff.1 hmatch.1
  refine ⟨q, rfl, hlt, ⟨hmatch.innermost.lt, hmatch.1, ?_⟩, ?_⟩
  · intro p' j endAt hp hp' hj hend'
    obtain ⟨q', hq', hmatch', -⟩ := (h.get hj).construct (Instruction.opens_of_endAt? hend')
    cases hend'.symm.trans hq'
    exact Int.ofNat_lt.2 (hmatch.lt_of_inside hmatch' hp hp')
  · intro elseAt helseAt
    obtain ⟨r, rfl, hr⟩ := helse elseAt helseAt
    exact ⟨r, rfl, hr.innermost.lt, hr.lt_end hmatch, hr.1⟩

/-- **The constructs of a flat sequence are in place.** -/
theorem Structured.placed_flatten {s : Structured} (hs : s.Proper) : Placed s.flatten :=
  (matchedIn_flatten hs).placed

end WasmCore
