import WasmCore.Instruction.Structured

/-!
# Structured code in flat sequences

`Structured.layout` is the flat sequence of structured code as a list, from a position on, and
`StandsAt` says that a sequence holds a list of instructions at a position. What stands at the
position of a construct is its opening instruction, its body, and its `end`
(`standsAt_block` and its like), so that execution can be followed construct by construct.
-/

namespace WasmCore

/-- The instruction opens, divides or closes a construct. -/
def Instruction.isStructural : Instruction → Bool
  | .block .. | .loop .. | .cond .. | .otherwise | .close => true
  | _ => false

namespace Structured

/-- All instructions of the code satisfy `plain`, and the types of all constructs satisfy
`type`. -/
def Forall (plain : Instruction → Prop) (type : ValueType → Prop) : Structured → Prop
  | done => True
  | .plain i rest => plain i ∧ rest.Forall plain type
  | block t body rest => type t ∧ body.Forall plain type ∧ rest.Forall plain type
  | loop t body rest => type t ∧ body.Forall plain type ∧ rest.Forall plain type
  | cond t arm rest => type t ∧ arm.Forall plain type ∧ rest.Forall plain type
  | condElse t arm other rest =>
    type t ∧ arm.Forall plain type ∧ other.Forall plain type ∧ rest.Forall plain type

theorem Forall.imp {plain plain' : Instruction → Prop} {type type' : ValueType → Prop}
    (hp : ∀ i, plain i → plain' i) (ht : ∀ t, type t → type' t) {s : Structured}
    (h : s.Forall plain type) : s.Forall plain' type' := by
  induction s with
  | done => trivial
  | plain i rest ih => exact ⟨hp i h.1, ih h.2⟩
  | block t body rest ihb ihr => exact ⟨ht t h.1, ihb h.2.1, ihr h.2.2⟩
  | loop t body rest ihb ihr => exact ⟨ht t h.1, ihb h.2.1, ihr h.2.2⟩
  | cond t arm rest iha ihr => exact ⟨ht t h.1, iha h.2.1, ihr h.2.2⟩
  | condElse t arm other rest iha iho ihr =>
    exact ⟨ht t h.1, iha h.2.1, iho h.2.2.1, ihr h.2.2.2⟩

/-- Every instruction that is not part of a construct opens or closes none. -/
def Proper (s : Structured) : Prop := s.Forall (fun i => i.isStructural = false) fun _ => True

/-- The flat sequence of the code from a position on. -/
def layout : Structured → Nat → List Instruction
  | done, _ => []
  | plain i rest, p => i :: rest.layout (p + 1)
  | block type body rest, p =>
    .block type (p + 1 + body.size : Nat) ::
      (body.layout (p + 1) ++ .close :: rest.layout (p + 1 + body.size + 1))
  | loop type body rest, p =>
    .loop type (p + 1 + body.size : Nat) ::
      (body.layout (p + 1) ++ .close :: rest.layout (p + 1 + body.size + 1))
  | cond type arm rest, p =>
    .cond type none (p + 1 + arm.size : Nat) ::
      (arm.layout (p + 1) ++ .close :: rest.layout (p + 1 + arm.size + 1))
  | condElse type arm other rest, p =>
    .cond type (some (p + 1 + arm.size : Nat)) (p + 1 + arm.size + 1 + other.size : Nat) ::
      (arm.layout (p + 1) ++ .otherwise :: (other.layout (p + 1 + arm.size + 1) ++
        .close :: rest.layout (p + 1 + arm.size + 1 + other.size + 1)))

/-! The position after a construct, step by step through it. -/

theorem add_size_plain (i : Instruction) (rest : Structured) (p : Nat) :
    p + (plain i rest).size = p + 1 + rest.size := by
  simp only [size]
  omega

theorem add_size_block (type : ValueType) (body rest : Structured) (p : Nat) :
    p + (block type body rest).size = p + 1 + body.size + 1 + rest.size := by
  simp only [size]
  omega

theorem add_size_loop (type : ValueType) (body rest : Structured) (p : Nat) :
    p + (loop type body rest).size = p + 1 + body.size + 1 + rest.size := by
  simp only [size]
  omega

theorem add_size_cond (type : ValueType) (arm rest : Structured) (p : Nat) :
    p + (cond type arm rest).size = p + 1 + arm.size + 1 + rest.size := by
  simp only [size]
  omega

theorem add_size_condElse (type : ValueType) (arm other rest : Structured) (p : Nat) :
    p + (condElse type arm other rest).size =
      p + 1 + arm.size + 1 + other.size + 1 + rest.size := by
  simp only [size]
  omega

@[simp] theorem length_layout (s : Structured) (p : Nat) : (s.layout p).length = s.size := by
  induction s generalizing p <;> simp_all [layout, size] <;> omega

theorem toList_flattenInto (s : Structured) (code : Array Instruction) :
    (s.flattenInto code).toList = code.toList ++ s.layout code.size := by
  induction s generalizing code with
  | done => simp [flattenInto, layout]
  | plain i rest ih => simp [flattenInto, layout, ih]
  | block t body rest ihb ihr => simp [flattenInto, layout, ihb, ihr, size_flattenInto]
  | loop t body rest ihb ihr => simp [flattenInto, layout, ihb, ihr, size_flattenInto]
  | cond t arm rest iha ihr => simp [flattenInto, layout, iha, ihr, size_flattenInto]
  | condElse t arm other rest iha iho ihr =>
    simp [flattenInto, layout, iha, iho, ihr, size_flattenInto]

theorem size_flatten (s : Structured) : s.flatten.size = s.size := by
  simp [flatten, size_flattenInto]

theorem toList_flatten (s : Structured) : s.flatten.toList = s.layout 0 := by
  simp [flatten, toList_flattenInto]

end Structured

/-! ### Sequences at positions -/

/-- The sequence holds the instructions from a position on. -/
def StandsAt (code : Array Instruction) : Nat → List Instruction → Prop
  | _, [] => True
  | p, i :: rest => code[p]? = some i ∧ StandsAt code (p + 1) rest

theorem standsAt_append {code : Array Instruction} {p : Nat} {xs ys : List Instruction} :
    StandsAt code p (xs ++ ys) ↔ StandsAt code p xs ∧ StandsAt code (p + xs.length) ys := by
  induction xs generalizing p with
  | nil => simp [StandsAt]
  | cons x xs ih =>
    simp only [List.cons_append, StandsAt, ih, List.length_cons]
    rw [and_assoc, Nat.add_assoc, Nat.add_comm 1]

theorem standsAt_of_drop {code : Array Instruction} {p : Nat} {xs : List Instruction}
    (h : code.toList.drop p = xs) : StandsAt code p xs := by
  induction xs generalizing p with
  | nil => trivial
  | cons x xs ih =>
    -- what is left from `p` on starts with `x`, and without it is what is left from `p + 1` on
    refine ⟨?_, ih ?_⟩
    · have := congrArg List.head? h
      simpa [List.head?_drop] using this
    · rw [← List.drop_drop, h]
      rfl

namespace Structured

variable {code : Array Instruction} {p : Nat}

theorem standsAt_flatten (s : Structured) : StandsAt s.flatten 0 (s.layout 0) :=
  standsAt_of_drop (by simp [toList_flatten])

theorem standsAt_block {type : ValueType} {body rest : Structured}
    (h : StandsAt code p ((block type body rest).layout p)) :
    code[p]? = some (.block type (p + 1 + body.size : Nat)) ∧
      StandsAt code (p + 1) (body.layout (p + 1)) ∧
      code[p + 1 + body.size]? = some .close ∧
      StandsAt code (p + 1 + body.size + 1) (rest.layout (p + 1 + body.size + 1)) := by
  simpa [layout, StandsAt, standsAt_append] using h

theorem standsAt_loop {type : ValueType} {body rest : Structured}
    (h : StandsAt code p ((loop type body rest).layout p)) :
    code[p]? = some (.loop type (p + 1 + body.size : Nat)) ∧
      StandsAt code (p + 1) (body.layout (p + 1)) ∧
      code[p + 1 + body.size]? = some .close ∧
      StandsAt code (p + 1 + body.size + 1) (rest.layout (p + 1 + body.size + 1)) := by
  simpa [layout, StandsAt, standsAt_append] using h

theorem standsAt_cond {type : ValueType} {arm rest : Structured}
    (h : StandsAt code p ((cond type arm rest).layout p)) :
    code[p]? = some (.cond type none (p + 1 + arm.size : Nat)) ∧
      StandsAt code (p + 1) (arm.layout (p + 1)) ∧
      code[p + 1 + arm.size]? = some .close ∧
      StandsAt code (p + 1 + arm.size + 1) (rest.layout (p + 1 + arm.size + 1)) := by
  simpa [layout, StandsAt, standsAt_append] using h

theorem standsAt_condElse {type : ValueType} {arm other rest : Structured}
    (h : StandsAt code p ((condElse type arm other rest).layout p)) :
    code[p]? = some (.cond type (some (p + 1 + arm.size : Nat))
        (p + 1 + arm.size + 1 + other.size : Nat)) ∧
      StandsAt code (p + 1) (arm.layout (p + 1)) ∧
      code[p + 1 + arm.size]? = some .otherwise ∧
      StandsAt code (p + 1 + arm.size + 1) (other.layout (p + 1 + arm.size + 1)) ∧
      code[p + 1 + arm.size + 1 + other.size]? = some .close ∧
      StandsAt code (p + 1 + arm.size + 1 + other.size + 1)
        (rest.layout (p + 1 + arm.size + 1 + other.size + 1)) := by
  simpa [layout, StandsAt, standsAt_append] using h

end Structured

end WasmCore
