import WasmCore.Proofs.Structured.Layout

/-!
# Matching the parts of constructs

Which `end` and which `else` belong to which construct of a flat sequence is said here by counting:
`depthAt` is the number of constructs that are open at a position, and the construct that opens at
`p` is the `Innermost` one at `q` if from `p` on to `q` the depth has come back to where it was just
inside of it, and was never lower. Nothing is said about how the sequence came about.

A sequence is `Nested` if its constructs are all closed and its every `end` and `else` belongs to
one. The flat sequence of structured code is (`Structured.nested_flatten`), and every construct in
it holds the positions of its own parts (`Structured.positioned_flatten`).
-/

namespace WasmCore

namespace Instruction

/-- The instruction opens a construct. -/
def opens : Instruction → Bool
  | .block .. | .loop .. | .cond .. => true
  | _ => false

/-- The instruction opens a conditional. -/
def isCond : Instruction → Bool
  | .cond .. => true
  | _ => false

/-- The number of constructs that are open after the instruction, less those before it. -/
def nesting : Instruction → Int
  | .block .. | .loop .. | .cond .. => 1
  | .close => -1
  | _ => 0

/-- The `end` of the construct that the instruction opens. -/
def endAt? : Instruction → Option Int
  | .block _ endAt | .loop _ endAt | .cond _ _ endAt => some endAt
  | _ => none

/-- The `else` of the construct that the instruction opens. -/
def elseAt? : Instruction → Option Int
  | .cond _ elseAt _ => elseAt
  | _ => none

theorem nesting_of_opens {i : Instruction} (h : i.opens = true) : i.nesting = 1 := by
  cases i with
  | block | loop | cond => rfl
  | _ => cases h

theorem nesting_of_plain {i : Instruction} (h : i.isStructural = false) : i.nesting = 0 := by
  cases i with
  | block | loop | cond | otherwise | close => cases h
  | _ => rfl

theorem opens_of_endAt? {i : Instruction} {endAt : Int} (h : i.endAt? = some endAt) :
    i.opens = true := by
  cases i with
  | block | loop | cond => rfl
  | _ => cases h

theorem opens_of_isCond {i : Instruction} (h : i.isCond = true) : i.opens = true := by
  cases i with
  | cond => rfl
  | _ => cases h

theorem opens_of_plain {i : Instruction} (h : i.isStructural = false) : i.opens = false := by
  cases i with
  | block | loop | cond | otherwise | close => cases h
  | _ => rfl

end Instruction

/-- The number of constructs that are open at a position: the openings before it less the ends. -/
def depthAt (code : Array Instruction) : Nat → Int
  | 0 => 0
  | p + 1 => depthAt code p + code[p]?.elim 0 Instruction.nesting

/-- What opens from `p` on ends before `q`, and nothing else ends there. -/
structure Balanced (code : Array Instruction) (p q : Nat) : Prop where
  le : p ≤ q
  depth_eq : depthAt code q = depthAt code p
  depth_le : ∀ r, p ≤ r → r ≤ q → depthAt code p ≤ depthAt code r

/-- Of the constructs that are open at `q` the innermost one opens at `p`. -/
structure Innermost (code : Array Instruction) (p q : Nat) : Prop where
  opens : ∃ i, code[p]? = some i ∧ i.opens = true
  balanced : Balanced code (p + 1) q

/-- The `end` at `q` closes the construct that opens at `p`. -/
def IsEndOf (code : Array Instruction) (q p : Nat) : Prop :=
  code[q]? = some .close ∧ Innermost code p q

/-- The `else` at `q` stands directly in the conditional that opens at `p`. -/
def IsElseOf (code : Array Instruction) (q p : Nat) : Prop :=
  code[q]? = some .otherwise ∧ (∃ i, code[p]? = some i ∧ i.isCond = true) ∧ Innermost code p q

/-- Every construct has its `end`, every `end` closes a construct, and every `else` belongs to a
conditional of its own. -/
structure Nested (code : Array Instruction) : Prop where
  closed : ∀ p i, code[p]? = some i → i.opens = true → ∃ q, IsEndOf code q p
  ends : ∀ q, code[q]? = some .close → ∃ p, IsEndOf code q p
  elses : ∀ q, code[q]? = some .otherwise → ∃ p, IsElseOf code q p
  distinct : ∀ p q q', IsElseOf code q p → IsElseOf code q' p → q = q'

/-- What the instruction at `p` says about positions: a construct holds those of its `else`, if it
has one, and of its `end`, which are ahead in this order and in the sequence. Other instructions
hold none. -/
def Positioned (code : Array Instruction) (p : Nat) (i : Instruction) : Prop :=
  if i.opens then
    ∃ endAt : Nat, i.endAt? = some (endAt : Int) ∧ IsEndOf code endAt p ∧ p < endAt ∧
      endAt < code.size ∧
      ((i.elseAt? = none ∧ ∀ q, ¬ IsElseOf code q p) ∨
        ∃ elseAt : Nat, i.elseAt? = some (elseAt : Int) ∧ IsElseOf code elseAt p ∧ p < elseAt ∧
          elseAt < endAt)
  else i.endAt? = none ∧ i.elseAt? = none

variable {code : Array Instruction} {p p' q q' r : Nat} {i : Instruction}

/-! ### Depths -/

theorem depthAt_succ (h : code[p]? = some i) :
    depthAt code (p + 1) = depthAt code p + i.nesting := by
  simp only [depthAt, h, Option.elim_some]

theorem depthAt_opens (h : code[p]? = some i) (hi : i.opens = true) :
    depthAt code (p + 1) = depthAt code p + 1 := by
  rw [depthAt_succ h, Instruction.nesting_of_opens hi]

theorem depthAt_close (h : code[p]? = some .close) :
    depthAt code (p + 1) = depthAt code p - 1 := depthAt_succ h

theorem depthAt_otherwise (h : code[p]? = some .otherwise) :
    depthAt code (p + 1) = depthAt code p :=
  (depthAt_succ h).trans (Int.add_zero _)

theorem depthAt_plain (h : code[p]? = some i) (hi : i.isStructural = false) :
    depthAt code (p + 1) = depthAt code p := by
  rw [depthAt_succ h, Instruction.nesting_of_plain hi, Int.add_zero]

namespace Balanced

theorem refl (code : Array Instruction) (p : Nat) : Balanced code p p := by
  refine ⟨Nat.le_refl p, rfl, fun r hp hq => ?_⟩
  exact Int.le_of_eq (congrArg (depthAt code) (Nat.le_antisymm hp hq))

theorem trans (h : Balanced code p q) (h' : Balanced code q r) : Balanced code p r := by
  refine ⟨Nat.le_trans h.le h'.le, h'.depth_eq.trans h.depth_eq, fun s hp hr => ?_⟩
  rcases Nat.le_total s q with hle | hle
  · exact h.depth_le s hp hle
  · exact h.depth_eq ▸ h'.depth_le s hle hr

/-- One instruction that opens and closes nothing. -/
theorem single (h : depthAt code (p + 1) = depthAt code p) : Balanced code p (p + 1) := by
  refine ⟨Nat.le_succ p, h, fun r hp hr => ?_⟩
  rcases Nat.eq_or_lt_of_le hp with rfl | hlt
  · exact Int.le_refl _
  · exact Int.le_of_eq (by rw [Nat.le_antisymm hr hlt, h])

/-- A construct with its `end`. -/
theorem construct (hi : code[p]? = some i) (ho : i.opens = true) (h : Balanced code (p + 1) q)
    (hclose : code[q]? = some .close) : Balanced code p (q + 1) := by
  have hopen := depthAt_opens hi ho
  have hend := depthAt_close hclose
  have hle := h.le
  have heq := h.depth_eq
  refine ⟨by omega, by omega, fun r hp hr => ?_⟩
  rcases Nat.eq_or_lt_of_le hp with rfl | hlt
  · exact Int.le_refl _
  rcases Nat.eq_or_lt_of_le hr with rfl | hlt'
  · omega
  · have := h.depth_le r hlt (by omega)
    omega

/-- What is left of a balanced part after a first one. -/
theorem right (h : Balanced code p r) (hle : p ≤ q) (hle' : q ≤ r)
    (heq : depthAt code q = depthAt code p) : Balanced code q r :=
  ⟨hle', by rw [heq, h.depth_eq], fun s hs hr => heq ▸ h.depth_le s (Nat.le_trans hle hs) hr⟩

end Balanced

/-! ### The innermost construct is one -/

theorem Innermost.lt (h : Innermost code p q) : p < q := h.balanced.le

theorem IsEndOf.innermost (h : IsEndOf code q p) : Innermost code p q := h.2

theorem IsElseOf.innermost (h : IsElseOf code q p) : Innermost code p q := h.2.2

/-- A construct that opens inside of another one, at a position where that is the innermost, has
ended before. -/
theorem Innermost.not_lt (h : Innermost code p q) (h' : Innermost code p' q) : ¬ p < p' := by
  intro hlt
  obtain ⟨i, hi, ho⟩ := h'.opens
  have hopen := depthAt_opens hi ho
  have hat := h.balanced.depth_le p' hlt (Nat.le_of_lt h'.lt)
  have heq := h.balanced.depth_eq
  have heq' := h'.balanced.depth_eq
  omega

/-- There is one innermost construct at most. -/
theorem Innermost.unique (h : Innermost code p q) (h' : Innermost code p' q) : p = p' := by
  have hlt := h.not_lt h'
  have hgt := h'.not_lt h
  omega

/-- A construct is not open after its `end`. -/
theorem Innermost.le_end (h : Innermost code p q) (hend : IsEndOf code q' p) : q ≤ q' := by
  refine Nat.le_of_not_lt fun hlt => ?_
  have hdrop := depthAt_close hend.1
  have heq := hend.innermost.balanced.depth_eq
  have hle := hend.innermost.balanced.le
  have hat := h.balanced.depth_le (q' + 1) (by omega) hlt
  omega

theorem IsElseOf.lt_end (h : IsElseOf code q p) (hend : IsEndOf code q' p) : q < q' := by
  refine Nat.lt_of_le_of_ne (h.innermost.le_end hend) ?_
  rintro rfl
  cases h.1.symm.trans hend.1

theorem Innermost.opens_of (h : Innermost code p q) (hi : code[p]? = some i) : i.opens = true := by
  obtain ⟨j, hj, ho⟩ := h.opens
  cases hi.symm.trans hj
  exact ho

/-- After its `end` a construct is no longer open. -/
theorem IsEndOf.depthAt_after (h : IsEndOf code q p) : depthAt code (q + 1) = depthAt code p := by
  obtain ⟨i, hi, ho⟩ := h.innermost.opens
  have hopen := depthAt_opens hi ho
  have hclose := depthAt_close h.1
  have heq := h.innermost.balanced.depth_eq
  omega

/-! ### The flat sequence of structured code -/

/-- The instruction at `p` has its match, and holds its position if it opens a construct. -/
structure Matched (code : Array Instruction) (p : Nat) (i : Instruction) : Prop where
  construct : i.opens = true → ∃ q : Nat, i.endAt? = some (q : Int) ∧ IsEndOf code q p ∧
    ∀ elseAt, i.elseAt? = some elseAt → ∃ r : Nat, elseAt = r ∧ IsElseOf code r p
  ends : i = .close → ∃ p', IsEndOf code p p'
  elses : i = .otherwise → ∃ p' j, code[p']? = some j ∧ j.elseAt? = some (p : Int) ∧
    IsElseOf code p p'

/-- A balanced part of which every instruction has its match. -/
structure MatchedIn (code : Array Instruction) (p q : Nat) : Prop where
  balanced : Balanced code p q
  matched : ∀ r i, p ≤ r → r < q → code[r]? = some i → Matched code r i

namespace MatchedIn

theorem refl (code : Array Instruction) (p : Nat) : MatchedIn code p p :=
  ⟨.refl code p, fun _ _ hp hq => absurd hq (Nat.not_lt.2 hp)⟩

theorem append (h : MatchedIn code p q) (h' : MatchedIn code q r) : MatchedIn code p r := by
  refine ⟨h.balanced.trans h'.balanced, fun s i hp hr hi => ?_⟩
  rcases Nat.lt_or_ge s q with hlt | hge
  · exact h.matched s i hp hlt hi
  · exact h'.matched s i hge hr hi

theorem single (hi : code[p]? = some i) (hdepth : depthAt code (p + 1) = depthAt code p)
    (h : Matched code p i) : MatchedIn code p (p + 1) := by
  refine ⟨.single hdepth, fun r j hp hr hj => ?_⟩
  obtain rfl : p = r := by omega
  cases hi.symm.trans hj
  exact h

theorem plain (hi : code[p]? = some i) (hplain : i.isStructural = false) :
    MatchedIn code p (p + 1) := by
  refine single hi (depthAt_plain hi hplain) ⟨fun ho => ?_, ?_, ?_⟩
  · simp [Instruction.opens_of_plain hplain] at ho
  · rintro rfl
    cases hplain
  · rintro rfl
    cases hplain

/-- The `else` that a conditional holds the position of. -/
theorem otherwise (hi : code[p]? = some i) (hc : i.isCond = true)
    (helse : i.elseAt? = some (q : Int)) (h : MatchedIn code (p + 1) q)
    (hq : code[q]? = some .otherwise) : MatchedIn code q (q + 1) := by
  refine single hq (depthAt_otherwise hq) ⟨nofun, nofun, fun _ => ?_⟩
  exact ⟨p, i, hi, helse, hq, ⟨i, hi, hc⟩, ⟨i, hi, Instruction.opens_of_isCond hc⟩, h.balanced⟩

/-- A construct with its `end`. -/
theorem construct (hi : code[p]? = some i) (ho : i.opens = true)
    (hend : i.endAt? = some (q : Int)) (h : MatchedIn code (p + 1) q)
    (hclose : code[q]? = some .close)
    (helse : ∀ elseAt, i.elseAt? = some elseAt → ∃ r : Nat, elseAt = r ∧ IsElseOf code r p) :
    MatchedIn code p (q + 1) := by
  have hmatch : IsEndOf code q p := ⟨hclose, ⟨i, hi, ho⟩, h.balanced⟩
  refine ⟨h.balanced.construct hi ho hclose, fun r j hp hr hj => ?_⟩
  rcases Nat.eq_or_lt_of_le hp with rfl | hlt
  · cases hi.symm.trans hj
    refine ⟨fun _ => ⟨q, hend, hmatch, helse⟩, ?_, ?_⟩ <;> (rintro rfl; cases ho)
  rcases Nat.eq_or_lt_of_le (Nat.le_of_lt_succ hr) with rfl | hlt'
  · cases hclose.symm.trans hj
    exact ⟨nofun, fun _ => ⟨p, hmatch⟩, nofun⟩
  · exact h.matched r j hlt hlt' hj

end MatchedIn

namespace Structured

/-- Wherever structured code stands, its instructions have their matches. -/
theorem matchedIn_of_standsAt {s : Structured} (hs : s.Proper)
    (h : StandsAt code p (s.layout p)) : MatchedIn code p (p + s.size) := by
  induction s generalizing p with
  | done => exact .refl code p
  | plain i rest ih =>
    obtain ⟨hi, hrest⟩ := h
    rw [add_size_plain]
    exact (MatchedIn.plain hi hs.1).append (ih hs.2 hrest)
  | block type body rest ihb ihr =>
    obtain ⟨hopen, hbody, hclose, hrest⟩ := standsAt_block h
    rw [add_size_block]
    exact (MatchedIn.construct hopen rfl rfl (ihb hs.2.1 hbody) hclose nofun).append
      (ihr hs.2.2 hrest)
  | loop type body rest ihb ihr =>
    obtain ⟨hopen, hbody, hclose, hrest⟩ := standsAt_loop h
    rw [add_size_loop]
    exact (MatchedIn.construct hopen rfl rfl (ihb hs.2.1 hbody) hclose nofun).append
      (ihr hs.2.2 hrest)
  | cond type arm rest iha ihr =>
    obtain ⟨hopen, harm, hclose, hrest⟩ := standsAt_cond h
    rw [add_size_cond]
    exact (MatchedIn.construct hopen rfl rfl (iha hs.2.1 harm) hclose nofun).append
      (ihr hs.2.2 hrest)
  | condElse type arm other rest iha iho ihr =>
    obtain ⟨hopen, harm, helse, hother, hclose, hrest⟩ := standsAt_condElse h
    have ha := iha hs.2.1 harm
    have harms := (ha.append (ha.otherwise hopen rfl rfl helse)).append (iho hs.2.2.1 hother)
    rw [add_size_condElse]
    refine (MatchedIn.construct hopen rfl rfl harms hclose ?_).append (ihr hs.2.2.2 hrest)
    rintro elseAt ⟨⟩
    exact ⟨_, rfl, helse, ⟨_, hopen, rfl⟩, ⟨_, hopen, rfl⟩, ha.balanced⟩

theorem matchedIn_flatten {s : Structured} (hs : s.Proper) :
    MatchedIn s.flatten 0 s.flatten.size := by
  have h := matchedIn_of_standsAt hs s.standsAt_flatten
  rwa [Nat.zero_add, ← size_flatten] at h

end Structured

namespace MatchedIn

variable (h : MatchedIn code 0 code.size)
include h

theorem get (hi : code[p]? = some i) : Matched code p i := by
  obtain ⟨hp, -⟩ := Array.getElem?_eq_some_iff.1 hi
  exact h.matched p i (Nat.zero_le p) hp hi

/-- A conditional with an `else` holds its position. -/
theorem elseAt?_eq (helse : IsElseOf code q p) (hi : code[p]? = some i) :
    i.elseAt? = some (q : Int) := by
  obtain ⟨p', j, hj, hjelse, helse'⟩ := (h.get helse.1).elses rfl
  obtain rfl := helse.innermost.unique helse'.innermost
  cases hi.symm.trans hj
  exact hjelse

theorem nested : Nested code where
  closed p i hi ho := by
    obtain ⟨q, -, hend, -⟩ := (h.get hi).construct ho
    exact ⟨q, hend⟩
  ends q hq := (h.get hq).ends rfl
  elses q hq := by
    obtain ⟨p, -, -, -, helse⟩ := (h.get hq).elses rfl
    exact ⟨p, helse⟩
  distinct p q q' hq hq' := by
    obtain ⟨i, hi, -⟩ := hq.innermost.opens
    exact Int.ofNat.inj (Option.some.inj ((h.elseAt?_eq hq hi).symm.trans (h.elseAt?_eq hq' hi)))

theorem positioned (hi : code[p]? = some i) : Positioned code p i := by
  unfold Positioned
  split
  · rename_i ho
    obtain ⟨q, hq, hend, helse⟩ := (h.get hi).construct ho
    obtain ⟨hlt, -⟩ := Array.getElem?_eq_some_iff.1 hend.1
    refine ⟨q, hq, hend, hend.innermost.lt, hlt, ?_⟩
    cases he : i.elseAt? with
    | none =>
      refine .inl ⟨rfl, fun r hr => ?_⟩
      have := h.elseAt?_eq hr hi
      simp [he] at this
    | some elseAt =>
      obtain ⟨r, rfl, hr⟩ := helse elseAt he
      exact .inr ⟨r, rfl, hr, hr.innermost.lt, hr.lt_end hend⟩
  · rename_i ho
    cases i with
    | block | loop | cond => exact absurd rfl ho
    | _ => exact ⟨rfl, rfl⟩

end MatchedIn

/-- **The flat sequence of structured code is nested.** -/
theorem Structured.nested_flatten {s : Structured} (hs : s.Proper) : Nested s.flatten :=
  (matchedIn_flatten hs).nested

/-- **In the flat sequence of structured code every construct holds the positions of its parts.** -/
theorem Structured.positioned_flatten {s : Structured} (hs : s.Proper)
    (hi : s.flatten[p]? = some i) : Positioned s.flatten p i :=
  (matchedIn_flatten hs).positioned hi

end WasmCore
