import WasmCore.Machine.Body
import WasmCore.Proofs.Structured.Placement

/-!
# Bodies that only go forward

Without loops, every instruction that is completed goes on at a later position, leaves the body or
makes a call: `Body.Forward` says what the labels of such a body are like, and
`Body.Forward.step` that every instruction keeps it so and moves on.
-/

namespace WasmCore

/-- The sequence has no loop. -/
def Loopless (code : Array Instruction) : Prop :=
  ∀ i ∈ code, ∀ type endAt, i ≠ .loop type endAt

/-- A sequence without loops whose constructs are in place. -/
structure Straight (code : Array Instruction) : Prop where
  placed : Placed code
  loopless : Loopless code

theorem straight_empty : Straight #[] where
  placed p _ _ hlt := absurd hlt (Nat.not_lt_zero p)
  loopless i hi := absurd hi (Array.not_mem_empty i)

namespace Machine

/-! ### What an effect yields -/

/-- What the effect yields, if it is completed, satisfies `P`. -/
def Exec.Yields {α : Type} (P : α → Prop) (x : Exec α) : Prop := ∀ f a f', x f = .ok a f' → P a

namespace Exec.Yields

variable {α β : Type} {P : α → Prop} {Q : β → Prop}

theorem pure {a : α} (h : P a) : Yields P (Pure.pure a : Exec α) := by
  rintro f a' f' ⟨⟩
  exact h

theorem fault (e : Fault) : Yields P (Exec.fault e : Exec α) := nofun

theorem bind {x : Exec α} {k : α → Exec β} (h : ∀ a, Yields Q (k a)) : Yields Q (x >>= k) := by
  intro f b f' hb
  simp only [Bind.bind, EStateM.bind] at hb
  split at hb
  · exact h _ _ _ _ hb
  · cases hb

theorem ite {x y : Exec α} {p : Prop} [Decidable p] (hx : p → Yields P x) (hy : ¬ p → Yields P y) :
    Yields P (if p then x else y) := by
  split
  · exact hx ‹_›
  · exact hy ‹_›

end Exec.Yields

/-! ### Labels -/

/-- A label that a branch leaves forward: the `end` of its construct is ahead. -/
structure Label.Ahead (code : Array Instruction) (p : Nat) (l : Label) : Prop where
  leaves : l.isLoop = false
  encloses : ∃ q : Nat, l.endAt = q ∧ Encloses code p q

theorem Label.Ahead.mono {code : Array Instruction} {p p' : Nat} {l : Label} (h : l.Ahead code p)
    (hp : p ≤ p') (hend : (p' : Int) ≤ l.endAt) : l.Ahead code p' := by
  obtain ⟨hleaves, q, hq, hencloses⟩ := h
  exact ⟨hleaves, q, hq, hencloses.mono hp (Int.ofNat_le.1 (hq ▸ hend))⟩

namespace Body

/-- A body without loops, at a position inside of constructs that all end ahead, each one before
those around it. -/
structure Forward (b : Body) : Prop where
  straight : Straight b.code
  ahead : ∀ l ∈ b.labels, l.Ahead b.code b.position
  nested : b.labels.Pairwise fun l l' => l.endAt < l'.endAt

/-- The body goes on as another one, at a later position of the same sequence. -/
structure Precedes (b b' : Body) : Prop where
  code : b'.code = b.code
  arity : b'.arity = b.arity
  position : b.position < b'.position
  forward : b'.Forward

/-- An instruction that goes on goes forward. -/
def Onward (b : Body) : Move → Prop
  | .proceed b' => b.Precedes b'
  | .leave => True
  | .call _ => b.Precedes b.next

theorem jump_natCast_succ (b : Body) (q : Nat) :
    b.jump ((q : Int) + 1) = .proceed { b with position := q + 1 } := if_pos (Int.natCast_nonneg _)

namespace Forward

variable {b : Body} {i : Instruction} {l : Label} {outer : List Label}

theorem start {code : Array Instruction} (h : Straight code) (arity : Option Nat) :
    Forward { code, arity } :=
  ⟨h, nofun, .nil⟩

/-- The body inside of some of its constructs, at a position that they all enclose. -/
theorem moved (h : b.Forward) {p : Nat} {labels : List Label} (hp : b.position < p)
    (hsub : labels.Sublist b.labels) (hle : ∀ l ∈ labels, (p : Int) ≤ l.endAt) :
    b.Precedes { b with position := p, labels } where
  code := rfl
  arity := rfl
  position := hp
  forward :=
    { straight := h.straight
      ahead := fun l hl => (h.ahead l (hsub.subset hl)).mono (Nat.le_of_lt hp) (hle l hl)
      nested := h.nested.sublist hsub }

/-- What is no `end` stands before the ends of all constructs around it. -/
theorem before_end (h : b.Forward) (hi : b.code[b.position]? = some i) (hne : i ≠ .close)
    (hl : l ∈ b.labels) : (b.position : Int) < l.endAt := by
  obtain ⟨-, q, hq, hencloses⟩ := h.ahead l hl
  rw [hq]
  refine Int.ofNat_lt.2 (Nat.lt_of_le_of_ne hencloses.le fun hsame => hne ?_)
  exact Option.some.inj (hi.symm.trans (hsame ▸ hencloses.close))

/-- A construct that opens ends before those around it. -/
theorem opens_within (h : b.Forward) (hi : b.code[b.position]? = some i) {endAt : Int}
    (hend : i.endAt? = some endAt) (hl : l ∈ b.labels) : endAt < l.endAt := by
  have hne : i ≠ .close := by
    rintro rfl
    cases hend
  have hlt := h.before_end hi hne hl
  obtain ⟨-, q, hq, hencloses⟩ := h.ahead l hl
  rw [hq] at hlt ⊢
  exact hencloses.inner b.position i endAt (Nat.le_refl _) (Int.ofNat_lt.1 hlt) hi hend

theorem resolved (h : b.Forward) (hi : b.code[b.position]? = some i) :
    Resolved b.code b.position b.code.size i :=
  h.straight.placed b.position i (Nat.zero_le _) (Array.getElem?_eq_some_iff.1 hi).1 hi

/-! ### Instructions -/

theorem next (h : b.Forward) (hi : b.code[b.position]? = some i) (hne : i ≠ .close) :
    b.Precedes b.next :=
  h.moved (Nat.lt_succ_self _) (List.Sublist.refl _) fun _ hl => h.before_end hi hne hl

theorem closes (h : b.Forward) : b.Precedes { b.next with labels := b.labels.tail } := by
  refine h.moved (Nat.lt_succ_self _) (List.tail_sublist _) fun l hl => ?_
  -- the construct that ends is inside of all that remain
  obtain ⟨labels, hlabels⟩ : ∃ labels, labels = b.labels := ⟨_, rfl⟩
  cases labels with
  | nil =>
    rw [← hlabels] at hl
    cases hl
  | cons innermost outer =>
    have hnested := h.nested
    have hahead := h.ahead innermost (hlabels ▸ List.mem_cons_self ..)
    rw [← hlabels] at hl hnested
    obtain ⟨-, q, hq, hencloses⟩ := hahead
    have hlt := List.rel_of_pairwise_cons hnested hl
    have hle := hencloses.le
    show ((b.position + 1 : Nat) : Int) ≤ l.endAt
    omega

/-- Behind the end of a construct around it the body is inside of those around that one. -/
theorem exits (h : b.Forward) (hsub : (l :: outer).Sublist b.labels) :
    b.Onward ({ b with labels := outer }.jump (l.endAt + 1)) := by
  obtain ⟨-, q, hq, hencloses⟩ := h.ahead l (hsub.subset (List.mem_cons_self ..))
  have hnested := h.nested.sublist hsub
  have hp := hencloses.le
  rw [hq, jump_natCast_succ]
  refine h.moved (by omega) ((List.sublist_cons_self _ _).trans hsub) fun l' hl' => ?_
  have hlt := List.rel_of_pairwise_cons hnested hl'
  omega

/-- Behind a construct that it does not enter the body is inside of those around it. -/
theorem skips (h : b.Forward) (hi : b.code[b.position]? = some i) {q : Nat}
    (hend : i.endAt? = some (q : Int)) (hq : b.position < q) :
    b.Onward (b.jump ((q : Int) + 1)) := by
  rw [jump_natCast_succ]
  exact h.moved (Nat.lt_succ_of_lt hq) (List.Sublist.refl _) fun _ hl => h.opens_within hi hend hl

/-- Inside of a construct that it opens the body is inside of those around it as well. -/
theorem opens (h : b.Forward) (hi : b.code[b.position]? = some i) {q p : Nat} {type : ValueType}
    (height : Nat) (hend : i.endAt? = some (q : Int))
    (hencloses : Encloses b.code (b.position + 1) q) (hp : b.position < p) (hq : p ≤ q) :
    b.Precedes { b.within (b.label type q height false) with position := p } where
  code := rfl
  arity := rfl
  position := hp
  forward :=
    { straight := h.straight
      ahead := by
        refine List.forall_mem_cons.2 ⟨⟨rfl, q, rfl, hencloses.mono hp hq⟩, fun l hl => ?_⟩
        have hlt := h.opens_within hi hend hl
        have hle : (p : Int) ≤ l.endAt := by omega
        exact (h.ahead l hl).mono (Nat.le_of_lt hp) hle
      nested := List.pairwise_cons.2 ⟨fun l hl => h.opens_within hi hend hl, h.nested⟩ }

theorem branch (h : b.Forward) (depth : UInt32) : (b.branch depth).Yields b.Onward := by
  unfold Body.branch
  have hdrop : (b.labels.drop depth.toNat).Sublist b.labels := List.drop_sublist _ _
  split
  · exact .bind fun _ => .pure trivial
  · rename_i l outer hlabels
    rw [hlabels] at hdrop
    refine .bind fun _ => .pure ?_
    rw [if_neg (by simp [(h.ahead l (hdrop.subset (List.mem_cons_self ..))).leaves])]
    exact h.exits hdrop

/-- An `else` that the first arm reaches exits the conditional. -/
theorem otherwise (h : b.Forward) : (b.step .otherwise).Yields b.Onward := by
  obtain ⟨code, position, labels, arity⟩ := b
  cases labels with
  | nil => exact .fault _
  | cons l outer => exact .pure (h.exits (List.Sublist.refl _))

theorem plain (h : b.Forward) (hi : b.code[b.position]? = some i) (hne : i ≠ .close)
    (hplain : b.step i = Exec.plain i >>= fun _ => pure (.proceed b.next)) :
    (b.step i).Yields b.Onward := by
  rw [hplain]
  exact .bind fun _ => .pure (h.next hi hne)

/-- **Every instruction goes forward.** Where it goes on in the body, it does so at a later
position, from which it is so again; and so it is behind a call. -/
theorem step (h : b.Forward) (hi : b.code[b.position]? = some i) : (b.step i).Yields b.Onward := by
  have hresolved := h.resolved hi
  cases i with
  | unreachable => exact .fault _
  | nop => exact .pure (h.next hi nofun)
  | block type endAt =>
    obtain ⟨q, rfl, -, hencloses, -⟩ := hresolved endAt rfl
    exact .bind fun height => .pure
      (h.opens hi height rfl hencloses (Nat.lt_succ_self _) hencloses.le)
  | loop type endAt =>
    exact absurd rfl (h.straight.loopless _ (Array.mem_of_getElem? hi) type endAt)
  | cond type elseAt endAt =>
    obtain ⟨q, rfl, -, hencloses, helse⟩ := hresolved endAt rfl
    refine .bind fun c => .bind fun height => .ite (fun _ => ?_) fun _ => ?_
    · cases elseAt with
      | none => exact .pure (h.skips hi rfl hencloses.le)
      | some elseAt =>
        obtain ⟨y, rfl, hbefore, hafter, -⟩ := helse elseAt rfl
        refine .pure ?_
        rw [jump_natCast_succ]
        exact h.opens hi height rfl hencloses (Nat.lt_succ_of_lt hbefore) hafter
    · exact .pure (h.opens hi height rfl hencloses (Nat.lt_succ_self _) hencloses.le)
  | otherwise => exact h.otherwise
  | close => exact .pure h.closes
  | br depth => exact h.branch depth
  | brIf depth =>
    exact .bind fun c => .ite (fun _ => .pure (h.next hi nofun)) fun _ => h.branch depth
  | brTable targets fallback => exact .bind fun i => h.branch _
  | ret => exact .bind fun _ => .pure trivial
  | call f => exact .pure (h.next hi nofun)
  | callIndirect | drop | select | localGet | localSet | localTee | globalGet | globalSet | load
  | store | memorySize | memoryGrow | const | numeric | undefined => exact h.plain hi nofun rfl

end Forward

end Body

end Machine

end WasmCore
