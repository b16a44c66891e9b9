import WasmCore.Store.Link

/-!
# Triples for linking

A step of linking may fail, and what it has done then stays done. So `Link.Triple P x Q E` has two
sides: from every state that satisfies `P`, the step `x` ends as `Q` says if it succeeds, and as `E`
says if it fails. There is one rule for each way in which steps are put together; what is kept by
linking (`Link.Keeps`) and under which condition it succeeds are both stated by triples.
-/

namespace WasmCore.Link

/-- From a state that satisfies `P` the step ends as `Q` says, or fails as `E` says. -/
def Triple {α : Type} (P : Linking → Prop) (x : Link α) (Q : α → Linking → Prop)
    (E : LinkError → Linking → Prop) : Prop :=
  ∀ l, P l → match x l with
    | .ok a l' => Q a l'
    | .error e l' => E e l'

/-- Whatever the step yields, it keeps `I`, and where it fails, `E` holds. -/
abbrev Keeps {α : Type} (I : Linking → Prop) (E : LinkError → Linking → Prop) (x : Link α) : Prop :=
  Triple I x (fun _ => I) E

namespace Triple

variable {α β : Type} {P P' I : Linking → Prop} {x : Link α} {Q Q' : α → Linking → Prop}
  {E E' : LinkError → Linking → Prop} {l l' : Linking}

theorem of_ok {a : α} (h : Triple P x Q E) (hl : P l) (hx : x l = .ok a l') : Q a l' := by
  have hend := h l hl
  rwa [hx] at hend

theorem of_error {e : LinkError} (h : Triple P x Q E) (hl : P l) (hx : x l = .error e l') :
    E e l' := by
  have hend := h l hl
  rwa [hx] at hend

/-! ### Rules -/

theorem mono (h : Triple P x Q E) (hP : ∀ l, P' l → P l) (hQ : ∀ a l, Q a l → Q' a l)
    (hE : ∀ e l, E e l → E' e l) : Triple P' x Q' E' := by
  intro l hl
  have hend := h l (hP l hl)
  split at hend
  · exact hQ _ _ hend
  · exact hE _ _ hend

/-- A step from one of the states that it is known for. -/
theorem start (h : Triple P x Q E) (hl : P l) : Triple (· = l) x Q E :=
  h.mono (fun _ hl' => hl' ▸ hl) (fun _ _ => id) fun _ _ => id

/-- A fact that does not depend on the state may be assumed for the step. -/
theorem given {p : Prop} (h : p → Triple P x Q E) : Triple (fun l => p ∧ P l) x Q E :=
  fun l hl => h hl.1 l hl.2

theorem pure {a : α} (h : ∀ l, P l → Q a l) : Triple P (Pure.pure a) Q E := h

theorem throw {e : LinkError} (h : ∀ l, P l → E e l) :
    Triple P (MonadExcept.throw e : Link α) Q E := h

theorem modifyGet {f : Linking → α × Linking} (h : ∀ l, P l → Q (f l).1 (f l).2) :
    Triple P (MonadState.modifyGet f) Q E := h

/-- A step that looks at what was linked so far. -/
theorem get {k : Linking → Link α} (h : ∀ l, P l → Triple (· = l) (k l) Q E) :
    Triple P (MonadState.get >>= k) Q E := fun l hl => h l hl l rfl

theorem bind {k : α → Link β} {Q : β → Linking → Prop} {R : α → Linking → Prop}
    (hx : Triple P x R E) (hk : ∀ a, Triple (R a) (k a) Q E) : Triple P (x >>= k) Q E := by
  intro l hl
  have hfirst := hx l hl
  simp only [Bind.bind, EStateM.bind]
  cases hr : x l with
  | ok a l' =>
    rw [hr] at hfirst
    exact hk a l' hfirst
  | error e l' =>
    rw [hr] at hfirst
    exact hfirst

theorem forM {f : α → Link Unit} (hf : ∀ x, Keeps I E (f x)) (xs : List α) :
    Keeps I E (xs.forM f) := by
  induction xs with
  | nil => exact pure fun _ => id
  | cons x xs ih => exact (hf x).bind fun _ => ih

theorem mapM {f : α → Link β} (hf : ∀ x, Keeps I E (f x)) (xs : List α) :
    Keeps I E (xs.mapM f) := by
  induction xs with
  | nil =>
    rw [List.mapM_nil]
    exact pure fun _ => id
  | cons x xs ih =>
    rw [List.mapM_cons]
    exact (hf x).bind fun b => ih.bind fun bs => pure fun _ => id

end Triple

end WasmCore.Link
