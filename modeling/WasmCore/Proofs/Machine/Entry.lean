import WasmCore.Proofs.Machine.Nesting
import WasmCore.Proofs.Machine.Raise

/-!
# The entry of frames

A frame is entered only by the call of a function of a module, and only below the ceiling
(`Config.step_of_enters`). At the ceiling the call is refused, which changes nothing but that the
parameters are gone (`Config.step_of_refuses`). The ceiling has no other part in a run: up to the
first refusal, a machine does the same under any ceiling (`Config.run_capped`).
-/

namespace WasmCore.Machine

namespace Config

variable {c : Config} {m : Nat}

/-- A function is about to be entered at the ceiling. -/
def Refuses (c : Config) : Prop := (∃ f, c.Entering f) ∧ c.ceiling ≤ c.stack.depth

/-- From `c` to `c'` a frame was refused: the answer is a trap that shows the calls in progress,
and no frame and no memory has changed. -/
structure Refused (c c' : Config) : Prop where
  now : c'.now = .answer (.error ⟨.callStackOverflow, c.stack.trace⟩)
  stack : c.stack.Keeps c'.stack
  store : c'.world.store = c.world.store

/-- From `c` to `c'` a frame was entered. -/
structure Enters (c c' : Config) : Prop where
  now : ∃ b finish, c'.now = .body b finish
  below : ∃ f : Frame, f.location = c.stack.current.location ∧ c'.stack.below = f :: c.stack.below

theorem refused_enter (h : c.ceiling ≤ c.stack.depth) (f : Frame) (b : Body) (finish : Finish) :
    c.Refused (c.enter f b finish) := by
  unfold enter
  rw [if_pos h]
  exact ⟨rfl, .refl _, rfl⟩

theorem enters_enter (h : c.stack.depth < c.ceiling) (f : Frame) (b : Body) (finish : Finish) :
    c.Enters (c.enter f b finish) := by
  unfold enter
  rw [if_neg (Nat.not_le.2 h)]
  exact ⟨⟨b, finish, rfl⟩, _, rfl, rfl⟩

theorem Enters.depth {c' : Config} (h : c.Enters c') : c'.stack.depth = c.stack.depth + 1 := by
  obtain ⟨f, -, hbelow⟩ := h.below
  rw [c'.stack.depth_eq, hbelow, List.length_cons, c.stack.depth_eq]

/-- The call of a function of a module whose parameters are there. -/
theorem Entering.step {f : FunctionAddr} (h : c.Entering f) : ∃ values fr b finish,
    c.step = (c.withValues values).enter fr b finish := by
  obtain ⟨hnow, fn, owner, position, code, params, values, hf, hbody, hpop⟩ := h
  have hstep : c.step = (c.withValues values).enter
      { location := ⟨owner, some f⟩, locals := initialLocals params code.locals }
      { code := code.body, arity := some fn.type.results.length } (.results fn.type.results) := by
    simp only [Config.step, hnow, stepInvoke, hf, hpop, hbody]
  exact ⟨values, _, _, _, hstep⟩

theorem step_of_refuses (h : c.Refuses) : c.Refused c.step := by
  obtain ⟨⟨f, hentering⟩, hfull⟩ := h
  obtain ⟨values, fr, b, finish, hstep⟩ := hentering.step
  have hrefused := refused_enter (c := c.withValues values) hfull fr b finish
  rw [hstep]
  exact ⟨hrefused.now, ⟨hrefused.stack.below, hrefused.stack.location⟩, hrefused.store⟩

theorem step_of_enters {f : FunctionAddr} (h : c.Entering f) (hroom : c.stack.depth < c.ceiling) :
    c.Enters c.step := by
  obtain ⟨values, fr, b, finish, hstep⟩ := h.step
  have henters := enters_enter (c := c.withValues values) hroom fr b finish
  rw [hstep]
  obtain ⟨g, hg, hbelow⟩ := henters.below
  exact ⟨henters.now, g, hg, hbelow⟩

/-- The refusal of a frame raises a trap. -/
theorem Refuses.raises (h : c.Refuses) : c.Raises ⟨.callStackOverflow, c.stack.trace⟩ := by
  refine ⟨?_, (step_of_refuses h).now⟩
  obtain ⟨⟨f, hentering⟩, -⟩ := h
  rw [hentering.now]
  rfl

theorem Refuses.not_hostFails (h : c.Refuses) : ¬ c.HostFails := by
  rintro ⟨type, fault, hnow⟩
  obtain ⟨⟨f, hentering⟩, -⟩ := h
  cases hentering.now.symm.trans hnow

/-- **The machine itself complains of too many calls only at the ceiling.** -/
theorem Raises.refuses {t : Trap} (h : c.Raises t) (ht : t.cause.kind = .callStackOverflow)
    (hhost : ¬ c.HostFails) : c.Refuses := by
  obtain ⟨-, hshallow | hfails | ⟨f, hentering, hfull, -⟩⟩ := h.origin
  · exact absurd ht hshallow
  · exact absurd hfails hhost
  · exact ⟨⟨f, hentering⟩, hfull⟩

/-! ### Depth -/

theorem Turn.depth_le {c' : Config} (h : c.Turn c') (hnow : ∀ f, c.now ≠ .invoke f) :
    c'.stack.depth ≤ c.stack.depth := by
  cases h with
  | rests _ hsame => exact Nat.le_of_eq (by rw [hsame])
  | breaks _ hs => exact Nat.le_of_eq hs.depth
  | advances _ _ _ hs _ => exact Nat.le_of_eq hs.depth
  | enters hinvoke => exact absurd hinvoke (hnow _)
  | delegates hinvoke => exact absurd hinvoke (hnow _)
  | refuses hinvoke => exact absurd hinvoke (hnow _)
  | ends _ _ _ _ hs =>
    split at hs
    · rw [c.stack.depth_eq, hs, CallStack.frames, List.length_cons, c'.stack.depth_eq]
      exact Nat.le_succ _
    · exact Nat.le_of_eq hs.depth

/-- A call that enters no frame leaves the depth as it is. -/
theorem stepInvoke_depth {f : FunctionAddr} (hnow : c.now = .invoke f) (h : ¬ c.Entering f) :
    (c.stepInvoke f).stack.depth = c.stack.depth := by
  unfold stepInvoke
  split
  · rfl
  · rename_i fn hf
    split
    · rfl
    · rename_i params values hpop
      dsimp only
      split
      · rfl
      · rename_i owner position code hbody
        exact absurd ⟨hnow, fn, owner, position, code, params, values, hf, hbody, hpop⟩ h

/-- A step adds at most one frame, and none at the ceiling. -/
theorem step_depth (c : Config) : c.step.stack.depth ≤ c.stack.depth ∨
    c.step.stack.depth = c.stack.depth + 1 ∧ c.stack.depth < c.ceiling := by
  by_cases hinvoke : ∃ f, c.now = .invoke f
  · obtain ⟨f, hnow⟩ := hinvoke
    by_cases hentering : c.Entering f
    · rcases Nat.lt_or_ge c.stack.depth c.ceiling with hroom | hfull
      · exact .inr ⟨(step_of_enters hentering hroom).depth, hroom⟩
      · exact .inl (Nat.le_of_eq (step_of_refuses ⟨⟨f, hentering⟩, hfull⟩).stack.depth)
    · have hstep : c.step = c.stepInvoke f := by simp only [step, hnow]
      exact .inl (Nat.le_of_eq (hstep ▸ stepInvoke_depth hnow hentering))
  · exact .inl ((step_turn c).depth_le fun f hnow => hinvoke ⟨f, hnow⟩)

/-- A run adds at most one frame per step. -/
theorem run_depth (c : Config) (n : Nat) : (c.run n).stack.depth ≤ c.stack.depth + n := by
  induction n with
  | zero => exact Nat.le_refl _
  | succ n ih =>
    rw [run_succ_last]
    rcases (c.run n).step_depth with h | ⟨h, -⟩ <;> omega

/-- A run stays below the ceiling, or as deep as it was. -/
theorem runAmid_depth_le (c : Config) (changes : Changes) (n : Nat) :
    (c.runAmid changes n).stack.depth ≤ max c.stack.depth c.ceiling := by
  refine (runAmid_invariant
    (I := fun c' => c'.stack.depth ≤ max c.stack.depth c.ceiling ∧ c'.ceiling = c.ceiling)
    ⟨Nat.le_max_left _ _, rfl⟩ ?_ (fun _ _ h => h) n).1
  rintro c' ⟨hdepth, hceiling⟩
  refine ⟨?_, c'.step_ceiling.trans hceiling⟩
  rcases c'.step_depth with hle | ⟨hentered, hroom⟩ <;> omega

/-! ### Other ceilings -/

/-- The machine with another ceiling. -/
def capped (c : Config) (m : Nat) : Config := { c with ceiling := m }

theorem recast_nil : c.recast m [] = c.capped m := by
  simp only [recast, capped, List.append_nil]

/-- Below both ceilings a frame is entered. -/
theorem enter_capped (hroom : c.stack.depth < c.ceiling) (hroom' : c.stack.depth < m) (f : Frame)
    (b : Body) (finish : Finish) :
    (c.capped m).enter f b finish = (c.enter f b finish).capped m := by
  rw [← recast_nil, ← recast_nil]
  exact enter_recast (iff_of_false (Nat.not_le.2 hroom') (Nat.not_le.2 hroom)) f b finish

/-- Unless a frame is refused, a machine makes the same step under another ceiling. -/
theorem step_capped (h : ¬ c.Refuses) (h' : ¬ (c.capped m).Refuses) :
    (c.capped m).step = c.step.capped m := by
  cases hrun : c.isHalted with
  | true =>
    have hrun' : (c.capped m).isHalted = true := hrun
    rw [step_of_isHalted hrun, step_of_isHalted hrun']
  | false =>
    rw [← recast_nil, ← recast_nil]
    refine step_recast hrun fun f hentering => iff_of_false ?_ ?_
    · exact fun hfull => h' ⟨⟨f, hentering.now, hentering.ready⟩, hfull⟩
    · exact fun hfull => h ⟨⟨f, hentering⟩, hfull⟩

/-- **Up to the first refusal a run is the same under any ceiling.** -/
theorem run_capped {n : Nat} (h : ∀ k < n, ¬ (c.run k).Refuses)
    (h' : ∀ k < n, ¬ ((c.run k).capped m).Refuses) : (c.capped m).run n = (c.run n).capped m := by
  induction n with
  | zero => rfl
  | succ n ih =>
    have hlt : n < n + 1 := Nat.lt_succ_self n
    rw [run_succ_last, run_succ_last, ih (fun k hk => h k (Nat.lt_trans hk hlt))
      (fun k hk => h' k (Nat.lt_trans hk hlt))]
    exact step_capped (h n hlt) (h' n hlt)

theorem ceiling_enter {f : Frame} {b : Body} {finish : Finish} :
    (c.enter f b finish).ceiling = c.ceiling := by
  unfold enter
  split <;> rfl

end Config

end WasmCore.Machine
