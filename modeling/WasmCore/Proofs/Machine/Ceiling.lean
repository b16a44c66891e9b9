import Mathlib.Data.Finset.Max
import Mathlib.Order.Bounds.Basic
import WasmCore.Proofs.Machine.Arguments
import WasmCore.Proofs.Machine.Entry
import WasmCore.Proofs.Machine.Life
import WasmCore.Proofs.Machine.Safety

/-!
# The ceiling of the call stack

The calls in progress are never more than the ceiling of their thread, and each frame below it can
be had: a call is refused exactly if it is to enter a frame at the ceiling, and then it has changed
nothing. `Config.Guards` says so of one entry, wherever it comes from.

How high a run gets does not depend on the ceiling, unless that is too low for it
(`Config.exists_height`). So a call of an exported function in which `k` functions are nested needs
a ceiling of `k + 2`: one frame is that of the thread, and one holds the arguments.
`Config.Served.call_stack_ceiling` puts all this together.
-/

namespace WasmCore

namespace Machine

/-- The ceiling of a thread that was made with a limit. -/
def ceilingOf (limit : Int) : Nat := if limit < 1 then 2000 else limit.toNat

theorem ceilingOf_pos (limit : Int) : 1 ≤ ceilingOf limit := by
  unfold ceilingOf
  split
  · decide
  · omega

namespace Config

variable {c c' : Config} {a : ModuleAddr} {limit : Int} {m n : Nat}

/-! ### The life of a thread -/

/-- What can happen next to a thread whose owner evaluates, calls, invokes, executes code in its
bottom frame, and pushes and pops values; host functions call back in the course of it. -/
inductive Serves : Config → Config → Prop
  | step (c : Config) : Serves c c.step
  | change (c : Config) (w : World) : Serves c { c with world := w }
  | start {c c' : Config} (h : c.isHalted = true) (hs : c.thread.Starts c.world c') : Serves c c'
  | push {c : Config} (h : c.isHalted = true) (v : Value) :
    Serves c ((c.thread.push v).idle c.world)
  | pop {c : Config} (h : c.isHalted = true) :
    Serves c ((c.thread.pop c.world).thread.idle (c.thread.pop c.world).world)

/-- A thread that was made with a bottom frame and a limit has become this machine. -/
def Served (a : ModuleAddr) (limit : Int) (c : Config) : Prop :=
  ∃ w, Relation.ReflTransGen Serves ((Thread.new a limit).idle w) c

/-- The stack is not above its ceiling, which is `m`. -/
structure Bounded (m : Nat) (c : Config) : Prop where
  ceiling : c.ceiling = m
  depth : c.stack.depth ≤ m

theorem Bounded.step (h : c.Bounded m) : c.step.Bounded m := by
  refine ⟨c.step_ceiling.trans h.ceiling, ?_⟩
  have hbefore := h.depth
  have hceiling := h.ceiling
  rcases c.step_depth with hle | ⟨hentered, hroom⟩ <;> omega

theorem Bounded.run (h : c.Bounded m) (n : Nat) : (c.run n).Bounded m := by
  induction n with
  | zero => exact h
  | succ n ih =>
    rw [run_succ_last]
    exact ih.step

theorem Bounded.enter (h : c.Bounded m) (f : Frame) (b : Body) (finish : Finish) :
    (c.enter f b finish).Bounded m := by
  refine ⟨ceiling_enter.trans h.ceiling, ?_⟩
  rcases Nat.lt_or_ge c.stack.depth c.ceiling with hroom | hfull
  · rw [(enters_enter hroom f b finish).depth, ← h.ceiling]
    exact hroom
  · rw [(refused_enter hfull f b finish).stack.depth]
    exact h.depth

theorem Serves.bounded (h : c.Serves c') (hc : c.Bounded m) : c'.Bounded m := by
  cases h with
  | step => exact hc.step
  | change w => exact ⟨hc.ceiling, hc.depth⟩
  | start h hs =>
    have hidle : (c.thread.config c.world (.answer (.ok []))).Bounded m := ⟨hc.ceiling, hc.depth⟩
    cases hs with
    | eval a code => exact hidle.enter _ _ _
    | call a f arguments => exact hidle.enter _ _ _
    | invoke f => exact ⟨hc.ceiling, hc.depth⟩
    | exec hbottom code => exact ⟨hc.ceiling, hc.depth⟩
  | push h v => exact ⟨hc.ceiling, hc.depth⟩
  | pop h =>
    unfold Thread.pop
    split
    · exact ⟨hc.ceiling, hc.depth⟩
    · exact ⟨hc.ceiling, hc.depth⟩

theorem Served.bounded (h : c.Served a limit) : c.Bounded (ceilingOf limit) := by
  obtain ⟨w, hlater⟩ := h
  induction hlater with
  | refl => exact ⟨rfl, ceilingOf_pos limit⟩
  | tail _ hnext ih => exact hnext.bounded ih

theorem Served.run (h : c.Served a limit) (n : Nat) : (c.run n).Served a limit := by
  induction n with
  | zero => exact h
  | succ n ih =>
    obtain ⟨w, hlater⟩ := ih
    rw [run_succ_last]
    exact ⟨w, hlater.tail (.step _)⟩

/-! ### Entries -/

/-- A frame was to be entered: at the ceiling that was refused, and the trap shows as many calls as
the ceiling allows; below the ceiling it was done. -/
structure Guards (c c' : Config) : Prop where
  refused : c.stack.depth = c.ceiling → c.Refused c' ∧ c.stack.trace.length = c.ceiling
  entered : c.stack.depth < c.ceiling → c.Enters c'

theorem guards_step {f : FunctionAddr} (h : c.Entering f) : c.Guards c.step where
  refused := fun hfull => ⟨step_of_refuses ⟨⟨f, h⟩, Nat.le_of_eq hfull.symm⟩,
    (CallStack.length_trace _).trans hfull⟩
  entered := step_of_enters h

theorem guards_enter (f : Frame) (b : Body) (finish : Finish) : c.Guards (c.enter f b finish) where
  refused := fun hfull => ⟨refused_enter (Nat.le_of_eq hfull.symm) f b finish,
    (CallStack.length_trace _).trans hfull⟩
  entered := fun hroom => enters_enter hroom f b finish

/-- The trap of too many calls, if it is not made up by the host, comes from a refused entry. -/
theorem Bounded.overflow_iff (h : c.Bounded m) :
    (∃ t, c.Raises t ∧ t.cause.kind = .callStackOverflow ∧ ¬ c.HostFails) ↔
      (∃ f, c.Entering f) ∧ c.stack.depth = c.ceiling := by
  constructor
  · rintro ⟨t, hraises, ht, hhost⟩
    obtain ⟨hentering, hfull⟩ := hraises.refuses ht hhost
    exact ⟨hentering, Nat.le_antisymm (h.ceiling ▸ h.depth) hfull⟩
  · rintro ⟨hentering, hfull⟩
    have hrefuses : c.Refuses := ⟨hentering, Nat.le_of_eq hfull.symm⟩
    exact ⟨_, hrefuses.raises, rfl, hrefuses.not_hostFails⟩

/-! ### How high a run gets -/

/-- No run gets to the ceiling that has a frame for each step. -/
theorem run_capped_of_room (h : ∀ k < n, ¬ (c.run k).Refuses) (hm : c.stack.depth + n ≤ m) {j : Nat}
    (hj : j ≤ n) : (c.capped m).run j = (c.run j).capped m := by
  refine run_capped (fun k hk => h k (Nat.lt_of_lt_of_le hk hj)) fun k hk hrefuses => ?_
  have hfull : m ≤ (c.run k).stack.depth := hrefuses.2
  have hdepth := c.run_depth k
  omega

/-- A ceiling that a run never gets above is no hindrance to it. -/
theorem not_refuses_capped (h : ∀ k < n, ¬ (c.run k).Refuses)
    (hm : ∀ j ≤ n, (c.run j).stack.depth ≤ m) : ∀ k < n, ¬ ((c.run k).capped m).Refuses := by
  rintro k hk ⟨⟨f, hentering⟩, hfull⟩
  -- the function is entered, which takes one frame more
  have hcall : (c.run k).Entering f := ⟨hentering.now, hentering.ready⟩
  have hroom : (c.run k).stack.depth < (c.run k).ceiling :=
    Nat.not_le.1 fun hle => h k hk ⟨⟨f, hcall⟩, hle⟩
  have hentered := (step_of_enters hcall hroom).depth
  have hle := hm (k + 1) hk
  rw [run_succ_last, hentered] at hle
  have hfull' : m ≤ (c.run k).stack.depth := hfull
  omega

/-- **A run has a height.** It is not refused a frame exactly if the ceiling is not below its
height, and then this is the greatest number of frames in it. -/
theorem exists_height (c : Config) (n : Nat) : ∃ h, ∀ m, c.stack.depth ≤ m →
    ((∀ k < n, ¬ ((c.capped m).run k).Refuses) ↔ h ≤ m) ∧
    (h ≤ m → IsGreatest {d | ∃ j ≤ n, ((c.capped m).run j).stack.depth = d} h) := by
  -- the run under a ceiling that has a frame for each step
  let free := c.capped (c.stack.depth + n)
  have hfree : ∀ k < n, ¬ (free.run k).Refuses := by
    rintro k hk ⟨-, hfull⟩
    rw [run_ceiling] at hfull
    have hfull' : c.stack.depth + n ≤ (free.run k).stack.depth := hfull
    have hdepth : (free.run k).stack.depth ≤ c.stack.depth + k := free.run_depth k
    omega
  obtain ⟨top, htop, hmax⟩ := Finset.exists_max_image (Finset.range (n + 1))
    (fun j => (free.run j).stack.depth) ⟨0, by simp⟩
  simp only [Finset.mem_range, Nat.lt_succ_iff] at htop hmax
  refine ⟨(free.run top).stack.depth, fun m hm => ?_⟩
  have hroom (hle : (free.run top).stack.depth ≤ m) :
      ∀ k < n, ¬ ((free.run k).capped m).Refuses :=
    not_refuses_capped hfree fun j hj => Nat.le_trans (hmax j hj) hle
  have hsame (hle : (free.run top).stack.depth ≤ m) {j : Nat} (hj : j ≤ n) :
      (c.capped m).run j = (free.run j).capped m :=
    run_capped (c := free) (fun k hk => hfree k (Nat.lt_of_lt_of_le hk hj))
      fun k hk => hroom hle k (Nat.lt_of_lt_of_le hk hj)
  refine ⟨⟨fun hfits => ?_, fun hle k hk => ?_⟩, fun hle => ⟨⟨top, htop, ?_⟩, ?_⟩⟩
  · have htall : free.run top = ((c.capped m).run top).capped (c.stack.depth + n) :=
      run_capped_of_room (c := c.capped m) hfits (Nat.le_refl _) htop
    rw [htall]
    exact (Bounded.run ⟨rfl, hm⟩ top).depth
  · rw [hsame hle (Nat.le_of_lt hk)]
    exact hroom hle k hk
  · rw [hsame hle htop]
    rfl
  · rintro d ⟨j, hj, rfl⟩
    rw [hsame hle hj]
    exact hmax j hj

/-! ### Nested functions -/

/-- The number of functions of modules in progress. -/
def nested (c : Config) : Nat := c.stack.trace.countP fun l => l.function.isSome

/-- In `n` steps of the machine at most `k` functions are nested, and at some time that many. -/
def NestsTo (c : Config) (n k : Nat) : Prop := IsGreatest {d | ∃ j ≤ n, (c.run j).nested = d} k

/-- No location, or that of functions above `root`. -/
def Stacked (root : Location) (own : List Location) : Prop :=
  own = [] ∨ ∃ calls, own = calls ++ [root] ∧ ∀ l ∈ calls, l.function.isSome = true

theorem Moved.stacked {s : Store} {root : Location} {own own' : List Location}
    (h : Moved s own own') (hne : own ≠ []) (hown : Stacked root own) : Stacked root own' := by
  obtain ⟨calls, rfl, hcalls⟩ := hown.resolve_left hne
  cases h with
  | stays => exact .inr ⟨calls, rfl, hcalls⟩
  | @enters l hcall =>
    obtain ⟨f, hf, -⟩ := hcall
    refine .inr ⟨l :: calls, rfl, List.forall_mem_cons.2 ⟨?_, hcalls⟩⟩
    rw [hf]
    rfl
  | leaves howns =>
    cases calls with
    | nil =>
      cases howns
      exact .inl rfl
    | cons l calls =>
      cases howns
      exact .inr ⟨calls, rfl, (List.forall_mem_cons.1 hcalls).2⟩

/-- All frames of a run but its first one are those of functions. -/
theorem Above.run_stacked {base : CallStack} {root : Location} {own : List Location}
    {task : Waiting} (h : c.Above base own) (hown : Stacked root own) (hup : c.Upholds task base)
    (htask : task.ownsFrame = true) (n : Nat) :
    ∃ own', (c.run n).Above base own' ∧ Stacked root own' := by
  induction n with
  | zero => exact ⟨own, h, hown⟩
  | succ n ih =>
    obtain ⟨before, habove, hbefore⟩ := ih
    rw [run_succ_last]
    cases hrun : (c.run n).isHalted with
    | true =>
      rw [step_of_isHalted hrun]
      exact ⟨before, habove, hbefore⟩
    | false =>
      -- the task that the run was started with is in progress, and owns the first frame
      have hpos : 0 < (c.run n).entered := by
        cases hup.run n with
        | broken hnow => simp [isHalted, hnow] at hrun
        | running hroot hw _ => exact entered_pos hroot (hw.ownsFrame.trans htask)
        | ended ht hnow _ _ => cases hrun.symm.trans (isHalted_of_ended ht hnow)
      have hne : before ≠ [] := List.ne_nil_of_length_pos ((habove.entered hrun).symm ▸ hpos)
      obtain ⟨own', habove', hmoved⟩ := habove.step
      exact ⟨own', habove', hmoved.stacked hne hbefore⟩

/-- In a call on a new thread, all frames but two are those of functions. -/
theorem nested_run_callConfig (w : World) (a : ModuleAddr) (f : FunctionAddr)
    (arguments : List (Array Instruction)) (limit : Int) (n : Nat) :
    (((Thread.new a limit).callConfig w a f arguments).run n).nested =
      (((Thread.new a limit).callConfig w a f arguments).run n).stack.depth - 2 := by
  obtain ⟨own, habove, hsuffix⟩ := above_enter (c := (Thread.new a limit).config w _) rfl
    { location := ⟨a, none⟩ } { code := #[] } (.arguments arguments f) rfl
  have hown : Stacked ⟨a, none⟩ own := by
    rcases List.suffix_cons_iff.1 hsuffix with rfl | hnil
    · exact .inr ⟨[], rfl, nofun⟩
    · exact .inl (List.suffix_nil.1 hnil)
  obtain ⟨own', habove', hown'⟩ := habove.run_stacked hown
    (Thread.callConfig_upholds (Thread.new a limit) w a f arguments) rfl n
  have htrace : (((Thread.new a limit).callConfig w a f arguments).run n).stack.trace =
      own' ++ [⟨a, none⟩] := habove'.trace
  rw [nested, ← CallStack.length_trace, htrace]
  rcases hown' with rfl | ⟨calls, rfl, hcalls⟩
  · rfl
  · simp [List.countP_append, List.countP_eq_length.2 hcalls]

/-- In `n` steps the machine does not complain of too many calls, neither at the start nor later;
a host function may. -/
structure Fits (c : Config) (n : Nat) : Prop where
  start : ∀ t, c.now ≠ .answer (.error t)
  steps : ∀ k < n, ∀ t, (c.run k).Raises t → t.cause.kind = .callStackOverflow →
    (c.run k).HostFails

theorem fits_iff : c.Fits n ↔
    (∀ t, c.now ≠ .answer (.error t)) ∧ ∀ k < n, ¬ (c.run k).Refuses := by
  constructor
  · intro h
    exact ⟨h.start, fun k hk hrefuses =>
      hrefuses.not_hostFails (h.steps k hk _ hrefuses.raises rfl)⟩
  · rintro ⟨hstart, hsteps⟩
    refine ⟨hstart, fun k hk t hraises ht => ?_⟩
    by_contra hhost
    exact hsteps k hk (hraises.refuses ht hhost)

end Config

end Machine

/-! ### Calls of exported functions -/

namespace Engine

open Machine

variable (e : Engine)

/-- The same engine with another limit. -/
def limited (limit : Int) : Engine := { e with ceiling := limit }

variable {a : ModuleAddr} {f : FunctionAddr} {params : List Value} {limit : Int}

/-- The thread of the call, before it holds the arguments. -/
def idleConfig (a : ModuleAddr) (limit : Int) : Config :=
  (Thread.new a limit).config e.world (.answer (.ok []))

theorem callConfig_eq_enter (a : ModuleAddr) (f : FunctionAddr) (params : List Value)
    (limit : Int) : (e.limited limit).callConfig a f params =
      (e.idleConfig a limit).enter { location := ⟨a, none⟩ } { code := #[] }
        (.arguments (params.map Value.expression) f) := rfl

theorem callConfig_of_le (h : 2 ≤ ceilingOf limit) : (e.limited limit).callConfig a f params =
    ((e.limited 2).callConfig a f params).capped (ceilingOf limit) := by
  have hroom : (e.idleConfig a 2).stack.depth < (e.idleConfig a 2).ceiling := Nat.lt_succ_self 1
  have hsame : e.idleConfig a limit = (e.idleConfig a 2).capped (ceilingOf limit) := rfl
  rw [callConfig_eq_enter, callConfig_eq_enter, hsame]
  exact Config.enter_capped hroom h _ _ _

theorem callConfig_of_lt (h : ceilingOf limit < 2) (a : ModuleAddr) (f : FunctionAddr)
    (params : List Value) :
    ∃ t, ((e.limited limit).callConfig a f params).now = .answer (.error t) := by
  have hfull : (e.idleConfig a limit).ceiling ≤ (e.idleConfig a limit).stack.depth :=
    Nat.le_of_lt_succ h
  exact ⟨_, (Config.refused_enter hfull _ _ _).now⟩

/-- **The ceiling that nested functions need.** In `n` steps of a call of an exported function, some
number `k` of functions is nested: the call is not refused a frame exactly if its ceiling is at
least `k + 2`. -/
theorem exists_nesting (a : ModuleAddr) (f : FunctionAddr) (params : List Value) (n : Nat) :
    ∃ k, ∀ limit,
      (((e.limited limit).callConfig a f params).Fits n ↔ k + 2 ≤ ceilingOf limit) ∧
      (((e.limited limit).callConfig a f params).Fits n →
        ((e.limited limit).callConfig a f params).NestsTo n k) := by
  obtain ⟨h, hheight⟩ := ((e.limited 2).callConfig a f params).exists_height n
  have hdepth : ((e.limited 2).callConfig a f params).stack.depth = 2 := rfl
  rw [hdepth] at hheight
  -- the frame of the thread and that of the arguments are there from the start
  have htwo : 2 ≤ h := by
    obtain ⟨-, hgreatest⟩ := hheight (max h 2) (Nat.le_max_right h 2)
    exact (hgreatest (Nat.le_max_left h 2)).2 ⟨0, Nat.zero_le n, rfl⟩
  refine ⟨h - 2, fun limit => ?_⟩
  rcases Nat.lt_or_ge (ceilingOf limit) 2 with hlow | hroom
  · obtain ⟨t, hnow⟩ := e.callConfig_of_lt hlow a f params
    have hunfit : ¬ ((e.limited limit).callConfig a f params).Fits n := fun h => h.start t hnow
    refine ⟨⟨fun h => absurd h hunfit, fun h => ?_⟩, fun h => absurd h hunfit⟩
    omega
  · obtain ⟨hfits, hgreatest⟩ := hheight (ceilingOf limit) hroom
    rw [← e.callConfig_of_le hroom] at hfits hgreatest
    have hnested (j : Nat) : (((e.limited limit).callConfig a f params).run j).nested =
        (((e.limited limit).callConfig a f params).run j).stack.depth - 2 :=
      Config.nested_run_callConfig _ _ _ _ _ _
    have hstart : ∀ t, ((e.limited limit).callConfig a f params).now ≠ .answer (.error t) := by
      rw [e.callConfig_of_le hroom]
      exact nofun
    have hiff : ((e.limited limit).callConfig a f params).Fits n ↔ h - 2 + 2 ≤ ceilingOf limit := by
      rw [Config.fits_iff, hfits, Nat.sub_add_cancel htwo]
      exact and_iff_right hstart
    refine ⟨hiff, fun h => ?_⟩
    rw [hiff, Nat.sub_add_cancel htwo] at h
    obtain ⟨⟨top, htop, hh⟩, hmax⟩ := hgreatest h
    refine ⟨⟨top, htop, (hnested top).trans (hh ▸ rfl)⟩, ?_⟩
    rintro d ⟨j, hj, rfl⟩
    rw [hnested j]
    exact Nat.sub_le_sub_right (hmax ⟨j, hj, rfl⟩) 2

end Engine

namespace Machine.Config

variable {c : Config} {a : ModuleAddr} {limit : Int}

/-- **The ceiling is exact.** Whatever becomes of a thread, the calls in progress are at least one
and at most its ceiling. The machine complains of too many calls exactly if a function is to be
entered at the ceiling; calls, evaluations and calls with arguments are then refused, with a trap
that shows as many calls as the ceiling allows, and nothing is entered and no memory changed.

The last part is a result of its own, `Engine.exists_nesting`, and not about this machine: a call of
an exported function of any engine, in which `k` functions are nested, needs a ceiling of
`k + 2`. -/
theorem Served.call_stack_ceiling (h : c.Served a limit) :
    (c.ceiling = ceilingOf limit ∧ 1 ≤ c.stack.depth ∧ c.stack.depth ≤ c.ceiling) ∧
    ((∃ t, c.Raises t ∧ t.cause.kind = .callStackOverflow ∧ ¬ c.HostFails) ↔
      (∃ f, c.Entering f) ∧ c.stack.depth = c.ceiling) ∧
    (∀ f, c.Entering f → c.Guards c.step) ∧
    (∀ b code, c.Guards (c.thread.evalConfig c.world b code)) ∧
    (∀ b f arguments, c.Guards (c.thread.callConfig c.world b f arguments)) ∧
    ∀ (e : Engine) b f params n, ∃ k, ∀ limit',
      (((e.limited limit').callConfig b f params).Fits n ↔ k + 2 ≤ ceilingOf limit') ∧
      (((e.limited limit').callConfig b f params).Fits n →
        ((e.limited limit').callConfig b f params).NestsTo n k) := by
  have hbounded := h.bounded
  have hpos : 1 ≤ c.stack.depth := by
    rw [c.stack.depth_eq]
    exact Nat.le_add_left 1 _
  have hidle {c' : Config} (hc' : (c.thread.config c.world (.answer (.ok []))).Guards c') :
      c.Guards c' := by
    refine ⟨fun hfull => ?_, fun hroom => ?_⟩
    · obtain ⟨hrefused, hlength⟩ := hc'.refused hfull
      exact ⟨⟨hrefused.now, hrefused.stack, hrefused.store⟩, hlength⟩
    · obtain ⟨hnow, hbelow⟩ := hc'.entered hroom
      exact ⟨hnow, hbelow⟩
  refine ⟨⟨hbounded.ceiling, hpos, hbounded.ceiling ▸ hbounded.depth⟩, hbounded.overflow_iff,
    fun f => guards_step, ?_, ?_, fun e b f params n => e.exists_nesting b f params n⟩
  · intro b code
    exact hidle (guards_enter _ _ _)
  · intro b f arguments
    exact hidle (guards_enter _ _ _)

/-- An engine with a module whose first function calls the second one. -/
def chaining : Engine where
  world :=
    { store :=
      { modules := #[{ name := "guest", functions := #[⟨0⟩, ⟨1⟩] }]
        functions := #[⟨⟨[], []⟩, .defined ⟨0⟩ 0 ⟨[], #[.call 1]⟩⟩,
          ⟨⟨[], []⟩, .defined ⟨0⟩ 1 ⟨[], #[]⟩⟩]
        pageLimit := 1 } }
  ceiling := 3

/-- The machine that is about to call the second function, for which the ceiling is too low. -/
def chained : Config := (chaining.callConfig ⟨0⟩ ⟨0⟩ []).run 3

theorem chained_served : chained.Served ⟨0⟩ 3 := by
  have hstart : Serves ((Thread.new ⟨0⟩ 3).idle chaining.world) (chaining.callConfig ⟨0⟩ ⟨0⟩ []) :=
    .start rfl (.call _ _ _)
  exact Served.run ⟨_, .single hstart⟩ 3

theorem call_stack_ceiling_chained : chained.Served ⟨0⟩ 3 ∧ chained.Entering ⟨1⟩ ∧
    chained.stack.depth = 3 ∧ chained.Refused chained.step ∧
    ((chaining.callConfig ⟨0⟩ ⟨0⟩ []).run 20).outcome =
      .trap ⟨.callStackOverflow, [⟨⟨0⟩, some ⟨0⟩⟩, ⟨⟨0⟩, none⟩, ⟨⟨0⟩, none⟩]⟩ ∧
    (((chaining.limited 4).callConfig ⟨0⟩ ⟨0⟩ []).run 20).outcome = .values [] := by
  have hentering : chained.Entering ⟨1⟩ := ⟨rfl, _, _, _, _, _, _, rfl, rfl, rfl⟩
  have hdepth : chained.stack.depth = 3 := rfl
  obtain ⟨-, -, hguards, -⟩ := chained_served.call_stack_ceiling
  exact ⟨chained_served, hentering, hdepth, ((hguards ⟨1⟩ hentering).refused rfl).1, by decide,
    by decide⟩

end Machine.Config

end WasmCore
