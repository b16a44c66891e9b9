import WasmCore.Proofs.Binary.Expression
import WasmCore.Proofs.Machine.Entry
import WasmCore.Proofs.Machine.Orderly
import WasmCore.Proofs.Machine.Safety

/-!
# Termination of programs without loops

If no function of a store has a loop and none of the host calls back, every call comes to an end,
whatever functions call each other: `Thread.call_terminates`. Others may change the world meanwhile,
as long as this remains so (`Thread.call_terminates_amid`).

Within a body all instructions go forward, and each call is one frame deeper, so that there is room
for fewer. So bodies come to an end if the calls that they make do (`Config.halts_body`), and calls
do if those from one frame deeper do (`Config.callable`); at the ceiling none is entered.
-/

namespace WasmCore.Machine

namespace Config

variable {c c₁ : Config} {b : Body} {finish : Finish}

/-! ### Halting -/

/-- The machine comes to an end, in whatever world and whatever others make of it meanwhile, if
nothing in the store loops or calls back. -/
def Halts (c : Config) : Prop :=
  ∀ (changes : Changes) (w : World), changes.Keep Store.Tame → w.store.Tame →
    ∃ n, (({ c with world := w } : Config).runAmid changes n).isHalted = true

theorem halts_of_isHalted (h : c.isHalted = true) : c.Halts := fun _ _ _ _ => ⟨0, h⟩

/-- An orderly machine at a depth, under a ceiling. -/
structure At (m d : Nat) (c : Config) : Prop where
  orderly : c.Orderly
  ceiling : c.ceiling = m
  depth : c.stack.depth = d

variable {m d : Nat}

theorem At.step {d' : Nat} (h : c.At m d) (hdepth : c.step.stack.depth = d') : c.step.At m d' :=
  ⟨h.orderly.step, (step_ceiling c).trans h.ceiling, hdepth⟩

/-- It is enough that the next machine comes to an end, in whatever world the step is made. -/
theorem At.halts_of_step (hc : c.At m d) {now : Now} {ws : List Waiting} (hnow : c.now = now)
    (hwaiting : c.waiting = ws)
    (h : ∀ c' : Config, c'.At m d → c'.now = now → c'.waiting = ws → c'.step.Halts) :
    c.Halts := by
  intro changes w hchanges hw
  let c' : Config := { c with world := w }
  have hc' : c'.At m d := ⟨hc.orderly.changed (f := fun _ => w) hw, hc.ceiling, hc.depth⟩
  have hlater := hchanges 0 _ hc'.orderly.step.tame
  obtain ⟨n, hn⟩ := h c' hc' hnow hwaiting changes.tail _ hchanges.tail hlater
  exact ⟨n + 1, by rwa [runAmid_succ_first]⟩

/-- Whatever the answer at this depth, what waits for it comes to an end. -/
def Settled (m d : Nat) (ws : List Waiting) : Prop :=
  ∀ (c : Config) r, c.At m d → c.now = .answer r → c.waiting = ws → c.Halts

/-- Every call at this depth comes to an end, if what waits for its answer does. -/
def Callable (m d : Nat) : Prop :=
  ∀ (c : Config) f, c.At m d → c.now = .invoke f → Settled m d c.waiting → c.Halts

/-- A request of a host program at this depth. -/
theorem At.halts_of_request (hc : c.At m d) {type : FunctionType} {p : HostProgram}
    (hnow : c.now = .host type p) (hp : p.Calls fun _ => False)
    (h : ∀ c₀ c' : Config, c'.At m d → c'.waiting = c.waiting →
      c'.now = (c₀.stepHost type p).now → c'.Halts) : c.Halts := by
  refine hc.halts_of_step hnow rfl fun c' hc' hnow' hwaiting => ?_
  have hlevel := (c'.orderly_stepHost hp type).2
  have hstep : c'.step = c'.stepHost type p := by simp only [Config.step, hnow']
  refine h c' c'.step (hc'.step ?_) ?_ (congrArg Config.now hstep)
  · rw [hstep, hlevel.depth, hc'.depth]
  · rw [hstep, hlevel.waiting, hwaiting]

/-- A host program that does not call back comes to an end: it is a finite tree. -/
theorem halts_host {p : HostProgram} (hp : p.Calls fun _ => False) {type : FunctionType}
    (hc : c.At m d) (hnow : c.now = .host type p) (hsettled : Settled m d c.waiting) :
    c.Halts := by
  induction p generalizing c with
  | done results =>
    refine hc.halts_of_request hnow hp fun c₀ c' hc' hwaiting hnow' => ?_
    have hanswer : ∃ r, (c₀.stepHost type (.done results)).now = .answer r := by
      simp only [stepHost]
      split <;> exact ⟨_, rfl⟩
    obtain ⟨r, hr⟩ := hanswer
    exact hsettled c' r hc' (hnow'.trans hr) hwaiting
  | fail failure =>
    refine hc.halts_of_request hnow hp fun c₀ c' hc' hwaiting hnow' => ?_
    have hanswer : ∃ r, (c₀.stepHost type (.fail failure)).now = .answer r := by
      cases failure <;> exact ⟨_, rfl⟩
    obtain ⟨r, hr⟩ := hanswer
    exact hsettled c' r hc' (hnow'.trans hr) hwaiting
  | callerModule next ih =>
    refine hc.halts_of_request hnow hp fun c₀ c' hc' hwaiting hnow' => ?_
    exact ih _ (hp _) hc' hnow' (hwaiting ▸ hsettled)
  | callerMemory next ih =>
    refine hc.halts_of_request hnow hp fun c₀ c' hc' hwaiting hnow' => ?_
    exact ih _ (hp _) hc' hnow' (hwaiting ▸ hsettled)
  | push v next ih =>
    refine hc.halts_of_request hnow hp fun c₀ c' hc' hwaiting hnow' => ?_
    exact ih hp hc' hnow' (hwaiting ▸ hsettled)
  | invoke f next => exact hp.1.elim
  | print text next ih =>
    refine hc.halts_of_request hnow hp fun c₀ c' hc' hwaiting hnow' => ?_
    have hnext : ∃ isOpen,
        (c₀.stepHost type (.print text next)).now = .host type (next isOpen) := by
      simp only [stepHost]
      split <;> exact ⟨_, rfl⟩
    obtain ⟨isOpen, hnext⟩ := hnext
    exact ih isOpen (hp isOpen) hc' (hnow'.trans hnext) (hwaiting ▸ hsettled)
  | report e next ih =>
    refine hc.halts_of_request hnow hp fun c₀ c' hc' hwaiting hnow' => ?_
    exact ih hp hc' hnow' (hwaiting ▸ hsettled)

/-! ### Bodies and calls -/

/-- The depth at which the answer of a body is given. -/
def answerDepth (finish : Finish) (d : Nat) : Nat := if finish.ownsFrame then d - 1 else d

variable {ws : List Waiting}

theorem halts_of_broken {e : Defect} (h : c.now = .broken e) : c.Halts :=
  halts_of_isHalted (by simp [isHalted, h])

theorem Settled.answers (h : Settled m (answerDepth finish d) ws) (horderly : c.Orderly)
    (hceiling : c.ceiling = m) {r : Except Trap (List Value)} (hnow : c.now = .answer r)
    (hwaiting : c.waiting = ws)
    (hdepth : d = if finish.ownsFrame then c.stack.depth + 1 else c.stack.depth) : c.Halts := by
  refine h c r ⟨horderly, hceiling, ?_⟩ hnow hwaiting
  unfold answerDepth
  split at hdepth <;> rename_i hown
  · rw [if_pos hown, hdepth, Nat.add_sub_cancel]
  · rw [if_neg hown, hdepth]

/-- A frame that was entered to make a call is left with its answer. -/
theorem Settled.frame (h : Settled m (d - 1) ws) : Settled m d (.frame :: ws) := by
  intro c r hc hnow hwaiting
  refine hc.halts_of_step hnow hwaiting fun c' hc' hnow' hwaiting' => ?_
  have hstep : c'.step = ({ c' with waiting := ws } : Config).leave :=
    step_of_answer hnow' hwaiting'
  have horderly := hc'.orderly.step
  have hceiling := c'.step_ceiling.trans hc'.ceiling
  have hleaves := leaves_frame (c := { c' with waiting := ws }) hnow'
  rw [← hstep] at hleaves
  cases hleaves with
  | answers hnow'' hwaiting'' hdepth =>
    have hsettled : Settled m (answerDepth .single d) ws := h
    exact hsettled.answers horderly hceiling hnow'' hwaiting'' (hc'.depth ▸ hdepth)
  | follows hfinish => cases hfinish
  | applies hfinish => cases hfinish
  | breaks hnow'' _ => exact halts_of_broken hnow''

/-- What comes after a body at this depth comes to an end: its answer, and the next argument. -/
structure Followed (m d : Nat) (finish : Finish) (ws : List Waiting) : Prop where
  settled : Settled m (answerDepth finish d) ws
  next : ∀ code rest f, finish = .arguments (code :: rest) f → ∀ c : Config, c.At m d →
    c.now = .body { code } (.arguments rest f) → c.waiting = ws → c.Halts

theorem halts_of_leaves (h : c₁.Leaves finish c) (hcall : Callable m d)
    (hfollowed : Followed m d finish c₁.waiting) (hdepth : c₁.stack.depth = d)
    (horderly : c.Orderly) (hceiling : c.ceiling = m) : c.Halts := by
  cases h with
  | answers hnow hwaiting hd =>
    exact hfollowed.settled.answers horderly hceiling hnow hwaiting (hdepth ▸ hd)
  | follows hfinish hnow hwaiting hd =>
    exact hfollowed.next _ _ _ hfinish c ⟨horderly, hceiling, hd.trans hdepth⟩ hnow hwaiting
  | applies hfinish hnow hwaiting hd =>
    subst hfinish
    refine hcall c _ ⟨horderly, hceiling, hd.trans hdepth⟩ hnow ?_
    rw [hwaiting]
    exact hfollowed.settled.frame
  | breaks hnow _ => exact halts_of_broken hnow

/-- A body comes to an end if calls at its depth do and what comes after it: each instruction, also
one that makes a call, leaves less of it. -/
theorem halts_of_followed (hcall : Callable m d) (hfollowed : Followed m d finish ws)
    (hc : c.At m d) (hnow : c.now = .body b finish) (hwaiting : c.waiting = ws) : c.Halts := by
  obtain ⟨k, hk⟩ : ∃ k, k = b.code.size - b.position := ⟨_, rfl⟩
  induction k using Nat.strongRecOn generalizing c b with
  | _ k ih =>
    refine hc.halts_of_step hnow hwaiting fun c₁ hc₁ hnow₁ hwaiting₁ => ?_
    subst hwaiting₁
    have hstart := hc₁.orderly.now
    rw [hnow₁] at hstart
    have horderly := hc₁.orderly.step
    have hceiling := c₁.step_ceiling.trans hc₁.ceiling
    have hstep : c₁.step = c₁.stepBody b finish := by simp only [Config.step, hnow₁]
    cases hi : b.code[b.position]? with
    | none =>
      have hleaves : c₁.Leaves finish c₁.step := by
        rw [hstep, stepBody_of_none hi]
        exact leaves_finishBody ⟨rfl, rfl⟩
      exact halts_of_leaves hleaves hcall hfollowed hc₁.depth horderly hceiling
    | some i =>
      have hinside : b.position < b.code.size := (Array.getElem?_eq_some_iff.1 hi).1
      have hless {b' : Body} (hb : b.Precedes b') : b'.code.size - b'.position < k := by
        have hahead := hb.position
        rw [hb.code, hk]
        omega
      have hpasses := passes_stepBody hstart.1 hi finish c₁
      rw [← hstep] at hpasses
      cases hpasses with
      | ahead hnow' hb hlevel =>
        exact ih _ (hless hb) (hc₁.step (hlevel.depth.trans hc₁.depth)) hnow' hlevel.waiting rfl
      | calls hnow' hb hwaiting' hd =>
        refine hcall _ _ (hc₁.step (hd.trans hc₁.depth)) hnow' ?_
        rw [hwaiting']
        -- whatever the answer, the body goes on behind the call or ends
        intro c₂ r hc₂ hanswer hwaits
        refine hc₂.halts_of_step hanswer hwaits fun c' hc' hanswer' hwaits' => ?_
        have hresumes := resumes_stepAnswer hanswer' b finish c₁.waiting
        rw [← step_of_answer hanswer' hwaits'] at hresumes
        rcases hresumes with ⟨hnow'', hlevel⟩ | hleaves
        · exact ih _ (hless hb) (hc'.step (hlevel.depth.trans hc'.depth)) hnow'' hlevel.waiting rfl
        · exact halts_of_leaves hleaves hcall hfollowed hc'.depth hc'.orderly.step
            (c'.step_ceiling.trans hc'.ceiling)
      | leaves hleaves => exact halts_of_leaves hleaves hcall hfollowed hc₁.depth horderly hceiling

/-- **Bodies come to an end if calls at their depth do.** The arguments of a call are evaluated one
after the other. -/
theorem halts_body (hcall : Callable m d) (hc : c.At m d) (hnow : c.now = .body b finish)
    (hsettled : Settled m (answerDepth finish d) c.waiting) : c.Halts := by
  cases finish with
  | results types => exact halts_of_followed hcall ⟨hsettled, nofun⟩ hc hnow rfl
  | single => exact halts_of_followed hcall ⟨hsettled, nofun⟩ hc hnow rfl
  | stop => exact halts_of_followed hcall ⟨hsettled, nofun⟩ hc hnow rfl
  | arguments rest f =>
    induction rest generalizing c b with
    | nil => exact halts_of_followed hcall ⟨hsettled, nofun⟩ hc hnow rfl
    | cons code rest ih =>
      refine halts_of_followed hcall ⟨hsettled, ?_⟩ hc hnow rfl
      rintro code' rest' f' ⟨⟩ c' hc' hnow' hwaiting
      exact ih hc' hnow' (hwaiting ▸ hsettled)

/-- Calls come to an end if those from one frame deeper do, unless there is no room for them. -/
theorem callable_of_deeper (h : d < m → Callable m (d + 1)) : Callable m d := by
  intro c f hc hnow hsettled
  refine hc.halts_of_step hnow rfl fun c' hc' hnow' hwaiting' => ?_
  rw [← hwaiting'] at hsettled
  have hstep : c'.step = c'.stepInvoke f := by simp only [Config.step, hnow']
  have hstarts := starts_stepInvoke hc'.orderly f
  rw [← hstep] at hstarts
  cases hstarts with
  | fails hnow'' hlevel =>
    exact hsettled _ _ (hc'.step (hlevel.depth.trans hc'.depth)) hnow'' hlevel.waiting
  | host hnow'' hp hlevel =>
    exact halts_host hp (hc'.step (hlevel.depth.trans hc'.depth)) hnow'' (hlevel.waiting ▸ hsettled)
  | enters hnow'' _ hroom hwaiting'' hdepth =>
    rw [hc'.depth, hc'.ceiling] at hroom
    rw [hc'.depth] at hdepth
    exact halts_body (h hroom) (hc'.step hdepth) hnow'' (hwaiting'' ▸ hsettled)

/-- **Every call comes to an end**, by induction on the frames that can still be entered. -/
theorem callable (m d : Nat) : Callable m d := by
  obtain ⟨room, hroom⟩ : ∃ room, room = m - d := ⟨_, rfl⟩
  induction room generalizing d with
  | zero => exact callable_of_deeper fun hlt => absurd hroom (by omega)
  | succ room ih => exact callable_of_deeper fun _ => ih (d + 1) (by omega)

/-- A machine that only waits for nothing more comes to an end. -/
theorem settled_nil (m d : Nat) : Settled m d [] := by
  intro c r _ hnow hwaiting
  exact halts_of_isHalted (by simp [isHalted, hnow, hwaiting])

theorem isReturn_of_isHalted (h : c.isHalted = true) (hsound : c.settle = .ok c) :
    c.outcome.isReturn = true := by
  unfold isHalted at h
  unfold outcome
  split at h
  · rename_i r hnow
    rw [hnow, List.isEmpty_iff.1 h]
    cases r <;> rfl
  · rename_i d hnow
    rw [settle, hnow] at hsound
    cases hsound
  · cases h

end Config

/-! ### Threads -/

/-- The decoder has read the sequence as an expression. -/
def Decoded (code : Array Instruction) : Prop :=
  ∃ bytes rest, Binary.Decoder.Reads Binary.expression bytes code rest

/-- **Decoded code without loops is straight**: the decoder puts every `else` and `end` ahead of the
instruction that opens its construct. -/
theorem straight_of_decoded {code : Array Instruction} (h : Decoded code) (hloop : Loopless code) :
    Straight code := by
  obtain ⟨bytes, rest, hreads⟩ := h
  obtain ⟨⟨s, hs, rfl⟩, -⟩ := Binary.expression_compacts bytes code rest hreads
  exact ⟨Structured.placed_flatten hs.proper, hloop⟩

namespace Thread

variable {w : World} {arguments : List (Array Instruction)}

theorem callConfig_orderly (t : Thread) (a : ModuleAddr) (f : FunctionAddr) (hw : w.store.Tame)
    (harguments : ∀ code ∈ arguments, Straight code) :
    (t.callConfig w a f arguments).Orderly := by
  unfold callConfig Config.enter
  split
  · exact ⟨hw.straight, hw.quiet, trivial, nofun⟩
  · exact ⟨hw.straight, hw.quiet, ⟨.start straight_empty none, harguments⟩, nofun⟩

theorem callConfig_halts {t : Thread} {a : ModuleAddr} {f : FunctionAddr}
    (h : (t.callConfig w a f arguments).Orderly) : (t.callConfig w a f arguments).Halts := by
  unfold callConfig Config.enter at h ⊢
  split
  · exact Config.halts_of_isHalted rfl
  · rename_i hroom
    rw [if_neg hroom] at h
    exact Config.halts_body (Config.callable _ _) ⟨h, rfl, rfl⟩ rfl (Config.settled_nil _ _)

theorem depth_callConfig_le (t : Thread) (a : ModuleAddr) (f : FunctionAddr) :
    max (t.callConfig w a f arguments).stack.depth (t.callConfig w a f arguments).ceiling ≤
      max t.stack.depth t.ceiling := by
  unfold callConfig Config.enter
  split
  · exact Nat.le_refl _
  · rename_i hroom
    have hlt : t.stack.depth < t.ceiling := Nat.lt_of_not_le hroom
    show max (t.stack.depth + 1) t.ceiling ≤ max t.stack.depth t.ceiling
    omega

/-- **Programs without loops terminate, whatever others do meanwhile**, as long as no reference
dangles and nothing in the store loops or calls back. -/
theorem call_terminates_amid (t : Thread) (a : ModuleAddr) (f : FunctionAddr) {changes : Changes}
    (hclosed : w.store.Closed) (htame : w.store.Tame) (hkeepsClosed : changes.Keep Store.Closed)
    (hkeepsTame : changes.Keep Store.Tame) (harguments : ∀ code ∈ arguments, Straight code) :
    (∃ n, ∀ fuel, n ≤ fuel →
      ((t.callConfig w a f arguments).runAmid changes fuel).outcome.isReturn = true) ∧
    ∀ n, let c := (t.callConfig w a f arguments).runAmid changes n
      c.stack.depth ≤ max t.stack.depth t.ceiling ∧
      (∀ b finish i, c.now = .body b finish → b.code[b.position]? = some i →
        c.Passes b finish c.step) ∧
      ∀ r b finish ws, c.now = .answer r → c.waiting = .body b finish :: ws →
        b.Precedes b.next ∧ ({ c with waiting := ws } : Config).Resumes b finish c.step := by
  have horderly : (t.callConfig w a f arguments).Orderly :=
    t.callConfig_orderly a f htame harguments
  have hstarts : t.Starts w (t.callConfig w a f arguments) := .call a f arguments
  have hsecure := hstarts.secure hclosed
  refine ⟨?_, fun n => ⟨?_, ?_, ?_⟩⟩
  · obtain ⟨n, hn⟩ := callConfig_halts horderly changes _ hkeepsTame horderly.tame
    refine ⟨n, fun fuel hle => ?_⟩
    obtain ⟨w', hsame⟩ := Config.exists_runAmid_eq hn hle
    have hreturns := Config.isReturn_of_isHalted hn (hsecure.runAmid hkeepsClosed n).sound
    rw [hsame]
    exact hreturns
  · exact Nat.le_trans (Config.runAmid_depth_le _ changes n) (depth_callConfig_le t a f)
  · intro b finish i hnow hi
    have hstart := (horderly.runAmid hkeepsTame n).now
    rw [hnow] at hstart
    have hpasses := Config.passes_stepBody hstart.1 hi finish
      ((t.callConfig w a f arguments).runAmid changes n)
    simpa only [Config.step, hnow] using hpasses
  · intro r b finish ws hnow hwaiting
    have hwaits := (horderly.runAmid hkeepsTame n).waiting (.body b finish)
      (hwaiting ▸ List.mem_cons_self ..)
    refine ⟨hwaits.1, ?_⟩
    rw [Config.step_of_answer hnow hwaiting]
    exact Config.resumes_stepAnswer hnow b finish ws

/-- **Programs without loops terminate.** If all functions of a reachable store and all arguments
are decoded code without loops, and no function of the host calls back, every call of a thread ends
with results or a trap, whatever functions call each other. All along, an instruction of a body goes
on at a later position or leaves the body; one that has made a call goes on behind it, or its body
ends; and the frames stay below the ceiling. -/
theorem call_terminates (t : Thread) (a : ModuleAddr) (f : FunctionAddr)
    (hw : w.store.Reachable) (hquiet : w.store.Quiet)
    (hfunctions : ∀ fn ∈ w.store.functions, ∀ owner position code,
      fn.body = .defined owner position code → Decoded code.body ∧ Loopless code.body)
    (harguments : ∀ code ∈ arguments, Decoded code ∧ Loopless code) :
    (∃ n, ∀ fuel, n ≤ fuel → (t.call w fuel a f arguments).outcome.isReturn = true) ∧
    ∀ n, let c := (t.callConfig w a f arguments).run n
      c.stack.depth ≤ max t.stack.depth t.ceiling ∧
      (∀ b finish i, c.now = .body b finish → b.code[b.position]? = some i →
        c.Passes b finish c.step) ∧
      ∀ r b finish ws, c.now = .answer r → c.waiting = .body b finish :: ws →
        b.Precedes b.next ∧ ({ c with waiting := ws } : Config).Resumes b finish c.step := by
  have hstraight : w.store.Straight := by
    intro fn hfn owner position code hbody
    obtain ⟨hdecoded, hloop⟩ := hfunctions fn hfn owner position code hbody
    exact straight_of_decoded hdecoded hloop
  have h := t.call_terminates_amid a f hw.sound.closed ⟨hstraight, hquiet⟩
    (Changes.still_keep _) (Changes.still_keep _)
    fun code hcode => straight_of_decoded (harguments code hcode).1 (harguments code hcode).2
  simp only [Config.runAmid_still] at h
  exact h

/-- A host module with a function that does nothing. -/
def idleHost : HostModule where
  name := "env"
  functions := #[⟨⟨[], []⟩, .host fun _ => .done []⟩]
  exports := #[("idle", .function 0)]

/-- The body of a function that calls the host and, if its parameter is zero, itself. -/
def recursion : Array Instruction :=
  #[.call 0, .localGet 0, .cond .empty (some 3) 6, .otherwise, .localGet 0, .call 1, .close]

/-- A module with a recursive function. -/
def recursive : Module where
  types := [⟨[], []⟩, ⟨[.i32], []⟩]
  imports := [⟨"env", "idle", .function 0⟩]
  functions := [1]
  codes := [⟨[], recursion⟩]

/-- A store with the recursive function. -/
def recurring : World where
  store := (((Store.new 1).register idleHost).store.instantiate "guest" recursive).store

theorem recurring_reachable : recurring.store.Reachable := by
  have hm : HostModule.ofDeclarations "env" [.function "idle" ⟨[], []⟩ fun _ => .done []] =
      .ok idleHost := rfl
  have hr : (Store.new 1).synthesize idleHost = .ok ((Store.new 1).register idleHost) := rfl
  exact ⟨1, .tail (.single (.synthesize hm hr)) (.instantiate _ "guest" recursive)⟩

theorem recurring_functions : recurring.store.functions =
    #[⟨⟨[], []⟩, .host fun _ => .done []⟩,
      ⟨⟨[.i32], []⟩, .defined ⟨1⟩ 0 ⟨[], recursion⟩⟩] := by
  with_unfolding_all rfl

/-- With zero as its argument the function calls itself up to the ceiling. -/
theorem call_terminates_recursive :
    recurring.store.Reachable ∧ recurring.store.Quiet ∧
    (Decoded recursion ∧ Loopless recursion) ∧
    (∃ n, ∀ fuel, n ≤ fuel → ((Thread.new ⟨1⟩ 4).call recurring fuel ⟨1⟩ ⟨1⟩
      [#[.const .i32 0]]).outcome.isReturn = true) ∧
    ((Thread.new ⟨1⟩ 4).call recurring 40 ⟨1⟩ ⟨1⟩ [#[.const .i32 0]]).outcome =
      .trap ⟨.callStackOverflow,
        [⟨⟨1⟩, some ⟨1⟩⟩, ⟨⟨1⟩, some ⟨1⟩⟩, ⟨⟨1⟩, none⟩, ⟨⟨1⟩, none⟩]⟩ := by
  have hquiet : recurring.store.Quiet := by
    intro fn hfn run hrun params
    rw [recurring_functions] at hfn
    simp only [List.mem_toArray, List.mem_cons, List.not_mem_nil, or_false] at hfn
    rcases hfn with rfl | rfl
    · cases hrun
      trivial
    · cases hrun
  have hrecursion : Decoded recursion ∧ Loopless recursion := by
    refine ⟨⟨[0x10, 0x00, 0x20, 0x00, 0x04, 0x40, 0x05, 0x20, 0x00, 0x10, 0x01, 0x0b, 0x0b], [],
      rfl⟩, ?_⟩
    simp [Loopless, recursion]
  have hargument : Decoded #[.const .i32 0] ∧ Loopless #[.const .i32 0] :=
    ⟨⟨[0x41, 0x00, 0x0b], [], rfl⟩, by simp [Loopless]⟩
  obtain ⟨hreturns, -⟩ := call_terminates (Thread.new ⟨1⟩ 4) ⟨1⟩ ⟨1⟩ recurring_reachable hquiet
    (fun fn hfn owner position code hcode => by
      rw [recurring_functions] at hfn
      simp only [List.mem_toArray, List.mem_cons, List.not_mem_nil, or_false] at hfn
      rcases hfn with rfl | rfl
      · cases hcode
      · cases hcode
        exact hrecursion)
    (List.forall_mem_singleton.2 hargument)
  exact ⟨recurring_reachable, hquiet, hrecursion, hreturns, by decide +kernel⟩

end Thread

end WasmCore.Machine
