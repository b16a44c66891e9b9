import WasmCore.Proofs.Machine.Access
import WasmCore.Proofs.Machine.Effects
import WasmCore.Proofs.Machine.Operands

/-!
# Checked execution

The machine once more, with every access to a sequence made by position: to code, labels, branch
targets, locals, operand stacks, the instances of the store and the bytes of memories. Instructions
are executed by their scripts, with each elementary effect replaced by a checked one.

An access that is not possible is a panic, and so is a defect that the machine reports.
`Config.checkedRun_eq` shows that there are no other panics than such defects: in all other cases
the checked machine does what the machine does.
-/

namespace WasmCore.Machine

/-! ### Instructions -/

/-- Executes an operation on an operand stack. -/
def Operands.Script.checked {α : Type} {x : Operands α} (sx : Script x) (values : List Value) :
    Checked (EStateM.Result Fault (List Value) α) :=
  match sx with
  | .pure a => .ok (.ok a values)
  | .throw f => .ok (.error f values)
  | .bind sx sk => do
    match ← sx.checked values with
    | .ok a values => (sk a).checked values
    | .error f values => .ok (.error f values)
  | .pop => Checked.pop values
  | .push v => .ok (Operands.push v values)
  | .arithmetic op w a b => do
    match ← Checked.arithmetic op w a b with
    | .ok v => .ok (Operands.pushBits w.intType v values)
    | .error e => .ok (.error (.ofIntegerFailure e) values)

theorem Operands.Script.checked_eq {α : Type} {x : Operands α} (sx : Script x)
    (values : List Value) : sx.checked values = .ok (x values) := by
  induction sx generalizing values with
  | pure a => rfl
  | throw f => rfl
  | @bind α β x k _ _ hx hk =>
    simp only [checked, hx, Bind.bind, EStateM.bind]
    cases x values with
    | ok a middle => exact hk a middle
    | error f middle => rfl
  | pop => exact Checked.pop_eq values
  | push v => rfl
  | arithmetic op w a b =>
    simp only [checked, Checked.arithmetic_eq, Checked.ok_bind]
    cases op.evalBits w a b <;> rfl

/-- What an instruction sees, with other values on the operand stack. -/
def Focus.withValues (f : Focus) (values : List Value) : Focus :=
  { f with frame := { f.frame with values } }

/-- Executes the effect of an instruction. -/
def Exec.Script.checked {known : Option MemoryAddr} {α : Type} {x : Exec α} (sx : Script known x)
    (f : Focus) : Checked (EStateM.Result Stop Focus α) :=
  match sx with
  | .pure a => .ok (.ok a f)
  | .fault e => .ok (.error (.fault e) f)
  | .bind sx sk => do
    match ← sx.checked f with
    | .ok a f => (sk a).checked f
    | .error stop f => .ok (.error stop f)
  | .operands sx => do
    match ← sx.checked f.frame.values with
    | .ok a values => .ok (.ok a (f.withValues values))
    | .error e values => .ok (.error (.fault e) (f.withValues values))
  | .height => .ok (.ok f.frame.values.length f)
  | .unwind bottom arity => do
    let values ← Checked.unwind bottom (Checked.arityOf arity) f.frame.values
    .ok (.ok () (f.withValues values))
  | .getLocal index => do
    match ← Checked.lookup f.frame.locals index.toNat with
    | some v => .ok (.ok v f)
    | none => .ok (.error (.fault (.unknownLocal index.toNat)) f)
  | .setLocal index => do
    match ← Checked.lookup f.frame.locals index.toNat with
    | none => .ok (.error (.fault (.unknownLocal index.toNat)) f)
    | some old =>
      match ← (Operands.Script.popTyped old.type).checked f.frame.values with
      | .error e values => .ok (.error (.fault e) (f.withValues values))
      | .ok v values =>
        let locals ← Checked.assign f.frame.locals.toList index.toNat v
        .ok (.ok v { f with frame := { f.frame with values, locals := locals.toArray } })
  | .label labels depth sx sk => do
    match ← Checked.label labels depth with
    | none => sx.checked f
    | some (l, outer, entered) => (sk l outer entered).checked f
  | .target targets i fallback => do
    let depth ← Checked.target targets i.toNat fallback
    .ok (.ok depth f)
  | .memory sk => do
    match ← Checked.firstMemory f.store f.frame.location.module with
    | some a => (sk a).checked f
    | none => .ok (.error (.fault .noMemory) f)
  | .pages a => do
    let m ← Checked.memory f.store a
    .ok (.ok m.pages f)
  | .read a address width => do
    let m ← Checked.memory f.store a
    let n ← Checked.readNumber m address width
    .ok (.ok n f)
  | .write a address width value => do
    let m ← Checked.memory f.store a
    if m.hasLength address width then
      let m ← Checked.setNumber m address width value
      .ok (.ok () { f with store := f.store.modifyMemory a fun _ => m })
    else .ok (.error (.fault .outOfBounds) f)
  | .grow a delta => do
    let m ← Checked.memory f.store a
    if m.canGrow delta f.store.pageLimit then
      let store := f.store.modifyMemory a (·.extended delta)
      .ok (Exec.operands (.pushI32 (.ofNat m.pages)) { f with store })
    else .ok (Exec.operands (.pushI32 0xffffffff) f)

/-- A defect is a panic. -/
def settle {α : Type} : EStateM.Result Stop Focus α → Checked (EStateM.Result Stop Focus α)
  | .error (.defect d) _ => .error (.defect d)
  | r => .ok r

namespace Exec.Script

variable {α : Type} {known : Option MemoryAddr}

theorem operands_apply (x : Operands α) (f : Focus) : Exec.operands x f =
    match x f.frame.values with
    | .ok a values => .ok a (f.withValues values)
    | .error e values => .error (.fault e) (f.withValues values) := by
  simp only [Exec.operands]
  cases x f.frame.values <;> rfl

theorem checked_setLocal (index : UInt32) (f : Focus) :
    (setLocal index : Script known _).checked f = settle (Exec.setLocal index f) := by
  have hlocal := getLocal_apply index f
  simp only [checked, Checked.lookup_eq, Checked.ok_bind, Operands.Script.checked_eq]
  cases hold : f.frame.locals[index.toNat]? with
  | none =>
    rw [hold] at hlocal
    rw [Exec.setLocal, bind_of_error hlocal]
    rfl
  | some old =>
    rw [hold] at hlocal
    rw [Exec.setLocal, bind_of_ok hlocal]
    have htaken := operands_apply (.popTyped old.type) f
    cases hpop : Operands.popTyped old.type f.frame.values with
    | error e values =>
      rw [hpop] at htaken
      rw [bind_of_error htaken]
      simp only [hpop]
      rfl
    | ok v values =>
      rw [hpop] at htaken
      rw [bind_of_ok htaken]
      -- the local is still there after the value has been taken
      obtain ⟨hindex, -⟩ := Array.getElem?_eq_some_iff.1 hold
      have hlt : index.toNat < f.frame.locals.toList.length := hindex
      simp only [hpop, Checked.assign_eq_ok hlt, Checked.ok_bind, ← Array.toList_setIfInBounds,
        Array.toArray_toList]
      rfl

theorem checked_write (a : MemoryAddr) (address width value : Nat) (f : Focus) :
    (write a address width value).checked f = settle ((do
      if ← Exec.inspect a (·.hasLength address width) then
        Exec.modifyMemory a (·.setNumber address width value)
      else Exec.fault .outOfBounds : Exec Unit) f) := by
  have hfits := inspect_apply a (·.hasLength address width) f
  cases hm : f.store.memory? a with
  | none =>
    rw [hm] at hfits
    rw [bind_of_error hfits, checked, Checked.memory_of_none hm]
    rfl
  | some m =>
    rw [hm] at hfits
    rw [bind_of_ok hfits, checked, Checked.memory_of_some hm, Checked.ok_bind]
    by_cases h : m.hasLength address width = true
    · have hset : f.store.modifyMemory a (fun _ => m.setNumber address width value) =
          f.store.modifyMemory a (·.setNumber address width value) :=
        Store.modifyMemory_congr hm rfl
      rw [if_pos h, if_pos h, Checked.setNumber_eq (of_decide_eq_true h), Checked.ok_bind, hset]
      rfl
    · rw [if_neg h, if_neg h]
      rfl

theorem checked_grow (a : MemoryAddr) (delta : Nat) (f : Focus) :
    (grow a delta).checked f = settle ((do
      let limit := (← get).store.pageLimit
      let pages ← Exec.inspect a (·.pages)
      if ← Exec.inspect a (·.canGrow delta limit) then
        Exec.modifyMemory a (·.extended delta)
        Exec.operands (.pushI32 (.ofNat pages))
      else Exec.operands (.pushI32 0xffffffff) : Exec Unit) f) := by
  have hpages := inspect_apply a (·.pages) f
  have hcan := inspect_apply a (·.canGrow delta f.store.pageLimit) f
  rw [Exec.get_bind_apply]
  cases hm : f.store.memory? a with
  | none =>
    rw [hm] at hpages
    rw [bind_of_error hpages, checked, Checked.memory_of_none hm]
    rfl
  | some m =>
    rw [hm] at hpages hcan
    rw [bind_of_ok hpages, bind_of_ok hcan, checked, Checked.memory_of_some hm, Checked.ok_bind]
    by_cases h : m.canGrow delta f.store.pageLimit = true
    · rw [if_pos h, if_pos h]
      rfl
    · rw [if_neg h, if_neg h]
      rfl

/-- **An instruction panics only for a defect.** -/
theorem checked_eq {x : Exec α} (sx : Script known x) (f : Focus) :
    sx.checked f = settle (x f) := by
  induction sx generalizing f with
  | pure a => rfl
  | fault e => rfl
  | @bind _ α β x k _ _ hx hk =>
    simp only [checked, hx, Bind.bind, EStateM.bind]
    cases x f with
    | ok a f' => exact hk a f'
    | error stop f' => cases stop <;> rfl
  | @operands _ α x sx =>
    simp only [checked, sx.checked_eq, Checked.ok_bind, operands_apply]
    cases x f.frame.values <;> rfl
  | height => rfl
  | unwind bottom arity =>
    simp only [checked, Checked.unwind_arityOf, Checked.ok_bind]
    rfl
  | getLocal index =>
    simp only [checked, Checked.lookup_eq, Checked.ok_bind, getLocal_apply]
    cases f.frame.locals[index.toNat]? <;> rfl
  | setLocal index => exact checked_setLocal index f
  | label labels depth _ _ hx hk =>
    rw [checked]
    generalize hdrop : labels.drop depth = entered
    cases entered with
    | nil =>
      rw [Checked.label_of_drop_eq_nil hdrop]
      exact hx f
    | cons l outer =>
      rw [Checked.label_of_drop_eq_cons hdrop]
      exact hk l outer (l :: outer) f
  | target targets i fallback =>
    simp only [checked, Checked.target_eq]
    rfl
  | memory _ hk =>
    have hm : f.store.firstMemory? f.frame.location.module = f.memory? := rfl
    simp only [checked, Checked.firstMemory_eq, Bind.bind, EStateM.bind, memoryAddr_apply, hm]
    cases f.memory? with
    | none => rfl
    | some a => exact hk a f
  | pages a =>
    cases hm : f.store.memory? a with
    | none =>
      simp only [checked, Checked.memory_of_none hm, inspect_apply, hm]
      rfl
    | some m =>
      simp only [checked, Checked.memory_of_some hm, inspect_apply, hm]
      rfl
  | read a address width =>
    cases hm : f.store.memory? a with
    | none =>
      simp only [checked, Checked.memory_of_none hm, inspect_apply, hm]
      rfl
    | some m =>
      simp only [checked, Checked.memory_of_some hm, Checked.readNumber_eq, inspect_apply, hm]
      rfl
  | write a address width value => exact checked_write a address width value f
  | grow a delta => exact checked_grow a delta f

end Exec.Script

/-! ### Steps -/

/-- Takes one value per type, the last one from the top. -/
def Operands.Script.popValues (types : List ValueType) : Script (Operands.popValues types) :=
  match types with
  | [] => .pure []
  | type :: types =>
    popValues_cons type types ▸
      .bind (popValues types) fun taken => .bind (popTyped type) fun v => .pure (v :: taken)

/-- What is wrong with the results from position `i` on, if anything is. -/
def Checked.flaw? (types : List ValueType) (i : Nat) : List Value → Checked (Option Fault)
  | [] => .ok none
  | v :: rest => do
    let type ← index types i
    match v.check type with
    | .ok _ => flaw? types (i + 1) rest
    | .error e =>
      .ok (some (.context ("host function result[" ++ toString i ++ "]") (.ofValueError e)))

/-- What is wrong with the results of a host function, if anything is. -/
def Checked.resultFault? (type : FunctionType) (results : List Value) : Checked (Option Fault) :=
  if results.length = type.results.length then flaw? type.results 0 results
  else .ok (some (.hostResultCount type results.length))

/-- What has been seen, as a part of the setting. -/
def Setting.place {α : Type} (σ : Setting) :
    EStateM.Result Stop Focus α → EStateM.Result Stop Setting α
  | .ok a f => .ok a (σ.refocus f)
  | .error stop f => .error stop (σ.refocus f)

namespace Config

variable (c : Config)

/-- The machine, unless it cannot go on. -/
def settle : Checked Config :=
  match c.now with
  | .broken d => .error (.defect d)
  | _ => .ok c

/-- Leaves the current frame. -/
def checkedLeave : Checked Config :=
  match c.stack.leave? with
  | some s => .ok { c with stack := s }
  | none => .error (.defect .noFrameToLeave)

/-- Leaves the current frame if the body that ends here owns it. -/
def checkedLeaveWith (finish : Finish) : Checked Config :=
  if finish.ownsFrame then c.checkedLeave else .ok c

/-- The end of a body. -/
def checkedFinish (finish : Finish) : Checked Config := do
  match finish with
  | .results types =>
    match ← (Operands.Script.popValues types).checked c.stack.current.values with
    | .error f values => ((c.withValues values).raise f).checkedLeave
    | .ok results values =>
      let c := c.withValues values
      if values.isEmpty then ({ c with now := .answer (.ok results) } : Config).checkedLeave
      else (c.raise .stackNotEmpty).checkedLeave
  | .single =>
    match ← Checked.pop c.stack.current.values with
    | .error f values => ((c.withValues values).raise f).checkedLeave
    | .ok v values =>
      let c := c.withValues values
      if values.isEmpty then ({ c with now := .answer (.ok [v]) } : Config).checkedLeave
      else (c.raise .stackNotEmpty).checkedLeave
  | .arguments (code :: rest) f => .ok { c with now := .body { code } (.arguments rest f) }
  | .arguments [] f => .ok { c with now := .invoke f, waiting := .frame :: c.waiting }
  | .stop => .ok { c with now := .answer (.ok []) }

/-- The handle of a function of the module of the current frame. -/
def checkedCallee (index : UInt32) : Checked (Option FunctionAddr) := do
  match ← Checked.lookup c.world.store.modules c.stack.current.location.module.index with
  | none => .ok none
  | some m => Checked.lookup m.functions index.toNat

/-- A call instruction of a body. -/
def checkedCall (b : Body) (finish : Finish) (index : UInt32) : Checked Config := do
  match ← c.checkedCallee index with
  | some f => .ok { c with now := .invoke f, waiting := .body b finish :: c.waiting }
  | none => (c.raise (.unknownFunctionIndex index.toNat)).checkedLeaveWith finish

/-- What a body does after the effect of an instruction. -/
def checkedResume (b : Body) (finish : Finish) :
    EStateM.Result Stop Setting Move → Checked Config
  | .error (.fault f) σ => ((σ.config c.now c.waiting).raise f).checkedLeaveWith finish
  | .error (.defect d) _ => .error (.defect d)
  | .ok (.proceed b') σ => .ok (σ.config (.body b' finish) c.waiting)
  | .ok .leave σ => (σ.config c.now c.waiting).checkedFinish finish
  | .ok (.call index) σ => (σ.config c.now c.waiting).checkedCall b finish index

/-- One instruction of a body, or its end. -/
def checkedBody (b : Body) (finish : Finish) : Checked Config := do
  if b.code.size ≤ b.position then c.checkedFinish finish
  else
    let i ← Checked.index b.code.toList b.position
    let r ← (b.script i).checked c.setting.focus
    c.checkedResume b finish (c.setting.place r)

/-- Calls a function with parameters from the current frame. -/
def checkedInvoke (f : FunctionAddr) : Checked Config := do
  match ← Checked.lookup c.world.store.functions f.index with
  | none => .ok (c.raise (.unknownFunction f))
  | some fn =>
    match ← (Operands.Script.popValues fn.type.params).checked c.stack.current.values with
    | .error e values => .ok ((c.withValues values).raise e)
    | .ok params values =>
      let c := c.withValues values
      match fn.body with
      | .host run => .ok { c with now := .host fn.type (run params) }
      | .defined owner _ code =>
        .ok <| c.enter { location := ⟨owner, some f⟩, locals := initialLocals params code.locals }
          { code := code.body, arity := some fn.type.results.length } (.results fn.type.results)

/-- One request of a host function. Only its results are accessed by position. -/
def checkedHost (type : FunctionType) (p : HostProgram) : Checked Config := do
  match p with
  | .done results =>
    match ← Checked.resultFault? type results with
    | none => .ok { c with now := .answer (.ok results) }
    | some f => .ok (c.raise f)
  | p => .ok (c.stepHost type p)

/-- Gives an answer to what waits for it. -/
def checkedAnswer (r : Except Trap (List Value)) (w : Waiting) (rest : List Waiting) :
    Checked Config :=
  let c := { c with waiting := rest }
  match w with
  | .frame => c.checkedLeave
  | .host type next => .ok { c with now := .host type (next r) }
  | .body b finish =>
    match r with
    | .ok results =>
      .ok { c with
        stack := c.stack.modifyCurrent (·.pushAll results), now := .body b.next finish }
    | .error _ => c.checkedLeaveWith finish

/-- One step. -/
def checkedStep : Checked Config :=
  match c.now with
  | .body b finish => c.checkedBody b finish
  | .invoke f => c.checkedInvoke f
  | .host type p => c.checkedHost type p
  | .answer r =>
    match c.waiting with
    | [] => .ok c
    | w :: rest => c.checkedAnswer r w rest
  | .broken d => .error (.defect d)

/-- At most `fuel` steps. -/
def checkedRun : (fuel : Nat) → Config → Checked Config
  | 0, c => .ok c
  | fuel + 1, c => do
    if c.isHalted then .ok c
    else
      let c ← c.checkedStep
      checkedRun fuel c

variable {c}

/-! ### Agreement -/

theorem settle_of_now {c' : Config} (hc : c.settle = .ok c) (h : c'.now = c.now) :
    c'.settle = .ok c' := by
  unfold settle at hc ⊢
  rw [h]
  cases hnow : c.now with
  | broken d =>
    rw [hnow] at hc
    cases hc
  | _ => rfl

theorem exists_broken_of_settle_ne (h : c.settle ≠ .ok c) : ∃ d, c.now = .broken d := by
  unfold settle at h
  split at h
  · exact ⟨_, by assumption⟩
  · exact absurd rfl h

theorem checkedLeave_eq (hc : c.settle = .ok c) : c.checkedLeave = c.leave.settle := by
  unfold checkedLeave leave
  cases c.stack.leave? with
  | none => rfl
  | some s =>
    have hs : ({ c with stack := s } : Config).settle = .ok { c with stack := s } :=
      settle_of_now hc rfl
    exact hs.symm

theorem checkedLeaveWith_eq (hc : c.settle = .ok c) (finish : Finish) :
    c.checkedLeaveWith finish = (c.leaveWith finish).settle := by
  unfold checkedLeaveWith leaveWith
  split
  · exact checkedLeave_eq hc
  · exact hc.symm

theorem checkedFinish_eq (c : Config) (finish : Finish) :
    c.checkedFinish finish = (c.finishBody finish).settle := by
  cases finish with
  | results types =>
    simp only [checkedFinish, finishBody, Operands.Script.checked_eq, Checked.ok_bind]
    cases Operands.popValues types c.stack.current.values with
    | error f values => exact checkedLeave_eq rfl
    | ok results values =>
      dsimp only
      split
      · exact checkedLeave_eq rfl
      · exact checkedLeave_eq rfl
  | single =>
    simp only [checkedFinish, finishBody, Checked.pop_eq, Checked.ok_bind]
    cases Operands.pop c.stack.current.values with
    | error f values => exact checkedLeave_eq rfl
    | ok v values =>
      dsimp only
      split
      · exact checkedLeave_eq rfl
      · exact checkedLeave_eq rfl
  | arguments rest f => cases rest <;> rfl
  | stop => rfl

theorem checkedCallee_eq (c : Config) (index : UInt32) :
    c.checkedCallee index = .ok (c.callee? index) := by
  unfold checkedCallee callee? Store.module?
  rw [Checked.lookup_eq, Checked.ok_bind]
  cases c.world.store.modules[c.stack.current.location.module.index]? with
  | none => rfl
  | some m => exact Checked.lookup_eq m.functions index.toNat

theorem checkedCall_eq (c : Config) (b : Body) (finish : Finish) (index : UInt32) :
    c.checkedCall b finish index = (c.callFrom b finish index).settle := by
  unfold checkedCall callFrom
  rw [checkedCallee_eq, Checked.ok_bind]
  cases c.callee? index with
  | none => exact checkedLeaveWith_eq rfl finish
  | some f => rfl

theorem checkedResume_eq (c : Config) (b : Body) (finish : Finish)
    (r : EStateM.Result Stop Setting Move) :
    c.checkedResume b finish r = (c.resume b finish r).settle := by
  match r with
  | .error (.fault f) σ => exact checkedLeaveWith_eq rfl finish
  | .error (.defect d) σ => rfl
  | .ok (.proceed b') σ => rfl
  | .ok .leave σ => exact checkedFinish_eq _ finish
  | .ok (.call index) σ => exact checkedCall_eq _ b finish index

theorem checkedBody_eq (c : Config) (b : Body) (finish : Finish) :
    c.checkedBody b finish = (c.stepBody b finish).settle := by
  by_cases hend : b.code.size ≤ b.position
  · have hnone : b.code[b.position]? = none := by simp [hend]
    rw [stepBody_of_none hnone, checkedBody, if_pos hend]
    exact checkedFinish_eq c finish
  · obtain ⟨i, hi⟩ : ∃ i, b.code[b.position]? = some i :=
      ⟨_, Array.getElem?_eq_getElem (Nat.lt_of_not_le hend)⟩
    have hfetch : Checked.index b.code.toList b.position = .ok i :=
      Checked.index_eq_ok (by rw [Array.getElem?_toList, hi])
    rw [stepBody_of_some hi, checkedBody, if_neg hend, hfetch, Checked.ok_bind,
      Exec.Script.checked_eq]
    have hperform : c.setting.perform (b.step i) =
        c.setting.place (b.step i c.setting.focus) := by
      unfold Setting.perform Setting.place
      cases b.step i c.setting.focus <;> rfl
    rw [hperform, ← checkedResume_eq]
    cases b.step i c.setting.focus with
    | ok move f => rfl
    | error stop f => cases stop <;> rfl

theorem checkedInvoke_eq (c : Config) (f : FunctionAddr) :
    c.checkedInvoke f = (c.stepInvoke f).settle := by
  unfold checkedInvoke stepInvoke Store.function?
  rw [Checked.lookup_eq, Checked.ok_bind]
  cases c.world.store.functions[f.index]? with
  | none => rfl
  | some fn =>
    simp only [Operands.Script.checked_eq, Checked.ok_bind]
    cases Operands.popValues fn.type.params c.stack.current.values with
    | error e values => rfl
    | ok params values =>
      dsimp only
      cases fn.body with
      | host run => rfl
      | defined owner position code =>
        dsimp only
        unfold enter
        split <;> rfl

theorem flaw?_eq {types : List ValueType} {i : Nat} {results : List Value}
    (h : i + results.length ≤ types.length) : Checked.flaw? types i results =
    .ok (((results.zip (types.drop i)).zipIdx i).findSome? fun ((v, t), i) =>
      match v.check t with
      | .ok _ => none
      | .error e =>
        some (.context ("host function result[" ++ toString i ++ "]") (.ofValueError e))) := by
  induction results generalizing i with
  | nil => rfl
  | cons v rest ih =>
    rw [List.length_cons] at h
    have hi : i < types.length := by omega
    have hrest : i + 1 + rest.length ≤ types.length := by omega
    rw [Checked.flaw?, Checked.index_eq_ok (List.getElem?_eq_getElem hi), Checked.ok_bind,
      List.drop_eq_getElem_cons hi, List.zip_cons_cons, List.zipIdx_cons, List.findSome?_cons,
      ih hrest]
    cases hv : v.check types[i] <;> simp only [hv]

theorem checkedResultFault?_eq (type : FunctionType) (results : List Value) :
    Checked.resultFault? type results = .ok (resultFault? type results) := by
  unfold Checked.resultFault? resultFault?
  split
  · rename_i hlength
    have hlength' : 0 + results.length ≤ type.results.length := by omega
    exact flaw?_eq hlength'
  · rfl

theorem checkedHost_eq (c : Config) (type : FunctionType) (p : HostProgram) :
    c.checkedHost type p = (c.stepHost type p).settle := by
  cases p with
  | done results =>
    simp only [checkedHost, stepHost, checkedResultFault?_eq, Checked.ok_bind]
    cases resultFault? type results <;> rfl
  | fail failure => cases failure <;> rfl
  | print text next =>
    simp only [checkedHost, stepHost]
    split <;> rfl
  | callerModule next => rfl
  | callerMemory next => rfl
  | push v next => rfl
  | invoke f next => rfl
  | report e next => rfl

theorem checkedAnswer_eq (hc : c.settle = .ok c) (r : Except Trap (List Value)) (w : Waiting)
    (rest : List Waiting) : c.checkedAnswer r w rest = (c.stepAnswer r w rest).settle := by
  have hrest : ({ c with waiting := rest } : Config).settle = .ok { c with waiting := rest } :=
    settle_of_now hc rfl
  cases w with
  | frame => exact checkedLeave_eq hrest
  | host type next => rfl
  | body b finish =>
    cases r with
    | ok results => rfl
    | error t => exact checkedLeaveWith_eq hrest finish

/-- **A step panics only for a defect.** -/
theorem checkedStep_eq (c : Config) : c.checkedStep = c.step.settle := by
  cases hnow : c.now with
  | body b finish =>
    simp only [checkedStep, step, hnow]
    exact checkedBody_eq c b finish
  | invoke f =>
    simp only [checkedStep, step, hnow]
    exact checkedInvoke_eq c f
  | host type p =>
    simp only [checkedStep, step, hnow]
    exact checkedHost_eq c type p
  | answer r =>
    have hc : c.settle = .ok c := by simp only [settle, hnow]
    cases hw : c.waiting with
    | nil =>
      simp only [checkedStep, step, hnow, hw]
      exact hc.symm
    | cons w rest =>
      simp only [checkedStep, step, hnow, hw]
      exact checkedAnswer_eq hc r w rest
  | broken d => simp only [checkedStep, step, settle, hnow]

/-- **A run panics only for a defect**: apart from that, accesses by position are those of the
machine. -/
theorem checkedRun_eq (hc : c.settle = .ok c) (fuel : Nat) :
    c.checkedRun fuel = (c.run fuel).settle := by
  induction fuel generalizing c with
  | zero => exact hc.symm
  | succ fuel ih =>
    by_cases hhalted : c.isHalted = true
    · rw [run_of_isHalted hhalted, checkedRun, if_pos hhalted]
      exact hc.symm
    · rw [run_succ, checkedRun, if_neg hhalted, checkedStep_eq]
      -- a step that goes on does not panic, and one that does not leaves a machine that has halted
      by_cases hstep : c.step.settle = .ok c.step
      · rw [hstep, Checked.ok_bind, ih hstep]
      · obtain ⟨d, hd⟩ := exists_broken_of_settle_ne hstep
        rw [run_of_isHalted (by simp [isHalted, hd]), settle, hd]
        rfl

end Config

end WasmCore.Machine
