import WasmCore.Machine.Body
import WasmCore.Proofs.Store.Growth

/-!
# Access by position

Sequences are accessed by position, and a position outside of them is a panic. Operand stacks and
labels have their top at the end, so what is `n` below the top is at position `length - 1 - n`.

Everything here computes positions as integers, may go wrong, and is shown not to: each access
stands behind a test that makes it one of the total operations of the machine.
-/

namespace WasmCore.Machine

/-- What a machine never does. -/
inductive Panic where
  /-- A position outside of a sequence. -/
  | index (i : Int) (length : Nat)
  /-- Bounds that are not in order, or outside of a sequence. -/
  | slice (low high : Int) (length : Nat)
  /-- A division by zero. -/
  | division
  /-- What the machine reports itself. -/
  | defect (d : Defect)
  deriving DecidableEq, Repr

/-- A computation that may panic. -/
abbrev Checked := Except Panic

namespace Checked

variable {α β : Type} {xs : List α}

@[simp] theorem ok_bind (a : α) (k : α → Checked β) : ((.ok a : Checked α) >>= k) = k a := rfl

/-! ### Sequences -/

/-- The entry at a position. -/
def index (xs : List α) (i : Int) : Checked α :=
  if 0 ≤ i then
    match xs[i.toNat]? with
    | some x => .ok x
    | none => .error (.index i xs.length)
  else .error (.index i xs.length)

/-- The entries from one position up to another. -/
def slice (xs : List α) (low high : Int) : Checked (List α) :=
  if 0 ≤ low ∧ low ≤ high ∧ high ≤ xs.length then .ok ((xs.take high.toNat).drop low.toNat)
  else .error (.slice low high xs.length)

/-- Replaces the entry at a position. -/
def assign (xs : List α) (i : Int) (x : α) : Checked (List α) :=
  if 0 ≤ i ∧ i < xs.length then .ok (xs.set i.toNat x) else .error (.index i xs.length)

theorem index_eq_ok {n : Nat} {x : α} (h : xs[n]? = some x) : index xs n = .ok x := by
  simp [index, h]

/-- The entry that is `n` below the top. -/
theorem index_reverse {n : Nat} {x : α} (h : xs[n]? = some x) :
    index xs.reverse (xs.length - 1 - n) = .ok x := by
  obtain ⟨hn, hx⟩ := List.getElem?_eq_some_iff.1 h
  have hi : (xs.length - 1 - n : Int) = ((xs.length - 1 - n : Nat) : Int) := by omega
  rw [hi]
  refine index_eq_ok ?_
  rw [List.getElem?_reverse (by omega), ← h]
  congr 1
  omega

theorem slice_eq_ok {low high : Nat} (h : low ≤ high) (hlength : high ≤ xs.length) :
    slice xs low high = .ok ((xs.take high).drop low) := by
  have hlow : (low : Int) ≤ high := by omega
  have hhigh : (high : Int) ≤ xs.length := by omega
  simp [slice, hlow, hhigh]

/-- The entries below the top `n`. -/
theorem slice_reverse {n : Nat} (h : n ≤ xs.length) :
    slice xs.reverse 0 (xs.length - n) = .ok (xs.drop n).reverse := by
  have hn : (xs.length - n : Int) = ((xs.length - n : Nat) : Int) := by omega
  have hlength : xs.length - n ≤ xs.reverse.length := by
    rw [List.length_reverse]
    omega
  rw [hn]
  refine (slice_eq_ok (Nat.zero_le _) hlength).trans ?_
  rw [List.drop_zero, List.reverse_drop]

theorem assign_eq_ok {n : Nat} (h : n < xs.length) (x : α) : assign xs n x = .ok (xs.set n x) := by
  simp [assign, h]

/-- The entry with a number, if there is one. -/
def lookup (xs : Array α) (i : Nat) : Checked (Option α) := do
  if xs.size ≤ i then .ok none
  else
    let x ← index xs.toList i
    .ok (some x)

theorem lookup_eq (xs : Array α) (i : Nat) : lookup xs i = .ok xs[i]? := by
  by_cases h : xs.size ≤ i
  · simp [lookup, h]
  · have hget : xs.toList[i]? = some xs[i] := by
      rw [Array.getElem?_toList]
      exact Array.getElem?_eq_getElem (Nat.lt_of_not_le h)
    simp [lookup, h, index_eq_ok hget]

/-! ### Operand stacks -/

/-- Takes the top value. -/
def pop (stack : List Value) : Checked (EStateM.Result Fault (List Value) Value) := do
  let values := stack.reverse
  let n : Int := values.length
  if n = 0 then .ok (.error .stackUnderflow stack)
  else
    let v ← index values (n - 1)
    let rest ← slice values 0 (n - 1)
    .ok (.ok v rest.reverse)

theorem pop_eq (stack : List Value) : pop stack = .ok (Operands.pop stack) := by
  cases stack with
  | nil => rfl
  | cons v rest =>
    have hfirst : (v :: rest)[0]? = some v := rfl
    have htop : index (v :: rest).reverse ((v :: rest).length - 1) = .ok v := by
      simpa using index_reverse hfirst
    have hone : 1 ≤ (v :: rest).length := by simp
    have hrest : slice (v :: rest).reverse 0 ((v :: rest).length - 1) = .ok rest.reverse :=
      slice_reverse hone
    have hn : ((v :: rest).length : Int) ≠ 0 := by
      simp
      omega
    simp only [pop, List.length_reverse, if_neg hn, htop, hrest, ok_bind, List.reverse_reverse]
    rfl

/-- Moves the last `kept` values down to `height` and drops what is above them then. -/
def moveDown (height kept : Int) (values : List Value) : Checked (List Value) := do
  let n : Int := values.length
  let target ← slice values height n
  let source ← slice values (n - kept) n
  slice (values.take height.toNat ++ (source ++ target.drop source.length)) 0 (height + kept)

theorem moveDown_eq {height kept : Nat} {values : List Value}
    (h : height + kept ≤ values.length) :
    moveDown height kept values =
      .ok (values.take height ++ values.drop (values.length - kept)) := by
  have hstart : (values.length : Int) - kept = ((values.length - kept : Nat) : Int) := by omega
  have hend : (height : Int) + kept = ((height + kept : Nat) : Int) := by omega
  have htarget : slice values height values.length = .ok (values.drop height) := by
    rw [slice_eq_ok (by omega) (Nat.le_refl _), List.take_length]
  have hsource : slice values ((values.length - kept : Nat) : Int) values.length =
      .ok (values.drop (values.length - kept)) := by
    rw [slice_eq_ok (by omega) (Nat.le_refl _), List.take_length]
  simp only [moveDown, hstart, htarget, hsource, ok_bind, hend, Int.toNat_natCast]
  refine (slice_eq_ok (Nat.zero_le _) ?_).trans ?_
  · simp only [List.length_append, List.length_take, List.length_drop]
    omega
  · rw [List.drop_zero, ← List.append_assoc, List.take_left']
    simp only [List.length_append, List.length_take, List.length_drop]
    omega

/-- Drops the values above `height`, except the top `arity` of them. A negative arity keeps
everything. -/
def unwind (height arity : Int) (stack : List Value) : Checked (List Value) :=
  let n : Int := stack.reverse.length
  if arity < 0 ∨ n ≤ height then .ok stack
  else do
    let rest ← moveDown height (if n - height < arity then n - height else arity) stack.reverse
    .ok rest.reverse

theorem unwind_natCast (height k : Nat) (stack : List Value) :
    unwind height k stack = .ok (Machine.unwind height (some k) stack) := by
  have hlength : stack.reverse.length = stack.length := List.length_reverse
  by_cases hheight : stack.length ≤ height
  · -- nothing is above
    have hnone : (k : Int) < 0 ∨ (stack.reverse.length : Int) ≤ height := by omega
    have hsame : Machine.unwind height (some k) stack = stack := by
      simp [Machine.unwind, Nat.sub_eq_zero_of_le hheight]
    rw [hsame]
    exact if_pos hnone
  · have hsome : ¬ ((k : Int) < 0 ∨ (stack.reverse.length : Int) ≤ height) := by omega
    obtain ⟨kept, hk⟩ : ∃ kept, kept = min k (stack.length - height) := ⟨_, rfl⟩
    have hkept : (if (stack.reverse.length : Int) - height < k then
        (stack.reverse.length : Int) - height else k) = kept := by
      split <;> omega
    have hmoved : moveDown height kept stack.reverse =
        .ok (stack.reverse.take height ++ (stack.take kept).reverse) := by
      rw [moveDown_eq (by omega), hlength, List.reverse_take]
    have hrest : (stack.reverse.take height ++ (stack.take kept).reverse).reverse =
        Machine.unwind height (some k) stack := by
      rw [List.reverse_append, List.reverse_reverse, List.reverse_take, List.reverse_reverse,
        hlength, hk]
      rfl
    simp only [unwind, if_neg hsome, hkept, hmoved, ok_bind, hrest]

/-- The number that stands for an arity. -/
def arityOf : Option Nat → Int
  | none => -1
  | some k => k

theorem unwind_arityOf (height : Nat) (arity : Option Nat) (stack : List Value) :
    unwind height (arityOf arity) stack = .ok (Machine.unwind height arity stack) := by
  cases arity with
  | none => rfl
  | some k => exact unwind_natCast height k stack

/-! ### Labels and branch targets -/

/-- The label that is `depth` labels out, the labels outside of it, and these with the label itself;
none beyond the outermost label. -/
def label (labels : List Label) (depth : Nat) :
    Checked (Option (Label × List Label × List Label)) := do
  let n : Int := labels.length
  if n ≤ depth then .ok none
  else
    let i := n - 1 - depth
    let l ← index labels.reverse i
    let outer ← slice labels.reverse 0 i
    let entered ← slice labels.reverse 0 (i + 1)
    .ok (some (l, outer.reverse, entered.reverse))

theorem label_of_drop_eq_nil {labels : List Label} {depth : Nat} (h : labels.drop depth = []) :
    label labels depth = .ok none := by
  have hbeyond : (labels.length : Int) ≤ depth := by
    have hlength := List.drop_eq_nil_iff.1 h
    omega
  simp [label, hbeyond]

theorem label_of_drop_eq_cons {labels outer : List Label} {depth : Nat} {l : Label}
    (h : labels.drop depth = l :: outer) :
    label labels depth = .ok (some (l, outer, l :: outer)) := by
  have hl : labels[depth]? = some l := by
    rw [← List.head?_drop, h]
    rfl
  have houter : labels.drop (depth + 1) = outer := by
    rw [← List.drop_drop, h]
    rfl
  have hdepth : depth < labels.length := (List.getElem?_eq_some_iff.1 hl).1
  have hwithin : ¬ (labels.length : Int) ≤ depth := by omega
  have hslice : slice labels.reverse 0 (labels.length - 1 - depth) = .ok outer.reverse := by
    have hi : (labels.length - 1 - depth : Int) = labels.length - (depth + 1 : Nat) := by omega
    rw [hi, slice_reverse (by omega), houter]
  have hentered : slice labels.reverse 0 (labels.length - 1 - depth + 1) =
      .ok (l :: outer).reverse := by
    have hi : (labels.length - 1 - depth + 1 : Int) = labels.length - depth := by omega
    rw [hi, slice_reverse (by omega), h]
  simp only [label, if_neg hwithin, index_reverse hl, hslice, hentered, ok_bind,
    List.reverse_reverse]

/-- The target with a number, or the one that stands for all others. -/
def target (targets : List UInt32) (i : Nat) (fallback : UInt32) : Checked UInt32 :=
  if i < targets.length then index targets i else .ok fallback

theorem target_eq (targets : List UInt32) (i : Nat) (fallback : UInt32) :
    target targets i fallback = .ok (targets.getD i fallback) := by
  by_cases h : i < targets.length
  · simp [target, h, index_eq_ok (List.getElem?_eq_getElem h)]
  · simp [target, h]

/-! ### Numbers -/

/-- The operation divides by its second operand. -/
def divides : IntBinary → Bool
  | .divS | .divU | .remS | .remU => true
  | _ => false

/-- The divisor is zero as a word of a width. -/
def isZero : Width → UInt64 → Bool
  | .w32, b => b.toUInt32 == 0
  | .w64, b => b == 0

/-- Applies an operation to the payloads of integers. It divides when its own tests have been
passed. -/
def arithmetic (op : IntBinary) (w : Width) (a b : UInt64) :
    Checked (Except IntegerFailure UInt64) :=
  match op.evalBits w a b with
  | .error e => .ok (.error e)
  | .ok v => if divides op && isZero w b then .error .division else .ok (.ok v)

theorem evalBits_of_isZero {op : IntBinary} {w : Width} {a b : UInt64} (hop : divides op = true)
    (hb : isZero w b = true) : op.evalBits w a b = .error .divideByZero := by
  cases w with
  | w32 =>
    have hzero : b.toUInt32 = 0 := by simpa [isZero] using hb
    cases op <;> simp_all [divides, IntBinary.evalBits, IntBinary.eval32, Except.map]
  | w64 =>
    have hzero : b = 0 := by simpa [isZero] using hb
    cases op <;> simp_all [divides, IntBinary.evalBits, IntBinary.eval64]

theorem arithmetic_eq (op : IntBinary) (w : Width) (a b : UInt64) :
    arithmetic op w a b = .ok (op.evalBits w a b) := by
  unfold arithmetic
  cases hr : op.evalBits w a b with
  | error e => rfl
  | ok v =>
    cases hdivisor : divides op && isZero w b with
    | false => rfl
    | true =>
      obtain ⟨hop, hb⟩ := Bool.and_eq_true_iff.1 hdivisor
      rw [evalBits_of_isZero hop hb] at hr
      cases hr

/-! ### Memories -/

/-- The number in the `width` bytes at `offset`. -/
def number (m : Memory) (offset : Nat) : (width : Nat) → Checked Nat
  | 0 => .ok 0
  | w + 1 => do
    let b ← index m.bytes.data.toList offset
    let rest ← number m (offset + 1) w
    .ok (b.toNat + 256 * rest)

theorem number_eq {m : Memory} {offset width : Nat} (h : offset + width ≤ m.length) :
    number m offset width = .ok (m.number offset width) := by
  induction width generalizing offset with
  | zero => rfl
  | succ w ih =>
    have hlt : offset < m.bytes.size := by
      show offset < m.length
      omega
    have hbyte : index m.bytes.data.toList offset = .ok (m.byteAt offset) := by
      refine index_eq_ok ?_
      have hget : m.bytes.data.toList[offset]? = some m.bytes.data[offset] := by
        rw [Array.getElem?_toList]
        exact Array.getElem?_eq_getElem hlt
      rw [hget, Memory.byteAt, dif_pos hlt]
      rfl
    rw [number, hbyte, ih (by omega)]
    rfl

/-- The number in the `width` bytes at `offset`, if they are there. -/
def readNumber (m : Memory) (offset width : Nat) : Checked (Option Nat) := do
  if m.hasLength offset width then
    let n ← number m offset width
    .ok (some n)
  else .ok none

theorem readNumber_eq (m : Memory) (offset width : Nat) :
    readNumber m offset width = .ok (m.readNumber? offset width) := by
  by_cases h : m.hasLength offset width = true
  · simp [readNumber, Memory.readNumber?, h, number_eq (of_decide_eq_true h)]
  · simp [readNumber, Memory.readNumber?, h]

/-- Replaces the `width` bytes at `offset` by the low bytes of a number. -/
def setNumber (m : Memory) (offset : Nat) : (width value : Nat) → Checked Memory
  | 0, _ => .ok m
  | w + 1, v => do
    let bytes ← assign m.bytes.data.toList offset (.ofNat v)
    setNumber { m with bytes := ⟨bytes.toArray⟩ } (offset + 1) w (v / 256)

theorem setNumber_eq {m : Memory} {offset width : Nat} (h : offset + width ≤ m.length)
    (value : Nat) : setNumber m offset width value = .ok (m.setNumber offset width value) := by
  induction width generalizing m offset value with
  | zero => rfl
  | succ w ih =>
    have hlt : offset < m.bytes.size := by
      show offset < m.length
      omega
    have hset : ({ m with bytes := ⟨(m.bytes.data.toList.set offset (.ofNat value)).toArray⟩ } :
        Memory) = m.setByte offset (.ofNat value) := by
      rw [Memory.setByte, dif_pos hlt, ← Array.toList_set, Array.toArray_toList]
      rfl
    have hrest : offset + 1 + w ≤ (m.setByte offset (.ofNat value)).length := by
      rw [Memory.length_setByte]
      omega
    rw [setNumber, assign_eq_ok (by simpa using hlt), ok_bind, hset, ih hrest]
    rfl

/-! ### Instances -/

/-- What a handle denotes. -/
def denoted : Option α → Checked α
  | some x => .ok x
  | none => .error (.defect .missingInstance)

/-- The memory of a handle. -/
def memory (s : Store) (a : MemoryAddr) : Checked Memory := do
  let m ← lookup s.memories a.index
  denoted m

/-- The handle of the first memory of a module, if it has one. -/
def firstMemory (s : Store) (a : ModuleAddr) : Checked (Option MemoryAddr) := do
  match ← lookup s.modules a.index with
  | none => .ok none
  | some m => lookup m.memories 0

theorem memory_of_some {s : Store} {a : MemoryAddr} {m : Memory} (h : s.memory? a = some m) :
    memory s a = .ok m := by
  have hm : s.memories[a.index]? = some m := h
  rw [memory, lookup_eq, hm]
  rfl

theorem memory_of_none {s : Store} {a : MemoryAddr} (h : s.memory? a = none) :
    memory s a = .error (.defect .missingInstance) := by
  have hm : s.memories[a.index]? = none := h
  rw [memory, lookup_eq, hm]
  rfl

theorem firstMemory_eq (s : Store) (a : ModuleAddr) :
    firstMemory s a = .ok (s.firstMemory? a) := by
  rw [firstMemory, lookup_eq, ok_bind]
  unfold Store.firstMemory? Store.module?
  cases s.modules[a.index]? with
  | none => rfl
  | some m => exact lookup_eq m.memories 0

end Checked

end WasmCore.Machine
