import WasmCore.Proofs.Machine.Effects
import WasmCore.Proofs.Memory

/-!
# Loads and stores

A load or store of `w` bytes at base and offset traps if and only if `base + offset + w` exceeds the
length of the memory, as unbounded integers. Otherwise a store changes exactly its bytes, and a load
pushes the number in its bytes, extended to the type of its result (`Config.Pending.exact_step`). So
a load returns what a store of its width has left at its address, and accesses to disjoint bytes do
the same in either order.

`Config.Pending.step_eq` is what one step does, for loads and stores alike.
-/

namespace WasmCore

/-! ### Extension -/

/-- The number that a load makes of the number in its bytes: the same number, or if these bytes are
signed the one that stands for the same integer in the type of the result. -/
def LoadOp.extend (op : LoadOp) (n : Nat) : Nat :=
  match op.signedness with
  | .unsigned => n
  | .signed => if 2 * n < 256 ^ op.bytes then n else n + 256 ^ op.result.bytes - 256 ^ op.bytes

theorem LoadOp.bytes_le (op : LoadOp) : op.bytes ≤ op.result.bytes := by
  rcases op with _ | ⟨_ | _⟩ | ⟨_ | _⟩ | _ <;> simp [bytes, result, Width.intType, NumType.bytes]

theorem LoadOp.bytes_pos (op : LoadOp) : 0 < op.bytes := by
  rcases op with ⟨_ | _ | _ | _⟩ | _ | _ | _ <;> simp [bytes, NumType.bytes]

theorem StoreOp.bytes_pos (op : StoreOp) : 0 < op.bytes := by
  rcases op with ⟨_ | _ | _ | _⟩ | _ | _ | _ <;> simp [bytes, NumType.bytes]

/-- Copies of a modulus that are added do not show. -/
theorem add_sub_mod {n a b d : Nat} (ha : 0 < a) (hd : d ∣ a) (hb : b ≤ n + d) :
    (n + a - b) % d = (n + d - b) % d := by
  obtain ⟨k, rfl⟩ := hd
  obtain ⟨j, rfl⟩ : ∃ j, k = j + 1 := Nat.exists_eq_succ_of_ne_zero (by rintro rfl; simp at ha)
  have hsum : n + d * (j + 1) - b = n + d - b + d * j := by
    rw [Nat.mul_succ]
    omega
  rw [hsum, Nat.add_mul_mod_self_left]

/-- Extension keeps the number in the bytes. -/
theorem LoadOp.extend_mod (op : LoadOp) {n : Nat} (h : n < 256 ^ op.bytes) :
    op.extend n % 256 ^ op.bytes = n := by
  unfold extend
  cases op.signedness with
  | unsigned => exact Nat.mod_eq_of_lt h
  | signed =>
    dsimp only
    split
    · exact Nat.mod_eq_of_lt h
    · have hdvd : 256 ^ op.bytes ∣ 256 ^ op.result.bytes := Nat.pow_dvd_pow 256 op.bytes_le
      rw [add_sub_mod (Nat.pow_pos (by decide)) hdvd (Nat.le_add_left ..), Nat.add_sub_cancel]
      exact Nat.mod_eq_of_lt h

/-- The name of a load says what it does: the type of its result, and the width and the sign of the
bytes if they are extended. -/
theorem LoadOp.name_eq (op : LoadOp) : op.name = op.result.name ++ ".load" ++
    (if op.bytes = op.result.bytes then "" else
      toString (8 * op.bytes) ++ op.signedness.suffix) := by
  rcases op with ⟨_ | _ | _ | _⟩ | ⟨_ | _, _ | _⟩ | ⟨_ | _, _ | _⟩ | ⟨_ | _⟩ <;> decide

/-- The name of a store says what it does: the type of its operand, and the width of the bytes if
they are fewer than those of the operand. -/
theorem StoreOp.name_eq (op : StoreOp) : op.name = op.operand.name ++ ".store" ++
    (if op.bytes = op.operand.bytes then "" else toString (8 * op.bytes)) := by
  rcases op with ⟨_ | _ | _ | _⟩ | ⟨_ | _⟩ | ⟨_ | _⟩ | _ <;> decide

/-! ### Values -/

theorem Value.isNil_of_type {v : Value} {type : NumType} (h : v.type = .num type) :
    v.isNil = false := by
  cases v <;> first | rfl | cases h

theorem Value.type_ofNumBits (type : NumType) (raw : UInt64) :
    (ofNumBits type raw).type = .num type := by
  cases type <;> rfl

theorem Value.toNat_bits_ofNumBits (type : NumType) (raw : UInt64) :
    (ofNumBits type raw).bits.toNat = raw.toNat % 256 ^ type.bytes := by
  cases type <;> simp [ofNumBits, bits, NumType.bytes]

namespace Machine

theorem Exec.type_loaded (op : LoadOp) (n : Nat) : (loaded op n).type = .num op.result := by
  unfold loaded
  cases op.signedness <;> exact Value.type_ofNumBits ..

/-- The value of `k` bytes in a word of 64 bits, as a signed number. -/
theorem toNat_signed {k n : Nat} (h : n < 256 ^ k) (hk : 256 ^ k ≤ 2 ^ 64) :
    (UInt64.ofBitVec (.ofInt 64 (BitVec.ofNat (8 * k) n).toInt)).toNat =
      if 2 * n < 256 ^ k then n else n + 2 ^ 64 - 256 ^ k := by
  have hpow : 2 ^ (8 * k) = 256 ^ k := by rw [Nat.pow_mul]
  have hn : (BitVec.ofNat (8 * k) n).toNat = n := by
    rw [BitVec.toNat_ofNat, hpow, Nat.mod_eq_of_lt h]
  rw [UInt64.toNat_ofBitVec, BitVec.toNat_ofInt, BitVec.toInt_eq_toNat_cond, hn, hpow]
  split <;> omega

theorem Exec.toNat_bits_loaded (op : LoadOp) {n : Nat} (h : n < 256 ^ op.bytes) :
    (loaded op n).bits.toNat = op.extend n := by
  have hle : 256 ^ op.bytes ≤ 256 ^ op.result.bytes := Nat.pow_le_pow_right (by omega) op.bytes_le
  have hdvd : 256 ^ op.result.bytes ∣ 2 ^ 64 := by
    cases op.result <;> simp [NumType.bytes]
  have hword : 256 ^ op.bytes ≤ 2 ^ 64 := Nat.le_trans hle (Nat.le_of_dvd (by decide) hdvd)
  unfold loaded LoadOp.extend
  cases hs : op.signedness with
  | unsigned =>
    rw [Value.toNat_bits_ofNumBits, UInt64.toNat_ofNat_of_lt' (Nat.lt_of_lt_of_le h hword)]
    exact Nat.mod_eq_of_lt (Nat.lt_of_lt_of_le h hle)
  | signed =>
    rw [Value.toNat_bits_ofNumBits, toNat_signed h hword]
    split
    · exact Nat.mod_eq_of_lt (Nat.lt_of_lt_of_le h hle)
    · -- the copies of the sign that are beyond the result are cut off
      rw [add_sub_mod (by decide) hdvd (by omega)]
      exact Nat.mod_eq_of_lt (by omega)

/-! ### Effects -/

/-- A load, or a store of a value of its type. -/
inductive Access where
  | load (op : LoadOp)
  | store (op : StoreOp) (v : Value) (typed : v.type = .num op.operand)

namespace Access

/-- The number of bytes that are read or written. -/
def bytes : Access → Nat
  | load op => op.bytes
  | store op _ _ => op.bytes

/-- The instruction. -/
def instruction (x : Access) (align offset : UInt32) : Instruction :=
  match x with
  | load op => .load op align offset
  | store op _ _ => .store op align offset

/-- What it takes from the operand stack, top first. -/
def operands (x : Access) (base : UInt32) : List Value :=
  match x with
  | load _ => [.i32 base]
  | store _ v _ => [v, .i32 base]

/-- What it leaves on the operand stack. -/
def pushed (x : Access) (address : Nat) (m : Memory) : List Value :=
  match x with
  | load op => [Exec.loaded op (m.number address op.bytes)]
  | store _ _ _ => []

/-- What it makes of the memory. -/
def change (x : Access) (address : Nat) (m : Memory) : Memory :=
  match x with
  | load _ => m
  | store op v _ => m.setNumber address op.bytes v.bits.toNat

@[simp] theorem length_change (x : Access) (address : Nat) (m : Memory) :
    (x.change address m).length = m.length := by
  cases x with
  | load op => rfl
  | store op v typed => exact Memory.length_setNumber ..

theorem byteAt_change (x : Access) {address i : Nat} (m : Memory)
    (h : i < address ∨ address + x.bytes ≤ i) : (x.change address m).byteAt i = m.byteAt i := by
  cases x with
  | load op => rfl
  | store op v typed => exact Memory.byteAt_setNumber_of_outside h _

theorem pushed_congr (x : Access) {address : Nat} {m m' : Memory}
    (h : ∀ i < x.bytes, m'.byteAt (address + i) = m.byteAt (address + i)) :
    x.pushed address m' = x.pushed address m := by
  cases x with
  | load op => exact congrArg (fun n => [Exec.loaded op n]) (Memory.number_congr h)
  | store op v typed => rfl

theorem change_comm (x y : Access) {address address' : Nat} {m : Memory}
    (h : address + x.bytes ≤ address' ∨ address' + y.bytes ≤ address)
    (hfits : address + x.bytes ≤ m.length) (hfits' : address' + y.bytes ≤ m.length) :
    y.change address' (x.change address m) = x.change address (y.change address' m) := by
  cases x with
  | load op => rfl
  | store op v typed =>
    cases y with
    | load op' => rfl
    | store op' v' typed' => exact Memory.setNumber_comm h hfits hfits' _ _

end Access

theorem Operands.popI32_apply (n : UInt32) (values : List Value) :
    popI32 (.i32 n :: values) = .ok n values :=
  congrArg (EStateM.Result.ok · values) (UInt32.toUInt32_toUInt64 n)

theorem Operands.push_apply {v : Value} {type : NumType} (h : v.type = .num type)
    (values : List Value) : push v values = .ok () (v :: values) := by
  simp only [push, Value.isNil_of_type h, Bool.false_eq_true, ↓reduceIte]

theorem Operands.popTyped_apply {v : Value} {type : NumType} (h : v.type = .num type)
    (values : List Value) : popTyped (.num type) (v :: values) = .ok v values := by
  have hcheck : v.check (.num type) = .ok () := by
    simp only [Value.check, Value.isNil_of_type h, h, Bool.false_eq_true, ↓reduceIte]
  simp only [popTyped, Bind.bind, EStateM.bind, pop, hcheck]
  rfl

theorem Exec.effectiveAddress_apply (base offset : UInt32) (values : List Value) :
    effectiveAddress offset (.i32 base :: values) =
      if base.toNat + offset.toNat < 2 ^ 32 then .ok (base.toNat + offset.toNat) values
      else .error .outOfBounds values := by
  unfold effectiveAddress
  simp only [Bind.bind, EStateM.bind, Operands.popI32_apply]
  split <;> rfl

namespace Exec

variable {α : Type} {f : Focus} {values : List Value}

theorem operands_of_ok {x : Operands α} {a : α} (h : x f.frame.values = .ok a values) :
    operands x f = .ok a ⟨f.store, { f.frame with values }⟩ := by
  rcases f with ⟨store, location, values', locals⟩
  dsimp only at h
  simp only [operands, h]

theorem operands_of_error {x : Operands α} {e : Fault} (h : x f.frame.values = .error e values) :
    operands x f = .error (.fault e) ⟨f.store, { f.frame with values }⟩ := by
  rcases f with ⟨store, location, values', locals⟩
  dsimp only at h
  simp only [operands, h]

theorem memoryAddr_of_some {a : MemoryAddr} (h : f.memory? = some a) : memoryAddr f = .ok a f := by
  rw [memoryAddr_apply, h]
  rfl

theorem inspect_of_some {a : MemoryAddr} {m : Memory} (h : f.store.memory? a = some m)
    (look : Memory → α) : inspect a look f = .ok (look m) f := by
  rw [inspect_apply, h]
  rfl

end Exec

section

variable {f : Focus} {a : MemoryAddr} {m : Memory} {base offset : UInt32} {values : List Value}

theorem Exec.load_apply (op : LoadOp) (hvalues : f.frame.values = .i32 base :: values)
    (hhandle : f.memory? = some a) (hmemory : f.store.memory? a = some m)
    (hm : m.length ≤ 2 ^ 32) :
    load op offset f =
      if base.toNat + offset.toNat + op.bytes ≤ m.length then
        .ok () ⟨f.store, { f.frame with
          values := loaded op (m.number (base.toNat + offset.toNat) op.bytes) :: values }⟩
      else .error (.fault .outOfBounds) ⟨f.store, { f.frame with values }⟩ := by
  have hpos := op.bytes_pos
  have hbase := effectiveAddress_apply base offset values
  rw [← hvalues] at hbase
  rw [load, bind_of_ok (memoryAddr_of_some hhandle)]
  by_cases haddress : base.toNat + offset.toNat < 2 ^ 32
  · rw [if_pos haddress] at hbase
    rw [bind_of_ok (operands_of_ok hbase),
      bind_of_ok (inspect_of_some (f := ⟨f.store, { f.frame with values }⟩) hmemory _)]
    by_cases hfits : base.toNat + offset.toNat + op.bytes ≤ m.length
    · rw [if_pos hfits, Memory.readNumber?_of_le hfits]
      exact operands_of_ok (Operands.push_apply (Exec.type_loaded op _) values)
    · rw [if_neg hfits, Memory.readNumber?_of_not_le hfits]
      rfl
  · rw [if_neg haddress] at hbase
    rw [bind_of_error (operands_of_error hbase), if_neg (by omega)]

theorem Exec.store_apply (op : StoreOp) {v : Value} (typed : v.type = .num op.operand)
    (hvalues : f.frame.values = v :: .i32 base :: values)
    (hhandle : f.memory? = some a) (hmemory : f.store.memory? a = some m)
    (hm : m.length ≤ 2 ^ 32) :
    store op offset f =
      if base.toNat + offset.toNat + op.bytes ≤ m.length then
        .ok () ⟨f.store.modifyMemory a
          (·.setNumber (base.toNat + offset.toNat) op.bytes v.bits.toNat), { f.frame with values }⟩
      else .error (.fault .outOfBounds) ⟨f.store, { f.frame with values }⟩ := by
  have hpos := op.bytes_pos
  have hvalue := Operands.popTyped_apply typed (.i32 base :: values)
  rw [← hvalues] at hvalue
  have hbase := effectiveAddress_apply base offset values
  rw [store, bind_of_ok (memoryAddr_of_some hhandle), bind_of_ok (operands_of_ok hvalue)]
  by_cases haddress : base.toNat + offset.toNat < 2 ^ 32
  · rw [if_pos haddress] at hbase
    rw [bind_of_ok (operands_of_ok hbase),
      bind_of_ok (inspect_of_some (f := ⟨f.store, { f.frame with values }⟩) hmemory _)]
    by_cases hfits : base.toNat + offset.toNat + op.bytes ≤ m.length
    · rw [if_pos hfits, if_pos (Memory.hasLength_iff.2 hfits)]
      rfl
    · rw [if_neg hfits, if_neg fun hlength => hfits (Memory.hasLength_iff.1 hlength)]
      rfl
  · rw [if_neg haddress] at hbase
    rw [bind_of_error (operands_of_error hbase), if_neg (by omega)]

end

/-- What a load or store does: it takes its operands, and fails unless all its bytes are there. -/
theorem Access.plain_apply (x : Access) {f : Focus} {a : MemoryAddr} {m : Memory}
    {base : UInt32} {values : List Value} (align offset : UInt32)
    (hvalues : f.frame.values = x.operands base ++ values) (hhandle : f.memory? = some a)
    (hmemory : f.store.memory? a = some m) (hm : m.length ≤ 2 ^ 32) :
    Exec.plain (x.instruction align offset) f =
      if base.toNat + offset.toNat + x.bytes ≤ m.length then
        .ok () ⟨f.store.modifyMemory a (x.change (base.toNat + offset.toNat)),
          { f.frame with values := x.pushed (base.toNat + offset.toNat) m ++ values }⟩
      else .error (.fault .outOfBounds) ⟨f.store, { f.frame with values }⟩ := by
  cases x with
  | load op =>
    have hsame : f.store.modifyMemory a ((Access.load op).change (base.toNat + offset.toNat)) =
        f.store := f.store.modifyMemory_id a
    rw [hsame]
    exact Exec.load_apply op hvalues hhandle hmemory hm
  | store op v typed => exact Exec.store_apply op typed hvalues hhandle hmemory hm

/-! ### Steps -/

namespace Config

variable {c c' : Config}

/-- A machine is about to execute a load or store: which one, in which body, with which operands and
on which memory. -/
structure Pending (c : Config) where
  access : Access
  align : UInt32
  offset : UInt32
  base : UInt32
  /-- What is below the operands. -/
  values : List Value
  body : Body
  finish : Finish
  handle : MemoryAddr
  memory : Memory
  now_eq : c.now = .body body finish
  code_eq : body.code[body.position]? = some (access.instruction align offset)
  values_eq : c.stack.current.values = access.operands base ++ values
  handle_eq : c.memory? = some handle
  memory_eq : c.world.store.memory? handle = some memory

/-- The machine with another store. -/
def inStore (c : Config) (s : Store) : Config := { c with world := { c.world with store := s } }

theorem memory?_inStore {s : Store} (h : s.modules = c.world.store.modules) :
    (c.inStore s).memory? = c.memory? := by
  simp only [memory?, Focus.memory?, Store.firstMemory?, Store.module?, Setting.focus, setting,
    inStore, h]

theorem leave_inStore (c : Config) (s : Store) : (c.inStore s).leave = c.leave.inStore s := by
  unfold leave
  rw [show (c.inStore s).stack = c.stack from rfl]
  cases c.stack.leave? <;> rfl

theorem leaveWith_inStore (c : Config) (s : Store) (finish : Finish) :
    (c.inStore s).leaveWith finish = (c.leaveWith finish).inStore s := by
  unfold leaveWith
  split
  · exact leave_inStore c s
  · rfl

namespace Pending

variable (p : c.Pending)

/-- The position of the first byte. -/
def address : Nat := p.base.toNat + p.offset.toNat

/-- The machine after a trap: the operands are gone. -/
def trapped : Config := ((c.withValues p.values).raise .outOfBounds).leaveWith p.finish

/-- The machine after the instruction has left some values, and its memory as it was. -/
def passed (pushed : List Value) : Config :=
  { c.withValues (pushed ++ p.values) with now := .body p.body.next p.finish }

/-- The machine after the instruction has made something of its memory. -/
def overwritten (m : Memory) : Config :=
  (p.passed []).inStore (c.world.store.modifyMemory p.handle fun _ => m)

theorem step_eq (hm : p.memory.length ≤ 2 ^ 32) : c.step =
    if p.address + p.access.bytes ≤ p.memory.length then
      (p.passed (p.access.pushed p.address p.memory)).inStore
        (c.world.store.modifyMemory p.handle (p.access.change p.address))
    else p.trapped := by
  have hplain := p.access.plain_apply (f := c.setting.focus) p.align p.offset p.values_eq
    p.handle_eq p.memory_eq hm
  have hstep : c.step = c.resume p.body p.finish
      (c.setting.perform (p.body.step (p.access.instruction p.align p.offset))) := by
    simp only [Config.step, p.now_eq]
    exact stepBody_of_some p.code_eq p.finish
  have hbody : p.body.step (p.access.instruction p.align p.offset) =
      Exec.plain (p.access.instruction p.align p.offset) >>= fun _ =>
        pure (.proceed p.body.next) := by
    cases p.access <;> rfl
  rw [hstep, Setting.perform, hbody]
  by_cases hfits : p.address + p.access.bytes ≤ p.memory.length
  · rw [Exec.bind_of_ok (hplain.trans (if_pos hfits)), if_pos hfits]
    rfl
  · rw [Exec.bind_of_error (hplain.trans (if_neg hfits)), if_neg hfits]
    rfl

/-- What the instruction makes of the memory. -/
def rewrite (m : Memory) : Memory :=
  if p.address + p.access.bytes ≤ p.memory.length then p.access.change p.address m else m

theorem modifyMemory_rewrite (s : Store) : s.modifyMemory p.handle p.rewrite =
    if p.address + p.access.bytes ≤ p.memory.length then
      s.modifyMemory p.handle (p.access.change p.address)
    else s := by
  unfold rewrite
  split
  · rfl
  · exact s.modifyMemory_id p.handle

theorem store_step (hm : p.memory.length ≤ 2 ^ 32) :
    c.step.world.store = c.world.store.modifyMemory p.handle p.rewrite := by
  rw [p.step_eq hm, modifyMemory_rewrite]
  split
  · rfl
  · simp only [trapped, store_leaveWith, store_raise]
    rfl

theorem trapped_now (b : Body) (finish : Finish) : p.trapped.now ≠ .body b finish := by
  unfold trapped leaveWith leave
  split
  · split <;> nofun
  · nofun

theorem step_eq_trapped_iff (hm : p.memory.length ≤ 2 ^ 32) :
    c.step = p.trapped ↔ p.memory.length < p.address + p.access.bytes := by
  rw [p.step_eq hm]
  by_cases hfits : p.address + p.access.bytes ≤ p.memory.length
  · rw [if_pos hfits]
    refine ⟨fun hsame => ?_, fun hlt => absurd hfits (Nat.not_le.2 hlt)⟩
    exact absurd (congrArg Config.now hsame).symm (p.trapped_now _ _)
  · rw [if_neg hfits]
    exact ⟨fun _ => Nat.not_le.1 hfits, fun _ => rfl⟩

/-! ### Order of accesses -/

/-- The same instruction in a store with the same modules. -/
def inStore {s : Store} {m : Memory} (hmodules : s.modules = c.world.store.modules)
    (hm : s.memory? p.handle = some m) : (c.inStore s).Pending :=
  { p with
    memory := m
    handle_eq := (memory?_inStore hmodules).trans p.handle_eq
    memory_eq := hm }

/-- In a store whose memory has the same length and the same bytes where it is read, the instruction
does the same. -/
theorem step_inStore {s : Store} {m : Memory} (hmodules : s.modules = c.world.store.modules)
    (hm : s.memory? p.handle = some m) (hlength : m.length = p.memory.length)
    (hbytes : ∀ i < p.access.bytes, m.byteAt (p.address + i) = p.memory.byteAt (p.address + i))
    (hlimit : p.memory.length ≤ 2 ^ 32) :
    (c.inStore s).step = c.step.inStore (s.modifyMemory p.handle p.rewrite) := by
  have hpushed := p.access.pushed_congr hbytes
  rw [p.step_eq hlimit, modifyMemory_rewrite,
    (p.inStore hmodules hm).step_eq (Nat.le_trans (Nat.le_of_eq hlength) hlimit)]
  show (if p.address + p.access.bytes ≤ m.length then _ else _) = _
  rw [hlength]
  split
  · show ((p.inStore hmodules hm).passed (p.access.pushed p.address m)).inStore _ = _
    rw [hpushed]
    rfl
  · exact leaveWith_inStore ((c.withValues p.values).raise .outOfBounds) s p.finish

theorem length_rewrite (m : Memory) : (p.rewrite m).length = m.length := by
  unfold rewrite
  split
  · exact Access.length_change ..
  · rfl

theorem byteAt_rewrite {i : Nat} (m : Memory)
    (h : i < p.address ∨ p.address + p.access.bytes ≤ i) : (p.rewrite m).byteAt i = m.byteAt i := by
  unfold rewrite
  split
  · exact p.access.byteAt_change m h
  · rfl

section

variable {p} {q : c'.Pending}

theorem memory_eq_of_handle (hstore : c'.world.store = c.world.store)
    (hhandle : q.handle = p.handle) : q.memory = p.memory := by
  have hq := q.memory_eq
  rw [hstore, hhandle, p.memory_eq] at hq
  exact (Option.some.inj hq).symm

theorem rewrite_comm (hmemory : q.memory = p.memory)
    (h : p.address + p.access.bytes ≤ q.address ∨ q.address + q.access.bytes ≤ p.address) :
    q.rewrite (p.rewrite p.memory) = p.rewrite (q.rewrite p.memory) := by
  unfold rewrite
  rw [hmemory]
  by_cases hp : p.address + p.access.bytes ≤ p.memory.length
  · by_cases hq : q.address + q.access.bytes ≤ p.memory.length
    · simp only [if_pos hp, if_pos hq]
      exact p.access.change_comm q.access h hp hq
    · simp only [if_neg hq]
  · simp only [if_neg hp]

/-- An instruction does the same after another one that shares no byte with it. -/
theorem step_after (hstore : c'.world.store = c.world.store) (hhandle : q.handle = p.handle)
    (h : p.address + p.access.bytes ≤ q.address ∨ q.address + q.access.bytes ≤ p.address)
    (hlimit : p.memory.length ≤ 2 ^ 32) :
    (c'.inStore c.step.world.store).step = c'.step.inStore
      (c.world.store.modifyMemory p.handle fun m => q.rewrite (p.rewrite m)) := by
  have hmemory := memory_eq_of_handle hstore hhandle
  have hmodules : c.step.world.store.modules = c'.world.store.modules := by
    rw [p.store_step hlimit, hstore]
    rfl
  have hrewritten : c.step.world.store.memory? q.handle = some (p.rewrite p.memory) := by
    rw [p.store_step hlimit, hhandle]
    exact Store.memory?_modifyMemory_self p.memory_eq p.rewrite
  rw [q.step_inStore hmodules hrewritten ?_ ?_ (hmemory ▸ hlimit), p.store_step hlimit, hhandle,
    Store.modifyMemory_modifyMemory]
  · rw [length_rewrite, hmemory]
  · intro i hi
    rw [byteAt_rewrite _ _ (by omega), hmemory]

/-- Two instructions that share no byte do the same in either order. -/
theorem step_comm (hstore : c'.world.store = c.world.store) (hhandle : q.handle = p.handle)
    (h : p.address + p.access.bytes ≤ q.address ∨ q.address + q.access.bytes ≤ p.address)
    (hlimit : p.memory.length ≤ 2 ^ 32) :
    ∃ s, (c'.inStore c.step.world.store).step = c'.step.inStore s ∧
      (c.inStore c'.step.world.store).step = c.step.inStore s := by
  have hmemory := memory_eq_of_handle hstore hhandle
  refine ⟨_, step_after hstore hhandle h hlimit, ?_⟩
  rw [step_after hstore.symm hhandle.symm h.symm (hmemory ▸ hlimit), hstore, hhandle]
  exact congrArg _ (Store.modifyMemory_congr p.memory_eq (rewrite_comm hmemory h).symm)

end

/-! ### What they do -/

theorem step_of_load {op : LoadOp} (haccess : p.access = .load op)
    (hfits : p.address + op.bytes ≤ p.memory.length) (hlimit : p.memory.length ≤ 2 ^ 32) :
    c.step = p.passed [Exec.loaded op (p.memory.number p.address op.bytes)] := by
  have hchange : p.access.change p.address = fun m => m := by rw [haccess]; rfl
  have hbytes : p.access.bytes = op.bytes := by rw [haccess]; rfl
  rw [p.step_eq hlimit, hbytes, if_pos hfits, hchange, Store.modifyMemory_id, haccess]
  rfl

theorem step_of_store {op : StoreOp} {v : Value} {typed : v.type = .num op.operand}
    (haccess : p.access = .store op v typed)
    (hfits : p.address + op.bytes ≤ p.memory.length) (hlimit : p.memory.length ≤ 2 ^ 32) :
    c.step = p.overwritten (p.memory.setNumber p.address op.bytes v.bits.toNat) := by
  have hbytes : p.access.bytes = op.bytes := by rw [haccess]; rfl
  rw [p.step_eq hlimit, hbytes, if_pos hfits, overwritten, haccess]
  exact congrArg _ (Store.modifyMemory_congr p.memory_eq rfl)

/-- **Loads and stores are exact.** A load or store traps if and only if one of its bytes is beyond
the end of the memory, and then it changes no memory. Otherwise a load pushes the number in its
bytes, lowest first, extended as its name says, and changes no memory; a store makes its bytes those
of the number, lowest first, and changes no other. A load of the same bytes after that returns the
number as far as it had room, and instructions that share no byte do the same in either order. -/
theorem exact_step (hlimit : p.memory.length ≤ 2 ^ 32) :
    (c.step = p.trapped ↔ p.memory.length < p.address + p.access.bytes) ∧
    p.trapped.world.store = c.world.store ∧
    (∀ op, p.access = .load op → p.address + op.bytes ≤ p.memory.length →
      op.name = op.result.name ++ ".load" ++ (if op.bytes = op.result.bytes then "" else
        toString (8 * op.bytes) ++ op.signedness.suffix) ∧
      ∃ v, c.step = p.passed [v] ∧ v.type = .num op.result ∧ v.bits.toNat = op.extend
        (∑ i ∈ Finset.range op.bytes, (p.memory.byteAt (p.address + i)).toNat * 256 ^ i)) ∧
    (∀ op v typed, p.access = .store op v typed → p.address + op.bytes ≤ p.memory.length →
      op.name = op.operand.name ++ ".store" ++
        (if op.bytes = op.operand.bytes then "" else toString (8 * op.bytes)) ∧
      ∃ m, c.step = p.overwritten m ∧ m.length = p.memory.length ∧ m.max = p.memory.max ∧
        (∀ i < op.bytes, (m.byteAt (p.address + i)).toNat = v.bits.toNat / 256 ^ i % 256) ∧
        (∀ i, i < p.address ∨ p.address + op.bytes ≤ i → m.byteAt i = p.memory.byteAt i) ∧
        ∀ (c' : Config) (q : c'.Pending) op', q.access = .load op' → q.memory = m →
          q.address = p.address → op'.bytes = op.bytes →
          ∃ u, c'.step = q.passed [u] ∧ u.type = .num op'.result ∧
            u.bits.toNat = op'.extend (v.bits.toNat % 256 ^ op.bytes) ∧
            u.bits.toNat % 256 ^ op.bytes = v.bits.toNat % 256 ^ op.bytes) ∧
    ∀ (c' : Config) (q : c'.Pending), c'.world.store = c.world.store → q.handle = p.handle →
      (p.address + p.access.bytes ≤ q.address ∨ q.address + q.access.bytes ≤ p.address) →
      ∃ s, (c'.inStore c.step.world.store).step = c'.step.inStore s ∧
        (c.inStore c'.step.world.store).step = c.step.inStore s := by
  refine ⟨p.step_eq_trapped_iff hlimit, ?_, ?_, ?_, ?_⟩
  · simp only [trapped, store_leaveWith, store_raise]
    rfl
  · intro op haccess hfits
    refine ⟨op.name_eq, _, p.step_of_load haccess hfits hlimit, Exec.type_loaded .., ?_⟩
    rw [Exec.toNat_bits_loaded op (Memory.number_lt ..), Memory.number_eq_sum]
  · intro op v typed haccess hfits
    refine ⟨op.name_eq, _, p.step_of_store haccess hfits hlimit, Memory.length_setNumber ..,
      Memory.max_setNumber .., ?_, ?_, ?_⟩
    · intro i hi
      exact Memory.toNat_byteAt_setNumber hfits hi _
    · intro i hi
      exact Memory.byteAt_setNumber_of_outside hi _
    · intro c' q op' haccess' hmemory haddress hbytes
      have hlength : q.memory.length = p.memory.length := by rw [hmemory, Memory.length_setNumber]
      have hread : q.memory.number q.address op'.bytes = v.bits.toNat % 256 ^ op.bytes := by
        rw [hmemory, haddress, hbytes, Memory.number_setNumber hfits]
      have hlt : v.bits.toNat % 256 ^ op.bytes < 256 ^ op'.bytes := by
        rw [hbytes]
        exact Nat.mod_lt _ (Nat.pow_pos (by decide))
      have hloaded := Exec.toNat_bits_loaded op' hlt
      refine ⟨_, q.step_of_load haccess' (by omega) (by omega), Exec.type_loaded .., ?_, ?_⟩
      · rw [hread, hloaded]
      · rw [hread, hloaded, ← hbytes, op'.extend_mod (hbytes ▸ hlt)]
  · intro c' q hstore hhandle hdisjoint
    exact step_comm hstore hhandle hdisjoint hlimit

end Pending

/-- A machine whose only memory is given, about to execute one instruction. -/
def onMemory (m : Memory) (i : Instruction) (values : List Value) : Config where
  world := { store :=
    { modules := #[⟨"", #[], #[⟨0⟩], #[], none⟩], memories := #[m], pageLimit := 1 } }
  stack := (CallStack.ofModule ⟨0⟩).modifyCurrent fun fr => { fr with values }
  ceiling := 1
  now := .body { code := #[i] } .stop

/-- Any load or store on any memory can be executed. -/
def onMemory_pending (m : Memory) (x : Access) (base offset : UInt32) :
    (onMemory m (x.instruction 0 offset) (x.operands base)).Pending where
  access := x
  align := 0
  offset := offset
  base := base
  values := []
  body := { code := #[x.instruction 0 offset] }
  finish := .stop
  handle := ⟨0⟩
  memory := m
  now_eq := rfl
  code_eq := rfl
  values_eq := (List.append_nil _).symm
  handle_eq := rfl
  memory_eq := rfl

theorem Pending.exact_step_half :
    let m : Memory := ⟨⟨#[1, 2, 3, 4]⟩, none⟩
    let x : Access := .store (.half .w32) (.i32 0x12348081) rfl
    let y : Access := .load (.half .w32 .signed)
    let below := onMemory_pending m x 1 1
    let beyond := onMemory_pending m x 0xffffffff 4
    beyond.trapped = (onMemory m (x.instruction 0 4) (x.operands 0xffffffff)).step ∧
    ∃ m' u, (onMemory m (x.instruction 0 1) (x.operands 1)).step = below.overwritten m' ∧
      (m'.byteAt 2).toNat = 0x81 ∧ (m'.byteAt 3).toNat = 0x80 ∧ m'.byteAt 1 = 2 ∧
      (onMemory m' (y.instruction 0 2) (y.operands 0)).step =
        (onMemory_pending m' y 0 2).passed [u] ∧ u.bits.toNat = 0xffff8081 := by
  intro m x y below beyond
  obtain ⟨htraps, -⟩ := beyond.exact_step (by decide)
  obtain ⟨-, -, -, hstores, -⟩ := below.exact_step (by decide)
  obtain ⟨-, m', hstep, -, -, hinside, houtside, hloads⟩ := hstores _ _ _ rfl (by decide)
  obtain ⟨u, hload, -, hu, -⟩ := hloads _ (onMemory_pending m' y 0 2) _ rfl rfl rfl rfl
  refine ⟨(htraps.2 (by decide)).symm, m', u, hstep, ?_, ?_, ?_, hload, ?_⟩
  · exact hinside 0 (by decide)
  · exact hinside 1 (by decide)
  · exact houtside 1 (by decide)
  · exact hu.trans (by decide)

end Config

end Machine

end WasmCore
