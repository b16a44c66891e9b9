import WasmCore.Proofs.Binary.Grammar
import WasmCore.Proofs.Structured.Layout

/-!
# Instructions: decoding undoes encoding

An opcode and the immediates that are read after it determine an instruction
(`Instruction.ofOpcode_opcode`), but for the positions of a construct, which are not written.

`HasImmediates` and `IsEncoding` are the grammar of instructions. The decoder reads exactly what it
admits (`reads_immediates`, `of_reads_immediates`). `Instruction.Encodable` says which instructions
have an encoding at all; the encoder writes one that is not longer than any other
(`isEncoding_encodeInstruction`, `IsEncoding.length_le`).
-/

namespace WasmCore

/-- The result type of a construct: a number type or none. -/
def ValueType.IsBlockType (t : ValueType) : Prop := t.isNumeric = true ∨ t = .empty

namespace Instruction

/-- The same instruction with other immediates. -/
def fill (imm : Immediates) : Instruction → Instruction
  | block _ _ => block imm.type imm.endAt
  | loop _ _ => loop imm.type imm.endAt
  | cond _ _ _ => cond imm.type imm.elseAt imm.endAt
  | br _ => br imm.index
  | brIf _ => brIf imm.index
  | brTable _ _ => brTable imm.targets imm.index
  | call _ => call imm.index
  | callIndirect _ => callIndirect imm.index
  | localGet _ => localGet imm.index
  | localSet _ => localSet imm.index
  | localTee _ => localTee imm.index
  | globalGet _ => globalGet imm.index
  | globalSet _ => globalSet imm.index
  | load op _ _ => load op imm.align imm.offset
  | store op _ _ => store op imm.align imm.offset
  | const type _ => const type imm.payload
  | i => i

/-- The instruction without the positions of a construct. -/
def unplaced : Instruction → Instruction
  | block type _ => block type 0
  | loop type _ => loop type 0
  | cond type _ _ => cond type none 0
  | i => i

theorem unplaced_of_plain {i : Instruction} (h : i.isStructural = false) : i.unplaced = i := by
  cases i <;> simp_all [isStructural, unplaced]

/-- The format can express the instruction: the type of a construct is a number type or none, the
payload of a 32-bit integer is sign-extended and that of a single zero-extended. -/
def Encodable : Instruction → Prop
  | block type _ | loop type _ | cond type _ _ => type.IsBlockType
  | const .i32 payload => payload.toBitVec = payload.toUInt32.toBitVec.signExtend 64
  | const .f32 payload => payload.toNat < 2 ^ 32
  | undefined _ => False
  | _ => True

/-! ### Opcodes -/

theorem ofTables?_eq_fill (code : UInt8) (imm : Immediates) :
    ofTables? code imm = (ofTables? code {}).map (fill imm) := by
  unfold ofTables?
  cases lookup? LoadOp.all LoadOp.firstOpcode code with
  | some op => rfl
  | none =>
    cases lookup? StoreOp.all StoreOp.firstOpcode code with
    | some op => rfl
    | none => cases lookup? NumericOp.all NumericOp.firstOpcode code <;> rfl

theorem ofOpcode_eq_fill (code : UInt8) (imm : Immediates) :
    ofOpcode code imm = (ofOpcode code {}).fill imm := by
  unfold ofOpcode
  split
  case h_27 =>
    rw [ofTables?_eq_fill]
    cases ofTables? code {} <;> rfl
  all_goals rfl

theorem ofOpcode_opcode_load (op : LoadOp) (align offset : UInt32) (imm : Immediates) :
    ofOpcode (load op align offset).opcode imm = load op imm.align imm.offset := by
  cases op with
  | full type => cases type <;> rfl
  | byte target s => cases target <;> cases s <;> rfl
  | half target s => cases target <;> cases s <;> rfl
  | word s => cases s <;> rfl

theorem ofOpcode_opcode_store (op : StoreOp) (align offset : UInt32) (imm : Immediates) :
    ofOpcode (store op align offset).opcode imm = store op imm.align imm.offset := by
  cases op with
  | full type => cases type <;> rfl
  | byte source => cases source <;> rfl
  | half source => cases source <;> rfl
  | word => rfl

theorem ofOpcode_opcode_numeric (op : NumericOp) (imm : Immediates) :
    ofOpcode (numeric op).opcode imm = numeric op := by
  cases op with
  | eqz w => cases w <;> rfl
  | intCompare w r => cases w <;> cases r <;> rfl
  | floatCompare w r => cases w <;> cases r <;> rfl
  | intUnary w op => cases w <;> cases op <;> rfl
  | intBinary w op => cases w <;> cases op <;> rfl
  | floatUnary w op =>
    cases op with
    | round mode => cases w <;> cases mode <;> rfl
    | _ => cases w <;> rfl
  | floatBinary w op => cases w <;> cases op <;> rfl
  | wrap => rfl
  | extend s => cases s <;> rfl
  | truncate target source s => cases target <;> cases source <;> cases s <;> rfl
  | convert target source s => cases target <;> cases source <;> cases s <;> rfl
  | demote => rfl
  | promote => rfl
  | floatBits w => cases w <;> rfl
  | ofFloatBits w => cases w <;> rfl

/-- The opcode of an instruction determines it but for its immediates. -/
theorem ofOpcode_opcode {i : Instruction} (hi : i.Encodable) (imm : Immediates) :
    ofOpcode i.opcode imm = i.fill imm := by
  cases i with
  | load op align offset => exact ofOpcode_opcode_load op align offset imm
  | store op align offset => exact ofOpcode_opcode_store op align offset imm
  | numeric op => exact ofOpcode_opcode_numeric op imm
  | const type payload => cases type <;> rfl
  | undefined code => exact hi.elim
  | _ => rfl

theorem opcode_unplaced (i : Instruction) : i.unplaced.opcode = i.opcode := by
  cases i <;> rfl

theorem opcode_fill (imm : Immediates) (i : Instruction) : (i.fill imm).opcode = i.opcode := by
  cases i with
  | const type payload => cases type <;> rfl
  | _ => rfl

theorem opcode_ofOpcode (code : UInt8) (imm : Immediates) : (ofOpcode code imm).opcode = code := by
  have hall : ∀ n : Fin 256, (ofOpcode (.ofNat n) {}).opcode = .ofNat n := by decide +kernel
  have hcode := hall ⟨code.toNat, code.toNat_lt⟩
  rw [ofOpcode_eq_fill, opcode_fill]
  simpa using hcode

end Instruction

namespace Binary

open Decoder Instruction Leb128

variable {bytes rest : List UInt8}

/-! ### Types -/

theorem valueType_restores :
    Restores valueType (fun t => [t.code]) fun t => t.isNumeric = true := by
  intro t rest ht _
  refine (reads_within.2 (reads_byte.2 rfl)).bind ?_
  cases t with
  | num type => cases type <;> exact reads_pure.2 ⟨rfl, rfl⟩
  | empty => cases ht
  | other code => cases ht

theorem valueType_compacts :
    Compacts valueType (fun t => [t.code]) fun t => t.isNumeric = true := by
  intro bytes t rest h
  simp only [valueType, reads_bind, reads_within, reads_byte] at h
  obtain ⟨b, mid, rfl, h⟩ := h
  split at h
  · obtain ⟨rfl, rfl⟩ := reads_pure.1 h
    exact ⟨rfl, by simp [Nat.add_comm]⟩
  · exact absurd h not_reads_fail

theorem blockType_recognizes :
    Recognizes blockType fun t bytes => t.IsBlockType ∧ bytes = [t.code] := by
  intro bytes t rest
  constructor
  · intro h
    simp only [blockType, reads_bind, reads_within, reads_byte] at h
    obtain ⟨b, mid, rfl, h⟩ := h
    have hb := ValueType.code_ofCode b
    split at h
    · rename_i type ht
      obtain ⟨rfl, rfl⟩ := reads_pure.1 h
      rw [ht] at hb
      exact ⟨[b], rfl, .inl rfl, by rw [hb]⟩
    · rename_i ht
      obtain ⟨rfl, rfl⟩ := reads_pure.1 h
      rw [ht] at hb
      exact ⟨[b], rfl, .inr rfl, by rw [hb]⟩
    · exact absurd h not_reads_fail
  · rintro ⟨_, rfl, ht, rfl⟩
    refine (reads_within.2 (reads_byte.2 rfl)).bind ?_
    cases t with
    | num type => cases type <;> exact reads_pure.2 ⟨rfl, rfl⟩
    | empty => exact reads_pure.2 ⟨rfl, rfl⟩
    | other code => simp [ValueType.IsBlockType, ValueType.isNumeric] at ht

theorem reads_reservedZero {u : Unit} : Reads reservedZero bytes u rest ↔ bytes = 0 :: rest := by
  simp only [reservedZero, reads_bind, reads_within, reads_byte]
  constructor
  · rintro ⟨b, mid, rfl, h⟩
    split at h
    · rename_i hb
      obtain ⟨-, rfl⟩ := reads_pure.1 h
      rw [hb]
    · exact absurd h not_reads_fail
  · rintro rfl
    exact ⟨0, rest, rfl, reads_pure.2 ⟨rfl, rfl⟩⟩

/-! ### Constants -/

theorem inRange_toInt {w : Nat} (x : BitVec w) : Leb128.InRange w x.toInt :=
  ⟨BitVec.le_toInt x, BitVec.toInt_lt⟩

theorem toInt_ofInt_of_inRange {w : Nat} (hw : 0 < w) {v : Int} (h : Leb128.InRange w v) :
    (BitVec.ofInt w v).toInt = v := by
  obtain ⟨hlo, hhi⟩ := h
  rw [BitVec.toInt_ofInt]
  have hpow : ((2 ^ w : Nat) : Int) = 2 * 2 ^ (w - 1) := by
    rw [← Int.pow_succ', Nat.sub_add_cancel hw]
    simp
  exact Int.bmod_eq_of_le (by omega) (by omega)

theorem toBitVec_payload (v : Int) :
    ((BitVec.ofInt 64 v).toNat.toUInt64).toBitVec = BitVec.ofInt 64 v := by
  simp only [Nat.toUInt64, UInt64.toBitVec_ofNat', BitVec.ofNat_toNat, BitVec.setWidth_eq]

/-- The payload of a 32-bit integer holds its low half, extended. -/
theorem toUInt32_payload (v : Int) :
    ((BitVec.ofInt 64 v).toNat.toUInt64).toUInt32.toBitVec = BitVec.ofInt 32 v := by
  rw [UInt64.toBitVec_toUInt32, toBitVec_payload]
  apply BitVec.eq_of_toNat_eq
  have hmod : v % 2 ^ 64 % 2 ^ 32 = v % 2 ^ 32 := Int.emod_emod_of_dvd v (by decide)
  simp only [BitVec.toNat_setWidth, BitVec.toNat_ofInt]
  omega

theorem ofLittleEndian_littleEndian (n v : Nat) :
    ofLittleEndian (littleEndian n v) = v % 256 ^ n := by
  induction n generalizing v with
  | zero => simp [littleEndian, ofLittleEndian, Nat.mod_one]
  | succ n ih =>
    simp only [littleEndian, ofLittleEndian, ih]
    rw [Leb128.toNat_toUInt8 (Nat.mod_lt _ (by decide)), Nat.pow_succ', Nat.mod_mul]

theorem length_littleEndian (n v : Nat) : (littleEndian n v).length = n := by
  induction n generalizing v with
  | zero => rfl
  | succ n ih => simp [littleEndian, ih]

theorem ofLittleEndian_lt (bytes : List UInt8) : ofLittleEndian bytes < 256 ^ bytes.length := by
  induction bytes with
  | nil => simp [ofLittleEndian]
  | cons b bytes ih =>
    have := b.toNat_lt
    simp only [ofLittleEndian, List.length_cons, Nat.pow_succ']
    omega

/-! ### Immediates -/

/-- The bytes encode a branch table: the number of its labels, the labels, and the default. -/
def IsBranchTable (targets : List UInt32) (fallback : UInt32) : List UInt8 → Prop :=
  Concat (IsUnsigned 32 targets.length) <|
    Concat (InRow (fun n => IsUnsigned 32 n.toNat) targets) (IsUnsigned 32 fallback.toNat)

/-- The bytes encode the immediates of the instruction. There are none for a byte that is no opcode,
so it starts no instruction. -/
def HasImmediates : Instruction → List UInt8 → Prop
  | .block type _, bytes | .loop type _, bytes | .cond type _ _, bytes =>
    type.IsBlockType ∧ bytes = [type.code]
  | .br n, bytes | .brIf n, bytes | .call n, bytes | .localGet n, bytes | .localSet n, bytes
  | .localTee n, bytes | .globalGet n, bytes | .globalSet n, bytes => IsUnsigned 32 n.toNat bytes
  | .brTable targets fallback, bytes => IsBranchTable targets fallback bytes
  | .callIndirect n, bytes => Concat (IsUnsigned 32 n.toNat) (· = [0]) bytes
  | .memorySize, bytes | .memoryGrow, bytes => bytes = [0]
  | .const .i32 payload, bytes => ∃ v, IsSigned 32 v bytes ∧ payload.toBitVec = .ofInt 64 v
  | .const .i64 payload, bytes => ∃ v, IsSigned 64 v bytes ∧ payload.toBitVec = .ofInt 64 v
  | .const .f32 payload, bytes => bytes.length = 4 ∧ payload.toNat = ofLittleEndian bytes
  | .const .f64 payload, bytes => bytes.length = 8 ∧ payload.toNat = ofLittleEndian bytes
  | .load _ align offset, bytes | .store _ align offset, bytes =>
    Concat (IsUnsigned 32 align.toNat) (IsUnsigned 32 offset.toNat) bytes
  | .undefined _, _ => False
  | _, bytes => bytes = []

/-- The bytes encode the instruction: its opcode, which is a defined one, and its immediates. The
positions that a construct holds are not written. -/
def IsEncoding (i : Instruction) (bytes : List UInt8) : Prop :=
  ∃ imm, bytes = i.opcode :: imm ∧ HasImmediates i imm

theorem IsEncoding.ne_nil {i : Instruction} (h : IsEncoding i bytes) : bytes ≠ [] := by
  obtain ⟨imm, rfl, -⟩ := h
  exact List.cons_ne_nil _ _

theorem hasImmediates_unplaced {i : Instruction} :
    HasImmediates i.unplaced bytes ↔ HasImmediates i bytes := by
  cases i <;> exact Iff.rfl

theorem isEncoding_unplaced {i : Instruction} :
    IsEncoding i.unplaced bytes ↔ IsEncoding i bytes := by
  simp only [IsEncoding, opcode_unplaced, hasImmediates_unplaced]

/-- What is read as immediates encodes them. -/
theorem of_reads_immediates {code : UInt8} {imm : Immediates}
    (h : Reads (immediates code) bytes imm rest) :
    ∃ a, bytes = a ++ rest ∧ HasImmediates (ofOpcode code imm) a := by
  rw [ofOpcode_eq_fill]
  unfold immediates at h
  -- only the instruction matters from here on, not the byte it was found by
  generalize ofOpcode code {} = i at h ⊢
  cases i with
  | block type endAt | loop type endAt | cond type elseAt endAt =>
    simp only [reads_bind, reads_pure, blockType_recognizes _ _ _] at h
    obtain ⟨t, _, ⟨a, rfl, ht⟩, rfl, rfl⟩ := h
    exact ⟨a, rfl, ht⟩
  | br n | brIf n | call n | localGet n | localSet n | localTee n | globalGet n | globalSet n =>
    simp only [reads_bind, reads_within, reads_pure, u32_recognizes _ _ _] at h
    obtain ⟨n, _, ⟨a, rfl, hn⟩, rfl, rfl⟩ := h
    exact ⟨a, rfl, hn⟩
  | brTable targets fallback =>
    simp only [branchTable, repeated, reads_bind, reads_within, reads_fits, reads_pure,
      u32_recognizes _ _ _, repeated_recognizes fun _ => u32_recognizes.within] at h
    obtain ⟨n, _, ⟨a, rfl, hn⟩, _, _, ⟨-, rfl⟩, targets, _, ⟨hlen, b, rfl, hb⟩, k, _, ⟨c, rfl, hc⟩,
      rfl, rfl⟩ := h
    refine ⟨a ++ (b ++ c), by simp, .intro ?_ (.intro hb hc)⟩
    rwa [← hlen] at hn
  | callIndirect n =>
    simp only [reads_bind, reads_within, reads_reservedZero, reads_pure, u32_recognizes _ _ _] at h
    obtain ⟨n, _, ⟨a, rfl, hn⟩, _, _, rfl, rfl, rfl⟩ := h
    exact ⟨a ++ [0], by simp, .intro hn rfl⟩
  | memorySize | memoryGrow =>
    simp only [reads_bind, reads_reservedZero, reads_pure] at h
    obtain ⟨_, _, rfl, rfl, rfl⟩ := h
    exact ⟨[0], rfl, rfl⟩
  | load op align offset | store op align offset =>
    simp only [accessImmediates, reads_bind, reads_within, reads_pure, u32_recognizes _ _ _] at h
    obtain ⟨align, _, ⟨a, rfl, ha⟩, offset, _, ⟨b, rfl, hb⟩, rfl, rfl⟩ := h
    exact ⟨a ++ b, by simp, .intro ha hb⟩
  | const type payload =>
    cases type with
    | i32 =>
      have hsigned : Recognizes (signed 32) (IsSigned 32) := signed_recognizes (by decide)
      simp only [reads_bind, reads_within, reads_pure, hsigned _ _ _] at h
      obtain ⟨v, _, ⟨a, rfl, hv⟩, rfl, rfl⟩ := h
      exact ⟨a, rfl, v, hv, toBitVec_payload v⟩
    | i64 =>
      have hsigned : Recognizes (signed 64) (IsSigned 64) := signed_recognizes (by decide)
      simp only [reads_bind, reads_within, reads_pure, hsigned _ _ _] at h
      obtain ⟨v, _, ⟨a, rfl, hv⟩, rfl, rfl⟩ := h
      exact ⟨a, rfl, v, hv, toBitVec_payload v⟩
    | f32 =>
      simp only [reads_bind, reads_within, reads_exactly, reads_pure] at h
      obtain ⟨a, _, ⟨hlen, rfl⟩, rfl, rfl⟩ := h
      have hlt := ofLittleEndian_lt a
      rw [hlen] at hlt
      exact ⟨a, rfl, hlen, UInt64.toNat_ofNat_of_lt' (Nat.lt_of_lt_of_le hlt (by decide))⟩
    | f64 =>
      simp only [reads_bind, reads_within, reads_exactly, reads_pure] at h
      obtain ⟨a, _, ⟨hlen, rfl⟩, rfl, rfl⟩ := h
      have hlt := ofLittleEndian_lt a
      rw [hlen] at hlt
      exact ⟨a, rfl, hlen, UInt64.toNat_ofNat_of_lt' (Nat.lt_of_lt_of_le hlt (by decide))⟩
  | undefined code => exact absurd h not_reads_fail
  | _ =>
    obtain ⟨rfl, rfl⟩ := reads_pure.1 h
    exact ⟨[], rfl, rfl⟩

/-- A payload is known by its bits. -/
theorem eq_payload {payload : UInt64} {v : Int} (h : payload.toBitVec = .ofInt 64 v) :
    payload = (BitVec.ofInt 64 v).toNat.toUInt64 :=
  UInt64.toBitVec_inj.1 (h.trans (toBitVec_payload v).symm)

theorem HasImmediates.encodable {i : Instruction} (h : HasImmediates i bytes) : i.Encodable := by
  cases i with
  | block type endAt | loop type endAt | cond type elseAt endAt => exact h.1
  | const type payload =>
    cases type with
    | i32 =>
      obtain ⟨v, hv, hpayload⟩ := h
      obtain rfl := eq_payload hpayload
      have hint := toInt_ofInt_of_inRange (by decide) (hv.inRange (by decide))
      change UInt64.toBitVec _ = (UInt64.toUInt32 _).toBitVec.signExtend 64
      rw [toUInt32_payload, toBitVec_payload, BitVec.signExtend, hint]
    | f32 =>
      obtain ⟨hlen, hpayload⟩ := h
      have hlt := ofLittleEndian_lt bytes
      rw [hlen, ← hpayload] at hlt
      exact hlt
    | i64 | f64 => trivial
  | undefined code => exact h
  | _ => trivial

/-- What encodes the immediates of an instruction is read as such. -/
theorem reads_immediates {i : Instruction} (h : HasImmediates i bytes) (rest : List UInt8) :
    ∃ imm, Reads (immediates i.opcode) (bytes ++ rest) imm rest ∧
      ofOpcode i.opcode imm = i.unplaced := by
  have hi := h.encodable
  simp only [ofOpcode_opcode hi]
  unfold immediates
  rw [ofOpcode_opcode hi]
  cases i with
  | block type endAt | loop type endAt | cond type elseAt endAt =>
    refine ⟨{ type := type }, ?_, rfl⟩
    exact ((blockType_recognizes _ _ _).2 ⟨bytes, rfl, h⟩).bind (reads_pure.2 ⟨rfl, rfl⟩)
  | br n | brIf n | call n | localGet n | localSet n | localTee n | globalGet n | globalSet n =>
    refine ⟨{ index := n }, ?_, rfl⟩
    exact ((u32_recognizes.within _ _ _).2 ⟨bytes, rfl, h⟩).bind (reads_pure.2 ⟨rfl, rfl⟩)
  | brTable targets fallback =>
    refine ⟨{ targets := targets, index := fallback }, ?_, rfl⟩
    obtain ⟨a, _, rfl, ha, b, c, rfl, hb, hc⟩ := h
    have hcount : (UInt32.ofNat targets.length).toNat = targets.length :=
      UInt32.toNat_ofNat_of_lt' ha.lt
    -- every label takes a byte, so the number of labels does not exceed that of the bytes
    have hlen : targets.length ≤ b.length := hb.length_le fun _ _ => IsUnsigned.ne_nil
    refine ((u32_recognizes.within _ _ _).2 ⟨a, List.append_assoc .., hcount.symm ▸ ha⟩).bind ?_
    refine Reads.bind (x := ()) (reads_fits.2 ⟨?_, rfl⟩) ?_
    · rw [hcount, List.append_assoc, List.length_append]
      omega
    refine ((repeated_recognizes fun _ => u32_recognizes.within).2
      ⟨hcount.symm, b, List.append_assoc .., hb⟩).bind ?_
    exact ((u32_recognizes.within _ _ _).2 ⟨c, rfl, hc⟩).bind (reads_pure.2 ⟨rfl, rfl⟩)
  | callIndirect n =>
    refine ⟨{ index := n }, ?_, rfl⟩
    obtain ⟨a, _, rfl, ha, rfl⟩ := h
    refine ((u32_recognizes.within _ _ _).2 ⟨a, List.append_assoc .., ha⟩).bind ?_
    exact Reads.bind (x := ()) (reads_reservedZero.2 rfl) (reads_pure.2 ⟨rfl, rfl⟩)
  | memorySize | memoryGrow =>
    obtain rfl : bytes = [0] := h
    exact ⟨{}, Reads.bind (x := ()) (reads_reservedZero.2 rfl) (reads_pure.2 ⟨rfl, rfl⟩), rfl⟩
  | load op align offset | store op align offset =>
    refine ⟨{ align := align, offset := offset }, ?_, rfl⟩
    obtain ⟨a, b, rfl, ha, hb⟩ := h
    refine ((u32_recognizes.within _ _ _).2 ⟨a, List.append_assoc .., ha⟩).bind ?_
    exact ((u32_recognizes.within _ _ _).2 ⟨b, rfl, hb⟩).bind (reads_pure.2 ⟨rfl, rfl⟩)
  | const type payload =>
    refine ⟨{ payload := payload }, ?_, rfl⟩
    cases type with
    | i32 =>
      obtain ⟨v, hv, hpayload⟩ := h
      obtain rfl := eq_payload hpayload
      have hr := (signed_recognizes (by decide) _ v rest).2 ⟨bytes, rfl, hv⟩
      exact (reads_within.2 hr).bind (reads_pure.2 ⟨rfl, rfl⟩)
    | i64 =>
      obtain ⟨v, hv, hpayload⟩ := h
      obtain rfl := eq_payload hpayload
      have hr := (signed_recognizes (by decide) _ v rest).2 ⟨bytes, rfl, hv⟩
      exact (reads_within.2 hr).bind (reads_pure.2 ⟨rfl, rfl⟩)
    | f32 | f64 =>
      obtain ⟨hlen, hpayload⟩ := h
      refine (reads_within.2 (reads_exactly.2 ⟨hlen, rfl⟩)).bind ?_
      rw [← hpayload]
      simp
  | undefined code => exact hi.elim
  | _ =>
    obtain rfl : bytes = [] := h
    exact ⟨{}, reads_pure.2 ⟨rfl, rfl⟩, rfl⟩

/-! ### The shortest encoding -/

theorem isUnsigned_encodeU32 (n : UInt32) : IsUnsigned 32 n.toNat (encodeU32 n) :=
  isUnsigned_encodeUnsigned (by decide) n.toNat_lt

theorem encodeImmediates_block {type : ValueType} (h : type.IsBlockType) (endAt : Int) :
    encodeImmediates (.block type endAt) = [type.code] := by
  have : type ≠ .other 0 := by
    rintro rfl
    simp [ValueType.IsBlockType, ValueType.isNumeric] at h
  show [if type = .other 0 then ValueType.empty.code else type.code] = [type.code]
  rw [if_neg this]

theorem encodeImmediates_brTable (targets : List UInt32) (fallback : UInt32) :
    encodeImmediates (.brTable targets fallback) =
      encodeCount targets.length ++ ((targets.map encodeU32).flatten ++ encodeU32 fallback) := by
  show encodeVector (targets.map encodeU32) ++ encodeU32 fallback = _
  rw [encodeVector, List.length_map, List.append_assoc]

theorem isBranchTable_encode {targets : List UInt32} {fallback : UInt32}
    (h : targets.length < 2 ^ 32) :
    IsBranchTable targets fallback
      (encodeCount targets.length ++ ((targets.map encodeU32).flatten ++ encodeU32 fallback)) := by
  refine .intro ?_ (.intro (.of_encode fun n _ => isUnsigned_encodeU32 n)
    (isUnsigned_encodeU32 fallback))
  have hcount := isUnsigned_encodeU32 (.ofNat targets.length)
  rwa [UInt32.toNat_ofNat_of_lt' h] at hcount

/-- The encoder writes the immediates as the grammar has them. -/
theorem hasImmediates_encodeImmediates {i : Instruction} (hi : i.Encodable)
    (hlen : (encodeImmediates i).length < 2 ^ 32) : HasImmediates i (encodeImmediates i) := by
  cases i with
  | block type endAt | loop type endAt | cond type elseAt endAt =>
    exact ⟨hi, encodeImmediates_block hi 0⟩
  | br n | brIf n | call n | localGet n | localSet n | localTee n | globalGet n | globalSet n =>
    exact isUnsigned_encodeU32 n
  | brTable targets fallback =>
    rw [encodeImmediates_brTable, List.length_append, List.length_append] at hlen
    have hcount := length_le_length_flatten fun n (_ : n ∈ targets) => length_encodeU32_pos n
    rw [encodeImmediates_brTable]
    exact isBranchTable_encode (by omega)
  | callIndirect n => exact .intro (isUnsigned_encodeU32 n) rfl
  | load op align offset | store op align offset =>
    exact .intro (isUnsigned_encodeU32 align) (isUnsigned_encodeU32 offset)
  | const type payload =>
    cases type with
    | i32 =>
      exact ⟨_, isSigned_encodeSigned (by decide) (inRange_toInt _), hi⟩
    | i64 =>
      exact ⟨_, isSigned_encodeSigned (by decide) (inRange_toInt _), (BitVec.ofInt_toInt ..).symm⟩
    | f32 =>
      refine ⟨length_littleEndian 4 _, ?_⟩
      exact (ofLittleEndian_littleEndian 4 _).trans (Nat.mod_eq_of_lt hi) |>.symm
    | f64 =>
      refine ⟨length_littleEndian 8 _, ?_⟩
      exact (ofLittleEndian_littleEndian 8 _).trans (Nat.mod_eq_of_lt payload.toNat_lt) |>.symm
  | undefined code => exact hi.elim
  | _ => rfl

/-- The encoder needs no more bytes for the immediates than any encoding of them. -/
theorem HasImmediates.length_le {i : Instruction} (h : HasImmediates i bytes) :
    (encodeImmediates i).length ≤ bytes.length := by
  cases i with
  | block type endAt | loop type endAt | cond type elseAt endAt =>
    obtain ⟨ht, rfl⟩ := h
    exact Nat.le_of_eq (congrArg List.length (encodeImmediates_block ht 0))
  | br n | brIf n | call n | localGet n | localSet n | localTee n | globalGet n | globalSet n =>
    exact IsUnsigned.length_le h
  | brTable targets fallback =>
    obtain ⟨a, _, rfl, ha, b, c, rfl, hb, hc⟩ := h
    have hcount : (encodeCount targets.length).length ≤ a.length := by
      rw [encodeCount, encodeU32, UInt32.toNat_ofNat_of_lt' ha.lt]
      exact ha.length_le
    have hlabels : (targets.map encodeU32).flatten.length ≤ b.length :=
      hb.length_flatten_le fun _ _ => IsUnsigned.length_le
    have hlast : (encodeU32 fallback).length ≤ c.length := hc.length_le
    rw [encodeImmediates_brTable]
    simp only [List.length_append]
    omega
  | callIndirect n =>
    obtain ⟨a, _, rfl, ha, rfl⟩ := h
    have hindex : (encodeU32 n).length ≤ a.length := ha.length_le
    change (encodeU32 n ++ [0]).length ≤ _
    simpa using hindex
  | load op align offset | store op align offset =>
    obtain ⟨a, b, rfl, ha, hb⟩ := h
    have halign : (encodeU32 align).length ≤ a.length := ha.length_le
    have hoffset : (encodeU32 offset).length ≤ b.length := hb.length_le
    change (encodeU32 align ++ encodeU32 offset).length ≤ _
    simp only [List.length_append]
    omega
  | const type payload =>
    cases type with
    | i32 =>
      obtain ⟨v, hv, hpayload⟩ := h
      obtain rfl := eq_payload hpayload
      change (encodeSigned (UInt64.toUInt32 _).toBitVec.toInt).length ≤ _
      rw [toUInt32_payload, toInt_ofInt_of_inRange (by decide) (hv.inRange (by decide))]
      exact hv.length_le (by decide)
    | i64 =>
      obtain ⟨v, hv, hpayload⟩ := h
      change (encodeSigned payload.toBitVec.toInt).length ≤ _
      rw [hpayload, toInt_ofInt_of_inRange (by decide) (hv.inRange (by decide))]
      exact hv.length_le (by decide)
    | f32 =>
      rw [h.1]
      exact Nat.le_of_eq (length_littleEndian 4 _)
    | f64 =>
      rw [h.1]
      exact Nat.le_of_eq (length_littleEndian 8 _)
  | memorySize | memoryGrow =>
    obtain rfl : bytes = [0] := h
    exact Nat.le_refl 1
  | undefined code => exact h.elim
  | _ => exact Nat.zero_le _

theorem isEncoding_encodeInstruction {i : Instruction} (hi : i.Encodable)
    (hlen : (encodeInstruction i).length < 2 ^ 32) : IsEncoding i (encodeInstruction i) :=
  ⟨_, rfl, hasImmediates_encodeImmediates hi (Nat.lt_of_succ_lt hlen)⟩

theorem IsEncoding.length_le {i : Instruction} (h : IsEncoding i bytes) :
    (encodeInstruction i).length ≤ bytes.length := by
  obtain ⟨imm, rfl, himm⟩ := h
  exact Nat.succ_le_succ himm.length_le

theorem IsEncoding.encodable {i : Instruction} (h : IsEncoding i bytes) : i.Encodable := by
  obtain ⟨imm, -, himm⟩ := h
  exact himm.encodable

end Binary

end WasmCore
