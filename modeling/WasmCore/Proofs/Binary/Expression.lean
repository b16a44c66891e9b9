import WasmCore.Proofs.Binary.Instruction

/-!
# Expressions: decoding undoes encoding

The decoder reads structured code from exactly those bytes that encode its instructions one after
the other, and then the instruction that closes it (`reads_structured`, `of_reads_structured`). Both
are by following `structured`: the positions at which it reads are those of the layout.

`WellNested` code is the flat sequence of structured code that the format can express: every `else`
and `end` belongs to a construct, and every construct holds the positions of its own. These are the
expressions that can be decoded from their encoding (`expression_restores`), and there are no others
that the decoder returns (`expression_compacts`).
-/

namespace WasmCore

/-- The instruction divides or closes a construct. -/
def Instruction.isDelimiter : Instruction → Bool
  | .otherwise | .close => true
  | _ => false

/-- The format can express the code: the types of its constructs and the instructions between
them. -/
def Structured.Encodable (s : Structured) : Prop :=
  s.Forall (fun i => i.isStructural = false ∧ i.Encodable) ValueType.IsBlockType

theorem Structured.Encodable.proper {s : Structured} (h : s.Encodable) : s.Proper :=
  h.imp (fun _ hi => hi.1) fun _ _ => trivial

/-- Structured code can be expressed if the instructions of its layout can. -/
theorem Structured.encodable_iff {s : Structured} (p : Nat) :
    s.Encodable ↔ s.Proper ∧ ∀ i ∈ s.layout p, i.Encodable := by
  induction s generalizing p with
  | done => simp [Encodable, Proper, Forall, layout]
  | plain i rest ih =>
    have hr := ih (p + 1)
    simp only [Encodable, Proper, Forall, layout, List.forall_mem_cons] at hr ⊢
    grind
  | block t body rest ihb ihr =>
    have hb := ihb (p + 1)
    have hr := ihr (p + 1 + body.size + 1)
    simp only [Encodable, Proper, Forall, layout, List.forall_mem_cons, List.forall_mem_append,
      Instruction.Encodable] at hb hr ⊢
    grind
  | loop t body rest ihb ihr =>
    have hb := ihb (p + 1)
    have hr := ihr (p + 1 + body.size + 1)
    simp only [Encodable, Proper, Forall, layout, List.forall_mem_cons, List.forall_mem_append,
      Instruction.Encodable] at hb hr ⊢
    grind
  | cond t arm rest iha ihr =>
    have ha := iha (p + 1)
    have hr := ihr (p + 1 + arm.size + 1)
    simp only [Encodable, Proper, Forall, layout, List.forall_mem_cons, List.forall_mem_append,
      Instruction.Encodable] at ha hr ⊢
    grind
  | condElse t arm other rest iha iho ihr =>
    have ha := iha (p + 1)
    have ho := iho (p + 1 + arm.size + 1)
    have hr := ihr (p + 1 + arm.size + 1 + other.size + 1)
    simp only [Encodable, Proper, Forall, layout, List.forall_mem_cons, List.forall_mem_append,
      Instruction.Encodable] at ha ho hr ⊢
    grind

/-- The flat sequence of structured code that the format can express. -/
def WellNested (code : Array Instruction) : Prop := ∃ s : Structured, s.Encodable ∧ s.flatten = code

namespace Binary

open Decoder

/-- The instruction that closes a sequence. -/
def Closer.instruction : Closer → Instruction
  | .byEnd => .close
  | .byElse => .otherwise

/-- The byte that closes a sequence. -/
def Closer.opcode (closer : Closer) : UInt8 := closer.instruction.opcode

/-- The bytes encode the instructions one after the other. -/
abbrev Encodes : List Instruction → List UInt8 → Prop := InRow IsEncoding

theorem isEncoding_closer (closer : Closer) {bytes : List UInt8} :
    IsEncoding closer.instruction bytes ↔ bytes = [closer.opcode] := by
  have himm : ∀ imm, HasImmediates closer.instruction imm ↔ imm = [] := by
    intro imm
    cases closer <;> exact Iff.rfl
  constructor
  · rintro ⟨imm, rfl, h⟩
    rw [(himm imm).1 h]
    rfl
  · rintro rfl
    exact ⟨[], rfl, (himm []).2 rfl⟩

theorem encodes_closer (closer : Closer) {xs ys : List Instruction} {bytes : List UInt8} :
    Encodes (xs ++ closer.instruction :: ys) bytes ↔
      ∃ a b, bytes = a ++ closer.opcode :: b ∧ Encodes xs a ∧ Encodes ys b := by
  constructor
  · intro h
    obtain ⟨a, _, rfl, ha, c, b, rfl, hc, hb⟩ := h.append_inv
    obtain rfl := (isEncoding_closer closer).1 hc
    exact ⟨a, b, rfl, ha, hb⟩
  · rintro ⟨a, b, rfl, ha, hb⟩
    exact ha.append (.cons ((isEncoding_closer closer).2 rfl) hb)

theorem encodes_construct {i : Instruction} {xs ys : List Instruction} {bytes : List UInt8} :
    Encodes (i :: (xs ++ .close :: ys)) bytes ↔
      ∃ a b c, bytes = a ++ (b ++ Closer.byEnd.opcode :: c) ∧ IsEncoding i a ∧ Encodes xs b ∧
        Encodes ys c := by
  constructor
  · rintro ⟨a, _, rfl, ha, h⟩
    obtain ⟨b, c, rfl, hb, hc⟩ := (encodes_closer .byEnd).1 h
    exact ⟨a, b, c, rfl, ha, hb, hc⟩
  · rintro ⟨a, b, c, rfl, ha, hb, hc⟩
    exact .cons ha ((encodes_closer .byEnd).2 ⟨b, c, rfl, hb, hc⟩)

theorem encodes_twoArms {i : Instruction} {xs ys zs : List Instruction} {bytes : List UInt8} :
    Encodes (i :: (xs ++ .otherwise :: (ys ++ .close :: zs))) bytes ↔
      ∃ a b c d, bytes = a ++ (b ++ Closer.byElse.opcode :: (c ++ Closer.byEnd.opcode :: d)) ∧
        IsEncoding i a ∧ Encodes xs b ∧ Encodes ys c ∧ Encodes zs d := by
  constructor
  · rintro ⟨a, _, rfl, ha, h⟩
    obtain ⟨b, _, rfl, hb, h⟩ := (encodes_closer .byElse).1 h
    obtain ⟨c, d, rfl, hc, hd⟩ := (encodes_closer .byEnd).1 h
    exact ⟨a, b, c, d, rfl, ha, hb, hc, hd⟩
  · rintro ⟨a, b, c, d, rfl, ha, hb, hc, hd⟩
    exact .cons ha ((encodes_closer .byElse).2
      ⟨b, _, rfl, hb, (encodes_closer .byEnd).2 ⟨c, d, rfl, hc, hd⟩⟩)

theorem encodeExpression_flatten (s : Structured) :
    encodeExpression s.flatten =
      ((s.layout 0).map encodeInstruction).flatten ++ [Closer.byEnd.opcode] := by
  rw [encodeExpression, Structured.toList_flatten]
  rfl

/-! ### One step of the decoder -/

/-- What is read after an instruction that is no `else` or `end`. -/
def afterInstruction (fuel position : Nat) (inArm : Bool) : Instruction → Decoder ClosedCode
  | .block type _ => do
    let body ← structured fuel (position + 1) false
    let rest ← structured fuel (body.position + 1) inArm
    pure { rest with code := .block type body.code rest.code }
  | .loop type _ => do
    let body ← structured fuel (position + 1) false
    let rest ← structured fuel (body.position + 1) inArm
    pure { rest with code := .loop type body.code rest.code }
  | .cond type _ _ => do
    let arm ← structured fuel (position + 1) true
    match arm.closer with
    | .byEnd => do
      let rest ← structured fuel (arm.position + 1) inArm
      pure { rest with code := .cond type arm.code rest.code }
    | .byElse => do
      let other ← structured fuel (arm.position + 1) false
      let rest ← structured fuel (other.position + 1) inArm
      pure { rest with code := .condElse type arm.code other.code rest.code }
  | i => do
    let rest ← structured fuel (position + 1) inArm
    pure { rest with code := .plain i rest.code }

theorem structured_succ (fuel p : Nat) (inArm : Bool) :
    structured (fuel + 1) p inArm = (do
      let code ← within .opcode byte
      match Instruction.ofOpcode code {} with
      | .close => pure ⟨.done, .byEnd, p⟩
      | .otherwise =>
        if inArm then pure ⟨.done, .byElse, p⟩ else fail (.flaw (.elseWithoutIf p))
      | _ => do
        let imm ← within (.instruction code p) (immediates code)
        afterInstruction fuel p inArm (Instruction.ofOpcode code imm)) :=
  rfl

section

variable {fuel p : Nat} {inArm : Bool} {bytes mid mid' rest : List UInt8} {r : ClosedCode}

theorem reads_closer {closer : Closer} (h : closer = .byElse → inArm = true) :
    Reads (structured (fuel + 1) p inArm) (closer.opcode :: rest) ⟨.done, closer, p⟩ rest := by
  rw [structured_succ]
  refine (reads_within.2 (reads_byte.2 rfl)).bind ?_
  cases closer with
  | byEnd => exact reads_pure.2 ⟨rfl, rfl⟩
  | byElse =>
    cases h rfl
    exact reads_pure.2 ⟨rfl, rfl⟩

theorem reads_encoding {i : Instruction} (h : IsEncoding i bytes) (hd : i.isDelimiter = false)
    (hnext : Reads (afterInstruction fuel p inArm i.unplaced) mid r rest) :
    Reads (structured (fuel + 1) p inArm) (bytes ++ mid) r rest := by
  obtain ⟨a, rfl, ha⟩ := h
  obtain ⟨imm, hr, heq⟩ := reads_immediates ha mid
  rw [structured_succ]
  refine (reads_within.2 (reads_byte.2 rfl)).bind ?_
  rw [Instruction.ofOpcode_opcode ha.encodable]
  have himm : Reads (do
      let imm ← within (.instruction i.opcode p) (immediates i.opcode)
      afterInstruction fuel p inArm (Instruction.ofOpcode i.opcode imm))
      (a ++ mid) r rest := (reads_within.2 hr).bind (by rwa [heq])
  cases i with
  | otherwise | close => cases hd
  | _ => exact himm

theorem afterInstruction_plain {i : Instruction} (h : i.isStructural = false) :
    afterInstruction fuel p inArm i = (do
      let rest ← structured fuel (p + 1) inArm
      pure { rest with code := .plain i rest.code }) := by
  cases i with
  | block | loop | cond | otherwise | close => cases h
  | _ => rfl

theorem isDelimiter_of_plain {i : Instruction} (h : i.isStructural = false) :
    i.isDelimiter = false := by
  cases i with
  | otherwise | close => cases h
  | _ => rfl

variable {type : ValueType} {body arm other s : Structured} {q q' : Nat} {closer : Closer}

theorem reads_block {endAt : Int} (h : IsEncoding (.block type endAt) bytes)
    (hb : Reads (structured fuel (p + 1) false) mid ⟨body, .byEnd, q⟩ mid')
    (hs : Reads (structured fuel (q + 1) inArm) mid' ⟨s, closer, q'⟩ rest) :
    Reads (structured (fuel + 1) p inArm) (bytes ++ mid) ⟨.block type body s, closer, q'⟩ rest :=
  reads_encoding h rfl (hb.bind (hs.bind (reads_pure.2 ⟨rfl, rfl⟩)))

theorem reads_loop {endAt : Int} (h : IsEncoding (.loop type endAt) bytes)
    (hb : Reads (structured fuel (p + 1) false) mid ⟨body, .byEnd, q⟩ mid')
    (hs : Reads (structured fuel (q + 1) inArm) mid' ⟨s, closer, q'⟩ rest) :
    Reads (structured (fuel + 1) p inArm) (bytes ++ mid) ⟨.loop type body s, closer, q'⟩ rest :=
  reads_encoding h rfl (hb.bind (hs.bind (reads_pure.2 ⟨rfl, rfl⟩)))

theorem reads_cond {elseAt : Option Int} {endAt : Int}
    (h : IsEncoding (.cond type elseAt endAt) bytes)
    (ha : Reads (structured fuel (p + 1) true) mid ⟨arm, .byEnd, q⟩ mid')
    (hs : Reads (structured fuel (q + 1) inArm) mid' ⟨s, closer, q'⟩ rest) :
    Reads (structured (fuel + 1) p inArm) (bytes ++ mid) ⟨.cond type arm s, closer, q'⟩ rest :=
  reads_encoding h rfl (ha.bind (hs.bind (reads_pure.2 ⟨rfl, rfl⟩)))

theorem reads_condElse {q₁ : Nat} {mid₁ : List UInt8} {elseAt : Option Int} {endAt : Int}
    (h : IsEncoding (.cond type elseAt endAt) bytes)
    (ha : Reads (structured fuel (p + 1) true) mid ⟨arm, .byElse, q₁⟩ mid₁)
    (ho : Reads (structured fuel (q₁ + 1) false) mid₁ ⟨other, .byEnd, q⟩ mid')
    (hs : Reads (structured fuel (q + 1) inArm) mid' ⟨s, closer, q'⟩ rest) :
    Reads (structured (fuel + 1) p inArm) (bytes ++ mid) ⟨.condElse type arm other s, closer, q'⟩
      rest :=
  reads_encoding h rfl (ha.bind (ho.bind (hs.bind (reads_pure.2 ⟨rfl, rfl⟩))))

/-- Whatever is read starts with a closer or with the encoding of an instruction. -/
theorem structured_cases (h : Reads (structured (fuel + 1) p inArm) bytes r rest) :
    (∃ closer, r = ⟨.done, closer, p⟩ ∧ (closer = .byElse → inArm = true) ∧
      bytes = closer.opcode :: rest) ∨
    ∃ i a mid, bytes = a ++ mid ∧ IsEncoding i a ∧ i.isDelimiter = false ∧
      Reads (afterInstruction fuel p inArm i) mid r rest := by
  simp only [structured_succ, reads_bind, reads_within, reads_byte] at h
  obtain ⟨code, mid, rfl, h⟩ := h
  have hcode := Instruction.opcode_ofOpcode code {}
  split at h
  · rename_i hclose
    obtain ⟨rfl, rfl⟩ := reads_pure.1 h
    rw [hclose] at hcode
    exact .inl ⟨.byEnd, rfl, by simp, hcode ▸ rfl⟩
  · rename_i helse
    rw [helse] at hcode
    split at h
    · rename_i harm
      obtain ⟨rfl, rfl⟩ := reads_pure.1 h
      exact .inl ⟨.byElse, rfl, fun _ => harm, hcode ▸ rfl⟩
    · exact absurd h not_reads_fail
  · rename_i hclose helse
    simp only [reads_bind, reads_within] at h
    obtain ⟨imm, mid', himm, h⟩ := h
    obtain ⟨a, rfl, ha⟩ := of_reads_immediates himm
    refine .inr ⟨_, code :: a, mid', rfl, ⟨a, ?_, ha⟩, ?_, h⟩
    · rw [Instruction.opcode_ofOpcode]
    · rw [Instruction.ofOpcode_eq_fill]
      cases hi : Instruction.ofOpcode code {} with
      | otherwise => exact absurd hi helse
      | close => exact absurd hi hclose
      | _ => rfl

end

/-! ### Expressions -/

/-- **Structured code is read from every encoding of its layout.** -/
theorem reads_structured {s : Structured} (hs : s.Proper) {fuel p : Nat} {inArm : Bool}
    {closer : Closer} {bytes : List UInt8} (h : Encodes (s.layout p) bytes) (hfuel : s.size < fuel)
    (hcl : closer = .byElse → inArm = true) (rest : List UInt8) :
    Reads (structured fuel p inArm) (bytes ++ closer.opcode :: rest)
      ⟨s, closer, p + s.size⟩ rest := by
  -- each instruction takes one unit of the fuel, so code of size `n` needs more than `n`
  induction s generalizing fuel p inArm closer bytes rest with
  | done =>
    obtain ⟨fuel, rfl⟩ := Nat.exists_eq_add_of_lt hfuel
    obtain rfl : bytes = [] := h
    exact reads_closer hcl
  | plain i s ih =>
    obtain ⟨fuel, rfl⟩ := Nat.exists_eq_add_of_lt hfuel
    obtain ⟨hplain, hs⟩ := hs
    obtain ⟨a, b, rfl, ha, hb⟩ := h
    have hsize := Structured.add_size_plain i s p
    rw [List.append_assoc, hsize]
    refine reads_encoding ha (isDelimiter_of_plain hplain) ?_
    rw [Instruction.unplaced_of_plain hplain, afterInstruction_plain hplain]
    exact (ih hs hb (by omega) hcl rest).bind (reads_pure.2 ⟨rfl, rfl⟩)
  | block type body s ihb ihs =>
    obtain ⟨fuel, rfl⟩ := Nat.exists_eq_add_of_lt hfuel
    obtain ⟨-, hpb, hps⟩ := hs
    obtain ⟨a, b, c, rfl, ha, hb, hc⟩ := encodes_construct.1 h
    have hsize := Structured.add_size_block type body s p
    simp only [List.append_assoc, List.cons_append, hsize]
    exact reads_block ha (ihb hpb hb (by omega) (by simp) _) (ihs hps hc (by omega) hcl rest)
  | loop type body s ihb ihs =>
    obtain ⟨fuel, rfl⟩ := Nat.exists_eq_add_of_lt hfuel
    obtain ⟨-, hpb, hps⟩ := hs
    obtain ⟨a, b, c, rfl, ha, hb, hc⟩ := encodes_construct.1 h
    have hsize := Structured.add_size_loop type body s p
    simp only [List.append_assoc, List.cons_append, hsize]
    exact reads_loop ha (ihb hpb hb (by omega) (by simp) _) (ihs hps hc (by omega) hcl rest)
  | cond type arm s iha ihs =>
    obtain ⟨fuel, rfl⟩ := Nat.exists_eq_add_of_lt hfuel
    obtain ⟨-, hpa, hps⟩ := hs
    obtain ⟨a, b, c, rfl, ha, hb, hc⟩ := encodes_construct.1 h
    have hsize := Structured.add_size_cond type arm s p
    simp only [List.append_assoc, List.cons_append, hsize]
    exact reads_cond ha (iha hpa hb (by omega) (by simp) _) (ihs hps hc (by omega) hcl rest)
  | condElse type arm other s iha iho ihs =>
    obtain ⟨fuel, rfl⟩ := Nat.exists_eq_add_of_lt hfuel
    obtain ⟨-, hpa, hpo, hps⟩ := hs
    obtain ⟨a, b, c, d, rfl, ha, hb, hc, hd⟩ := encodes_twoArms.1 h
    have hsize := Structured.add_size_condElse type arm other s p
    simp only [List.append_assoc, List.cons_append, hsize]
    exact reads_condElse ha (iha hpa hb (by omega) (fun _ => rfl) _)
      (iho hpo hc (by omega) (by simp) _) (ihs hps hd (by omega) hcl rest)

/-- **Whatever structured code is read, the bytes encode its layout**, and then what closes it. -/
theorem of_reads_structured {fuel p : Nat} {inArm : Bool} {bytes rest : List UInt8}
    {r : ClosedCode} (h : Reads (structured fuel p inArm) bytes r rest) :
    r.code.Proper ∧ r.position = p + r.code.size ∧ (r.closer = .byElse → inArm = true) ∧
      ∃ a, bytes = a ++ r.closer.opcode :: rest ∧ Encodes (r.code.layout p) a := by
  -- by induction on the fuel, as the decoder does not recur on the code that it makes
  induction fuel generalizing p inArm bytes r rest with
  | zero => exact absurd h not_reads_fail
  | succ fuel ih =>
    obtain ⟨closer, rfl, hcl, rfl⟩ | ⟨i, a, mid, rfl, ha, hdel, hnext⟩ := structured_cases h
    · exact ⟨trivial, rfl, hcl, [], rfl, rfl⟩
    · -- what is read up to an `else` is the first arm of a conditional
      have hend : ∀ {r : ClosedCode}, (r.closer = .byElse → false = true) →
          r.closer.opcode = Closer.byEnd.opcode := by
        intro r hcl
        cases hr : r.closer with
        | byEnd => rfl
        | byElse => cases hcl hr
      cases hi : i.isStructural with
      | false =>
        rw [afterInstruction_plain hi] at hnext
        simp only [reads_bind, reads_pure] at hnext
        obtain ⟨s, _, hs, rfl, rfl⟩ := hnext
        obtain ⟨hsp, hpos, hcl, b, rfl, hb⟩ := ih hs
        refine ⟨⟨hi, hsp⟩, ?_, hcl, a ++ b, (List.append_assoc ..).symm, .cons ha hb⟩
        rw [Structured.add_size_plain]
        exact hpos
      | true =>
        cases i with
        | block type endAt =>
          simp only [afterInstruction, reads_bind, reads_pure] at hnext
          obtain ⟨b, _, hb, s, _, hs, rfl, rfl⟩ := hnext
          obtain ⟨hbp, hpos, hcl, c, rfl, hc⟩ := ih hb
          obtain ⟨hsp, hpos', hcl', d, rfl, hd⟩ := ih hs
          rw [hpos] at hpos' hd
          rw [hend hcl]
          refine ⟨⟨trivial, hbp, hsp⟩, ?_, hcl', _, ?_,
            encodes_construct.2 ⟨a, c, d, rfl, ha, hc, hd⟩⟩
          · rw [Structured.add_size_block]
            exact hpos'
          · simp only [List.append_assoc, List.cons_append]
        | loop type endAt =>
          simp only [afterInstruction, reads_bind, reads_pure] at hnext
          obtain ⟨b, _, hb, s, _, hs, rfl, rfl⟩ := hnext
          obtain ⟨hbp, hpos, hcl, c, rfl, hc⟩ := ih hb
          obtain ⟨hsp, hpos', hcl', d, rfl, hd⟩ := ih hs
          rw [hpos] at hpos' hd
          rw [hend hcl]
          refine ⟨⟨trivial, hbp, hsp⟩, ?_, hcl', _, ?_,
            encodes_construct.2 ⟨a, c, d, rfl, ha, hc, hd⟩⟩
          · rw [Structured.add_size_loop]
            exact hpos'
          · simp only [List.append_assoc, List.cons_append]
        | cond type elseAt endAt =>
          simp only [afterInstruction, reads_bind] at hnext
          obtain ⟨b, _, hb, hnext⟩ := hnext
          obtain ⟨hbp, hpos, -, c, rfl, hc⟩ := ih hb
          split at hnext
          · -- the arm was closed by `end`: there is no second one
            rename_i hcloser
            simp only [reads_bind, reads_pure] at hnext
            obtain ⟨s, _, hs, rfl, rfl⟩ := hnext
            obtain ⟨hsp, hpos', hcl', d, rfl, hd⟩ := ih hs
            rw [hpos] at hpos' hd
            rw [hcloser]
            refine ⟨⟨trivial, hbp, hsp⟩, ?_, hcl', _, ?_,
              encodes_construct.2 ⟨a, c, d, rfl, ha, hc, hd⟩⟩
            · rw [Structured.add_size_cond]
              exact hpos'
            · simp only [List.append_assoc, List.cons_append]
          · rename_i hcloser
            simp only [reads_bind, reads_pure] at hnext
            obtain ⟨o, _, ho, s, _, hs, rfl, rfl⟩ := hnext
            obtain ⟨hop, hpos', hcl, d, rfl, hd⟩ := ih ho
            obtain ⟨hsp, hpos'', hcl', f, rfl, hf⟩ := ih hs
            rw [hpos] at hpos' hd
            rw [hpos'] at hpos'' hf
            rw [hcloser, hend hcl]
            refine ⟨⟨trivial, hbp, hop, hsp⟩, ?_, hcl', _, ?_,
              encodes_twoArms.2 ⟨a, c, d, f, rfl, ha, hc, hd, hf⟩⟩
            · rw [Structured.add_size_condElse]
              exact hpos''
            · simp only [List.append_assoc, List.cons_append]
        | otherwise | close => cases hdel
        | _ => cases hi

/-- Well-nested code is read back from its encoding. -/
theorem expression_restores : Restores expression encodeExpression WellNested := by
  rintro _ rest ⟨s, hs, rfl⟩ hlen
  have hencodes : Encodes (s.layout 0) ((s.layout 0).map encodeInstruction).flatten := by
    refine .of_encode fun i hi => ?_
    have hmem := List.mem_map_of_mem (f := encodeInstruction) hi
    have hle := (List.infix_of_mem_flatten hmem).length_le
    rw [encodeExpression_flatten, List.length_append] at hlen
    exact isEncoding_encodeInstruction (((Structured.encodable_iff 0).1 hs).2 i hi) (by omega)
  have hsize := hencodes.length_le fun _ _ => IsEncoding.ne_nil
  rw [Structured.length_layout] at hsize
  rw [encodeExpression_flatten, List.append_assoc]
  refine Reads.bind (reads_remaining.2 ⟨rfl, rfl⟩) ?_
  refine (reads_structured hs.proper hencodes ?_ (by simp) rest).bind (reads_pure.2 ⟨rfl, rfl⟩)
  simp only [List.length_append, List.length_cons]
  omega

/-- Whatever expression is read is well nested. -/
theorem expression_compacts : Compacts expression encodeExpression WellNested := by
  intro bytes code rest h
  simp only [expression, reads_bind, reads_remaining, reads_pure] at h
  obtain ⟨_, _, ⟨rfl, rfl⟩, r, _, hr, rfl, rfl⟩ := h
  obtain ⟨hs, -, -, a, rfl, ha⟩ := of_reads_structured hr
  refine ⟨⟨r.code, (Structured.encodable_iff 0).2 ⟨hs, fun i hi => ?_⟩, rfl⟩, ?_⟩
  · obtain ⟨b, hb⟩ := ha.exists_of_mem hi
    exact hb.encodable
  · have hlen : ((r.code.layout 0).map encodeInstruction).flatten.length ≤ a.length :=
      ha.length_flatten_le fun _ _ => IsEncoding.length_le
    rw [encodeExpression_flatten]
    simp only [List.length_append, List.length_cons, List.length_nil]
    omega

end Binary

end WasmCore
