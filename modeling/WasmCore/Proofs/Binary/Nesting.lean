import WasmCore.Proofs.Binary.Expression
import WasmCore.Proofs.Structured.Recovery

/-!
# Which expressions are accepted

The decoder accepts exactly the bytes that start with an encoding of nested instructions and one
more `end`, and returns these instructions with the positions of their constructs
(`expression_accepts_nested`). How the constructs are matched is said by counting (`Nested`,
`Positioned`), and what the bytes are by a grammar (`Encodes`), both without reference to the
decoder; the structured code that it reads is what the two have in common.
-/

namespace WasmCore.Binary

open Decoder

/-- The bytes start with an encoding of the instructions and one more `end`. The positions that the
constructs hold do not matter. -/
def Spells (bytes : List UInt8) (code : Array Instruction) (rest : List UInt8) : Prop :=
  ∃ encoding, Encodes code.toList encoding ∧ bytes = encoding ++ Instruction.close.opcode :: rest

variable {bytes rest : List UInt8} {code : Array Instruction}

/-- Positions are not written. -/
theorem encodes_map_unplaced {xs : List Instruction} :
    Encodes (xs.map Instruction.unplaced) bytes ↔ Encodes xs bytes := by
  have hitem : (fun i : Instruction => IsEncoding i.unplaced) = IsEncoding :=
    funext fun _ => funext fun _ => propext isEncoding_unplaced
  rw [Encodes, InRow.map, hitem]

theorem exists_structured_of_reads (h : Reads expression bytes code rest) :
    Spells bytes code rest ∧ ∃ s : Structured, s.Proper ∧ s.flatten = code := by
  simp only [expression, reads_bind, reads_remaining, reads_pure] at h
  obtain ⟨_, _, ⟨rfl, rfl⟩, r, _, hr, rfl, rfl⟩ := h
  obtain ⟨hs, -, hcl, a, rfl, ha⟩ := of_reads_structured hr
  refine ⟨⟨a, ?_, ?_⟩, r.code, hs, rfl⟩
  · rwa [Structured.toList_flatten]
  · cases hc : r.closer with
    | byEnd => rfl
    | byElse => cases hcl hc

theorem reads_of_spells {s : Structured} (hs : s.Proper)
    (hcode : s.flatten.map Instruction.unplaced = code.map Instruction.unplaced)
    (h : Spells bytes code rest) : Reads expression bytes s.flatten rest := by
  obtain ⟨a, ha, rfl⟩ := h
  have hlayout : Encodes (s.layout 0) a := by
    rw [← encodes_map_unplaced, ← Array.toList_map, ← hcode, Array.toList_map,
      encodes_map_unplaced, Structured.toList_flatten] at ha
    exact ha
  have hsize := hlayout.length_le fun _ _ => IsEncoding.ne_nil
  rw [Structured.length_layout] at hsize
  have hread : ∀ {fuel}, s.size < fuel → Reads (structured fuel 0 false)
      (a ++ Closer.byEnd.opcode :: rest) ⟨s, .byEnd, 0 + s.size⟩ rest :=
    fun hfuel => reads_structured hs hlayout hfuel (by simp) rest
  refine Reads.bind (reads_remaining.2 ⟨rfl, rfl⟩) ((hread ?_).bind (reads_pure.2 ⟨rfl, rfl⟩))
  simp only [List.length_append, List.length_cons]
  omega

/-- **Exactly the nested expressions are accepted, and their constructs resolved.** The decoder
succeeds on the bytes if and only if they start with an encoding of nested instructions and one more
`end`. It then takes just that, and no other, and returns the instructions without that `end`, in
which each block, loop and conditional holds the positions of its own `end` and, if it has one, of
its own `else`. -/
theorem expression_accepts_nested (bytes : List UInt8) :
    ((∃ code rest, Reads expression bytes code rest) ↔
      ∃ code rest, Nested code ∧ Spells bytes code rest) ∧
    ∀ code rest, Nested code → Spells bytes code rest → ∃ code',
      (∀ read rest', Reads expression bytes read rest' ↔ read = code' ∧ rest' = rest) ∧
      code'.map Instruction.unplaced = code.map Instruction.unplaced ∧
      ∀ p i, code'[p]? = some i → Positioned code' p i := by
  have haccept : ∀ {code rest}, Nested code → Spells bytes code rest → ∃ s : Structured,
      s.Proper ∧ s.flatten.map Instruction.unplaced = code.map Instruction.unplaced ∧
      Reads expression bytes s.flatten rest := by
    intro code rest hn h
    obtain ⟨s, hs, hcode⟩ := exists_structured_of_nested hn
    exact ⟨s, hs, hcode, reads_of_spells hs hcode h⟩
  refine ⟨⟨?_, ?_⟩, ?_⟩
  · rintro ⟨code, rest, h⟩
    obtain ⟨hspells, s, hs, rfl⟩ := exists_structured_of_reads h
    exact ⟨s.flatten, rest, Structured.nested_flatten hs, hspells⟩
  · rintro ⟨code, rest, hn, h⟩
    obtain ⟨s, -, -, hr⟩ := haccept hn h
    exact ⟨s.flatten, rest, hr⟩
  · intro code rest hn h
    obtain ⟨s, hs, hcode, hr⟩ := haccept hn h
    refine ⟨s.flatten, fun read rest' => ⟨fun h' => ?_, ?_⟩, hcode, fun p i hi =>
      Structured.positioned_flatten hs hi⟩
    · exact Prod.mk.inj (Except.ok.inj (h'.symm.trans hr))
    · rintro ⟨rfl, rfl⟩
      exact hr

/-- A conditional whose constants are the opcodes of `end` and `else`. -/
def arms : Array Instruction :=
  #[.cond .i32 (some 2) 4, .const .i32 11, .otherwise, .const .i32 5, .close]

/-- An encoding of it with the second constant padded, then one more `end` and another byte. -/
def armsBytes : List UInt8 := [0x04, 0x7f, 0x41, 0x0b, 0x05, 0x41, 0x85, 0x00, 0x0b, 0x0b, 0x01]

theorem expression_accepts_nested_arms :
    Nested arms ∧ Spells armsBytes arms [0x01] ∧
    (∀ read rest', Reads expression armsBytes read rest' ↔ read = arms ∧ rest' = [0x01]) ∧
    ∀ p i, arms[p]? = some i → Positioned arms p i := by
  have hn : Nested arms := @Structured.nested_flatten
    (.condElse .i32 (.plain (.const .i32 11) .done) (.plain (.const .i32 5) .done) .done)
    (by simp [Structured.Proper, Structured.Forall, Instruction.isStructural])
  have hopen : IsEncoding (.cond .i32 (some 2) 4) [0x04, 0x7f] := ⟨[0x7f], rfl, .inl rfl, rfl⟩
  have hfirst : Encodes [.const .i32 11] [0x41, 0x0b] :=
    ⟨[0x41, 0x0b], [], rfl, ⟨[0x0b], rfl, _, .last (by decide) ⟨by decide, by decide⟩, rfl⟩, rfl⟩
  have hsecond : Encodes [.const .i32 5] [0x41, 0x85, 0x00] :=
    ⟨[0x41, 0x85, 0x00], [], rfl, ⟨[0x85, 0x00], rfl, _, .more (by decide) (by decide)
      (.last (by decide) ⟨by decide, by decide⟩), rfl⟩, rfl⟩
  have hspells : Spells armsBytes arms [0x01] :=
    ⟨[0x04, 0x7f, 0x41, 0x0b, 0x05, 0x41, 0x85, 0x00, 0x0b],
      (@encodes_twoArms _ [.const .i32 11] [.const .i32 5] [] _).2
        ⟨_, _, _, [], rfl, hopen, hfirst, hsecond, rfl⟩, rfl⟩
  obtain ⟨code, hreads, -, hpos⟩ := (expression_accepts_nested _).2 _ _ hn hspells
  have hrun : Reads expression armsBytes arms [0x01] := rfl
  obtain ⟨rfl, -⟩ := (hreads _ _).1 hrun
  exact ⟨hn, hspells, hreads, hpos⟩

end WasmCore.Binary
