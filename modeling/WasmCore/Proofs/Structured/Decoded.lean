import WasmCore.Proofs.Binary.Expression
import WasmCore.Proofs.Structured.Agreement

/-!
# Execution of decoded expressions

A decoded expression is a flat sequence. It has a nesting, and to execute it by positions and labels
is to execute that nesting: `executing_decoded_iff`.
-/

namespace WasmCore.Machine

open Binary Decoder

/-- **Decoded code executes as the nested code it encodes**: every expression that the decoder
returns is the flat sequence of structured code, and from any setting and with any arity a machine
that executes it comes to an end exactly if that structured code does, with the same outcome, stack,
store and trace. -/
theorem executing_decoded_iff {bytes rest : List UInt8} {code : Array Instruction}
    (h : Reads expression bytes code rest) :
    (∃ s : Structured, s.Proper ∧ s.flatten = code) ∧
    ∀ s : Structured, s.Proper → s.flatten = code →
      ∀ (arity : Option Nat) (σ : Setting) (o : Outcome) (σ' : Setting),
        (σ.executing code arity).Ends o σ' ↔ s.Ends arity σ o σ' := by
  obtain ⟨⟨s, hs, hcode⟩, -⟩ := expression_compacts bytes code rest h
  refine ⟨⟨s, hs.proper, hcode⟩, ?_⟩
  rintro s hs rfl arity σ o σ'
  exact Structured.executing_ends_iff hs arity σ o σ'

/-- A conditional whose first arm loops while the first local is not zero. -/
theorem executing_decoded_iff_loop :
    ∃ code, Reads expression [0x20, 0x00, 0x04, 0x7f, 0x03, 0x40, 0x20, 0x00, 0x0d, 0x00, 0x0b,
        0x41, 0x7f, 0x05, 0x41, 0x07, 0x0b, 0x0b] code [] ∧
      ∀ (arity : Option Nat) (σ : Setting) (o : Outcome) (σ' : Setting),
        (σ.executing code arity).Ends o σ' ↔
          Structured.Ends (.plain (.localGet 0) (.condElse .i32
            (.loop .empty (.plain (.localGet 0) (.plain (.brIf 0) .done))
              (.plain (.const .i32 0xffffffffffffffff) .done))
            (.plain (.const .i32 7) .done) .done)) arity σ o σ' := by
  have h : Reads expression [0x20, 0x00, 0x04, 0x7f, 0x03, 0x40, 0x20, 0x00, 0x0d, 0x00, 0x0b,
        0x41, 0x7f, 0x05, 0x41, 0x07, 0x0b, 0x0b]
      #[.localGet 0, .cond .i32 (some 7) 9, .loop .empty 5, .localGet 0, .brIf 0, .close,
        .const .i32 0xffffffffffffffff, .otherwise, .const .i32 7, .close] [] := rfl
  refine ⟨_, h, (executing_decoded_iff h).2 _ ?_ rfl⟩
  simp [Structured.Proper, Structured.Forall, Instruction.isStructural]

end WasmCore.Machine
