import WasmCore.Proofs.Binary.Instruction
import WasmCore.Proofs.Structured.Matching

/-!
# Structured code of nested sequences

A nested sequence has the instructions of some structured code (`exists_structured_of_nested`), so
that the grammar of constructs and the matching of their parts by counting come to the same.

The code is found construct by construct: a `SelfContained` part of the sequence starts with a plain
instruction or with a construct, and what is left of it, as well as every part of the construct, is
self-contained and shorter.
-/

namespace WasmCore

variable {code : Array Instruction} {p p' q q' r : Nat} {i : Instruction}

/-! ### Depths in nested sequences -/

namespace Nested

variable (h : Nested code)
include h

theorem depthAt_nonneg (p : Nat) : 0 ≤ depthAt code p := by
  induction p using Nat.strongRecOn with
  | ind p ih =>
    cases p with
    | zero => exact Int.le_refl 0
    | succ p =>
      have hp := ih p (Nat.lt_succ_self p)
      cases hi : code[p]? with
      | none => simpa [depthAt, hi] using hp
      | some i =>
        rw [depthAt_succ hi]
        cases i with
        | close =>
          -- the construct that ends here is open
          obtain ⟨p₀, hend⟩ := h.ends p hi
          obtain ⟨j, hj, ho⟩ := hend.innermost.opens
          have hopen := depthAt_opens hj ho
          have heq := hend.innermost.balanced.depth_eq
          have hbefore := ih p₀ (Nat.lt_succ_of_lt hend.innermost.lt)
          simp only [Instruction.nesting]
          omega
        | _ =>
          simp only [Instruction.nesting]
          omega

/-- Nothing that is open at a position is left open at the end of the sequence. -/
theorem depthAt_size_le (hp : p ≤ code.size) : depthAt code code.size ≤ depthAt code p := by
  -- from the end of the sequence towards its start, in steps of whole constructs
  induction hn : code.size - p using Nat.strongRecOn generalizing p with
  | ind n ih =>
    rcases Nat.eq_or_lt_of_le hp with rfl | hlt
    · exact Int.le_refl _
    · have hi := Array.getElem?_eq_getElem hlt
      have hnext := ih (code.size - (p + 1)) (by omega) (Nat.succ_le_of_lt hlt) rfl
      generalize code[p] = i at hi
      rw [depthAt_succ hi] at hnext
      cases ho : i.opens with
      | true =>
        obtain ⟨q, hend⟩ := h.closed p i hi ho
        obtain ⟨hq, -⟩ := Array.getElem?_eq_some_iff.1 hend.1
        have hle := hend.innermost.lt
        have hafter := @ih (code.size - (q + 1)) (by omega) (q + 1) hq rfl
        have hopen := depthAt_opens hi ho
        have heq := hend.innermost.balanced.depth_eq
        have hclose := depthAt_close hend.1
        omega
      | false =>
        have : i.nesting ≤ 0 := by
          cases i with
          | block | loop | cond => cases ho
          | _ => simp [Instruction.nesting]
        omega

theorem balanced : Balanced code 0 code.size := by
  refine ⟨Nat.zero_le _, ?_, fun r _ _ => h.depthAt_nonneg r⟩
  exact Int.le_antisymm (h.depthAt_size_le (Nat.zero_le _)) (h.depthAt_nonneg _)

end Nested

/-! ### Self-contained parts -/

/-- A part of a sequence at whose ends the same constructs are open, and each of whose `else`s
belongs to a construct that opens in it. -/
structure SelfContained (code : Array Instruction) (p q : Nat) : Prop where
  balanced : Balanced code p q
  le_size : q ≤ code.size
  elses : ∀ r p', p ≤ r → r < q → IsElseOf code r p' → p ≤ p'

/-- A construct that is the innermost one somewhere in a balanced part and opens before it is so
also where the part starts. -/
theorem Innermost.at_start (h : Innermost code p' r) (hlt : p' < p) (hle : p ≤ r)
    (hl : Balanced code p q) (hr : r ≤ q) : Innermost code p' p := by
  have hat := h.balanced.depth_le p hlt hle
  have hin := hl.depth_le r hle hr
  have heq := h.balanced.depth_eq
  refine ⟨h.opens, hlt, by omega, fun s hs hs' => ?_⟩
  exact h.balanced.depth_le s hs (Nat.le_trans hs' hle)

namespace SelfContained

variable {a b mid : Nat}

theorem inner (h : SelfContained code p q) (hp : p ≤ a) (hq : b ≤ q) (hl : Balanced code a b)
    (hnone : ∀ r p', a ≤ r → r < b → IsElseOf code r p' → p ≤ p' → ¬ Innermost code p' a) :
    SelfContained code a b := by
  refine ⟨hl, Nat.le_trans hq h.le_size, fun r p' hr hr' helse => ?_⟩
  have hle := h.elses r p' (Nat.le_trans hp hr) (Nat.lt_of_lt_of_le hr' hq) helse
  refine Nat.le_of_not_lt fun hlt => ?_
  exact hnone r p' hr hr' helse hle
    (helse.innermost.at_start hlt hr hl (Nat.le_of_lt hr'))

theorem after_plain (h : SelfContained code p q) (hlt : p < q) (hi : code[p]? = some i)
    (hplain : i.isStructural = false) : SelfContained code (p + 1) q := by
  have hdepth := depthAt_plain hi hplain
  refine h.inner (Nat.le_succ p) (Nat.le_refl q) (h.balanced.right (Nat.le_succ p) hlt hdepth) ?_
  intro r p' _ _ _ hle hin
  obtain rfl : p = p' := by have := hin.lt; omega
  have := hin.opens_of hi
  simp [Instruction.opens_of_plain hplain] at this

variable (h : SelfContained code p q) (hi : code[p]? = some i) (ho : i.opens = true)
include h hi ho

theorem end_lt (hlt : p < q) (hend : IsEndOf code mid p) : mid < q := by
  -- at the end of the part no more is open than at its start, which is outside of the construct
  refine Nat.lt_of_not_le fun hle => ?_
  have hopen := depthAt_opens hi ho
  have heq := h.balanced.depth_eq
  have := hend.innermost.balanced.depth_le q hlt hle
  omega

theorem after_construct (hlt : p < q) (hend : IsEndOf code mid p) :
    SelfContained code (mid + 1) q := by
  have hmid := h.end_lt hi ho hlt hend
  have hdepth := hend.depthAt_after
  have hp := hend.innermost.lt
  refine h.inner (by omega) (Nat.le_refl q) (h.balanced.right (by omega) hmid hdepth) ?_
  intro r p' _ _ _ hle hin
  -- whatever is open after the construct was open before it
  obtain ⟨j, hj, hoj⟩ := hin.opens
  have hopen := depthAt_opens hj hoj
  have heq := hin.balanced.depth_eq
  have hat := h.balanced.depth_le p' hle (by have := hin.lt; omega)
  omega

theorem body (hlt : p < q) (hend : IsEndOf code mid p) (hnone : ∀ r, ¬ IsElseOf code r p) :
    SelfContained code (p + 1) mid := by
  have hmid := h.end_lt hi ho hlt hend
  refine h.inner (Nat.le_succ p) (Nat.le_of_lt hmid) hend.innermost.balanced ?_
  intro r p' _ _ helse hle hin
  obtain rfl : p = p' := by have := hin.lt; omega
  exact hnone r helse

variable {elseAt : Nat} (hdistinct : ∀ r, IsElseOf code r p → r = elseAt)
include hdistinct

theorem arm (hlt : p < q) (hend : IsEndOf code mid p) (helse : IsElseOf code elseAt p) :
    SelfContained code (p + 1) elseAt := by
  have hmid := h.end_lt hi ho hlt hend
  have hbefore := helse.lt_end hend
  refine h.inner (Nat.le_succ p) (by omega) helse.innermost.balanced ?_
  intro r p' _ hr helse' hle hin
  obtain rfl : p = p' := by have := hin.lt; omega
  exact absurd (hdistinct r helse') (Nat.ne_of_lt hr)

theorem other (hlt : p < q) (hend : IsEndOf code mid p) (helse : IsElseOf code elseAt p) :
    SelfContained code (elseAt + 1) mid := by
  have hmid := h.end_lt hi ho hlt hend
  have hbefore := helse.lt_end hend
  have hp := helse.innermost.lt
  have hdepth := depthAt_otherwise helse.1
  have heq := helse.innermost.balanced.depth_eq
  have hl : Balanced code (elseAt + 1) mid :=
    hend.innermost.balanced.right (by omega) hbefore (by omega)
  refine h.inner (by omega) (Nat.le_of_lt hmid) hl ?_
  intro r p' hr _ helse' _ hin
  -- behind the `else` its conditional is still the innermost construct
  have hcond : Innermost code p (elseAt + 1) :=
    ⟨helse.innermost.opens, helse.innermost.balanced.trans (.single hdepth)⟩
  obtain rfl := hin.unique hcond
  have := hdistinct r helse'
  omega

end SelfContained

/-! ### Parts that structured code spans -/

/-- From `p` to `q` the sequence has the instructions of structured code, whatever positions these
hold. -/
structure Structured.Spans (s : Structured) (code : Array Instruction) (p q : Nat) : Prop where
  proper : s.Proper
  add_size : p + s.size = q
  stands : StandsAt (code.map Instruction.unplaced) p ((s.layout p).map Instruction.unplaced)

namespace Structured.Spans

variable {type : ValueType} {endAt : Int} {elseAt : Option Int} {mid : Nat}
  {body arm other rest : Structured}

theorem getElem?_map_unplaced (h : code[p]? = some i) :
    (code.map Instruction.unplaced)[p]? = some i.unplaced := by
  rw [Array.getElem?_map, h, Option.map_some]

theorem done : Structured.done.Spans code p p := ⟨trivial, rfl, trivial⟩

theorem plain (hi : code[p]? = some i) (hplain : i.isStructural = false)
    (hr : rest.Spans code (p + 1) q) : (Structured.plain i rest).Spans code p q :=
  ⟨⟨hplain, hr.proper⟩, by rw [add_size_plain, hr.add_size],
    getElem?_map_unplaced hi, hr.stands⟩

/-- A body, the instruction after it, and what follows that. -/
theorem stands_append (hb : body.Spans code p mid) {j : Instruction} (hj : code[mid]? = some j)
    {ys : List Instruction}
    (hr : StandsAt (code.map Instruction.unplaced) (mid + 1) (ys.map Instruction.unplaced)) :
    StandsAt (code.map Instruction.unplaced) p
      ((body.layout p ++ j :: ys).map Instruction.unplaced) := by
  rw [List.map_append, List.map_cons, standsAt_append, List.length_map, length_layout, hb.add_size]
  exact ⟨hb.stands, getElem?_map_unplaced hj, hr⟩

theorem block (hi : code[p]? = some (.block type endAt)) (hb : body.Spans code (p + 1) mid)
    (hclose : code[mid]? = some .close) (hr : rest.Spans code (mid + 1) q) :
    (Structured.block type body rest).Spans code p q := by
  obtain rfl := hb.add_size
  refine ⟨⟨trivial, hb.proper, hr.proper⟩, ?_, ?_, hb.stands_append hclose hr.stands⟩
  · rw [add_size_block, hr.add_size]
  · exact (getElem?_map_unplaced hi :)

theorem loop (hi : code[p]? = some (.loop type endAt)) (hb : body.Spans code (p + 1) mid)
    (hclose : code[mid]? = some .close) (hr : rest.Spans code (mid + 1) q) :
    (Structured.loop type body rest).Spans code p q := by
  obtain rfl := hb.add_size
  refine ⟨⟨trivial, hb.proper, hr.proper⟩, ?_, ?_, hb.stands_append hclose hr.stands⟩
  · rw [add_size_loop, hr.add_size]
  · exact (getElem?_map_unplaced hi :)

theorem cond (hi : code[p]? = some (.cond type elseAt endAt)) (ha : arm.Spans code (p + 1) mid)
    (hclose : code[mid]? = some .close) (hr : rest.Spans code (mid + 1) q) :
    (Structured.cond type arm rest).Spans code p q := by
  obtain rfl := ha.add_size
  refine ⟨⟨trivial, ha.proper, hr.proper⟩, ?_, ?_, ha.stands_append hclose hr.stands⟩
  · rw [add_size_cond, hr.add_size]
  · exact (getElem?_map_unplaced hi :)

theorem condElse {mid' : Nat} (hi : code[p]? = some (.cond type elseAt endAt))
    (ha : arm.Spans code (p + 1) mid) (helse : code[mid]? = some .otherwise)
    (ho : other.Spans code (mid + 1) mid') (hclose : code[mid']? = some .close)
    (hr : rest.Spans code (mid' + 1) q) :
    (Structured.condElse type arm other rest).Spans code p q := by
  obtain rfl := ha.add_size
  obtain rfl := ho.add_size
  refine ⟨⟨trivial, ha.proper, ho.proper, hr.proper⟩, ?_, ?_, ?_⟩
  · rw [add_size_condElse, hr.add_size]
  · exact (getElem?_map_unplaced hi :)
  · exact ha.stands_append helse (ho.stands_append hclose hr.stands)

end Structured.Spans

/-- A self-contained part of a nested sequence consists of the instructions of structured code. -/
theorem SelfContained.exists_spans (hn : Nested code) (h : SelfContained code p q) :
    ∃ s : Structured, s.Spans code p q := by
  induction hlen : q - p using Nat.strongRecOn generalizing p q with
  | ind n ih =>
    rcases Nat.eq_or_lt_of_le h.balanced.le with rfl | hlt
    · exact ⟨.done, .done⟩
    obtain ⟨i, hi⟩ : ∃ i, code[p]? = some i :=
      ⟨_, Array.getElem?_eq_getElem (Nat.lt_of_lt_of_le hlt h.le_size)⟩
    have hsub : ∀ {a b}, SelfContained code a b → p < a → b ≤ q →
        ∃ s : Structured, s.Spans code a b := by
      intro a b hs hp hq
      have := hs.balanced.le
      exact ih (b - a) (by omega) hs rfl
    cases hstr : i.isStructural with
    | false =>
      obtain ⟨s, hs⟩ := hsub (h.after_plain hlt hi hstr) (Nat.lt_succ_self p) (Nat.le_refl q)
      exact ⟨_, hs.plain hi hstr⟩
    | true =>
      -- the parts of a construct that opens here, and what follows it
      have hafter : i.opens = true → ∃ mid, IsEndOf code mid p ∧ mid < q ∧
          ∃ s : Structured, s.Spans code (mid + 1) q := by
        intro ho
        obtain ⟨mid, hend⟩ := hn.closed p i hi ho
        refine ⟨mid, hend, h.end_lt hi ho hlt hend, ?_⟩
        exact hsub (h.after_construct hi ho hlt hend) (Nat.lt_succ_of_lt hend.innermost.lt)
          (Nat.le_refl q)
      have hbody : i.opens = true → ∀ {mid}, IsEndOf code mid p → mid < q →
          (∀ r, ¬ IsElseOf code r p) → ∃ s : Structured, s.Spans code (p + 1) mid := by
        intro ho mid hend hmid hnone
        exact hsub (h.body hi ho hlt hend hnone) (Nat.lt_succ_self p) (Nat.le_of_lt hmid)
      have hno : i.isCond = false → ∀ r, ¬ IsElseOf code r p := by
        rintro hc r ⟨-, ⟨j, hj, hcond⟩, -⟩
        cases hi.symm.trans hj
        simp [hc] at hcond
      cases i with
      | block type endAt =>
        obtain ⟨mid, hend, hmid, rest, hrest⟩ := hafter rfl
        obtain ⟨body, hb⟩ := hbody rfl hend hmid (hno rfl)
        exact ⟨_, .block hi hb hend.1 hrest⟩
      | loop type endAt =>
        obtain ⟨mid, hend, hmid, rest, hrest⟩ := hafter rfl
        obtain ⟨body, hb⟩ := hbody rfl hend hmid (hno rfl)
        exact ⟨_, .loop hi hb hend.1 hrest⟩
      | cond type elseAt endAt =>
        obtain ⟨mid, hend, hmid, rest, hrest⟩ := hafter rfl
        by_cases helse : ∃ r, IsElseOf code r p
        · obtain ⟨r, helse⟩ := helse
          have hdistinct : ∀ r', IsElseOf code r' p → r' = r := fun r' h' =>
            hn.distinct p r' r h' helse
          have hr := helse.innermost.lt
          have hr' := helse.lt_end hend
          obtain ⟨arm, ha⟩ := hsub (h.arm hi rfl hdistinct hlt hend helse)
            (Nat.lt_succ_self p) (by omega)
          obtain ⟨other, ho⟩ := hsub (h.other hi rfl hdistinct hlt hend helse)
            (by omega) (Nat.le_of_lt hmid)
          exact ⟨_, .condElse hi ha helse.1 ho hend.1 hrest⟩
        · obtain ⟨arm, ha⟩ := hbody rfl hend hmid (not_exists.1 helse)
          exact ⟨_, .cond hi ha hend.1 hrest⟩
      | otherwise =>
        -- its conditional would open before the part
        obtain ⟨p', helse⟩ := hn.elses p hi
        have := h.elses p p' (Nat.le_refl p) hlt helse
        have := helse.innermost.lt
        omega
      | close =>
        -- it would close what is open at the start of the part
        have hdrop := depthAt_close hi
        have := h.balanced.depth_le (p + 1) (Nat.le_succ p) hlt
        omega
      | _ => cases hstr

theorem drop_of_standsAt {xs : List Instruction} (h : StandsAt code p xs)
    (hlen : p + xs.length = code.size) : code.toList.drop p = xs := by
  induction xs generalizing p with
  | nil => exact List.drop_eq_nil_of_le (Nat.le_of_eq hlen.symm)
  | cons x xs ih =>
    obtain ⟨hx, hxs⟩ := h
    obtain ⟨hlt, rfl⟩ := Array.getElem?_eq_some_iff.1 hx
    simp only [List.length_cons] at hlen
    rw [List.drop_eq_getElem_cons (Array.length_toList ▸ hlt), ih hxs (by omega),
      Array.getElem_toList]

/-- **Nested sequences are those of structured code**, but for the positions that their constructs
hold. -/
theorem exists_structured_of_nested (hn : Nested code) :
    ∃ s : Structured, s.Proper ∧
      s.flatten.map Instruction.unplaced = code.map Instruction.unplaced := by
  obtain ⟨s, hproper, hsize, hstands⟩ :=
    SelfContained.exists_spans hn ⟨hn.balanced, Nat.le_refl _, fun _ p' _ _ _ => Nat.zero_le p'⟩
  refine ⟨s, hproper, Array.toList_inj.1 ?_⟩
  have hdrop := drop_of_standsAt hstands (by simpa using hsize)
  rw [Array.toList_map, Structured.toList_flatten, ← hdrop, List.drop_zero]

end WasmCore
