import WasmCore.Host.Env
import WasmCore.Proofs.Binary.Decoder
import WasmCore.Proofs.Machine.Access
import WasmCore.Proofs.Memory
import WasmCore.Proofs.Text.Utf16

/-!
# Texts of guests

A guest passes a text as a pointer to UTF-16, with the number of bytes in the four bytes before it.
Both the pointer and all of these bytes are up to the guest. `TextAt` says when there is a text at a
pointer; exactly then it is read, and otherwise the pointer is shown. What is read is what the guest
encoded, and in what is no encoding only lone surrogates are lost (`guestText_exact`).

The text is read once more with every access made by position (`checkedText`). No position is
outside of the memory, of the bytes taken from it, or of the units that are made of these.
-/

namespace WasmCore

namespace Memory

variable {m : Memory} {offset count : Nat}

/-! ### Bytes and units of a memory -/

/-- As many bytes from a position on. -/
def bytesAt (m : Memory) (offset count : Nat) : List UInt8 :=
  (List.range count).map fun i => m.byteAt (offset + i)

/-- As many numbers of two bytes from a position on. -/
def unitsAt (m : Memory) (offset count : Nat) : List Nat :=
  (List.range count).map fun i => m.number (offset + 2 * i) 2

theorem length_bytesAt : (m.bytesAt offset count).length = count := by
  rw [bytesAt, List.length_map, List.length_range]

theorem slice_eq_bytesAt (h : offset + count ≤ m.length) :
    (m.bytes.data.toList.take (offset + count)).drop offset = m.bytesAt offset count := by
  have hlength : m.bytes.data.toList.length = m.length := Array.length_toList
  refine List.ext_getElem ?_ fun i hi hi' => ?_
  · rw [List.length_drop, List.length_take, hlength, length_bytesAt]
    omega
  · rw [length_bytesAt] at hi'
    have hlt : offset + i < m.bytes.size := Nat.lt_of_lt_of_le (by omega) h
    simp only [List.getElem_drop, List.getElem_take, Array.getElem_toList, bytesAt,
      List.getElem_map, List.getElem_range, byteAt, hlt, ↓reduceDIte]
    rfl

theorem read?_of_le (h : offset + count ≤ m.length) :
    m.read? offset count = some (m.bytesAt offset count) := by
  rw [read?, if_pos (hasLength_iff.2 h), Binary.Decoder.toList_eq_data, ByteArray.data_extract,
    Array.toList_extract, List.extract_eq_take_drop, ← List.drop_take, slice_eq_bytesAt h]

theorem read?_of_not_le (h : ¬ offset + count ≤ m.length) : m.read? offset count = none :=
  if_neg (mt hasLength_iff.1 h)

theorem bytesAt_succ (m : Memory) (offset count : Nat) :
    m.bytesAt offset (count + 1) = m.byteAt offset :: m.bytesAt (offset + 1) count := by
  simp only [bytesAt, List.range_succ_eq_map, List.map_cons, List.map_map, Function.comp_def,
    Nat.add_zero, Nat.add_assoc, Nat.succ_eq_add_one, Nat.add_comm 1]

theorem unitsAt_succ (m : Memory) (offset count : Nat) :
    m.unitsAt offset (count + 1) = m.number offset 2 :: m.unitsAt (offset + 2) count := by
  simp only [unitsAt, List.range_succ_eq_map, List.map_cons, List.map_map, Function.comp_def,
    Nat.mul_zero, Nat.add_zero, Nat.add_assoc, Nat.succ_eq_add_one, Nat.mul_add, Nat.mul_one,
    Nat.add_comm 2]

/-- The units in the bytes of a memory are its numbers of two bytes. -/
theorem unitsOfBytes_bytesAt (m : Memory) (offset count : Nat) :
    Text.unitsOfBytes (m.bytesAt offset (2 * count)) = m.unitsAt offset count := by
  induction count generalizing offset with
  | zero => rfl
  | succ k ih =>
    have hunit : (m.byteAt offset).toNat + 256 * (m.byteAt (offset + 1)).toNat =
        m.number offset 2 := by simp [number]
    rw [Nat.mul_succ, bytesAt_succ, bytesAt_succ, Text.unitsOfBytes, hunit, ih, unitsAt_succ]

end Memory

namespace Host.Env

open Machine

variable {m : Memory} {pointer size : Nat}

/-! ### Texts at a pointer -/

/-- The memory has the size of a text in the four bytes before the pointer, and the text, of
an even number of bytes, from the pointer on. -/
structure TextAt (m : Memory) (pointer size : Nat) : Prop where
  behindSize : 4 ≤ pointer
  inside : pointer ≤ m.length
  size_eq : m.number (pointer - 4) 4 = size
  even : size % 2 = 0
  fits : pointer + size ≤ m.length

theorem guestText?_of_textAt (h : TextAt m pointer size) :
    guestText? m pointer = some (Text.ofUtf16 (m.bytesAt pointer size)) := by
  have hsize : m.readNumber? (pointer - 4) 4 = some size := by
    have hfits : pointer - 4 + 4 ≤ m.length := by
      rw [Nat.sub_add_cancel h.behindSize]
      exact h.inside
    rw [Memory.readNumber?_of_le hfits, h.size_eq]
  rw [guestText?, if_neg (Nat.not_lt.2 h.behindSize), hsize]
  simp only [Option.bind_eq_bind, Option.bind_some, if_pos h.even, Memory.read?_of_le h.fits]

theorem guestText?_of_not_textAt (h : ∀ size, ¬ TextAt m pointer size) :
    guestText? m pointer = none := by
  rw [guestText?]
  by_cases hbehind : pointer < 4
  · exact if_pos hbehind
  rw [if_neg hbehind]
  by_cases hinside : pointer - 4 + 4 ≤ m.length
  · rw [Memory.readNumber?_of_le hinside]
    simp only [Option.bind_eq_bind, Option.bind_some]
    split
    · rename_i heven
      have hfits : ¬ pointer + m.number (pointer - 4) 4 ≤ m.length := fun hfits =>
        h _ ⟨by omega, by omega, rfl, heven, hfits⟩
      rw [Memory.read?_of_not_le hfits, Option.bind_none]
    · rfl
  · rw [Memory.readNumber?_of_not_le hinside]
    rfl

theorem exists_guestText?_iff :
    (∃ text, guestText? m pointer = some text) ↔ ∃ size, TextAt m pointer size := by
  constructor
  · rintro ⟨text, htext⟩
    by_contra hnone
    rw [guestText?_of_not_textAt fun size h => hnone ⟨size, h⟩] at htext
    cases htext
  · rintro ⟨size, h⟩
    exact ⟨_, guestText?_of_textAt h⟩

/-- The text that is read has the units in the memory, but for lone surrogates. -/
theorem TextAt.mends (h : TextAt m pointer size) : Text.Mends (m.unitsAt pointer (size / 2))
    (Text.toUnits (Text.ofUtf16 (m.bytesAt pointer size)).toList) := by
  have hsize : size = 2 * (size / 2) := by
    have heven := h.even
    omega
  have hunits : Text.unitsOfBytes (m.bytesAt pointer size) = m.unitsAt pointer (size / 2) := by
    rw [← Memory.unitsOfBytes_bytesAt, ← hsize]
  rw [← hunits, Text.ofUtf16, String.toList_ofList]
  exact Text.mends_ofUnits fun u => Text.lt_of_mem_unitsOfBytes

/-! ### Reading by position -/

/-- Two bytes as a unit, low byte first. -/
def unitOf (low high : UInt8) : UInt16 := low.toUInt16 + (high.toUInt16 <<< 8)

theorem toNat_unitOf (low high : UInt8) :
    (unitOf low high).toNat = low.toNat + 256 * high.toNat := by
  have hlow := low.toNat_lt
  have hhigh := high.toNat_lt
  have hshift : (high.toUInt16 <<< 8).toNat = 256 * high.toNat := by
    rw [UInt16.toNat_shiftLeft, UInt8.toNat_toUInt16, Nat.shiftLeft_eq]
    have height : (8 : UInt16).toNat % 16 = 8 := rfl
    rw [height]
    omega
  rw [unitOf, UInt16.toNat_add, hshift, UInt8.toNat_toUInt16]
  omega

/-- Makes units of the bytes from position `i` on and puts them in their places. -/
def fillUnits (bytes : List UInt8) (i : Nat) (units : List UInt16) : Checked (List UInt16) :=
  if i < bytes.length then do
    let low ← Checked.index bytes i
    let high ← Checked.index bytes (i + 1 : Nat)
    let units ← Checked.assign units (i / 2 : Nat) (unitOf low high)
    fillUnits bytes (i + 2) units
  else .ok units
termination_by bytes.length - i

/-- Of an even number of bytes every one is used, and there is a place for every unit. -/
theorem fillUnits_eq {bytes : List UInt8} {n k j : Nat} {units : List UInt16}
    (hbytes : bytes.length = 2 * n) (hunits : units.length = n) (hk : k + j = n) :
    ∃ filled, fillUnits bytes (2 * k) units = .ok filled ∧ filled.map UInt16.toNat =
      (units.take k).map UInt16.toNat ++ Text.unitsOfBytes (bytes.drop (2 * k)) := by
  induction j generalizing k units with
  | zero =>
    refine ⟨units, ?_, ?_⟩
    · rw [fillUnits, if_neg (by omega)]
    · rw [List.take_of_length_le (by omega), List.drop_of_length_le (by omega)]
      exact (List.append_nil _).symm
  | succ j ih =>
    have hlow : 2 * k < bytes.length := by omega
    have hhigh : 2 * k + 1 < bytes.length := by omega
    have hplace : k < units.length := by omega
    have hhalf : 2 * k / 2 = k := by omega
    obtain ⟨u, hu⟩ : ∃ u, u = unitOf bytes[2 * k] bytes[2 * k + 1] := ⟨_, rfl⟩
    have htake : (units.set k u).take (k + 1) = units.take k ++ [u] := by
      rw [List.take_succ_eq_append_getElem (by rwa [List.length_set]), List.getElem_set_self,
        List.take_set_of_le (Nat.le_refl k)]
    have hdrop : Text.unitsOfBytes (bytes.drop (2 * k)) =
        u.toNat :: Text.unitsOfBytes (bytes.drop (2 * (k + 1))) := by
      rw [List.drop_eq_getElem_cons hlow, List.drop_eq_getElem_cons hhigh, Text.unitsOfBytes, hu,
        toNat_unitOf]
      rfl
    have hset : (units.set k u).length = n := by rw [List.length_set, hunits]
    obtain ⟨filled, hfilled, hmap⟩ := ih (k := k + 1) hset (by omega)
    refine ⟨filled, ?_, ?_⟩
    · rw [fillUnits, if_pos hlow, Checked.index_eq_ok (List.getElem?_eq_getElem hlow),
        Checked.ok_bind, Checked.index_eq_ok (List.getElem?_eq_getElem hhigh), Checked.ok_bind,
        hhalf, Checked.assign_eq_ok hplace, Checked.ok_bind, ← hu]
      exact hfilled
    · rw [hmap, htake, hdrop, List.map_append, List.append_assoc]
      rfl

/-- Nothing is left of the places that the units had at first. -/
theorem fillUnits_zero (bytes : List UInt8) (heven : bytes.length % 2 = 0) :
    ∃ filled, fillUnits bytes 0 (List.replicate (bytes.length / 2) 0) = .ok filled ∧
      filled.map UInt16.toNat = Text.unitsOfBytes bytes :=
  fillUnits_eq (k := 0) (by omega) List.length_replicate (Nat.zero_add _)

/-- The bytes at a position, if they are there. -/
def checkedRead (m : Memory) (offset count : Nat) : Checked (Option (List UInt8)) :=
  if m.hasLength offset count then do
    let bytes ← Checked.slice m.bytes.data.toList offset (offset + count : Nat)
    .ok (some bytes)
  else .ok none

/-- The text at a pointer, if the memory holds one there. -/
def checkedText? (m : Memory) (pointer : UInt32) : Checked (Option String) := do
  if pointer < 4 then .ok none
  else
    match ← Checked.readNumber m (pointer - 4).toNat 4 with
    | none => .ok none
    | some size =>
      if size % 2 = 0 then
        match ← checkedRead m pointer.toNat size with
        | none => .ok none
        | some bytes => do
          let units ← fillUnits bytes 0 (List.replicate (bytes.length / 2) 0)
          .ok (some (String.ofList (Text.ofUnits (units.map UInt16.toNat))))
      else .ok none

/-- The text at a pointer, or the pointer. -/
def checkedText (m : Option Memory) (pointer : UInt32) : Checked String := do
  let shown := "<0x" ++ Text.hexUpper 8 pointer.toNat ++ ">"
  match m with
  | none => .ok shown
  | some m =>
    let text ← checkedText? m pointer
    .ok (text.getD shown)

/-- No byte is looked for outside of the memory. -/
theorem checkedRead_eq (m : Memory) (offset count : Nat) :
    checkedRead m offset count = .ok (m.read? offset count) := by
  unfold checkedRead
  by_cases h : offset + count ≤ m.length
  · have hlength : m.bytes.data.toList.length = m.length := Array.length_toList
    rw [if_pos (Memory.hasLength_iff.2 h), Checked.slice_eq_ok (by omega) (by omega),
      Checked.ok_bind, Memory.slice_eq_bytesAt h, Memory.read?_of_le h]
  · rw [if_neg (mt Memory.hasLength_iff.1 h), Memory.read?_of_not_le h]

theorem checkedText?_eq (m : Memory) (pointer : UInt32) :
    checkedText? m pointer = .ok (guestText? m pointer.toNat) := by
  have hfour : pointer < 4 ↔ pointer.toNat < 4 := UInt32.lt_iff_toNat_lt
  unfold checkedText? guestText?
  by_cases hbehind : pointer < 4
  · rw [if_pos hbehind, if_pos (hfour.1 hbehind)]
  have hbefore : (pointer - 4).toNat = pointer.toNat - 4 :=
    UInt32.toNat_sub_of_le _ _ (UInt32.not_lt.1 hbehind)
  rw [if_neg hbehind, if_neg (mt hfour.2 hbehind), hbefore, Checked.readNumber_eq, Checked.ok_bind]
  cases m.readNumber? (pointer.toNat - 4) 4 with
  | none => rfl
  | some size =>
    dsimp only [Option.bind_eq_bind, Option.bind_some]
    split
    · rename_i heven
      rw [checkedRead_eq, Checked.ok_bind]
      by_cases hfits : pointer.toNat + size ≤ m.length
      · obtain ⟨units, hunits, hmap⟩ := fillUnits_zero (m.bytesAt pointer.toNat size)
          (by rwa [Memory.length_bytesAt])
        rw [Memory.read?_of_le hfits]
        simp only [hunits, Checked.ok_bind, hmap, Option.bind_some]
        rfl
      · rw [Memory.read?_of_not_le hfits]
        rfl
    · rfl

/-- No access is outside of what it is made to. -/
theorem checkedText_eq (m : Option Memory) (pointer : UInt32) :
    checkedText m pointer = .ok (guestText m pointer.toNat) := by
  cases m with
  | none => rfl
  | some m =>
    rw [checkedText, checkedText?_eq, Checked.ok_bind]
    rfl

/-! ### Texts of guests -/

/-- **Guests' texts are read safely and exactly.** A text is read exactly if the memory holds one at
the pointer; otherwise the pointer is shown. If its bytes encode characters, it consists of these;
in any case it has all of its units, but for the replacement of lone surrogates. No access is made
outside of the memory, of the bytes read or of the units. -/
theorem guestText_exact (m : Option Memory) (pointer : UInt32) :
    ((∃ text, m.bind (guestText? · pointer.toNat) = some text) ↔
      ∃ mem size, m = some mem ∧ TextAt mem pointer.toNat size) ∧
    ((¬ ∃ mem size, m = some mem ∧ TextAt mem pointer.toNat size) →
      guestText m pointer.toNat = "<0x" ++ Text.hexUpper 8 pointer.toNat ++ ">") ∧
    (∀ mem size, m = some mem → TextAt mem pointer.toNat size →
      ∃ text, guestText? mem pointer.toNat = some text ∧ guestText m pointer.toNat = text ∧
        (∀ cs, mem.bytesAt pointer.toNat size = Text.toUtf16 cs → text = String.ofList cs) ∧
        Text.Mends (mem.unitsAt pointer.toNat (size / 2)) (Text.toUnits text.toList)) ∧
    checkedText m pointer = .ok (guestText m pointer.toNat) := by
  refine ⟨?_, ?_, ?_, checkedText_eq m pointer⟩
  · constructor
    · rintro ⟨text, htext⟩
      obtain ⟨mem, rfl, hmem⟩ := Option.bind_eq_some_iff.1 htext
      obtain ⟨size, hsize⟩ := exists_guestText?_iff.1 ⟨text, hmem⟩
      exact ⟨mem, size, rfl, hsize⟩
    · rintro ⟨mem, size, rfl, h⟩
      exact ⟨_, guestText?_of_textAt h⟩
  · intro hnone
    cases m with
    | none => rfl
    | some mem =>
      have hunread := guestText?_of_not_textAt fun size h => hnone ⟨mem, size, rfl, h⟩
      rw [guestText, Option.bind_some, hunread]
      rfl
  · rintro mem size rfl h
    have hread := guestText?_of_textAt h
    refine ⟨_, hread, ?_, fun cs hcs => ?_, h.mends⟩
    · rw [guestText, Option.bind_some, hread]
      rfl
    · rw [hcs, Text.ofUtf16_toUtf16]

/-- A page's first bytes: the size of a text, and then the text, a letter, a pair of surrogates and
half of another pair. -/
def paged : Memory := ⟨⟨#[8, 0, 0, 0, 0x41, 0, 0x3d, 0xd8, 0, 0xde, 0x3d, 0xd8]⟩, none⟩

theorem guestText_exact_paged :
    TextAt paged 4 8 ∧ (∃ text, guestText (some paged) 4 = text ∧
      Text.Mends [0x41, 0xd83d, 0xde00, 0xd83d] (Text.toUnits text.toList)) ∧
    guestText (some paged) 6 = "<0x00000006>" ∧
    checkedText (some paged) 4 = .ok "A😀\ufffd" := by
  have htext : TextAt paged 4 8 := by
    refine ⟨?_, ?_, ?_, ?_, ?_⟩ <;> decide +kernel
  have hunits : paged.unitsAt 4 4 = [0x41, 0xd83d, 0xde00, 0xd83d] := by decide +kernel
  have hvalue : guestText (some paged) 4 = "A😀\ufffd" := by decide +kernel
  have hnone : ¬ ∃ mem size, some paged = some mem ∧ TextAt mem 6 size := by
    rintro ⟨mem, size, ⟨⟩, h⟩
    have hsize : paged.number 2 4 = 0x410000 := by decide +kernel
    have hlength : paged.length = 12 := rfl
    have hsame : paged.number 2 4 = size := h.size_eq
    have hfits : 6 + size ≤ paged.length := h.fits
    rw [hsize] at hsame
    rw [hlength] at hfits
    omega
  obtain ⟨-, -, hread, hchecked⟩ := guestText_exact (some paged) 4
  obtain ⟨-, hshown, -⟩ := guestText_exact (some paged) 6
  obtain ⟨text, -, htext', -, hmends⟩ := hread paged 8 rfl htext
  exact ⟨htext, ⟨text, htext', hunits ▸ hmends⟩, hshown hnone,
    hchecked.trans (congrArg Except.ok hvalue)⟩

end Host.Env

end WasmCore
