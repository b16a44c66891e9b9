import WasmCore.Binary.Encode
import WasmCore.Proofs.Leb128

/-!
# Decoders and encoders of items

`Decoder.Reads` says what a decoder takes from the front of the bytes and what it leaves. Two
properties tie a decoder to an encoder:

* `Restores`: the decoder reads back every valid value from what the encoder writes, whatever
  follows. The encoder writes sizes and counts with 32 bits, so this asks that the encoding be
  shorter than `2 ^ 32` bytes.
* `Compacts`: whatever the decoder reads, however it was encoded, is valid and is written in no more
  bytes than were taken.

They are shown here for bytes, integers, parts with their size before them, text and vectors.
-/

namespace WasmCore.Binary

namespace Decoder

variable {α β : Type}

/-- The decoder takes a value from the front of the bytes and leaves the rest. -/
def Reads (d : Decoder α) (bytes : List UInt8) (x : α) (rest : List UInt8) : Prop :=
  d bytes = .ok (x, rest)

variable {d : Decoder α} {bytes rest : List UInt8} {x : α}

@[simp] theorem reads_pure {y : α} : Reads (pure y) bytes x rest ↔ x = y ∧ rest = bytes := by
  have : (pure y : Decoder α) bytes = .ok (y, bytes) := rfl
  simp only [Reads, this, Except.ok.injEq, Prod.mk.injEq, eq_comm]

@[simp] theorem reads_bind {f : α → Decoder β} {y : β} :
    Reads (d >>= f) bytes y rest ↔ ∃ x mid, Reads d bytes x mid ∧ Reads (f x) mid y rest := by
  have hb : (d >>= f) bytes = (d bytes).bind fun r => f r.1 r.2 := rfl
  cases hd : d bytes with
  | error e => simp [Reads, hb, hd, Except.bind]
  | ok r =>
    obtain ⟨x, mid⟩ := r
    simp [Reads, hb, hd, Except.bind, and_assoc]

@[simp] theorem reads_map {f : α → β} {y : β} :
    Reads (f <$> d) bytes y rest ↔ ∃ x, Reads d bytes x rest ∧ y = f x := by
  rw [map_eq_pure_bind, reads_bind]
  simp only [reads_pure]
  grind

theorem Reads.bind {f : α → Decoder β} {mid : List UInt8} {y : β} (h : Reads d bytes x mid)
    (hf : Reads (f x) mid y rest) : Reads (d >>= f) bytes y rest :=
  reads_bind.2 ⟨x, mid, h, hf⟩

@[simp] theorem not_reads_fail {e : DecodeError} : ¬ Reads (fail e) bytes x rest := by
  simp [Reads, fail]

@[simp] theorem reads_within {place : Place} :
    Reads (within place d) bytes x rest ↔ Reads d bytes x rest := by
  unfold Reads within
  split <;> simp_all

@[simp] theorem reads_concealing {place : Place} :
    Reads (concealing place d) bytes x rest ↔ Reads d bytes x rest := by
  unfold Reads concealing
  split <;> simp_all

@[simp] theorem reads_byte {b : UInt8} : Reads byte bytes b rest ↔ bytes = b :: rest := by
  cases bytes <;> simp [Reads, byte]

@[simp] theorem reads_remaining {n : Nat} :
    Reads remaining bytes n rest ↔ n = bytes.length ∧ rest = bytes := by
  simp only [Reads, remaining, Except.ok.injEq, Prod.mk.injEq, eq_comm]

@[simp] theorem reads_atEnd {b : Bool} :
    Reads atEnd bytes b rest ↔ b = bytes.isEmpty ∧ rest = bytes := by
  simp only [Reads, atEnd, Except.ok.injEq, Prod.mk.injEq, eq_comm]

@[simp] theorem reads_all {part : List UInt8} :
    Reads all bytes part rest ↔ part = bytes ∧ rest = [] := by
  simp only [Reads, all, Except.ok.injEq, Prod.mk.injEq, eq_comm]

@[simp] theorem reads_fits {role : SizeRole} {n : Nat} {u : Unit} :
    Reads (fits role n) bytes u rest ↔ n ≤ bytes.length ∧ rest = bytes := by
  unfold Reads fits
  by_cases h : n ≤ bytes.length <;> simp [h, @eq_comm _ bytes]

@[simp] theorem reads_upTo {n : Nat} {part : List UInt8} :
    Reads (upTo n) bytes part rest ↔ part = bytes.take n ∧ rest = bytes.drop n := by
  simp only [Reads, upTo, Except.ok.injEq, Prod.mk.injEq, eq_comm]

@[simp] theorem reads_exactly {n : Nat} {part : List UInt8} :
    Reads (exactly n) bytes part rest ↔ part.length = n ∧ bytes = part ++ rest := by
  unfold Reads exactly
  by_cases h : n ≤ bytes.length
  · simp only [hasBytes_iff, h, ↓reduceIte, Except.ok.injEq, Prod.mk.injEq]
    constructor
    · rintro ⟨rfl, rfl⟩
      simp [h]
    · rintro ⟨rfl, rfl⟩
      simp
  · simp only [hasBytes_iff, h, ↓reduceIte, reduceCtorEq, false_iff, not_and]
    rintro rfl rfl
    simp at h

@[simp] theorem reads_nested {part left : List UInt8} :
    Reads (nested part d) bytes (x, left) rest ↔ Reads d part x left ∧ rest = bytes := by
  unfold Reads nested
  cases d part <;> simp [eq_comm]

/-! ### Decoders and encoders -/

/-- The decoder reads back every valid value from its encoding, whatever follows. -/
def Restores (d : Decoder α) (encode : α → List UInt8) (valid : α → Prop) : Prop :=
  ∀ x rest, valid x → (encode x).length < 2 ^ 32 → Reads d (encode x ++ rest) x rest

/-- What the decoder reads is valid, and its encoding is no longer than what was taken. -/
def Compacts (d : Decoder α) (encode : α → List UInt8) (valid : α → Prop) : Prop :=
  ∀ bytes x rest, Reads d bytes x rest →
    valid x ∧ (encode x).length + rest.length ≤ bytes.length

variable {encode : α → List UInt8} {valid : α → Prop}

theorem Restores.within {place : Place} (h : Restores d encode valid) :
    Restores (within place d) encode valid :=
  fun x rest hx hlen => reads_within.2 (h x rest hx hlen)

theorem Compacts.within {place : Place} (h : Compacts d encode valid) :
    Compacts (within place d) encode valid :=
  fun bytes x rest hr => h bytes x rest (reads_within.1 hr)

theorem Restores.concealing {place : Place} (h : Restores d encode valid) :
    Restores (concealing place d) encode valid :=
  fun x rest hx hlen => reads_concealing.2 (h x rest hx hlen)

theorem Compacts.concealing {place : Place} (h : Compacts d encode valid) :
    Compacts (concealing place d) encode valid :=
  fun bytes x rest hr => h bytes x rest (reads_concealing.1 hr)

/-! ### Integers -/

theorem reads_u32_encodeU32 (n : UInt32) (rest : List UInt8) :
    Reads u32 (encodeU32 n ++ rest) n rest := by
  have h := Leb128.decodeUnsigned_encodeUnsigned n.toNat_lt rest
  simp [Reads, u32, encodeU32, h]

theorem u32_restores : Restores u32 encodeU32 fun _ => True :=
  fun n rest _ _ => reads_u32_encodeU32 n rest

theorem length_le_of_reads_u32 {n : UInt32} (h : Reads u32 bytes n rest) :
    (encodeU32 n).length + rest.length ≤ bytes.length := by
  unfold Reads u32 at h
  split at h
  · rename_i k left hd
    obtain ⟨rfl, rfl⟩ : UInt32.ofNat k = n ∧ left = rest := by simpa using h
    obtain ⟨hk, hlen⟩ := Leb128.decodeUnsigned_spec hd
    rwa [encodeU32, UInt32.toNat_ofNat_of_lt' hk]
  · cases h

theorem u32_compacts : Compacts u32 encodeU32 fun _ => True :=
  fun _ _ _ h => ⟨trivial, length_le_of_reads_u32 h⟩

theorem length_encodeU32_pos (n : UInt32) : 0 < (encodeU32 n).length :=
  Leb128.length_encodeUnsigned_pos n.toNat

theorem encodeCount_toNat (n : UInt32) : encodeCount n.toNat = encodeU32 n := by
  simp [encodeCount]

theorem reads_u32_encodeCount {n : Nat} (h : n < 2 ^ 32) (rest : List UInt8) :
    ∃ k : UInt32, k.toNat = n ∧ Reads u32 (encodeCount n ++ rest) k rest :=
  ⟨.ofNat n, UInt32.toNat_ofNat_of_lt' h, reads_u32_encodeU32 _ _⟩

theorem length_encodeUnsigned_mono {m n : Nat} (h : m ≤ n) :
    (Leb128.encodeUnsigned m).length ≤ (Leb128.encodeUnsigned n).length := by
  induction n using Nat.strongRecOn generalizing m with
  | ind n ih =>
    rw [Leb128.encodeUnsigned, Leb128.encodeUnsigned.eq_1 n]
    by_cases hm : m < 128
    · rw [if_pos hm]
      split <;> simp
    · have hrec := ih (n / 128) (by omega) (Nat.div_le_div_right h : m / 128 ≤ n / 128)
      rw [if_neg hm, if_neg (by omega)]
      simpa using hrec

/-! ### Parts with their size -/

/-- The bytes of a part whose size stands before it. -/
def part (place : Place) (role : SizeRole) : Decoder (List UInt8) := do
  let size ← within place u32
  fits role size.toNat
  upTo size.toNat

theorem part_bind (place : Place) (role : SizeRole) (d : List UInt8 → Decoder α) :
    part place role >>= d = (do
      let size ← within place u32
      fits role size.toNat
      d (← upTo size.toNat)) := by
  simp only [part, bind_assoc]

theorem part_restores {place : Place} {role : SizeRole} :
    Restores (part place role) sized fun _ => True := by
  intro xs rest _ hlen
  have hxs : xs.length < 2 ^ 32 := by
    simp only [sized, List.length_append] at hlen
    omega
  obtain ⟨n, hn, hr⟩ := reads_u32_encodeCount hxs (xs ++ rest)
  rw [sized, List.append_assoc]
  refine (reads_within.2 hr).bind ?_
  simp [hn]

theorem part_compacts {place : Place} {role : SizeRole} :
    Compacts (part place role) sized fun xs => xs.length < 2 ^ 32 := by
  intro bytes xs rest h
  simp only [part, reads_bind, reads_within, reads_fits, reads_upTo] at h
  obtain ⟨n, _, hr, _, mid, ⟨hn, rfl⟩, rfl, rfl⟩ := h
  have hlen := length_le_of_reads_u32 hr
  have hpart : (mid.take n.toNat).length = n.toNat := List.length_take_of_le hn
  have hlt := n.toNat_lt
  refine ⟨by omega, ?_⟩
  rw [sized, hpart, encodeCount_toNat]
  simp only [List.length_append, hpart, List.length_drop]
  omega

theorem length_sized_mono {xs ys : List UInt8} (h : xs.length ≤ ys.length)
    (hys : ys.length < 2 ^ 32) : (sized xs).length ≤ (sized ys).length := by
  have hxs : xs.length < 2 ^ 32 := by omega
  have := length_encodeUnsigned_mono h
  simp only [sized, encodeCount, encodeU32, List.length_append, UInt32.toNat_ofNat_of_lt' hxs,
    UInt32.toNat_ofNat_of_lt' hys]
  omega

theorem length_sized_pos (xs : List UInt8) : 0 < (sized xs).length := by
  have := length_encodeU32_pos (.ofNat xs.length)
  simp only [sized, encodeCount, List.length_append]
  omega

theorem length_lt_of_sized {xs : List UInt8} {n : Nat} (h : (sized xs).length < n) :
    xs.length < n := by
  simp only [sized, List.length_append] at h
  omega

/-! ### Text -/

theorem toList_loop_eq (bs : ByteArray) (i : Nat) (r : List UInt8) :
    ByteArray.toList.loop bs i r = r.reverse ++ bs.data.toList.drop i := by
  -- the loop collects in reverse what stands from position `i` on
  fun_induction ByteArray.toList.loop bs i r with
  | case1 i r h ih =>
    have hi : i < bs.data.toList.length := by simpa using h
    rw [ih, List.drop_eq_getElem_cons hi]
    simp [ByteArray.get!, getElem!_pos, h]
  | case2 i r h =>
    have hi : bs.data.toList.length ≤ i := by simpa using h
    rw [List.drop_eq_nil_of_le hi, List.append_nil]

theorem toList_eq_data (bs : ByteArray) : bs.toList = bs.data.toList := by
  rw [ByteArray.toList, toList_loop_eq]
  simp

theorem fromUTF8?_eq_some {bytes : List UInt8} {s : String} :
    String.fromUTF8? ⟨bytes.toArray⟩ = some s ↔ bytes = s.toUTF8.toList := by
  rw [toList_eq_data, String.toUTF8_eq_toByteArray, String.fromUTF8?]
  constructor
  · intro h
    split at h
    · rw [← Option.some.inj h]
      simp [String.fromUTF8]
    · cases h
  · rintro rfl
    rw [dif_pos (by simpa using s.isValidUTF8)]
    simp [String.fromUTF8]

theorem text_eq (role : TextRole) :
    text role = (do
      let bytes ← part (.textSize role) (.name role)
      match String.fromUTF8? ⟨bytes.toArray⟩ with
      | some s => pure s
      | none => fail (.flaw (.notUtf8 role))) :=
  (part_bind _ _ _).symm

theorem text_restores {role : TextRole} : Restores (text role) encodeText fun _ => True := by
  intro s rest _ hlen
  rw [text_eq]
  refine (part_restores _ _ trivial hlen).bind ?_
  rw [fromUTF8?_eq_some.2 rfl]
  simp

theorem text_compacts {role : TextRole} : Compacts (text role) encodeText fun _ => True := by
  intro bytes s rest h
  rw [text_eq] at h
  obtain ⟨xs, mid, hp, h⟩ := reads_bind.1 h
  split at h
  · rename_i t ht
    obtain ⟨rfl, rfl⟩ := reads_pure.1 h
    rw [fromUTF8?_eq_some.1 ht] at hp
    exact ⟨trivial, (part_compacts _ _ _ hp).2⟩
  · exact absurd h not_reads_fail

/-! ### Vectors -/

/-- Items with their number before them. -/
def counted (place : Place) (role : SizeRole) (item : Nat → Decoder α) : Decoder (List α) := do
  let n ← within place u32
  fits role n.toNat
  repeated n.toNat item

variable {item : Nat → Decoder α}

theorem repeated_restores (h : ∀ i, Restores (item i) encode valid) (xs : List α) (i : Nat)
    (rest : List UInt8) (hxs : ∀ x ∈ xs, valid x)
    (hlen : (xs.map encode).flatten.length < 2 ^ 32) :
    Reads (repeated.go item xs.length i) ((xs.map encode).flatten ++ rest) xs rest := by
  induction xs generalizing i with
  | nil => simp [repeated.go]
  | cons x xs ih =>
    simp only [List.map_cons, List.flatten_cons, List.length_append] at hlen
    simp only [List.length_cons, repeated.go, List.map_cons, List.flatten_cons, List.append_assoc]
    refine (h i x _ (hxs x List.mem_cons_self) (by omega)).bind ?_
    refine (ih (i + 1) (fun y hy => hxs y (List.mem_cons_of_mem x hy)) (by omega)).bind ?_
    simp

theorem repeated_compacts (h : ∀ i, Compacts (item i) encode valid) {n i : Nat}
    {xs : List α} (hr : Reads (repeated.go item n i) bytes xs rest) :
    xs.length = n ∧ (∀ x ∈ xs, valid x) ∧
      (xs.map encode).flatten.length + rest.length ≤ bytes.length := by
  induction n generalizing i bytes xs with
  | zero =>
    obtain ⟨rfl, rfl⟩ := reads_pure.1 hr
    simp
  | succ n ih =>
    simp only [repeated.go, reads_bind, reads_pure] at hr
    obtain ⟨x, mid, hx, ys, left, hys, rfl, rfl⟩ := hr
    obtain ⟨hvx, hlx⟩ := h i _ _ _ hx
    obtain ⟨hn, hvs, hls⟩ := ih hys
    refine ⟨by simp [hn], by simpa using ⟨hvx, hvs⟩, ?_⟩
    simp only [List.map_cons, List.flatten_cons, List.length_append]
    omega

theorem length_le_length_flatten {xs : List α} (h : ∀ x ∈ xs, 0 < (encode x).length) :
    xs.length ≤ (xs.map encode).flatten.length := by
  induction xs with
  | nil => simp
  | cons x xs ih =>
    have hx := h x List.mem_cons_self
    have hxs := ih fun y hy => h y (List.mem_cons_of_mem x hy)
    simp only [List.length_cons, List.map_cons, List.flatten_cons, List.length_append]
    omega

/-- Items in a row with their number before them. How they are read may depend on those before
them, so this is stated for whatever reads a number of items. -/
def numbered (place : Place) (role : SizeRole) (items : Nat → Decoder (List α)) :
    Decoder (List α) := do
  let n ← within place u32
  fits role n.toNat
  items n.toNat

/-- Every item takes a byte, so the number of items does not exceed that of the bytes. -/
theorem numbered_restores {place : Place} {role : SizeRole} {items : Nat → Decoder (List α)}
    {valid : List α → Prop}
    (h : ∀ xs rest, valid xs → (xs.map encode).flatten.length < 2 ^ 32 →
      Reads (items xs.length) ((xs.map encode).flatten ++ rest) xs rest)
    (hpos : ∀ xs, valid xs → ∀ x ∈ xs, 0 < (encode x).length) :
    Restores (numbered place role items) (fun xs => encodeVector (xs.map encode)) valid := by
  intro xs rest hxs hlen
  have hcount := length_le_length_flatten (hpos xs hxs)
  simp only [encodeVector, List.length_append, List.length_map] at hlen
  obtain ⟨n, hn, hr⟩ :=
    reads_u32_encodeCount (by omega : xs.length < 2 ^ 32) ((xs.map encode).flatten ++ rest)
  simp only [encodeVector, List.length_map, List.append_assoc]
  refine (reads_within.2 hr).bind (Reads.bind (x := ()) (reads_fits.2 ⟨?_, rfl⟩) ?_)
  · rw [hn, List.length_append]
    omega
  · rw [hn]
    exact h xs rest hxs (by omega)

theorem numbered_compacts {place : Place} {role : SizeRole} {items : Nat → Decoder (List α)}
    {valid : List α → Prop}
    (h : ∀ {n bytes xs rest}, Reads (items n) bytes xs rest → xs.length = n ∧ valid xs ∧
      (xs.map encode).flatten.length + rest.length ≤ bytes.length) :
    Compacts (numbered place role items) (fun xs => encodeVector (xs.map encode)) valid := by
  intro bytes xs rest hr
  simp only [numbered, reads_bind, reads_within, reads_fits] at hr
  obtain ⟨n, _, hn, _, mid, ⟨-, rfl⟩, hr⟩ := hr
  have hlen := length_le_of_reads_u32 hn
  obtain ⟨hcount, hvs, hls⟩ := h hr
  refine ⟨hvs, ?_⟩
  -- the count that was read is the one that is written, in its shortest form
  simp only [encodeVector, List.length_map, hcount, encodeCount_toNat, List.length_append]
  omega

theorem counted_eq (place : Place) (role : SizeRole) (item : Nat → Decoder α) :
    counted place role item = numbered place role fun n => repeated n item := rfl

theorem counted_restores {place : Place} {role : SizeRole}
    (h : ∀ i, Restores (item i) encode valid) (hpos : ∀ x, valid x → 0 < (encode x).length) :
    Restores (counted place role item) (fun xs => encodeVector (xs.map encode))
      fun xs => ∀ x ∈ xs, valid x := by
  rw [counted_eq]
  refine numbered_restores (fun xs rest hxs hlen => ?_) fun xs hxs x hx => hpos x (hxs x hx)
  exact repeated_restores h xs 0 rest hxs hlen

theorem counted_compacts {place : Place} {role : SizeRole}
    (h : ∀ i, Compacts (item i) encode valid) :
    Compacts (counted place role item) (fun xs => encodeVector (xs.map encode))
      fun xs => ∀ x ∈ xs, valid x := by
  rw [counted_eq]
  exact numbered_compacts fun hr => repeated_compacts h hr

end Decoder

end WasmCore.Binary
