import WasmCore.Proofs.Binary.Classes

/-!
# Readers

A stream is what a reader delivers. A `Reader` gives its bytes a portion at a time, as few as it
likes, and a `ByteReader` gives single bytes as well. Modules are decoded from the latter, section
by section: the header and the contents of sections are gathered from portions, ids and sizes are
read byte by byte. A reader without single bytes is read through a buffer (`Reader.buffered`).

Of all this nothing can be seen in the result: it is that of decoding the stream of bytes that the
reader delivers, in whatever portions they come (`Source.decode_eq`).
-/

namespace WasmCore.Binary

/-! ### Readers -/

/-- A source of bytes that is read a portion at a time. -/
structure Reader where
  State : Type
  /-- The bytes that are still to come. -/
  pending : State → List UInt8
  /-- What comes after the last of them. -/
  ending : Ending
  /-- The next bytes, at most as many as asked for. If there are none, the reader has come to its
  ending. -/
  read : Nat → State → List UInt8 × State
  read_append (n : Nat) (s : State) : (read n s).1 ++ pending (read n s).2 = pending s
  length_read_le (n : Nat) (s : State) : (read n s).1.length ≤ n
  pending_of_read {n : Nat} {s : State} (hn : 0 < n) (h : (read n s).1 = []) : pending s = []

/-- A reader that gives single bytes as well. -/
structure ByteReader extends Reader where
  /-- The next byte. If there is none, the reader has come to its ending. -/
  readByte : State → Option (UInt8 × State)
  pending_readByte (s : State) :
    pending s = (readByte s).elim [] fun found => found.1 :: pending found.2

namespace Reader

variable (r : Reader)

/-- The stream that the reader is going to deliver. -/
def stream (s : r.State) : Stream := ⟨r.pending s, r.ending⟩

/-! ### Buffers -/

/-- How many bytes are buffered at once. -/
def bufferSize : Nat := 4096

/-- The next bytes, out of the buffer if there are any in it. Many bytes at a time are not put into
the buffer. -/
def readBuffered (n : Nat) : List UInt8 × r.State → List UInt8 × (List UInt8 × r.State)
  | ([], s) =>
    if bufferSize ≤ n then ((r.read n s).1, [], (r.read n s).2)
    else ((r.read bufferSize s).1.take n, (r.read bufferSize s).1.drop n, (r.read bufferSize s).2)
  | (b :: buffer, s) => ((b :: buffer).take n, (b :: buffer).drop n, s)

/-- The next byte, out of the buffer. -/
def readBufferedByte : List UInt8 × r.State → Option (UInt8 × (List UInt8 × r.State))
  | ([], s) =>
    match r.read bufferSize s with
    | ([], _) => none
    | (b :: buffer, next) => some (b, buffer, next)
  | (b :: buffer, s) => some (b, buffer, s)

/-- The bytes in the buffer, and those that are still to come. -/
def bufferedPending (s : List UInt8 × r.State) : List UInt8 := s.1 ++ r.pending s.2

theorem readBuffered_append (n : Nat) (s : List UInt8 × r.State) :
    (r.readBuffered n s).1 ++ r.bufferedPending (r.readBuffered n s).2 = r.bufferedPending s := by
  unfold bufferedPending
  match s with
  | ([], s) =>
    rw [readBuffered]
    split
    · exact r.read_append n s
    · rw [← List.append_assoc, List.take_append_drop]
      exact r.read_append bufferSize s
  | (b :: buffer, s) => rw [readBuffered, ← List.append_assoc, List.take_append_drop]

theorem length_readBuffered_le (n : Nat) (s : List UInt8 × r.State) :
    (r.readBuffered n s).1.length ≤ n := by
  match s with
  | ([], s) =>
    rw [readBuffered]
    split
    · exact r.length_read_le n s
    · exact List.length_take_le _ _
  | (b :: buffer, s) => exact List.length_take_le _ _

theorem pending_of_readBuffered {n : Nat} {s : List UInt8 × r.State} (hn : 0 < n)
    (h : (r.readBuffered n s).1 = []) : r.bufferedPending s = [] := by
  match s with
  | ([], s) =>
    rw [readBuffered] at h
    split at h
    · exact r.pending_of_read hn h
    · -- the buffer was filled before bytes were taken out of it
      have hnone := (List.take_eq_nil_iff.1 h).resolve_left (Nat.ne_of_gt hn)
      exact r.pending_of_read (by decide) hnone
  | (b :: buffer, s) =>
    cases (List.take_eq_nil_iff.1 h).resolve_left (Nat.ne_of_gt hn)

theorem pending_readBufferedByte (s : List UInt8 × r.State) : r.bufferedPending s =
    (r.readBufferedByte s).elim [] fun found => found.1 :: r.bufferedPending found.2 := by
  match s with
  | ([], s) =>
    have happend := r.read_append bufferSize s
    rw [readBufferedByte]
    match hread : r.read bufferSize s with
    | ([], next) => exact r.pending_of_read (by decide) (congrArg Prod.fst hread)
    | (b :: buffer, next) =>
      rw [hread] at happend
      exact happend.symm
  | (b :: buffer, s) => rfl

/-- The reader with a buffer before it, from which single bytes can be taken. -/
def buffered : ByteReader where
  State := List UInt8 × r.State
  pending := r.bufferedPending
  ending := r.ending
  read := r.readBuffered
  read_append := r.readBuffered_append
  length_read_le := r.length_readBuffered_le
  pending_of_read := r.pending_of_readBuffered
  readByte := r.readBufferedByte
  pending_readByte := r.pending_readBufferedByte

/-! ### Portions -/

/-- Reads until there are `n` bytes, or no more come. -/
def gather (n : Nat) (s : r.State) : List UInt8 × r.State :=
  if n = 0 then ([], s)
  else
    match r.read n s with
    | ([], next) => ([], next)
    | (b :: part, next) =>
      let (more, last) := gather (n - (b :: part).length) next
      (b :: part ++ more, last)
termination_by n
decreasing_by
  simp only [List.length_cons]
  omega

/-- However small the portions are, the first `n` bytes are gathered. -/
theorem gather_eq (n : Nat) (s : r.State) :
    (r.gather n s).1 = (r.pending s).take n ∧
      r.pending (r.gather n s).2 = (r.pending s).drop n := by
  fun_induction r.gather n s with
  | case1 s => exact ⟨rfl, rfl⟩
  | case2 n s hn next hread =>
    have happend := r.read_append n s
    have hnone := r.pending_of_read (Nat.pos_of_ne_zero hn) (congrArg Prod.fst hread)
    rw [hread, hnone] at happend
    rw [hnone, List.take_nil, List.drop_nil]
    exact ⟨rfl, happend⟩
  | case3 n s hn b part next hread more last hmore ih =>
    have happend := r.read_append n s
    have hlength := r.length_read_le n s
    rw [hread] at happend hlength
    rw [hmore] at ih
    -- the portion is among the first `n` bytes, so it is cut off whole
    rw [← happend, List.take_append, List.drop_append, List.take_of_length_le hlength,
      List.drop_of_length_le hlength]
    exact ⟨congrArg (b :: part ++ ·) ih.1, ih.2⟩

end Reader

namespace ByteReader

variable (r : ByteReader) {s next : r.State} {b : UInt8}

theorem pending_of_none (h : r.readByte s = none) : r.pending s = [] := by
  rw [r.pending_readByte, h]
  rfl

theorem pending_of_some (h : r.readByte s = some (b, next)) :
    r.pending s = b :: r.pending next := by
  rw [r.pending_readByte, h]
  rfl

/-- Delivers the bytes of a list, at most `k + 1` of them at a time. -/
def trickling (k : Nat) (ending : Ending) : ByteReader where
  State := List UInt8
  pending bytes := bytes
  ending := ending
  read n bytes := (bytes.take (min n (k + 1)), bytes.drop (min n (k + 1)))
  read_append n bytes := List.take_append_drop _ bytes
  length_read_le n bytes := by
    rw [List.length_take]
    omega
  pending_of_read {n bytes} hn h := by
    have hasked : min n (k + 1) ≠ 0 := by omega
    exact (List.take_eq_nil_iff.1 h).resolve_left hasked
  readByte bytes := bytes.head?.map fun b => (b, bytes.tail)
  pending_readByte bytes := by cases bytes <;> rfl

/-! ### Headers -/

/-- Gathers four bytes of the header. -/
def headerField (place : Place) (s : r.State) : Except DecodeError (List UInt8 × r.State) :=
  let (field, next) := r.gather 4 s
  if field.length = 4 then .ok (field, next) else .error (.within place r.ending.error)

/-- Reads the header. -/
def readHeader (s : r.State) : Except DecodeError r.State := do
  let (magic, s) ← r.headerField .magic s
  if magic = magicNumber then
    let (version, s) ← r.headerField .version s
    if version = formatVersion then .ok s else .error (.version version)
  else .error .magic

theorem headerField_eq (place : Place) (s : r.State) :
    Binary.headerField place (r.stream s) =
      (r.headerField place s).map fun found => (found.1, r.stream found.2) := by
  obtain ⟨hfield, hnext⟩ := r.gather_eq 4 s
  unfold Binary.headerField headerField Reader.stream
  generalize r.gather 4 s = gathered at hfield hnext ⊢
  obtain ⟨field, next⟩ := gathered
  obtain rfl : field = (r.pending s).take 4 := hfield
  have hlength : ((r.pending s).take 4).length = 4 ↔ hasBytes 4 (r.pending s) = true := by
    rw [List.length_take, hasBytes_iff]
    omega
  dsimp only at hnext ⊢
  by_cases hlong : hasBytes 4 (r.pending s) = true
  · rw [if_pos hlong, if_pos (hlength.2 hlong), ← hnext]
    rfl
  · rw [if_neg hlong, if_neg (mt hlength.1 hlong)]
    rfl

theorem readHeader_eq (s : r.State) :
    Binary.readHeader (r.stream s) = (r.readHeader s).map r.stream := by
  unfold Binary.readHeader readHeader
  rw [r.headerField_eq]
  rcases r.headerField .magic s with e | ⟨magic, next⟩
  · rfl
  simp only [Except.map, bind, Except.bind]
  by_cases hmagic : magic = magicNumber
  · simp only [hmagic, ↓reduceIte, r.headerField_eq]
    rcases r.headerField .version next with e | ⟨version, last⟩
    · rfl
    simp only [Except.map]
    by_cases hversion : version = formatVersion
    · simp only [hversion, ↓reduceIte]
    · simp only [hversion, ↓reduceIte]
  · simp only [hmagic, ↓reduceIte]

/-! ### Integers -/

/-- Reads an unsigned integer of which `bits` bits are still to come, byte by byte. -/
def readUnsigned (bits : Nat) (s : r.State) : Except Leb128.Error Nat × r.State :=
  match r.readByte s with
  | none => (.error .endOfInput, s)
  | some (b, next) =>
    if bits < 7 then
      if Leb128.continues b || decide (2 ^ bits ≤ b.toNat) then (.error .overflow, next)
      else (.ok b.toNat, next)
    else if Leb128.continues b then
      match readUnsigned (bits - 7) next with
      | (.ok high, last) => (.ok (b.toNat % 128 + 128 * high), last)
      | (.error e, last) => (.error e, last)
    else (.ok b.toNat, next)
termination_by bits

theorem readUnsigned_eq (bits : Nat) (s : r.State) :
    Leb128.decodeUnsigned bits (r.pending s) =
      ((r.readUnsigned bits s).1, r.pending (r.readUnsigned bits s).2) := by
  induction bits using Nat.strongRecOn generalizing s with
  | ind bits ih =>
    rw [readUnsigned]
    cases hbyte : r.readByte s with
    | none =>
      rw [r.pending_of_none hbyte]
      rfl
    | some found =>
      obtain ⟨b, next⟩ := found
      rw [r.pending_of_some hbyte, Leb128.decodeUnsigned]
      dsimp only
      split
      · split <;> rfl
      · split
        · rw [ih (bits - 7) (by omega) next]
          rcases r.readUnsigned (bits - 7) next with ⟨high | e, last⟩ <;> rfl
        · rfl

/-! ### Sections -/

/-- Reads the size of a section. -/
def sectionSize (id : SectionId) (s : r.State) : Except DecodeError (Nat × r.State) :=
  match r.readUnsigned 32 s with
  | (.ok n, next) => .ok (n, next)
  | (.error .overflow, _) => .error (.within (.sectionSize id) (.invalid .overflow))
  | (.error .endOfInput, _) =>
    match r.ending with
    | .clean => .error (.within (.sectionSize id) .truncated)
    | .failing reason => .error (.within (.sectionSize id) (.within .integer (.source reason)))

/-- Gathers the payload of a section. -/
def sectionPayload (id : SectionId) (size : Nat) (s : r.State) :
    Except DecodeError (List UInt8 × r.State) :=
  let (payload, next) := r.gather size s
  if payload.length = size then .ok (payload, next)
  else
    match r.ending with
    | .clean => .error (.within (.sectionShort id payload.length size) .truncated)
    | .failing reason => .error (.within (.sectionBytes id) (.source reason))

/-- Reads the next section, unless the reader has come to a clean end. -/
def readFrame (s : r.State) : Except DecodeError (Option (Frame × r.State)) :=
  match r.readByte s with
  | none =>
    match r.ending with
    | .clean => .ok none
    | .failing reason => .error (.within .sectionId (.source reason))
  | some (b, s) => do
    let (size, s) ← r.sectionSize (.ofByte b) s
    let (payload, s) ← r.sectionPayload (.ofByte b) size s
    pure (some (⟨.ofByte b, payload⟩, s))

theorem sectionSize_eq (id : SectionId) (s : r.State) :
    Binary.sectionSize id (r.stream s) =
      (r.sectionSize id s).map fun found => (found.1, r.pending found.2) := by
  have hread := r.readUnsigned_eq 32 s
  unfold Binary.sectionSize sectionSize Reader.stream
  dsimp only
  rw [hread]
  rcases r.readUnsigned 32 s with ⟨n | e, next⟩
  · cases n with
    | overflow => rfl
    | endOfInput => cases r.ending <;> rfl
  · rfl

theorem sectionPayload_eq (id : SectionId) (size : Nat) (s : r.State) :
    Binary.sectionPayload id size (r.stream s) =
      (r.sectionPayload id size s).map fun found => (found.1, r.pending found.2) := by
  obtain ⟨hpayload, hnext⟩ := r.gather_eq size s
  unfold Binary.sectionPayload sectionPayload Reader.stream
  generalize r.gather size s = gathered at hpayload hnext ⊢
  obtain ⟨payload, next⟩ := gathered
  obtain rfl : payload = (r.pending s).take size := hpayload
  dsimp only at hnext ⊢
  by_cases hlong : hasBytes size (r.pending s) = true
  · rw [if_pos hlong, if_pos (List.length_take_of_le (hasBytes_iff.1 hlong)), ← hnext]
    rfl
  · have hshort : (r.pending s).length < size := Nat.lt_of_not_le (mt hasBytes_iff.2 hlong)
    rw [if_neg hlong, List.take_of_length_le (Nat.le_of_lt hshort), if_neg (Nat.ne_of_lt hshort)]
    cases r.ending <;> rfl

/-- After a section there are fewer bytes than before. -/
theorem length_pending_of_readFrame {f : Frame} (h : r.readFrame s = .ok (some (f, next))) :
    (r.pending next).length < (r.pending s).length := by
  unfold readFrame at h
  cases hbyte : r.readByte s with
  | none =>
    rw [hbyte] at h
    cases hending : r.ending <;> simp [hending] at h
  | some found =>
    obtain ⟨b, afterId⟩ := found
    have hsize := r.sectionSize_eq (.ofByte b) afterId
    rw [hbyte] at h
    dsimp only [bind, Except.bind] at h
    cases hread : r.sectionSize (.ofByte b) afterId with
    | error e =>
      rw [hread] at h
      cases h
    | ok sized =>
      obtain ⟨size, afterSize⟩ := sized
      rw [hread] at h hsize
      dsimp only at h
      have hpayload := r.sectionPayload_eq (.ofByte b) size afterSize
      cases hgather : r.sectionPayload (.ofByte b) size afterSize with
      | error e =>
        rw [hgather] at h
        cases h
      | ok gathered =>
        rw [hgather] at h hpayload
        cases h
        have hle : _ + (r.pending afterSize).length ≤ (r.pending afterId).length :=
          (sectionSize_spec hsize).2
        have hsum : (r.pending afterSize).length = size + (r.pending gathered.2).length :=
          (sectionPayload_spec hpayload).2
        rw [r.pending_of_some hbyte, List.length_cons]
        omega

/-- The sections that are cut off a stream are those that the reader gives. -/
theorem framesFrom_eq {fuel : Nat} (hfuel : (r.pending s).length ≤ fuel) :
    framesFrom r.ending fuel (r.pending s) =
      match r.readFrame s with
      | .error e => ([], some e)
      | .ok none => ([], none)
      | .ok (some (f, next)) =>
        (f :: (framesFrom r.ending (fuel - 1) (r.pending next)).1,
          (framesFrom r.ending (fuel - 1) (r.pending next)).2) := by
  unfold readFrame
  cases hbyte : r.readByte s with
  | none =>
    rw [r.pending_of_none hbyte]
    cases hending : r.ending <;> cases fuel <;> simp [framesFrom]
  | some found =>
    obtain ⟨b, afterId⟩ := found
    rw [r.pending_of_some hbyte] at hfuel ⊢
    obtain ⟨fuel, rfl⟩ := Nat.exists_eq_add_of_lt (Nat.zero_lt_of_lt hfuel)
    have hsize := r.sectionSize_eq (.ofByte b) afterId
    rw [Reader.stream] at hsize
    simp only [framesFrom, hsize, bind, Except.bind]
    rcases r.sectionSize (.ofByte b) afterId with e | ⟨size, afterSize⟩
    · rfl
    have hpayload := r.sectionPayload_eq (.ofByte b) size afterSize
    rw [Reader.stream] at hpayload
    simp only [Except.map, hpayload]
    rcases r.sectionPayload (.ofByte b) size afterSize with e | ⟨payload, last⟩ <;> rfl

end ByteReader

/-! ### Modules -/

theorem Draft.complete_cons (d : Draft) (f : Frame) (fs : List Frame)
    (failure : Option DecodeError) :
    d.complete (f :: fs, failure) = (d.add f).bind fun d => d.complete (fs, failure) := by
  simp only [complete, addAll]
  cases d.add f <;> rfl

namespace ByteReader

variable (r : ByteReader)

/-- Decodes one section after the other, until the reader comes to its ending. -/
def decodeSections (d : Draft) (s : r.State) : Except DecodeError Module :=
  match h : r.readFrame s with
  | .error e => .error e
  | .ok none => d.finish
  | .ok (some (f, next)) =>
    have := r.length_pending_of_readFrame h
    match d.add f with
    | .error e => .error e
    | .ok d => decodeSections d next
termination_by (r.pending s).length

/-- Decodes a module. -/
def decode (s : r.State) : Except DecodeError Module := do
  let s ← r.readHeader s
  r.decodeSections {} s

theorem decodeSections_eq (d : Draft) (s : r.State) {fuel : Nat}
    (hfuel : (r.pending s).length ≤ fuel) :
    r.decodeSections d s = d.complete (framesFrom r.ending fuel (r.pending s)) := by
  fun_induction r.decodeSections d s generalizing fuel with
  | case1 d s e h =>
    rw [r.framesFrom_eq hfuel, h]
    rfl
  | case2 d s h =>
    rw [r.framesFrom_eq hfuel, h]
    rfl
  | case3 d s f next h hless e hadd =>
    rw [r.framesFrom_eq hfuel, h]
    dsimp only
    rw [Draft.complete_cons, hadd]
    rfl
  | case4 d s f next h hless d' hadd ih =>
    rw [r.framesFrom_eq hfuel, h]
    dsimp only
    rw [Draft.complete_cons, hadd]
    exact ih (by omega)

theorem decode_eq (s : r.State) : r.decode s = Binary.decode (r.stream s) := by
  rw [decode_eq_complete, r.readHeader_eq, decode]
  cases r.readHeader s with
  | error e => rfl
  | ok next => exact r.decodeSections_eq {} next (Nat.le_refl _)

end ByteReader

/-! ### Sources -/

/-- A reader from which a module is decoded, with its state. -/
inductive Source where
  /-- Single bytes are not offered. -/
  | portions (r : Reader) (s : r.State)
  /-- Single bytes are offered. -/
  | bytes (r : ByteReader) (s : r.State)

namespace Source

/-- The stream that is delivered. -/
def stream : Source → Stream
  | portions r s => r.stream s
  | bytes r s => r.stream s

/-- Decodes a module. A reader that offers no single bytes is read through a buffer. -/
def decode : Source → Except DecodeError Module
  | portions r s => r.buffered.decode ([], s)
  | bytes r s => r.decode s

/-- **Only the stream matters.** However few bytes the reader delivers at a time, and whether it
offers single bytes or not, the result is that of decoding the stream. -/
theorem decode_eq (src : Source) : src.decode = Binary.decode src.stream := by
  cases src with
  | portions r s => exact r.buffered.decode_eq ([], s)
  | bytes r s => exact r.decode_eq s

end Source

end WasmCore.Binary
