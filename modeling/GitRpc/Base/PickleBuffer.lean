import GitRpc.Base.PickleFormat

/-!
What the allocation of a pickle holds, and that a write appends the fields of
its value to the payload, wherever the allocation has to grow for it.
-/

namespace GitRpc.Base

open Library.Allocations Library.LittleEndian

/-- The block of a pickle can be read, and its payload is these bytes. The next field
may be written in front of the end of the payload, but not behind it. -/
structure Readable (pickle : Pickle) (block : Block UInt8) (bytes : List UInt8) : Prop where
  header : pickle.header = some block
  size : load block 0 sizeofHeader = some (toBytes sizeofHeader bytes.length)
  payload : load block pickle.headerSize bytes.length = some bytes
  headerRoom : sizeofHeader ≤ pickle.headerSize
  headerSmall : pickle.headerSize ≤ 2 ^ 31
  payloadSmall : bytes.length < 2 ^ 32
  offset : pickle.writeOffset ≤ bytes.length

/-- The block is the pickle's own and as long as the pickle takes it to be. -/
structure Owned (pickle : Pickle) (block : Block UInt8) (bytes : List UInt8) : Prop
    extends Readable pickle block bytes where
  room : block.length = pickle.headerSize + pickle.capacityAfterHeader
  capacity : pickle.capacityAfterHeader ≤ 2 ^ 34

/-- What a write that adds these bytes leaves behind. -/
structure Wrote (pickle next : Pickle) (bytes added : List UInt8) : Prop where
  owned : ∃ block, Owned next block (bytes.take pickle.writeOffset ++ added)
  offset : next.writeOffset = pickle.writeOffset + added.length
  headerSize : next.headerSize = pickle.headerSize
  capacity : pickle.writeOffset + added.length ≤ pickle.capacityAfterHeader →
    next.capacityAfterHeader = pickle.capacityAfterHeader

/-- The write adds these bytes to every pickle that has room for them. -/
def Writes (write : Pickle → Option (Bool × Pickle)) (added : List UInt8) : Prop :=
  ∀ pickle block bytes, Owned pickle block bytes →
    pickle.writeOffset + added.length < 2 ^ 32 →
      ∃ next, write pickle = some (true, next) ∧ Wrote pickle next bytes added

variable {pickle next : Pickle} {block : Block UInt8} {bytes added : List UInt8}

theorem sizeT_of_lt {n : Nat} (hn : n < 2 ^ 64) : sizeT n = n := Nat.mod_eq_of_lt hn

theorem Readable.payloadSize (h : Readable pickle block bytes) :
    readPayloadSize block = some bytes.length := by
  have hsmall : bytes.length < 256 ^ sizeofHeader := h.payloadSmall
  rw [readPayloadSize, h.size, Option.map_some, ofBytes_toBytes_of_lt hsmall]

/-- What stands in front of the place of the next write. -/
theorem Readable.written (h : Readable pickle block bytes) :
    load block pickle.headerSize pickle.writeOffset = some (bytes.take pickle.writeOffset) := by
  have hpart : load block (pickle.headerSize + 0) pickle.writeOffset =
      some ((bytes.drop 0).take pickle.writeOffset) := load_part h.payload (by simpa using h.offset)
  simpa using hpart

section Resize

variable {newCapacity : Nat}

theorem Owned.not_readOnly (h : Owned pickle block bytes) :
    pickle.capacityAfterHeader ≠ kCapacityReadOnly := by
  have hcapacity := h.capacity
  unfold kCapacityReadOnly
  omega

/-- A block that grows keeps what it holds. -/
theorem Owned.resize (h : Owned pickle block bytes)
    (hgrow : pickle.capacityAfterHeader ≤ newCapacity) (hsmall : newCapacity ≤ 2 ^ 34 - 64) :
    ∃ next grown, pickle.resize newCapacity = some next ∧ Owned next grown bytes ∧
      newCapacity ≤ next.capacityAfterHeader ∧ next.headerSize = pickle.headerSize ∧
      next.writeOffset = pickle.writeOffset := by
  have hunit := alignInt_unit (show newCapacity < 2 ^ 63 by omega)
  have hheader := h.headerSmall
  have hroom := h.room
  have hfront := load_bound h.size
  have hback := load_bound h.payload
  let capacity := alignInt newCapacity kPayloadUnit
  let grown := realloc block (pickle.headerSize + capacity)
  have hsize : sizeT (pickle.headerSize + capacity) = pickle.headerSize + capacity :=
    sizeT_of_lt (by omega)
  refine ⟨{ pickle with header := some grown, capacityAfterHeader := capacity }, grown, ?_, ?_,
    hunit.1, rfl, rfl⟩
  · rw [Pickle.resize, ite_cond_eq_false _ _ (eq_false h.not_readOnly), hsize, h.header]
    rfl
  · exact {
      header := rfl
      size := by
        rw [load_realloc hfront (by omega)]
        exact h.size
      payload := by
        rw [load_realloc hback (by omega)]
        exact h.payload
      headerRoom := h.headerRoom
      headerSmall := h.headerSmall
      payloadSmall := h.payloadSmall
      offset := h.offset
      room := length_realloc block _
      capacity := by simp only; omega }

end Resize

section Write

variable {data : List UInt8}

/-- The stores of a write, in a block that has room for them. -/
theorem Readable.stores (h : Readable pickle block bytes) (data : List UInt8)
    (hroom : pickle.headerSize + pickle.writeOffset + (padded data).length ≤ block.length) :
    ∃ copied zeroed sized,
      store block (pickle.headerSize + pickle.writeOffset) data = some copied ∧
      store copied (pickle.headerSize + pickle.writeOffset + data.length)
        (List.replicate ((4 - data.length % 4) % 4) 0) = some zeroed ∧
      store zeroed 0 (toBytes sizeofHeader (pickle.writeOffset + (padded data).length)) =
        some sized ∧
      sized.length = block.length ∧
      load sized 0 sizeofHeader =
        some (toBytes sizeofHeader (pickle.writeOffset + (padded data).length)) ∧
      load sized pickle.headerSize (bytes.take pickle.writeOffset ++ padded data).length =
        some (bytes.take pickle.writeOffset ++ padded data) := by
  have hheader := h.headerRoom
  have hfront := load_bound h.size
  have hlength := length_padded data
  have htake : (bytes.take pickle.writeOffset).length = pickle.writeOffset :=
    List.length_take_of_le h.offset
  obtain ⟨copied, hcopied⟩ : ∃ copied,
      store block (pickle.headerSize + pickle.writeOffset) data = some copied :=
    store_exists (by omega)
  have hcopiedLength := length_store hcopied
  have hcopiedLoad : load copied pickle.headerSize
      (bytes.take pickle.writeOffset ++ data).length =
        some (bytes.take pickle.writeOffset ++ data) :=
    load_store_append (by rw [htake]; exact h.written) (by rw [htake]; exact hcopied)
  have hcopiedEnd : (bytes.take pickle.writeOffset ++ data).length =
      pickle.writeOffset + data.length := by
    rw [List.length_append, htake]
  obtain ⟨zeroed, hzeroed⟩ : ∃ zeroed,
      store copied (pickle.headerSize + pickle.writeOffset + data.length)
        (List.replicate ((4 - data.length % 4) % 4) 0) = some zeroed :=
    store_exists (by rw [List.length_replicate]; omega)
  have hzeroedLength := length_store hzeroed
  have hzeroedLoad := load_store_append hcopiedLoad
    (by rw [hcopiedEnd, ← Nat.add_assoc]; exact hzeroed)
  have hsize : (toBytes sizeofHeader (pickle.writeOffset + (padded data).length)).length =
      sizeofHeader := length_toBytes _ _
  obtain ⟨sized, hsized⟩ : ∃ sized,
      store zeroed 0 (toBytes sizeofHeader (pickle.writeOffset + (padded data).length)) =
        some sized := store_exists (by omega)
  refine ⟨copied, zeroed, sized, hcopied, hzeroed, hsized, ?_, ?_, ?_⟩
  · rw [length_store hsized, hzeroedLength, hcopiedLength]
  · have hload := load_store_same hsized
    rwa [hsize] at hload
  · rw [load_store_disjoint hsized (by omega), padded, ← List.append_assoc]
    exact hzeroedLoad

/-- Afterwards there is room up to `newSize`, and nothing moves where there was. -/
theorem Owned.resizeFor (h : Owned pickle block bytes) (newSize newCapacity : Nat)
    (hcapacity : pickle.capacityAfterHeader < newSize →
      newSize ≤ newCapacity ∧ newCapacity ≤ 2 ^ 34 - 64) :
    ∃ next grown, pickle.resizeFor newSize newCapacity = some next ∧
      Owned next grown bytes ∧ newSize ≤ next.capacityAfterHeader ∧
      next.headerSize = pickle.headerSize ∧ next.writeOffset = pickle.writeOffset ∧
      (newSize ≤ pickle.capacityAfterHeader → next = pickle) := by
  unfold Pickle.resizeFor
  rcases Nat.lt_or_ge pickle.capacityAfterHeader newSize with hgrows | hfits
  · obtain ⟨hroom, hsmall⟩ := hcapacity hgrows
    obtain ⟨next, grown, hresize, howned, hlarge, hheader, hoffset⟩ :=
      h.resize (by omega) hsmall
    refine ⟨next, grown, ?_, howned, by omega, hheader, hoffset, fun hfits => ?_⟩
    · rw [ite_cond_eq_true _ _ (eq_true hgrows), hresize]
    · omega
  · refine ⟨pickle, block, ?_, h, hfits, rfl, rfl, fun _ => rfl⟩
    rw [ite_cond_eq_false _ _ (eq_false (by omega))]

/-- A write of bytes appends them, padded, to what stands in front of its place. -/
theorem Owned.writeBytesCommon (h : Owned pickle block bytes)
    (hsmall : pickle.writeOffset + (padded data).length < 2 ^ 32) :
    ∃ next, pickle.writeBytesCommon data data.length = some next ∧
      Wrote pickle next bytes (padded data) := by
  have hlength := length_padded data
  have halign : alignInt data.length sizeofHeader = (padded data).length := by
    rw [alignInt_four (by omega), hlength]
  have hnewSize : sizeT (pickle.writeOffset + (padded data).length) =
      pickle.writeOffset + (padded data).length := sizeT_of_lt (by omega)
  have hzeros : sizeT ((padded data).length + 2 ^ 64 - data.length) =
      (4 - data.length % 4) % 4 := by
    unfold sizeT
    omega
  have hdouble : pickle.capacityAfterHeader < pickle.writeOffset + (padded data).length →
      sizeT (pickle.capacityAfterHeader * 2) = pickle.capacityAfterHeader * 2 :=
    fun hgrows => sizeT_of_lt (by omega)
  obtain ⟨roomy, grown, hmake, howned, hcapacity, hheader, hoffset, hsame⟩ :=
    h.resizeFor _ _ (fun hgrows => ⟨Nat.le_max_right (sizeT (pickle.capacityAfterHeader * 2)) _, by
      rw [hdouble hgrows]
      omega⟩)
  have hroom := howned.room
  obtain ⟨copied, zeroed, sized, hcopied, hzeroed, hsized, hsizedLength, hsizeLoad, hload⟩ :=
    howned.stores data (by omega)
  have hbytesLength : (bytes.take roomy.writeOffset ++ padded data).length =
      roomy.writeOffset + (padded data).length := by
    rw [List.length_append, List.length_take_of_le howned.offset]
  refine ⟨{ roomy with
    header := some sized, writeOffset := pickle.writeOffset + (padded data).length }, ?_, ?_⟩
  · rw [Pickle.writeBytesCommon, halign, hnewSize, hzeros]
    rw [hoffset] at hsized
    simp only [hmake, howned.header, hcopied, hzeroed, hsized, load_whole, Pickle.setPayloadSize,
      Option.bind_eq_bind, Option.bind_some]
  · refine ⟨⟨sized, ?_⟩, rfl, hheader, fun hfits => by rw [hsame hfits]⟩
    rw [← hoffset]
    exact {
      header := rfl
      size := by rw [hbytesLength]; exact hsizeLoad
      payload := hload
      headerRoom := howned.headerRoom
      headerSmall := howned.headerSmall
      payloadSmall := by rw [hbytesLength, hoffset]; exact hsmall
      offset := by rw [hbytesLength]
      room := by rw [hsizedLength]; exact howned.room
      capacity := howned.capacity }

theorem writes_bytesCommon (data : List UInt8) :
    Writes (fun pickle => (pickle.writeBytesCommon data data.length).map fun next => (true, next))
      (padded data) := by
  intro pickle block bytes howned hsmall
  obtain ⟨next, hwrite, hwrote⟩ := howned.writeBytesCommon hsmall
  exact ⟨next, by simp only [hwrite, Option.map_some], hwrote⟩

theorem writes_POD {size : Nat} (value : BitVec (8 * size)) :
    Writes (Pickle.writePOD value) (padded (wordBytes value)) := by
  have hwrites := writes_bytesCommon (wordBytes value)
  rwa [length_wordBytes] at hwrites

theorem writes_bytes (hlength : data.length < 2 ^ 31) :
    Writes (Pickle.writeBytes data (asInt data.length)) (padded data) := by
  have hwrites := writes_bytesCommon data
  unfold Pickle.writeBytes
  rwa [asSize_asInt hlength]

/-- The bytes of a write behind a write stand behind those of the first. -/
theorem Wrote.trans {middle last : Pickle} {front back : List UInt8}
    (hoffset : pickle.writeOffset ≤ bytes.length) (hfront : Wrote pickle middle bytes front)
    (hback : Wrote middle last (bytes.take pickle.writeOffset ++ front) back) :
    Wrote pickle last bytes (front ++ back) := by
  have hmiddleOffset := hfront.offset
  have hlength : (bytes.take pickle.writeOffset ++ front).length = middle.writeOffset := by
    rw [List.length_append, List.length_take_of_le hoffset, hmiddleOffset]
  exact {
    owned := by
      obtain ⟨finished, hlast⟩ := hback.owned
      rw [List.take_of_length_le (by omega), List.append_assoc] at hlast
      exact ⟨finished, hlast⟩
    offset := by rw [hback.offset, hmiddleOffset, List.length_append, Nat.add_assoc]
    headerSize := hback.headerSize.trans hfront.headerSize
    capacity := by
      intro hfits
      rw [List.length_append] at hfits
      have hkept := hfront.capacity (by omega)
      rw [hback.capacity (by omega), hkept] }

theorem Writes.andThen {first second : Pickle → Option (Bool × Pickle)}
    {front back : List UInt8} (hfirst : Writes first front) (hsecond : Writes second back) :
    Writes (Pickle.andThen first second) (front ++ back) := by
  intro pickle block bytes howned hsmall
  rw [List.length_append] at hsmall
  obtain ⟨middle, hfirstWrite, hfront⟩ := hfirst pickle block bytes howned (by omega)
  obtain ⟨grown, hmiddle⟩ := hfront.owned
  have hmiddleOffset := hfront.offset
  obtain ⟨last, hsecondWrite, hback⟩ := hsecond middle grown _ hmiddle (by omega)
  exact ⟨last, by simp [Pickle.andThen, hfirstWrite, hsecondWrite],
    hfront.trans howned.offset hback⟩

end Write

/-- Every value whose length is an `int` is written as its fields. -/
theorem Value.writes {value : Value} (hfits : value.Fits) : Writes value.write value.encode := by
  cases value with
  | bool value => exact @writes_POD 4 (if value then 1 else 0)
  | int value => exact @writes_POD 4 value
  | long value => exact @writes_POD 8 value
  | uint16 value => exact @writes_POD 2 value
  | uint32 value => exact @writes_POD 4 value
  | int64 value => exact @writes_POD 8 value
  | uint64 value => exact @writes_POD 8 value
  | float bits => exact @writes_POD 4 bits
  | double bits => exact @writes_POD 8 bits
  | string value => exact (@writes_POD 4 (asInt value.length)).andThen (writes_bytes hfits)
  | wstring value =>
      have hlength : (value.flatMap (@wordBytes 4)).length = 4 * value.length :=
        @length_flatMap_wordBytes 4 value
      have hfits' : 4 * value.length < 2 ^ 31 := hfits
      have hsize : sizeT (value.length * 4) = (value.flatMap (@wordBytes 4)).length := by
        rw [hlength, sizeT_of_lt (by omega), Nat.mul_comm]
      have hchars : Writes (Pickle.writeBytes (value.flatMap (@wordBytes 4))
          (asInt (sizeT (value.length * 4)))) (padded (value.flatMap (@wordBytes 4))) := by
        rw [hsize]
        exact writes_bytes (by rw [hlength]; exact hfits')
      exact (@writes_POD 4 (asInt value.length)).andThen hchars
  | data value =>
      have hlength : value.length < 2 ^ 31 := hfits
      have hnonneg : 0 ≤ (asInt value.length).toInt := by
        rw [asInt_toInt hlength]
        omega
      have hwrites := (@writes_POD 4 (asInt value.length)).andThen (writes_bytes hlength)
      intro pickle block bytes howned hsmall
      obtain ⟨next, hwrite, hwrote⟩ := hwrites pickle block bytes howned hsmall
      refine ⟨next, ?_, hwrote⟩
      rw [← hwrite]
      exact ite_cond_eq_true _ _ (eq_true hnonneg)
  | bytes value => exact writes_bytes hfits

/-- One write after the other, as long as they return true. -/
def writeAll : List Value → Pickle → Option (Bool × Pickle)
  | [], pickle => some (true, pickle)
  | value :: rest, pickle => Pickle.andThen value.write (writeAll rest) pickle

/-- A sequence of writes, to a pickle whose next field is behind its payload. -/
theorem writeAll_wrote {values : List Value} (hfits : ∀ value ∈ values, value.Fits)
    (howned : Owned pickle block bytes) (hend : pickle.writeOffset = bytes.length)
    (hsmall : pickle.writeOffset + (encodeAll values).length < 2 ^ 32) :
    ∃ next, writeAll values pickle = some (true, next) ∧
      Wrote pickle next bytes (encodeAll values) := by
  induction values generalizing pickle block bytes with
  | nil =>
      refine ⟨pickle, rfl, ⟨⟨block, ?_⟩, rfl, rfl, fun _ => rfl⟩⟩
      rwa [List.take_of_length_le (by omega), encodeAll, List.flatMap_nil, List.append_nil]
  | cons value rest ih =>
      rw [encodeAll_cons, List.length_append] at hsmall
      obtain ⟨middle, hwrite, hfront⟩ :=
        Value.writes (hfits value (by simp)) pickle block bytes howned (by omega)
      obtain ⟨grown, hmiddle⟩ := hfront.owned
      have hoffset := hfront.offset
      have hmiddleEnd : middle.writeOffset = (bytes.take pickle.writeOffset ++ value.encode).length := by
        rw [List.length_append, List.length_take_of_le howned.offset, hoffset]
      obtain ⟨last, hrest, hback⟩ :=
        ih (fun other hother => hfits other (by simp [hother])) hmiddle hmiddleEnd (by omega)
      exact ⟨last, by simp [writeAll, Pickle.andThen, hwrite, hrest],
        hfront.trans howned.offset hback⟩

end GitRpc.Base
