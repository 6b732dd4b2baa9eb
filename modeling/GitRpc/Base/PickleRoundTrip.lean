import GitRpc.Base.PickleBuffer
import GitRpc.Base.PickleReads

/-!
What is written to a pickle is read back from it: the decoder undoes the fields
of a value, so the iterator does, so a sequence of reads does.
-/

namespace GitRpc.Base

open Library.Allocations Library.LittleEndian

section Fields

variable {size : Nat} {bytes rest : List UInt8}

theorem field_padded (hsize : bytes.length = size) :
    Decoder.field size (padded bytes ++ rest) = (some bytes, rest) := by
  have hlength : (padded bytes).length = size + (4 - size % 4) % 4 := by
    rw [length_padded, hsize]
  have hroom : ¬(padded bytes ++ rest).length < size := by
    rw [List.length_append]
    omega
  rw [Decoder.field, ite_cond_eq_false _ _ (eq_false hroom), List.drop_left' hlength, padded,
    List.append_assoc, List.take_left' hsize]

theorem sized_padded (hsmall : bytes.length < 2 ^ 31) :
    Decoder.sized (asInt bytes.length) (padded bytes ++ rest) = (some bytes, rest) := by
  have hpositive : ¬(asInt bytes.length).toInt < 0 := by
    rw [asInt_toInt hsmall]
    omega
  rw [Decoder.sized, ite_cond_eq_false _ _ (eq_false hpositive), asSize_asInt hsmall,
    field_padded rfl]

theorem word_padded (word : BitVec (8 * size)) :
    Decoder.word size (padded (wordBytes word) ++ rest) = (some word, rest) := by
  simp only [Decoder.word, Decoder.convert, field_padded (length_wordBytes word),
    Option.bind_some, wordOf_wordBytes]

/-- The length in front tells how to read what is behind it. -/
theorem counted_padded {α : Type} (decoder : BitVec 32 → Decoder α) (count : Nat) :
    Decoder.counted decoder (counted count bytes ++ rest) =
      decoder (asInt count) (padded bytes ++ rest) := by
  have hword := @word_padded 4 (padded bytes ++ rest) (asInt count)
  rw [counted, List.append_assoc, Decoder.counted, hword]

theorem bool_padded (value : Bool) :
    Decoder.bool (padded (@wordBytes 4 (if value then 1 else 0)) ++ rest) =
      (some value, rest) := by
  cases value <;> rfl

theorem chars_padded {value : List (BitVec 32)} (hsmall : 4 * value.length < 2 ^ 31) :
    Decoder.chars (counted value.length (value.flatMap (@wordBytes 4)) ++ rest) =
      (some value, rest) := by
  have hlength : (value.flatMap (@wordBytes 4)).length = 4 * value.length :=
    @length_flatMap_wordBytes 4 value
  have hcount : (asInt value.length).toInt = value.length := asInt_toInt (by omega)
  have hsize : asSize (asInt value.length) = value.length := asSize_asInt (by omega)
  have hroom : ¬(2 ^ 31 ≤ 4 * (asInt value.length).toInt ∨
      4 * (asInt value.length).toInt < -2 ^ 31) := by
    rw [hcount]
    omega
  have hpositive : ¬(asInt value.length).toInt < 0 := by
    rw [hcount]
    omega
  have helements : Decoder.elements (asInt value.length)
      (padded (value.flatMap (@wordBytes 4)) ++ rest) =
        (some (value.flatMap (@wordBytes 4)), rest) := by
    rw [Decoder.elements, ite_cond_eq_false _ _ (eq_false hroom),
      ite_cond_eq_false _ _ (eq_false hpositive), hsize, field_padded hlength]
  rw [Decoder.chars, counted_padded, Decoder.convert, helements]
  simp only [Option.bind_some, hsize]
  rw [@wordsOf_flatMap_wordBytes 4 value]

end Fields

/-- A reader that asks for the kind of the value in front gets the value. -/
theorem Value.decode_encode {value : Value} (hfits : value.Fits) (rest : List UInt8) :
    value.kind.decode (value.encode ++ rest) = (some (.value value), rest) := by
  have hwrap {α : Type} (toValue : α → Value) {decoder : Decoder α} {bytes : List UInt8} {got : α}
      (h : decoder bytes = (some got, rest)) :
      Kind.decode.value toValue decoder bytes = (some (.value (toValue got)), rest) := by
    simp only [Kind.decode.value, Decoder.convert, h, Option.bind_some]
  cases value with
  | bool value => exact hwrap Value.bool (bool_padded value)
  | int value => exact hwrap Value.int (@word_padded 4 rest value)
  | long value => exact hwrap Value.long (@word_padded 8 rest value)
  | uint16 value => exact hwrap Value.uint16 (@word_padded 2 rest value)
  | uint32 value => exact hwrap Value.uint32 (@word_padded 4 rest value)
  | int64 value => exact hwrap Value.int64 (@word_padded 8 rest value)
  | uint64 value => exact hwrap Value.uint64 (@word_padded 8 rest value)
  | float bits => exact hwrap Value.float (@word_padded 4 rest bits)
  | double bits => exact hwrap Value.double (@word_padded 8 rest bits)
  | string value =>
      exact hwrap Value.string ((counted_padded _ _).trans (sized_padded hfits))
  | wstring value => exact hwrap Value.wstring (chars_padded hfits)
  | data value =>
      exact hwrap Value.data ((counted_padded _ _).trans (sized_padded hfits))
  | bytes value => exact hwrap Value.bytes (sized_padded hfits)

/-- One read after the other, whether or not they return true. -/
def readAll : List Kind → PickleIterator → Option (List (Option Reading) × PickleIterator)
  | [], iter => some ([], iter)
  | kind :: rest, iter => do
      let (got, next) ← kind.read iter
      let (more, last) ← readAll rest next
      some (got :: more, last)

/-- The reads of a sequence, on what is left. -/
def decodeAll : List Kind → List UInt8 → List (Option Reading) × List UInt8
  | [], bytes => ([], bytes)
  | kind :: rest, bytes =>
      ((kind.decode bytes).1 :: (decodeAll rest (kind.decode bytes).2).1,
        (decodeAll rest (kind.decode bytes).2).2)

theorem readAll_decodeAll (kinds : List Kind) {iter : PickleIterator} {block : Block UInt8}
    {bytes : List UInt8} (h : Sees iter block bytes) :
    ∃ last, readAll kinds iter = some ((decodeAll kinds bytes).1, last) ∧
      Sees last block (decodeAll kinds bytes).2 ∧ iter.readIndex ≤ last.readIndex ∧
      last.endIndex = iter.endIndex := by
  induction kinds generalizing iter bytes with
  | nil => exact ⟨iter, rfl, h, Nat.le_refl _, rfl⟩
  | cons kind rest ih =>
      obtain ⟨next, hread, hnext, hle, hend⟩ := kind.reads iter block bytes h
      obtain ⟨last, hrest, hlast, hmore, hsame⟩ := ih hnext
      refine ⟨last, ?_, hlast, Nat.le_trans hle hmore, hsame.trans hend⟩
      have hread' : Kind.read iter kind = some ((kind.decode bytes).1, next) := hread
      simp only [readAll, hread', hrest, decodeAll, Option.bind_eq_bind, Option.bind_some]

theorem decodeAll_encodeAll {values : List Value} (hfits : ∀ value ∈ values, value.Fits)
    (rest : List UInt8) :
    decodeAll (values.map Value.kind) (encodeAll values ++ rest) =
      (values.map fun value => some (.value value), rest) := by
  induction values with
  | nil => rfl
  | cons value more ih =>
      have hfirst := Value.decode_encode (hfits value (by simp)) (encodeAll more ++ rest)
      rw [encodeAll_cons, List.append_assoc, List.map_cons, decodeAll, hfirst,
        ih fun other hother => hfits other (by simp [hother])]
      rfl

section Pickles

variable {pickle : Pickle} {block : Block UInt8} {bytes : List UInt8}

/-- An iterator starts with the whole payload. -/
theorem Readable.ofPickle (h : Readable pickle block bytes) :
    ∃ iter, PickleIterator.ofPickle pickle = some iter ∧
      Sees iter (block.drop pickle.headerSize) bytes := by
  have hsize : pickle.payloadSize = some bytes.length := by
    rw [Pickle.payloadSize, h.header]
    exact h.payloadSize
  refine ⟨_, by rw [PickleIterator.ofPickle, hsize]; rfl, ?_⟩
  exact {
    payload := by simp [h.header]
    left := by simp [PickleIterator.left]
    loads := by
      rw [load_drop (load_bound h.payload), Nat.add_zero]
      exact h.payload
    small := h.payloadSmall }

/-- An iterator that sees exactly these values gives them and is at its end. -/
theorem Sees.reads_values {iter : PickleIterator} {values : List Value}
    (h : Sees iter block (encodeAll values)) (hfits : ∀ value ∈ values, value.Fits) :
    ∃ last, readAll (values.map Value.kind) iter =
        some (values.map fun value => some (.value value), last) ∧
      last.readIndex = last.endIndex := by
  have hdecode := decodeAll_encodeAll hfits []
  rw [List.append_nil] at hdecode
  obtain ⟨last, hread, hlast, -⟩ := readAll_decodeAll (values.map Value.kind) h
  rw [hdecode] at hread hlast
  refine ⟨last, hread, ?_⟩
  have hleft := hlast.left
  have hbounded := last.bounded
  unfold PickleIterator.left at hleft
  simp only [List.length_nil] at hleft
  omega

/-- A new pickle has an empty payload. -/
theorem withHeader_owned {headerSize : Nat} (hroom : sizeofHeader ≤ headerSize)
    (hsmall : headerSize ≤ 2 ^ 31) :
    ∃ pickle block, Pickle.withHeader headerSize = some pickle ∧ Owned pickle block [] ∧
      pickle.headerSize = headerSize ∧ pickle.writeOffset = 0 := by
  have hunit : alignInt kPayloadUnit kPayloadUnit = 64 := rfl
  have hsize : sizeT (headerSize + 64) = headerSize + 64 := sizeT_of_lt (by omega)
  have hlength : (realloc ([] : Block UInt8) (headerSize + 64)).length = headerSize + 64 :=
    length_realloc _ _
  have hbytes : (toBytes sizeofHeader 0).length = sizeofHeader := length_toBytes _ _
  obtain ⟨block, hblock⟩ : ∃ block,
      store (realloc [] (headerSize + 64)) 0 (toBytes sizeofHeader 0) = some block :=
    store_exists (by omega)
  have hblockLength : block.length = headerSize + 64 := (length_store hblock).trans hlength
  refine ⟨⟨some block, headerSize, 64, 0⟩, block, ?_, ?_, rfl, rfl⟩
  · have hwritable : ¬(0 : Nat) = kCapacityReadOnly := by decide
    simp only [Pickle.withHeader, Pickle.resize, hunit, hsize, hwritable, if_false,
      Option.bind_eq_bind, Option.bind_some, Pickle.setPayloadSize, Option.getD_none, hblock]
  · exact {
      header := rfl
      size := load_store_same hblock
      payload := load_nil (by simp only; omega)
      headerRoom := hroom
      headerSmall := hsmall
      payloadSmall := by simp
      offset := Nat.zero_le _
      room := hblockLength
      capacity := by simp }

end Pickles

/-- What the header size of a pickle is rounded up to. -/
def roundedHeader (headerSize : BitVec 32) : Nat := alignInt (asSize headerSize) sizeofHeader

theorem roundedHeader_aligned (headerSize : BitVec 32) : roundedHeader headerSize % 4 = 0 := by
  unfold roundedHeader alignInt sizeT sizeofHeader
  omega

theorem ofHeaderSize_owned {headerSize : BitVec 32} (hroom : 4 ≤ headerSize.toInt) :
    ∃ pickle block, Pickle.ofHeaderSize headerSize = some pickle ∧ Owned pickle block [] ∧
      pickle.headerSize = roundedHeader headerSize ∧ pickle.writeOffset = 0 := by
  have hvalue := toInt_eq headerSize
  have hsize := asSize_eq headerSize
  have hlt := headerSize.isLt
  have hround : alignInt (asSize headerSize) sizeofHeader =
      asSize headerSize + (4 - asSize headerSize % 4) % 4 := by
    apply alignInt_four
    split at hvalue <;> split at hsize <;> omega
  apply withHeader_owned
  · unfold sizeofHeader at hround ⊢
    rw [hround]
    split at hvalue <;> split at hsize <;> omega
  · rw [hround]
    split at hvalue <;> split at hsize <;> omega

/-- The pickle that values are written to. -/
theorem writeAll_new {headerSize : BitVec 32} {values : List Value}
    (hroom : 4 ≤ headerSize.toInt) (hfits : ∀ value ∈ values, value.Fits)
    (hsmall : (encodeAll values).length < 2 ^ 32) :
    ∃ empty pickle block, Pickle.ofHeaderSize headerSize = some empty ∧
      writeAll values empty = some (true, pickle) ∧ Owned pickle block (encodeAll values) ∧
      pickle.headerSize = roundedHeader headerSize := by
  obtain ⟨empty, block, hempty, howned, hheader, hoffset⟩ := ofHeaderSize_owned hroom
  obtain ⟨pickle, hwrite, hwrote⟩ := writeAll_wrote hfits howned hoffset (by omega)
  obtain ⟨grown, hgrown⟩ := hwrote.owned
  rw [List.take_nil, List.nil_append] at hgrown
  exact ⟨empty, pickle, grown, hempty, hwrite, hgrown, hwrote.headerSize.trans hheader⟩

end GitRpc.Base
