import GitRpc.Base.PickleFormat

/-!
The reads of the iterator as functions of the bytes that are left: a decoder
takes a value off their front. The iterator does what the decoder does, on any
bytes, and reads no byte that is not there.
-/

namespace GitRpc.Base

open Library.Allocations Library.LittleEndian

/-- A decoder gives what it read, if it did, and the bytes that are left. -/
abbrev Decoder (α : Type) := List UInt8 → Option α × List UInt8

namespace Decoder

/-- The next field, of `size` bytes. There is nothing left when it is not there. -/
def field (size : Nat) : Decoder (List UInt8) := fun bytes =>
  if bytes.length < size then (none, [])
  else (some (bytes.take size), bytes.drop (size + (4 - size % 4) % 4))

/-- A field whose size is an `int`. -/
def sized (numBytes : BitVec 32) : Decoder (List UInt8) := fun bytes =>
  if numBytes.toInt < 0 then (none, []) else field (asSize numBytes) bytes

/-- The elements of four bytes each. Nothing is taken when their size is no `int`. -/
def elements (count : BitVec 32) : Decoder (List UInt8) := fun bytes =>
  if 2 ^ 31 ≤ 4 * count.toInt ∨ 4 * count.toInt < -2 ^ 31 then (none, bytes)
  else if count.toInt < 0 then (none, [])
  else field (4 * asSize count) bytes

/-- Something else made of what was read. -/
def convert {α β : Type} (f : α → Option β) (decoder : Decoder α) : Decoder β := fun bytes =>
  ((decoder bytes).1.bind f, (decoder bytes).2)

def word (size : Nat) : Decoder (BitVec (8 * size)) :=
  convert (fun bytes => some (wordOf size bytes)) (field size)

def bool : Decoder Bool := convert (fun byte => some (decide (byte ≠ 0))) (word 1)

def length : Decoder (BitVec 32) :=
  convert (fun length => if 0 ≤ length.toInt then some length else none) (word 4)

/-- A decoder that needs the length in front. -/
def counted {α : Type} (decoder : BitVec 32 → Decoder α) : Decoder α := fun bytes =>
  match word 4 bytes with
  | (none, rest) => (none, rest)
  | (some length, rest) => decoder length rest

def skip (numBytes : BitVec 32) : Decoder Unit := convert (fun _ => some ()) (sized numBytes)

def chars : Decoder (List (BitVec 32)) := counted fun count =>
  convert (fun bytes => some (wordsOf 4 (asSize count) bytes)) (elements count)

end Decoder

/-- What a reader takes off the front of the bytes. -/
def Kind.decode : Kind → Decoder Reading
  | .bool => value Value.bool Decoder.bool
  | .int => value Value.int (Decoder.word 4)
  | .long => value Value.long (Decoder.word 8)
  | .uint16 => value Value.uint16 (Decoder.word 2)
  | .uint32 => value Value.uint32 (Decoder.word 4)
  | .int64 => value Value.int64 (Decoder.word 8)
  | .uint64 => value Value.uint64 (Decoder.word 8)
  | .float => value Value.float (Decoder.word 4)
  | .double => value Value.double (Decoder.word 8)
  | .string => value Value.string (Decoder.counted Decoder.sized)
  | .wstring => value Value.wstring Decoder.chars
  | .data => value Value.data (Decoder.counted Decoder.sized)
  | .bytes numBytes => value Value.bytes (Decoder.sized numBytes)
  | .length => value Value.int Decoder.length
  | .skip numBytes => (Decoder.skip numBytes).convert fun _ => some .skipped
where
  value {α : Type} (toValue : α → Value) (decoder : Decoder α) : Decoder Reading :=
    decoder.convert fun got => some (.value (toValue got))

/-- These bytes of the block are what the iterator has left to read. -/
structure Sees (iter : PickleIterator) (block : Block UInt8) (bytes : List UInt8) : Prop where
  payload : iter.payload = some block
  left : iter.left = bytes.length
  loads : load block iter.readIndex bytes.length = some bytes
  small : bytes.length < 2 ^ 32

/-- The read has a result on all bytes, and it is the decoder's. -/
def Reads {α : Type} (read : PickleIterator → Option (Option α × PickleIterator))
    (decoder : Decoder α) : Prop :=
  ∀ iter block bytes, Sees iter block bytes →
    ∃ next, read iter = some ((decoder bytes).1, next) ∧ Sees next block (decoder bytes).2 ∧
      iter.readIndex ≤ next.readIndex ∧ next.endIndex = iter.endIndex

section Pointers

variable {iter : PickleIterator} {block : Block UInt8} {bytes : List UInt8}

theorem Sees.toEnd (h : Sees iter block bytes) : Sees iter.toEnd block [] := by
  have hbound := load_bound h.loads
  have hleft := h.left
  have hend := iter.bounded
  exact {
    payload := h.payload
    left := by simp [PickleIterator.left, PickleIterator.toEnd]
    loads := by
      apply load_nil
      unfold PickleIterator.left at hleft
      simp only [PickleIterator.toEnd]
      omega
    small := by simp }

theorem Sees.skip (h : Sees iter block bytes) {size : Nat} (hsize : size ≤ bytes.length)
    (hbounded : iter.readIndex + size ≤ iter.endIndex) :
    Sees { iter with readIndex := iter.readIndex + size, bounded := hbounded } block
      (bytes.drop size) := by
  have hleft := h.left
  have hsmall := h.small
  have hlength : (bytes.drop size).length = bytes.length - size := List.length_drop
  have hpart : load block (iter.readIndex + size) (bytes.length - size) =
      some ((bytes.drop size).take (bytes.length - size)) := load_part h.loads (by omega)
  rw [List.take_of_length_le (by omega)] at hpart
  exact {
    payload := h.payload
    left := by
      rw [hlength]
      unfold PickleIterator.left at hleft ⊢
      simp only
      omega
    loads := by rw [hlength]; exact hpart
    small := by omega }

/-- The index moves behind the field and its zeros, or to the end when these are cut off. -/
theorem Sees.advance (h : Sees iter block bytes) {size : Nat} (hsize : size ≤ bytes.length) :
    Sees (iter.advance size) block (bytes.drop (size + (4 - size % 4) % 4)) := by
  have hsmall := h.small
  have halign : alignInt size sizeofHeader = size + (4 - size % 4) % 4 := alignInt_four (by omega)
  have hleft := h.left
  rw [PickleIterator.advance]
  simp only [halign]
  split
  case isTrue hcut =>
    rw [List.drop_of_length_le (by omega)]
    exact h.toEnd
  case isFalse hfits => exact h.skip (by omega) _

theorem advance_le (iter : PickleIterator) (size : Nat) :
    iter.readIndex ≤ (iter.advance size).readIndex ∧
      (iter.advance size).endIndex = iter.endIndex := by
  rw [PickleIterator.advance]
  split
  · exact ⟨iter.bounded, rfl⟩
  · exact ⟨Nat.le_add_right _ _, rfl⟩

theorem advance_payload (iter : PickleIterator) (size : Nat) :
    (iter.advance size).payload = iter.payload := by
  rw [PickleIterator.advance]
  split <;> rfl

/-- What `bytesAt` reads at the pointer to the next field. -/
theorem Sees.bytesAt (h : Sees iter block bytes) {size : Nat} (hsize : size ≤ bytes.length) :
    PickleIterator.bytesAt size (iter.payload.map fun _ => iter.readIndex, iter.advance size) =
      some (some (bytes.take size), iter.advance size) := by
  have hpart : load block (iter.readIndex + 0) size = some ((bytes.drop 0).take size) :=
    load_part h.loads (by omega)
  have hload : load block iter.readIndex size = some (bytes.take size) := hpart
  simp [h.payload, PickleIterator.bytesAt, advance_payload, hload]

theorem reads_pointerOfSize (size : Nat) :
    Reads (fun iter => PickleIterator.bytesAt size (iter.pointerOfSize size))
      (Decoder.field size) := by
  intro iter block bytes h
  have hleft := h.left
  simp only [PickleIterator.pointerOfSize, Decoder.field, hleft]
  split
  · exact ⟨iter.toEnd, rfl, h.toEnd, iter.bounded, rfl⟩
  · exact ⟨iter.advance size, h.bytesAt (by omega), h.advance (by omega),
      (advance_le iter size).1, (advance_le iter size).2⟩

theorem reads_pointerOfBytes (numBytes : BitVec 32) :
    Reads (fun iter => PickleIterator.bytesAt (asSize numBytes) (iter.pointerOfBytes numBytes))
      (Decoder.sized numBytes) := by
  intro iter block bytes h
  have hleft := h.left
  simp only [PickleIterator.pointerOfBytes, Decoder.sized, Decoder.field, hleft]
  rcases Int.lt_or_le numBytes.toInt 0 with hnegative | hpositive
  · rw [ite_cond_eq_true _ _ (eq_true (.inl hnegative)),
      ite_cond_eq_true _ _ (eq_true hnegative)]
    exact ⟨iter.toEnd, rfl, h.toEnd, iter.bounded, rfl⟩
  · have hnot : ¬numBytes.toInt < 0 := by omega
    simp only [hnot, false_or, if_false]
    split
    · exact ⟨iter.toEnd, rfl, h.toEnd, iter.bounded, rfl⟩
    · exact ⟨iter.advance (asSize numBytes), h.bytesAt (by omega), h.advance (by omega),
        (advance_le iter _).1, (advance_le iter _).2⟩

end Pointers

section Elements

theorem asSize_eq (i : BitVec 32) :
    asSize i = if i.toNat < 2 ^ 31 then i.toNat else i.toNat + (2 ^ 64 - 2 ^ 32) := by
  have hlt := i.isLt
  rw [asSize, BitVec.toNat_signExtend, BitVec.toNat_setWidth, BitVec.msb_eq_decide]
  simp only [decide_eq_true_eq]
  split <;> split <;> omega

theorem toInt_eq (i : BitVec 32) :
    i.toInt = if i.toNat < 2 ^ 31 then (i.toNat : Int) else (i.toNat : Int) - 2 ^ 32 := by
  rw [BitVec.toInt_eq_toNat_cond]
  split <;> split <;> omega

/-- The size of the elements, as the iterator computes it. -/
def elementBytes (count : BitVec 32) : BitVec 64 := count.signExtend 64 * BitVec.ofNat 64 4

theorem toNat_elementBytes (count : BitVec 32) :
    (elementBytes count).toNat = 4 * asSize count % 2 ^ 64 := by
  rw [elementBytes, BitVec.toNat_mul, BitVec.toNat_ofNat, asSize, Nat.mul_comm]

theorem elementBytes_overflow_iff (count : BitVec 32) :
    elementBytes count ≠ ((elementBytes count).setWidth 32).signExtend 64 ↔
      2 ^ 31 ≤ 4 * count.toInt ∨ 4 * count.toInt < -2 ^ 31 := by
  have hlt := count.isLt
  have hbytes := toNat_elementBytes count
  have hsize := asSize_eq count
  have hback : (((elementBytes count).setWidth 32).signExtend 64).toNat =
      asSize ((elementBytes count).setWidth 32) := rfl
  have hnarrow := asSize_eq ((elementBytes count).setWidth 32)
  rw [BitVec.toNat_setWidth] at hnarrow
  rw [ne_eq, ← BitVec.toNat_inj, hback, hnarrow, toInt_eq, hbytes]
  split <;> split at hsize <;> omega

/-- Without an overflow, the size is negative when the count is. -/
theorem elementBytes_small {count : BitVec 32}
    (hsmall : ¬(2 ^ 31 ≤ 4 * count.toInt ∨ 4 * count.toInt < -2 ^ 31)) :
    ((elementBytes count).setWidth 32).toInt = 4 * count.toInt ∧
      (0 ≤ count.toInt → asSize ((elementBytes count).setWidth 32) = 4 * asSize count) := by
  have hlt := count.isLt
  have hbytes := toNat_elementBytes count
  have hsize := asSize_eq count
  have hvalue := toInt_eq count
  have hnarrow := asSize_eq ((elementBytes count).setWidth 32)
  have hnarrowValue := toInt_eq ((elementBytes count).setWidth 32)
  rw [BitVec.toNat_setWidth] at hnarrow hnarrowValue
  rw [hnarrow, hnarrowValue]
  constructor
  · split <;> split at hsize <;> split at hvalue <;> omega
  · intro hpositive
    split <;> split at hsize <;> split at hvalue <;> omega

theorem reads_pointerOfElements (count : BitVec 32) :
    Reads (fun iter => PickleIterator.bytesAt (4 * asSize count) (iter.pointerOfElements count 4))
      (Decoder.elements count) := by
  intro iter block bytes h
  have hpointer : iter.pointerOfElements count 4 =
      if elementBytes count ≠ ((elementBytes count).setWidth 32).signExtend 64 then (none, iter)
      else iter.pointerOfBytes ((elementBytes count).setWidth 32) := rfl
  simp only [hpointer, elementBytes_overflow_iff, Decoder.elements]
  split
  case isTrue hoverflow => exact ⟨iter, rfl, h, Nat.le_refl _, rfl⟩
  case isFalse hsmall =>
    obtain ⟨hvalue, hsize⟩ := elementBytes_small hsmall
    have hreads := reads_pointerOfBytes ((elementBytes count).setWidth 32) iter block bytes h
    simp only [Decoder.sized, hvalue] at hreads
    split
    case isTrue hnegative =>
      have hnull : iter.pointerOfBytes ((elementBytes count).setWidth 32) = (none, iter.toEnd) :=
        ite_cond_eq_true _ _ (eq_true (.inl (by omega)))
      rw [hnull]
      exact ⟨iter.toEnd, rfl, h.toEnd, iter.bounded, rfl⟩
    case isFalse hpositive =>
      rw [hsize (by omega), ite_cond_eq_false _ _ (eq_false (by omega))] at hreads
      exact hreads

end Elements

section Combine

variable {α β : Type} {read : PickleIterator → Option (Option α × PickleIterator)}
  {decoder : Decoder α}

theorem Reads.given (h : Reads read decoder) (f : α → Option β) :
    Reads (fun iter => PickleIterator.given f (read iter)) (decoder.convert f) := by
  intro iter block bytes hsees
  obtain ⟨next, hread, hnext, hmoves⟩ := h iter block bytes hsees
  exact ⟨next, by simp only [hread, PickleIterator.given, Option.map_some, Decoder.convert],
    hnext, hmoves⟩

theorem reads_builtinType (size : Nat) :
    Reads (fun iter => iter.readBuiltinType size) (Decoder.word size) :=
  (reads_pointerOfSize size).given fun bytes => some (wordOf size bytes)

theorem Reads.afterLength {read : BitVec 32 → PickleIterator → Option (Option α × PickleIterator)}
    {decoder : BitVec 32 → Decoder α} (h : ∀ length, Reads (read length) (decoder length)) :
    Reads (fun iter => iter.afterLength read) (Decoder.counted decoder) := by
  intro iter block bytes hsees
  obtain ⟨middle, hread, hmiddle, hle, hend⟩ := reads_builtinType 4 iter block bytes hsees
  have hint : iter.readInt = some ((Decoder.word 4 bytes).1, middle) := hread
  simp only [PickleIterator.afterLength, hint, Decoder.counted, Option.bind_eq_bind,
    Option.bind_some]
  cases hword : Decoder.word 4 bytes with
  | mk got rest =>
      rw [hword] at hmiddle
      cases got with
      | none => exact ⟨middle, rfl, hmiddle, hle, hend⟩
      | some length =>
          obtain ⟨next, hsecond, hnext, hmore, hsame⟩ := h length middle block rest hmiddle
          exact ⟨next, hsecond, hnext, Nat.le_trans hle hmore, hsame.trans hend⟩

/-- Where bytes can be read at a pointer, the pointer alone moves the iterator as they do. -/
theorem bytesAt_unit {count : Nat} {pointer : Option Nat} {next last : PickleIterator}
    {got : Option Unit}
    (hread : PickleIterator.given (fun _ => some ()) (PickleIterator.bytesAt count (pointer, next)) =
      some (got, last)) : (pointer.map fun _ => (), next) = (got, last) := by
  cases pointer with
  | none => simpa [PickleIterator.given, PickleIterator.bytesAt] using hread
  | some place =>
      cases hpayload : next.payload with
      | none => simp [PickleIterator.given, PickleIterator.bytesAt, hpayload] at hread
      | some block =>
          cases hload : load block place count with
          | none => simp [PickleIterator.given, PickleIterator.bytesAt, hpayload, hload] at hread
          | some bytes =>
              simpa [PickleIterator.given, PickleIterator.bytesAt, hpayload, hload] using hread

theorem reads_skipBytes (numBytes : BitVec 32) :
    Reads (fun iter => iter.skipBytes numBytes) (Decoder.skip numBytes) := by
  intro iter block bytes hsees
  obtain ⟨next, hread, hnext⟩ :=
    (reads_pointerOfBytes numBytes).given (fun _ => some ()) iter block bytes hsees
  exact ⟨next, congrArg some (bytesAt_unit hread), hnext⟩

end Combine

/-- Every read of the iterator is its decoder on what is left, whatever the bytes are. -/
theorem Kind.reads (kind : Kind) : Reads (Kind.read · kind) kind.decode := by
  cases kind with
  | bool => exact ((reads_builtinType 1).given _).given _
  | int => exact (reads_builtinType 4).given _
  | long => exact (reads_builtinType 8).given _
  | uint16 => exact (reads_builtinType 2).given _
  | uint32 => exact (reads_builtinType 4).given _
  | int64 => exact (reads_builtinType 8).given _
  | uint64 => exact (reads_builtinType 8).given _
  | float => exact (reads_builtinType 4).given _
  | double => exact (reads_builtinType 8).given _
  | string => exact (Reads.afterLength reads_pointerOfBytes).given _
  | wstring =>
      exact (Reads.afterLength fun count => (reads_pointerOfElements count).given _).given _
  | data => exact (Reads.afterLength reads_pointerOfBytes).given _
  | bytes numBytes => exact (reads_pointerOfBytes numBytes).given _
  | length => exact ((reads_builtinType 4).given _).given _
  | skip numBytes => exact (reads_skipBytes numBytes).given _

end GitRpc.Base
