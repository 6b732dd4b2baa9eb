import GitRpc.Base.Pickle

/-!
The iterator that reads the payload of a pickle. A result of `none` is a read
outside of the payload's memory; a read that returns false has no value.
-/

namespace GitRpc.Base

open Library.Allocations Library.LittleEndian

/-- The members of `PickleIterator`. The payload is a pointer into the pickle's block,
or null. Nothing moves the read index behind the end. -/
structure PickleIterator where
  payload : Option (Block UInt8)
  readIndex : Nat
  endIndex : Nat
  bounded : readIndex ≤ endIndex

/-- `payload_size()`. -/
def Pickle.payloadSize (pickle : Pickle) : Option Nat :=
  match pickle.header with
  | none => some 0
  | some block => readPayloadSize block

/-- `size()`. -/
def Pickle.size (pickle : Pickle) : Option Nat := do
  let block ← pickle.header
  let payload ← readPayloadSize block
  some (sizeT (pickle.headerSize + payload))

namespace PickleIterator

/-- `PickleIterator(const Pickle& pickle)`. A null header comes with a size of zero, so
its payload is null too. -/
def ofPickle (pickle : Pickle) : Option PickleIterator :=
  pickle.payloadSize.map fun size =>
    ⟨pickle.header.map fun block => block.drop pickle.headerSize, 0, size, Nat.zero_le size⟩

variable (iter : PickleIterator)

/-- What is left to read. -/
def left : Nat := iter.endIndex - iter.readIndex

/-- `read_index_ = end_index_`. -/
def toEnd : PickleIterator := { iter with readIndex := iter.endIndex, bounded := Nat.le_refl _ }

/-- `Advance`, not beyond the end. -/
def advance (size : Nat) : PickleIterator :=
  let alignedSize := alignInt size sizeofHeader
  if h : iter.left < alignedSize then iter.toEnd
  else
    { iter with
      readIndex := iter.readIndex + alignedSize
      bounded := Nat.add_le_of_le_sub' iter.bounded (Nat.le_of_not_lt h) }

/-- `GetReadPointerAndAdvance` of a type of `size` bytes. The pointer is the place in the
payload, and null when the payload is. -/
def pointerOfSize (size : Nat) : Option Nat × PickleIterator :=
  if iter.left < size then (none, iter.toEnd)
  else (iter.payload.map fun _ => iter.readIndex, iter.advance size)

/-- `GetReadPointerAndAdvance(int num_bytes)`. -/
def pointerOfBytes (numBytes : BitVec 32) : Option Nat × PickleIterator :=
  if numBytes.toInt < 0 ∨ iter.left < asSize numBytes then (none, iter.toEnd)
  else (iter.payload.map fun _ => iter.readIndex, iter.advance (asSize numBytes))

/-- `GetReadPointerAndAdvance(int num_elements, size_t size_element)`. On an overflow
the index stays where it is. -/
def pointerOfElements (numElements : BitVec 32) (sizeElement : Nat) :
    Option Nat × PickleIterator :=
  let numBytes : BitVec 64 := numElements.signExtend 64 * BitVec.ofNat 64 sizeElement
  let numBytes32 : BitVec 32 := numBytes.setWidth 32
  if numBytes ≠ numBytes32.signExtend 64 then (none, iter)
  else iter.pointerOfBytes numBytes32

/-- The bytes behind a pointer, if it is not null. -/
def bytesAt (count : Nat) : Option Nat × PickleIterator →
    Option (Option (List UInt8) × PickleIterator)
  | (none, next) => some (none, next)
  | (some place, next) => do
      let block ← next.payload
      let bytes ← load block place count
      some (some bytes, next)

/-- Something made of what was read, if it can be made. -/
def given {α β : Type} (f : α → Option β) (read : Option (Option α × PickleIterator)) :
    Option (Option β × PickleIterator) :=
  read.map fun (got, next) => (got.bind f, next)

/-- `ReadBuiltinType`. -/
def readBuiltinType (size : Nat) : Option (Option (BitVec (8 * size)) × PickleIterator) :=
  given (fun bytes => some (wordOf size bytes)) (bytesAt size (iter.pointerOfSize size))

/-- `ReadBool`, of one byte. -/
def readBool : Option (Option Bool × PickleIterator) :=
  given (fun byte => some (decide (byte ≠ 0))) (iter.readBuiltinType 1)

/-- `ReadInt`. -/
def readInt : Option (Option (BitVec 32) × PickleIterator) := iter.readBuiltinType 4

/-- `ReadLong`. -/
def readLong : Option (Option (BitVec 64) × PickleIterator) := iter.readBuiltinType 8

/-- `ReadUInt16`. -/
def readUInt16 : Option (Option (BitVec 16) × PickleIterator) := iter.readBuiltinType 2

/-- `ReadUInt32`. -/
def readUInt32 : Option (Option (BitVec 32) × PickleIterator) := iter.readBuiltinType 4

/-- `ReadInt64`. -/
def readInt64 : Option (Option (BitVec 64) × PickleIterator) := iter.readBuiltinType 8

/-- `ReadUInt64`. -/
def readUInt64 : Option (Option (BitVec 64) × PickleIterator) := iter.readBuiltinType 8

/-- `ReadFloat`, which always copies the bytes. -/
def readFloat : Option (Option (BitVec 32) × PickleIterator) := iter.readBuiltinType 4

/-- `ReadDouble`, which always copies the bytes. -/
def readDouble : Option (Option (BitVec 64) × PickleIterator) := iter.readBuiltinType 8

/-- `ReadLength`, which gives up a negative number after it was read. -/
def readLength : Option (Option (BitVec 32) × PickleIterator) :=
  given (fun length => if 0 ≤ length.toInt then some length else none) iter.readInt

/-- A read that comes only when the length in front of it was read. -/
def afterLength {α : Type} (read : BitVec 32 → PickleIterator → Option (Option α × PickleIterator)) :
    Option (Option α × PickleIterator) := do
  let (length, next) ← iter.readInt
  match length with
  | none => some (none, next)
  | some length => read length next

/-- `ReadBytes`, and the bytes at the pointer it gives. -/
def readBytes (length : BitVec 32) : Option (Option (List UInt8) × PickleIterator) :=
  bytesAt (asSize length) (iter.pointerOfBytes length)

/-- `ReadString`. -/
def readString : Option (Option (List UInt8) × PickleIterator) :=
  iter.afterLength fun length next => next.readBytes length

/-- `ReadWString`. -/
def readWString : Option (Option (List (BitVec 32)) × PickleIterator) :=
  iter.afterLength fun length next =>
    given (fun bytes => some (wordsOf 4 (asSize length) bytes))
      (bytesAt (4 * asSize length) (next.pointerOfElements length 4))

/-- `ReadData`, and the bytes at the pointer it gives. -/
def readData : Option (Option (List UInt8) × PickleIterator) :=
  iter.afterLength fun length next => next.readBytes length

/-- `SkipBytes`. -/
def skipBytes (numBytes : BitVec 32) : Option (Option Unit × PickleIterator) :=
  let (pointer, next) := iter.pointerOfBytes numBytes
  some (pointer.map fun _ => (), next)

end PickleIterator

end GitRpc.Base
