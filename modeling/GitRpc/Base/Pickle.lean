import GitRpc.Library.Allocations
import GitRpc.Library.LittleEndian

/-!
The pickle: a header with the size of the payload, and behind it the payload,
in one allocation that grows with what is written. A result of `none` is a
write or a read outside of the allocation, a read of a byte nothing was written
to, or the use of a null header.
-/

namespace GitRpc.Base

open Library.Allocations Library.LittleEndian

/-- `size_t`. -/
def sizeT (n : Nat) : Nat := n % 2 ^ 64

/-- `static_cast<int>` of a size. -/
def asInt (n : Nat) : BitVec 32 := BitVec.ofNat 32 n

/-- `static_cast<size_t>` of an `int`. -/
def asSize (i : BitVec 32) : Nat := (i.signExtend 64).toNat

/-- The next multiple of `alignment`. -/
def alignInt (i alignment : Nat) : Nat :=
  sizeT (i + (alignment - i % alignment) % alignment)

/-- `sizeof(Header)`, which is also `sizeof(uint32_t)`. -/
def sizeofHeader : Nat := 4

/-- The allocation granularity of the payload. -/
def kPayloadUnit : Nat := 64

def kCapacityReadOnly : Nat := 2 ^ 64 - 1

/-- The members of `Pickle`. The header is where the allocation starts. -/
structure Pickle where
  header : Option (Block UInt8)
  headerSize : Nat
  capacityAfterHeader : Nat
  writeOffset : Nat
deriving DecidableEq

/-- `header_->payload_size`. -/
def readPayloadSize (block : Block UInt8) : Option Nat :=
  (load block 0 sizeofHeader).map ofBytes

namespace Pickle

/-- `header_->payload_size = static_cast<uint32_t>(size)`. -/
def setPayloadSize (size : Nat) (pickle : Pickle) : Option Pickle := do
  let block ← pickle.header
  let next ← store block 0 (toBytes sizeofHeader size)
  some { pickle with header := some next }

/-- `Resize`. The allocator may not be asked to reallocate memory of the caller.
It gives what it is asked for: `CHECK(p)`, whose macro no file here defines, is
taken to let a pointer through that is not null. -/
def resize (newCapacity : Nat) (pickle : Pickle) : Option Pickle :=
  let newCapacity := alignInt newCapacity kPayloadUnit
  if pickle.capacityAfterHeader = kCapacityReadOnly then none
  else some { pickle with
    header := some (realloc (pickle.header.getD []) (sizeT (pickle.headerSize + newCapacity)))
    capacityAfterHeader := newCapacity }

/-- `Pickle()` and `Pickle(int header_size)`, which round the size up. -/
def withHeader (headerSize : Nat) : Option Pickle := do
  let pickle ← resize kPayloadUnit ⟨none, headerSize, 0, 0⟩
  pickle.setPayloadSize 0

/-- `Pickle()`. -/
def default : Option Pickle := withHeader sizeofHeader

/-- `Pickle(int header_size)`. -/
def ofHeaderSize (headerSize : BitVec 32) : Option Pickle :=
  withHeader (alignInt (asSize headerSize) sizeofHeader)

/-- A plain header is a whole number of words already. -/
theorem default_eq_ofHeaderSize : default = ofHeaderSize 4 := by
  have hsize : alignInt (asSize 4) sizeofHeader = sizeofHeader := by decide
  rw [default, ofHeaderSize, hsize]

/-- `Pickle(const char* data, int data_len)`. The data is not copied. The difference
of an `int` and a `uint32_t` is unsigned. -/
def ofData (data : Block UInt8) (dataLen : BitVec 32) : Option Pickle := do
  let headerSize ←
    if (sizeofHeader : Int) ≤ dataLen.toInt then
      (readPayloadSize data).map fun payload => (dataLen - BitVec.ofNat 32 payload).toNat
    else some 0
  let headerSize := if dataLen.toNat < headerSize then 0 else headerSize
  let headerSize := if headerSize ≠ alignInt headerSize sizeofHeader then 0 else headerSize
  -- If there is anything wrong with the data, it is not used.
  some ⟨if headerSize = 0 then none else some data, headerSize, kCapacityReadOnly, 0⟩

/-- `memcpy(header_, other.header_, count)`. -/
def copyFrom (other : Block UInt8) (count : Nat) (pickle : Pickle) : Option Pickle := do
  let block ← pickle.header
  let next ← copyFront other block count
  some { pickle with header := some next }

/-- `Pickle(const Pickle& other)`. -/
def copy (other : Pickle) : Option Pickle := do
  let block ← other.header
  let payload ← readPayloadSize block
  let payloadSize := sizeT (other.headerSize + payload)
  let pickle ← resize payloadSize ⟨none, other.headerSize, 0, other.writeOffset⟩
  pickle.copyFrom block payloadSize

/-- What `operator=` keeps of the allocation: no memory of the caller, and none for another
header size. The capacity is kept when the header is freed for its size. -/
def kept (pickle other : Pickle) : Pickle :=
  let pickle :=
    if pickle.capacityAfterHeader = kCapacityReadOnly then
      { pickle with header := none, capacityAfterHeader := 0 }
    else pickle
  if pickle.headerSize ≠ other.headerSize then
    { pickle with header := none, headerSize := other.headerSize }
  else pickle

/-- `operator=`, of two pickles that are not the same object. -/
def assign (pickle other : Pickle) : Option Pickle := do
  let block ← other.header
  let payload ← readPayloadSize block
  let pickle ← (pickle.kept other).resize payload
  let pickle ← pickle.copyFrom block (sizeT (other.headerSize + payload))
  some { pickle with writeOffset := other.writeOffset }

/-- `Resize`, when the allocation is too small for `newSize`. -/
def resizeFor (newSize newCapacity : Nat) (pickle : Pickle) : Option Pickle :=
  if pickle.capacityAfterHeader < newSize then pickle.resize newCapacity else some pickle

/-- `Reserve`. -/
def reserve (length : Nat) (pickle : Pickle) : Option Pickle :=
  let dataLen := alignInt length sizeofHeader
  let newSize := sizeT (pickle.writeOffset + dataLen)
  pickle.resizeFor newSize (sizeT (pickle.capacityAfterHeader * 2 + newSize))

/-- `WriteBytesCommon`: `length` bytes of the data, and zeros up to the next multiple
of four. -/
def writeBytesCommon (data : List UInt8) (length : Nat) (pickle : Pickle) : Option Pickle := do
  let dataLen := alignInt length sizeofHeader
  let newSize := sizeT (pickle.writeOffset + dataLen)
  let pickle ← pickle.resizeFor newSize (max (sizeT (pickle.capacityAfterHeader * 2)) newSize)
  let block ← pickle.header
  let write := pickle.headerSize + pickle.writeOffset
  -- `memcpy` reads as much of the caller's memory as the caller says is there.
  let bytes ← load (data.map some) 0 length
  let copied ← store block write bytes
  let padded ← store copied (write + length)
    (List.replicate (sizeT (dataLen + 2 ^ 64 - length)) 0)
  let pickle ← setPayloadSize newSize { pickle with header := some padded }
  some { pickle with writeOffset := newSize }

/-- `WritePOD`, of a type of `size` bytes. -/
def writePOD {size : Nat} (value : BitVec (8 * size)) (pickle : Pickle) :
    Option (Bool × Pickle) :=
  (pickle.writeBytesCommon (wordBytes value) size).map fun next => (true, next)

/-- `WriteInt`. -/
def writeInt (value : BitVec 32) : Pickle → Option (Bool × Pickle) := @writePOD 4 value

/-- `WriteBool`. -/
def writeBool (value : Bool) : Pickle → Option (Bool × Pickle) := writeInt (if value then 1 else 0)

/-- `WriteLongUsingDangerousNonPortableLessPersistableForm`, where a `long` has eight
bytes. -/
def writeLong (value : BitVec 64) : Pickle → Option (Bool × Pickle) := @writePOD 8 value

/-- `WriteUInt16`. -/
def writeUInt16 (value : BitVec 16) : Pickle → Option (Bool × Pickle) := @writePOD 2 value

/-- `WriteUInt32`. -/
def writeUInt32 (value : BitVec 32) : Pickle → Option (Bool × Pickle) := @writePOD 4 value

/-- `WriteInt64`. -/
def writeInt64 (value : BitVec 64) : Pickle → Option (Bool × Pickle) := @writePOD 8 value

/-- `WriteUInt64`. -/
def writeUInt64 (value : BitVec 64) : Pickle → Option (Bool × Pickle) := @writePOD 8 value

/-- `WriteFloat`, of the bits of the number. -/
def writeFloat (bits : BitVec 32) : Pickle → Option (Bool × Pickle) := @writePOD 4 bits

/-- `WriteDouble`, of the bits of the number. -/
def writeDouble (bits : BitVec 64) : Pickle → Option (Bool × Pickle) := @writePOD 8 bits

/-- `WriteBytes`. -/
def writeBytes (data : List UInt8) (length : BitVec 32) (pickle : Pickle) :
    Option (Bool × Pickle) :=
  (pickle.writeBytesCommon data (asSize length)).map fun next => (true, next)

/-- A write that comes only when the one before it returned true. -/
def andThen (first second : Pickle → Option (Bool × Pickle)) (pickle : Pickle) :
    Option (Bool × Pickle) := do
  let (written, next) ← first pickle
  if written then second next else some (false, next)

/-- `WriteString`. -/
def writeString (value : List UInt8) : Pickle → Option (Bool × Pickle) :=
  andThen (writeInt (asInt value.length)) (writeBytes value (asInt value.length))

/-- `WriteWString`, where `sizeof(wchar_t)` is four. -/
def writeWString (value : List (BitVec 32)) : Pickle → Option (Bool × Pickle) :=
  andThen (writeInt (asInt value.length))
    (writeBytes (value.flatMap (@wordBytes 4)) (asInt (sizeT (value.length * 4))))

/-- `WriteData`. -/
def writeData (data : List UInt8) (length : BitVec 32) (pickle : Pickle) :
    Option (Bool × Pickle) :=
  if 0 ≤ length.toInt then andThen (writeInt length) (writeBytes data length) pickle
  else some (false, pickle)

end Pickle

end GitRpc.Base
