import GitRpc.Base.PickleIterator

/-!
What the bytes of a payload stand for. A value is written as one or two fields,
each with zeros behind it up to a multiple of four.
-/

namespace GitRpc.Base

open Library.LittleEndian

/-- The values a pickle takes. A float stands by its bits. -/
inductive Value where
  | bool (value : Bool)
  | int (value : BitVec 32)
  | long (value : BitVec 64)
  | uint16 (value : BitVec 16)
  | uint32 (value : BitVec 32)
  | int64 (value : BitVec 64)
  | uint64 (value : BitVec 64)
  | float (bits : BitVec 32)
  | double (bits : BitVec 64)
  | string (value : List UInt8)
  | wstring (value : List (BitVec 32))
  | data (value : List UInt8)
  | bytes (value : List UInt8)
deriving DecidableEq

/-- What a reader asks for. The length of bytes is not in the pickle. -/
inductive Kind where
  | bool | int | long | uint16 | uint32 | int64 | uint64 | float | double
  | string | wstring | data
  | bytes (numBytes : BitVec 32)
  | length
  | skip (numBytes : BitVec 32)
deriving DecidableEq

/-- What a read that returned true gives. -/
inductive Reading where
  | value (value : Value)
  | skipped
deriving DecidableEq

namespace Value

/-- The write of a value. -/
def write : Value → Pickle → Option (Bool × Pickle)
  | bool value => Pickle.writeBool value
  | int value => Pickle.writeInt value
  | long value => Pickle.writeLong value
  | uint16 value => Pickle.writeUInt16 value
  | uint32 value => Pickle.writeUInt32 value
  | int64 value => Pickle.writeInt64 value
  | uint64 value => Pickle.writeUInt64 value
  | float bits => Pickle.writeFloat bits
  | double bits => Pickle.writeDouble bits
  | string value => Pickle.writeString value
  | wstring value => Pickle.writeWString value
  | data value => Pickle.writeData value (asInt value.length)
  | bytes value => Pickle.writeBytes value (asInt value.length)

/-- What a reader of the value has to ask for. -/
def kind : Value → Kind
  | bool _ => .bool
  | int _ => .int
  | long _ => .long
  | uint16 _ => .uint16
  | uint32 _ => .uint32
  | int64 _ => .int64
  | uint64 _ => .uint64
  | float _ => .float
  | double _ => .double
  | string _ => .string
  | wstring _ => .wstring
  | data _ => .data
  | bytes value => .bytes (asInt value.length)

/-- The length of the value in bytes is an `int`. -/
def Fits : Value → Prop
  | string value => value.length < 2 ^ 31
  | wstring value => 4 * value.length < 2 ^ 31
  | data value => value.length < 2 ^ 31
  | bytes value => value.length < 2 ^ 31
  | _ => True

instance : (value : Value) → Decidable value.Fits
  | string value => inferInstanceAs (Decidable (value.length < 2 ^ 31))
  | wstring value => inferInstanceAs (Decidable (4 * value.length < 2 ^ 31))
  | data value => inferInstanceAs (Decidable (value.length < 2 ^ 31))
  | bytes value => inferInstanceAs (Decidable (value.length < 2 ^ 31))
  | bool _ | int _ | long _ | uint16 _ | uint32 _ | int64 _ | uint64 _ | float _ | double _ =>
      inferInstanceAs (Decidable True)

end Value

/-- The read that is asked for. -/
def Kind.read (iter : PickleIterator) : Kind → Option (Option Reading × PickleIterator)
  | .bool => value Value.bool iter.readBool
  | .int => value Value.int iter.readInt
  | .long => value Value.long iter.readLong
  | .uint16 => value Value.uint16 iter.readUInt16
  | .uint32 => value Value.uint32 iter.readUInt32
  | .int64 => value Value.int64 iter.readInt64
  | .uint64 => value Value.uint64 iter.readUInt64
  | .float => value Value.float iter.readFloat
  | .double => value Value.double iter.readDouble
  | .string => value Value.string iter.readString
  | .wstring => value Value.wstring iter.readWString
  | .data => value Value.data iter.readData
  | .bytes numBytes => value Value.bytes (iter.readBytes numBytes)
  | .length => value Value.int iter.readLength
  | .skip numBytes => PickleIterator.given (fun _ => some .skipped) (iter.skipBytes numBytes)
where
  value {α : Type} (toValue : α → Value) (read : Option (Option α × PickleIterator)) :
      Option (Option Reading × PickleIterator) :=
    PickleIterator.given (fun got => some (.value (toValue got))) read

/-- A field: the bytes, and zeros up to a multiple of four. -/
def padded (bytes : List UInt8) : List UInt8 :=
  bytes ++ List.replicate ((4 - bytes.length % 4) % 4) 0

/-- A length and what has this length. -/
def counted (count : Nat) (bytes : List UInt8) : List UInt8 :=
  padded (@wordBytes 4 (asInt count)) ++ padded bytes

/-- The fields of a value. -/
def Value.encode : Value → List UInt8
  | .bool value => padded (@wordBytes 4 (if value then 1 else 0))
  | .int value => padded (@wordBytes 4 value)
  | .long value => padded (@wordBytes 8 value)
  | .uint16 value => padded (@wordBytes 2 value)
  | .uint32 value => padded (@wordBytes 4 value)
  | .int64 value => padded (@wordBytes 8 value)
  | .uint64 value => padded (@wordBytes 8 value)
  | .float bits => padded (@wordBytes 4 bits)
  | .double bits => padded (@wordBytes 8 bits)
  | .string value => counted value.length value
  | .wstring value => counted value.length (value.flatMap (@wordBytes 4))
  | .data value => counted value.length value
  | .bytes value => padded value

/-- The fields of one value after the other. -/
def encodeAll (values : List Value) : List UInt8 := values.flatMap Value.encode

section Sizes

@[simp] theorem length_padded (bytes : List UInt8) :
    (padded bytes).length = bytes.length + (4 - bytes.length % 4) % 4 := by simp [padded]

theorem alignInt_four {n : Nat} (hn : n < 2 ^ 63) :
    alignInt n sizeofHeader = n + (4 - n % 4) % 4 := by
  unfold alignInt sizeT sizeofHeader
  omega

theorem alignInt_unit {n : Nat} (hn : n < 2 ^ 63) :
    n ≤ alignInt n kPayloadUnit ∧ alignInt n kPayloadUnit < n + 64 := by
  unfold alignInt sizeT kPayloadUnit
  omega

theorem asSize_asInt {n : Nat} (hn : n < 2 ^ 31) : asSize (asInt n) = n := by
  have hmsb : (asInt n).msb = false := by
    rw [BitVec.msb_eq_false_iff_two_mul_lt, asInt, BitVec.toNat_ofNat]
    omega
  rw [asSize, BitVec.signExtend_eq_setWidth_of_msb_false hmsb, BitVec.toNat_setWidth, asInt,
    BitVec.toNat_ofNat]
  omega

theorem asInt_toInt {n : Nat} (hn : n < 2 ^ 31) : (asInt n).toInt = n := by
  have hvalue : (asInt n).toNat = n := by
    rw [asInt, BitVec.toNat_ofNat]
    omega
  rw [BitVec.toInt_eq_toNat_of_lt (by omega), hvalue]

theorem encodeAll_cons (value : Value) (rest : List Value) :
    encodeAll (value :: rest) = value.encode ++ encodeAll rest := rfl

end Sizes

end GitRpc.Base
