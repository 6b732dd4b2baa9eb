import Mathlib.Tactic

/-!
Numbers as bytes, lowest byte first, and words of a whole number of bytes.
-/

namespace GitRpc.Library.LittleEndian

/-- The lowest `size` bytes of a number. -/
def toBytes : Nat → Nat → List UInt8
  | 0, _ => []
  | size + 1, value => UInt8.ofNat value :: toBytes size (value / 256)

/-- The number that the bytes stand for. -/
def ofBytes : List UInt8 → Nat
  | [] => 0
  | byte :: rest => byte.toNat + 256 * ofBytes rest

@[simp] theorem toBytes_zero (value : Nat) : toBytes 0 value = [] := rfl

@[simp] theorem toBytes_succ (size value : Nat) :
    toBytes (size + 1) value = UInt8.ofNat value :: toBytes size (value / 256) := rfl

@[simp] theorem ofBytes_nil : ofBytes [] = 0 := rfl

@[simp] theorem ofBytes_cons (byte : UInt8) (rest : List UInt8) :
    ofBytes (byte :: rest) = byte.toNat + 256 * ofBytes rest := rfl

theorem length_toBytes (size value : Nat) : (toBytes size value).length = size := by
  induction size generalizing value with
  | zero => rfl
  | succ size ih => simp [ih]

theorem ofBytes_lt (bytes : List UInt8) : ofBytes bytes < 256 ^ bytes.length := by
  induction bytes with
  | nil => simp
  | cons byte rest ih =>
      have hbyte : byte.toNat < 256 := byte.toNat_lt
      rw [ofBytes_cons, List.length_cons, Nat.pow_succ]
      omega

/-- Only what is above the bytes is lost. -/
theorem ofBytes_toBytes (size value : Nat) :
    ofBytes (toBytes size value) = value % 256 ^ size := by
  induction size generalizing value with
  | zero => simp [Nat.mod_one]
  | succ size ih =>
      have hbyte : (UInt8.ofNat value).toNat = value % 256 := by simp
      rw [toBytes_succ, ofBytes_cons, ih, hbyte, Nat.pow_succ', Nat.mod_mul]

theorem ofBytes_toBytes_of_lt {size value : Nat} (hvalue : value < 256 ^ size) :
    ofBytes (toBytes size value) = value := by
  rw [ofBytes_toBytes, Nat.mod_eq_of_lt hvalue]

theorem toBytes_ofBytes (bytes : List UInt8) : toBytes bytes.length (ofBytes bytes) = bytes := by
  induction bytes with
  | nil => rfl
  | cons byte rest ih =>
      have hbyte : byte.toNat < 256 := byte.toNat_lt
      have hlow : UInt8.ofNat (byte.toNat + 256 * ofBytes rest) = byte := by
        apply UInt8.toNat_inj.mp
        rw [UInt8.toNat_ofNat']
        omega
      have hhigh : (byte.toNat + 256 * ofBytes rest) / 256 = ofBytes rest := by omega
      rw [List.length_cons, toBytes_succ, ofBytes_cons, hlow, hhigh, ih]

section Words

variable {size : Nat}

/-- The bytes of a word. -/
def wordBytes (word : BitVec (8 * size)) : List UInt8 := toBytes size word.toNat

/-- The word that the bytes stand for. -/
def wordOf (size : Nat) (bytes : List UInt8) : BitVec (8 * size) :=
  BitVec.ofNat (8 * size) (ofBytes bytes)

@[simp] theorem length_wordBytes (word : BitVec (8 * size)) :
    (wordBytes word).length = size := length_toBytes size word.toNat

@[simp] theorem wordOf_wordBytes (word : BitVec (8 * size)) :
    wordOf size (wordBytes word) = word := by
  have hword : word.toNat < 256 ^ size := by
    have hlt := word.isLt
    rwa [Nat.pow_mul] at hlt
  rw [wordOf, wordBytes, ofBytes_toBytes_of_lt hword, BitVec.ofNat_toNat, BitVec.setWidth_eq]

/-- The words that stand one behind the other. -/
def wordsOf (size : Nat) : Nat → List UInt8 → List (BitVec (8 * size))
  | 0, _ => []
  | count + 1, bytes =>
      wordOf size (bytes.take size) :: wordsOf size count (bytes.drop size)

theorem length_flatMap_wordBytes (words : List (BitVec (8 * size))) :
    (words.flatMap wordBytes).length = size * words.length := by
  induction words with
  | nil => rfl
  | cons word rest ih =>
      rw [List.flatMap_cons, List.length_append, ih, length_wordBytes, List.length_cons,
        Nat.mul_succ, Nat.add_comm]

theorem wordsOf_flatMap_wordBytes (words : List (BitVec (8 * size))) :
    wordsOf size words.length (words.flatMap wordBytes) = words := by
  induction words with
  | nil => rfl
  | cons word rest ih =>
      have hlength := length_wordBytes word
      rw [List.length_cons, wordsOf, List.flatMap_cons, List.take_left' hlength,
        List.drop_left' hlength, wordOf_wordBytes, ih]

end Words

end GitRpc.Library.LittleEndian
