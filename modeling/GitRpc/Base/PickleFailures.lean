import GitRpc.Base.PickleReads
import GitRpc.Base.PickleRoundTrip

/-!
What is left behind a read that returned false. Nearly always nothing is, and
then only reads of no bytes come back with anything; but a negative length, and
a count of characters whose size is no `int`, leave what is behind them.
-/

namespace GitRpc.Base

open Library.Allocations Library.LittleEndian

/-- The read fails on the number in front, and moves only behind this number. -/
def FailsOnNumber (kind : Kind) (bytes : List UInt8) : Prop :=
  4 ≤ bytes.length ∧
    ((kind = .length ∧ (wordOf 4 (bytes.take 4)).toInt < 0) ∨
      (kind = .wstring ∧ (2 ^ 31 ≤ 4 * (wordOf 4 (bytes.take 4)).toInt ∨
        4 * (wordOf 4 (bytes.take 4)).toInt < -2 ^ 31)))

instance (kind : Kind) (bytes : List UInt8) : Decidable (FailsOnNumber kind bytes) :=
  inferInstanceAs (Decidable (_ ∧ _))

/-- A decoder that has nothing left when it fails. -/
def TakesAll {α : Type} (decoder : Decoder α) : Prop :=
  ∀ bytes, (decoder bytes).1 = none → (decoder bytes).2 = []

section TakesAll

variable {α β : Type} {decoder : Decoder α}

theorem takesAll_field (size : Nat) : TakesAll (Decoder.field size) := by
  intro bytes hfails
  unfold Decoder.field at hfails ⊢
  split
  case isTrue => rfl
  case isFalse hroom => simp [hroom] at hfails

theorem takesAll_sized (numBytes : BitVec 32) : TakesAll (Decoder.sized numBytes) := by
  intro bytes hfails
  unfold Decoder.sized at hfails ⊢
  split
  case isTrue => rfl
  case isFalse hpositive =>
    rw [ite_cond_eq_false _ _ (eq_false hpositive)] at hfails
    exact takesAll_field _ bytes hfails

/-- Only a total function of what was read keeps this. -/
theorem TakesAll.convert (h : TakesAll decoder) {f : α → Option β} (hf : ∀ a, f a ≠ none) :
    TakesAll (decoder.convert f) := by
  intro bytes hfails
  apply h bytes
  cases hgot : (decoder bytes).1 with
  | none => rfl
  | some got =>
      simp only [Decoder.convert, hgot, Option.bind_some] at hfails
      exact absurd hfails (hf got)

theorem takesAll_word (size : Nat) : TakesAll (Decoder.word size) :=
  (takesAll_field size).convert (by simp)

theorem TakesAll.counted {decoder : BitVec 32 → Decoder α} (h : ∀ count, TakesAll (decoder count)) :
    TakesAll (Decoder.counted decoder) := by
  intro bytes hfails
  have hword := takesAll_word 4 bytes
  unfold Decoder.counted at hfails ⊢
  cases hparts : Decoder.word 4 bytes with
  | mk got rest =>
      rw [hparts] at hword
      simp only [hparts] at hfails
      cases got with
      | none => exact hword rfl
      | some count => exact h count rest hfails

end TakesAll

/-- The number in front, when there is one. -/
theorem word_four (bytes : List UInt8) :
    Decoder.word 4 bytes =
      if bytes.length < 4 then (none, [])
      else (some (wordOf 4 (bytes.take 4)), bytes.drop 4) := by
  unfold Decoder.word Decoder.convert Decoder.field
  split <;> rfl

theorem length_fails (bytes : List UInt8) (hfails : (Decoder.length bytes).1 = none) :
    (Decoder.length bytes).2 = if FailsOnNumber .length bytes then bytes.drop 4 else [] := by
  rw [Decoder.length, Decoder.convert, word_four] at hfails ⊢
  split
  case isTrue hshort =>
    rw [ite_cond_eq_false _ _ (eq_false fun hnumber => by
      have hroom := hnumber.1
      omega)]
  case isFalse hroom =>
    have hnegative : ¬0 ≤ (wordOf 4 (bytes.take 4)).toInt := by
      intro hpositive
      simp [hroom, hpositive] at hfails
    rw [ite_cond_eq_true _ _ (eq_true ⟨by omega, .inl ⟨rfl, by omega⟩⟩)]

/-- Without an overflow, the elements are bytes like others. -/
theorem elements_fails (count : BitVec 32) (bytes : List UInt8)
    (hfails : (Decoder.elements count bytes).1 = none) :
    (Decoder.elements count bytes).2 =
      if 2 ^ 31 ≤ 4 * count.toInt ∨ 4 * count.toInt < -2 ^ 31 then bytes else [] := by
  unfold Decoder.elements at hfails ⊢
  split
  case isTrue => rfl
  case isFalse hsmall =>
    rw [ite_cond_eq_false _ _ (eq_false hsmall)] at hfails
    split
    case isTrue => rfl
    case isFalse hpositive =>
      rw [ite_cond_eq_false _ _ (eq_false hpositive)] at hfails
      exact takesAll_field _ bytes hfails

theorem chars_fails (bytes : List UInt8) (hfails : (Decoder.chars bytes).1 = none) :
    (Decoder.chars bytes).2 = if FailsOnNumber .wstring bytes then bytes.drop 4 else [] := by
  have hword := word_four bytes
  rcases Nat.lt_or_ge bytes.length 4 with hshort | hroom
  · rw [ite_cond_eq_true _ _ (eq_true hshort)] at hword
    rw [ite_cond_eq_false _ _ (eq_false fun hnumber => by
      have hroom := hnumber.1
      omega)]
    simp only [Decoder.chars, Decoder.counted, hword]
  · rw [ite_cond_eq_false _ _ (eq_false (by omega))] at hword
    simp only [Decoder.chars, Decoder.counted, hword, Decoder.convert] at hfails ⊢
    have helements : (Decoder.elements (wordOf 4 (bytes.take 4)) (bytes.drop 4)).1 = none := by
      cases hgot : (Decoder.elements (wordOf 4 (bytes.take 4)) (bytes.drop 4)).1 with
      | none => rfl
      | some got => simp [hgot] at hfails
    rw [elements_fails _ _ helements]
    simp [FailsOnNumber, hroom]

/-- What a read that returned false leaves. -/
theorem Kind.fails (kind : Kind) (bytes : List UInt8) (hfails : (kind.decode bytes).1 = none) :
    (kind.decode bytes).2 = if FailsOnNumber kind bytes then bytes.drop 4 else [] := by
  have hvalue {α : Type} {toValue : α → Value} {decoder : Decoder α}
      (h : (Kind.decode.value toValue decoder bytes).1 = none) : (decoder bytes).1 = none := by
    cases hgot : (decoder bytes).1 with
    | none => rfl
    | some got => simp [Kind.decode.value, Decoder.convert, hgot] at h
  have hall {α : Type} {toValue : α → Value} {decoder : Decoder α} (h : TakesAll decoder)
      (hnumber : ¬FailsOnNumber kind bytes)
      (hnone : (Kind.decode.value toValue decoder bytes).1 = none) :
      (Kind.decode.value toValue decoder bytes).2 =
        if FailsOnNumber kind bytes then bytes.drop 4 else [] := by
    rw [ite_cond_eq_false _ _ (eq_false hnumber)]
    exact h bytes (hvalue hnone)
  cases kind with
  | bool => exact hall ((takesAll_word 1).convert (by simp)) (by simp [FailsOnNumber]) hfails
  | int => exact hall (takesAll_word 4) (by simp [FailsOnNumber]) hfails
  | long => exact hall (takesAll_word 8) (by simp [FailsOnNumber]) hfails
  | uint16 => exact hall (takesAll_word 2) (by simp [FailsOnNumber]) hfails
  | uint32 => exact hall (takesAll_word 4) (by simp [FailsOnNumber]) hfails
  | int64 => exact hall (takesAll_word 8) (by simp [FailsOnNumber]) hfails
  | uint64 => exact hall (takesAll_word 8) (by simp [FailsOnNumber]) hfails
  | float => exact hall (takesAll_word 4) (by simp [FailsOnNumber]) hfails
  | double => exact hall (takesAll_word 8) (by simp [FailsOnNumber]) hfails
  | string => exact hall (TakesAll.counted takesAll_sized) (by simp [FailsOnNumber]) hfails
  | wstring => exact chars_fails bytes (hvalue hfails)
  | data => exact hall (TakesAll.counted takesAll_sized) (by simp [FailsOnNumber]) hfails
  | bytes numBytes => exact hall (takesAll_sized numBytes) (by simp [FailsOnNumber]) hfails
  | length => exact length_fails bytes (hvalue hfails)
  | skip numBytes =>
      have hskip : TakesAll (Kind.skip numBytes).decode :=
        ((takesAll_sized numBytes).convert (by simp)).convert (by simp)
      rw [ite_cond_eq_false _ _ (eq_false (by simp [FailsOnNumber]))]
      exact hskip bytes hfails

/-- What a read gives when nothing is left: only no bytes can still be read. -/
def Kind.atEnd : Kind → Option Reading
  | .bytes 0 => some (.value (.bytes []))
  | .skip 0 => some .skipped
  | _ => none

theorem sized_nil (numBytes : BitVec 32) :
    Decoder.sized numBytes [] = (if numBytes = 0 then some [] else none, []) := by
  have hvalue := toInt_eq numBytes
  have hsize := asSize_eq numBytes
  unfold Decoder.sized Decoder.field
  rcases eq_or_ne numBytes 0 with hzero | hne
  · rw [hzero]
    rfl
  · have hpositive : 0 < numBytes.toNat := by
      apply Nat.pos_of_ne_zero
      intro hnat
      exact hne (BitVec.eq_of_toNat_eq hnat)
    have hlarge : ([] : List UInt8).length < asSize numBytes := by
      rw [hsize, List.length_nil]
      split <;> omega
    rw [ite_cond_eq_true _ _ (eq_true hlarge), ite_cond_eq_false _ _ (eq_false hne)]
    split <;> rfl

theorem Kind.decode_nil (kind : Kind) : kind.decode [] = (kind.atEnd, []) := by
  cases kind with
  | bytes numBytes =>
      rcases eq_or_ne numBytes 0 with hzero | hne
      · rw [hzero]
        rfl
      · have hnone : Kind.atEnd (.bytes numBytes) = none := by
          unfold Kind.atEnd
          split <;> simp_all
        have hsized : Decoder.sized numBytes [] = (none, []) := by
          rw [sized_nil, ite_cond_eq_false _ _ (eq_false hne)]
        simp [Kind.decode, Kind.decode.value, Decoder.convert, hsized, hnone]
  | skip numBytes =>
      rcases eq_or_ne numBytes 0 with hzero | hne
      · rw [hzero]
        rfl
      · have hnone : Kind.atEnd (.skip numBytes) = none := by
          unfold Kind.atEnd
          split <;> simp_all
        have hsized : Decoder.sized numBytes [] = (none, []) := by
          rw [sized_nil, ite_cond_eq_false _ _ (eq_false hne)]
        simp [Kind.decode, Decoder.skip, Decoder.convert, hsized, hnone]
  | _ => rfl

theorem decodeAll_append (first second : List Kind) (bytes : List UInt8) :
    decodeAll (first ++ second) bytes =
      ((decodeAll first bytes).1 ++ (decodeAll second (decodeAll first bytes).2).1,
        (decodeAll second (decodeAll first bytes).2).2) := by
  induction first generalizing bytes with
  | nil => rfl
  | cons kind rest ih => simp only [List.cons_append, decodeAll, ih]

theorem decodeAll_nil (kinds : List Kind) :
    decodeAll kinds [] = (kinds.map Kind.atEnd, []) := by
  induction kinds with
  | nil => rfl
  | cons kind rest ih => simp only [decodeAll, kind.decode_nil, ih, List.map_cons]

/-- After a read that returned false, on whatever bytes and after whatever reads, nothing
but no bytes can be read any more; unless it failed on a number, and then the reads go on
behind the number. -/
theorem reads_after_failure {iter : PickleIterator} {block : Block UInt8} {bytes : List UInt8}
    (h : Sees iter block bytes) {before : List Kind} {kind : Kind} (after : List Kind)
    (hfails : (kind.decode (decodeAll before bytes).2).1 = none) :
    ∃ last, readAll (before ++ kind :: after) iter =
      some ((decodeAll before bytes).1 ++ none ::
        (if FailsOnNumber kind (decodeAll before bytes).2 then
          (decodeAll after ((decodeAll before bytes).2.drop 4)).1
        else after.map Kind.atEnd), last) := by
  obtain ⟨last, hread, -⟩ := readAll_decodeAll (before ++ kind :: after) h
  refine ⟨last, ?_⟩
  rw [hread, decodeAll_append]
  simp only [decodeAll, hfails, kind.fails _ hfails]
  split
  · rfl
  · rw [decodeAll_nil]

theorem reads_after_negative_length :
    ∃ last, readAll ([.uint32] ++ .length :: [.int, .int])
        ⟨some ([1, 0, 0, 0, 255, 255, 255, 255, 7, 0, 0, 0].map some), 0, 12, Nat.zero_le 12⟩ =
      some ((decodeAll [.uint32] [1, 0, 0, 0, 255, 255, 255, 255, 7, 0, 0, 0]).1 ++ none ::
        (if FailsOnNumber .length
            (decodeAll [.uint32] [1, 0, 0, 0, 255, 255, 255, 255, 7, 0, 0, 0]).2 then
          (decodeAll [.int, .int]
            ((decodeAll [.uint32] [1, 0, 0, 0, 255, 255, 255, 255, 7, 0, 0, 0]).2.drop 4)).1
        else [.int, .int].map Kind.atEnd), last) :=
  reads_after_failure ⟨rfl, rfl, rfl, by decide⟩ [.int, .int] (by decide)

end GitRpc.Base
