import Mathlib.Data.List.TakeWhile
import GitRpc.Library.Sextets
import GitRpc.Base.PickleFormat

/-!
`base64_encode` and `base64_decode`. Their local arrays start with whatever is
on the stack, and the last group leaves some of it in place; what is appended
to the result does not depend on it.
-/

namespace GitRpc.Base

open Library.Sextets

/-- `base64_chars`. -/
def base64Chars : List UInt8 :=
  ((List.range 26).map fun n => UInt8.ofNat (65 + n)) ++
    ((List.range 26).map fun n => UInt8.ofNat (97 + n)) ++
    ((List.range 10).map fun n => UInt8.ofNat (48 + n)) ++ [43, 47]

/-- The character `=`. -/
def padChar : UInt8 := 61

/-- `base64_chars[k]`. -/
def charAt (k : UInt8) : UInt8 := base64Chars.getD k.toNat 0

/-- `base64_chars.find(c)`, as an `unsigned char`. -/
def findChar (c : UInt8) : UInt8 := UInt8.ofNat (base64Chars.idxOf c)

/-- `isalnum` of the C locale. -/
def isAlnum (c : UInt8) : Bool :=
  (65 ≤ c && c ≤ 90) || (97 ≤ c && c ≤ 122) || (48 ≤ c && c ≤ 57)

/-- `is_base64`. -/
def isBase64 (c : UInt8) : Bool := isAlnum c || c == 43 || c == 47

/-- A local array, by its cells. -/
abbrev Cells := Nat → UInt8

/-- `char_array_4` of a group of three bytes. -/
def charArray4 (a : Cells) : List UInt8 :=
  [(a 0 &&& 0xfc) >>> 2,
    ((a 0 &&& 0x03) <<< 4) + ((a 1 &&& 0xf0) >>> 4),
    ((a 1 &&& 0x0f) <<< 2) + ((a 2 &&& 0xc0) >>> 6),
    a 2 &&& 0x3f]

/-- The variables of the loop of `base64_encode`. -/
structure Encoder where
  i : Nat
  charArray3 : Cells
  ret : List UInt8

/-- One round of the loop. -/
def Encoder.take (s : Encoder) (byte : UInt8) : Encoder :=
  let array := Function.update s.charArray3 s.i byte
  if s.i + 1 = 3 then ⟨0, array, s.ret ++ (charArray4 array).map charAt⟩
  else ⟨s.i + 1, array, s.ret⟩

/-- What follows the loop. Of the last group no more than three characters are used, and
the fourth is not computed. -/
def Encoder.finish (s : Encoder) : List UInt8 :=
  if s.i ≠ 0 then
    let array : Cells := fun j => if s.i ≤ j ∧ j < 3 then 0 else s.charArray3 j
    s.ret ++ ((charArray4 array).take (s.i + 1)).map charAt ++ List.replicate (3 - s.i) padChar
  else s.ret

/-- `base64_encode`, with what is on the stack. -/
def base64Encode (stack : Cells) (bytes : List UInt8) : List UInt8 :=
  (bytes.foldl Encoder.take ⟨0, stack, []⟩).finish

/-- `char_array_3` of a group of four numbers. -/
def charArray3 (a : Cells) : List UInt8 :=
  [(a 0 <<< 2) + ((a 1 &&& 0x30) >>> 4),
    ((a 1 &&& 0xf) <<< 4) + ((a 2 &&& 0x3c) >>> 2),
    ((a 2 &&& 0x3) <<< 6) + a 3]

/-- The first `count` characters of the array by their numbers. -/
def found (count : Nat) (a : Cells) : Cells := fun j => if j < count then findChar (a j) else a j

/-- The variables of the loop of `base64_decode`. -/
structure Decoding where
  i : Nat
  charArray4 : Cells
  ret : List UInt8

/-- One round of the loop. -/
def Decoding.take (s : Decoding) (c : UInt8) : Decoding :=
  let array := Function.update s.charArray4 s.i c
  if s.i + 1 = 4 then ⟨0, found 4 array, s.ret ++ charArray3 (found 4 array)⟩
  else ⟨s.i + 1, array, s.ret⟩

/-- The loop. It ends at the count, at a character that is not of the alphabet, or at the
zero behind the text, which is not. -/
def Decoding.loop (s : Decoding) (inLen : Int) : List UInt8 → Decoding
  | [] => s
  | c :: rest =>
      if inLen ≠ 0 ∧ c ≠ padChar ∧ isBase64 c then (s.take c).loop (inLen - 1) rest else s

/-- What follows the loop. The third byte of the last group is not computed. -/
def Decoding.finish (s : Decoding) : List UInt8 :=
  if s.i ≠ 0 then s.ret ++ (charArray3 (found s.i s.charArray4)).take (s.i - 1) else s.ret

/-- `base64_decode`, with what is on the stack. The length becomes an `int`. -/
def base64Decode (stack : Cells) (text : List UInt8) : List UInt8 :=
  (Decoding.loop ⟨0, stack, []⟩ (asInt text.length).toInt text).finish

section Tables

theorem forall_byte {P : UInt8 → Prop} (h : ∀ n : Fin 256, P (UInt8.ofFin n)) (byte : UInt8) :
    P byte := h byte.toFin

/-- The characters of the alphabet have numbers, and no others do. -/
theorem charAt_table : ∀ k : Fin 64, isBase64 (charAt (UInt8.ofNat k)) = true ∧
    charAt (UInt8.ofNat k) ≠ padChar ∧ findChar (charAt (UInt8.ofNat k)) = UInt8.ofNat k := by
  decide +kernel

theorem findChar_table (c : UInt8) (hc : isBase64 c = true) :
    (findChar c).toNat < 64 ∧ charAt (findChar c) = c ∧ c ≠ padChar := by
  revert c
  apply forall_byte
  decide +kernel

theorem encode_masks (a : UInt8) :
    ((a &&& 0xfc) >>> 2).toNat = a.toNat / 4 ∧
      ((a &&& 0x03) <<< 4).toNat = a.toNat % 4 * 16 ∧
      ((a &&& 0xf0) >>> 4).toNat = a.toNat / 16 ∧
      ((a &&& 0x0f) <<< 2).toNat = a.toNat % 16 * 4 ∧
      ((a &&& 0xc0) >>> 6).toNat = a.toNat / 64 ∧ (a &&& 0x3f).toNat = a.toNat % 64 := by
  revert a
  apply forall_byte
  decide +kernel

theorem decode_masks (a : UInt8) :
    (a <<< 2).toNat = a.toNat * 4 % 256 ∧ ((a &&& 0x30) >>> 4).toNat = a.toNat / 16 % 4 ∧
      ((a &&& 0xf) <<< 4).toNat = a.toNat % 16 * 16 ∧
      ((a &&& 0x3c) >>> 2).toNat = a.toNat / 4 % 16 ∧
      ((a &&& 0x3) <<< 6).toNat = a.toNat % 4 * 64 := by
  revert a
  apply forall_byte
  decide +kernel

end Tables

/-- The character of a number. -/
def charOf (n : Nat) : UInt8 := charAt (UInt8.ofNat n)

/-- The number of a character. -/
def numberOf (c : UInt8) : Nat := (findChar c).toNat

theorem charOf_spec {n : Nat} (hn : n < 64) :
    isBase64 (charOf n) = true ∧ charOf n ≠ padChar ∧ findChar (charOf n) = UInt8.ofNat n :=
  charAt_table ⟨n, hn⟩

theorem numberOf_charOf {n : Nat} (hn : n < 64) : numberOf (charOf n) = n := by
  rw [numberOf, (charOf_spec hn).2.2, UInt8.toNat_ofNat']
  omega

theorem charOf_numberOf {c : UInt8} (hc : isBase64 c = true) : charOf (numberOf c) = c := by
  rw [charOf, numberOf, UInt8.ofNat_toNat, (findChar_table c hc).2.1]

section Encode

variable {bytes : List UInt8}

/-- The numbers of a group of three bytes. -/
theorem charArray4_eq (a : Cells) :
    charArray4 a = (sextets [a 0, a 1, a 2]).map UInt8.ofNat := by
  obtain ⟨hfirst, hlow, -⟩ := encode_masks (a 0)
  obtain ⟨-, -, hhigh, hmiddle, -⟩ := encode_masks (a 1)
  obtain ⟨-, -, -, -, htop, hlast⟩ := encode_masks (a 2)
  have h0 := (a 0).toNat_lt
  have h1 := (a 1).toNat_lt
  have h2 := (a 2).toNat_lt
  simp only [charArray4, sextets, List.map_cons, List.map_nil, List.cons.injEq, and_true,
    ← UInt8.toNat_inj, UInt8.toNat_add, UInt8.toNat_ofNat', hfirst, hlow, hhigh, hmiddle, htop,
    hlast]
  exact ⟨by omega, trivial, trivial, by omega⟩

/-- The characters that stand for the bytes, and what fills the last group. -/
def encoding (bytes : List UInt8) : List UInt8 :=
  (sextets bytes).map charOf ++ List.replicate ((3 - bytes.length % 3) % 3) padChar

theorem encode_loop (bytes : List UInt8) (array : Cells) (ret : List UInt8) :
    (bytes.foldl Encoder.take ⟨0, array, ret⟩).finish = ret ++ encoding bytes := by
  induction bytes using sextets.induct generalizing array ret with
  | case1 a b c rest ih =>
      have hpad : ((3 - (a :: b :: c :: rest).length % 3) % 3) = (3 - rest.length % 3) % 3 := by
        simp only [List.length_cons]
        omega
      have hgroup : [a, b, c].foldl Encoder.take ⟨0, array, ret⟩ =
          ⟨0, Function.update (Function.update (Function.update array 0 a) 1 b) 2 c,
            ret ++ (sextets [a, b, c]).map charOf⟩ := by
        simp [Encoder.take, charArray4_eq, Function.update, Function.comp_def, charOf]
      have hfold : (a :: b :: c :: rest).foldl Encoder.take ⟨0, array, ret⟩ =
          rest.foldl Encoder.take ([a, b, c].foldl Encoder.take ⟨0, array, ret⟩) := rfl
      rw [hfold, hgroup, ih, encoding, encoding, hpad]
      simp [sextets]
  | case2 a b => simp [Encoder.take, Encoder.finish, charArray4_eq, encoding, sextets, charOf]
  | case3 a => simp [Encoder.take, Encoder.finish, charArray4_eq, encoding, sextets, charOf]
  | case4 => simp [Encoder.finish, encoding, sextets]

theorem base64Encode_eq (stack : Cells) (bytes : List UInt8) :
    base64Encode stack bytes = encoding bytes := encode_loop bytes stack []

end Encode

section Decode

variable {a b c d : UInt8}

theorem first_byte (hb : b.toNat < 64) :
    (a <<< 2) + ((b &&& 0x30) >>> 4) = UInt8.ofNat (a.toNat * 4 + b.toNat / 16) := by
  obtain ⟨hleft, -⟩ := decode_masks a
  obtain ⟨-, hright, -⟩ := decode_masks b
  simp only [← UInt8.toNat_inj, UInt8.toNat_add, UInt8.toNat_ofNat', hleft, hright]
  omega

theorem second_byte (hc : c.toNat < 64) :
    ((b &&& 0xf) <<< 4) + ((c &&& 0x3c) >>> 2) =
      UInt8.ofNat (b.toNat % 16 * 16 + c.toNat / 4) := by
  obtain ⟨-, -, hleft, -⟩ := decode_masks b
  obtain ⟨-, -, -, hright, -⟩ := decode_masks c
  simp only [← UInt8.toNat_inj, UInt8.toNat_add, UInt8.toNat_ofNat', hleft, hright]
  omega

theorem third_byte : ((c &&& 0x3) <<< 6) + d = UInt8.ofNat (c.toNat % 4 * 64 + d.toNat) := by
  obtain ⟨-, -, -, -, hleft⟩ := decode_masks c
  simp only [← UInt8.toNat_inj, UInt8.toNat_add, UInt8.toNat_ofNat', hleft]

/-- The text stops here. -/
def Stops (text : List UInt8) : Prop := ∀ c ∈ text.head?, isBase64 c = false

theorem loop_stops {s : Decoding} {inLen : Int} {text : List UInt8} (hstops : Stops text) :
    s.loop inLen text = s := by
  cases text with
  | nil => rfl
  | cons c rest =>
      have hc : isBase64 c = false := hstops c rfl
      simp [Decoding.loop, hc]

variable {k l m n : Nat}

theorem toNat_findChar (hn : n < 64) : (findChar (charOf n)).toNat = n := numberOf_charOf hn

theorem loop_takes {s : Decoding} {inLen : Int} {rest : List UInt8} (hn : n < 64)
    (hlen : inLen ≠ 0) :
    s.loop inLen (charOf n :: rest) = (s.take (charOf n)).loop (inLen - 1) rest := by
  obtain ⟨hbase, hpad, -⟩ := charOf_spec hn
  rw [Decoding.loop, ite_cond_eq_true _ _ (eq_true ⟨hlen, hpad, hbase⟩)]

/-- Four characters are three bytes. -/
theorem take_four (hk : k < 64) (hl : l < 64) (hm : m < 64) (hn : n < 64) (array : Cells)
    (ret : List UInt8) :
    ∃ after, (((Decoding.take ⟨0, array, ret⟩ (charOf k)).take (charOf l)).take
      (charOf m)).take (charOf n) = ⟨0, after, ret ++ octets [k, l, m, n]⟩ := by
  have hfirst := first_byte (a := findChar (charOf k)) (b := findChar (charOf l))
    (by rw [toNat_findChar hl]; exact hl)
  have hsecond := second_byte (b := findChar (charOf l)) (c := findChar (charOf m))
    (by rw [toNat_findChar hm]; exact hm)
  have hthird := third_byte (c := findChar (charOf m)) (d := findChar (charOf n))
  rw [toNat_findChar hk, toNat_findChar hl] at hfirst
  rw [toNat_findChar hl, toNat_findChar hm] at hsecond
  rw [toNat_findChar hm, toNat_findChar hn] at hthird
  refine ⟨found 4 (Function.update (Function.update (Function.update (Function.update array 0
    (charOf k)) 1 (charOf l)) 2 (charOf m)) 3 (charOf n)), ?_⟩
  simp [Decoding.take, charArray3, found, Function.update, octets, hfirst, hsecond, hthird]

/-- Three characters that are left over are two bytes. -/
theorem finish_three (hk : k < 64) (hl : l < 64) (hm : m < 64) (array : Cells)
    (ret : List UInt8) :
    (((Decoding.take ⟨0, array, ret⟩ (charOf k)).take (charOf l)).take (charOf m)).finish =
      ret ++ octets [k, l, m] := by
  have hfirst := first_byte (a := findChar (charOf k)) (b := findChar (charOf l))
    (by rw [toNat_findChar hl]; exact hl)
  have hsecond := second_byte (b := findChar (charOf l)) (c := findChar (charOf m))
    (by rw [toNat_findChar hm]; exact hm)
  rw [toNat_findChar hk, toNat_findChar hl] at hfirst
  rw [toNat_findChar hl, toNat_findChar hm] at hsecond
  simp [Decoding.take, Decoding.finish, charArray3, found, octets, hfirst, hsecond]

/-- Two are one. -/
theorem finish_two (hk : k < 64) (hl : l < 64) (array : Cells) (ret : List UInt8) :
    ((Decoding.take ⟨0, array, ret⟩ (charOf k)).take (charOf l)).finish =
      ret ++ octets [k, l] := by
  have hfirst := first_byte (a := findChar (charOf k)) (b := findChar (charOf l))
    (by rw [toNat_findChar hl]; exact hl)
  rw [toNat_findChar hk, toNat_findChar hl] at hfirst
  simp [Decoding.take, Decoding.finish, charArray3, found, octets, hfirst]

/-- The loop over the characters of numbers, and what follows it. -/
theorem decode_loop {numbers : List Nat} (hlt : ∀ n ∈ numbers, n < 64) {rest : List UInt8}
    (hstops : Stops rest) (array : Cells) (ret : List UInt8) (inLen : Int)
    (hlen : (numbers.length : Int) ≤ inLen) :
    (Decoding.loop ⟨0, array, ret⟩ inLen (numbers.map charOf ++ rest)).finish =
      ret ++ octets numbers := by
  induction numbers using octets.induct generalizing array ret inLen with
  | case1 a b c d more ih =>
      simp only [List.forall_mem_cons] at hlt
      obtain ⟨ha, hb, hc, hd, hmore⟩ := hlt
      simp only [List.length_cons] at hlen
      obtain ⟨after, hgroup⟩ := take_four ha hb hc hd array ret
      simp only [List.map_cons, List.cons_append]
      rw [loop_takes ha (by omega), loop_takes hb (by omega), loop_takes hc (by omega),
        loop_takes hd (by omega), hgroup, ih hmore after _ _ (by omega)]
      simp [octets]
  | case2 a b c =>
      simp only [List.forall_mem_cons] at hlt
      obtain ⟨ha, hb, hc, -⟩ := hlt
      simp only [List.length_cons, List.length_nil] at hlen
      simp only [List.map_cons, List.map_nil, List.cons_append, List.nil_append]
      rw [loop_takes ha (by omega), loop_takes hb (by omega), loop_takes hc (by omega),
        loop_stops hstops, finish_three ha hb hc]
  | case3 a b =>
      simp only [List.forall_mem_cons] at hlt
      obtain ⟨ha, hb, -⟩ := hlt
      simp only [List.length_cons, List.length_nil] at hlen
      simp only [List.map_cons, List.map_nil, List.cons_append, List.nil_append]
      rw [loop_takes ha (by omega), loop_takes hb (by omega), loop_stops hstops,
        finish_two ha hb]
  | case4 numbers hfour hthree htwo =>
      obtain hnil | ⟨a, hone⟩ := short_of_no_group hfour hthree htwo
      · rw [hnil, List.map_nil, List.nil_append, loop_stops hstops]
        simp [Decoding.finish, octets]
      · rw [hone] at hlt hlen ⊢
        have ha : a < 64 := hlt a (by simp)
        simp only [List.length_cons, List.length_nil] at hlen
        rw [List.map_cons, List.map_nil, List.cons_append, List.nil_append,
          loop_takes ha (by omega), loop_stops hstops]
        simp [Decoding.take, Decoding.finish, octets]

theorem map_charOf_numberOf (text : List UInt8) :
    ((text.takeWhile isBase64).map numberOf).map charOf = text.takeWhile isBase64 := by
  rw [List.map_map]
  conv_rhs => rw [← List.map_id (text.takeWhile isBase64)]
  apply List.map_congr_left
  intro c hc
  exact charOf_numberOf (List.mem_takeWhile_imp hc)

/-- The text is read up to the first character that is not of the alphabet. -/
theorem base64Decode_eq (stack : Cells) {text : List UInt8} (hsmall : text.length < 2 ^ 31) :
    base64Decode stack text = octets ((text.takeWhile isBase64).map numberOf) := by
  have hlength : (text.takeWhile isBase64).length ≤ text.length :=
    (List.takeWhile_prefix isBase64).length_le
  have hlt : ∀ n ∈ (text.takeWhile isBase64).map numberOf, n < 64 := by
    intro n hn
    obtain ⟨c, hc, rfl⟩ := List.mem_map.mp hn
    exact (findChar_table c (List.mem_takeWhile_imp hc)).1
  have hstops : Stops (text.dropWhile isBase64) := by
    intro c hc
    have hnot := List.head?_dropWhile_not isBase64 text
    rw [Option.mem_def.mp hc] at hnot
    simpa using hnot
  have hloop := decode_loop hlt hstops stack [] (asInt text.length).toInt (by
    rw [asInt_toInt hsmall, List.length_map]
    omega)
  rw [map_charOf_numberOf, List.takeWhile_append_dropWhile, List.nil_append] at hloop
  exact hloop

end Decode

section RoundTrip

variable {numbers : List Nat}

/-- Characters of the alphabet, with anything else behind them, are read as their numbers. -/
theorem takeWhile_charOf (hlt : ∀ n ∈ numbers, n < 64) (count : Nat) :
    ((numbers.map charOf ++ List.replicate count padChar).takeWhile isBase64).map numberOf =
      numbers := by
  have hchars : (numbers.map charOf ++ List.replicate count padChar).takeWhile isBase64 =
      numbers.map charOf := by
    rw [List.takeWhile_append_of_pos]
    · have hpad : isBase64 padChar = false := by decide
      cases count <;> simp [List.replicate_succ, hpad]
    · intro c hc
      obtain ⟨n, hn, rfl⟩ := List.mem_map.mp hc
      exact (charOf_spec (hlt n hn)).1
  rw [hchars, List.map_map]
  conv_rhs => rw [← List.map_id numbers]
  apply List.map_congr_left
  intro n hn
  exact numberOf_charOf (hlt n hn)

/-- What is encoded is decoded, whatever is on the stack. -/
theorem base64_decode_encode (before after : Cells) {bytes : List UInt8}
    (hsmall : (base64Encode before bytes).length < 2 ^ 31) :
    base64Decode after (base64Encode before bytes) = bytes := by
  rw [base64Decode_eq after hsmall, base64Encode_eq, encoding,
    takeWhile_charOf (sextets_lt bytes), octets_sextets]

theorem three_bytes_decode_encode :
    base64Decode (fun _ => 255) (base64Encode (fun _ => 7) [77, 97, 110]) = [77, 97, 110] :=
  base64_decode_encode _ _ (by decide)

/-- Nothing but characters of the alphabet, filled up to a group, with no bits to spare. -/
def Canonical (text : List UInt8) : Prop :=
  ∃ numbers : List Nat, (∀ n ∈ numbers, n < 64) ∧ Clean numbers ∧
    text = numbers.map charOf ++ List.replicate ((4 - numbers.length % 4) % 4) padChar

/-- A text comes back from its decoding exactly when it is canonical. -/
theorem base64_encode_decode_iff (before after : Cells) {text : List UInt8}
    (hsmall : text.length < 2 ^ 31) :
    base64Encode after (base64Decode before text) = text ↔ Canonical text := by
  constructor
  · intro hback
    refine ⟨sextets (base64Decode before text), sextets_lt _, clean_sextets _, ?_⟩
    rw [length_sextets]
    exact hback.symm.trans (base64Encode_eq _ _)
  · intro hcanonical
    obtain ⟨numbers, hlt, hclean, htext⟩ := hcanonical
    have hnumbers : sextets (octets numbers) = numbers := sextets_octets hlt hclean
    have hpad := length_sextets (octets numbers)
    rw [hnumbers] at hpad
    rw [base64Decode_eq before hsmall, htext, takeWhile_charOf hlt, base64Encode_eq, encoding,
      hnumbers, hpad]

theorem spare_bits_do_not_come_back :
    base64Encode (fun _ => 7) (base64Decode (fun _ => 255) [65, 66, 61, 61]) ≠ [65, 66, 61, 61] ∧
      ¬ Canonical [65, 66, 61, 61] := by
  have hne : base64Encode (fun _ => 7) (base64Decode (fun _ => 255) [65, 66, 61, 61]) ≠
      [65, 66, 61, 61] := by decide +kernel
  refine ⟨hne, ?_⟩
  intro hcanonical
  exact hne ((base64_encode_decode_iff _ _ (by decide)).mpr hcanonical)

end RoundTrip

end GitRpc.Base
