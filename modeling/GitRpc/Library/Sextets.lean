import Mathlib.Tactic

/-!
Three bytes as four numbers of six bits. One or two bytes that are left over
make two or three numbers, whose last has zeros for the bits that are missing.
-/

namespace GitRpc.Library.Sextets

def sextets : List UInt8 → List Nat
  | a :: b :: c :: rest =>
      a.toNat / 4 :: (a.toNat % 4 * 16 + b.toNat / 16) :: (b.toNat % 16 * 4 + c.toNat / 64) ::
        c.toNat % 64 :: sextets rest
  | [a, b] => [a.toNat / 4, a.toNat % 4 * 16 + b.toNat / 16, b.toNat % 16 * 4]
  | [a] => [a.toNat / 4, a.toNat % 4 * 16]
  | [] => []

/-- The bytes that are whole. -/
def octets : List Nat → List UInt8
  | a :: b :: c :: d :: rest =>
      UInt8.ofNat (a * 4 + b / 16) :: UInt8.ofNat (b % 16 * 16 + c / 4) ::
        UInt8.ofNat (c % 4 * 64 + d) :: octets rest
  | [a, b, c] => [UInt8.ofNat (a * 4 + b / 16), UInt8.ofNat (b % 16 * 16 + c / 4)]
  | [a, b] => [UInt8.ofNat (a * 4 + b / 16)]
  | _ => []

/-- No number stands alone, and the bits that belong to no byte are zero. -/
def Clean : List Nat → Prop
  | _ :: _ :: _ :: _ :: rest => Clean rest
  | [_, _, c] => c % 4 = 0
  | [_, b] => b % 16 = 0
  | [_] => False
  | [] => True

theorem ofNat_eq {n : Nat} {byte : UInt8} (h : n = byte.toNat) : UInt8.ofNat n = byte := by
  rw [h, UInt8.ofNat_toNat]

theorem octets_sextets (bytes : List UInt8) : octets (sextets bytes) = bytes := by
  induction bytes using sextets.induct with
  | case1 a b c rest ih =>
      have ha := a.toNat_lt
      have hb := b.toNat_lt
      have hc := c.toNat_lt
      rw [sextets, octets, ih, ofNat_eq (show _ = a.toNat by omega),
        ofNat_eq (show _ = b.toNat by omega), ofNat_eq (show _ = c.toNat by omega)]
  | case2 a b =>
      have ha := a.toNat_lt
      have hb := b.toNat_lt
      rw [sextets, octets, ofNat_eq (show _ = a.toNat by omega),
        ofNat_eq (show _ = b.toNat by omega)]
  | case3 a =>
      have ha := a.toNat_lt
      rw [sextets, octets, ofNat_eq (show _ = a.toNat by omega)]
  | case4 => rfl

theorem sextets_lt (bytes : List UInt8) : ∀ n ∈ sextets bytes, n < 64 := by
  induction bytes using sextets.induct with
  | case1 a b c rest ih =>
      have ha := a.toNat_lt
      have hb := b.toNat_lt
      have hc := c.toNat_lt
      simp only [sextets, List.forall_mem_cons]
      exact ⟨by omega, by omega, by omega, by omega, ih⟩
  | case2 a b =>
      have ha := a.toNat_lt
      have hb := b.toNat_lt
      simp only [sextets, List.forall_mem_cons]
      exact ⟨by omega, by omega, by omega, by simp⟩
  | case3 a =>
      have ha := a.toNat_lt
      simp only [sextets, List.forall_mem_cons]
      exact ⟨by omega, by omega, by simp⟩
  | case4 => simp [sextets]

theorem clean_sextets (bytes : List UInt8) : Clean (sextets bytes) := by
  induction bytes using sextets.induct with
  | case1 a b c rest ih => exact ih
  | case2 a b =>
      simp only [sextets, Clean]
      omega
  | case3 a =>
      simp only [sextets, Clean]
      omega
  | case4 => trivial

/-- What is left when there is no byte in it. -/
theorem short_of_no_group {numbers : List Nat}
    (hfour : ∀ a b c d rest, numbers = a :: b :: c :: d :: rest → False)
    (hthree : ∀ a b c, numbers = [a, b, c] → False) (htwo : ∀ a b, numbers = [a, b] → False) :
    numbers = [] ∨ ∃ a, numbers = [a] := by
  cases numbers with
  | nil => exact .inl rfl
  | cons a behind =>
      cases behind with
      | nil => exact .inr ⟨a, rfl⟩
      | cons b behind =>
          cases behind with
          | nil => exact (htwo a b rfl).elim
          | cons c behind =>
              cases behind with
              | nil => exact (hthree a b c rfl).elim
              | cons d rest => exact (hfour a b c d rest rfl).elim

/-- Numbers without bits to spare come back. -/
theorem sextets_octets {numbers : List Nat} (hlt : ∀ n ∈ numbers, n < 64) (hclean : Clean numbers) :
    sextets (octets numbers) = numbers := by
  induction numbers using octets.induct with
  | case1 a b c d rest ih =>
      simp only [List.forall_mem_cons] at hlt
      obtain ⟨ha, hb, hc, hd, hrest⟩ := hlt
      rw [octets, sextets, ih hrest hclean]
      simp only [UInt8.toNat_ofNat', List.cons.injEq, and_true]
      omega
  | case2 a b c =>
      simp only [List.forall_mem_cons] at hlt
      obtain ⟨ha, hb, hc, -⟩ := hlt
      have hspare : c % 4 = 0 := hclean
      rw [octets, sextets]
      simp only [UInt8.toNat_ofNat', List.cons.injEq, and_true]
      omega
  | case3 a b =>
      simp only [List.forall_mem_cons] at hlt
      obtain ⟨ha, hb, -⟩ := hlt
      have hspare : b % 16 = 0 := hclean
      rw [octets, sextets]
      simp only [UInt8.toNat_ofNat', List.cons.injEq, and_true]
      omega
  | case4 numbers hfour hthree htwo =>
      obtain hnil | ⟨a, hone⟩ := short_of_no_group hfour hthree htwo
      · rw [hnil]
        rfl
      · rw [hone] at hclean
        exact hclean.elim

/-- How many numbers are left over, and what is missing to four. -/
theorem length_sextets (bytes : List UInt8) :
    (4 - (sextets bytes).length % 4) % 4 = (3 - bytes.length % 3) % 3 := by
  induction bytes using sextets.induct with
  | case1 a b c rest ih =>
      simp only [sextets, List.length_cons]
      omega
  | case2 a b => rfl
  | case3 a => rfl
  | case4 => rfl

end GitRpc.Library.Sextets
