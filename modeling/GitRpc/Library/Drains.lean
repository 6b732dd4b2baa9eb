import Mathlib.Data.List.MinMax
import Mathlib.Data.List.Perm.Basic
import Mathlib.Tactic.Common

/-!
To empty a bag by taking, again and again, some entry that no other entry has
to come before. Where several qualify, any of them may be next. What an entry
is ordered by, its key, need not be what the order is wanted by.
-/

namespace GitRpc.Library.Drains

variable {α κ ω : Type*} [LinearOrder κ] [LinearOrder ω]

/-- The entries at the given places, each place counted in what the earlier
ones have left. -/
def taken : List α → List Nat → List α
  | _, [] => []
  | bag, place :: places => bag[place]?.toList ++ taken (bag.eraseIdx place) places

/-- Each of the places holds, at its turn, an entry with a least key. -/
inductive LeastFirst (key : α → κ) : List α → List Nat → Prop where
  | stop (bag : List α) : LeastFirst key bag []
  | take {bag : List α} {place : Nat} {x : α} {places : List Nat}
      (hplace : bag[place]? = some x) (hfirst : ∀ other ∈ bag, key x ≤ key other)
      (hrest : LeastFirst key (bag.eraseIdx place) places) : LeastFirst key bag (place :: places)

theorem taken_cons {bag : List α} {place : Nat} {x : α} (hplace : bag[place]? = some x)
    (places : List Nat) : taken bag (place :: places) = x :: taken (bag.eraseIdx place) places := by
  simp [taken, hplace]

theorem mem_of_mem_taken {bag : List α} {places : List Nat} {x : α} (hx : x ∈ taken bag places) :
    x ∈ bag := by
  induction places generalizing bag with
  | nil => simp [taken] at hx
  | cons place rest ih =>
      rcases List.mem_append.mp hx with hhere | hlater
      · exact List.mem_of_getElem? (Option.mem_toList.mp hhere)
      · exact List.mem_of_mem_eraseIdx (ih hlater)

/-- What is not at the place stays. -/
theorem mem_eraseIdx_of_ne {bag : List α} {place : Nat} {x y : α} (hplace : bag[place]? = some x)
    (hy : y ∈ bag) (hne : y ≠ x) : y ∈ bag.eraseIdx place := by
  obtain ⟨hlt, rfl⟩ := List.getElem?_eq_some_iff.mp hplace
  have hperm := List.getElem_cons_eraseIdx_perm hlt
  exact (List.mem_cons.mp (hperm.mem_iff.mpr hy)).resolve_left hne

theorem length_eraseIdx_lt {bag : List α} {place : Nat} {x : α} (hplace : bag[place]? = some x) :
    (bag.eraseIdx place).length < bag.length := by
  obtain ⟨hlt, -⟩ := List.getElem?_eq_some_iff.mp hplace
  rw [List.length_eraseIdx_of_lt hlt]
  omega

theorem exists_first (key : α → κ) {bag : List α} (hbag : bag ≠ []) :
    ∃ (place : Nat) (x : α), bag[place]? = some x ∧ ∀ other ∈ bag, key x ≤ key other := by
  obtain ⟨x, hx⟩ : ∃ x, x ∈ List.argmin key bag := by
    cases hmin : List.argmin key bag with
    | none => exact absurd (List.argmin_eq_none.mp hmin) hbag
    | some x => exact ⟨x, rfl⟩
  obtain ⟨place, hplace⟩ := List.mem_iff_getElem?.mp (List.argmin_mem hx)
  exact ⟨place, x, hplace, fun _ hother => List.le_of_mem_argmin hother hx⟩

/-- From any bag on, a given entry gets its turn in some way to go on. -/
theorem exists_drain_taking (key : α → κ) {bag : List α} {x : α} (hx : x ∈ bag) :
    ∃ places, LeastFirst key bag places ∧ x ∈ taken bag places := by
  induction hlen : bag.length using Nat.strong_induction_on generalizing bag with
  | _ length ih =>
      obtain ⟨place, first, hplace, hfirst⟩ := exists_first key (List.ne_nil_of_mem hx)
      rcases eq_or_ne x first with rfl | hne
      · exact ⟨[place], .take hplace hfirst (.stop _), by simp [taken_cons hplace]⟩
      · have hlt := length_eraseIdx_lt hplace
        obtain ⟨places, hdrains, hmem⟩ :=
          ih _ (hlen ▸ hlt) (mem_eraseIdx_of_ne hplace hx hne) rfl
        refine ⟨place :: places, .take hplace hfirst hdrains, ?_⟩
        rw [taken_cons hplace]
        exact List.mem_cons_of_mem first hmem

/-- The keys of what is taken never go down. -/
theorem LeastFirst.sorted {key : α → κ} {bag : List α} {places : List Nat}
    (h : LeastFirst key bag places) :
    (taken bag places).Pairwise fun earlier later => key earlier ≤ key later := by
  induction h with
  | stop => exact .nil
  | take hplace hfirst _ ih =>
      rw [taken_cons hplace]
      refine List.pairwise_cons.mpr ⟨?_, ih⟩
      intro later hlater
      exact hfirst later (List.mem_of_mem_eraseIdx (mem_of_mem_taken hlater))

/-- Two entries that the key does not tell apart, or puts the wrong way
round, come out the wrong way round in some drain. -/
theorem exists_drain_reversed {key : α → κ} {bag : List α} {x y : α} (hx : x ∈ bag)
    (hy : y ∈ bag) (hne : x ≠ y) (hkey : key y ≤ key x) :
    ∃ places, LeastFirst key bag places ∧ [y, x].Sublist (taken bag places) := by
  induction hlen : bag.length using Nat.strong_induction_on generalizing bag with
  | _ length ih =>
      obtain ⟨place, first, hplace, hfirst⟩ := exists_first key (List.ne_nil_of_mem hy)
      -- `y` has its turn as soon as `x` could have one
      by_cases hturn : key y ≤ key first
      · obtain ⟨own, hown⟩ := List.mem_iff_getElem?.mp hy
        obtain ⟨places, hdrains, hmem⟩ :=
          exists_drain_taking key (mem_eraseIdx_of_ne hown hx hne)
        refine ⟨own :: places, .take hown ?_ hdrains, ?_⟩
        · intro other hother
          exact hturn.trans (hfirst other hother)
        · rw [taken_cons hown]
          exact (List.singleton_sublist.mpr hmem).cons_cons y
      · have hyFirst : y ≠ first := by
          intro heq
          rw [heq] at hturn
          exact hturn le_rfl
        have hxFirst : x ≠ first := by
          intro heq
          rw [heq] at hkey
          exact hturn hkey
        obtain ⟨places, hdrains, hsub⟩ :=
          ih _ (hlen ▸ length_eraseIdx_lt hplace) (mem_eraseIdx_of_ne hplace hx hxFirst)
            (mem_eraseIdx_of_ne hplace hy hyFirst) rfl
        refine ⟨place :: places, .take hplace hfirst hdrains, ?_⟩
        rw [taken_cons hplace]
        exact hsub.cons first

/-- All drains keep a wanted order exactly when the key keeps it strictly. -/
theorem drains_in_order_iff (key : α → κ) (wanted : α → ω) (bag : List α) :
    (∀ places, LeastFirst key bag places →
        (taken bag places).Pairwise fun earlier later => wanted earlier ≤ wanted later) ↔
      ∀ x ∈ bag, ∀ y ∈ bag, wanted x < wanted y → key x < key y := by
  constructor
  · intro hall x hx y hy hwanted
    by_contra hkey
    have hne : x ≠ y := by
      intro heq
      rw [heq] at hwanted
      exact lt_irrefl _ hwanted
    obtain ⟨places, hdrains, hsub⟩ := exists_drain_reversed hx hy hne (not_lt.mp hkey)
    have hpair := (hall places hdrains).sublist hsub
    have hle : wanted y ≤ wanted x := by simpa using hpair
    exact absurd hwanted (not_lt.mpr hle)
  · intro hkeeps places hdrains
    refine hdrains.sorted.imp_of_mem ?_
    intro earlier later hearlier hlater hle
    by_contra hnot
    have hlt := hkeeps later (mem_of_mem_taken hlater) earlier (mem_of_mem_taken hearlier)
      (not_le.mp hnot)
    exact absurd hle (not_le.mpr hlt)

end GitRpc.Library.Drains
