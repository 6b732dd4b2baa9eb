import Mathlib.Data.List.Basic
import Mathlib.Logic.Function.Basic
import Mathlib.Tactic.Common

/-!
Registries: maps to which entries are added in a row, and that keep the first
value they were given for a key. `new c` is the value that the addition `c`
gives for the key in question.
-/

namespace GitRpc.Library.Registries

variable {σ γ β : Type*}

/-- What is found in the end is what was there, or the first that was added. -/
theorem foldl_first (value : σ → Option β) {add : σ → γ → σ} {new : γ → Option β}
    (hadd : ∀ s c, value (add s c) = (value s).or (new c)) (s : σ) (cs : List γ) :
    value (cs.foldl add s) = (value s).or (cs.findSome? new) := by
  induction cs generalizing s with
  | nil => simp
  | cons c rest ih =>
      rw [List.foldl_cons, ih, hadd, Option.or_assoc, List.findSome?_cons]
      cases new c <;> rfl

/-- A value is entered where the map has none, and else the map stays. -/
theorem enter_or {α : Type*} [DecidableEq α] (m : α → Option β) (k : α) (v : β) (n : α) :
    (match m k with
      | none => Function.update m k (some v)
      | some _ => m) n = (m n).or (if k = n then some v else none) := by
  rcases eq_or_ne k n with rfl | hne
  · cases hfound : m k with
    | none => simp
    | some found => simp [hfound]
  · rw [if_neg hne, Option.or_none]
    cases m k with
    | none => exact Function.update_of_ne hne.symm _ _
    | some found => rfl

/-- Nothing is found exactly when nothing has been added for the key. -/
theorem findSome?_eq_none_iff {ι : Type*} {new : γ → Option β} {entry : ι → γ} {cs : List γ}
    (hnew : ∀ c, (new c).isSome ↔ ∃ i, c = entry i) :
    cs.findSome? new = none ↔ ¬ ∃ i, entry i ∈ cs := by
  rw [List.findSome?_eq_none_iff]
  constructor
  · rintro hnone ⟨i, hmem⟩
    have hsome := (hnew (entry i)).mpr ⟨i, rfl⟩
    rw [hnone _ hmem] at hsome
    cases hsome
  · intro hnot c hmem
    rw [← Option.not_isSome_iff_eq_none, hnew]
    rintro ⟨i, rfl⟩
    exact hnot ⟨i, hmem⟩

/-- Where nothing else is added for the key, what is added is found. -/
theorem findSome?_of_mem {new : γ → Option β} {cs : List γ} {c : γ} {v : β} (hmem : c ∈ cs)
    (hc : new c = some v) (hothers : ∀ other ∈ cs, other ≠ c → new other = none) :
    cs.findSome? new = some v := by
  induction cs with
  | nil => cases hmem
  | cons first rest ih =>
      rw [List.findSome?_cons]
      cases hfirst : new first with
      | some w =>
          have hsame : first = c := by
            by_contra hne
            rw [hothers first List.mem_cons_self hne] at hfirst
            cases hfirst
          rw [← hc, ← hsame, hfirst]
      | none =>
          apply ih
          · rcases List.mem_cons.mp hmem with rfl | hrest
            · rw [hc] at hfirst
              cases hfirst
            · exact hrest
          · exact fun other hother => hothers other (List.mem_cons_of_mem _ hother)

end GitRpc.Library.Registries
