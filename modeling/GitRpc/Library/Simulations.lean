import Mathlib.Logic.Function.Basic
import GitRpc.Library.Runs

/-!
A forward simulation: each step that the abstract system can take is taken by
the concrete one, and leads to related states. The last part is about systems
whose state is a table, related entry by entry.
-/

namespace GitRpc.Library.Simulations

open Library.Runs

variable {σ τ ε : Type*} {step : σ → ε → Option σ} {spec : τ → ε → Option τ}
  {Related : σ → τ → Prop}

/-- The steps of the specification are followed. -/
def Follows (step : σ → ε → Option σ) (spec : τ → ε → Option τ) (Related : σ → τ → Prop) : Prop :=
  ∀ s t e t', Related s t → spec t e = some t' → ∃ s', step s e = some s' ∧ Related s' t'

theorem Follows.exec (h : Follows step spec Related) {s : σ} {t finish : τ} {es : List ε}
    (hrelated : Related s t) (hrun : exec spec t es = some finish) :
    ∃ last, exec step s es = some last ∧ Related last finish := by
  induction es generalizing s t with
  | nil =>
      cases hrun
      exact ⟨s, rfl, hrelated⟩
  | cons e rest ih =>
      obtain ⟨t', hspec, hrest⟩ := Option.bind_eq_some_iff.mp hrun
      obtain ⟨s', hstep, hnext⟩ := h s t e t' hrelated hspec
      obtain ⟨last, hlast, hfinish⟩ := ih hnext hrest
      exact ⟨last, by rw [exec_cons, hstep, Option.bind_some, hlast], hfinish⟩

section Tables

variable {ι α β : Type*} {Entry : α → β → Prop}

/-- Every entry of the specification's table has a related one. -/
def Tables (Entry : α → β → Prop) (table : ι → Option α) (spec : ι → Option β) : Prop :=
  ∀ i b, spec i = some b → ∃ a, table i = some a ∧ Entry a b

theorem tables_empty (Entry : α → β → Prop) :
    Tables Entry (fun _ : ι => none) (fun _ => none) := by
  intro i b hentry
  contradiction

variable [DecidableEq ι] {table : ι → Option α} {spec : ι → Option β}

theorem Tables.update (h : Tables Entry table spec) {i : ι} {a : α} {b : β} (hentry : Entry a b) :
    Tables Entry (Function.update table i (some a)) (Function.update spec i (some b)) := by
  intro j b' hspec
  rcases eq_or_ne j i with rfl | hne
  · rw [Function.update_self] at hspec
    cases hspec
    exact ⟨a, Function.update_self .., hentry⟩
  · rw [Function.update_of_ne hne] at hspec ⊢
    exact h j b' hspec

end Tables

end GitRpc.Library.Simulations
