import Mathlib.Tactic
import GitRpc.Library.Runs

/-!
How long a run can be. Every step is paid for by what the state has saved up
or by what the step has earned, so the earnings of a run bound the number of
its steps.
-/

namespace GitRpc.Library.Potentials

open Library.Runs

variable {σ ε : Type*}

/-- Each step costs one: out of the potential, or out of what it earns. -/
def PaysForSteps (step : σ → ε → Option σ) (Inv : σ → Prop) (potential earned : σ → Nat) :
    Prop :=
  ∀ s e next, Inv s → step s e = some next →
    potential next + 1 + earned s ≤ potential s + earned next

theorem PaysForSteps.length_add_le {step : σ → ε → Option σ} {Inv : σ → Prop}
    {potential earned : σ → Nat} (hpays : PaysForSteps step Inv potential earned)
    (hstep : ∀ s e next, Inv s → step s e = some next → Inv next) {s finish : σ} {es : List ε}
    (hs : Inv s) (hrun : exec step s es = some finish) :
    es.length + potential finish + earned s ≤ potential s + earned finish := by
  induction es generalizing s with
  | nil =>
      cases hrun
      simp
  | cons e rest ih =>
      obtain ⟨next, hnext, hrest⟩ := Option.bind_eq_some_iff.mp hrun
      have hone := hpays s e next hs hnext
      have hothers := ih (hstep s e next hs hnext) hrest
      rw [List.length_cons]
      omega

end GitRpc.Library.Potentials
