import GitRpc.Library.Runs

/-!
A family of systems of one kind, side by side: each event is for one member,
and moves no other. What holds for the runs of one member holds for the runs
of the family.
-/

namespace GitRpc.Library.Families

open Library.Runs

variable {ι σ ε : Type*} [DecidableEq ι]

def stepMember (step : σ → ε → Option σ) (s : ι → σ) (e : ι × ε) : Option (ι → σ) :=
  (step (s e.1) e.2).map fun member => Function.update s e.1 member

/-- The events for one member. -/
def eventsOf (i : ι) (es : List (ι × ε)) : List ε :=
  es.filterMap fun e => if e.1 = i then some e.2 else none

variable {step : σ → ε → Option σ} {s next : ι → σ} {e : ι × ε}

theorem stepMember_some (hstep : stepMember step s e = some next) :
    step (s e.1) e.2 = some (next e.1) ∧ ∀ i, i ≠ e.1 → next i = s i := by
  obtain ⟨member, hmember, rfl⟩ := Option.map_eq_some_iff.mp hstep
  refine ⟨?_, fun i hne => Function.update_of_ne hne _ _⟩
  rw [hmember, Function.update_self]

@[simp] theorem eventsOf_nil (i : ι) : eventsOf i ([] : List (ι × ε)) = [] := rfl

/-- Where a step of a member leads to a good state exactly under `cond`, a run
of the family leads to good states of all members exactly when all its steps
meet `cond`. -/
theorem always_members_iff {Inv Good : σ → Prop} {cond : σ → ε → Prop}
    (hgood : ∀ s, Inv s → Good s)
    (hexact : ∀ s e next, Inv s → step s e = some next → (Good next ↔ cond s e))
    (hkeep : ∀ s e next, Inv s → cond s e → step s e = some next → Inv next)
    (hs : ∀ i, Inv (s i)) (es : List (ι × ε)) :
    Always (stepMember step) (fun _ _ next => ∀ i, Good (next i)) s es ↔
      StepsMeet (stepMember step) (fun s e => cond (s e.1) e.2) s es := by
  refine always_iff_stepsMeet (fun s e next (h : ∀ i, Inv (s i)) hstep => ?_)
    (fun s e next (h : ∀ i, Inv (s i)) hcond hstep => ?_) hs es
  · obtain ⟨hmine, hothers⟩ := stepMember_some hstep
    rw [← hexact (s e.1) e.2 (next e.1) (h e.1) hmine]
    constructor
    · intro hnext
      exact hnext e.1
    · intro hnext i
      rcases eq_or_ne i e.1 with rfl | hne
      · exact hnext
      · rw [hothers i hne]
        exact hgood _ (h i)
  · obtain ⟨hmine, hothers⟩ := stepMember_some hstep
    intro i
    rcases eq_or_ne i e.1 with rfl | hne
    · exact hkeep _ _ _ (h e.1) hcond hmine
    · rw [hothers i hne]
      exact h i

end GitRpc.Library.Families
