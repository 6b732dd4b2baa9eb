import Mathlib.Tactic

/-!
Finite runs of a system that is given by a partial step function: `step s e`
is the next state when the system can take event `e` in state `s`, and `none`
when it cannot. Nothing here depends on what the states and the events are.

Two kinds of property are followed along a run. `Always` looks at the steps
that are really taken, with the state on either side. `Throughout` looks at
the state in front of every event the run gets to, whether or not the system
can take it there, so it can also say that the step does not get stuck.
-/

namespace GitRpc.Library.Runs

variable {σ ε : Type*}

/-- Take the events in order. The result is `none` as soon as one of them
cannot be taken. -/
def exec (step : σ → ε → Option σ) : σ → List ε → Option σ
  | s, [] => some s
  | s, e :: es => (step s e).bind fun next => exec step next es

@[simp] theorem exec_nil (step : σ → ε → Option σ) (s : σ) :
    exec step s [] = some s := rfl

@[simp] theorem exec_cons (step : σ → ε → Option σ) (s : σ) (e : ε) (es : List ε) :
    exec step s (e :: es) = (step s e).bind fun next => exec step next es := rfl

/-- `s` ends some run that starts in `init`. -/
def Reachable (step : σ → ε → Option σ) (init s : σ) : Prop :=
  ∃ es, exec step init es = some s

theorem exec_append (step : σ → ε → Option σ) (s : σ) (first second : List ε) :
    exec step s (first ++ second) =
      (exec step s first).bind fun middle => exec step middle second := by
  induction first generalizing s with
  | nil => rfl
  | cons e rest ih =>
      cases hstep : step s e with
      | none => simp [hstep]
      | some next => simp [hstep, ih next]

theorem exec_append_some {step : σ → ε → Option σ} {s middle finish : σ}
    {first second : List ε} (hfirst : exec step s first = some middle)
    (hsecond : exec step middle second = some finish) :
    exec step s (first ++ second) = some finish := by
  rw [exec_append, hfirst]
  exact hsecond

theorem exec_singleton {step : σ → ε → Option σ} {s next : σ} {e : ε}
    (hnext : step s e = some next) : exec step s [e] = some next := by
  simp [hnext]

/-- What every step preserves holds at the end of every run. -/
theorem exec_invariant {step : σ → ε → Option σ} {Inv : σ → Prop}
    (hstep : ∀ s e next, Inv s → step s e = some next → Inv next)
    {s finish : σ} {es : List ε} (hs : Inv s)
    (hrun : exec step s es = some finish) : Inv finish := by
  induction es generalizing s with
  | nil =>
      cases hrun
      exact hs
  | cons e rest ih =>
      obtain ⟨next, hnext, hrest⟩ := Option.bind_eq_some_iff.mp hrun
      exact ih (hstep s e next hs hnext) hrest

theorem Reachable.invariant {step : σ → ε → Option σ} {Inv : σ → Prop} {init s : σ}
    (hreach : Reachable step init s) (hinit : Inv init)
    (hstep : ∀ s e next, Inv s → step s e = some next → Inv next) : Inv s := by
  obtain ⟨es, hrun⟩ := hreach
  exact exec_invariant hstep hinit hrun

/-- A component that moves only by steps of its own reaches only what it can
reach by itself. -/
theorem Reachable.project {τ δ : Type*} {step : σ → ε → Option σ} {step' : τ → δ → Option τ}
    (part : σ → τ)
    (hpart : ∀ s e next, step s e = some next →
      part next = part s ∨ ∃ d, step' (part s) d = some (part next))
    {init s : σ} (hreach : Reachable step init s) :
    Reachable step' (part init) (part s) := by
  obtain ⟨es, hrun⟩ := hreach
  induction es generalizing init with
  | nil =>
      cases hrun
      exact ⟨[], rfl⟩
  | cons e rest ih =>
      obtain ⟨next, hnext, hrest⟩ := Option.bind_eq_some_iff.mp hrun
      rcases hpart init e next hnext with hsame | ⟨d, hd⟩
      · rw [← hsame]
        exact ih hrest
      · obtain ⟨ds, hds⟩ := ih hrest
        exact ⟨d :: ds, by simp [hd, hds]⟩

/-- Every step taken on the way satisfies `Q`. -/
def Always (step : σ → ε → Option σ) (Q : σ → ε → σ → Prop) : σ → List ε → Prop
  | _, [] => True
  | s, e :: es => ∀ next, step s e = some next → Q s e next ∧ Always step Q next es

/-- Every step taken on the way is taken in a state that meets `cond`. -/
def StepsMeet (step : σ → ε → Option σ) (cond : σ → ε → Prop) : σ → List ε → Prop :=
  Always step fun s e _ => cond s e

instance decidableAlways {step : σ → ε → Option σ} {Q : σ → ε → σ → Prop}
    [∀ s e next, Decidable (Q s e next)] : ∀ s es, Decidable (Always step Q s es)
  | _, [] => isTrue trivial
  | s, e :: es =>
      match hstep : step s e with
      | none => isTrue fun next hnext => by simp [hstep] at hnext
      | some next =>
          have : Decidable (Always step Q next es) := decidableAlways next es
          decidable_of_iff (Q s e next ∧ Always step Q next es) (by simp [Always, hstep])

instance {step : σ → ε → Option σ} {cond : σ → ε → Prop} [∀ s e, Decidable (cond s e)] (s : σ)
    (es : List ε) : Decidable (StepsMeet step cond s es) :=
  inferInstanceAs (Decidable (Always step (fun s e _ => cond s e) s es))

theorem always_append {step : σ → ε → Option σ} {Q : σ → ε → σ → Prop} {s : σ}
    {first second : List ε} :
    Always step Q s (first ++ second) ↔
      Always step Q s first ∧
        ∀ middle, exec step s first = some middle → Always step Q middle second := by
  induction first generalizing s with
  | nil => simp [Always]
  | cons e rest ih =>
      simp only [List.cons_append, Always, exec_cons]
      cases hstep : step s e with
      | none => simp
      | some next => simp [ih, and_assoc]

/-- A run that goes on to a bad step is bad. -/
theorem not_always_append {step : σ → ε → Option σ} {Q : σ → ε → σ → Prop} {s middle : σ}
    {first second : List ε} (hfirst : exec step s first = some middle)
    (hsecond : ¬ Always step Q middle second) : ¬ Always step Q s (first ++ second) := by
  intro hall
  exact hsecond ((always_append.mp hall).2 middle hfirst)

theorem not_always_cons {step : σ → ε → Option σ} {Q : σ → ε → σ → Prop} {s next : σ} {e : ε}
    {es : List ε} (hnext : step s e = some next) (hrest : ¬ Always step Q next es) :
    ¬ Always step Q s (e :: es) := by
  intro hall
  exact hrest (hall next hnext).2

theorem stepsMeet_cons {step : σ → ε → Option σ} {cond : σ → ε → Prop} {s next : σ} {e : ε}
    {es : List ε} (hnext : step s e = some next) (hcond : cond s e)
    (hrest : StepsMeet step cond next es) : StepsMeet step cond s (e :: es) := by
  intro other hother
  rw [hnext, Option.some.injEq] at hother
  subst hother
  exact ⟨hcond, hrest⟩

/-- An invariant under a condition makes every step good that meets it. -/
theorem always_of_stepsMeet {step : σ → ε → Option σ} {Inv : σ → Prop}
    {Q : σ → ε → σ → Prop} {cond : σ → ε → Prop}
    (hkeep : ∀ s e next, Inv s → cond s e → step s e = some next → Inv next ∧ Q s e next)
    {s : σ} (hs : Inv s) {es : List ε} (hmeet : StepsMeet step cond s es) :
    Always step Q s es := by
  induction es generalizing s with
  | nil => trivial
  | cons e rest ih =>
      intro next hnext
      obtain ⟨hcond, hmeetRest⟩ := hmeet next hnext
      obtain ⟨hinv, hQ⟩ := hkeep s e next hs hcond hnext
      exact ⟨hQ, ih hinv hmeetRest⟩

theorem always_of_invariant {step : σ → ε → Option σ} {Inv : σ → Prop}
    {Q : σ → ε → σ → Prop}
    (hkeep : ∀ s e next, Inv s → step s e = some next → Inv next ∧ Q s e next)
    {s : σ} (hs : Inv s) (es : List ε) : Always step Q s es := by
  induction es generalizing s with
  | nil => trivial
  | cons e rest ih =>
      intro next hnext
      obtain ⟨hinv, hQ⟩ := hkeep s e next hs hnext
      exact ⟨hQ, ih hinv⟩

/-- `Always` speaks about each step of the run at its own place. -/
theorem always_iff_forall_step {step : σ → ε → Option σ} {Q : σ → ε → σ → Prop}
    {s : σ} {es : List ε} :
    Always step Q s es ↔
      ∀ before e after, es = before ++ e :: after → ∀ here next,
        exec step s before = some here → step here e = some next → Q here e next := by
  constructor
  · rintro hall before e after rfl here next hbefore hnext
    exact (((always_append.mp hall).2 here hbefore) next hnext).1
  · intro hall
    induction es generalizing s with
    | nil => trivial
    | cons e rest ih =>
        intro next hnext
        refine ⟨hall [] e rest rfl s next rfl hnext, ih ?_⟩
        intro before e' after hrest here next' hbefore hnext'
        refine hall (e :: before) e' after (by simp [hrest]) here next' ?_ hnext'
        simpa [hnext] using hbefore

/-- An invariant under a condition: it survives every run whose steps all
meet the condition. -/
theorem exec_invariant_of_stepsMeet {step : σ → ε → Option σ} {Inv : σ → Prop}
    {cond : σ → ε → Prop}
    (hstep : ∀ s e next, Inv s → cond s e → step s e = some next → Inv next)
    {s finish : σ} {es : List ε} (hs : Inv s) (hmeet : StepsMeet step cond s es)
    (hrun : exec step s es = some finish) : Inv finish := by
  induction es generalizing s with
  | nil =>
      cases hrun
      exact hs
  | cons e rest ih =>
      obtain ⟨next, hnext, hrest⟩ := Option.bind_eq_some_iff.mp hrun
      obtain ⟨hcond, hmeetRest⟩ := hmeet next hnext
      exact ih (hstep s e next hs hcond hnext) hmeetRest hrest

/-- Where every step costs one unit of a budget, a run is as long as what it
has spent. -/
theorem exec_length_add {step : σ → ε → Option σ} {Inv : σ → Prop} {cond : σ → ε → Prop}
    {budget : σ → Nat}
    (hstep : ∀ s e next, Inv s → cond s e → step s e = some next →
      Inv next ∧ budget next + 1 = budget s)
    {s finish : σ} {es : List ε} (hs : Inv s) (hmeet : StepsMeet step cond s es)
    (hrun : exec step s es = some finish) : es.length + budget finish = budget s := by
  induction es generalizing s with
  | nil =>
      cases hrun
      exact Nat.zero_add _
  | cons e rest ih =>
      obtain ⟨next, hnext, hrest⟩ := Option.bind_eq_some_iff.mp hrun
      obtain ⟨hcond, hmeetRest⟩ := hmeet next hnext
      obtain ⟨hinv, hspent⟩ := hstep s e next hs hcond hnext
      have hlater := ih hinv hmeetRest hrest
      rw [List.length_cons]
      omega

/-- Where one step satisfies `Q` exactly under `cond`, and `cond` keeps the
invariant, a whole run satisfies `Q` exactly when all its steps meet `cond`. -/
theorem always_iff_stepsMeet {step : σ → ε → Option σ} {Inv : σ → Prop}
    {Q : σ → ε → σ → Prop} {cond : σ → ε → Prop}
    (hexact : ∀ s e next, Inv s → step s e = some next → (Q s e next ↔ cond s e))
    (hkeep : ∀ s e next, Inv s → cond s e → step s e = some next → Inv next)
    {s : σ} (hs : Inv s) (es : List ε) :
    Always step Q s es ↔ StepsMeet step cond s es := by
  induction es generalizing s with
  | nil => exact Iff.rfl
  | cons e rest ih =>
      constructor
      · intro hall next hnext
        obtain ⟨hQ, hrest⟩ := hall next hnext
        have hcond := (hexact s e next hs hnext).mp hQ
        exact ⟨hcond, (ih (hkeep s e next hs hcond hnext)).mp hrest⟩
      · intro hmeet next hnext
        obtain ⟨hcond, hrest⟩ := hmeet next hnext
        exact ⟨(hexact s e next hs hnext).mpr hcond,
          (ih (hkeep s e next hs hcond hnext)).mpr hrest⟩

theorem always_iff_stepsMeet_of_exact {step : σ → ε → Option σ} {Q : σ → ε → σ → Prop}
    {cond : σ → ε → Prop}
    (hexact : ∀ s e next, step s e = some next → (Q s e next ↔ cond s e))
    (s : σ) (es : List ε) : Always step Q s es ↔ StepsMeet step cond s es := by
  have htrue : (fun _ : σ => True) s := trivial
  exact always_iff_stepsMeet (fun s e next _ hnext => hexact s e next hnext)
    (fun _ _ _ _ _ _ => trivial) htrue es

/-- `P` holds in front of every event that the run gets to. -/
def Throughout (step : σ → ε → Option σ) (P : σ → ε → Prop) : σ → List ε → Prop
  | _, [] => True
  | s, e :: es => P s e ∧ ∀ next, step s e = some next → Throughout step P next es

/-- Two predicates that agree under an invariant of all steps hold throughout
the same runs. -/
theorem throughout_congr {step : σ → ε → Option σ} {Inv : σ → Prop}
    {P Q : σ → ε → Prop}
    (hkeep : ∀ s e next, Inv s → step s e = some next → Inv next)
    (hiff : ∀ s e, Inv s → (P s e ↔ Q s e)) {s : σ} (hs : Inv s) (es : List ε) :
    Throughout step P s es ↔ Throughout step Q s es := by
  induction es generalizing s with
  | nil => exact Iff.rfl
  | cons e rest ih =>
      simp only [Throughout]
      refine and_congr (hiff s e hs) (forall_congr' fun next => imp_congr_right fun hnext => ?_)
      exact ih (hkeep s e next hs hnext)

end GitRpc.Library.Runs
