import GitRpc.Library.Runs

/-!
Parts of a system that several threads use and no lock guards. A use takes time:
it begins, and later it ends with the step it is for, or with none. Two threads
may look at one part at once; when a use begins that changes a part, or another
that is going on does, the system is torn, and nothing is said of what comes
after.
-/

namespace GitRpc.Library.Uses

open Library.Runs

variable {σ ε κ : Type*} [DecidableEq κ]

structure Use (κ : Type*) where
  part : κ
  changes : Bool
  deriving DecidableEq

def Use.Conflicts (use other : Use κ) : Prop :=
  use.part = other.part ∧ (use.changes || other.changes) = true

instance (use other : Use κ) : Decidable (use.Conflicts other) :=
  inferInstanceAs (Decidable (use.part = other.part ∧ (use.changes || other.changes) = true))

/-- The uses that are going on are kept beside the state. -/
structure InUse (σ κ : Type*) where
  state : σ
  inside : List (Use κ)
  torn : Bool

def InUse.start (state : σ) : InUse σ κ := ⟨state, [], false⟩

inductive UseEvent (ε κ : Type*) where
  | enter (use : Use κ)
  | leave (use : Use κ)
  | act (e : ε)

/-- No use begins beside one that it conflicts with, and the steps meet a
condition of their own. -/
def KeepsApart (cond : σ → ε → Prop) (s : InUse σ κ) : UseEvent ε κ → Prop
  | .enter use => ∀ other ∈ s.inside, ¬ use.Conflicts other
  | .leave _ => True
  | .act e => cond s.state e

variable {step : σ → ε → Option σ} {uses : σ → ε → Option (Use κ)} {cond : σ → ε → Prop}
  {s next : InUse σ κ}

end GitRpc.Library.Uses
