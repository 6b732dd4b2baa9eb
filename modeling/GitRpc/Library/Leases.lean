import Mathlib.Data.List.Basic
import Mathlib.Tactic.Common

/-!
A ledger of leases on named resources: who holds a lease, and on what. The
latest lease stands first. A holder may take several leases, and ending one
ends the latest that it holds.
-/

namespace GitRpc.Library.Leases

variable {κ ν : Type*}

abbrev Ledger (κ ν : Type*) := List (κ × ν)

def Ledger.grant (ledger : Ledger κ ν) (holder : κ) (resource : ν) : Ledger κ ν :=
  (holder, resource) :: ledger

def Ledger.endLatest [DecidableEq κ] (ledger : Ledger κ ν) (holder : κ) : Ledger κ ν :=
  ledger.eraseP fun lease => lease.1 = holder

def Ledger.Holds (ledger : Ledger κ ν) (holder : κ) : Prop :=
  ∃ resource, (holder, resource) ∈ ledger

/-- Every lease is on this one resource. -/
def Ledger.OnlyFor (ledger : Ledger κ ν) (resource : ν) : Prop :=
  ∀ lease ∈ ledger, lease.2 = resource

theorem Ledger.OnlyFor.grant {ledger : Ledger κ ν} {resource : ν}
    (h : ledger.OnlyFor resource) (holder : κ) :
    (ledger.grant holder resource).OnlyFor resource := by
  intro lease hlease
  rcases List.mem_cons.mp hlease with rfl | hold
  · rfl
  · exact h lease hold

/-- Ending a lease empties the ledger exactly when it was the only one. -/
theorem Ledger.endLatest_eq_nil_iff [DecidableEq κ] {ledger : Ledger κ ν} {holder : κ}
    (hne : ledger ≠ []) :
    ledger.endLatest holder = [] ↔ ledger.length = 1 ∧ ledger.Holds holder := by
  cases ledger with
  | nil => exact absurd rfl hne
  | cons lease rest =>
      by_cases hlease : lease.1 = holder
      · have hholds : Ledger.Holds (lease :: rest) holder :=
          ⟨lease.2, by simp [← hlease]⟩
        simp [Ledger.endLatest, hlease, hholds]
      · have hkept : Ledger.endLatest (lease :: rest) holder ≠ [] := by
          simp [Ledger.endLatest, hlease]
        apply iff_of_false hkept
        rintro ⟨hlength, resource, hmem⟩
        have hrest : rest = [] := by simpa using hlength
        subst hrest
        rw [List.mem_singleton] at hmem
        exact hlease (by rw [← hmem])

end GitRpc.Library.Leases
