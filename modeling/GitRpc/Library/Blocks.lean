import Mathlib.Data.List.Basic
import Mathlib.Tactic.Common

/-!
Lists that are a concatenation of blocks, one for each key from 0 on, in the
order of the keys.
-/

namespace GitRpc.Library.Blocks

variable {α : Type*} {key : α → Nat} {bound : Nat} {entries new : List α}

/-- The block of a key. -/
def blockOf (key : α → Nat) (entries : List α) (k : Nat) : List α :=
  entries.filter fun entry => key entry = k

/-- The blocks of the keys below the bound make up the list. -/
def InBlocks (key : α → Nat) (bound : Nat) (entries : List α) : Prop :=
  entries = (List.range bound).flatMap (blockOf key entries)

theorem blockOf_append (k : Nat) :
    blockOf key (entries ++ new) k = blockOf key entries k ++ blockOf key new k :=
  List.filter_append entries new

theorem blockOf_self {k : Nat} (hnew : ∀ entry ∈ new, key entry = k) :
    blockOf key new k = new :=
  List.filter_eq_self.mpr fun entry hentry => by simpa using hnew entry hentry

theorem blockOf_other {k other : Nat} (hnew : ∀ entry ∈ new, key entry = k)
    (hne : other ≠ k) : blockOf key new other = [] := by
  apply List.filter_eq_nil_iff.mpr
  intro entry hentry
  simpa [hnew entry hentry] using hne.symm

theorem inBlocks_nil (key : α → Nat) (bound : Nat) : InBlocks key bound [] := by
  simp [InBlocks, blockOf]

theorem InBlocks.key_lt (h : InBlocks key bound entries) :
    ∀ entry ∈ entries, key entry < bound := by
  intro entry hentry
  rw [h] at hentry
  obtain ⟨k, hk, hblock⟩ := List.mem_flatMap.mp hentry
  have hkey : key entry = k := by simpa [blockOf] using (List.mem_filter.mp hblock).2
  rw [hkey]
  exact List.mem_range.mp hk

theorem InBlocks.blockOf_bound (h : InBlocks key bound entries) {k : Nat} (hk : bound ≤ k) :
    blockOf key entries k = [] := by
  apply List.filter_eq_nil_iff.mpr
  intro entry hentry
  have hlt := h.key_lt entry hentry
  simp only [decide_eq_true_eq]
  omega

/-- One more key, whose block is empty so far. -/
theorem InBlocks.succ (h : InBlocks key bound entries) : InBlocks key (bound + 1) entries := by
  unfold InBlocks at h ⊢
  rw [List.range_succ, List.flatMap_append, ← h, List.flatMap_singleton,
    InBlocks.blockOf_bound h (Nat.le_refl bound), List.append_nil]

/-- Entries of the last key may be added. -/
theorem InBlocks.append (h : InBlocks key (bound + 1) entries)
    (hnew : ∀ entry ∈ new, key entry = bound) : InBlocks key (bound + 1) (entries ++ new) := by
  have hbefore : ∀ k ∈ List.range bound,
      blockOf key (entries ++ new) k = blockOf key entries k := by
    intro k hk
    rw [blockOf_append, blockOf_other hnew (Nat.ne_of_lt (List.mem_range.mp hk)), List.append_nil]
  unfold InBlocks at h ⊢
  rw [List.range_succ, List.flatMap_append, List.flatMap_singleton] at h ⊢
  rw [List.flatMap_congr hbefore, blockOf_append, blockOf_self hnew, ← List.append_assoc, ← h]

end GitRpc.Library.Blocks
