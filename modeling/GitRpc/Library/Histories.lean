import Mathlib.Data.List.Basic
import Mathlib.Tactic.Common

/-!
Histories: lists of entries, the oldest first. A history is grounded in a
relation when every entry stands in the relation to all that came before it.
-/

namespace GitRpc.Library.Histories

variable {α : Type*}

def Grounded (P : List α → α → Prop) (history : List α) : Prop :=
  ∀ before entry after, history = before ++ entry :: after → P before entry

theorem grounded_nil (P : List α → α → Prop) : Grounded P [] := by
  intro before entry after hsplit
  simp at hsplit

theorem grounded_append {P : List α → α → Prop} {old new : List α} :
    Grounded P (old ++ new) ↔
      Grounded P old ∧ Grounded (fun before entry => P (old ++ before) entry) new := by
  constructor
  · intro hall
    refine ⟨?_, ?_⟩
    · rintro before entry after rfl
      exact hall before entry (after ++ new) (by simp)
    · rintro before entry after rfl
      exact hall (old ++ before) entry after (by simp)
  · rintro ⟨hold, hnew⟩ before entry after hsplit
    rcases List.append_eq_append_iff.mp hsplit with ⟨between, hbefore, hrest⟩ | ⟨between, hentry, hafter⟩
    · rw [hbefore]
      exact hnew between entry after hrest
    · cases between with
      | nil =>
          rw [List.nil_append] at hafter
          rw [List.append_nil] at hentry
          have hhead : P (old ++ []) entry := hnew [] entry after (by rw [← hafter]; rfl)
          rwa [List.append_nil, hentry] at hhead
      | cons first rest =>
          obtain ⟨rfl, hafter⟩ := List.cons_eq_cons.mp hafter
          exact hold before entry rest hentry

theorem grounded_cons {P : List α → α → Prop} {entry : α} {rest : List α} :
    Grounded P (entry :: rest) ↔
      P [] entry ∧ Grounded (fun before next => P (entry :: before) next) rest := by
  have hone : Grounded P [entry] ↔ P [] entry := by
    constructor
    · intro hall
      exact hall [] entry [] rfl
    · intro hentry before other after hsplit
      rcases List.singleton_eq_append_iff.mp hsplit with ⟨rfl, hother⟩ | ⟨rfl, hother⟩
      · obtain ⟨rfl, -⟩ := List.cons_eq_cons.mp hother
        exact hentry
      · cases hother
  rw [← List.singleton_append, grounded_append, hone]
  rfl

/-- Every place of a list that is not empty is its first or one of the rest. -/
theorem forall_split_cons {P : List α → α → List α → Prop} {first : α} {rest : List α} :
    (∀ before entry after, first :: rest = before ++ entry :: after → P before entry after) ↔
      P [] first rest ∧
        ∀ before entry after, rest = before ++ entry :: after → P (first :: before) entry after := by
  constructor
  · intro hall
    refine ⟨hall [] first rest rfl, ?_⟩
    rintro before entry after rfl
    exact hall (first :: before) entry after rfl
  · rintro ⟨hfirst, hrest⟩ before entry after hsplit
    cases before with
    | nil =>
        cases hsplit
        exact hfirst
    | cons other before =>
        obtain ⟨rfl, hmore⟩ := List.cons_eq_cons.mp hsplit
        exact hrest before entry after hmore

/-- Entries that need no ground may always be added. -/
theorem Grounded.append_of_forall {P : List α → α → Prop} {old new : List α}
    (h : Grounded P old) (hfree : ∀ entry ∈ new, ∀ before, P before entry) :
    Grounded P (old ++ new) := by
  refine grounded_append.mpr ⟨h, ?_⟩
  rintro before entry after rfl
  exact hfree entry (by simp) (old ++ before)

/-- What has a place in a history keeps it. -/
theorem getElem?_append_some {α : Type*} {old : List α} {index : Nat} {entry : α}
    (h : old[index]? = some entry) (more : List α) : (old ++ more)[index]? = some entry := by
  rw [List.getElem?_append_left (List.getElem?_eq_some_iff.mp h).1]
  exact h

theorem getElem?_concat {α : Type*} {old : List α} {index : Nat} {last entry : α}
    (h : (old ++ [last])[index]? = some entry) :
    old[index]? = some entry ∨ (index = old.length ∧ last = entry) := by
  rcases Nat.lt_trichotomy index old.length with hlt | heq | hgt
  · rw [List.getElem?_append_left hlt] at h
    exact .inl h
  · rw [heq, List.getElem?_concat_length] at h
    exact .inr ⟨heq, Option.some.inj h⟩
  · have hbound := (List.getElem?_eq_some_iff.mp h).1
    simp only [List.length_append, List.length_singleton] at hbound
    omega

end GitRpc.Library.Histories
