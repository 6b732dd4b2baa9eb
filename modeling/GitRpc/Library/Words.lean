import Mathlib.Tactic

/-!
A text is a list over any alphabet, and its words are what stands between the
separators. The last part compares two ways to read a list of texts of which one
reads nothing that the other does not.
-/

namespace GitRpc.Library.Words

variable {α β : Type*} [DecidableEq α] {sep : α}

/-- A text is one word, or a word with a separator behind it. -/
theorem word_or_more (sep : α) (text : List α) :
    (sep ∉ text ∧ text.splitOn sep = [text]) ∨
      ∃ word rest, sep ∉ word ∧ text = word ++ sep :: rest ∧
        text.splitOn sep = word :: rest.splitOn sep := by
  by_cases hmem : sep ∈ text
  · obtain ⟨word, rest, htext, hplain⟩ := List.eq_append_cons_of_mem hmem
    refine .inr ⟨word, rest, hplain, htext, ?_⟩
    rw [htext, List.splitOn_append_cons_self_of_not_mem hplain]
  · exact .inl ⟨hmem, List.splitOn_eq_singleton hmem⟩

/-- What stands behind a word is empty or starts with a separator. -/
def Behind (sep : α) (tail : List α) : Prop := tail = [] ∨ tail.head? = some sep

theorem splitOn_word {word tail : List α} (hplain : sep ∉ word) (htail : Behind sep tail) :
    ∃ more, (word ++ tail).splitOn sep = word :: more := by
  cases tail with
  | nil => exact ⟨[], by rw [List.append_nil, List.splitOn_eq_singleton hplain]⟩
  | cons first rest =>
      have hfirst : first = sep := by simpa [Behind] using htail
      rw [hfirst, List.splitOn_append_cons_self_of_not_mem hplain]
      exact ⟨_, rfl⟩

/-- There is a second word exactly when a separator is behind the first. -/
theorem splitOn_cons_cons_iff {word text : List α} (hplain : sep ∉ word) :
    (∃ second more, text.splitOn sep = word :: second :: more) ↔ word ++ [sep] <+: text := by
  constructor
  · rintro ⟨second, more, hsplit⟩
    rcases word_or_more sep text with ⟨-, hone⟩ | ⟨first, rest, -, htext, hmore⟩
    · simp [hone] at hsplit
    · have hfirst : first = word := by
        rw [hmore] at hsplit
        exact (List.cons.inj hsplit).1
      exact ⟨rest, by simp [htext, hfirst]⟩
  · rintro ⟨rest, rfl⟩
    rw [List.append_assoc, List.singleton_append,
      List.splitOn_append_cons_self_of_not_mem hplain]
    cases hrest : rest.splitOn sep with
    | nil => exact absurd hrest (List.splitOn_ne_nil sep rest)
    | cons second more => exact ⟨second, more, rfl⟩

section Readings

variable {γ : Type*} {read expected : γ → Option β} {texts : List γ}

theorem length_filterMap_le
    (hreads : ∀ text ∈ texts, (expected text).isSome → (read text).isSome) :
    (texts.filterMap expected).length ≤ (texts.filterMap read).length := by
  induction texts with
  | nil => exact Nat.le_refl 0
  | cons text rest ih =>
      have hrest := ih fun other hother => hreads other (List.mem_cons_of_mem _ hother)
      have hhead := hreads text List.mem_cons_self
      cases hexpected : expected text with
      | none =>
          rw [List.filterMap_cons_none hexpected]
          apply hrest.trans
          rw [List.filterMap_cons]
          split <;> simp
      | some value =>
          obtain ⟨part, hpart⟩ := Option.isSome_iff_exists.mp (hhead (by simp [hexpected]))
          rw [List.filterMap_cons_some hexpected, List.filterMap_cons_some hpart]
          simpa using hrest

/-- Where each text that is expected to give something does give something, the
two readings give the same list only when they agree on each text. -/
theorem filterMap_eq_iff
    (hreads : ∀ text ∈ texts, (expected text).isSome → (read text).isSome) :
    texts.filterMap read = texts.filterMap expected ↔
      ∀ text ∈ texts, read text = expected text := by
  refine ⟨fun heq => ?_, List.filterMap_congr⟩
  induction texts with
  | nil => simp
  | cons text rest ih =>
      have hrest : ∀ other ∈ rest, (expected other).isSome → (read other).isSome :=
        fun other hother => hreads other (List.mem_cons_of_mem _ hother)
      have hhead := hreads text List.mem_cons_self
      have hlength := length_filterMap_le hrest
      rw [List.forall_mem_cons]
      cases hexpected : expected text with
      | none =>
          cases hread : read text with
          | none =>
              rw [List.filterMap_cons_none hexpected, List.filterMap_cons_none hread] at heq
              exact ⟨rfl, ih hrest heq⟩
          | some part =>
              rw [List.filterMap_cons_none hexpected, List.filterMap_cons_some hread] at heq
              -- The list read would be the longer one.
              have hlonger := congrArg List.length heq
              rw [List.length_cons] at hlonger
              omega
      | some value =>
          obtain ⟨part, hpart⟩ := Option.isSome_iff_exists.mp (hhead (by simp [hexpected]))
          rw [List.filterMap_cons_some hexpected, List.filterMap_cons_some hpart] at heq
          obtain ⟨hvalue, htail⟩ := List.cons.inj heq
          exact ⟨by rw [hpart, hvalue], ih hrest htail⟩

end Readings

end GitRpc.Library.Words
