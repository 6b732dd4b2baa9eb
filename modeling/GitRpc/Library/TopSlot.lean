import GitRpc.Library.Drains

/-!
A priority queue in a vector, as far as a pointer to its top can tell. The top
is in the first slot of the vector's buffer, and the vector moves to another
buffer when it has to grow. A pointer to the top says which buffer it points
into; it finds whatever is in the first slot when it is used, and nothing
once the buffer is gone or empty.
-/

namespace GitRpc.Library.TopSlot

variable {α : Type*}

/-- The top is the first of the entries, and the others are in no order.
`buffer` counts the buffers that the vector has had. -/
structure VectorHeap (α : Type*) where
  buffer : Nat
  capacity : Nat
  entries : List α

/-- `after x y` says that `y` has to come out before `x`. -/
def place (after : α → α → Prop) [DecidableRel after] (entries : List α) (x : α) : List α :=
  match entries with
  | [] => [x]
  | top :: rest => if after top x then x :: top :: rest else top :: x :: rest

namespace VectorHeap

def new : VectorHeap α := ⟨0, 0, []⟩

def push (after : α → α → Prop) [DecidableRel after] (h : VectorHeap α) (x : α) : VectorHeap α :=
  if h.entries.length < h.capacity then { h with entries := place after h.entries x }
  else ⟨h.buffer + 1, max 1 (2 * h.capacity), place after h.entries x⟩

/-- The top goes, and another entry that may come next takes its slot. -/
def pop (after : α → α → Prop) [DecidableRel after] (h : VectorHeap α) (next : Nat) :
    Option (VectorHeap α) :=
  match h.entries with
  | [] => none
  | [_] => some { h with entries := [] }
  | _ :: rest =>
      match rest[next]? with
      | none => none
      | some x =>
          if ∀ other ∈ rest, ¬ after x other then
            some { h with entries := x :: rest.eraseIdx next }
          else none

/-- What is in the slot that `top` pointed to when it was asked for. -/
def deref (h : VectorHeap α) (pointer : Nat) : Option α :=
  if pointer = h.buffer then h.entries.head? else none

def setTop (h : VectorHeap α) (f : α → α) : VectorHeap α :=
  { h with entries := h.entries.modifyHead f }

/-- The top is still the top after a push of `x`. -/
def Keeps (after : α → α → Prop) (h : VectorHeap α) (x : α) : Prop :=
  ∀ top ∈ h.entries.head?, ¬ after top x

instance (after : α → α → Prop) [DecidableRel after] (h : VectorHeap α) (x : α) :
    Decidable (h.Keeps after x) :=
  inferInstanceAs (Decidable (∀ top ∈ h.entries.head?, ¬ after top x))

variable {after : α → α → Prop} [DecidableRel after] {h popped : VectorHeap α}

theorem place_perm (entries : List α) (x : α) : (place after entries x).Perm (x :: entries) := by
  cases entries with
  | nil => exact .refl _
  | cons top rest =>
      simp only [place]
      split
      · exact .refl _
      · exact .swap _ _ _

theorem push_perm (h : VectorHeap α) (x : α) : (h.push after x).entries.Perm (x :: h.entries) := by
  unfold push
  split <;> exact place_perm _ _

theorem Keeps.push {x top : α} {rest : List α} (hkeeps : h.Keeps after x)
    (hentries : h.entries = top :: rest) : (h.push after x).entries = top :: x :: rest := by
  have hlater : ¬ after top x := hkeeps top (by rw [hentries]; rfl)
  have hplace : place after h.entries x = top :: x :: rest := by
    rw [hentries, place, if_neg hlater]
  unfold VectorHeap.push
  split <;> exact hplace

theorem push_buffer {x : α} (hroom : h.entries.length < h.capacity) :
    (h.push after x).buffer = h.buffer := by
  rw [push, if_pos hroom]

theorem push_grows {x : α} (hfull : ¬ h.entries.length < h.capacity) :
    (h.push after x).buffer = h.buffer + 1 := by
  rw [push, if_neg hfull]

theorem buffer_le_push (h : VectorHeap α) (x : α) : h.buffer ≤ (h.push after x).buffer := by
  by_cases hroom : h.entries.length < h.capacity
  · rw [push_buffer hroom]
  · rw [push_grows hroom]
    exact Nat.le_succ _

/-- The top after a push is the top before it, or what was pushed. -/
theorem push_head (h : VectorHeap α) (x : α) :
    (h.push after x).entries.head? = h.entries.head? ∨
      (h.push after x).entries.head? = some x := by
  have hplace : (place after h.entries x).head? = h.entries.head? ∨
      (place after h.entries x).head? = some x := by
    cases hentries : h.entries with
    | nil => exact .inr rfl
    | cons top rest =>
        simp only [place]
        split
        · exact .inr rfl
        · exact .inl rfl
  unfold push
  split <;> exact hplace

theorem push_head_of_not_keeps {x : α} (hnot : ¬ h.Keeps after x) :
    (h.push after x).entries.head? = some x := by
  have hplace : (place after h.entries x).head? = some x := by
    cases hentries : h.entries with
    | nil => rfl
    | cons top rest =>
        have hafter : after top x := by
          by_contra hlater
          apply hnot
          intro other hother
          rw [hentries, List.head?_cons, Option.mem_some_iff] at hother
          rwa [← hother]
        rw [place, if_pos hafter]
        rfl
  unfold push
  split <;> exact hplace

/-- What comes before the top takes its slot. -/
theorem push_first {x : α} (hfirst : ∀ top ∈ h.entries.head?, after top x) :
    (h.push after x).entries = x :: h.entries := by
  have hplace : place after h.entries x = x :: h.entries := by
    cases hentries : h.entries with
    | nil => rfl
    | cons top rest =>
        rw [place, if_pos (hfirst top (by rw [hentries]; rfl))]
  unfold push
  split <;> exact hplace

theorem deref_top {top : α} {rest : List α} (hentries : h.entries = top :: rest) :
    h.deref h.buffer = some top := by
  rw [deref, if_pos rfl, hentries]
  rfl

theorem head_of_deref {pointer : Nat} {top : α} (hderef : h.deref pointer = some top) :
    h.entries.head? = some top := by
  unfold deref at hderef
  split at hderef
  · exact hderef
  · cases hderef

/-- A pop takes the top, and keeps the others and the buffer. -/
theorem pop_spec {next : Nat} (hpop : h.pop after next = some popped) :
    ∃ top rest, h.entries = top :: rest ∧ popped.entries.Perm rest ∧ popped.buffer = h.buffer := by
  unfold pop at hpop
  split at hpop
  · cases hpop
  · rename_i top hentries
    cases hpop
    exact ⟨top, [], hentries, .refl _, rfl⟩
  · rename_i top rest _ hentries
    split at hpop
    · cases hpop
    · rename_i x hx
      split at hpop
      · cases hpop
        obtain ⟨hlt, rfl⟩ := List.getElem?_eq_some_iff.mp hx
        exact ⟨top, rest, hentries, List.getElem_cons_eraseIdx_perm hlt, rfl⟩
      · cases hpop

/-- Something can come next whenever there is something to pop. -/
theorem exists_pop {κ : Type*} [LinearOrder κ] (key : α → κ)
    (hafter : ∀ x y, after x y ↔ key y < key x) (hentries : h.entries ≠ []) :
    ∃ next popped, h.pop after next = some popped := by
  obtain ⟨top, rest, htop⟩ := List.exists_cons_of_ne_nil hentries
  cases rest with
  | nil => exact ⟨0, { h with entries := [] }, by simp only [pop, htop]⟩
  | cons second others =>
      obtain ⟨next, x, hx, hfirst⟩ := Drains.exists_first key (List.cons_ne_nil second others)
      have hnone : ∀ other ∈ second :: others, ¬ after x other := by
        intro other hother hlater
        exact absurd (hfirst other hother) (not_le.mpr ((hafter x other).mp hlater))
      refine ⟨next, { h with entries := x :: (second :: others).eraseIdx next }, ?_⟩
      simp only [pop, htop, hx, if_pos hnone]

end VectorHeap

end GitRpc.Library.TopSlot
