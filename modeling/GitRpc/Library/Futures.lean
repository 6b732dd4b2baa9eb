import Mathlib.Tactic

/-!
Jobs that are posted to another thread, and what comes of them. A job gets
the next number when it is posted, waits until it is completed, in whatever
order, and then its result stays readable under its number: the number is the
handle of a future.
-/

namespace GitRpc.Library.Futures

variable {ι ρ : Type*}

/-- No number is given out twice, and none that is not given out is in use. -/
structure JobQueue (ι ρ : Type*) where
  posted : Nat
  pending : List (Nat × ι)
  results : List (Nat × ι × ρ)
  nodup : (pending.map Prod.fst ++ results.map Prod.fst).Nodup
  fresh : ∀ number ∈ pending.map Prod.fst ++ results.map Prod.fst, number < posted

namespace JobQueue

def empty : JobQueue ι ρ := ⟨0, [], [], by simp, by simp⟩

/-- The numbers in use when a job is posted. -/
theorem post_numbers (q : JobQueue ι ρ) (job : ι) :
    ((q.pending ++ [(q.posted, job)]).map Prod.fst ++ q.results.map Prod.fst).Perm
      (q.posted :: (q.pending.map Prod.fst ++ q.results.map Prod.fst)) := by
  rw [List.map_append, List.append_assoc]
  exact List.perm_middle

/-- The numbers in use when a job is completed. -/
theorem complete_numbers (q : JobQueue ι ρ) {index : Nat} {entry : Nat × ι} (result : ρ)
    (hentry : q.pending[index]? = some entry) :
    ((q.pending.eraseIdx index).map Prod.fst ++
        (q.results ++ [(entry.1, entry.2, result)]).map Prod.fst).Perm
      (q.pending.map Prod.fst ++ q.results.map Prod.fst) := by
  obtain ⟨hindex, rfl⟩ := List.getElem?_eq_some_iff.mp hentry
  have hpick := (List.getElem_cons_eraseIdx_perm hindex).map Prod.fst
  rw [List.map_append, ← List.append_assoc]
  apply (List.perm_append_singleton _ _).trans
  rw [← List.cons_append]
  exact hpick.append_right _

def post (q : JobQueue ι ρ) (job : ι) : JobQueue ι ρ where
  posted := q.posted + 1
  pending := q.pending ++ [(q.posted, job)]
  results := q.results
  nodup := by
    rw [(q.post_numbers job).nodup_iff, List.nodup_cons]
    exact ⟨fun hmem => lt_irrefl _ (q.fresh _ hmem), q.nodup⟩
  fresh := by
    intro number hnumber
    rcases List.mem_cons.mp ((q.post_numbers job).mem_iff.mp hnumber) with rfl | hmem
    · exact Nat.lt_succ_self _
    · exact Nat.lt_succ_of_lt (q.fresh number hmem)

def complete (q : JobQueue ι ρ) (index : Nat) (entry : Nat × ι)
    (hentry : q.pending[index]? = some entry) (result : ρ) : JobQueue ι ρ where
  posted := q.posted
  pending := q.pending.eraseIdx index
  results := q.results ++ [(entry.1, entry.2, result)]
  nodup := (q.complete_numbers result hentry).nodup_iff.mpr q.nodup
  fresh := by
    intro number hnumber
    exact q.fresh number ((q.complete_numbers result hentry).mem_iff.mp hnumber)

/-- What is readable under a number. -/
def future (q : JobQueue ι ρ) (number : Nat) : Option ρ :=
  (q.results.find? fun entry => entry.1 = number).map fun entry => entry.2.2

/-- The job was posted under this number. -/
def Holds (q : JobQueue ι ρ) (number : Nat) (job : ι) : Prop :=
  (number, job) ∈ q.pending ∨ ∃ result, (number, job, result) ∈ q.results

theorem post_holds (q : JobQueue ι ρ) (job : ι) : (q.post job).Holds q.posted job :=
  .inl (by simp [post])

theorem Holds.post {q : JobQueue ι ρ} {number : Nat} {job : ι} (h : q.Holds number job)
    (other : ι) : (q.post other).Holds number job := by
  rcases h with hpending | hresult
  · exact .inl (List.mem_append_left _ hpending)
  · exact .inr hresult

theorem Holds.of_post {q : JobQueue ι ρ} {number : Nat} {job other : ι}
    (h : (q.post other).Holds number job) :
    q.Holds number job ∨ (number = q.posted ∧ job = other) := by
  rcases h with hpending | hresult
  · rcases List.mem_append.mp hpending with hold | hnew
    · exact .inl (.inl hold)
    · cases List.mem_singleton.mp hnew
      exact .inr ⟨rfl, rfl⟩
  · exact .inl (.inr hresult)

theorem Holds.of_complete {q : JobQueue ι ρ} {number : Nat} {job : ι} {index : Nat}
    {entry : Nat × ι} {result : ρ} (hentry : q.pending[index]? = some entry)
    (h : (q.complete index entry hentry result).Holds number job) : q.Holds number job := by
  rcases h with hpending | ⟨earlier, hresult⟩
  · exact .inl (List.mem_of_mem_eraseIdx hpending)
  · rcases List.mem_append.mp hresult with hold | hnew
    · exact .inr ⟨earlier, hold⟩
    · cases List.mem_singleton.mp hnew
      exact .inl (List.mem_of_getElem? hentry)

theorem Holds.complete {q : JobQueue ι ρ} {number : Nat} {job : ι} (h : q.Holds number job)
    {index : Nat} {entry : Nat × ι} (hentry : q.pending[index]? = some entry) (result : ρ) :
    (q.complete index entry hentry result).Holds number job := by
  rcases h with hpending | ⟨earlier, hresult⟩
  · obtain ⟨hindex, rfl⟩ := List.getElem?_eq_some_iff.mp hentry
    have hpick := (List.getElem_cons_eraseIdx_perm hindex).mem_iff.mpr hpending
    rcases List.mem_cons.mp hpick with hsame | hrest
    · exact .inr ⟨result, List.mem_append_right _ (by simp [← hsame])⟩
    · exact .inl hrest
  · exact .inr ⟨earlier, List.mem_append_left _ hresult⟩

/-- A number leads to one job and one result. -/
theorem result_unique (q : JobQueue ι ρ) {number : Nat} {first second : ι × ρ}
    (hfirst : (number, first) ∈ q.results) (hsecond : (number, second) ∈ q.results) :
    first = second := by
  have hnodup := (List.nodup_append.mp q.nodup).2.1
  have hsame := List.inj_on_of_nodup_map hnodup hfirst hsecond rfl
  exact (Prod.mk.inj hsame).2

theorem future_eq_some (q : JobQueue ι ρ) {number : Nat} {job : ι} {result : ρ}
    (hmem : (number, job, result) ∈ q.results) : q.future number = some result := by
  have hsome : (q.results.find? fun entry => entry.1 = number).isSome := by
    rw [List.find?_isSome]
    exact ⟨_, hmem, by simp⟩
  obtain ⟨entry, hentry⟩ := Option.isSome_iff_exists.mp hsome
  have hnumber : entry.1 = number := by simpa using List.find?_some hentry
  have hfound : (number, entry.2) ∈ q.results := by
    rw [← hnumber]
    exact List.mem_of_find?_eq_some hentry
  rw [future, hentry, Option.map_some, q.result_unique hfound hmem]

theorem complete_future (q : JobQueue ι ρ) {index : Nat} {entry : Nat × ι} (result : ρ)
    (hentry : q.pending[index]? = some entry) :
    (q.complete index entry hentry result).future entry.1 = some result :=
  future_eq_some _ (List.mem_append_right _ (List.mem_singleton_self _))

/-- What is readable under the number of a job came of that job. -/
theorem Holds.future {q : JobQueue ι ρ} {number : Nat} {job : ι} {result : ρ}
    (h : q.Holds number job) (hfuture : q.future number = some result) :
    (number, job, result) ∈ q.results := by
  obtain ⟨entry, hfind, rfl⟩ := Option.map_eq_some_iff.mp hfuture
  have hmem := List.mem_of_find?_eq_some hfind
  have hnumber : entry.1 = number := by simpa using List.find?_some hfind
  subst hnumber
  rcases h with hpending | ⟨earlier, hresult⟩
  · exfalso
    have hdisjoint := (List.nodup_append.mp q.nodup).2.2
    exact hdisjoint entry.1 (List.mem_map_of_mem hpending) entry.1
      (List.mem_map_of_mem hmem) rfl
  · have hsame : (job, earlier) = entry.2 := q.result_unique hresult hmem
    rw [← hsame]
    exact hresult

end JobQueue

end GitRpc.Library.Futures
