import GitRpc.TaskManager.NamedRunners

/-!
When a runner sleeps although there are tasks for it. A signal that comes when
nobody waits is lost, and the loop looks at the queue for the last time before
it calls `Wait`, not in it.
-/

namespace GitRpc.TaskManager

open Dispatcher Library.Runs Library.Families

variable {φ : Type*}

/-- The loop is in `Wait` and cannot go on. -/
def LoopAt.Blocked (m : Bool) : LoopAt φ → Prop
  | .waiting => True
  | .waking => m = true
  | _ => False

def LoopAt.Awake : LoopAt φ → Prop
  | .waiting | .waking => False
  | _ => True

namespace NamedRunner

/-- The runner is blocked in `Wait`, its queue is not empty, and whoever has
posted to it has signalled. Where a runner has several loops, all are blocked. -/
def Stuck (s : NamedRunner φ) : Prop :=
  s.loops ≠ [] ∧ (∀ place ∈ s.loops, place.Blocked s.m) ∧
    s.queue.entries ≠ [] ∧ s.toSignal = 0

/-- When a loop may call `Wait`: the queue is empty, or a signal is still to
come, or the runner has another loop that is not waiting. -/
def MayWait (s : NamedRunner φ) : RunnerEvent φ → Prop
  | .run i => s.loops[i]? = some .entering → s.queue.entries = [] ∨ 0 < s.toSignal ∨
      ∃ j place, j ≠ i ∧ s.loops[j]? = some place ∧ place.isWaiting = false
  | _ => True

end NamedRunner

/-- What holds as long as the runner does not get stuck. A loop that has come
back from `Wait` holds the mutex until it waits again. -/
structure Served (s : NamedRunner φ) : Prop where
  served : ¬ s.Stuck
  locked : s.m = true → ∃ place ∈ s.loops, place.Awake

variable {s next : NamedRunner φ} {e : RunnerEvent φ}

theorem LoopAt.Awake.not_blocked {place : LoopAt φ} (h : place.Awake) (m : Bool) :
    ¬ place.Blocked m := by
  cases place with
  | waiting | waking => exact h.elim
  | _ => exact id

theorem blocked_false_iff {place : LoopAt φ} :
    place.Blocked false ↔ place.isWaiting = true := by
  cases place <;> simp [LoopAt.Blocked, LoopAt.isWaiting]

theorem not_stuck_of_awake {place : LoopAt φ} (hmem : place ∈ s.loops) (hawake : place.Awake) :
    ¬ s.Stuck := by
  rintro ⟨-, hblocked, -⟩
  exact hawake.not_blocked s.m (hblocked place hmem)

theorem served_of_awake {place : LoopAt φ} (hmem : place ∈ s.loops) (hawake : place.Awake) :
    Served s :=
  ⟨not_stuck_of_awake hmem hawake, fun _ => ⟨place, hmem, hawake⟩⟩

theorem Served.start : Served (NamedRunner.start : NamedRunner φ) := by
  refine ⟨?_, ?_⟩
  · rintro ⟨hloops, -⟩
    exact hloops rfl
  · intro hm
    cases hm

/-- The place of one loop changes, the others keep theirs. -/
theorem forall_mem_set_iff {α : Type*} {places : List α} {i : Nat} {old new : α} {P : α → Prop}
    (hat : places[i]? = some old) :
    (∀ place ∈ places.set i new, P place) ↔
      P new ∧ ∀ j place, j ≠ i → places[j]? = some place → P place := by
  have hlt := (List.getElem?_eq_some_iff.mp hat).1
  constructor
  · intro hall
    refine ⟨hall new (List.mem_set hlt new), fun j place hne hplace => ?_⟩
    apply hall place
    apply List.mem_of_getElem? (i := j)
    rw [List.getElem?_set_ne hne.symm]
    exact hplace
  · rintro ⟨hnew, hothers⟩ place hmem
    obtain ⟨j, hj⟩ := List.mem_iff_getElem?.mp hmem
    rcases eq_or_ne j i with rfl | hne
    · rw [List.getElem?_set_self hlt] at hj
      cases hj
      exact hnew
    · rw [List.getElem?_set_ne hne.symm] at hj
      exact hothers j place hne hj

theorem mem_set_of_ne {α : Type*} {places : List α} {i : Nat} {old new place : α}
    (hat : places[i]? = some old) (hmem : place ∈ places) (hne : place ≠ old) :
    place ∈ places.set i new := by
  obtain ⟨j, hj⟩ := List.mem_iff_getElem?.mp hmem
  have hji : j ≠ i := by
    rintro rfl
    exact hne (Option.some.inj (hj.symm.trans hat))
  apply List.mem_of_getElem? (i := j)
  rw [List.getElem?_set_ne hji.symm]
  exact hj

/-- A loop moves on to a place where it is awake. -/
theorem served_moved {i : Nat} {old place : LoopAt φ} (hat : s.loops[i]? = some old)
    (hawake : place.Awake) (hnext : next.loops = s.loops.set i place) : Served next := by
  have hmem : place ∈ next.loops := by
    rw [hnext]
    exact List.mem_set (List.getElem?_eq_some_iff.mp hat).1 place
  exact served_of_awake hmem hawake

/-- A loop that is woken up finds the mutex free, or another loop is awake. -/
theorem Served.woken (h : Served s) {i : Nat} (hat : s.loops[i]? = some .waiting)
    (hloops : next.loops = s.loops.set i .waking) (hm : next.m = s.m) : Served next := by
  have hlocked : next.m = true → ∃ place ∈ next.loops, place.Awake := by
    intro hnext
    obtain ⟨place, hmem, hawake⟩ := h.locked (hm ▸ hnext)
    have hne : place ≠ .waiting := by
      rintro rfl
      exact hawake
    rw [hloops]
    exact ⟨place, mem_set_of_ne hat hmem hne, hawake⟩
  refine ⟨?_, hlocked⟩
  rintro ⟨hsome, hblocked, hrest⟩
  have hnext : next.m = true := by
    apply hblocked .waking
    rw [hloops]
    exact List.mem_set (List.getElem?_eq_some_iff.mp hat).1 _
  obtain ⟨place, hmem, hawake⟩ := hlocked hnext
  exact hawake.not_blocked next.m (hblocked place hmem)

/-- A signal that wakes up nobody is not missed by anybody. -/
theorem Served.signalNone (h : Served s) (hnone : ∀ place ∈ s.loops, place.isWaiting = false)
    (hloops : next.loops = s.loops) (hm : next.m = s.m) : Served next := by
  refine ⟨?_, by rw [hloops, hm]; exact h.locked⟩
  rintro ⟨hsome, hblocked, -⟩
  rw [hloops] at hsome hblocked
  obtain ⟨first, hfirst⟩ := List.exists_mem_of_ne_nil _ hsome
  cases hnext : next.m with
  | false =>
      have hwaiting := hblocked first hfirst
      rw [hnext, blocked_false_iff, hnone first hfirst] at hwaiting
      cases hwaiting
  | true =>
      obtain ⟨place, hmem, hawake⟩ := h.locked (hm ▸ hnext)
      exact hawake.not_blocked next.m (hblocked place hmem)

/-- A call of `Wait` leaves the runner stuck where the condition says so. -/
theorem enterWait_stuck_iff {i : Nat} (hat : s.loops[i]? = some .entering) :
    ¬ NamedRunner.Stuck { s.goTo i .waiting with m := false } ↔ s.MayWait (.run i) := by
  have hlt := (List.getElem?_eq_some_iff.mp hat).1
  have hblocked : (∀ place ∈ s.loops.set i .waiting, place.Blocked false) ↔
      ∀ j place, j ≠ i → s.loops[j]? = some place → place.isWaiting = true := by
    rw [forall_mem_set_iff hat]
    simp only [blocked_false_iff]
    exact ⟨fun h => h.2, fun h => ⟨rfl, h⟩⟩
  have hsome : s.loops.set i .waiting ≠ [] := by
    apply List.ne_nil_of_length_pos
    rw [List.length_set]
    omega
  have hstuck : NamedRunner.Stuck { s.goTo i .waiting with m := false } ↔
      (∀ j place, j ≠ i → s.loops[j]? = some place → place.isWaiting = true) ∧
        s.queue.entries ≠ [] ∧ s.toSignal = 0 := by
    rw [← hblocked]
    exact ⟨fun h => h.2, fun h => ⟨hsome, h⟩⟩
  rw [hstuck]
  constructor
  · intro hserved _
    by_contra hnot
    simp only [not_or, not_exists, not_and, Bool.not_eq_false, not_lt, Nat.le_zero] at hnot
    exact hserved ⟨hnot.2.2, hnot.1, hnot.2.1⟩
  · rintro hmay ⟨hall, htasks, hsignals⟩
    rcases hmay hat with hempty | hsignal | ⟨j, place, hne, hplace, hnot⟩
    · exact htasks hempty
    · omega
    · rw [hall j place hne hplace] at hnot
      cases hnot

/-- No step but a call of `Wait` does any harm. -/
theorem Served.step (h : Served s) (hstep : s.step e = some next)
    (hnot : ∀ i, e = .run i → s.loops[i]? ≠ some .entering) : Served next := by
  cases step_runnerStepped hstep with
  | takeOver initTask memory =>
      exact served_of_awake (List.mem_append_right _ (List.mem_singleton_self _)) trivial
  | create initTask =>
      exact served_of_awake (List.mem_append_right _ (List.mem_singleton_self _)) trivial
  | exists_ | throw_ => exact h
  | post creation memory =>
      refine ⟨?_, h.locked⟩
      rintro ⟨-, -, -, hsignals⟩
      exact Nat.succ_ne_zero _ hsignals
  | signal i _ hwaiting => exact h.woken hwaiting rfl rfl
  | signalNone i _ hnone => exact h.signalNone hnone rfl rfl
  | readNull | noTop | lose | noPop => exact ⟨h.served, h.locked⟩
  | postInitTask i creation memory hat =>
      refine served_moved hat ?_ rfl
      trivial
  | test i hat | ask i t entry hat | check i hat =>
      refine served_moved hat ?_ rfl
      split <;> trivial
  | take i hat | invoke i t entry hat | complete i t entry hat | leaveWait i hat =>
      refine served_moved hat ?_ rfl
      trivial
  | enterWait i hat => exact absurd hat (hnot i rfl)
  | pop i n popped hat =>
      refine served_moved hat ?_ rfl
      trivial
  | wakeUnasked i hat => exact h.woken hat rfl rfl

theorem step_entering {i : Nat} (hat : s.loops[i]? = some .entering)
    (hstep : s.step (.run i) = some next) : next = { s.goTo i .waiting with m := false } := by
  unfold NamedRunner.step at hstep
  split at hstep
  · cases hstep
  · simp only [hat, Option.bind_some] at hstep
    cases hstep
    rfl

theorem stuck_iff (h : Served s) (hstep : s.step e = some next) :
    ¬ next.Stuck ↔ s.MayWait e := by
  by_cases henters : ∃ i, e = .run i ∧ s.loops[i]? = some .entering
  · obtain ⟨i, rfl, hat⟩ := henters
    rw [step_entering hat hstep]
    exact enterWait_stuck_iff hat
  · have hnot : ∀ i, e = .run i → s.loops[i]? ≠ some .entering := by
      intro i he hat
      exact henters ⟨i, he, hat⟩
    have hmay : s.MayWait e := by
      cases e with
      | run i => exact fun hat => absurd hat (hnot i rfl)
      | _ => trivial
    exact iff_of_true (h.step hstep hnot).served hmay

theorem Served.step_mayWait (h : Served s) (hmay : s.MayWait e) (hstep : s.step e = some next) :
    Served next := by
  by_cases henters : ∃ i, e = .run i ∧ s.loops[i]? = some .entering
  · obtain ⟨i, rfl, hat⟩ := henters
    refine ⟨(stuck_iff h hstep).mpr hmay, ?_⟩
    rw [step_entering hat hstep]
    intro hm
    cases hm
  · apply h.step hstep
    intro i he hat
    exact henters ⟨i, he, hat⟩

/-- For all names, however the threads that post to them and their loops take
turns: no state on the way has a runner stuck exactly when every step meets
the condition. -/
theorem never_stuck_iff (es : List (String × RunnerEvent φ)) :
    Always (stepMember NamedRunner.step) (fun _ _ next => ∀ name, ¬ (next name).Stuck)
        (fun _ => .start) es ↔
      StepsMeet (stepMember NamedRunner.step) (fun s e => (s e.1).MayWait e.2)
        (fun _ => .start) es :=
  always_members_iff (fun s (h : Served s) => h.served)
    (fun s _ _ (h : Served s) hstep => stuck_iff h hstep)
    (fun s _ _ (h : Served s) hmay hstep => h.step_mayWait hmay hstep)
    (fun _ => Served.start) es

/-- The loop finds the queue empty, a task is posted and signalled, and then
the loop waits. -/
theorem runner_left_in_wait :
    ¬ ∀ s : String → NamedRunner String,
      Reachable (stepMember NamedRunner.step) (fun _ => .start) s → ∀ name, ¬ (s name).Stuck := by
  intro hserved
  obtain ⟨s, hrun, hloops, htasks, hsignals⟩ : ∃ s : String → NamedRunner String,
      exec (stepMember NamedRunner.step) (fun _ => .start)
        [("net", .createRunnerOnNewThread none), ("net", .run 0), ("net", .run 0),
          ("net", .postNonThreadPoolTask (.methodNothing "connect" 1 .LOW) 0),
          ("net", .signal 0), ("net", .run 0)] = some s ∧
        (s "net").loops = [.waiting] ∧ (s "net").queue.entries ≠ [] ∧ (s "net").toSignal = 0 :=
    ⟨_, rfl, rfl, List.cons_ne_nil _ _, rfl⟩
  apply hserved s ⟨_, hrun⟩ "net"
  refine ⟨?_, ?_, htasks, hsignals⟩
  · simp [hloops]
  · simp [hloops, LoopAt.Blocked]

end GitRpc.TaskManager
