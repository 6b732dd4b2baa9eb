import GitRpc.Library.Drains
import GitRpc.Dispatcher.MessagePumpEPoll

/-!
The order in which a drain of the queue runs the tasks. The queue compares
the priorities that the tasks hold, and one overload of `Bind` does not store
the one it is given. The pump holds `queueGuard` from the first pop to the
last, so nothing is pushed meanwhile.
-/

namespace GitRpc.Dispatcher

open Library.Runs Library.Drains

variable {T φ : Type*}

def Creation.requested : Creation φ → TaskPriority
  | .function _ _ priority | .method _ _ _ priority | .methodNoReturn _ _ _ priority |
    .methodNoArgs _ _ priority | .methodNothing _ _ priority => priority

/-- A use of `Create`, and what the memory held that the new task got. -/
structure Created (φ : Type*) where
  creation : Creation φ
  memory : Int

namespace Created

def task (x : Created φ) : FreshTask φ := x.creation.fresh x.memory

/-- The number of the priority that was asked for. -/
def requested (x : Created φ) : Int := x.creation.requested.toInt

/-- The number that the task is left with. -/
def kept (x : Created φ) : Int :=
  match x.creation with
  | .methodNoReturn _ _ _ _ => x.memory
  | .function _ _ _ | .method _ _ _ _ | .methodNoArgs _ _ _ | .methodNothing _ _ _ => x.requested

theorem task_taskPriority (x : Created φ) : x.task.1.taskPriority = x.kept := by
  obtain ⟨creation, memory⟩ := x
  cases creation <;> rfl

end Created

/-- The pump has locked the queue, which holds the tasks of `queue`. -/
def Pump.startDrain (s : Pump T φ) (queue : List (Created φ)) : Pump T φ :=
  { s with
    program := .draining, queueGuard := some .pump, taskQueue := queue.map Created.task }

section Pops

variable [DecidableEq T] {s next : Pump T φ} {queue : List (Created φ)} {place : Nat}

theorem pump_pop {task : FreshTask φ} (hdraining : s.program = .draining)
    (htask : s.taskQueue[place]? = some task)
    (hfirst : ∀ other ∈ s.taskQueue, ¬ task.1.comesAfter other.1) :
    s.step (.pop place) =
      some { s with
        taskQueue := s.taskQueue.eraseIdx place
        invoked := s.invoked ++ [task]
        calls := s.calls ++ [task.1.invoke.1] } := by
  have hfresh : task.1.isComplete = false := task.2
  simp only [Pump.step, hdraining, htask]
  rw [if_pos hfirst, Pump.runTask, hfresh]
  simp

/-- A pop takes a task that no other task comes before, and invokes it. -/
theorem startDrain_pop {x : Created φ} (hplace : queue[place]? = some x)
    (hfirst : ∀ other ∈ queue, x.kept ≤ other.kept) :
    (s.startDrain queue).step (.pop place) =
      some ({ s with invoked := s.invoked ++ [x.task], calls := s.calls ++ [x.task.1.invoke.1] }
        |>.startDrain (queue.eraseIdx place)) := by
  have htask : (s.startDrain queue).taskQueue[place]? = some x.task := by
    simp [Pump.startDrain, hplace]
  have hmax : ∀ other ∈ (s.startDrain queue).taskQueue, ¬ x.task.1.comesAfter other.1 := by
    intro other hother
    obtain ⟨y, hy, rfl⟩ := List.mem_map.mp hother
    have hle := hfirst y hy
    rw [← x.task_taskPriority, ← y.task_taskPriority] at hle
    exact not_lt.mpr hle
  rw [pump_pop rfl htask hmax]
  simp only [Pump.startDrain, List.eraseIdx_map]

/-- There is no other kind of pop. -/
theorem startDrain_pop_ok (hpop : (s.startDrain queue).step (.pop place) = some next) :
    ∃ x, queue[place]? = some x ∧ ∀ other ∈ queue, x.kept ≤ other.kept := by
  cases pump_stepped hpop with
  | pop _ task _ htask hfirst =>
      have htask : (queue.map Created.task)[place]? = some task := htask
      rw [List.getElem?_map] at htask
      obtain ⟨x, hx, rfl⟩ := Option.map_eq_some_iff.mp htask
      refine ⟨x, hx, ?_⟩
      intro other hother
      have hnot := hfirst other.task (List.mem_map_of_mem hother)
      rw [Task.comesAfter, x.task_taskPriority, other.task_taskPriority] at hnot
      exact not_lt.mp hnot

/-- A drain invokes what it takes, and takes least priorities first. -/
theorem startDrain_run {places : List Nat}
    (hrun : exec Pump.step (s.startDrain queue) (places.map .pop) = some next) :
    LeastFirst Created.kept queue places ∧
      next.invoked = s.invoked ++ (taken queue places).map Created.task := by
  induction places generalizing s queue with
  | nil =>
      cases hrun
      exact ⟨.stop queue, by simp [taken, Pump.startDrain]⟩
  | cons place rest ih =>
      rw [List.map_cons, exec_cons] at hrun
      obtain ⟨middle, hpop, hrest⟩ := Option.bind_eq_some_iff.mp hrun
      obtain ⟨x, hplace, hfirst⟩ := startDrain_pop_ok hpop
      rw [startDrain_pop hplace hfirst, Option.some.injEq] at hpop
      subst hpop
      obtain ⟨hleast, hinvoked⟩ := ih hrest
      exact ⟨.take hplace hfirst hleast, by simp [hinvoked, taken_cons hplace]⟩

/-- Every way to take least priorities first is a drain. -/
theorem startDrain_of_leastFirst {places : List Nat}
    (hleast : LeastFirst Created.kept queue places) :
    ∃ next, exec Pump.step (s.startDrain queue) (places.map .pop) = some next := by
  induction hleast generalizing s with
  | stop bag => exact ⟨_, rfl⟩
  | take hplace hfirst _ ih =>
      rw [List.map_cons, exec_cons, startDrain_pop hplace hfirst]
      exact ih

end Pops

/-- However a drain goes, it invokes the tasks that it takes in an order in
which no requested priority goes back. -/
def Pump.DrainsInOrder [DecidableEq T] (s : Pump T φ) (queue : List (Created φ)) : Prop :=
  ∀ places next, exec Pump.step (s.startDrain queue) (places.map .pop) = some next →
    next.invoked = s.invoked ++ (taken queue places).map Created.task ∧
      (taken queue places).Pairwise fun earlier later => earlier.requested ≤ later.requested

/-- Where one task was asked to come before another, it is left with the
smaller number. -/
def PrioritiesKept (queue : List (Created φ)) : Prop :=
  ∀ x ∈ queue, ∀ y ∈ queue, x.requested < y.requested → x.kept < y.kept

theorem drains_in_requested_order_iff [DecidableEq T] (s : Pump T φ) (queue : List (Created φ)) :
    s.DrainsInOrder queue ↔ PrioritiesKept queue := by
  refine Iff.trans ?_ (drains_in_order_iff Created.kept Created.requested queue)
  constructor
  · intro hdrains places hleast
    obtain ⟨next, hrun⟩ := startDrain_of_leastFirst (s := s) hleast
    exact (hdrains places next hrun).2
  · intro hordered places next hrun
    obtain ⟨hleast, hinvoked⟩ := startDrain_run hrun
    exact ⟨hinvoked, hordered places hleast⟩

/-- `CloseRepo` runs before `AppendToPack` when the memory of the latter held
a 3. -/
theorem append_runs_after_close :
    ¬ (Pump.start 1 Nat.one_pos none : Pump (Fin 1) Unit).DrainsInOrder
      [⟨.methodNoReturn () 8 16 .HIGH, 3⟩, ⟨.methodNothing () 8 .LOW, 0⟩] := by
  intro hdrains
  obtain ⟨-, hordered⟩ := hdrains [1, 0] _ rfl
  revert hordered
  decide

end GitRpc.Dispatcher
