import GitRpc.Library.Runs
import GitRpc.Library.TopSlot
import GitRpc.Dispatcher.DispatcherTypes

/-!
`TaskManager::ThreadPool` and its runners. `PostThreadPoolTask` pushes a copy
of the task, and then its thread hands out what is on top of the queue until
there is nothing left: it looks for an idle runner, takes a pointer to the top,
gives the pointer to the runner, and pops. Any number of threads may be doing
so. A runner invokes what its pointer points to and waits for a signal; a wait
may also end without one.

The task manager has a `Task` class of its own, which is the dispatcher's but
for a random id that is only logged. `undefined` is set by a step whose
behaviour C++ leaves open, and nothing is said about what comes after it.
-/

namespace GitRpc.TaskManager

open Dispatcher Library.TopSlot

variable {T φ : Type*}

/-- A copy of a posted task, with the place of the post among all posts. -/
structure Entry (φ : Type*) where
  number : Nat
  task : Dispatcher.Task φ

/-- `Task::PriorityComparer`. -/
def Entry.comesAfter (x y : Entry φ) : Prop := x.task.comesAfter y.task

instance (x y : Entry φ) : Decidable (x.comesAfter y) :=
  inferInstanceAs (Decidable (x.task.comesAfter y.task))

/-- Where a runner is in `StartTaskRunner`: it tests `pendingTask`, is in
`Invoke` before or after the call, has yet to clear `inUse`, or to wait. -/
inductive RunnerAt where
  | testing
  | invoking
  | completing (task : Nat)
  | releasing
  | entering
  | waiting
  deriving DecidableEq

/-- `pendingTask` points to the top of the queue, which the runner does not
own. -/
structure Runner where
  inUse : Bool
  pendingTask : Option Nat
  program : RunnerAt
  deriving DecidableEq

def Runner.new : Runner := ⟨false, none, .testing⟩

/-- Where a thread is in `PostThreadPoolTask`, from the test of the loop in
`ExecuteTasks` on; `scanning` is `GetUnusedThread`. -/
inductive Dispatching where
  | outside
  | testing
  | scanning (i : Nat)
  | taking (threadID : Nat)
  | asking (threadID : Nat) (t : Nat)
  | marking (threadID : Nat) (t : Nat)
  | posting (threadID : Nat) (t : Nat)
  | signalling (threadID : Nat)
  | popping
  deriving DecidableEq

/-- A call that a runner has made for a task. -/
structure Invocation (φ : Type*) where
  runner : Nat
  number : Nat
  call : Option (Call φ)
  deriving DecidableEq

/-- `posted` and `invoked` keep the history. -/
structure ThreadPool (T φ : Type*) where
  queue : VectorHeap (Entry φ)
  runners : List Runner
  threads : T → Dispatching
  posted : List (Creation φ)
  invoked : List (Invocation φ)
  undefined : Bool

/-- The size of the pool that `InitializeThreadPool` makes; for 0 it makes none. -/
def poolSize (hardwareConcurrency : Nat) (threadPoolSize : Int) : Nat :=
  if (hardwareConcurrency : Int) < threadPoolSize % 2 ^ 32 ∨ threadPoolSize = -1 then
    hardwareConcurrency
  else threadPoolSize.toNat

/-- After `InitializeThreadPool`. -/
def ThreadPool.start (hardwareConcurrency : Nat) (threadPoolSize : Int) : ThreadPool T φ :=
  ⟨.new, .replicate (poolSize hardwareConcurrency threadPoolSize) .new, fun _ => .outside, [], [],
    false⟩

/-- `post` calls `PostThreadPoolTask`, on a new task in memory that holds
`memory` where the priority will be; `dispatch` is the next step of a thread
that is in there, and `run` of a runner. `next` says which entry comes to the
top if the step is a pop. `wakeUp` ends a wait without a signal. -/
inductive PoolEvent (T φ : Type*) where
  | post (thread : T) (creation : Creation φ) (memory : Int)
  | dispatch (thread : T) (next : Nat)
  | run (i : Nat)
  | wakeUp (i : Nat)

namespace ThreadPool

def breaks (s : ThreadPool T φ) : ThreadPool T φ := { s with undefined := true }

def goTo [DecidableEq T] (s : ThreadPool T φ) (thread : T) (program : Dispatching) :
    ThreadPool T φ :=
  { s with threads := Function.update s.threads thread program }

def setRunner (s : ThreadPool T φ) (i : Nat) (r : Runner) : ThreadPool T φ :=
  { s with runners := s.runners.set i r }

/-- `PostTask`, through the pointer to the pool if there is one. -/
def postTask (s : ThreadPool T φ) (creation : Creation φ) (memory : Int) : ThreadPool T φ :=
  if s.runners.isEmpty then { s with posted := s.posted ++ [creation] }.breaks
  else { s with
    queue := s.queue.push Entry.comesAfter ⟨s.posted.length, creation.create memory⟩
    posted := s.posted ++ [creation] }

/-- `Runner::PostTask`: `reset` deletes what the runner had. -/
def resetPendingTask (s : ThreadPool T φ) (i : Nat) (r : Runner) (t : Nat) : ThreadPool T φ :=
  if r.pendingTask.isSome then s.breaks
  else s.setRunner i { r with pendingTask := some t }

def signal (s : ThreadPool T φ) (i : Nat) (r : Runner) : ThreadPool T φ :=
  if r.program = .waiting then s.setRunner i { r with program := .testing } else s

/-- `QueuePop`. -/
def queuePop (s : ThreadPool T φ) (next : Nat) : Option (ThreadPool T φ) :=
  if s.queue.entries.isEmpty then some s.breaks
  else (s.queue.pop Entry.comesAfter next).map fun queue => { s with queue := queue }

/-- `ExecuteTasks`. What `GetUnusedThread` finds before the loop is not used. -/
def executeTasks [DecidableEq T] (s : ThreadPool T φ) (thread : T) (next : Nat) :
    Option (ThreadPool T φ) :=
  match s.threads thread with
  | .outside => none
  | .testing => some (s.goTo thread (if s.queue.entries.isEmpty then .outside else .scanning 0))
  | .scanning i =>
      match s.runners[i]? with
      | none => some (s.goTo thread .testing)
      | some r =>
          if r.inUse then some (s.goTo thread (.scanning (i + 1)))
          -- 255 stands for no thread
          else if i = 255 then some (s.goTo thread .testing)
          else some (s.goTo thread (.taking i))
  | .taking i =>
      if s.queue.entries.isEmpty then some s.breaks
      else some (s.goTo thread (.asking i s.queue.buffer))
  | .asking i t =>
      match s.queue.deref t with
      | none => some s.breaks
      | some entry =>
          some (s.goTo thread (if !entry.task.isComplete then .marking i t else .popping))
  | .marking i t =>
      s.runners[i]?.map fun r => (s.setRunner i { r with inUse := true }).goTo thread (.posting i t)
  | .posting i t =>
      s.runners[i]?.map fun r => (s.resetPendingTask i r t).goTo thread (.signalling i)
  | .signalling i => s.runners[i]?.map fun r => (s.signal i r).goTo thread .popping
  | .popping => (s.queuePop next).map fun popped => popped.goTo thread .testing

/-- `StartTaskRunner`. -/
def startTaskRunner (s : ThreadPool T φ) (i : Nat) : Option (ThreadPool T φ) :=
  match s.runners[i]? with
  | none => none
  | some r =>
      match r.program with
      | .testing =>
          some (s.setRunner i
            { r with program := if r.pendingTask.isSome then .invoking else .entering })
      | .invoking =>
          match r.pendingTask with
          | none => some s.breaks
          | some t =>
              match s.queue.deref t with
              | none => some s.breaks
              | some entry => some { s.setRunner i { r with program := .completing t } with
                  invoked := s.invoked ++ [⟨i, entry.number, entry.task.invoke.1⟩] }
      | .completing t =>
          match s.queue.deref t with
          | none => some s.breaks
          | some _ => some { s.setRunner i { r with program := .releasing } with
              queue := s.queue.setTop fun entry =>
                { entry with task := { entry.task with isComplete := true } } }
      | .releasing => some (s.setRunner i { r with inUse := false, program := .entering })
      | .entering => some (s.setRunner i { r with program := .waiting })
      | .waiting => none

def step [DecidableEq T] (s : ThreadPool T φ) (e : PoolEvent T φ) : Option (ThreadPool T φ) :=
  if s.undefined then none
  else match e with
    | .post thread creation memory =>
        if s.threads thread = .outside then
          some ((s.postTask creation memory).goTo thread .testing)
        else none
    | .dispatch thread next => s.executeTasks thread next
    | .run i => s.startTaskRunner i
    | .wakeUp i =>
        match s.runners[i]? with
        | none => none
        | some r =>
            if r.program = .waiting then some (s.setRunner i { r with program := .testing })
            else none

/-- Nobody is in `PostThreadPoolTask`, and all runners wait for a signal. -/
def Settled (s : ThreadPool T φ) : Prop :=
  (∀ thread, s.threads thread = .outside) ∧ ∀ r ∈ s.runners, r.program = .waiting

instance [Fintype T] (s : ThreadPool T φ) : Decidable s.Settled :=
  inferInstanceAs (Decidable ((∀ thread, s.threads thread = .outside) ∧
    ∀ r ∈ s.runners, r.program = .waiting))

end ThreadPool

/-- No task is invoked twice or with another's call, and once the pool has
settled every task has been invoked. -/
structure InvokesEachOnce (s : ThreadPool T φ) : Prop where
  defined : s.undefined = false
  own : ∀ invocation ∈ s.invoked, ∃ creation,
    s.posted[invocation.number]? = some creation ∧ invocation.call = some creation.call
  once : (s.invoked.map Invocation.number).Nodup
  settled : s.Settled → ∀ number < s.posted.length, number ∈ s.invoked.map Invocation.number

/-- The thread has asked for the top, and has not popped it yet. -/
def Dispatching.Holds : Dispatching → Prop
  | .asking _ _ | .marking _ _ | .posting _ _ | .signalling _ | .popping => True
  | .outside | .testing | .scanning _ | .taking _ => False

instance (program : Dispatching) : Decidable program.Holds := by
  cases program <;> unfold Dispatching.Holds <;> infer_instance

/-- What the code leaves to the schedule, for a thread: the top is taken when
there is one and nobody else holds it, a runner is given no second task, and
the top is popped after it has been run. -/
def ThreadPool.InTurn (s : ThreadPool T φ) : Dispatching → Prop
  | .taking _ => s.queue.entries ≠ [] ∧ ∀ thread, ¬ (s.threads thread).Holds
  | .posting i _ => ∀ r ∈ s.runners[i]?, r.pendingTask = none
  | .popping => ∀ top ∈ s.queue.entries.head?, top.task.isComplete = true
  | .outside | .testing | .scanning _ | .asking _ _ | .marking _ _ | .signalling _ => True

/-- For all of the pool: there are runners, and no function is given a null
argument; a push puts nothing before the top that somebody holds, and finds
room in the buffer unless the top has been run; and a runner does not wake up
again once it has run the task it was given. -/
def HandsOver (s : ThreadPool T φ) : PoolEvent T φ → Prop
  | .post _ creation memory =>
      s.runners ≠ [] ∧ creation.Invocable ∧ ((∃ thread, (s.threads thread).Holds) →
        s.queue.Keeps Entry.comesAfter ⟨s.posted.length, creation.create memory⟩ ∧
          (s.queue.entries.length < s.queue.capacity ∨
            ∀ top ∈ s.queue.entries.head?, top.task.isComplete = true))
  | .dispatch thread _ => s.InTurn (s.threads thread)
  | .run i => ∀ r ∈ s.runners[i]?, r.program = .testing → r.pendingTask.isSome →
      ∀ invocation ∈ s.invoked, invocation.runner ≠ i
  | .wakeUp _ => True

instance [Fintype T] (s : ThreadPool T φ) (program : Dispatching) :
    Decidable (s.InTurn program) := by
  cases program <;> unfold ThreadPool.InTurn <;> infer_instance

instance [Fintype T] (s : ThreadPool T φ) (e : PoolEvent T φ) : Decidable (HandsOver s e) := by
  cases e <;> unfold HandsOver <;> infer_instance

end GitRpc.TaskManager
