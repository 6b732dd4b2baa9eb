import GitRpc.Library.Families
import GitRpc.Library.Uses
import GitRpc.TaskManager.ThreadPool

/-!
The task manager's runners that have a name and a queue of their own.
`InitializeOnCurrentThread` makes one and runs its loop on the caller's
thread, `CreateRunnerOnNewThread` makes one and a thread for its loop, and
`PostNonThreadPoolTask` gives tasks to it, on any number of threads. The first
does not look whether the runner was there before, so that one runner may have
several loops.

The queue and the runner's condition variable have nothing to do with each
other. `pthread_cond_wait` gives up the mutex of the condition variable, which
no caller has locked, and takes it again before it returns, which no caller
undoes; and it may return without a signal.

`NamedRunner.step` takes every call of an operation of the queue, and every look
into it through the pointer to its top, as a single step, although no lock makes
it one. `runnersStep` tells where such a use begins from where it ends.
-/

namespace GitRpc.TaskManager

open Dispatcher Library.TopSlot Library.Uses Library.Families

variable {φ : Type*}

/-- Where a thread is in `InitializeOnCurrentThread`, in front of `PostTask`,
or in `StartTaskRunner`: at the test of the size, in front of `top`, about to
ask whether the task is complete, in `Invoke` before or after the call, in
front of `pop` or of the second test, about to wait, blocked on the condition,
and woken up and on its way back through the mutex. A null task is `none`. -/
inductive LoopAt (φ : Type*) where
  | initializing (initTask : Option (Creation φ)) (memory : Int)
  | testing
  | taking
  | asking (t : Nat)
  | invoking (t : Nat)
  | completing (t : Nat)
  | popping
  | checking
  | entering
  | waiting
  | waking

def LoopAt.isWaiting : LoopAt φ → Bool
  | .waiting => true
  | _ => false

/-- What C++ leaves open: a null task that is read, or a top or a task that is
not there any more. -/
inductive Fault where
  | nullTask
  | lost
  deriving DecidableEq

/-- The runner under one name; `created` says whether there is one. `toSignal`
counts the calls of `PostNonThreadPoolTask` that are between their two lines,
and `m` says whether the mutex is locked. `posted` and `invoked` keep the
history, `initTask` what the call that made the runner was given, and
`initNumber` the place of this task among the posts. -/
structure NamedRunner (φ : Type*) where
  created : Bool
  queue : VectorHeap (Entry φ)
  loops : List (LoopAt φ)
  toSignal : Nat
  m : Bool
  posted : List (Creation φ)
  invoked : List (Nat × Option (Call φ))
  initTask : Option (Creation φ)
  initNumber : Option Nat
  undefined : Option Fault

def NamedRunner.start : NamedRunner φ := ⟨false, .new, [], 0, false, [], [], none, none, none⟩

/-- New tasks are made in memory that holds `memory` where their priority will
be. `run` is the next step of a loop, `pop` its `pop`, after which the entry
`next` comes to the top. `signal` wakes up the loop `i`, if there is one to
wake up. -/
inductive RunnerEvent (φ : Type*) where
  | initializeOnCurrentThread (initTask : Option (Creation φ)) (memory : Int)
  | createRunnerOnNewThread (initTask : Option (Creation φ))
  | postNonThreadPoolTask (creation : Creation φ) (memory : Int)
  | signal (i : Nat)
  | run (i : Nat)
  | pop (i next : Nat)
  | wakeUnasked (i : Nat)

/-- The last line of `Invoke`. -/
def Entry.complete (x : Entry φ) : Entry φ :=
  { x with task := { x.task with isComplete := true } }

namespace NamedRunner

def breaks (s : NamedRunner φ) (fault : Fault) : NamedRunner φ :=
  { s with undefined := some fault }

def goTo (s : NamedRunner φ) (i : Nat) (place : LoopAt φ) : NamedRunner φ :=
  { s with loops := s.loops.set i place }

/-- `Runner::PostTask`. -/
def postTask (s : NamedRunner φ) (creation : Creation φ) (memory : Int) : NamedRunner φ :=
  { s with
    queue := s.queue.push Entry.comesAfter ⟨s.posted.length, creation.create memory⟩
    posted := s.posted ++ [creation] }

/-- The rest of `InitializeOnCurrentThread`. The loop that comes first is that
of the call that has made the runner. -/
def postInitTask (s : NamedRunner φ) (i : Nat) (creation : Creation φ) (memory : Int) :
    NamedRunner φ :=
  { (s.postTask creation memory).goTo i .testing with
    initNumber := if i = 0 then some s.posted.length else s.initNumber }

/-- `StartTaskRunner`, whose loop never ends. -/
def startTaskRunner (s : NamedRunner φ) (i : Nat) : LoopAt φ → Option (NamedRunner φ)
  | .initializing none _ => some (s.breaks .nullTask)
  | .initializing (some creation) memory => some (s.postInitTask i creation memory)
  | .testing => some (s.goTo i (if s.queue.entries.isEmpty then .checking else .taking))
  | .taking =>
      if s.queue.entries.isEmpty then some (s.breaks .lost)
      else some (s.goTo i (.asking s.queue.buffer))
  | .asking t =>
      match s.queue.deref t with
      | none => some (s.breaks .lost)
      | some entry => some (s.goTo i (if !entry.task.isComplete then .invoking t else .popping))
  | .invoking t =>
      match s.queue.deref t with
      | none => some (s.breaks .lost)
      | some entry => some { s.goTo i (.completing t) with
          invoked := s.invoked ++ [(entry.number, entry.task.invoke.1)] }
  | .completing t =>
      match s.queue.deref t with
      | none => some (s.breaks .lost)
      | some _ => some { s.goTo i .popping with queue := s.queue.setTop Entry.complete }
  | .popping => none
  | .checking => some (s.goTo i (if s.queue.entries.isEmpty then .entering else .testing))
  | .entering => some { s.goTo i .waiting with m := false }
  | .waiting => none
  | .waking => if s.m then none else some { s.goTo i .testing with m := true }

/-- `pop` of an empty queue is left open. -/
def queuePop (s : NamedRunner φ) (i next : Nat) : LoopAt φ → Option (NamedRunner φ)
  | .popping =>
      if s.queue.entries.isEmpty then some (s.breaks .lost)
      else (s.queue.pop Entry.comesAfter next).map fun queue =>
        { s.goTo i .checking with queue := queue }
  | _ => none

/-- `pthread_cond_signal`. -/
def signal (s : NamedRunner φ) (i : Nat) : Option (NamedRunner φ) :=
  if s.loops.any LoopAt.isWaiting then
    match s.loops[i]? with
    | some .waiting => some { s.goTo i .waking with toSignal := s.toSignal - 1 }
    | _ => none
  else some { s with toSignal := s.toSignal - 1 }

def wakeUnasked (s : NamedRunner φ) (i : Nat) : LoopAt φ → Option (NamedRunner φ)
  | .waiting => some (s.goTo i .waking)
  | _ => none

/-- A post to a name that is not there ends in the exception of `at`. -/
def step (s : NamedRunner φ) (e : RunnerEvent φ) : Option (NamedRunner φ) :=
  if s.undefined.isSome then none
  else match e with
    | .initializeOnCurrentThread initTask memory => some { s with
        created := true
        loops := s.loops ++ [.initializing initTask memory]
        initTask := if s.created then s.initTask else initTask }
    | .createRunnerOnNewThread initTask =>
        if s.created then some s
        else some { s with created := true, loops := s.loops ++ [.testing], initTask := initTask }
    | .postNonThreadPoolTask creation memory =>
        if s.created then
          some { s.postTask creation memory with toSignal := s.toSignal + 1 }
        else some s
    | .signal i => if s.toSignal = 0 then none else s.signal i
    | .run i => s.loops[i]?.bind (s.startTaskRunner i)
    | .pop i next => s.loops[i]?.bind (s.queuePop i next)
    | .wakeUnasked i => s.loops[i]?.bind (s.wakeUnasked i)

end NamedRunner

/-- What threads share without a lock: the two maps of the task manager, and the
queue of each runner with the tasks in it. -/
inductive Container where
  | runners
  | threads
  | queue (name : String)
  deriving DecidableEq

/-- The pointer that the loop holds. -/
def LoopAt.pointer : LoopAt φ → Option Nat
  | .asking t | .invoking t | .completing t => some t
  | _ => none

/-- Everything a step can be. -/
inductive RunnerStepped (s : NamedRunner φ) : RunnerEvent φ → NamedRunner φ → Prop where
  | takeOver (initTask : Option (Creation φ)) (memory : Int) :
      RunnerStepped s (.initializeOnCurrentThread initTask memory) { s with
        created := true
        loops := s.loops ++ [.initializing initTask memory]
        initTask := if s.created then s.initTask else initTask }
  | create (initTask : Option (Creation φ)) (hnew : s.created = false) :
      RunnerStepped s (.createRunnerOnNewThread initTask)
        { s with created := true, loops := s.loops ++ [.testing], initTask := initTask }
  | exists_ (initTask : Option (Creation φ)) (hcreated : s.created = true) :
      RunnerStepped s (.createRunnerOnNewThread initTask) s
  | post (creation : Creation φ) (memory : Int) (hcreated : s.created = true) :
      RunnerStepped s (.postNonThreadPoolTask creation memory)
        { s.postTask creation memory with toSignal := s.toSignal + 1 }
  | throw_ (creation : Creation φ) (memory : Int) (hnew : s.created = false) :
      RunnerStepped s (.postNonThreadPoolTask creation memory) s
  | signal (i : Nat) (hsome : 0 < s.toSignal) (hwaiting : s.loops[i]? = some .waiting) :
      RunnerStepped s (.signal i) { s.goTo i .waking with toSignal := s.toSignal - 1 }
  | signalNone (i : Nat) (hsome : 0 < s.toSignal)
      (hnone : ∀ place ∈ s.loops, place.isWaiting = false) :
      RunnerStepped s (.signal i) { s with toSignal := s.toSignal - 1 }
  | readNull (i : Nat) (memory : Int) (hat : s.loops[i]? = some (.initializing none memory)) :
      RunnerStepped s (.run i) (s.breaks .nullTask)
  | postInitTask (i : Nat) (creation : Creation φ) (memory : Int)
      (hat : s.loops[i]? = some (.initializing (some creation) memory)) :
      RunnerStepped s (.run i) (s.postInitTask i creation memory)
  | test (i : Nat) (hat : s.loops[i]? = some .testing) :
      RunnerStepped s (.run i) (s.goTo i (if s.queue.entries.isEmpty then .checking else .taking))
  | noTop (i : Nat) (hat : s.loops[i]? = some .taking) (hempty : s.queue.entries = []) :
      RunnerStepped s (.run i) (s.breaks .lost)
  | take (i : Nat) (hat : s.loops[i]? = some .taking) (hsome : s.queue.entries ≠ []) :
      RunnerStepped s (.run i) (s.goTo i (.asking s.queue.buffer))
  | lose (i t : Nat) (place : LoopAt φ) (hat : s.loops[i]? = some place)
      (hholds : place.pointer = some t) (hnone : s.queue.deref t = none) :
      RunnerStepped s (.run i) (s.breaks .lost)
  | ask (i t : Nat) (entry : Entry φ) (hat : s.loops[i]? = some (.asking t))
      (htop : s.queue.deref t = some entry) :
      RunnerStepped s (.run i)
        (s.goTo i (if !entry.task.isComplete then .invoking t else .popping))
  | invoke (i t : Nat) (entry : Entry φ) (hat : s.loops[i]? = some (.invoking t))
      (htop : s.queue.deref t = some entry) :
      RunnerStepped s (.run i) { s.goTo i (.completing t) with
        invoked := s.invoked ++ [(entry.number, entry.task.invoke.1)] }
  | complete (i t : Nat) (entry : Entry φ) (hat : s.loops[i]? = some (.completing t))
      (htop : s.queue.deref t = some entry) :
      RunnerStepped s (.run i) { s.goTo i .popping with queue := s.queue.setTop Entry.complete }
  | check (i : Nat) (hat : s.loops[i]? = some .checking) :
      RunnerStepped s (.run i)
        (s.goTo i (if s.queue.entries.isEmpty then .entering else .testing))
  | enterWait (i : Nat) (hat : s.loops[i]? = some .entering) :
      RunnerStepped s (.run i) { s.goTo i .waiting with m := false }
  | leaveWait (i : Nat) (hat : s.loops[i]? = some .waking) (hfree : s.m = false) :
      RunnerStepped s (.run i) { s.goTo i .testing with m := true }
  | noPop (i next : Nat) (hat : s.loops[i]? = some .popping) (hempty : s.queue.entries = []) :
      RunnerStepped s (.pop i next) (s.breaks .lost)
  | pop (i next : Nat) (popped : VectorHeap (Entry φ)) (hat : s.loops[i]? = some .popping)
      (hpop : s.queue.pop Entry.comesAfter next = some popped) :
      RunnerStepped s (.pop i next) { s.goTo i .checking with queue := popped }
  | wakeUnasked (i : Nat) (hat : s.loops[i]? = some .waiting) :
      RunnerStepped s (.wakeUnasked i) (s.goTo i .waking)

variable {s next : NamedRunner φ} {e : RunnerEvent φ}

theorem startTaskRunner_stepped {i : Nat} {place : LoopAt φ} (hat : s.loops[i]? = some place)
    (hstep : s.startTaskRunner i place = some next) : RunnerStepped s (.run i) next := by
  cases place with
  | initializing initTask memory =>
      cases initTask with
      | none =>
          cases hstep
          exact .readNull i memory hat
      | some creation =>
          cases hstep
          exact .postInitTask i creation memory hat
  | testing =>
      cases hstep
      exact .test i hat
  | taking =>
      simp only [NamedRunner.startTaskRunner] at hstep
      split at hstep
      · rename_i hempty
        cases hstep
        exact .noTop i hat (List.isEmpty_iff.mp hempty)
      · rename_i hsome
        cases hstep
        exact .take i hat fun hempty => hsome (List.isEmpty_iff.mpr hempty)
  | asking t =>
      simp only [NamedRunner.startTaskRunner] at hstep
      split at hstep
      · rename_i hnone
        cases hstep
        exact .lose i t _ hat rfl hnone
      · rename_i entry htop
        cases hstep
        exact .ask i t entry hat htop
  | invoking t =>
      simp only [NamedRunner.startTaskRunner] at hstep
      split at hstep
      · rename_i hnone
        cases hstep
        exact .lose i t _ hat rfl hnone
      · rename_i entry htop
        cases hstep
        exact .invoke i t entry hat htop
  | completing t =>
      simp only [NamedRunner.startTaskRunner] at hstep
      split at hstep
      · rename_i hnone
        cases hstep
        exact .lose i t _ hat rfl hnone
      · rename_i entry htop
        cases hstep
        exact .complete i t entry hat htop
  | popping | waiting => cases hstep
  | checking =>
      cases hstep
      exact .check i hat
  | entering =>
      cases hstep
      exact .enterWait i hat
  | waking =>
      simp only [NamedRunner.startTaskRunner] at hstep
      split at hstep
      · cases hstep
      · rename_i hfree
        cases hstep
        exact .leaveWait i hat (Bool.eq_false_iff.mpr hfree)

theorem queuePop_stepped {i n : Nat} {place : LoopAt φ} (hat : s.loops[i]? = some place)
    (hstep : s.queuePop i n place = some next) : RunnerStepped s (.pop i n) next := by
  cases place with
  | popping =>
      simp only [NamedRunner.queuePop] at hstep
      split at hstep
      · rename_i hempty
        cases hstep
        exact .noPop i n hat (List.isEmpty_iff.mp hempty)
      · obtain ⟨popped, hpop, rfl⟩ := Option.map_eq_some_iff.mp hstep
        exact .pop i n popped hat hpop
  | _ => cases hstep

theorem signal_stepped {i : Nat} (hsome : 0 < s.toSignal) (hstep : s.signal i = some next) :
    RunnerStepped s (.signal i) next := by
  unfold NamedRunner.signal at hstep
  split at hstep
  · split at hstep
    · rename_i hwaiting
      cases hstep
      exact .signal i hsome hwaiting
    · cases hstep
  · rename_i hnone
    cases hstep
    exact .signalNone i hsome (by simpa using hnone)

theorem step_runnerStepped (hstep : s.step e = some next) : RunnerStepped s e next := by
  unfold NamedRunner.step at hstep
  split at hstep
  · cases hstep
  cases e with
  | initializeOnCurrentThread initTask memory =>
      cases hstep
      exact .takeOver initTask memory
  | createRunnerOnNewThread initTask =>
      dsimp only at hstep
      split at hstep
      · rename_i hcreated
        cases hstep
        exact .exists_ initTask hcreated
      · rename_i hnew
        cases hstep
        exact .create initTask (Bool.eq_false_iff.mpr hnew)
  | postNonThreadPoolTask creation memory =>
      dsimp only at hstep
      split at hstep
      · rename_i hcreated
        cases hstep
        exact .post creation memory hcreated
      · rename_i hnew
        cases hstep
        exact .throw_ creation memory (Bool.eq_false_iff.mpr hnew)
  | signal i =>
      dsimp only at hstep
      split at hstep
      · cases hstep
      · rename_i hsome
        exact signal_stepped (Nat.pos_of_ne_zero hsome) hstep
  | run i =>
      obtain ⟨place, hat, hplace⟩ := Option.bind_eq_some_iff.mp hstep
      exact startTaskRunner_stepped hat hplace
  | pop i n =>
      obtain ⟨place, hat, hplace⟩ := Option.bind_eq_some_iff.mp hstep
      exact queuePop_stepped hat hplace
  | wakeUnasked i =>
      obtain ⟨place, hat, hplace⟩ := Option.bind_eq_some_iff.mp hstep
      cases place with
      | waiting =>
          cases hplace
          exact .wakeUnasked i hat
      | _ => cases hplace

end GitRpc.TaskManager
