import GitRpc.Library.Registries
import GitRpc.Dispatcher.DispatcherTypes

/-!
The names that `Dispatcher` knows: task runners, threads and message pumps,
each in a map of its own that guards only itself, and the thread ids in a
fourth. Three functions look a receiver up by its name, in three orders.
-/

namespace GitRpc.Threading

open Dispatcher (Pointer nullptr)
open Library.Registries

/-- `pthread_t`. -/
abbrev ThreadID := BitVec 64

structure TaskRunner where
  address : Pointer
  Id : ThreadID
  deriving DecidableEq

structure Thread where
  address : Pointer
  Id : ThreadID
  deriving DecidableEq

structure Dispatcher where
  knownDMPs : String → Option Pointer
  namedThreads : String → Option Thread
  namedDMPs : String → Option TaskRunner
  threadIDs : ThreadID → Option String

inductive Registration where
  | addMessagePump (name : String) (dmp : Pointer) (parentThreadID : BitVec 32)
  | addTaskRunner (name : String) (dmpRef : TaskRunner)
  | addNamedThread (name : String) (threadRef : Thread)

/-- Whose message pump a task is given to. -/
inductive Receiver where
  | runner (r : TaskRunner)
  | thread (t : Thread)
  | pump (dmp : Pointer)
  deriving DecidableEq

namespace Dispatcher

open Function (update)

def new : Dispatcher := ⟨fun _ => none, fun _ => none, fun _ => none, fun _ => none⟩

/-- The id is an `int`, which is converted for the map. -/
def addMessagePump (d : Dispatcher) (name : String) (dmp : Pointer) (parentThreadID : BitVec 32) :
    Dispatcher :=
  match d.knownDMPs name with
  | none => { d with
      knownDMPs := update d.knownDMPs name (some dmp)
      threadIDs := update d.threadIDs (parentThreadID.signExtend 64) (some name) }
  | some _ => d

def addTaskRunner (d : Dispatcher) (name : String) (dmpRef : TaskRunner) : Dispatcher :=
  match d.namedDMPs name with
  | none => { d with
      namedDMPs := update d.namedDMPs name (some dmpRef)
      threadIDs := update d.threadIDs dmpRef.Id (some name) }
  | some _ => d

def addNamedThread (d : Dispatcher) (name : String) (threadRef : Thread) : Dispatcher :=
  match d.namedThreads name with
  | none => { d with
      namedThreads := update d.namedThreads name (some threadRef)
      threadIDs := update d.threadIDs threadRef.Id (some name) }
  | some _ => d

def add (d : Dispatcher) : Registration → Dispatcher
  | .addMessagePump name dmp parentThreadID => d.addMessagePump name dmp parentThreadID
  | .addTaskRunner name dmpRef => d.addTaskRunner name dmpRef
  | .addNamedThread name threadRef => d.addNamedThread name threadRef

def addAll (d : Dispatcher) (cs : List Registration) : Dispatcher := cs.foldl add d

def postTaskToTaskRunner (d : Dispatcher) (name : String) : Option Receiver :=
  (d.namedDMPs name).map .runner

def postTaskToThread (d : Dispatcher) (threadName : String) : Option Receiver :=
  match d.namedThreads threadName with
  | some ref => some (.thread ref)
  | none => d.postTaskToTaskRunner threadName

/-- It returns null for an unknown name. A null pointer can also have been
registered, since nothing looks at a pump when it is added. -/
def getMessagePump (d : Dispatcher) (name : String) : Pointer :=
  (d.knownDMPs name).getD nullptr

def postTask (d : Dispatcher) (receiver : String) : Option Receiver :=
  match d.namedDMPs receiver, d.namedThreads receiver with
  | some runner, _ => some (.runner runner)
  | none, some ref => some (.thread ref)
  | none, none =>
      if d.getMessagePump receiver = nullptr then none
      else some (.pump (d.getMessagePump receiver))

def getThreadId (d : Dispatcher) (name : String) : ThreadID :=
  match d.namedDMPs name, d.namedThreads name with
  | some taskRunner, _ => taskRunner.Id
  | none, some thread => thread.Id
  | none, none => 0

/-- The parameter is an `int`. -/
def getThreadNameFromId (d : Dispatcher) (id : BitVec 32) : String :=
  (d.threadIDs (id.signExtend 64)).getD ""

end Dispatcher

namespace Registration

def name : Registration → String
  | .addMessagePump name _ _ | .addTaskRunner name _ | .addNamedThread name _ => name

def runnerFor (name : String) : Registration → Option TaskRunner
  | .addTaskRunner other dmpRef => if other = name then some dmpRef else none
  | _ => none

def threadFor (name : String) : Registration → Option Thread
  | .addNamedThread other threadRef => if other = name then some threadRef else none
  | _ => none

def pumpFor (name : String) : Registration → Option Pointer
  | .addMessagePump other dmp _ => if other = name then some dmp else none
  | _ => none

end Registration

variable {d : Dispatcher} {cs : List Registration} {name : String}

theorem namedDMPs_add (d : Dispatcher) (c : Registration) (name : String) :
    (d.add c).namedDMPs name = (d.namedDMPs name).or (c.runnerFor name) := by
  cases c with
  | addTaskRunner other dmpRef =>
      rw [Registration.runnerFor, ← enter_or]
      simp only [Dispatcher.add, Dispatcher.addTaskRunner]
      cases d.namedDMPs other <;> rfl
  | addMessagePump other | addNamedThread other =>
      simp only [Dispatcher.add, Dispatcher.addMessagePump, Dispatcher.addNamedThread,
        Registration.runnerFor, Option.or_none]
      split <;> rfl

theorem namedThreads_add (d : Dispatcher) (c : Registration) (name : String) :
    (d.add c).namedThreads name = (d.namedThreads name).or (c.threadFor name) := by
  cases c with
  | addNamedThread other threadRef =>
      rw [Registration.threadFor, ← enter_or]
      simp only [Dispatcher.add, Dispatcher.addNamedThread]
      cases d.namedThreads other <;> rfl
  | addMessagePump | addTaskRunner =>
      simp only [Dispatcher.add, Dispatcher.addMessagePump, Dispatcher.addTaskRunner,
        Registration.threadFor, Option.or_none]
      split <;> rfl

theorem knownDMPs_add (d : Dispatcher) (c : Registration) (name : String) :
    (d.add c).knownDMPs name = (d.knownDMPs name).or (c.pumpFor name) := by
  cases c with
  | addMessagePump other dmp parentThreadID =>
      rw [Registration.pumpFor, ← enter_or]
      simp only [Dispatcher.add, Dispatcher.addMessagePump]
      cases d.knownDMPs other <;> rfl
  | addTaskRunner | addNamedThread =>
      simp only [Dispatcher.add, Dispatcher.addTaskRunner, Dispatcher.addNamedThread,
        Registration.pumpFor, Option.or_none]
      split <;> rfl

/-- Each map has the first that was registered under a name. -/
theorem namedDMPs_addAll (cs : List Registration) (name : String) :
    (Dispatcher.new.addAll cs).namedDMPs name = cs.findSome? (Registration.runnerFor name) := by
  have h := foldl_first (fun d => d.namedDMPs name) (fun d c => namedDMPs_add d c name) .new cs
  rwa [show Dispatcher.new.namedDMPs name = none from rfl, Option.none_or] at h

theorem namedThreads_addAll (cs : List Registration) (name : String) :
    (Dispatcher.new.addAll cs).namedThreads name = cs.findSome? (Registration.threadFor name) := by
  have h := foldl_first (fun d => d.namedThreads name) (fun d c => namedThreads_add d c name) .new cs
  rwa [show Dispatcher.new.namedThreads name = none from rfl, Option.none_or] at h

theorem knownDMPs_addAll (cs : List Registration) (name : String) :
    (Dispatcher.new.addAll cs).knownDMPs name = cs.findSome? (Registration.pumpFor name) := by
  have h := foldl_first (fun d => d.knownDMPs name) (fun d c => knownDMPs_add d c name) .new cs
  rwa [show Dispatcher.new.knownDMPs name = none from rfl, Option.none_or] at h

/-- Both functions that post a task reach the same receiver, or none, and
`GetThreadId` returns the id of a runner or a thread that is reached. -/
structure Agrees (d : Dispatcher) (name : String) : Prop where
  same : d.postTask name = d.postTaskToThread name
  runnerId : ∀ r, d.postTask name = some (.runner r) → d.getThreadId name = r.Id
  threadId : ∀ t, d.postTask name = some (.thread t) → d.getThreadId name = t.Id

/-- Only a message pump is found under the name: `PostTask` reaches it, and
`PostTaskToThread` nothing. -/
structure OnlyPump (d : Dispatcher) (name : String) (dmp : Pointer) : Prop where
  posted : d.postTask name = some (.pump dmp)
  notThread : d.postTaskToThread name = none
  noId : d.getThreadId name = 0

theorem agrees_of_runner {r : TaskRunner} (hrunner : d.namedDMPs name = some r)
    (hthread : d.namedThreads name = none) : Agrees d name := by
  have hpost : d.postTask name = some (.runner r) := by
    simp only [Dispatcher.postTask, hrunner]
  refine ⟨?_, ?_, ?_⟩
  · simp only [hpost, Dispatcher.postTaskToThread, hthread, Dispatcher.postTaskToTaskRunner,
      hrunner, Option.map_some]
  · intro other hother
    cases hpost.symm.trans hother
    simp only [Dispatcher.getThreadId, hrunner]
  · intro t ht
    cases hpost.symm.trans ht

theorem agrees_of_thread {t : Thread} (hrunner : d.namedDMPs name = none)
    (hthread : d.namedThreads name = some t) : Agrees d name := by
  have hpost : d.postTask name = some (.thread t) := by
    simp only [Dispatcher.postTask, hrunner, hthread]
  refine ⟨?_, ?_, ?_⟩
  · simp only [hpost, Dispatcher.postTaskToThread, hthread]
  · intro r hr
    cases hpost.symm.trans hr
  · intro other hother
    cases hpost.symm.trans hother
    simp only [Dispatcher.getThreadId, hrunner, hthread]

theorem onlyPump_of_pump (hrunner : d.namedDMPs name = none)
    (hthread : d.namedThreads name = none) (hpump : d.getMessagePump name ≠ nullptr) :
    OnlyPump d name (d.getMessagePump name) := by
  refine ⟨?_, ?_, ?_⟩
  · simp only [Dispatcher.postTask, hrunner, hthread, if_neg hpump]
  · simp only [Dispatcher.postTaskToThread, Dispatcher.postTaskToTaskRunner, hrunner, hthread,
      Option.map_none]
  · simp only [Dispatcher.getThreadId, hrunner, hthread]

theorem agrees_of_none (hrunner : d.namedDMPs name = none) (hthread : d.namedThreads name = none)
    (hpump : d.getMessagePump name = nullptr) : Agrees d name := by
  have hpost : d.postTask name = none := by
    simp only [Dispatcher.postTask, hrunner, hthread, if_pos hpump]
  refine ⟨?_, ?_, ?_⟩
  · simp only [hpost, Dispatcher.postTaskToThread, Dispatcher.postTaskToTaskRunner, hrunner,
      hthread, Option.map_none]
  · intro r hr
    cases hpost.symm.trans hr
  · intro t ht
    cases hpost.symm.trans ht

namespace Registration

def RunnerAdded (cs : List Registration) (name : String) : Prop :=
  ∃ dmpRef, .addTaskRunner name dmpRef ∈ cs

def ThreadAdded (cs : List Registration) (name : String) : Prop :=
  ∃ threadRef, .addNamedThread name threadRef ∈ cs

def PumpAdded (cs : List Registration) (name : String) : Prop :=
  ∃ dmp parentThreadID, .addMessagePump name dmp parentThreadID ∈ cs

end Registration

open Registration

theorem namedDMPs_eq_none_iff :
    (Dispatcher.new.addAll cs).namedDMPs name = none ↔ ¬ RunnerAdded cs name := by
  rw [namedDMPs_addAll]
  apply findSome?_eq_none_iff
  intro c
  cases c with
  | addTaskRunner other =>
      rcases eq_or_ne other name with rfl | hne
      · simp [runnerFor]
      · simp [runnerFor, hne]
  | _ => simp [runnerFor]

theorem namedThreads_eq_none_iff :
    (Dispatcher.new.addAll cs).namedThreads name = none ↔ ¬ ThreadAdded cs name := by
  rw [namedThreads_addAll]
  apply findSome?_eq_none_iff
  intro c
  cases c with
  | addNamedThread other =>
      rcases eq_or_ne other name with rfl | hne
      · simp [threadFor]
      · simp [threadFor, hne]
  | _ => simp [threadFor]

theorem knownDMPs_eq_none_iff :
    (Dispatcher.new.addAll cs).knownDMPs name = none ↔ ¬ PumpAdded cs name := by
  have hadded : PumpAdded cs name ↔
      ∃ i : Pointer × BitVec 32, .addMessagePump name i.1 i.2 ∈ cs := by
    rw [PumpAdded, Prod.exists]
  rw [knownDMPs_addAll, hadded]
  apply findSome?_eq_none_iff
  intro c
  cases c with
  | addMessagePump other =>
      rcases eq_or_ne other name with rfl | hne
      · simp [pumpFor]
      · simp [pumpFor, hne]
  | _ => simp [pumpFor]

/-- For every sequence of registrations, under a name that is not both a
runner's and a thread's: a raw message pump is reached by `PostTask` alone, and
it is the first that was registered. If that one is null, nothing is reached. -/
theorem receivers_agree (cs : List Registration) (name : String)
    (hone : ¬ (RunnerAdded cs name ∧ ThreadAdded cs name)) :
    (RunnerAdded cs name ∨ ThreadAdded cs name ∨ ¬ PumpAdded cs name →
      Agrees (Dispatcher.new.addAll cs) name) ∧
    (¬ RunnerAdded cs name → ¬ ThreadAdded cs name → PumpAdded cs name →
      ∃ dmp, cs.findSome? (pumpFor name) = some dmp ∧
        (dmp ≠ nullptr → OnlyPump (Dispatcher.new.addAll cs) name dmp) ∧
        (dmp = nullptr → Agrees (Dispatcher.new.addAll cs) name)) := by
  constructor
  · intro hknown
    cases hrunner : (Dispatcher.new.addAll cs).namedDMPs name with
    | some r =>
        have hadded : RunnerAdded cs name := by
          by_contra hnot
          rw [namedDMPs_eq_none_iff.mpr hnot] at hrunner
          cases hrunner
        exact agrees_of_runner hrunner (namedThreads_eq_none_iff.mpr fun hthread =>
          hone ⟨hadded, hthread⟩)
    | none =>
        cases hthread : (Dispatcher.new.addAll cs).namedThreads name with
        | some t => exact agrees_of_thread hrunner hthread
        | none =>
            have hnot := (hknown.resolve_left (namedDMPs_eq_none_iff.mp hrunner)).resolve_left
              (namedThreads_eq_none_iff.mp hthread)
            have hpump : (Dispatcher.new.addAll cs).getMessagePump name = nullptr := by
              rw [Dispatcher.getMessagePump, knownDMPs_eq_none_iff.mpr hnot, Option.getD_none]
            exact agrees_of_none hrunner hthread hpump
  · intro hrunner hthread hadded
    have hnoRunner := namedDMPs_eq_none_iff.mpr hrunner
    have hnoThread := namedThreads_eq_none_iff.mpr hthread
    cases hfound : (Dispatcher.new.addAll cs).knownDMPs name with
    | none => exact absurd hadded (knownDMPs_eq_none_iff.mp hfound)
    | some dmp =>
        have hpump : (Dispatcher.new.addAll cs).getMessagePump name = dmp := by
          rw [Dispatcher.getMessagePump, hfound, Option.getD_some]
        refine ⟨dmp, (knownDMPs_addAll cs name).symm.trans hfound, ?_, ?_⟩
        · intro hne
          rw [← hpump] at hne ⊢
          exact onlyPump_of_pump hnoRunner hnoThread hne
        · rintro rfl
          exact agrees_of_none hnoRunner hnoThread hpump

/-- A runner and the pump of another thread. -/
def twoReceivers : List Registration :=
  [.addTaskRunner "main" ⟨1, 0x7f00deadb700⟩, .addMessagePump "io" 2 4711]

theorem main_runner_agrees :
    Agrees (Dispatcher.new.addAll twoReceivers) "main" ∧
      OnlyPump (Dispatcher.new.addAll twoReceivers) "io" 2 := by
  constructor
  · exact (receivers_agree twoReceivers "main" (by rintro ⟨-, t, ht⟩; simp [twoReceivers] at ht)).1
      (.inl ⟨_, List.mem_cons_self⟩)
  · obtain ⟨dmp, hfirst, honly, -⟩ :=
      (receivers_agree twoReceivers "io" (by rintro ⟨-, t, ht⟩; simp [twoReceivers] at ht)).2
        (by rintro ⟨r, hr⟩; simp [twoReceivers] at hr)
        (by rintro ⟨t, ht⟩; simp [twoReceivers] at ht) ⟨2, 4711, by simp [twoReceivers]⟩
    cases hfirst
    exact honly (Nat.succ_ne_zero 1)

/-- Only `PostTask` reaches a raw pump; and under the name of a runner and a
thread, the two functions reach one each. -/
theorem receivers_differ :
    ¬ Agrees (Dispatcher.new.addAll [.addMessagePump "io" 2 4711]) "io" ∧
      ¬ Agrees (Dispatcher.new.addAll
        [.addTaskRunner "main" ⟨1, 5⟩, .addNamedThread "main" ⟨3, 7⟩]) "main" := by
  constructor
  · intro h
    have hsame := h.same
    revert hsame
    decide
  · intro h
    have hsame := h.same
    revert hsame
    decide

end GitRpc.Threading
