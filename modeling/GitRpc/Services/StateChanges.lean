import GitRpc.Dispatcher.InFlight
import GitRpc.Library.Histories
import GitRpc.Requests.Calls

/-!
The handlers and Main's pump: `RepoStateChange` posts an OpenRepo or a
CloseRepo task for each of its requests, one request after the other, and
waits for the future of an open only. Threads of the other handlers post
tasks of theirs at any time. Which task Main runs next is decided by the
priorities in the queue, and `Bind` leaves that of an OpenRepo task unset.

The init task of Main is over. The address of the manager and those of the
arguments are made up; none is null.
-/

namespace GitRpc.Services

open Common Dispatcher Repository Requests Library.Runs Library.Histories

/-- What a task on Main's pump calls, with the number of the call to
`RepoProxy` that it was made for. -/
abbrev MainFunction := Nat × RepoProxyCall

/-- The task that `RepoProxy` makes. -/
def proxyTask (number : Nat) : RepoProxyCall → Creation MainFunction
  | .openRepo name => .methodNoReturn (number, .openRepo name) 1 (number + 2) .LOW
  | .closeRepo => .methodNothing (number, .closeRepo) 1 .LOW
  | .packAppend msg => .methodNoReturn (number, .packAppend msg) 1 (number + 2) .HIGH
  | .packCommit => .methodNoReturn (number, .packCommit) 1 (number + 2) .HIGH
  | .createReference request =>
      .methodNoReturn (number, .createReference request) 1 (number + 2) .LOW

def called (task : FreshTask MainFunction) : Option MainFunction := task.1.invoke.1.map Call.f

def ChangesState : RepoProxyCall → Bool
  | .openRepo _ | .closeRepo => true
  | .packAppend _ | .packCommit | .createReference _ => false

/-- The task opens a repository. -/
def Opens (task : FreshTask MainFunction) : Bool :=
  match called task with
  | some (_, .openRepo _) => true
  | _ => false

/-- A task that Main has run. -/
structure MainRun where
  number : Nat
  call : RepoProxyCall
  promise : List Reply
  deriving DecidableEq

/-- The handler thread of `RepoStateChange` posts as `none`, the others as
`some thread`. `handler` is the request it is in the middle of. The last four
fields are a history: the calls to `RepoProxy` by number, the requests that
`RepoStateChange` has taken up, what Main has run, and the replies. -/
structure StateChanges (T : Type*) where
  pump : Pump (Option T) MainFunction
  manager : RepositoryManager
  handler : Option (Nat × RepoStateChangeRequest)
  asked : List RepoProxyCall
  handled : List (Nat × RepoStateChangeRequest)
  ran : List MainRun
  answers : List (Nat × RepoStateChangeRequest × GenericResponse)

variable {T : Type*}

def StateChanges.start (capacity : Nat) (hpositive : 0 < capacity) : StateChanges T :=
  ⟨.start capacity hpositive none, .init, none, [], [], [], []⟩

/-- `changeState` and `ask` take the lock for a post of `RepoStateChange` and
of another handler; `memory` is where the new task is made. `answer` ends
`Read`. `main` is any other step of the pump or of a post. -/
inductive ChangeEvent (T : Type*) where
  | changeState (request : RepoStateChangeRequest) (memory : Int)
  | ask (thread : T) (call : RepoProxyCall) (memory : Int)
  | answer
  | main (e : PumpEvent (Option T) MainFunction)
  | run (index : Nat) (lib : Lib)

namespace StateChanges

/-- The text in the future of a call. -/
def text (s : StateChanges T) (number : Nat) : Option String :=
  (s.ran.find? fun run => run.number = number).bind fun run => TaskResult.text ⟨run.promise, []⟩

def reply (s : StateChanges T) (number : Nat) (request : RepoStateChangeRequest) (err : String) :
    StateChanges T :=
  { s with
    handler := none
    answers := s.answers ++ [(number, request, (RepoStateChange.write err).1)] }

def step [DecidableEq T] (s : StateChanges T) : ChangeEvent T → Option (StateChanges T)
  | .changeState request memory =>
      if s.handler.isNone then
        (s.pump.step (.lockToPost none
          (proxyTask s.asked.length (RepoStateChange.calls request)) memory)).map fun pump =>
            { s with
              pump := pump
              handler := some (s.asked.length, request)
              asked := s.asked ++ [RepoStateChange.calls request]
              handled := s.handled ++ [(s.asked.length, request)] }
      else none
  | .ask thread call memory =>
      if ChangesState call then none
      else
        (s.pump.step (.lockToPost (some thread) (proxyTask s.asked.length call) memory)).map
          fun pump => { s with pump := pump, asked := s.asked ++ [call] }
  | .answer =>
      match s.handler, s.pump.posters none with
      | some (number, request), .idle =>
          if request.newRepoState then (s.text number).map (s.reply number request)
          else some (s.reply number request "success")
      | _, _ => none
  | .main e =>
      if e.Carries then (s.pump.step e).map fun pump => { s with pump := pump } else none
  | .run index lib =>
      match s.pump.step (.pop index), s.pump.taskQueue[index]?.bind called with
      | some pump, some (number, call) =>
          (call.task.run s.manager lib).toOption.map fun outcome =>
            { s with
              pump := pump
              manager := outcome.manager
              ran := s.ran ++ [⟨number, call, outcome.promise⟩] }
      | _, _ => none

end StateChanges

/-- Main runs the close of an earlier request before the open of a later one;
and once an open has been answered "success" there is a repository in the
slot until a close is requested, the one that was named unless another is
opened. -/
structure ChangesInOrder (s : StateChanges T) : Prop where
  ordered : Grounded (fun before run => ∀ name, run.call = .openRepo name →
    ∀ close ∈ s.handled, close.2.newRepoState = false → close.1 < run.number →
      ∃ promise, ⟨close.1, .closeRepo, promise⟩ ∈ before) s.ran
  opened : ∀ number request response, (number, request, response) ∈ s.answers →
    request.newRepoState = true → response.success = true →
    (∀ later ∈ s.handled, number < later.1 → later.2.newRepoState = true) →
    ∃ g, s.manager.currentRepo = some g ∧
      ((∀ later ∈ s.handled, number < later.1 → later.2.repoName = request.repoName) →
        g.name = request.repoName)

/-- When an open is posted, no CloseRepo task is waiting in the queue, or the
memory of the new task holds a number that makes it come last. -/
def ClosesAreDone (s : StateChanges T) : ChangeEvent T → Prop
  | .changeState request memory => request.newRepoState = true →
      2 < memory ∨ ∀ task ∈ s.pump.taskQueue, ∀ number, called task ≠ some (number, .closeRepo)
  | _ => True

theorem called_proxyTask (number : Nat) (call : RepoProxyCall) (memory : Int) :
    called ((proxyTask number call).fresh memory) = some (number, call) := by
  have hinvocable : (proxyTask number call).Invocable := by
    cases call with
    | closeRepo => trivial
    | openRepo | packAppend | packCommit | createReference => exact Nat.succ_ne_zero _
  rw [called, Creation.fresh, Creation.invoke_create hinvocable]
  cases call <;> rfl

theorem opens_iff (task : FreshTask MainFunction) :
    Opens task = true ↔ ∃ number name, called task = some (number, .openRepo name) := by
  unfold Opens
  split
  · rename_i number name hcalled
    simp [hcalled]
  · rename_i hnot
    simpa using hnot

theorem calls_open (request : RepoStateChangeRequest) :
    (request.newRepoState = true ∧ RepoStateChange.calls request = .openRepo request.repoName) ∨
      (request.newRepoState = false ∧ RepoStateChange.calls request = .closeRepo) := by
  unfold RepoStateChange.calls
  cases request.newRepoState <;> simp

/-- The tasks of the other handlers leave the slot to the same repository. -/
theorem otherTask_slot {m : RepositoryManager} {lib : Lib} {call : RepoProxyCall}
    {outcome : Outcome} (hcall : ChangesState call = false)
    (hrun : call.task.run m lib = .ok outcome) {g : GitRepo} (hslot : m.currentRepo = some g) :
    ∃ g', outcome.manager.currentRepo = some g' ∧ g'.name = g.name := by
  cases call with
  | openRepo | closeRepo => cases hcall
  | packAppend msg =>
      obtain ⟨g', wp, hslot', -, rfl⟩ := appendDataToPack_ok hrun
      rw [hslot] at hslot'
      cases hslot'
      exact ⟨_, rfl, rfl⟩
  | packCommit =>
      simp only [RepoProxyCall.task, ManagerTask.run, RepositoryManager.commitPackChanges,
        hslot] at hrun
      obtain ⟨ran, hran, rfl⟩ := finish_ok hrun
      obtain ⟨wp, -, rfl⟩ := packCommit_ok hran
      exact ⟨g, rfl, rfl⟩
  | createReference request =>
      rcases newReference_ok hrun with ⟨hnone, -⟩ | ⟨g', ran, hslot', hran, rfl⟩
      · rw [hslot] at hnone
        cases hnone
      · rw [hslot] at hslot'
        cases hslot'
        exact ⟨_, rfl, by rw [(createReference_ok hran).1]⟩

/-- No close is on its way to Main. -/
def StateChanges.NoClose (s : StateChanges T) : Prop :=
  ∀ task number, s.pump.InFlight task → called task ≠ some (number, .closeRepo)

/-- What stands after every open that Main has run and that no close request
has followed. -/
structure StandsOpen (s : StateChanges T) (number : Nat) (name : String) : Prop where
  noClose : s.NoClose
  slot : ∃ g, s.manager.currentRepo = some g ∧
    ((∀ later ∈ s.handled, number < later.1 → later.2.repoName = name) → g.name = name)

/-- Calls have their numbers, an open in flight is that of the handler's own
request and comes behind every close, and what Main has run is in order. -/
structure ChangesInv (s : StateChanges T) : Prop where
  initTask : s.pump.initTask = none
  program : ∀ task, s.pump.program ≠ .initLocked task
  asked : ∀ task, s.pump.InFlight task →
    ∃ number call, called task = some (number, call) ∧ s.asked[number]? = some call
  closing : ∀ task number, s.pump.InFlight task → called task = some (number, .closeRepo) →
    task.1.taskPriority = 2
  opening : ∀ task number name, s.pump.InFlight task →
    called task = some (number, .openRepo name) →
      (∃ request, s.handler = some (number, request)) ∧ (∀ run ∈ s.ran, run.number ≠ number) ∧
        (2 < task.1.taskPriority ∨ s.NoClose)
  single : s.pump.taskQueue.countP Opens + (s.pump.hand none).countP Opens ≤ 1
  mine : ∀ task, s.pump.posters none = .locked task →
    ∃ number request, s.handler = some (number, request) ∧
      called task = some (number, RepoStateChange.calls request)
  others : ∀ thread task, s.pump.posters (some thread) = .locked task →
    ∀ number call, called task = some (number, call) → ChangesState call = false
  handler : ∀ number request, s.handler = some (number, request) →
    (number, request) ∈ s.handled ∧ ∀ other ∈ s.handled, other.1 ≤ number
  handled : ∀ change ∈ s.handled, s.asked[change.1]? = some (RepoStateChange.calls change.2)
  opens : ∀ number name, s.asked[number]? = some (.openRepo name) →
    ∃ request, (number, request) ∈ s.handled
  ran : ∀ run ∈ s.ran, s.asked[run.number]? = some run.call
  closed : ∀ change ∈ s.handled, change.2.newRepoState = false →
    (∃ promise, ⟨change.1, .closeRepo, promise⟩ ∈ s.ran) ∨
      ∃ task, s.pump.InFlight task ∧ called task = some (change.1, .closeRepo)
  stands : ∀ run ∈ s.ran, ∀ name, run.call = .openRepo name →
    (∀ later ∈ s.handled, run.number < later.1 → later.2.newRepoState = true) →
      StandsOpen s run.number name
  answered : ∀ number request response, (number, request, response) ∈ s.answers →
    request.newRepoState = true →
      ∃ promise, ⟨number, .openRepo request.repoName, promise⟩ ∈ s.ran
  ordered : Grounded (fun before run => ∀ name, run.call = .openRepo name →
    ∀ close ∈ s.handled, close.2.newRepoState = false → close.1 < run.number →
      ∃ promise, ⟨close.1, .closeRepo, promise⟩ ∈ before) s.ran

theorem changesInv_start (capacity : Nat) (hpositive : 0 < capacity) :
    ChangesInv (.start capacity hpositive : StateChanges T) := by
  have hnone : ∀ task, ¬ (StateChanges.start capacity hpositive : StateChanges T).pump.InFlight
      task := by
    rintro task (hmem | ⟨thread, hlocked⟩ | hprogram)
    · cases hmem
    · cases hlocked
    · cases hprogram
  constructor
  case asked => exact fun task h => absurd h (hnone task)
  case closing => exact fun task _ h => absurd h (hnone task)
  case opening => exact fun task _ _ h => absurd h (hnone task)
  case single => exact Nat.zero_le 1
  case ordered => exact grounded_nil _
  all_goals simp [StateChanges.start, Pump.start]

theorem ChangesInv.sound {s : StateChanges T} (h : ChangesInv s) : ChangesInOrder s where
  ordered := h.ordered
  opened := by
    intro number request response hmem hopen _ hlater
    obtain ⟨promise, hran⟩ := h.answered number request response hmem hopen
    exact (h.stands _ hran request.repoName rfl hlater).slot

variable {s next : StateChanges T}

/-- A task in flight does what was asked for under its number. -/
theorem ChangesInv.asked_of_called (h : ChangesInv s) {task : FreshTask MainFunction}
    (hflight : s.pump.InFlight task) {number : Nat} {call : RepoProxyCall}
    (hcalled : called task = some (number, call)) : s.asked[number]? = some call := by
  obtain ⟨number', call', hcalled', hasked⟩ := h.asked task hflight
  rw [hcalled, Option.some.injEq, Prod.mk.injEq] at hcalled'
  rwa [hcalled'.1, hcalled'.2]

/-- A close that has not run yet stays in flight when no task is lost. -/
theorem ChangesInv.closed_kept (h : ChangesInv s) {pump : Pump (Option T) MainFunction}
    (hkept : ∀ task, s.pump.InFlight task → pump.InFlight task)
    {change : Nat × RepoStateChangeRequest} (hmem : change ∈ s.handled)
    (hclosing : change.2.newRepoState = false) :
    (∃ promise, ⟨change.1, .closeRepo, promise⟩ ∈ s.ran) ∨
      ∃ task, pump.InFlight task ∧ called task = some (change.1, .closeRepo) := by
  refine (h.closed change hmem hclosing).imp_right ?_
  rintro ⟨task, hflight, hcalled⟩
  exact ⟨task, hkept task hflight, hcalled⟩

/-- An open moves from the hand of its thread to the queue. -/
theorem ChangesInv.single_main (h : ChangesInv s) {pump : Pump (Option T) MainFunction}
    (hcarried : Carried s.pump pump) :
    pump.taskQueue.countP Opens + (pump.hand none).countP Opens ≤ 1 := by
  have hsingle := h.single
  rcases hcarried.moves with ⟨hqueue, hhand⟩ | ⟨thread, task, hlocked, hqueue, hhand, hrest⟩ |
    ⟨task, hprogram⟩
  · rw [hqueue, hhand]
    exact hsingle
  · rw [hqueue, List.countP_append, List.countP_singleton]
    cases thread with
    | none =>
        rw [hhand, List.countP_nil]
        simp only [Pump.hand, hlocked, List.countP_singleton] at hsingle
        omega
    | some other =>
        have hnot : Opens task = false := by
          by_contra hopens
          rw [Bool.not_eq_false, opens_iff] at hopens
          obtain ⟨number, name, hcalled⟩ := hopens
          cases h.others other task hlocked number _ hcalled
        rw [hrest none (by simp), hnot]
        simpa using hsingle
  · exact absurd hprogram (h.program task)

/-- The pump and the posts go on. -/
theorem ChangesInv.main (h : ChangesInv s) {pump : Pump (Option T) MainFunction}
    (hcarried : Carried s.pump pump) : ChangesInv { s with pump := pump } := by
  have hflight := hcarried.inFlight
  have hclose : s.NoClose → StateChanges.NoClose { s with pump := pump } :=
    fun hnone task number hmem => hnone task number ((hflight task).mp hmem)
  refine ⟨hcarried.initTask.trans h.initTask, ?_, ?_, ?_, ?_, ?_, ?_, ?_, h.handler, h.handled,
    h.opens, h.ran, ?_, ?_, h.answered, h.ordered⟩
  · exact fun task hprogram => h.program task (hcarried.program task hprogram)
  · exact fun task hmem => h.asked task ((hflight task).mp hmem)
  · exact fun task number hmem => h.closing task number ((hflight task).mp hmem)
  · intro task number name hmem hcalled
    obtain ⟨hhandler, hnot, hlast⟩ := h.opening task number name ((hflight task).mp hmem) hcalled
    exact ⟨hhandler, hnot, hlast.imp_right hclose⟩
  · exact h.single_main hcarried
  · exact fun task hlocked => h.mine task (hcarried.posters none task hlocked)
  · exact fun thread task hlocked => h.others thread task (hcarried.posters _ task hlocked)
  · exact fun change => h.closed_kept fun task hold => (hflight task).mpr hold
  · intro run hmem name hopen hlater
    have hstands := h.stands run hmem name hopen hlater
    exact ⟨hclose hstands.noClose, hstands.slot⟩

theorem ChangesInv.ran_lt (h : ChangesInv s) {run : MainRun} (hmem : run ∈ s.ran) :
    run.number < s.asked.length :=
  (List.getElem?_eq_some_iff.mp (h.ran run hmem)).1

theorem ChangesInv.handled_lt (h : ChangesInv s) {change : Nat × RepoStateChangeRequest}
    (hmem : change ∈ s.handled) : change.1 < s.asked.length :=
  (List.getElem?_eq_some_iff.mp (h.handled change hmem)).1

/-- A thread takes the lock to push the task of a new call. -/
theorem ChangesInv.asked_locked [DecidableEq T] (h : ChangesInv s) {poster : Option T}
    {call : RepoProxyCall} {memory : Int} {pump : Pump (Option T) MainFunction}
    (hlock : Locked s.pump pump poster ((proxyTask s.asked.length call).fresh memory))
    (task : FreshTask MainFunction) (hmem : pump.InFlight task) :
    ∃ number other, called task = some (number, other) ∧
      (s.asked ++ [call])[number]? = some other := by
  rcases (hlock.inFlight task).mp hmem with hold | rfl
  · obtain ⟨number, other, hcalled, hasked⟩ := h.asked task hold
    exact ⟨number, other, hcalled, getElem?_append_some hasked _⟩
  · exact ⟨_, _, called_proxyTask _ _ _, List.getElem?_concat_length⟩

/-- A new task that is not a close brings none. -/
theorem StateChanges.NoClose.locked [DecidableEq T] (hnone : s.NoClose) {poster : Option T}
    {number : Nat} {call : RepoProxyCall} {memory : Int} (hcall : call ≠ .closeRepo)
    (hlock : Locked s.pump next.pump poster ((proxyTask number call).fresh memory)) :
    next.NoClose := by
  intro task other hmem
  rcases (hlock.inFlight task).mp hmem with hold | rfl
  · exact hnone task other hold
  · rw [called_proxyTask]
    simp [hcall]

/-- Between two requests no open is on its way. -/
theorem ChangesInv.noOpen_of_free (h : ChangesInv s) (hfree : s.handler = none)
    {task : FreshTask MainFunction} (hmem : s.pump.InFlight task) (number : Nat) (name : String) :
    called task ≠ some (number, .openRepo name) := by
  intro hcalled
  obtain ⟨⟨mine, hmine⟩, -⟩ := h.opening task number name hmem hcalled
  rw [hfree] at hmine
  cases hmine

theorem ChangesInv.opens_queue_of_free (h : ChangesInv s) (hfree : s.handler = none) :
    s.pump.taskQueue.countP Opens = 0 := by
  apply List.countP_eq_zero.mpr
  intro task hmem hopens
  obtain ⟨number, name, hcalled⟩ := (opens_iff task).mp hopens
  exact h.noOpen_of_free hfree (.inl hmem) number name hcalled

/-- A request that comes in now is later than everything Main has run. -/
theorem ChangesInv.ordered_later (h : ChangesInv s) (request : RepoStateChangeRequest) :
    Grounded (fun before run => ∀ name, run.call = .openRepo name →
      ∀ close ∈ s.handled ++ [(s.asked.length, request)], close.2.newRepoState = false →
        close.1 < run.number → ∃ promise, ⟨close.1, .closeRepo, promise⟩ ∈ before) s.ran := by
  intro before run after hsplit name hopen close hmem hclosing hlt
  rcases List.mem_append.mp hmem with hold | hlast
  · exact h.ordered before run after hsplit name hopen close hold hclosing hlt
  · rw [List.mem_singleton.mp hlast] at hlt
    have hmem : run ∈ s.ran := by
      rw [hsplit]
      simp
    have hran := h.ran_lt hmem
    exact absurd hlt (Nat.lt_asymm hran)

/-- A thread of another handler posts. -/
theorem ChangesInv.ask [DecidableEq T] (h : ChangesInv s) {thread : T} {call : RepoProxyCall}
    {memory : Int} {pump : Pump (Option T) MainFunction} (hcall : ChangesState call = false)
    (hlock : Locked s.pump pump (some thread) ((proxyTask s.asked.length call).fresh memory)) :
    ChangesInv { s with pump := pump, asked := s.asked ++ [call] } := by
  have hflight := hlock.inFlight
  have hnew : called ((proxyTask s.asked.length call).fresh memory) = some (s.asked.length, call) :=
    called_proxyTask _ _ _
  have hnotClose : call ≠ .closeRepo := by
    rintro rfl
    cases hcall
  have hnotOpen : ∀ name, call ≠ .openRepo name := by
    rintro name rfl
    cases hcall
  have hclose : s.NoClose →
      StateChanges.NoClose { s with pump := pump, asked := s.asked ++ [call] } :=
    fun hnone => hnone.locked hnotClose hlock
  refine ⟨hlock.initTask.trans h.initTask, ?_, h.asked_locked hlock, ?_, ?_, ?_, ?_, ?_, h.handler,
    ?_, ?_, ?_, ?_, ?_, h.answered, h.ordered⟩
  · exact hlock.program ▸ h.program
  · intro task number hmem hcalled
    rcases (hflight task).mp hmem with hold | rfl
    · exact h.closing task number hold hcalled
    · rw [hnew] at hcalled
      simp [hnotClose] at hcalled
  · intro task number name hmem hcalled
    rcases (hflight task).mp hmem with hold | rfl
    · obtain ⟨hhandler, hnot, hlast⟩ := h.opening task number name hold hcalled
      exact ⟨hhandler, hnot, hlast.imp_right hclose⟩
    · rw [hnew] at hcalled
      simp [hnotOpen] at hcalled
  · rw [hlock.queue, Pump.hand, hlock.posters, Function.update_of_ne (by simp)]
    exact h.single
  · intro task hlocked
    have hlocked' : pump.posters none = .locked task := hlocked
    rw [hlock.posters, Function.update_of_ne (by simp)] at hlocked'
    exact h.mine task hlocked'
  · intro other task hlocked number mine hcalled
    have hlocked' : pump.posters (some other) = .locked task := hlocked
    rw [hlock.posters] at hlocked'
    by_cases hsame : other = thread
    · rw [hsame, Function.update_self] at hlocked'
      cases hlocked'
      rw [hnew, Option.some.injEq, Prod.mk.injEq] at hcalled
      rw [← hcalled.2]
      exact hcall
    · rw [Function.update_of_ne (by simpa using hsame)] at hlocked'
      exact h.others other task hlocked' number mine hcalled
  · exact fun change hmem => getElem?_append_some (h.handled change hmem) _
  · intro number name hopen
    rcases getElem?_concat hopen with hold | ⟨-, hlast⟩
    · exact h.opens number name hold
    · exact absurd hlast (hnotOpen name)
  · exact fun run hmem => getElem?_append_some (h.ran run hmem) _
  · exact fun change => h.closed_kept fun task hold => (hflight task).mpr (.inl hold)
  · intro run hmem name hopen hlater
    have hstands := h.stands run hmem name hopen hlater
    exact ⟨hclose hstands.noClose, hstands.slot⟩

/-- Between two requests there is no close in the hand of a thread, only in
the queue. -/
theorem ChangesInv.noClose_of_queue (h : ChangesInv s)
    (hidle : ∀ task, s.pump.posters none ≠ .locked task)
    (hqueue : ∀ task ∈ s.pump.taskQueue, ∀ number, called task ≠ some (number, .closeRepo)) :
    s.NoClose := by
  rintro task number (hmem | ⟨thread, hlocked⟩ | hprogram)
  · exact hqueue task hmem number
  · cases thread with
    | none => exact absurd hlocked (hidle task)
    | some other =>
        intro hcalled
        cases h.others other task hlocked number _ hcalled
  · exact absurd hprogram (h.program task)

/-- `RepoStateChange` takes up a request and posts its task. -/
theorem ChangesInv.changeState [DecidableEq T] (h : ChangesInv s)
    {request : RepoStateChangeRequest} {memory : Int} {pump : Pump (Option T) MainFunction}
    (hfree : s.handler = none)
    (hcond : ClosesAreDone s (.changeState request memory))
    (hlock : Locked s.pump pump none
      ((proxyTask s.asked.length (RepoStateChange.calls request)).fresh memory)) :
    ChangesInv { s with
      pump := pump
      handler := some (s.asked.length, request)
      asked := s.asked ++ [RepoStateChange.calls request]
      handled := s.handled ++ [(s.asked.length, request)] } := by
  have hflight := hlock.inFlight
  have hnew : called ((proxyTask s.asked.length (RepoStateChange.calls request)).fresh memory) =
      some (s.asked.length, RepoStateChange.calls request) := called_proxyTask _ _ _
  have hclose : request.newRepoState = true → s.NoClose →
      StateChanges.NoClose { s with
        pump := pump
        handler := some (s.asked.length, request)
        asked := s.asked ++ [RepoStateChange.calls request]
        handled := s.handled ++ [(s.asked.length, request)] } := by
    intro hopen hnone
    exact hnone.locked (by simp [RepoStateChange.calls, hopen]) hlock
  refine ⟨hlock.initTask.trans h.initTask, ?_, h.asked_locked hlock, ?_, ?_, ?_, ?_, ?_, ?_, ?_, ?_,
    ?_, ?_, ?_, h.answered, h.ordered_later request⟩
  · exact hlock.program ▸ h.program
  · intro task number hmem hcalled
    rcases (hflight task).mp hmem with hold | rfl
    · exact h.closing task number hold hcalled
    · rw [hnew, Option.some.injEq, Prod.mk.injEq] at hcalled
      rw [hcalled.2]
      rfl
  · intro task number name hmem hcalled
    rcases (hflight task).mp hmem with hold | rfl
    · exact absurd hcalled (h.noOpen_of_free hfree hold number name)
    · rw [hnew, Option.some.injEq, Prod.mk.injEq] at hcalled
      refine ⟨⟨request, by rw [hcalled.1]⟩, fun run hran => ?_, ?_⟩
      · rw [← hcalled.1]
        exact Nat.ne_of_lt (h.ran_lt hran)
      rcases calls_open request with ⟨hopen, -⟩ | ⟨-, hcloses⟩
      · rw [hcalled.2]
        refine (hcond hopen).imp_right fun hqueue => hclose hopen ?_
        exact h.noClose_of_queue (by simp [hlock.idle]) hqueue
      · rw [hcloses] at hcalled
        cases hcalled.2
  · rw [hlock.queue, h.opens_queue_of_free hfree, Pump.hand, hlock.posters, Function.update_self, Nat.zero_add]
    exact List.countP_le_length
  · intro task hlocked
    have hlocked' : pump.posters none = .locked task := hlocked
    rw [hlock.posters, Function.update_self] at hlocked'
    cases hlocked'
    exact ⟨_, _, rfl, hnew⟩
  · intro thread task hlocked
    have hlocked' : pump.posters (some thread) = .locked task := hlocked
    rw [hlock.posters, Function.update_of_ne (by simp)] at hlocked'
    exact h.others thread task hlocked'
  · rintro number mine ⟨⟩
    refine ⟨List.mem_append_right _ (List.mem_singleton_self _), fun other hmem => ?_⟩
    rcases List.mem_append.mp hmem with hold | hlast
    · exact Nat.le_of_lt (h.handled_lt hold)
    · rw [List.mem_singleton.mp hlast]
  · intro change hmem
    rcases List.mem_append.mp hmem with hold | hlast
    · exact getElem?_append_some (h.handled change hold) _
    · rw [List.mem_singleton.mp hlast]
      exact List.getElem?_concat_length
  · intro number name hopen
    rcases getElem?_concat hopen with hold | ⟨rfl, -⟩
    · obtain ⟨mine, hmine⟩ := h.opens number name hold
      exact ⟨mine, List.mem_append_left _ hmine⟩
    · exact ⟨request, List.mem_append_right _ (List.mem_singleton_self _)⟩
  · exact fun run hmem => getElem?_append_some (h.ran run hmem) _
  · intro change hmem hclosing
    rcases List.mem_append.mp hmem with hold | hlast
    · exact h.closed_kept (fun task hflown => (hflight task).mpr (.inl hflown)) hold hclosing
    · rw [List.mem_singleton.mp hlast] at hclosing ⊢
      refine .inr ⟨_, (hflight _).mpr (.inr rfl), ?_⟩
      rw [hnew]
      simp [RepoStateChange.calls, show request.newRepoState = false from hclosing]
  · intro run hmem name hopen hlater
    have hreopens : request.newRepoState = true :=
      hlater _ (List.mem_append_right _ (List.mem_singleton_self _)) (h.ran_lt hmem)
    have hstands := h.stands run hmem name hopen fun later hold =>
      hlater later (List.mem_append_left _ hold)
    obtain ⟨g, hslot, hname⟩ := hstands.slot
    refine ⟨hclose hreopens hstands.noClose, g, hslot, fun hsame => hname fun later hold => ?_⟩
    exact hsame later (List.mem_append_left _ hold)

/-- The handler is through with its request. -/
theorem ChangesInv.reply (h : ChangesInv s) {number : Nat} {request : RepoStateChangeRequest}
    (hhandler : s.handler = some (number, request)) (hidle : s.pump.posters none = .idle)
    (hanswered : request.newRepoState = true →
      ∃ promise, ⟨number, .openRepo request.repoName, promise⟩ ∈ s.ran)
    (hdone : ∀ task name, s.pump.InFlight task → called task ≠ some (number, .openRepo name))
    (err : String) : ChangesInv (s.reply number request err) := by
  refine ⟨h.initTask, h.program, h.asked, h.closing, ?_, h.single, ?_, h.others, ?_, h.handled,
    h.opens, h.ran, h.closed, ?_, ?_, h.ordered⟩
  · intro task number' name hmem hcalled
    obtain ⟨⟨mine, hmine⟩, -⟩ := h.opening task number' name hmem hcalled
    rw [hhandler, Option.some.injEq, Prod.mk.injEq] at hmine
    rw [← hmine.1] at hcalled
    exact absurd hcalled (hdone task name hmem)
  · intro task hlocked
    rw [show s.pump.posters none = .locked task from hlocked] at hidle
    cases hidle
  · rintro number' request' ⟨⟩
  · intro run hmem name hopen hlater
    have hstands := h.stands run hmem name hopen hlater
    exact ⟨hstands.noClose, hstands.slot⟩
  · intro number' request' response hmem hopen
    rcases List.mem_append.mp hmem with hold | hlast
    · exact h.answered number' request' response hold hopen
    · cases List.mem_singleton.mp hlast
      exact hanswered hopen

/-- The open has been run, so no task for it is left. -/
theorem ChangesInv.replyOpen (h : ChangesInv s) {number : Nat} {request : RepoStateChangeRequest}
    (hhandler : s.handler = some (number, request)) (hidle : s.pump.posters none = .idle)
    (hcalls : RepoStateChange.calls request = .openRepo request.repoName) {run : MainRun}
    (hran : run ∈ s.ran) (hnumber : run.number = number) (err : String) :
    ChangesInv (s.reply number request err) := by
  refine h.reply hhandler hidle (fun _ => ⟨run.promise, ?_⟩) ?_ err
  · have hcall := h.ran run hran
    rw [hnumber, h.handled _ (h.handler _ _ hhandler).1, hcalls, Option.some.injEq] at hcall
    rw [hcall, ← hnumber]
    exact hran
  · intro task name hflight hcalled
    exact (h.opening task number name hflight hcalled).2.1 run hran hnumber

/-- No task asks for an open under the number of a close. -/
theorem ChangesInv.replyClose (h : ChangesInv s) {number : Nat} {request : RepoStateChangeRequest}
    (hhandler : s.handler = some (number, request)) (hidle : s.pump.posters none = .idle)
    (hclosing : request.newRepoState = false) (hcalls : RepoStateChange.calls request = .closeRepo)
    (err : String) : ChangesInv (s.reply number request err) := by
  refine h.reply hhandler hidle (by simp [hclosing]) ?_ err
  intro task name hflight hcalled
  have hasked := h.asked_of_called hflight hcalled
  rw [h.handled _ (h.handler _ _ hhandler).1, hcalls] at hasked
  cases hasked

variable {pump : Pump (Option T) MainFunction} {task : FreshTask MainFunction} {number : Nat}

/-- The open that Main pops comes behind every close. -/
theorem ChangesInv.noClose_behind (h : ChangesInv s) (hpop : Popped s.pump pump task)
    {name : String} (hcalled : called task = some (number, .openRepo name))
    (close : FreshTask MainFunction) (hclose : s.pump.InFlight close) (other : Nat) :
    called close ≠ some (other, .closeRepo) := by
  intro hcloses
  obtain ⟨⟨request, hhandler⟩, -, hlast⟩ := h.opening task number name (.inl hpop.mem) hcalled
  rcases hlast with hlast | hnone
  · rcases hclose with hmem | ⟨thread, hlocked⟩ | hprogram
    · have hlow := h.closing close other (.inl hmem) hcloses
      have hfirst := hpop.first close hmem
      simp only [Task.comesAfter, hlow] at hfirst
      omega
    · cases thread with
      | none =>
          -- the thread that posts opens has the open's own request in hand
          obtain ⟨number', request', hhandler', hcalled'⟩ := h.mine close hlocked
          rw [hhandler, Option.some.injEq, Prod.mk.injEq] at hhandler'
          obtain ⟨rfl, rfl⟩ := hhandler'
          have hcall := h.asked_of_called (.inl hpop.mem) hcalled
          rw [h.handled _ (h.handler _ _ hhandler).1, Option.some.injEq] at hcall
          rw [hcloses, hcall] at hcalled'
          cases hcalled'
      | some thread => cases h.others thread close hlocked other _ hcloses
    · exact h.program close hprogram
  · exact hnone close other hclose hcloses

/-- There is no other open in flight. -/
theorem ChangesInv.noOpen_behind (h : ChangesInv s) (hpop : Popped s.pump pump task)
    (hopens : Opens task = true) (other : FreshTask MainFunction) (hmem : pump.InFlight other) :
    Opens other = false := by
  have hsingle := h.single
  rw [← hpop.queue.countP_eq, List.countP_cons_of_pos hopens] at hsingle
  have hqueue : pump.taskQueue.countP Opens = 0 := by omega
  have hhand : (s.pump.hand none).countP Opens = 0 := by omega
  rw [List.countP_eq_zero] at hqueue hhand
  rcases hmem with hmem | ⟨thread, hlocked⟩ | hprogram
  · simpa using hqueue other hmem
  · rw [hpop.posters] at hlocked
    cases thread with
    | none => simpa using hhand other (by simp [Pump.hand, hlocked])
    | some thread =>
        by_contra hopen
        rw [Bool.not_eq_false, opens_iff] at hopen
        obtain ⟨number, name, hcalled⟩ := hopen
        cases h.others thread other hlocked number _ hcalled
  · rw [hpop.program] at hprogram
    exact absurd hprogram (h.program other)

/-- After the task, the repository of every open stands that stood before it. -/
theorem ChangesInv.stands_run (h : ChangesInv s) (hpop : Popped s.pump pump task)
    {call : RepoProxyCall} (hcalled : called task = some (number, call)) {lib : Lib}
    {outcome : Outcome} (hrun : call.task.run s.manager lib = .ok outcome) {run : MainRun}
    {name : String} (hmem : run ∈ s.ran ∨ run.number = number ∧ run.call = call)
    (hopen : run.call = .openRepo name)
    (hlater : ∀ later ∈ s.handled, run.number < later.1 → later.2.newRepoState = true) :
    ∃ g, outcome.manager.currentRepo = some g ∧
      ((∀ later ∈ s.handled, run.number < later.1 → later.2.repoName = name) → g.name = name) := by
  have hcall := h.asked_of_called (.inl hpop.mem) hcalled
  cases hstate : ChangesState call with
  | false =>
      rcases hmem with hran | ⟨-, hsame⟩
      · obtain ⟨g, hslot, hname⟩ := (h.stands run hran name hopen hlater).slot
        obtain ⟨g', hslot', hsame⟩ := otherTask_slot hstate hrun hslot
        exact ⟨g', hslot', fun hall => hsame.trans (hname hall)⟩
      · rw [← hsame, hopen] at hstate
        cases hstate
  | true =>
      cases call with
      | closeRepo =>
          rcases hmem with hran | ⟨-, hsame⟩
          · have hnone := (h.stands run hran name hopen hlater).noClose
            exact absurd hcalled (hnone task number (.inl hpop.mem))
          · rw [hopen] at hsame
            cases hsame
      | openRepo opened =>
          obtain ⟨g, hslot, hname⟩ := openRepo_slot hrun
          refine ⟨g, hslot, fun hall => hname.trans ?_⟩
          obtain ⟨⟨request, hhandler⟩, -, -⟩ := h.opening task number opened (.inl hpop.mem) hcalled
          obtain ⟨hhandled, hlast⟩ := h.handler number request hhandler
          have hcalls := h.handled _ hhandled
          rw [hcall, Option.some.injEq] at hcalls
          have hrepo : opened = request.repoName := by
            rcases calls_open request with ⟨-, hopens⟩ | ⟨-, hcloses⟩
            · rw [hopens] at hcalls
              simpa using hcalls
            · rw [hcloses] at hcalls
              cases hcalls
          rcases hmem with hran | ⟨-, hsame⟩
          · obtain ⟨mine, hmine⟩ := h.opens run.number name (by rw [h.ran run hran, hopen])
            rcases Nat.lt_or_eq_of_le (hlast _ hmine) with hlt | heq
            · rw [hrepo]
              exact hall _ hhandled hlt
            · have hsame := h.ran run hran
              rw [show run.number = number from heq, hcall, hopen] at hsame
              simpa using hsame
          · rw [hopen] at hsame
            simpa using hsame.symm
      | packAppend | packCommit | createReference => cases hstate

/-- Main pops a task and runs it. -/
theorem ChangesInv.run (h : ChangesInv s) (hpop : Popped s.pump pump task) {call : RepoProxyCall}
    (hcalled : called task = some (number, call)) (lib : Lib) {outcome : Outcome}
    (hrun : call.task.run s.manager lib = .ok outcome) :
    ChangesInv { s with
      pump := pump
      manager := outcome.manager
      ran := s.ran ++ [⟨number, call, outcome.promise⟩] } := by
  have hkept := hpop.kept
  have hclose : s.NoClose → ∀ close other, pump.InFlight close →
      called close ≠ some (other, .closeRepo) :=
    fun hnone close other hmem => hnone close other (hkept close hmem)
  have hasked := h.asked_of_called (.inl hpop.mem) hcalled
  refine ⟨hpop.initTask.trans h.initTask, ?_, ?_, ?_, ?_, ?_, ?_, ?_, h.handler, h.handled, h.opens,
    ?_, ?_, ?_, ?_, ?_⟩
  · exact hpop.program ▸ h.program
  · exact fun other hmem => h.asked other (hkept other hmem)
  · exact fun other number' hmem => h.closing other number' (hkept other hmem)
  · intro other number' name hmem hopen
    obtain ⟨hhandler, hnot, hlast⟩ := h.opening other number' name (hkept other hmem) hopen
    refine ⟨hhandler, fun run hran => ?_, hlast.imp_right hclose⟩
    rcases List.mem_append.mp hran with hold | hnew
    · exact hnot run hold
    · rw [List.mem_singleton.mp hnew]
      rintro rfl
      -- the popped task would be that open, and there is no other one
      have hasked' := h.asked_of_called (hkept other hmem) hopen
      rw [hasked, Option.some.injEq] at hasked'
      have hpopped := (opens_iff task).mpr ⟨_, name, by rw [hcalled, hasked']⟩
      have hopens := (opens_iff other).mpr ⟨_, name, hopen⟩
      rw [h.noOpen_behind hpop hpopped other hmem] at hopens
      cases hopens
  · have hsingle := h.single
    rw [← hpop.queue.countP_eq] at hsingle
    have hless := (List.sublist_cons_self task pump.taskQueue).countP_le (p := Opens)
    rw [Pump.hand, hpop.posters]
    exact le_trans (Nat.add_le_add_right hless _) hsingle
  · intro other hlocked
    rw [show pump.posters = s.pump.posters from hpop.posters] at hlocked
    exact h.mine other hlocked
  · intro thread other hlocked
    rw [show pump.posters = s.pump.posters from hpop.posters] at hlocked
    exact h.others thread other hlocked
  · intro run hran
    rcases List.mem_append.mp hran with hold | hnew
    · exact h.ran run hold
    · rw [List.mem_singleton.mp hnew]
      exact hasked
  · intro change hmem hclosing
    rcases h.closed change hmem hclosing with ⟨promise, hran⟩ | ⟨close, hflight, hcloses⟩
    · exact .inl ⟨promise, List.mem_append_left _ hran⟩
    · rcases hpop.left close hflight with rfl | hleft
      · rw [hcalled, Option.some.injEq, Prod.mk.injEq] at hcloses
        obtain ⟨rfl, rfl⟩ := hcloses
        exact .inl ⟨_, List.mem_append_right _ (List.mem_singleton_self _)⟩
      · exact .inr ⟨close, hleft, hcloses⟩
  · intro run hran name hopen hlater
    have hmem : run ∈ s.ran ∨ run.number = number ∧ run.call = call := by
      rcases List.mem_append.mp hran with hold | hnew
      · exact .inl hold
      · rw [List.mem_singleton.mp hnew]
        exact .inr ⟨rfl, rfl⟩
    refine ⟨fun close other hclosing => ?_, h.stands_run hpop hcalled hrun hmem hopen hlater⟩
    rcases hmem with hold | ⟨-, hsame⟩
    · exact hclose (h.stands run hold name hopen hlater).noClose close other hclosing
    · rw [hopen] at hsame
      rw [← hsame] at hcalled
      exact h.noClose_behind hpop hcalled close (hkept close hclosing) other
  · intro number' request response hmem hopen
    obtain ⟨promise, hran⟩ := h.answered number' request response hmem hopen
    exact ⟨promise, List.mem_append_left _ hran⟩
  · refine grounded_append.mpr ⟨h.ordered, ?_⟩
    rw [grounded_cons]
    refine ⟨?_, grounded_nil _⟩
    intro name hopen close hmem hclosing _
    rw [List.append_nil]
    rcases h.closed close hmem hclosing with hran | ⟨other, hflight, hcloses⟩
    · exact hran
    · rw [show call = .openRepo name from hopen] at hcalled
      exact absurd hcloses (h.noClose_behind hpop hcalled other hflight _)

theorem ChangesInv.step [DecidableEq T] (h : ChangesInv s) {e : ChangeEvent T}
    (hcond : ClosesAreDone s e) (hstep : s.step e = some next) : ChangesInv next := by
  cases e with
  | changeState request memory =>
      simp only [StateChanges.step] at hstep
      split at hstep
      · rename_i hfree
        obtain ⟨pump, hpost, rfl⟩ := Option.map_eq_some_iff.mp hstep
        exact h.changeState (Option.isNone_iff_eq_none.mp hfree) hcond (locked_step hpost)
      · cases hstep
  | ask thread call memory =>
      simp only [StateChanges.step] at hstep
      split at hstep
      · cases hstep
      · rename_i hcall
        obtain ⟨pump, hpost, rfl⟩ := Option.map_eq_some_iff.mp hstep
        exact h.ask (Bool.not_eq_true _ ▸ hcall) (locked_step hpost)
  | answer =>
      simp only [StateChanges.step] at hstep
      split at hstep
      · rename_i number request hhandler hidle
        rcases calls_open request with ⟨hopen, hcalls⟩ | ⟨hclosing, hcalls⟩
        · rw [if_pos hopen] at hstep
          obtain ⟨err, htext, rfl⟩ := Option.map_eq_some_iff.mp hstep
          obtain ⟨run, hfind, -⟩ := Option.bind_eq_some_iff.mp htext
          have hnumber : run.number = number := by simpa using List.find?_some hfind
          exact h.replyOpen hhandler hidle hcalls (List.mem_of_find?_eq_some hfind) hnumber err
        · rw [if_neg (by simp [hclosing]), Option.some.injEq] at hstep
          subst hstep
          exact h.replyClose hhandler hidle hclosing hcalls "success"
      · cases hstep
  | main e =>
      simp only [StateChanges.step] at hstep
      split at hstep
      · rename_i hcarries
        obtain ⟨pump, hpump, rfl⟩ := Option.map_eq_some_iff.mp hstep
        exact h.main (carried_step hcarries h.initTask hpump)
      · cases hstep
  | run index lib =>
      simp only [StateChanges.step] at hstep
      split at hstep
      · rename_i pump number call hpump htask
        obtain ⟨task, hindex, hpop⟩ := popped_step hpump
        rw [hindex, Option.bind_some] at htask
        obtain ⟨outcome, hrun, rfl⟩ := toOption_map_eq_some.mp hstep
        exact h.run hpop htask lib hrun
      · cases hstep

/-- Over every run, with any number of other handlers: as long as no open is
posted while a close waits in the queue that it might overtake, closes and
opens are run in the order in which they were requested, and an open that has
been answered stands until a close is requested. -/
theorem changes_in_order [DecidableEq T] (capacity : Nat) (hpositive : 0 < capacity)
    (es : List (ChangeEvent T))
    (hmeet : StepsMeet StateChanges.step ClosesAreDone (.start capacity hpositive) es) :
    Always StateChanges.step (fun _ _ next => ChangesInOrder next) (.start capacity hpositive)
      es := by
  apply always_of_stepsMeet _ (changesInv_start capacity hpositive) hmeet
  intro s e next h hcond hstep
  have hnext := h.step hcond hstep
  exact ⟨hnext, hnext.sound⟩

/-- Main wakes up and takes the lock on the queue. -/
def drain : List (ChangeEvent Unit) := [.main .wake, .main .read, .main .lockToDrain]

/-- A request whose task is made where memory holds 0, up to the end of its
post. -/
def requestChange (open_ : Bool) : List (ChangeEvent Unit) :=
  [.changeState ⟨"new-server", open_⟩ 0, .main (.push none), .main (.write none)]

/-- The close is drained before the open is requested. -/
def closedBeforeOpen : List (ChangeEvent Unit) :=
  .main .begin :: (requestChange false ++ .answer :: drain) ++
    [.run 0 Lib.allOk, .main .unlock, .main .begin] ++
    (requestChange true ++ drain) ++ [.run 0 Lib.allOk, .answer]

theorem changes_in_order_drained :
    Always StateChanges.step (fun _ _ next => ChangesInOrder next) (.start 1 Nat.one_pos)
      closedBeforeOpen := by
  apply changes_in_order
  apply stepsMeet_cons rfl trivial
  apply stepsMeet_cons rfl (by rintro ⟨⟩)
  iterate 9 apply stepsMeet_cons rfl trivial
  apply stepsMeet_cons rfl (fun _ => .inr fun task hmem => by cases hmem)
  iterate 7 apply stepsMeet_cons rfl trivial
  trivial

/-- The open overtakes the close, which has been answered before. -/
theorem open_overtakes_close :
    ¬ Always StateChanges.step (fun _ _ next => ChangesInOrder next) (.start 1 Nat.one_pos)
      (.main .begin :: (requestChange false ++ .answer :: requestChange true) ++ drain ++
        [.run 1 Lib.allOk]) := by
  intro hall
  iterate 11 obtain ⟨-, hall⟩ := hall _ rfl
  obtain ⟨horder, -⟩ := hall _ rfl
  obtain ⟨promise, hbefore⟩ := horder.ordered [] ⟨1, .openRepo "new-server", [.text "success"]⟩ []
    rfl "new-server" rfl (0, ⟨"new-server", false⟩) (by decide) rfl (by decide)
  cases hbefore

end GitRpc.Services
