import GitRpc.Frontend.HttpHandler
import GitRpc.Library.Histories
import GitRpc.Services.GitServiceAsyncImpl

/-!
What becomes of the commands of pushes. Any number of clients push at once;
each goes through `writeReferences` on its own, and all of them share the
service, whose other handlers are at work as well. A reference has a value
from the first successful `git_reference_create` on, or from before.

The calls of `WriteReference` are delivered here. libgit2 is given by what it
answers to the calls of a task, on a repository with certain references.
-/

namespace GitRpc.Frontend

open Common Repository Requests Services Library.Runs Library.Histories Library.Futures

/-- The references of a repository. -/
abbrev References := String → Option String

abbrev Libgit2 := References → Nat → Lib

/-- What is documented of libgit2: `git_reference_create` without `force` does
not overwrite, and an error has a message of its own. -/
structure Libgit2.Documented (libgit2 : Libgit2) : Prop where
  noOverwrite : ∀ refs number refName, (refs refName).isSome →
    (libgit2 refs number (.referenceCreate refName)).errCode ≠ 0
  message : ∀ refs number call, (libgit2 refs number call).errCode ≠ 0 →
    checkForError (libgit2 refs number call) ≠ "success" ∧
      checkForError (libgit2 refs number call) ≠ "Success"

/-- What a change does to the references of all repositories. -/
def applyChange (refs : String → References) (change : Change) : String → References :=
  match change.call with
  | .createReference refName refRev =>
      if change.ok then
        Function.update refs change.repo (Function.update (refs change.repo) refName (some refRev))
      else refs
  | _ => refs

def applyChanges (refs : String → References) (changes : List Change) : String → References :=
  changes.foldl applyChange refs

/-- A task that Main has run, with what it found. -/
structure Execution where
  number : Nat
  call : RepoProxyCall
  slot : Option GitRepo
  refs : String → References
  lib : Lib
  changes : List Change

def Execution.after (x : Execution) : String → References := applyChanges x.refs x.changes

/-- A line of a report: on the command with this index, after the task with
this number. -/
structure ReportLine (κ : Type*) where
  client : κ
  index : Nat
  number : Nat
  line : PktLine

/-- A client in `writeReferences`: how many calls have come back, and whether
it has returned. -/
structure ReferenceLoop where
  index : Nat
  returned : Bool

variable {κ : Type*}

/-- `serving` is the client whose request the handler is in the middle of. The
last two fields are a history. -/
structure Pushes (κ : Type*) where
  service : GitService
  refs : String → References
  serving : Option κ
  clients : κ → ReferenceLoop
  executed : List Execution
  reports : List (ReportLine κ)

def Pushes.start (m : RepositoryManager) (sent : Nat → List ReceivePackRequest)
    (refs : String → References) : Pushes κ :=
  ⟨.start m sent, refs, none, fun _ => ⟨0, false⟩, [], []⟩

/-- A client's next call reaches the handler; the reply reaches the client;
Main runs a task; or another handler goes on. -/
inductive PushesEvent (κ : Type*) where
  | call (client : κ)
  | reply
  | run (index : Nat)
  | other (e : ServiceEvent)

/-- The line that `writeReferences` encodes after a call. -/
def reportLine (ref : String) (status : Status) : PktLine :=
  if status.code = .OK then .line ("ok " ++ strings.trimSuffix ref '\x00' ++ "\n")
  else .line ("ng " ++ strings.trimSuffix ref '\x00' ++ " " ++
    ("rpc error: code = Internal desc = " ++ status.message) ++ "\n")

/-- The event is left to the handlers that no push waits for here. -/
def ElsewhereEvent : ServiceEvent → Bool
  | .writeReference _ | .writeReferenceResume | .run _ => false
  | _ => true

namespace Pushes

/-- What libgit2 answers to the next task that is run. -/
def libs (libgit2 : Libgit2) (s : Pushes κ) : Nat → Lib :=
  libgit2 (s.service.manager.currentRepo.elim (fun _ => none) fun g => s.refs g.name)

def step [DecidableEq κ] (libgit2 : Libgit2) (parsed : κ → ParsedRefs) (s : Pushes κ) :
    PushesEvent κ → Option (Pushes κ)
  | .call client =>
      match (s.clients client).returned, (parsed client).names[(s.clients client).index]? with
      | false, some ref =>
          (s.service.step (s.libs libgit2) (.writeReference
            ⟨"new-server", strings.trimSuffix ref '\x00', (parsed client).refs ref⟩)).map
              fun service => { s with service := service, serving := some client }
      | _, _ => none
  | .reply =>
      match s.serving, s.service.writeReferenceWaits with
      | some client, some (_, number) =>
          match (parsed client).names[(s.clients client).index]?, s.service.text number with
          | some ref, some err =>
              (s.service.step (s.libs libgit2) .writeReferenceResume).map fun service =>
                { s with
                  service := service
                  serving := none
                  clients := Function.update s.clients client
                    ⟨(s.clients client).index + 1, (WriteReference.read err).2.code ≠ .OK⟩
                  reports := s.reports ++ [⟨client, (s.clients client).index, number,
                    reportLine ref (WriteReference.read err).2⟩] }
          | _, _ => none
      | _, _ => none
  | .run index =>
      match s.service.main.pending[index]?, s.service.step (s.libs libgit2) (.run index) with
      | some (number, call), some service =>
          let changes := service.main.results.getLast?.elim [] fun entry => entry.2.2.changes
          some { s with
            service := service
            refs := applyChanges s.refs changes
            executed := s.executed ++ [⟨number, call, s.service.manager.currentRepo, s.refs,
              s.libs libgit2 number, changes⟩] }
      | _, _ => none
  | .other e =>
      if ElsewhereEvent e then
        (s.service.step (s.libs libgit2) e).map fun service => { s with service := service }
      else none

end Pushes

/-- What one step does. -/
inductive PushesStepped [DecidableEq κ] (libgit2 : Libgit2) (parsed : κ → ParsedRefs)
    (s : Pushes κ) : PushesEvent κ → Pushes κ → Prop where
  | call (client : κ) (ref : String) (service : GitService)
      (hgoing : (s.clients client).returned = false)
      (hname : (parsed client).names[(s.clients client).index]? = some ref)
      (hservice : s.service.step (s.libs libgit2) (.writeReference
        ⟨"new-server", strings.trimSuffix ref '\x00', (parsed client).refs ref⟩) = some service) :
      PushesStepped libgit2 parsed s (.call client)
        { s with service := service, serving := some client }
  | reply (client : κ) (request : WriteReferenceRequest) (number : Nat) (ref err : String)
      (service : GitService) (hserving : s.serving = some client)
      (hwaits : s.service.writeReferenceWaits = some (request, number))
      (hname : (parsed client).names[(s.clients client).index]? = some ref)
      (htext : s.service.text number = some err)
      (hservice : s.service.step (s.libs libgit2) .writeReferenceResume = some service) :
      PushesStepped libgit2 parsed s .reply { s with
        service := service
        serving := none
        clients := Function.update s.clients client
          ⟨(s.clients client).index + 1, (WriteReference.read err).2.code ≠ .OK⟩
        reports := s.reports ++ [⟨client, (s.clients client).index, number,
          reportLine ref (WriteReference.read err).2⟩] }
  | run (index number : Nat) (call : RepoProxyCall) (service : GitService)
      (hentry : s.service.main.pending[index]? = some (number, call))
      (hservice : s.service.step (s.libs libgit2) (.run index) = some service) :
      PushesStepped libgit2 parsed s (.run index) { s with
        service := service
        refs := applyChanges s.refs
          (service.main.results.getLast?.elim [] fun entry => entry.2.2.changes)
        executed := s.executed ++ [⟨number, call, s.service.manager.currentRepo, s.refs,
          s.libs libgit2 number,
          service.main.results.getLast?.elim [] fun entry => entry.2.2.changes⟩] }
  | other (e : ServiceEvent) (service : GitService) (helsewhere : ElsewhereEvent e)
      (hservice : s.service.step (s.libs libgit2) e = some service) :
      PushesStepped libgit2 parsed s (.other e) { s with service := service }

theorem step_pushesStepped [DecidableEq κ] {libgit2 : Libgit2} {parsed : κ → ParsedRefs}
    {s next : Pushes κ} {e : PushesEvent κ} (hstep : s.step libgit2 parsed e = some next) :
    PushesStepped libgit2 parsed s e next := by
  cases e with
  | call client =>
      simp only [Pushes.step] at hstep
      split at hstep
      · rename_i ref hgoing hname
        obtain ⟨service, hservice, rfl⟩ := Option.map_eq_some_iff.mp hstep
        exact .call client ref service hgoing hname hservice
      · cases hstep
  | reply =>
      simp only [Pushes.step] at hstep
      split at hstep
      · rename_i client request number hserving hwaits
        split at hstep
        · rename_i ref err hname htext
          obtain ⟨service, hservice, rfl⟩ := Option.map_eq_some_iff.mp hstep
          exact .reply client request number ref err service hserving hwaits hname htext hservice
        · cases hstep
      · cases hstep
  | run index =>
      simp only [Pushes.step] at hstep
      split at hstep
      · rename_i number call service hentry hservice
        cases hstep
        exact .run index number call service hentry hservice
      · cases hstep
  | other e =>
      simp only [Pushes.step] at hstep
      split at hstep
      · rename_i helsewhere
        obtain ⟨service, hservice, rfl⟩ := Option.map_eq_some_iff.mp hstep
        exact .other e service helsewhere hservice
      · cases hstep

/-- The execution is a run of its task, and this is its result. -/
structure Execution.Ran (x : Execution) (libgit2 : Libgit2) (result : TaskResult) : Prop where
  lib : x.lib = libgit2 (x.slot.elim (fun _ => none) fun g => x.refs g.name) x.number
  changes : x.changes = result.changes
  run : ∃ m outcome, m.currentRepo = x.slot ∧ x.call.task.run m x.lib = .ok outcome ∧
    result = ⟨outcome.promise, outcome.changes⟩

section Executions

variable {libgit2 : Libgit2} {x : Execution} {request : WriteReferenceRequest} {result : TaskResult}
  {g : GitRepo} {err : String}

/-- A NewReference task on an open repository. -/
theorem Execution.Ran.createReference (h : x.Ran libgit2 result)
    (hcall : x.call = .createReference request) (hslot : x.slot = some g) :
    ∃ ran, g.createReference x.lib request.refRev request.refName = .ok ran ∧
      result = ⟨[.text ran.ret], ran.changes⟩ := by
  obtain ⟨m, outcome, hm, hrun, rfl⟩ := h.run
  rw [hcall] at hrun
  rcases newReference_ok hrun with ⟨hnone, -⟩ | ⟨g', ran, hslot', hran, rfl⟩
  · rw [hm, hslot] at hnone
    cases hnone
  · rw [hm, hslot] at hslot'
    cases hslot'
    exact ⟨ran, hran, rfl⟩

/-- A reference that exists is refused and left as it is. -/
theorem Execution.Ran.refused (h : x.Ran libgit2 result) (hlib : libgit2.Documented)
    (hcall : x.call = .createReference request) (hslot : x.slot = some g)
    (hexists : (x.refs g.name request.refName).isSome) (htext : result.text = some err) :
    err ≠ "success" ∧ err ≠ "Success" ∧ x.after = x.refs := by
  obtain ⟨ran, hran, rfl⟩ := h.createReference hcall hslot
  obtain rfl : ran.ret = err := by simpa [TaskResult.text] using htext
  have hlib' : x.lib = libgit2 (x.refs g.name) x.number := by rw [h.lib, hslot]; rfl
  have hrefuses : (x.lib (.referenceCreate request.refName)).errCode ≠ 0 := by
    rw [hlib']
    exact hlib.noOverwrite _ _ _ hexists
  have hmessage : ∀ call, (x.lib call).errCode ≠ 0 →
      checkForError (x.lib call) ≠ "success" ∧ checkForError (x.lib call) ≠ "Success" := by
    rw [hlib']
    exact hlib.message _ _
  unfold GitRepo.createReference at hran
  dsimp only at hran
  split at hran
  · rename_i hoid
    cases hran
    obtain ⟨hlow, hhigh⟩ := hmessage _ hoid
    exact ⟨hlow, hhigh, by rw [Execution.after, h.changes]; rfl⟩
  · split at hran
    · cases hran
    · cases hran
      obtain ⟨hlow, hhigh⟩ := hmessage _ hrefuses
      refine ⟨hlow, hhigh, ?_⟩
      rw [Execution.after, h.changes]
      simp [applyChanges, applyChange, hrefuses]

/-- A reference that does not exist is created. -/
theorem Execution.Ran.created (h : x.Ran libgit2 result)
    (hcall : x.call = .createReference request) (hslot : x.slot = some g)
    (haccepted : firstReferenceError x.lib request.refName request.refRev = none)
    (htext : result.text = some err) :
    err = "success" ∧ x.after = Function.update x.refs g.name
      (Function.update (x.refs g.name) request.refName (some request.refRev)) := by
  obtain ⟨ran, hran, rfl⟩ := h.createReference hcall hslot
  obtain rfl : ran.ret = err := by simpa [TaskResult.text] using htext
  obtain ⟨hret, hchanges⟩ := createReference_text hran
  rw [haccepted] at hret
  refine ⟨hret, ?_⟩
  rw [Execution.after, h.changes, hchanges haccepted]
  simp [applyChanges, applyChange]

end Executions

/-- A reported line is the one that `writeReferences` encodes for the result of
the task that was run for the command. -/
structure Reported [DecidableEq κ] (libgit2 : Libgit2) (parsed : κ → ParsedRefs)
    (executed : List Execution) (report : ReportLine κ) (ref : String) (x : Execution)
    (err : String) : Prop where
  name : (parsed report.client).names[report.index]? = some ref
  mem : x ∈ executed
  number : x.number = report.number
  call : x.call = .createReference
    ⟨"new-server", strings.trimSuffix ref '\x00', (parsed report.client).refs ref⟩
  ran : ∃ result, x.Ran libgit2 result ∧ result.text = some err
  line : report.line = reportLine ref (WriteReference.read err).2

/-- Every reference has the value that the tasks run so far have given it, and
what has been reported are the results of tasks. -/
structure PushesInv [DecidableEq κ] (libgit2 : Libgit2) (parsed : κ → ParsedRefs)
    (initial : String → References) (s : Pushes κ) : Prop where
  refs : s.refs = applyChanges initial (s.executed.flatMap Execution.changes)
  history : Grounded (fun past x => x.refs = applyChanges initial (past.flatMap Execution.changes))
    s.executed
  results : ∀ number call result, (number, call, result) ∈ s.service.main.results →
    ∃ x ∈ s.executed, x.number = number ∧ x.call = call ∧ x.Ran libgit2 result
  executed : ∀ x ∈ s.executed, ∃ result, (x.number, x.call, result) ∈ s.service.main.results ∧
    x.Ran libgit2 result
  owed : ∀ number request, s.service.main.Holds number (.createReference request) →
    (∃ report ∈ s.reports, report.number = number) ∨
      ∃ client, s.serving = some client ∧
        s.service.writeReferenceWaits = some (request, number)
  waiting : ∀ client request number, s.serving = some client →
    s.service.writeReferenceWaits = some (request, number) →
      ∃ ref, (parsed client).names[(s.clients client).index]? = some ref ∧
        request = ⟨"new-server", strings.trimSuffix ref '\x00', (parsed client).refs ref⟩ ∧
        s.service.main.Holds number (.createReference request)
  reports : ∀ report ∈ s.reports, ∃ ref x err, Reported libgit2 parsed s.executed report ref x err

theorem pushesInv_start [DecidableEq κ] (libgit2 : Libgit2) (parsed : κ → ParsedRefs)
    (initial : String → References) (m : RepositoryManager)
    (sent : Nat → List ReceivePackRequest) :
    PushesInv libgit2 parsed initial (.start m sent initial) where
  refs := rfl
  history := grounded_nil _
  results := by
    intro number call result hmem
    cases hmem
  executed := by
    intro x hmem
    cases hmem
  owed := by
    rintro number request (hmem | ⟨result, hmem⟩)
    · cases hmem
    · cases hmem
  waiting := by
    intro client request number hserving
    cases hserving
  reports := by
    intro report hmem
    cases hmem

/-- What a step of another handler leaves alone. -/
structure Elsewhere (s next : GitService) : Prop where
  results : next.main.results = s.main.results
  waits : next.writeReferenceWaits = s.writeReferenceWaits
  holds : ∀ number request, next.main.Holds number (.createReference request) ↔
    s.main.Holds number (.createReference request)

theorem elsewhere_post {s next : GitService} {call : RepoProxyCall}
    (hmain : next.main = s.main.post call)
    (hwaits : next.writeReferenceWaits = s.writeReferenceWaits)
    (hcall : ∀ request, call ≠ .createReference request) : Elsewhere s next where
  results := by rw [hmain]; rfl
  waits := hwaits
  holds number request := by
    rw [hmain]
    constructor
    · intro hholds
      rcases hholds.of_post with hold | ⟨-, hnew⟩
      · exact hold
      · exact absurd hnew.symm (hcall request)
    · exact fun hholds => hholds.post call

theorem elsewhere_step {libs : Nat → Lib} {s next : GitService} {e : ServiceEvent}
    (helsewhere : ElsewhereEvent e = true) (hstep : s.step libs e = some next) :
    Elsewhere s next := by
  have hgoOn : ∀ c number, s.goOn c number = some next → Elsewhere s next := by
    intro c number hnext
    obtain ⟨h, -, rfl⟩ := goOn_eq_some hnext
    exact ⟨rfl, rfl, fun _ _ => Iff.rfl⟩
  cases step_stepped hstep with
  | ask op call hfree hcall =>
      refine elsewhere_post rfl rfl ?_
      rintro request rfl
      cases hstatus : op.tag <;> simp [Request.calls, hstatus] at hcall
  | pass op ok _ _ hnext => exact hgoOn _ _ hnext
  | resume op number ret _ _ _ hnext => exact hgoOn _ _ hnext
  | changeState request =>
      refine elsewhere_post rfl rfl fun other => ?_
      unfold RepoStateChange.calls
      split <;> simp
  | answerState => exact ⟨rfl, rfl, fun _ _ => Iff.rfl⟩
  | askReference | answerReference | run => cases helsewhere

section Steps

variable [DecidableEq κ] {libgit2 : Libgit2} {parsed : κ → ParsedRefs}
  {initial : String → References} {s next : Pushes κ}

theorem Reported.mono {executed more : List Execution} {report : ReportLine κ} {ref : String}
    {x : Execution} {err : String} (h : Reported libgit2 parsed executed report ref x err) :
    Reported libgit2 parsed (executed ++ more) report ref x err :=
  ⟨h.name, List.mem_append_left _ h.mem, h.number, h.call, h.ran, h.line⟩

/-- The text that the handler reads comes from a task that was run for the
client's command. -/
theorem PushesInv.answer (h : PushesInv libgit2 parsed initial s) {client : κ}
    {request : WriteReferenceRequest} {number : Nat} {ref err : String}
    (hserving : s.serving = some client)
    (hwaits : s.service.writeReferenceWaits = some (request, number))
    (hname : (parsed client).names[(s.clients client).index]? = some ref)
    (htext : s.service.text number = some err) :
    ∃ x, Reported libgit2 parsed s.executed ⟨client, (s.clients client).index, number,
      reportLine ref (WriteReference.read err).2⟩ ref x err := by
  obtain ⟨ref', hname', rfl, hholds⟩ := h.waiting client request number hserving hwaits
  rw [hname, Option.some.injEq] at hname'
  subst hname'
  obtain ⟨result, hfuture, hresult⟩ := Option.bind_eq_some_iff.mp htext
  obtain ⟨x, hmem, hnumber, hcall, hran⟩ := h.results _ _ _ (hholds.future hfuture)
  exact ⟨x, hname, hmem, hnumber, hcall, ⟨result, hran, hresult⟩, rfl⟩

/-- Main runs a task. -/
theorem PushesInv.run (h : PushesInv libgit2 parsed initial s) {index number : Nat}
    {call : RepoProxyCall} (hentry : s.service.main.pending[index]? = some (number, call))
    {outcome : Outcome}
    (hrun : call.task.run s.service.manager (s.libs libgit2 number) = .ok outcome) :
    PushesInv libgit2 parsed initial { s with
      service := { s.service with
        manager := outcome.manager
        main := s.service.main.complete index (number, call) hentry
          ⟨outcome.promise, outcome.changes⟩ }
      refs := applyChanges s.refs outcome.changes
      executed := s.executed ++ [⟨number, call, s.service.manager.currentRepo, s.refs,
        s.libs libgit2 number, outcome.changes⟩] } where
  refs := by
    rw [h.refs]
    simp [applyChanges]
  history := by
    refine grounded_append.mpr ⟨h.history, grounded_cons.mpr ⟨?_, grounded_nil _⟩⟩
    rw [List.append_nil]
    exact h.refs
  results := by
    intro number' call' result hmem
    rcases List.mem_append.mp hmem with hold | hnew
    · obtain ⟨x, hx, hrest⟩ := h.results number' call' result hold
      exact ⟨x, List.mem_append_left _ hx, hrest⟩
    · cases List.mem_singleton.mp hnew
      refine ⟨_, List.mem_append_right _ (List.mem_singleton_self _), rfl, rfl, rfl, rfl, ?_⟩
      exact ⟨s.service.manager, outcome, rfl, hrun, rfl⟩
  executed := by
    intro x hmem
    rcases List.mem_append.mp hmem with hold | hnew
    · obtain ⟨result, hresult, hran⟩ := h.executed x hold
      exact ⟨result, List.mem_append_left _ hresult, hran⟩
    · rw [List.mem_singleton.mp hnew]
      refine ⟨_, List.mem_append_right _ (List.mem_singleton_self _), rfl, rfl, ?_⟩
      exact ⟨s.service.manager, outcome, rfl, hrun, rfl⟩
  owed := fun number' request hholds => h.owed number' request (hholds.of_complete hentry)
  waiting := by
    intro client request number' hserving hwaits
    obtain ⟨ref, hname, hrequest, hholds⟩ := h.waiting client request number' hserving hwaits
    exact ⟨ref, hname, hrequest, hholds.complete hentry _⟩
  reports := by
    intro report hmem
    obtain ⟨ref, x, err, hreported⟩ := h.reports report hmem
    exact ⟨ref, x, err, hreported.mono⟩

/-- A client calls `WriteReference` for the name that is next. -/
theorem PushesInv.call (h : PushesInv libgit2 parsed initial s) {client : κ} {ref : String}
    (hname : (parsed client).names[(s.clients client).index]? = some ref)
    (hfree : s.service.writeReferenceWaits = none) {request : WriteReferenceRequest}
    (hrequest : request =
      ⟨"new-server", strings.trimSuffix ref '\x00', (parsed client).refs ref⟩) :
    PushesInv libgit2 parsed initial { s with
      service := { s.service with
        main := s.service.main.post (.createReference request)
        writeReferenceWaits := some (request, s.service.main.posted) }
      serving := some client } := by
  refine ⟨h.refs, h.history, h.results, h.executed, ?_, ?_, h.reports⟩
  · intro number other hholds
    rcases hholds.of_post with hold | ⟨rfl, hnew⟩
    · refine (h.owed number other hold).imp_right ?_
      rintro ⟨-, -, hwaits⟩
      rw [hfree] at hwaits
      cases hwaits
    · cases hnew
      exact .inr ⟨client, rfl, rfl⟩
  · rintro client' other number ⟨⟩ ⟨⟩
    exact ⟨ref, hname, hrequest, s.service.main.post_holds _⟩

/-- The handler answers, and the client encodes its line. -/
theorem PushesInv.reply (h : PushesInv libgit2 parsed initial s)
    {request : WriteReferenceRequest} {number : Nat}
    (hwaits : s.service.writeReferenceWaits = some (request, number))
    (answers : List Answer) (clients : κ → ReferenceLoop) {report : ReportLine κ}
    (hnumber : report.number = number) {ref : String} {x : Execution} {err : String}
    (hreported : Reported libgit2 parsed s.executed report ref x err) :
    PushesInv libgit2 parsed initial { s with
      service := { s.service with writeReferenceWaits := none, answers := answers }
      serving := none
      clients := clients
      reports := s.reports ++ [report] } := by
  refine ⟨h.refs, h.history, h.results, h.executed, ?_, ?_, ?_⟩
  · intro number' other hholds
    rcases h.owed number' other hholds with ⟨old, hmem, hold⟩ | ⟨client, -, hwaits'⟩
    · exact .inl ⟨old, List.mem_append_left _ hmem, hold⟩
    · rw [hwaits, Option.some.injEq, Prod.mk.injEq] at hwaits'
      refine .inl ⟨report, List.mem_append_right _ (List.mem_singleton_self _), ?_⟩
      exact hnumber.trans hwaits'.2
  · rintro client other number' ⟨⟩
  · intro other hmem
    rcases List.mem_append.mp hmem with hold | hnew
    · exact h.reports other hold
    · rw [List.mem_singleton.mp hnew]
      exact ⟨ref, x, err, hreported⟩

/-- Another handler takes a step. -/
theorem PushesInv.elsewhere (h : PushesInv libgit2 parsed initial s) {service : GitService}
    (hrest : Elsewhere s.service service) :
    PushesInv libgit2 parsed initial { s with service := service } := by
  obtain ⟨hresults, hwaits, hholds⟩ := hrest
  refine ⟨h.refs, h.history, ?_, ?_, ?_, ?_, h.reports⟩
  · intro number call result hmem
    rw [show service.main.results = _ from hresults] at hmem
    exact h.results number call result hmem
  · intro x hmem
    rw [show service.main.results = _ from hresults]
    exact h.executed x hmem
  · intro number request hmine
    rw [show service.writeReferenceWaits = _ from hwaits]
    exact h.owed number request ((hholds number request).mp hmine)
  · intro client request number hserving hwaiting
    rw [show service.writeReferenceWaits = _ from hwaits] at hwaiting
    obtain ⟨ref, hname, hrequest, hmine⟩ := h.waiting client request number hserving hwaiting
    exact ⟨ref, hname, hrequest, (hholds number _).mpr hmine⟩

theorem PushesInv.step (h : PushesInv libgit2 parsed initial s) {e : PushesEvent κ}
    (hstep : s.step libgit2 parsed e = some next) : PushesInv libgit2 parsed initial next := by
  cases step_pushesStepped hstep with
  | call client ref service hgoing hname hservice =>
      cases step_stepped hservice with
      | askReference request hfree =>
          exact h.call hname hfree rfl
  | reply client request number ref err service hserving hwaits hname htext hservice =>
      obtain ⟨x, hreported⟩ := h.answer hserving hwaits hname htext
      cases step_stepped hservice with
      | answerReference request' number' err' hwaits' htext' =>
          exact h.reply hwaits _ _ rfl hreported
  | run index number call service hentry hservice =>
      cases step_stepped hservice with
      | run _ entry hentry' outcome hrun =>
          obtain rfl := Option.some.inj (hentry.symm.trans hentry')
          have hlast : (s.service.main.results ++
              [(number, call, (⟨outcome.promise, outcome.changes⟩ : TaskResult))]).getLast? =
              some (number, call, ⟨outcome.promise, outcome.changes⟩) := List.getLast?_concat
          simpa [JobQueue.complete, hlast] using h.run hentry hrun
  | other e service helsewhere hservice =>
      exact h.elsewhere (elsewhere_step helsewhere hservice)

/-- What the client's call of `WriteReference` returns. -/
def rpcError (status : Status) : Option RpcError :=
  if status.code = .OK then none
  else some ⟨"rpc error: code = Internal desc = " ++ status.message, fun hok => by
    simpa using congrArg (fun text => text.toList.head?) hok⟩

/-- How far a client is in its loop: the replies it has had, what it has
encoded, and the names that are left. -/
inductive Written (names : List String) :
    List Status → List PktLine → List String → Bool → Prop where
  | start : Written names [] [] names false
  | next {statuses lines ref rest} (status : Status)
      (h : Written names statuses lines (ref :: rest) false) :
      Written names (statuses ++ [status]) (lines ++ [reportLine ref status]) rest
        (status.code ≠ .OK)

/-- The loop of a client is the one of `writeReferences`. -/
theorem Written.writeReferences {names rest : List String} {statuses : List Status}
    {lines : List PktLine} {returned : Bool} (h : Written names statuses lines rest returned)
    {net : Network} (hnet : ∀ i status, statuses[i]? = some status →
      net.writeReference i = rpcError status) (parsedRefs : String → String) (r : Served) :
    ∃ r', r'.output = r.output ++ lines ∧
      if returned then Frontend.writeReferences net parsedRefs 0 names r = r'.changeRepoState false
      else Frontend.writeReferences net parsedRefs 0 names r =
        Frontend.writeReferences net parsedRefs statuses.length rest r' := by
  induction h with
  | start => exact ⟨r, by simp, by simp⟩
  | @next statuses lines ref rest status h ih =>
      obtain ⟨r', houtput, hloop⟩ := ih fun i other hother =>
        hnet i other (getElem?_append_some hother _)
      have hlast := hnet statuses.length status List.getElem?_concat_length
      have hline : r'.output ++ [reportLine ref status] =
          r.output ++ (lines ++ [reportLine ref status]) := by
        rw [houtput, List.append_assoc]
      simp only [Bool.false_eq_true, if_false, Frontend.writeReferences, hlast] at hloop
      by_cases hok : status.code = .OK
      · simp only [rpcError, hok, if_true] at hloop
        refine ⟨_, ?_, by simpa [hok] using hloop⟩
        simpa [Served.encode, reportLine, hok] using hline
      · simp only [rpcError, hok, if_false] at hloop
        refine ⟨_, ?_, by simpa [hok] using hloop⟩
        simpa [Served.encode, reportLine, hok] using hline

/-- The lines of a client, so far. -/
def Pushes.linesOf (s : Pushes κ) (client : κ) : List PktLine :=
  (s.reports.filter fun report => report.client = client).map ReportLine.line

/-- Every client is in its own loop. -/
structure LoopsInv (parsed : κ → ParsedRefs) (s : Pushes κ) : Prop where
  written : ∀ client, ∃ statuses, Written (parsed client).names statuses (s.linesOf client)
    ((parsed client).names.drop (s.clients client).index) (s.clients client).returned
  serving : ∀ client, s.serving = some client → (s.clients client).returned = false

theorem loopsInv_start (parsed : κ → ParsedRefs) (m : RepositoryManager)
    (sent : Nat → List ReceivePackRequest) (initial : String → References) :
    LoopsInv parsed (.start m sent initial) where
  written _ := ⟨[], .start⟩
  serving := by
    intro client hserving
    cases hserving

theorem LoopsInv.step (h : LoopsInv parsed s) {e : PushesEvent κ}
    (hstep : s.step libgit2 parsed e = some next) : LoopsInv parsed next := by
  cases step_pushesStepped hstep with
  | call client ref service hgoing =>
      refine ⟨h.written, ?_⟩
      rintro client' ⟨⟩
      exact hgoing
  | reply client request number ref err service hserving hwaits hname =>
      refine ⟨fun other => ?_, by rintro client' ⟨⟩⟩
      obtain ⟨statuses, hwritten⟩ := h.written other
      by_cases hsame : other = client
      · subst hsame
        obtain ⟨hindex, rfl⟩ := List.getElem?_eq_some_iff.mp hname
        rw [h.serving other hserving, List.drop_eq_getElem_cons hindex] at hwritten
        have hnext := hwritten.next (WriteReference.read err).2
        refine ⟨statuses ++ [(WriteReference.read err).2], ?_⟩
        simpa [Pushes.linesOf] using hnext
      · refine ⟨statuses, ?_⟩
        simpa [Pushes.linesOf, Function.update_of_ne hsame, Ne.symm hsame] using hwritten
  | run => exact ⟨h.written, h.serving⟩
  | other => exact ⟨h.written, h.serving⟩

/-- What a client has written when it is through is what `writeReferences`
writes, given the same replies. -/
theorem linesOf_writeReferences {m : RepositoryManager} {sent : Nat → List ReceivePackRequest}
    (hreach : Reachable (Pushes.step libgit2 parsed) (.start m sent initial) s) (client : κ)
    (hdone : (s.clients client).returned = true ∨
      (parsed client).names.length ≤ (s.clients client).index) :
    ∃ statuses : List Status, ∀ (net : Network) (parsedRefs : String → String) (r : Served),
      (∀ i status, statuses[i]? = some status → net.writeReference i = rpcError status) →
        (writeReferences net parsedRefs 0 (parsed client).names r).output =
          r.output ++ s.linesOf client := by
  have h := hreach.invariant (loopsInv_start parsed m sent initial) fun _ _ _ h hstep => h.step hstep
  obtain ⟨statuses, hwritten⟩ := h.written client
  refine ⟨statuses, fun net parsedRefs r hnet => ?_⟩
  obtain ⟨r', houtput, hloop⟩ := hwritten.writeReferences hnet parsedRefs r
  rw [← houtput]
  split at hloop
  · rw [hloop]
    rfl
  · rename_i hgoing
    rw [hloop, List.drop_eq_nil_of_le (hdone.resolve_left hgoing)]
    rfl

/-- A task that was run for a command has a text, whatever it found. -/
theorem Execution.Ran.text {x : Execution} {result : TaskResult} {request : WriteReferenceRequest}
    (h : x.Ran libgit2 result) (hcall : x.call = .createReference request) :
    ∃ err, result.text = some err := by
  obtain ⟨m, outcome, -, hrun, rfl⟩ := h.run
  rw [hcall] at hrun
  rcases newReference_ok hrun with ⟨-, rfl⟩ | ⟨g, ran, -, -, rfl⟩
  · exact ⟨_, rfl⟩
  · exact ⟨_, rfl⟩

/-- What has been executed for a command is reported next, or has been. -/
theorem PushesInv.reported (h : PushesInv libgit2 parsed initial s) {x : Execution}
    (hmem : x ∈ s.executed) {request : WriteReferenceRequest}
    (hcall : x.call = .createReference request) :
    (∃ report ∈ s.reports, report.number = x.number) ∨
      ∃ next, s.step libgit2 parsed .reply = some next ∧
        ∃ report ∈ next.reports, report.number = x.number := by
  obtain ⟨result, hresult, hran⟩ := h.executed x hmem
  rw [hcall] at hresult
  refine (h.owed x.number request (.inr ⟨result, hresult⟩)).imp_right ?_
  rintro ⟨client, hserving, hwaits⟩
  obtain ⟨ref, hname, -, -⟩ := h.waiting client request x.number hserving hwaits
  obtain ⟨err, herr⟩ := hran.text hcall
  have htext : s.service.text x.number = some err := by
    rw [GitService.text, JobQueue.future_eq_some _ hresult, Option.bind_some, herr]
  obtain ⟨service, hservice⟩ : ∃ service,
      s.service.step (s.libs libgit2) .writeReferenceResume = some service := by
    simp only [GitService.step, hwaits, htext]
    exact ⟨_, rfl⟩
  simp only [Pushes.step, hserving, hwaits, hname, htext, hservice, Option.map_some]
  exact ⟨_, rfl, _, List.mem_append_right _ (List.mem_singleton_self _), rfl⟩

end Steps

/-- What a push gets for a command that was executed on an open repository,
whatever the old id: the reference is created if it does not exist and libgit2
accepts the id, the name and the head, and it is refused if it does. The id
is that of the push's last command for the name; a command with the zero id
for it is left open. -/
structure CreatesOrRefuses (command last : Command) (x : Execution) (g : GitRepo)
    (line : PktLine) : Prop where
  creates : x.refs g.name command.name = none →
    firstReferenceError x.lib command.name last.newId = none →
      x.after = Function.update x.refs g.name
        (Function.update (x.refs g.name) command.name (some last.newId)) ∧
      line = .line ("ok " ++ command.name ++ "\n")
  refuses : (x.refs g.name command.name).isSome →
    x.after = x.refs ∧
      ∃ reason, line = .line ("ng " ++ command.name ++ " " ++ reason ++ "\n")

/-- The references are what the tasks have made of them, every command that
was executed is reported, and every report tells what was done. -/
structure PushesLawful [DecidableEq κ] (libgit2 : Libgit2) (commands : κ → List Command)
    (initial : String → References) (s : Pushes κ) : Prop where
  refs : s.refs = applyChanges initial (s.executed.flatMap Execution.changes)
  history : Grounded (fun past x => x.refs = applyChanges initial (past.flatMap Execution.changes))
    s.executed
  reported : ∀ x ∈ s.executed, ∀ request, x.call = .createReference request →
    (∃ report ∈ s.reports, report.number = x.number) ∨
      ∃ next, s.step libgit2 (fun client => parseCommands ((commands client).map Command.line))
          .reply = some next ∧
        ∃ report ∈ next.reports, report.number = x.number
  lawful : ∀ report ∈ s.reports, ∃ command last x,
    (commands report.client)[report.index]? = some command ∧
      lastFor (commands report.client) command.name = some last ∧
      x ∈ s.executed ∧ x.number = report.number ∧
      x.call = .createReference ⟨"new-server", command.name, last.newId⟩ ∧
      ∀ g, x.slot = some g → last.newId ≠ zeroId →
        CreatesOrRefuses command last x g report.line

theorem lastFor_isSome {commands : List Command} {command : Command} (hmem : command ∈ commands) :
    ∃ last, lastFor commands command.name = some last := by
  apply Option.isSome_iff_exists.mp
  rw [lastFor, List.find?_isSome]
  exact ⟨command, List.mem_reverse.mpr hmem, by simp⟩

/-- The line of a command is what its task has come to. -/
theorem Reported.createsOrRefuses [DecidableEq κ] {libgit2 : Libgit2} (hlib : libgit2.Documented)
    {parsed : κ → ParsedRefs} {executed : List Execution} {report : ReportLine κ} {ref : String}
    {x : Execution} {err : String} (h : Reported libgit2 parsed executed report ref x err)
    {command last : Command} (href : ref = command.name)
    (hlast : (parsed report.client).refs ref = last.newId) {g : GitRepo}
    (hslot : x.slot = some g) : CreatesOrRefuses command last x g report.line := by
  obtain ⟨result, hran, htext⟩ := h.ran
  have hcall := h.call
  rw [hlast, href, trimSuffix_plain command.plain] at hcall
  have hline := h.line
  rw [href, reportLine, trimSuffix_plain command.plain] at hline
  have hcode : (WriteReference.read err).2.code = .OK ↔ err = "success" ∨ err = "Success" := by
    rw [← writeReference_success]
    unfold WriteReference.read
    split
    · exact finishWith_status _ _
    · exact finishWith_status _ _
  constructor
  · intro hnone haccepted
    obtain ⟨hsuccess, hafter⟩ := hran.created hcall hslot haccepted htext
    refine ⟨hafter, ?_⟩
    rw [hline, if_pos (hcode.mpr (.inl hsuccess))]
  · intro hexists
    obtain ⟨hlow, hhigh, hafter⟩ := hran.refused hlib hcall hslot hexists htext
    refine ⟨hafter, "rpc error: code = Internal desc = " ++ (WriteReference.read err).2.message, ?_⟩
    rw [hline, if_neg fun hok => (hcode.mp hok).elim hlow hhigh]

/-- For every repository, any number of pushes and every order of their steps,
with the other handlers at work: a command creates its reference or is
refused, and says which. -/
theorem pushes_create_or_refuse [DecidableEq κ] (libgit2 : Libgit2) (hlib : libgit2.Documented)
    (m : RepositoryManager) (sent : Nat → List ReceivePackRequest)
    (initial : String → References) (commands : κ → List Command) (s : Pushes κ)
    (hreach : Reachable
      (Pushes.step libgit2 fun client => parseCommands ((commands client).map Command.line))
      (.start m sent initial) s) : PushesLawful libgit2 commands initial s := by
  have h := hreach.invariant (pushesInv_start libgit2
    (fun client => parseCommands ((commands client).map Command.line)) initial m sent)
    fun _ _ _ h hstep => h.step hstep
  refine ⟨h.refs, h.history, fun x hmem request hcall => h.reported hmem hcall, ?_⟩
  intro report hmem
  obtain ⟨ref, x, err, hreported⟩ := h.reports report hmem
  obtain ⟨hnames, hrefs⟩ := parseCommands_lines (commands report.client)
  have hname := hreported.name
  rw [hnames, List.getElem?_map] at hname
  obtain ⟨command, hcommand, href⟩ := Option.map_eq_some_iff.mp hname
  obtain ⟨last, hlast⟩ := lastFor_isSome (List.mem_of_getElem? hcommand)
  have hid : (parseCommands ((commands report.client).map Command.line)).refs ref =
      last.newId := by
    rw [hrefs, ← href, hlast]
    rfl
  have hcall := hreported.call
  rw [show (parseCommands ((commands report.client).map Command.line)).refs ref = _ from hid,
    ← href, trimSuffix_plain command.plain] at hcall
  exact ⟨command, last, x, hcommand, hlast, hreported.mem, hreported.number, hcall,
    fun g hslot _ => hreported.createsOrRefuses hlib href.symm hid hslot⟩

/-- libgit2, when nothing else is wrong. -/
def refusesExisting : Libgit2 := fun refs _ call =>
  match call with
  | .referenceCreate refName =>
      if (refs refName).isSome then ⟨-4, some "a reference with that name already exists"⟩
      else ⟨0, none⟩
  | _ => ⟨0, none⟩

theorem refusesExisting_documented : refusesExisting.Documented where
  noOverwrite := by
    intro refs number refName hexists
    simp [refusesExisting, hexists]
  message := by
    intro refs number call herror
    unfold refusesExisting at herror ⊢
    split at herror
    · split at herror
      · rename_i hexists
        simp [hexists, checkForError]
      · exact absurd rfl herror
    · exact absurd rfl herror

/-- The repository "new-server" is open. -/
def openManager : RepositoryManager :=
  ⟨some ⟨"new-server", DEFAULT_REPO_PATH ++ "new-server",
    some ⟨DEFAULT_REPO_PATH ++ "new-server"⟩, some ⟨DEFAULT_REPO_PATH ++ "new-server"⟩,
    some ⟨[]⟩⟩, 0⟩

/-- A new master. -/
def newMaster : Command :=
  ⟨zeroId, "a94a8fe5ccb19ba61c4c0873d391e987982fbbd3", "refs/heads/master", none, by decide,
    by decide⟩

theorem parseCommands_newMaster :
    parseCommands ([newMaster].map Command.line) =
      ⟨["refs/heads/master"], Function.update (fun _ => "") "refs/heads/master"
        "a94a8fe5ccb19ba61c4c0873d391e987982fbbd3"⟩ := by
  simp only [parseCommands, List.map_cons, List.map_nil, List.foldl_cons, List.foldl_nil,
    addLine_line]
  rfl

/-- Two clients push a new master: the first creates it, and the second is
refused. -/
theorem pushes_create_or_refuse_race :
    ∃ s : Pushes (Fin 2),
      s.reports.map ReportLine.line = [.line "ok refs/heads/master\n",
        .line ("ng refs/heads/master rpc error: code = Internal desc = " ++
          "a reference with that name already exists\n")] ∧
      PushesLawful refusesExisting (fun _ => [newMaster]) (fun _ _ => none) s := by
  have hrun : (exec (Pushes.step refusesExisting fun _ : Fin 2 => parseCommands
        ([newMaster].map Command.line)) (.start openManager (fun _ => []) fun _ _ => none)
      [.call 1, .run 0, .reply, .call 0, .run 0, .reply]).map
        (fun s => s.reports.map ReportLine.line) = some [.line "ok refs/heads/master\n",
        .line ("ng refs/heads/master rpc error: code = Internal desc = " ++
          "a reference with that name already exists\n")] := by
    rw [parseCommands_newMaster]
    decide +kernel
  obtain ⟨s, hexec, hlines⟩ := Option.map_eq_some_iff.mp hrun
  refine ⟨s, hlines, ?_⟩
  exact pushes_create_or_refuse refusesExisting refusesExisting_documented openManager (fun _ => [])
    (fun _ _ => none) (fun _ => [newMaster]) s ⟨_, hexec⟩

/-- The old id is that of the reference as it is. -/
def Command.Matches (command : Command) (refs : References) : Prop :=
  refs command.name = if command.oldId = zeroId then none else some command.oldId

/-- What the command asks for: the new id, or to delete the reference. -/
def Command.apply (command : Command) (refs : References) : References :=
  Function.update refs command.name
    (if command.newId = zeroId then none else some command.newId)

/-- What a client may expect that sends the old id along. -/
structure ComparesAndSwaps (command : Command) (x : Execution) (g : GitRepo) (line : PktLine) :
    Prop where
  swaps : command.Matches (x.refs g.name) →
    x.after = Function.update x.refs g.name (command.apply (x.refs g.name)) ∧
      line = .line ("ok " ++ command.name ++ "\n")
  keeps : ¬ command.Matches (x.refs g.name) →
    x.after = x.refs ∧ ∃ reason, line = .line ("ng " ++ command.name ++ " " ++ reason ++ "\n")

/-- The master of "new-server" is to go on by one commit. -/
def nextMaster : Command :=
  ⟨"a94a8fe5ccb19ba61c4c0873d391e987982fbbd3", "de9f2c7fd25e1b3afad3e85a0bd17d9b100db4b3",
    "refs/heads/master", none, by decide, by decide⟩

theorem parseCommands_nextMaster :
    parseCommands ([nextMaster].map Command.line) =
      ⟨["refs/heads/master"], Function.update (fun _ => "") "refs/heads/master"
        "de9f2c7fd25e1b3afad3e85a0bd17d9b100db4b3"⟩ := by
  simp only [parseCommands, List.map_cons, List.map_nil, List.foldl_cons, List.foldl_nil,
    addLine_line]
  rfl

/-- It is pushed where every reference has the id that it starts from. -/
def pushNextMaster (es : List (PushesEvent Unit)) : Option (Pushes Unit) :=
  exec (Pushes.step refusesExisting fun _ => parseCommands ([nextMaster].map Command.line))
    (.start openManager (fun _ => []) fun _ _ => some "a94a8fe5ccb19ba61c4c0873d391e987982fbbd3") es

/-- It is refused, although its old id is right. -/
theorem matching_update_is_refused :
    ¬ ∀ es s, pushNextMaster es = some s → ∀ report ∈ s.reports, ∀ command x g,
      [nextMaster][report.index]? = some command → x ∈ s.executed → x.number = report.number →
        x.slot = some g → ComparesAndSwaps command x g report.line := by
  intro hall
  have hreports : (pushNextMaster [.call (), .run 0, .reply]).map
      (fun s => s.reports.map fun report => (report.index, report.number)) = some [(0, 0)] := by
    rw [pushNextMaster, parseCommands_nextMaster]
    decide +kernel
  have hexecuted : (pushNextMaster [.call (), .run 0, .reply]).map
      (fun s => s.executed.map fun x => (x.number, x.slot.map GitRepo.name,
        x.refs "new-server" "refs/heads/master", x.after "new-server" "refs/heads/master")) =
      some [(0, some "new-server", some "a94a8fe5ccb19ba61c4c0873d391e987982fbbd3",
        some "a94a8fe5ccb19ba61c4c0873d391e987982fbbd3")] := by
    rw [pushNextMaster, parseCommands_nextMaster]
    decide +kernel
  obtain ⟨s, hexec, hreports⟩ := Option.map_eq_some_iff.mp hreports
  rw [hexec, Option.map_some, Option.some.injEq] at hexecuted
  obtain ⟨report, hreport, hmine⟩ := List.map_eq_singleton_iff.mp hreports
  obtain ⟨x, hx, hfound⟩ := List.map_eq_singleton_iff.mp hexecuted
  simp only [Prod.mk.injEq] at hmine hfound
  obtain ⟨hindex, hnumber⟩ := hmine
  obtain ⟨hxnumber, hname, hbefore, hafter⟩ := hfound
  obtain ⟨g, hslot, hgname⟩ := Option.map_eq_some_iff.mp hname
  have hlaw := hall _ s hexec report (by simp [hreport]) nextMaster x g (by rw [hindex]; rfl)
    (by simp [hx]) (hxnumber.trans hnumber.symm) hslot
  have hmatches : nextMaster.Matches (x.refs g.name) := by
    rw [hgname]
    exact hbefore
  have hswapped := congrFun (congrFun (hlaw.swaps hmatches).1 "new-server") "refs/heads/master"
  rw [hafter, hgname, Function.update_self] at hswapped
  have hnext : nextMaster.apply (x.refs "new-server") "refs/heads/master" =
      some "de9f2c7fd25e1b3afad3e85a0bd17d9b100db4b3" := Function.update_self _ _ _
  rw [hnext] at hswapped
  exact absurd hswapped (by decide)

end GitRpc.Frontend
