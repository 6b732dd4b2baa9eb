import GitRpc.Library.Futures
import GitRpc.Requests.Calls

/-!
The service as `GitServiceAsyncImpl` puts it together: three handler threads,
each of which posts a task to Main, waits for its future, and goes on; and
Main, which runs the tasks that were posted, one at a time.

Main runs them in no fixed order here, since the pump's queue compares tasks
by fields that not every `Bind` sets. What libgit2 answers to the calls of a
task is given with the task's number. The accept, reply and delete steps of a
single request are left out, and so is `ListRefRequests`, whose thread does
nothing.
-/

namespace GitRpc.Services

open Common Repository Requests Library.Runs Library.Futures

/-- A reply to a request that names a repository, with the number of the task
that was posted for the request. -/
structure Answer where
  number : Option Nat
  call : RepoProxyCall
  reply : GenericResponse
  deriving DecidableEq

/-- A handler that waits keeps what it goes on with, and a task's number. -/
structure GitService where
  manager : RepositoryManager
  main : JobQueue RepoProxyCall TaskResult
  recvPack : Handler
  recvPackWaits : Option (Op × Nat)
  writeReferenceWaits : Option (WriteReferenceRequest × Nat)
  repoStateWaits : Option (RepoStateChangeRequest × Nat)
  answers : List Answer

def GitService.start (manager : RepositoryManager)
    (sent : Nat → List ReceivePackRequest) : GitService :=
  ⟨manager, .empty, .init sent, none, none, none, []⟩

def GitService.init (sent : Nat → List ReceivePackRequest) : GitService := .start .init sent

/-- In the first two events a completion is taken off the queue of streams,
and the handler goes on with one when its future is ready; then the same for
the other two handlers. Main runs one of the tasks that wait. -/
inductive ServiceEvent where
  | recvPack (op : Op) (ok : Bool)
  | recvPackResume
  | writeReference (request : WriteReferenceRequest)
  | writeReferenceResume
  | changeRepoState (request : RepoStateChangeRequest)
  | changeRepoStateResume
  | run (index : Nat)

/-- The text that is readable in the future of a task. -/
def GitService.text (s : GitService) (number : Nat) : Option String :=
  (s.main.future number).bind TaskResult.text

/-- The chunk whose reply is through with this completion: it is the message
that the stream of the write brought last. -/
def repliedChunk (h : Handler) (c : Completion) : Option ReceivePackRequest :=
  if c.op.tag = .WRITE ∧ c.ok then
    (receivedOn h.log c.op.owner).getLast?.filter fun message => message.data ≠ []
  else none

/-- The stream handler is through with a completion. -/
def GitService.goOn (s : GitService) (c : Completion) (number : Option Nat) : Option GitService :=
  (s.recvPack.step c).map fun h =>
    { s with
      recvPack := h
      recvPackWaits := none
      answers := s.answers ++ ((repliedChunk s.recvPack c).map fun message =>
        (⟨number, .packAppend message, ⟨true, "Success"⟩⟩ : Answer)).toList }

def GitService.step (libs : Nat → Lib) (s : GitService) : ServiceEvent → Option GitService
  | .recvPack op ok =>
      match s.recvPackWaits, if ok then s.recvPack.req.calls op.tag else none with
      | none, none => s.goOn ⟨op, ok, ""⟩ none
      | none, some call =>
          if op ∈ s.recvPack.outstanding then
            some { s with
              main := s.main.post call, recvPackWaits := some (op, s.main.posted) }
          else none
      | some _, _ => none
  | .recvPackResume =>
      match s.recvPackWaits with
      | some (op, number) => (s.text number).bind fun ret => s.goOn ⟨op, true, ret⟩ (some number)
      | none => none
  | .writeReference request =>
      match s.writeReferenceWaits with
      | none => some { s with
          main := s.main.post (.createReference request)
          writeReferenceWaits := some (request, s.main.posted) }
      | some _ => none
  | .writeReferenceResume =>
      match s.writeReferenceWaits with
      | some (request, number) => (s.text number).map fun err => { s with
          writeReferenceWaits := none
          answers := s.answers ++
            [⟨some number, .createReference request, (WriteReference.read err).1⟩] }
      | none => none
  | .changeRepoState request =>
      match s.repoStateWaits with
      | none =>
          if request.newRepoState then some { s with
            main := s.main.post (RepoStateChange.calls request)
            repoStateWaits := some (request, s.main.posted) }
          else some { s with
            main := s.main.post (RepoStateChange.calls request)
            answers := s.answers ++ [⟨some s.main.posted, RepoStateChange.calls request,
              (RepoStateChange.write "success").1⟩] }
      | some _ => none
  | .changeRepoStateResume =>
      match s.repoStateWaits with
      | some (request, number) => (s.text number).map fun err => { s with
          repoStateWaits := none
          answers := s.answers ++
            [⟨some number, RepoStateChange.calls request, (RepoStateChange.write err).1⟩] }
      | none => none
  | .run index =>
      match hentry : s.main.pending[index]? with
      | some entry =>
          (entry.2.task.run s.manager (libs entry.1)).toOption.map fun outcome => { s with
            manager := outcome.manager
            main := s.main.complete index entry hentry ⟨outcome.promise, outcome.changes⟩ }
      | none => none

/-- Everything a step can be. The replies to opens and closes are given by
what they answer. -/
inductive Stepped (libs : Nat → Lib) (s : GitService) : ServiceEvent → GitService → Prop where
  | ask (op : Op) (call : RepoProxyCall) (hfree : s.recvPackWaits = none)
      (hcall : s.recvPack.req.calls op.tag = some call) (hmem : op ∈ s.recvPack.outstanding) :
      Stepped libs s (.recvPack op true)
        { s with main := s.main.post call, recvPackWaits := some (op, s.main.posted) }
  | pass (op : Op) (ok : Bool) (next : GitService)
      (hnothing : ok = true → s.recvPack.req.calls op.tag = none)
      (hnext : s.goOn ⟨op, ok, ""⟩ none = some next) : Stepped libs s (.recvPack op ok) next
  | resume (op : Op) (number : Nat) (ret : String) (next : GitService)
      (hwaits : s.recvPackWaits = some (op, number)) (htext : s.text number = some ret)
      (hnext : s.goOn ⟨op, true, ret⟩ (some number) = some next) :
      Stepped libs s .recvPackResume next
  | askReference (request : WriteReferenceRequest) (hfree : s.writeReferenceWaits = none) :
      Stepped libs s (.writeReference request)
        { s with
          main := s.main.post (.createReference request)
          writeReferenceWaits := some (request, s.main.posted) }
  | answerReference (request : WriteReferenceRequest) (number : Nat) (err : String)
      (hwaits : s.writeReferenceWaits = some (request, number))
      (htext : s.text number = some err) :
      Stepped libs s .writeReferenceResume
        { s with
          writeReferenceWaits := none
          answers := s.answers ++
            [⟨some number, .createReference request, (WriteReference.read err).1⟩] }
  | changeState (request : RepoStateChangeRequest)
      (waits : Option (RepoStateChangeRequest × Nat)) (new : List Answer)
      (hnew : ∀ answer ∈ new, answer.call = RepoStateChange.calls request) :
      Stepped libs s (.changeRepoState request)
        { s with
          main := s.main.post (RepoStateChange.calls request)
          repoStateWaits := waits
          answers := s.answers ++ new }
  | answerState (request : RepoStateChangeRequest) (number : Nat) (err : String)
      (hwaits : s.repoStateWaits = some (request, number)) (htext : s.text number = some err)
      (answer : Answer) (hanswer : answer.call = RepoStateChange.calls request) :
      Stepped libs s .changeRepoStateResume
        { s with repoStateWaits := none, answers := s.answers ++ [answer] }
  | run (index : Nat) (entry : Nat × RepoProxyCall)
      (hentry : s.main.pending[index]? = some entry) (outcome : Outcome)
      (hrun : entry.2.task.run s.manager (libs entry.1) = .ok outcome) :
      Stepped libs s (.run index)
        { s with
          manager := outcome.manager
          main := s.main.complete index entry hentry ⟨outcome.promise, outcome.changes⟩ }

theorem step_stepped {libs : Nat → Lib} {s next : GitService} {e : ServiceEvent}
    (hstep : s.step libs e = some next) : Stepped libs s e next := by
  cases e with
  | recvPack op ok =>
      simp only [GitService.step] at hstep
      split at hstep
      · rename_i hcall
        refine .pass op ok next ?_ hstep
        rintro rfl
        simpa using hcall
      · rename_i call hfree hcall
        cases ok with
        | false => simp at hcall
        | true =>
            split at hstep
            · rename_i hmem
              cases hstep
              exact .ask op call hfree (by simpa using hcall) hmem
            · cases hstep
      · cases hstep
  | recvPackResume =>
      simp only [GitService.step] at hstep
      split at hstep
      · rename_i op number hwaits
        obtain ⟨ret, htext, hnext⟩ := Option.bind_eq_some_iff.mp hstep
        exact .resume op number ret next hwaits htext hnext
      · cases hstep
  | writeReference request =>
      simp only [GitService.step] at hstep
      split at hstep
      · rename_i hfree
        cases hstep
        exact .askReference request hfree
      · cases hstep
  | writeReferenceResume =>
      simp only [GitService.step] at hstep
      split at hstep
      · rename_i request number hwaits
        obtain ⟨err, htext, rfl⟩ := Option.map_eq_some_iff.mp hstep
        exact .answerReference request number err hwaits htext
      · cases hstep
  | changeRepoState request =>
      simp only [GitService.step] at hstep
      split at hstep
      · rename_i hfree
        split at hstep
        · cases hstep
          have hasked : Stepped libs s (.changeRepoState request) _ :=
            .changeState request (some (request, s.main.posted)) [] (by simp)
          simpa using hasked
        · cases hstep
          exact .changeState request s.repoStateWaits _ (by simp)
      · cases hstep
  | changeRepoStateResume =>
      simp only [GitService.step] at hstep
      split at hstep
      · rename_i request number hwaits
        obtain ⟨err, htext, rfl⟩ := Option.map_eq_some_iff.mp hstep
        exact .answerState request number err hwaits htext _ rfl
      · cases hstep
  | run index =>
      simp only [GitService.step] at hstep
      split at hstep
      · rename_i entry hentry
        obtain ⟨outcome, hrun, rfl⟩ := toOption_map_eq_some.mp hstep
        exact .run index entry hentry outcome hrun
      · cases hstep

theorem goOn_eq_some {s next : GitService} {c : Completion} {number : Option Nat}
    (hnext : s.goOn c number = some next) :
    ∃ h, s.recvPack.step c = some h ∧
      next = { s with
        recvPack := h
        recvPackWaits := none
        answers := s.answers ++ ((repliedChunk s.recvPack c).map fun message =>
          (⟨number, .packAppend message, ⟨true, "Success"⟩⟩ : Answer)).toList } := by
  obtain ⟨h, hstep, rfl⟩ := Option.map_eq_some_iff.mp hnext
  exact ⟨h, hstep, rfl⟩

/-- The stream handler is through with an event that waits for nothing. -/
theorem step_pass {libs : Nat → Lib} {s : GitService} {op : Op} {ok : Bool} {h : Handler}
    (hfree : s.recvPackWaits = none) (hnothing : s.recvPack.req.calls op.tag = none)
    (hstep : s.recvPack.step ⟨op, ok, ""⟩ = some h) :
    ∃ answers, s.step libs (.recvPack op ok) =
      some { s with recvPack := h, recvPackWaits := none, answers := answers } := by
  simp only [GitService.step, hfree, hnothing, ite_self, GitService.goOn, hstep, Option.map_some]
  exact ⟨_, rfl⟩

theorem step_ask {libs : Nat → Lib} {s : GitService} {op : Op} {call : RepoProxyCall}
    (hfree : s.recvPackWaits = none) (hcall : s.recvPack.req.calls op.tag = some call)
    (hmem : op ∈ s.recvPack.outstanding) :
    s.step libs (.recvPack op true) =
      some { s with main := s.main.post call, recvPackWaits := some (op, s.main.posted) } := by
  simp only [GitService.step, hfree, hcall, if_true, hmem]

theorem step_resume {libs : Nat → Lib} {s : GitService} {op : Op} {number : Nat}
    {ret : String} {h : Handler} (hwaits : s.recvPackWaits = some (op, number))
    (htext : s.text number = some ret) (hstep : s.recvPack.step ⟨op, true, ret⟩ = some h) :
    ∃ answers, s.step libs .recvPackResume =
      some { s with recvPack := h, recvPackWaits := none, answers := answers } := by
  simp only [GitService.step, hwaits, htext, Option.bind_some, GitService.goOn, hstep,
    Option.map_some]
  exact ⟨_, rfl⟩

theorem step_run {libs : Nat → Lib} {s : GitService} {index : Nat}
    {entry : Nat × RepoProxyCall} {outcome : Outcome}
    (hentry : s.main.pending[index]? = some entry)
    (hrun : entry.2.task.run s.manager (libs entry.1) = .ok outcome) :
    s.step libs (.run index) = some { s with
      manager := outcome.manager
      main := s.main.complete index entry hentry ⟨outcome.promise, outcome.changes⟩ } := by
  simp only [GitService.step]
  split
  · rename_i entry' hentry'
    obtain rfl := Option.some.inj (hentry.symm.trans hentry')
    simp [hrun, Except.toOption]
  · rename_i hnone
    rw [hentry] at hnone
    cases hnone

/-- A call of the stream handler, from its post to its result, while Main has
nothing else to do. -/
theorem exec_call {libs : Nat → Lib} {s : GitService} {op : Op} {call : RepoProxyCall}
    {outcome : Outcome} {ret : String} {h : Handler} (hfree : s.recvPackWaits = none)
    (hcall : s.recvPack.req.calls op.tag = some call) (hmem : op ∈ s.recvPack.outstanding)
    (hidle : s.main.pending = [])
    (hrun : call.task.run s.manager (libs s.main.posted) = .ok outcome)
    (hpromise : outcome.promise = [.text ret])
    (hstep : s.recvPack.step ⟨op, true, ret⟩ = some h) :
    ∃ next, exec (GitService.step libs) s [.recvPack op true, .run 0, .recvPackResume] =
        some next ∧
      next.manager = outcome.manager ∧ next.recvPack = h ∧ next.recvPackWaits = none ∧
      next.writeReferenceWaits = s.writeReferenceWaits ∧ next.main.pending = [] ∧
      next.main.results =
        s.main.results ++ [(s.main.posted, call, ⟨outcome.promise, outcome.changes⟩)] := by
  have hentry : (s.main.post call).pending[0]? = some (s.main.posted, call) := by
    simp [JobQueue.post, hidle]
  let asked : GitService :=
    { s with main := s.main.post call, recvPackWaits := some (op, s.main.posted) }
  let ran : GitService :=
    { asked with
      manager := outcome.manager
      main := asked.main.complete 0 (s.main.posted, call) hentry
        ⟨outcome.promise, outcome.changes⟩ }
  have hask : s.step libs (.recvPack op true) = some asked := step_ask hfree hcall hmem
  have hran : asked.step libs (.run 0) = some ran := step_run hentry hrun
  have htext : ran.text s.main.posted = some ret := by
    rw [GitService.text, JobQueue.complete_future, Option.bind_some]
    simp [TaskResult.text, hpromise]
  obtain ⟨answers, hresumed⟩ : ∃ answers, ran.step libs .recvPackResume = _ :=
    step_resume rfl htext hstep
  have hexec : exec (GitService.step libs) s [.recvPack op true, .run 0, .recvPackResume] =
      some { ran with recvPack := h, recvPackWaits := none, answers := answers } := by
    rw [exec_cons, hask, Option.bind_some, exec_cons, hran, Option.bind_some, exec_cons,
      hresumed, Option.bind_some, exec_nil]
  refine ⟨_, hexec, rfl, rfl, rfl, rfl, ?_, rfl⟩
  simp [ran, asked, JobQueue.complete, JobQueue.post, hidle]

/-- A step of the service leaves the stream handler as it is, or is a step of
the handler. -/
theorem recvPack_step {libs : Nat → Lib} {s next : GitService} {e : ServiceEvent}
    (hstep : s.step libs e = some next) :
    next.recvPack = s.recvPack ∨ ∃ c, s.recvPack.step c = some next.recvPack := by
  cases step_stepped hstep with
  | pass op ok _ _ hnext =>
      obtain ⟨h, hh, rfl⟩ := goOn_eq_some hnext
      exact .inr ⟨_, hh⟩
  | resume op number ret _ _ _ hnext =>
      obtain ⟨h, hh, rfl⟩ := goOn_eq_some hnext
      exact .inr ⟨_, hh⟩
  | ask | askReference | answerReference | changeState | answerState | run => exact .inl rfl

/-- What holds of the stream handler alone holds of it inside the service. -/
theorem recvPack_reachable (libs : Nat → Lib) (sent : Nat → List ReceivePackRequest)
    (s : GitService) (hreach : Reachable (GitService.step libs) (GitService.init sent) s) :
    Reachable Handler.step (Handler.init sent) s.recvPack :=
  hreach.project GitService.recvPack fun _ _ _ hstep => recvPack_step hstep

/-- The manager moves only by its tasks. -/
theorem manager_reachable (libs : Nat → Lib) (manager : RepositoryManager)
    (sent : Nat → List ReceivePackRequest) (s : GitService)
    (hreach : Reachable (GitService.step libs) (GitService.start manager sent) s) :
    Reachable taskStep manager s.manager := by
  apply hreach.project GitService.manager
  intro s e next hstep
  cases step_stepped hstep with
  | run index entry hentry outcome hrun =>
      exact .inr ⟨(entry.2.task, libs entry.1), taskStep_eq_some.mpr ⟨outcome, hrun, rfl⟩⟩
  | pass _ _ _ _ hnext | resume _ _ _ _ _ _ hnext =>
      obtain ⟨_, -, rfl⟩ := goOn_eq_some hnext
      exact .inl rfl
  | ask | askReference | answerReference | changeState | answerState => exact .inl rfl

end GitRpc.Services
