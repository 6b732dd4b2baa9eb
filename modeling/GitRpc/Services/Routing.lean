import GitRpc.Services.GitServiceAsyncImpl

/-!
Where the requests of different clients end up. A chunk and a reference name
a repository, but their tasks work on the one in the slot, whatever it is by
the time they run. So a request reaches its repository only as long as nobody
else has put another one there.

The reply to a chunk is written before the chunk is appended. It counts here
from the moment the handler is through with the write of it.
-/

namespace GitRpc.Services

open Common Repository Requests Library.Runs Library.Futures

/-- The changes that carry a call out on a repository. -/
def carriedOut (call : RepoProxyCall) (repoName : String) : List Change :=
  call.effects.map fun effect => ⟨repoName, effect, true⟩

/-- What was answered has been applied to the repository, and nothing that was
done for it to any other. -/
def AppliedTo (s : GitService) (answer : Answer) (repoName : String) : Prop :=
  ∃ number result, answer.number = some number ∧
    (number, answer.call, result) ∈ s.main.results ∧
    (∀ change ∈ carriedOut answer.call repoName, change ∈ result.changes) ∧
    ∀ call other, (number, call, other) ∈ s.main.results →
      ∀ change ∈ other.changes, change.repo = repoName

/-- Every chunk and every reference that was answered with success is where
it belongs. -/
def RoutedRight (s : GitService) : Prop :=
  ∀ answer ∈ s.answers, answer.reply.success = true →
    ∀ repoName, answer.call.target = some repoName → AppliedTo s answer repoName

/-- The task of the call does to this repository what it should do, or its
client is told that it does not. -/
def Serves (g : GitRepo) (lib : Lib) : RepoProxyCall → Prop
  | .packAppend msg => g.name = msg.repoName ∧ (lib (.writepackAppend msg.data)).errCode = 0
  | .createReference request =>
      match firstReferenceError lib request.refName request.refRev with
      | none => g.name = request.repoName
      | some failed => checkForError failed ≠ "success" ∧ checkForError failed ≠ "Success"
  | .openRepo _ | .closeRepo | .packCommit => True

/-- The steps that keep requests apart: a completed reply finds its chunk in
the buffer of a running request, and a task finds its repository in the slot. -/
def Routed (libs : Nat → Lib) (s : GitService) : ServiceEvent → Prop
  | .recvPack op ok => ∀ msg, repliedChunk s.recvPack ⟨op, ok, ""⟩ = some msg →
      s.recvPack.req.calls op.tag = some (.packAppend msg)
  | .run index => ∀ number call g, s.main.pending[index]? = some (number, call) →
      s.manager.currentRepo = some g → Serves g (libs number) call
  | _ => True

/-- The text of a result is one that its client takes for success. -/
def Accepted (result : TaskResult) : RepoProxyCall → Prop
  | .createReference _ => result.text = some "success" ∨ result.text = some "Success"
  | _ => True

/-- What has come of a call is what it asked for, where it asked for it. -/
def RightResult (call : RepoProxyCall) (result : TaskResult) : Prop :=
  ∀ repoName, call.target = some repoName → Accepted result call →
    result.changes = carriedOut call repoName

/-- A reply that a client may rely on. -/
def RightAnswer (s : GitService) (answer : Answer) : Prop :=
  answer.reply.success = true → ∀ repoName, answer.call.target = some repoName →
    ∃ number result, answer.number = some number ∧
      (number, answer.call, result) ∈ s.main.results ∧
      result.changes = carriedOut answer.call repoName

structure RoutedInv (s : GitService) : Prop where
  answers : ∀ answer ∈ s.answers, RightAnswer s answer
  results : ∀ number call result, (number, call, result) ∈ s.main.results →
    RightResult call result
  recvPack : ∀ op number, s.recvPackWaits = some (op, number) →
    ∃ call, s.main.Holds number call ∧
      ∀ msg ret, repliedChunk s.recvPack ⟨op, true, ret⟩ = some msg → call = .packAppend msg
  writeReference : ∀ request number, s.writeReferenceWaits = some (request, number) →
    s.main.Holds number (.createReference request)

theorem repliedChunk_ok {h : Handler} {c : Completion} {msg : ReceivePackRequest}
    (hmsg : repliedChunk h c = some msg) : c.ok = true := by
  unfold repliedChunk at hmsg
  split at hmsg
  · rename_i hboth
    exact hboth.2
  · cases hmsg

theorem routedInv_init (sent : Nat → List ReceivePackRequest) :
    RoutedInv (GitService.init sent) where
  answers := by
    intro answer hmem
    cases hmem
  results := by
    intro number call result hmem
    cases hmem
  recvPack := by
    intro op number hwaits
    cases hwaits
  writeReference := by
    intro request number hwaits
    cases hwaits

theorem RoutedInv.routedRight {s : GitService} (h : RoutedInv s) : RoutedRight s := by
  intro answer hanswer hsuccess repoName htarget
  obtain ⟨number, result, hnumber, hmem, hchanges⟩ :=
    h.answers answer hanswer hsuccess repoName htarget
  refine ⟨number, result, hnumber, hmem, fun change hchange => hchanges ▸ hchange, ?_⟩
  intro call other hother change hchange
  obtain ⟨-, rfl⟩ := Prod.mk.inj (s.main.result_unique hother hmem)
  rw [hchanges] at hchange
  obtain ⟨effect, -, rfl⟩ := List.mem_map.mp hchange
  rfl

/-- An answer stays right when results are added. -/
theorem RightAnswer.mono {s next : GitService} {answer : Answer} (h : RightAnswer s answer)
    (hresults : s.main.results ⊆ next.main.results) : RightAnswer next answer := by
  intro hsuccess repoName htarget
  obtain ⟨number, result, hnumber, hmem, hchanges⟩ := h hsuccess repoName htarget
  exact ⟨number, result, hnumber, hresults hmem, hchanges⟩

/-- A handler that reads the future of its task may give a right answer. -/
theorem RoutedInv.rightAnswer {s : GitService} (h : RoutedInv s) {number : Nat}
    {call : RepoProxyCall} {text : String} (hholds : s.main.Holds number call)
    (htext : s.text number = some text) (reply : GenericResponse)
    (haccepted : reply.success = true →
      ∀ result : TaskResult, result.text = some text → Accepted result call) :
    RightAnswer s ⟨some number, call, reply⟩ := by
  intro hsuccess repoName htarget
  obtain ⟨result, hfuture, hresult⟩ := Option.bind_eq_some_iff.mp htext
  have hmem := hholds.future hfuture
  exact ⟨number, result, rfl, hmem,
    h.results number call result hmem repoName htarget (haccepted hsuccess result hresult)⟩

theorem rightAnswer_of_no_target {s : GitService} {answer : Answer}
    (hnone : answer.call.target = none) : RightAnswer s answer := by
  intro hsuccess repoName htarget
  rw [hnone] at htarget
  cases htarget

theorem repoState_target (request : RepoStateChangeRequest) :
    (RepoStateChange.calls request).target = none := by
  unfold RepoStateChange.calls
  split <;> rfl

/-- The task that is run while its repository is in the slot. -/
theorem rightResult_run {m : RepositoryManager} {lib : Lib} {call : RepoProxyCall}
    {outcome : Outcome} (hserves : ∀ g, m.currentRepo = some g → Serves g lib call)
    (hrun : call.task.run m lib = .ok outcome) :
    RightResult call ⟨outcome.promise, outcome.changes⟩ := by
  intro repoName htarget haccepted
  cases call with
  | openRepo name => cases htarget
  | closeRepo => cases htarget
  | packCommit => cases htarget
  | packAppend msg =>
      cases htarget
      obtain ⟨g, wp, hslot, -, rfl⟩ := appendDataToPack_ok hrun
      obtain ⟨hname, hcode⟩ := hserves g hslot
      simp [carriedOut, RepoProxyCall.effects, hname, hcode]
  | createReference request =>
      cases htarget
      rcases newReference_ok hrun with ⟨-, rfl⟩ | ⟨g, ran, hslot, hran, rfl⟩
      · simp [Accepted, TaskResult.text] at haccepted
      · obtain ⟨hret, hchanges⟩ := createReference_text hran
        have hserved := hserves g hslot
        simp only [Accepted, TaskResult.text, Option.some.injEq] at haccepted
        cases herror : firstReferenceError lib request.refName request.refRev with
        | none =>
            simp only [Serves, herror] at hserved
            rw [hchanges herror]
            simp [carriedOut, RepoProxyCall.effects, hserved]
        | some failed =>
            simp only [Serves, herror] at hserved
            rw [hret, herror] at haccepted
            rcases haccepted with hlower | hupper
            · exact absurd hlower hserved.1
            · exact absurd hupper hserved.2

/-- Another call is posted. -/
theorem RoutedInv.post {s : GitService} (h : RoutedInv s) (call : RepoProxyCall) :
    RoutedInv { s with main := s.main.post call } where
  answers := h.answers
  results := h.results
  recvPack := by
    intro op number hwaits
    obtain ⟨other, hholds, hchunk⟩ := h.recvPack op number hwaits
    exact ⟨other, hholds.post call, hchunk⟩
  writeReference := fun request number hwaits =>
    (h.writeReference request number hwaits).post call

/-- Right answers are given. -/
theorem RoutedInv.answer {s : GitService} (h : RoutedInv s) {new : List Answer}
    (hnew : ∀ answer ∈ new, RightAnswer s answer) :
    RoutedInv { s with answers := s.answers ++ new } where
  answers := by
    intro answer hmem
    rcases List.mem_append.mp hmem with hold | hmem
    · exact h.answers answer hold
    · exact hnew answer hmem
  results := h.results
  recvPack := h.recvPack
  writeReference := h.writeReference

/-- The stream handler is through with a completion, and what it was the reply
to has been answered right. -/
theorem RoutedInv.goOn {s next : GitService} {c : Completion} {number : Option Nat}
    (h : RoutedInv s) (hnext : s.goOn c number = some next)
    (hanswer : ∀ msg, repliedChunk s.recvPack c = some msg →
      RightAnswer s ⟨number, .packAppend msg, ⟨true, "Success"⟩⟩) : RoutedInv next := by
  obtain ⟨stream, -, rfl⟩ := goOn_eq_some hnext
  have hnew : ∀ answer ∈ ((repliedChunk s.recvPack c).map fun msg =>
      (⟨number, .packAppend msg, ⟨true, "Success"⟩⟩ : Answer)).toList, RightAnswer s answer := by
    intro answer hmem
    obtain ⟨msg, hmsg, rfl⟩ := Option.map_eq_some_iff.mp (Option.mem_toList.mp hmem)
    exact hanswer msg hmsg
  refine ⟨(h.answer hnew).answers, h.results, ?_, h.writeReference⟩
  intro op n hwaits
  cases hwaits

/-- A task is run. -/
theorem RoutedInv.complete {s : GitService} (h : RoutedInv s) {index : Nat}
    {entry : Nat × RepoProxyCall} (hentry : s.main.pending[index]? = some entry)
    {result : TaskResult} (hright : RightResult entry.2 result) (manager : RepositoryManager) :
    RoutedInv { s with
      manager := manager, main := s.main.complete index entry hentry result } where
  answers := fun answer hmem => (h.answers answer hmem).mono (List.subset_append_left _ _)
  results := by
    intro number call other hmem
    rcases List.mem_append.mp hmem with hold | hnew
    · exact h.results number call other hold
    · cases List.mem_singleton.mp hnew
      exact hright
  recvPack := by
    intro op number hwaits
    obtain ⟨call, hholds, hchunk⟩ := h.recvPack op number hwaits
    exact ⟨call, hholds.complete hentry result, hchunk⟩
  writeReference := fun request number hwaits =>
    (h.writeReference request number hwaits).complete hentry result

theorem RoutedInv.step {libs : Nat → Lib} {s next : GitService} {e : ServiceEvent}
    (h : RoutedInv s) (hcond : Routed libs s e) (hstep : s.step libs e = some next) :
    RoutedInv next := by
  cases step_stepped hstep with
  | ask op call _ hcall _ =>
      have hposted := h.post call
      refine ⟨h.answers, h.results, ?_, hposted.writeReference⟩
      intro op' number hwaits
      cases hwaits
      refine ⟨call, s.main.post_holds call, ?_⟩
      intro msg ret hmsg
      have hsame : s.recvPack.req.calls op.tag = some (.packAppend msg) := hcond msg hmsg
      rw [hcall] at hsame
      exact Option.some.inj hsame
  | pass op ok _ hnothing hnext =>
      apply h.goOn hnext
      intro msg hmsg
      have hcall : s.recvPack.req.calls op.tag = some (.packAppend msg) := hcond msg hmsg
      rw [hnothing (repliedChunk_ok hmsg)] at hcall
      cases hcall
  | resume op number ret _ hwaits htext hnext =>
      obtain ⟨call, hholds, hchunk⟩ := h.recvPack op number hwaits
      apply h.goOn hnext
      intro msg hmsg
      obtain rfl := hchunk msg ret hmsg
      exact h.rightAnswer hholds htext _ fun _ _ _ => trivial
  | askReference request _ =>
      have hposted := h.post (.createReference request)
      refine ⟨h.answers, h.results, hposted.recvPack, ?_⟩
      intro request' number hwaits
      cases hwaits
      exact s.main.post_holds _
  | answerReference request number err hwaits htext =>
      have hright : ∀ answer ∈ [(⟨some number, .createReference request,
          (WriteReference.read err).1⟩ : Answer)], RightAnswer s answer := by
        intro answer hmem
        obtain rfl := List.mem_singleton.mp hmem
        apply h.rightAnswer (h.writeReference request number hwaits) htext
        intro hsuccess result hresult
        rw [Accepted, hresult, Option.some.injEq, Option.some.injEq]
        exact (writeReference_success err).mp hsuccess
      refine ⟨(h.answer hright).answers, h.results, h.recvPack, ?_⟩
      intro request' number' hnone
      cases hnone
  | changeState request _ new hnew =>
      have hposted := h.post (RepoStateChange.calls request)
      have hright : ∀ answer ∈ new, RightAnswer s answer := by
        intro answer hmem
        apply rightAnswer_of_no_target
        rw [hnew answer hmem]
        exact repoState_target request
      exact ⟨(h.answer hright).answers, h.results, hposted.recvPack, hposted.writeReference⟩
  | answerState request _ _ _ _ answer hanswer =>
      have hright : ∀ answer' ∈ [answer], RightAnswer s answer' := by
        intro answer' hmem
        apply rightAnswer_of_no_target
        rw [List.mem_singleton.mp hmem, hanswer]
        exact repoState_target request
      exact ⟨(h.answer hright).answers, h.results, h.recvPack, h.writeReference⟩
  | run index entry hentry outcome hrun =>
      apply h.complete hentry
      exact rightResult_run (fun g hslot => hcond entry.1 entry.2 g hentry hslot) hrun

/-- As long as every step keeps the requests apart, every chunk and every
reference that is answered with success has reached its repository. -/
theorem requests_reach_their_repository (libs : Nat → Lib)
    (sent : Nat → List ReceivePackRequest) (es : List ServiceEvent) (s : GitService)
    (hmeet : StepsMeet (GitService.step libs) (Routed libs) (GitService.init sent) es)
    (hrun : exec (GitService.step libs) (GitService.init sent) es = some s) : RoutedRight s :=
  (exec_invariant_of_stepsMeet (fun _ _ _ h hcond hstep => h.step hcond hstep)
    (routedInv_init sent) hmeet hrun).routedRight

/-- One chunk for repository "a". -/
def chunkForA (stream : Nat) : List ReceivePackRequest :=
  if stream = 0 then [{ repoName := "a", data := [80] }] else []

/-- A client has "a" opened and sends the chunk. -/
def pushToA : List ServiceEvent :=
  [.changeRepoState ⟨"a", true⟩, .run 0, .changeRepoStateResume,
    .recvPack ⟨.CONNECT, 0⟩ true, .recvPack ⟨.READ, 0⟩ true, .recvPack ⟨.WRITE, 0⟩ true,
    .run 0, .recvPackResume]

/-- The same client, and another who has "b" opened before the chunk comes. -/
def pushToABesideB : List ServiceEvent :=
  [.changeRepoState ⟨"a", true⟩, .run 0, .changeRepoStateResume,
    .changeRepoState ⟨"b", true⟩, .run 0, .changeRepoStateResume,
    .recvPack ⟨.CONNECT, 0⟩ true, .recvPack ⟨.READ, 0⟩ true, .recvPack ⟨.WRITE, 0⟩ true,
    .run 0, .recvPackResume]

/-- A service that only the one client uses. -/
theorem requests_reach_their_repository_alone :
    ∃ s, exec (GitService.step fun _ => Lib.allOk) (GitService.init chunkForA) pushToA = some s ∧
      s.answers.map Answer.call =
        [.openRepo "a", .packAppend { repoName := "a", data := [80] }] ∧
      RoutedRight s := by
  obtain ⟨s, hrun, hanswers⟩ : ∃ s,
      exec (GitService.step fun _ => Lib.allOk) (GitService.init chunkForA) pushToA = some s ∧
        s.answers.map Answer.call =
          [.openRepo "a", .packAppend { repoName := "a", data := [80] }] :=
    ⟨_, rfl, rfl⟩
  refine ⟨s, hrun, hanswers, requests_reach_their_repository _ _ pushToA s ?_ hrun⟩
  have hnone : ∀ {msg : ReceivePackRequest} {P : Prop}, none = some msg → P := by
    intro msg P hmsg
    cases hmsg
  -- the steps of the client's open
  refine fun _ hopen => ⟨trivial, ?_⟩
  cases hopen
  refine fun _ hran => ⟨fun _ _ _ _ hslot => ?_, ?_⟩
  · cases hslot
  cases hran
  refine fun _ hopened => ⟨trivial, ?_⟩
  cases hopened
  -- the steps of its stream, up to the append and past it
  refine fun _ hconnect => ⟨fun _ hmsg => hnone hmsg, ?_⟩
  cases hconnect
  refine fun _ hread => ⟨fun _ hmsg => hnone hmsg, ?_⟩
  cases hread
  refine fun _ hwrite => ⟨fun _ hmsg => ?_, ?_⟩
  · cases hmsg
    rfl
  cases hwrite
  refine fun _ hran => ⟨fun _ _ _ hentry hslot => ?_, ?_⟩
  · cases hentry
    cases hslot
    exact ⟨rfl, rfl⟩
  cases hran
  exact fun _ _ => ⟨trivial, trivial⟩

/-- The chunk of the first client goes to the second one's repository. -/
theorem chunk_goes_to_the_other_repository :
    ∃ s, exec (GitService.step fun _ => Lib.allOk) (GitService.init chunkForA)
        pushToABesideB = some s ∧ ¬ RoutedRight s := by
  obtain ⟨s, hrun, hanswer, hresult⟩ : ∃ s,
      exec (GitService.step fun _ => Lib.allOk) (GitService.init chunkForA)
          pushToABesideB = some s ∧
        ⟨some 2, .packAppend { repoName := "a", data := [80] }, ⟨true, "Success"⟩⟩ ∈ s.answers ∧
        ∃ call, (2, call, ⟨[.text "success"], [⟨"b", .append [80], true⟩]⟩) ∈ s.main.results :=
    ⟨_, rfl, by decide, .packAppend { repoName := "a", data := [80] }, by decide⟩
  refine ⟨s, hrun, fun hrouted => ?_⟩
  obtain ⟨number, result, hnumber, -, -, honly⟩ := hrouted _ hanswer rfl "a" rfl
  cases hnumber
  obtain ⟨call, hcall⟩ := hresult
  have hname := honly call _ hcall _ (List.mem_singleton_self _)
  simp at hname

end GitRpc.Services
