import GitRpc.Repository.CallsMade
import GitRpc.Services.GitServiceAsyncImpl

/-!
What a success flag says about libgit2. The service is watched here by
somebody who writes down the results of the calls that each task makes, and
for which request of a stream a task was posted; nothing the service does
depends on it. Success travels from the calls to the replies as a text, which
every layer compares with a word of its own.
-/

namespace GitRpc.Services

open Common Repository Requests Library.Runs Library.Futures

/-- `made` gives the results of the calls of a task, by the task's number, and
`asked` the numbers of the tasks that a request of a stream has posted. -/
structure Watched where
  service : GitService
  made : Nat → List GitResult
  asked : List (Nat × Nat)

def Watched.init (sent : Nat → List ReceivePackRequest) : Watched := ⟨.init sent, fun _ => [], []⟩

/-- The task that is run, and the calls it makes. -/
def newlyMade (libs : Nat → Lib) (s : Watched) : ServiceEvent → Nat → List GitResult
  | .run index =>
      match s.service.main.pending[index]? with
      | some entry =>
          Function.update s.made entry.1 (callsMade s.service.manager (libs entry.1) entry.2)
      | none => s.made
  | _ => s.made

/-- The task that the stream handler posts. -/
def newlyAsked (s : Watched) : ServiceEvent → List (Nat × Nat)
  | .recvPack op ok =>
      match s.service.recvPackWaits, if ok then s.service.recvPack.req.calls op.tag else none with
      | none, some _ => [(s.service.recvPack.req.id, s.service.main.posted)]
      | _, _ => []
  | _ => []

def Watched.step (libs : Nat → Lib) (s : Watched) (e : ServiceEvent) : Option Watched :=
  (s.service.step libs e).map fun next =>
    ⟨next, newlyMade libs s e, s.asked ++ newlyAsked s e⟩

/-- The results of all calls made for a request of a stream. -/
def Watched.streamCalls (s : Watched) (stream : Nat) : List GitResult :=
  (s.asked.filter fun entry => entry.1 = stream).flatMap fun entry => s.made entry.2

/-- The final replies in a log, each with its stream. -/
def finalReplies (log : List Action) : List (Nat × GenericResponse × Status) :=
  log.filterMap fun
    | .writeAndFinish stream reply status => some (stream, reply, status)
    | _ => none

/-- The flag and the status say success exactly when all these calls have
returned 0. -/
def Honest (made : List GitResult) (reply : GenericResponse × Status) : Prop :=
  (reply.1.success = true ↔ ∀ result ∈ made, result.errCode = 0) ∧
    (reply.2.code = .OK ↔ ∀ result ∈ made, result.errCode = 0)

/-- Every reply that the step sends to an open or a WriteReference, and every
final reply to a stream, is honest about the calls made for the request. -/
def RepliesHonestly (s : Watched) (e : ServiceEvent) (next : Watched) : Prop :=
  match e with
  | .changeRepoStateResume => ∀ request number err,
      s.service.repoStateWaits = some (request, number) → s.service.text number = some err →
        Honest (s.made number) (RepoStateChange.write err)
  | .writeReferenceResume => ∀ request number err,
      s.service.writeReferenceWaits = some (request, number) → s.service.text number = some err →
        Honest (s.made number) (WriteReference.read err)
  | .recvPack _ _ | .recvPackResume => ∀ new,
      finalReplies next.service.recvPack.log = finalReplies s.service.recvPack.log ++ new →
        ∀ final ∈ new, Honest (s.streamCalls final.1) final.2
  | .writeReference _ | .changeRepoState _ | .run _ => True

/-- The message that a failed call leaves is none of these words. -/
def NotTaken (words : List String) (made : List GitResult) : Prop :=
  ∀ failed, firstFailure made = some failed → checkForError failed ∉ words

/-- When the texts mean what the flags say. No failed call leaves a word for
success behind; a WriteReference finds a repository in the slot, so that it
makes a call at all; and a commit that finds one succeeds only when all the
appends of its request have, while one that finds none comes after an append
that has failed. -/
def TextsSpeak (s : Watched) : ServiceEvent → Prop
  | .changeRepoStateResume => ∀ request number,
      s.service.repoStateWaits = some (request, number) → NotTaken ["success"] (s.made number)
  | .writeReferenceResume => ∀ request number,
      s.service.writeReferenceWaits = some (request, number) →
        s.made number ≠ [] ∧ NotTaken ["success", "Success"] (s.made number)
  | .recvPackResume => ∀ op number, s.service.recvPackWaits = some (op, number) →
      s.service.recvPack.req.calls op.tag = some .packCommit →
        NotTaken ["success"] (s.made number) ∧
          (firstFailure (s.made number) = none →
            (s.made number = [] ↔
              firstFailure (s.streamCalls s.service.recvPack.req.id) ≠ none))
  | .recvPack _ _ | .writeReference _ | .changeRepoState _ | .run _ => True

/-- The text that a waiting handler finds, in terms of the calls made. -/
structure WatchedInv (s : Watched) : Prop where
  results : ∀ number call result, (number, call, result) ∈ s.service.main.results →
    call ≠ .closeRepo → result.text = some (textOf call (s.made number))
  repoState : ∀ request number, s.service.repoStateWaits = some (request, number) →
    s.service.main.Holds number (.openRepo request.repoName)
  writeReference : ∀ request number, s.service.writeReferenceWaits = some (request, number) →
    s.service.main.Holds number (.createReference request)
  recvPack : ∀ op number, s.service.recvPackWaits = some (op, number) →
    ∃ call, s.service.recvPack.req.calls op.tag = some call ∧
      s.service.main.Holds number call ∧ (s.service.recvPack.req.id, number) ∈ s.asked

theorem watchedInv_init (sent : Nat → List ReceivePackRequest) : WatchedInv (.init sent) := by
  constructor <;> simp [Watched.init, GitService.init, GitService.start, JobQueue.empty]

/-- What a handler finds in the future of a call that has a promise. -/
theorem WatchedInv.text {s : Watched} (h : WatchedInv s) {number : Nat} {call : RepoProxyCall}
    {err : String} (hcall : call ≠ .closeRepo) (hholds : s.service.main.Holds number call)
    (htext : s.service.text number = some err) : err = textOf call (s.made number) := by
  obtain ⟨result, hfuture, hresult⟩ := Option.bind_eq_some_iff.mp htext
  have hmem := hholds.future hfuture
  have hmade := h.results number call result hmem hcall
  rw [hresult, Option.some.injEq] at hmade
  exact hmade

theorem honest_iff {made : List GitResult} {reply : GenericResponse × Status} {taken : Prop}
    (hflag : reply.1.success = true ↔ taken) (hcode : reply.2.code = .OK ↔ taken) :
    Honest made reply ↔ (taken ↔ firstFailure made = none) := by
  rw [Honest, hflag, hcode, and_self, firstFailure_eq_none]

/-- The text of a task that has made its calls passes for success exactly when
it should, unless a message does, or the text for no calls does not. -/
theorem taken_iff {words : List String} (hwords : "success" ∈ words) (call : RepoProxyCall)
    (made : List GitResult) :
    (textOf call made ∈ words ↔ firstFailure made = none) ↔
      NotTaken words made ∧ (made = [] → idleText call ∈ words) := by
  cases hfirst : firstFailure made with
  | some failed =>
      have hsome : made ≠ [] := by
        rintro rfl
        cases hfirst
      simp [textOf, NotTaken, hfirst, hsome]
  | none =>
      rcases eq_or_ne made [] with rfl | hsome
      · simp [textOf, NotTaken, hfirst]
      · simp [textOf, NotTaken, hfirst, hsome, hwords]

theorem honest_open_iff (name : String) (made : List GitResult) :
    Honest made (RepoStateChange.write (textOf (.openRepo name) made)) ↔
      NotTaken ["success"] made := by
  have hflag : ∀ text, (RepoStateChange.write text).1.success = true ↔ text ∈ ["success"] := by
    intro text
    rw [List.mem_singleton]
    exact finishWith_success "success" text
  rw [honest_iff (hflag _) ((finishWith_status "success" _).trans (hflag _)),
    taken_iff (by simp)]
  simp [idleText]

theorem writeReference_status (err : String) :
    (WriteReference.read err).2.code = .OK ↔ (WriteReference.read err).1.success = true := by
  unfold WriteReference.read
  split <;> exact finishWith_status _ _

theorem honest_reference_iff (request : WriteReferenceRequest) (made : List GitResult) :
    Honest made (WriteReference.read (textOf (.createReference request) made)) ↔
      made ≠ [] ∧ NotTaken ["success", "Success"] made := by
  have hflag : ∀ text, (WriteReference.read text).1.success = true ↔
      text ∈ ["success", "Success"] := by
    intro text
    rw [writeReference_success]
    simp
  rw [honest_iff (hflag _) ((writeReference_status _).trans (hflag _)), taken_iff (by simp),
    and_comm]
  simp [idleText]

/-- What a commit makes of the stream. -/
def finalReply (ret : String) : GenericResponse × Status :=
  if ret ≠ "success" then (⟨false, ret⟩, ⟨.INTERNAL, ret⟩) else (⟨true, "success"⟩, ⟨.OK, ""⟩)

theorem honest_final_iff {own all : List GitResult} (hown : ∀ result ∈ own, result ∈ all) :
    Honest all (finalReply (textOf .packCommit own)) ↔
      NotTaken ["success"] own ∧
        (firstFailure own = none → (own = [] ↔ firstFailure all ≠ none)) := by
  have hflag : ∀ text, (finalReply text).1.success = true ↔ text = "success" := by
    intro text
    unfold finalReply
    split <;> simp_all
  have hcode : ∀ text, (finalReply text).2.code = .OK ↔ text = "success" := by
    intro text
    unfold finalReply
    split <;> simp_all
  rw [honest_iff (hflag _) (hcode _)]
  cases hfirst : firstFailure own with
  | some failed =>
      have hall : firstFailure all ≠ none := by
        intro hnone
        have hmem : failed ∈ own := List.mem_of_find?_eq_some hfirst
        have hfailed : failed.errCode ≠ 0 := by simpa using List.find?_some hfirst
        exact hfailed (firstFailure_eq_none.mp hnone failed (hown failed hmem))
      simp [textOf, NotTaken, hfirst, hall]
  | none =>
      rcases eq_or_ne own [] with rfl | hsome
      · simp [textOf, NotTaken, hfirst, idleText]
      · simp [textOf, NotTaken, hfirst, hsome]

theorem calls_eq_commit {r : Request} {tag : RequestStatus} :
    r.calls tag = some .packCommit ↔ tag = .DONE ∧ r.repoOpen = true := by
  cases tag <;> simp [Request.calls]

theorem finalReplies_append (first second : List Action) :
    finalReplies (first ++ second) = finalReplies first ++ finalReplies second :=
  List.filterMap_append

theorem finalReplies_readMessage (r : Request) (ret : String) :
    finalReplies (r.readMessage ret).actions = [] := by
  have hdone : ∀ r : Request, finalReplies r.checkDone.actions = [] := by
    intro r
    unfold Request.checkDone
    split <;> rfl
  unfold Request.readMessage
  split
  · split
    · dsimp only
      split
      · rfl
      · rw [finalReplies_append, hdone]
        rfl
    · exact hdone r
  · rfl

theorem finalReplies_finishRequest {r : Request} (hopen : r.repoOpen = true) (ret : String) :
    finalReplies (r.finishRequest ret).actions = [(r.id, finalReply ret)] := by
  unfold Request.finishRequest finalReply
  rw [if_pos hopen]
  split <;> rfl

/-- A commit sends the final reply, and nothing else does. -/
theorem finalReplies_handle (r : Request) (c : Completion) :
    finalReplies (r.handle c).actions =
      if c.ok = true ∧ r.calls c.op.tag = some .packCommit then [(r.id, finalReply c.ret)]
      else [] := by
  obtain ⟨⟨tag, owner⟩, ok, ret⟩ := c
  cases ok with
  | false =>
      cases tag <;> rfl
  | true =>
      cases tag with
      | CONNECT | WRITE =>
          have hread := finalReplies_readMessage
          simp only [Request.handle, Request.processRequest, calls_eq_commit]
          simpa [finalReplies] using hread _ ret
      | READ | FINISH => rfl
      | DONE =>
          by_cases hopen : r.repoOpen = true
          · have hfinish := finalReplies_finishRequest (r :=
              { r with currentStatus := .DONE, isRunning := false }) hopen ret
            simp only [Request.handle, Request.processRequest, calls_eq_commit]
            simpa [finalReplies, hopen] using hfinish
          · simp [Request.handle, Request.processRequest, calls_eq_commit, hopen, finalReplies]

theorem finalReplies_step {h next : Handler} {c : Completion} (hstep : h.step c = some next) :
    finalReplies next.log = finalReplies h.log ++
      if c.ok = true ∧ h.req.calls c.op.tag = some .packCommit then
        [(h.req.id, finalReply c.ret)]
      else [] := by
  by_cases hread : c.op.tag = .READ ∧ c.ok = true
  · have hcalls : ¬ (c.ok = true ∧ h.req.calls c.op.tag = some .packCommit) := by
      simp [calls_eq_commit, hread.1]
    rw [if_neg hcalls]
    cases (Requests.step_stepped hstep).2 with
    | reply => simp [finalReplies]
    | _ => simp_all
  · rw [step_take hread hstep, take_log, finalReplies_append, finalReplies_handle]

theorem holds_kept {libs : Nat → Lib} {s next : GitService} {e : ServiceEvent}
    (hstep : s.step libs e = some next) {number : Nat} {call : RepoProxyCall}
    (hholds : s.main.Holds number call) : next.main.Holds number call := by
  cases step_stepped hstep with
  | ask | askReference | changeState => exact hholds.post _
  | pass _ _ _ _ hnext | resume _ _ _ _ _ _ hnext =>
      obtain ⟨_, -, rfl⟩ := goOn_eq_some hnext
      exact hholds
  | answerReference | answerState => exact hholds
  | run _ _ hentry => exact hholds.complete hentry _

/-- A handler of opens that waits has waited before, or has just posted. -/
theorem repoState_waits {libs : Nat → Lib} {s next : GitService} {e : ServiceEvent}
    (hstep : s.step libs e = some next) {request : RepoStateChangeRequest} {number : Nat}
    (hwaits : next.repoStateWaits = some (request, number)) :
    s.repoStateWaits = some (request, number) ∨
      next.main.Holds number (.openRepo request.repoName) := by
  cases step_stepped hstep with
  | changeState asked =>
      simp only [GitService.step] at hstep
      split at hstep
      · split at hstep
        · rename_i hopen
          obtain ⟨rfl⟩ := (GitService.mk.inj (Option.some.inj hstep)).2.2.2.2.2.1
          cases hwaits
          rw [RepoStateChange.calls, if_pos hopen]
          exact .inr (JobQueue.post_holds _ _)
        · cases (GitService.mk.inj (Option.some.inj hstep)).2.2.2.2.2.1
          exact .inl hwaits
      · cases hstep
  | pass _ _ _ _ hnext | resume _ _ _ _ _ _ hnext =>
      obtain ⟨_, -, rfl⟩ := goOn_eq_some hnext
      exact .inl hwaits
  | answerState => cases hwaits
  | ask | askReference | answerReference | run => exact .inl hwaits

theorem writeReference_waits {libs : Nat → Lib} {s next : GitService} {e : ServiceEvent}
    (hstep : s.step libs e = some next) {request : WriteReferenceRequest} {number : Nat}
    (hwaits : next.writeReferenceWaits = some (request, number)) :
    s.writeReferenceWaits = some (request, number) ∨
      next.main.Holds number (.createReference request) := by
  cases step_stepped hstep with
  | askReference =>
      cases hwaits
      exact .inr (JobQueue.post_holds _ _)
  | pass _ _ _ _ hnext | resume _ _ _ _ _ _ hnext =>
      obtain ⟨_, -, rfl⟩ := goOn_eq_some hnext
      exact .inl hwaits
  | answerReference => cases hwaits
  | ask | changeState | answerState | run => exact .inl hwaits

/-- The stream handler does not move while it waits. -/
theorem recvPack_waits {libs : Nat → Lib} {s next : GitService} {e : ServiceEvent}
    (hstep : s.step libs e = some next) {op : Op} {number : Nat}
    (hwaits : next.recvPackWaits = some (op, number)) :
    next.recvPack = s.recvPack ∧
      (s.recvPackWaits = some (op, number) ∨
        s.recvPackWaits = none ∧ e = .recvPack op true ∧ number = s.main.posted ∧
          ∃ call, s.recvPack.req.calls op.tag = some call ∧ next.main = s.main.post call) := by
  cases step_stepped hstep with
  | ask op call hfree hcall =>
      cases hwaits
      exact ⟨rfl, .inr ⟨hfree, rfl, rfl, call, hcall, rfl⟩⟩
  | pass _ _ _ _ hnext | resume _ _ _ _ _ _ hnext =>
      obtain ⟨_, -, rfl⟩ := goOn_eq_some hnext
      cases hwaits
  | askReference | answerReference | changeState | answerState | run =>
      exact ⟨rfl, .inl hwaits⟩

theorem watched_step {libs : Nat → Lib} {s next : Watched} {e : ServiceEvent}
    (hstep : s.step libs e = some next) :
    s.service.step libs e = some next.service ∧ next.made = newlyMade libs s e ∧
      next.asked = s.asked ++ newlyAsked s e := by
  obtain ⟨service, hservice, rfl⟩ := Option.map_eq_some_iff.mp hstep
  exact ⟨hservice, rfl, rfl⟩

/-- Main completes a task with the text that comes of its calls. -/
theorem WatchedInv.results_step {libs : Nat → Lib} {s next : Watched} {e : ServiceEvent}
    (h : WatchedInv s) (hstep : s.step libs e = some next) :
    ∀ number call result, (number, call, result) ∈ next.service.main.results →
      call ≠ .closeRepo → result.text = some (textOf call (next.made number)) := by
  intro number call result hmem hcall
  obtain ⟨service, hservice, rfl⟩ := Option.map_eq_some_iff.mp hstep
  dsimp only at hmem ⊢
  cases step_stepped hservice with
  | run index entry hentry outcome hrun =>
      have hmade : newlyMade libs s (.run index) = Function.update s.made entry.1
          (callsMade s.service.manager (libs entry.1) entry.2) := by
        simp only [newlyMade, hentry]
      rw [hmade]
      rcases List.mem_append.mp hmem with hold | hnew
      · have hother : number ≠ entry.1 := by
          rintro rfl
          have hdisjoint := (List.nodup_append.mp s.service.main.nodup).2.2
          exact hdisjoint entry.1 (List.mem_map_of_mem (List.mem_of_getElem? hentry)) entry.1
            (List.mem_map_of_mem hold) rfl
        rw [Function.update_of_ne hother]
        exact h.results number call result hold hcall
      · cases List.mem_singleton.mp hnew
        rw [Function.update_self, TaskResult.text, run_text hcall hrun]
  | pass _ _ _ _ hnext | resume _ _ _ _ _ _ hnext =>
      obtain ⟨_, -, rfl⟩ := goOn_eq_some hnext
      exact h.results number call result hmem hcall
  | ask | askReference | changeState | answerReference | answerState =>
      exact h.results number call result hmem hcall

theorem newlyAsked_ask {s : Watched} {op : Op} {call : RepoProxyCall}
    (hfree : s.service.recvPackWaits = none)
    (hcall : s.service.recvPack.req.calls op.tag = some call) :
    newlyAsked s (.recvPack op true) = [(s.service.recvPack.req.id, s.service.main.posted)] := by
  simp only [newlyAsked, hfree, if_true, hcall]

theorem WatchedInv.step {libs : Nat → Lib} {s next : Watched} {e : ServiceEvent}
    (h : WatchedInv s) (hstep : s.step libs e = some next) : WatchedInv next := by
  obtain ⟨hservice, -, hasked⟩ := watched_step hstep
  constructor
  case results => exact h.results_step hstep
  case repoState =>
    intro request number hwaits
    rcases repoState_waits hservice hwaits with hbefore | hholds
    · exact holds_kept hservice (h.repoState request number hbefore)
    · exact hholds
  case writeReference =>
    intro request number hwaits
    rcases writeReference_waits hservice hwaits with hbefore | hholds
    · exact holds_kept hservice (h.writeReference request number hbefore)
    · exact hholds
  case recvPack =>
    intro op number hwaits
    obtain ⟨hsame, hbefore | ⟨hfree, rfl, rfl, call, hcall, hmain⟩⟩ :=
      recvPack_waits hservice hwaits
    · obtain ⟨call, hcall, hholds, hmem⟩ := h.recvPack op number hbefore
      rw [hsame, hasked]
      exact ⟨call, hcall, holds_kept hservice hholds, List.mem_append_left _ hmem⟩
    · rw [hsame, hasked, hmain, newlyAsked_ask hfree hcall]
      exact ⟨call, hcall, JobQueue.post_holds _ _, List.mem_append_right _ (by simp)⟩

/-- The calls of a task that a request of a stream has posted are calls of the
stream. -/
theorem made_mem_streamCalls {s : Watched} {stream number : Nat}
    (hasked : (stream, number) ∈ s.asked) :
    ∀ result ∈ s.made number, result ∈ s.streamCalls stream := by
  intro result hresult
  exact List.mem_flatMap.mpr ⟨(stream, number), List.mem_filter.mpr ⟨hasked, by simp⟩, hresult⟩

theorem forall_new_iff {α : Type*} {old new : List α} {P : α → Prop} :
    (∀ other, old ++ new = old ++ other → ∀ a ∈ other, P a) ↔ ∀ a ∈ new, P a := by
  constructor
  · intro hall
    exact hall new rfl
  · intro hnew other heq
    rw [← List.append_cancel_left heq]
    exact hnew

/-- The final replies that the stream handler sends when it is through with a
completion. -/
theorem finalsHonest_iff {s : Watched} {h : Handler} {c : Completion}
    (hstep : s.service.recvPack.step c = some h) :
    (∀ new, finalReplies h.log = finalReplies s.service.recvPack.log ++ new →
        ∀ final ∈ new, Honest (s.streamCalls final.1) final.2) ↔
      (c.ok = true ∧ s.service.recvPack.req.calls c.op.tag = some .packCommit →
        Honest (s.streamCalls s.service.recvPack.req.id) (finalReply c.ret)) := by
  rw [finalReplies_step hstep, forall_new_iff]
  split
  · rename_i hcommit
    simp [hcommit]
  · rename_i hother
    simp [hother]

/-- A handler that goes on answers the request that it waits for, and no other. -/
theorem honest_answer_iff {α : Type*} {waits : Option (α × Nat)} {request : α} {number : Nat}
    {text : Nat → Option String} {err : String} {made : Nat → List GitResult}
    {write : String → GenericResponse × Status} {cond : Nat → Prop}
    (hwaits : waits = some (request, number)) (htext : text number = some err)
    (hexact : Honest (made number) (write err) ↔ cond number) :
    (∀ request number err, waits = some (request, number) → text number = some err →
        Honest (made number) (write err)) ↔
      ∀ request number, waits = some (request, number) → cond number := by
  constructor
  · intro hhonest other otherNumber hother
    cases hwaits.symm.trans hother
    exact hexact.mp (hhonest request number err hwaits htext)
  · intro hcond other otherNumber otherErr hother hotherText
    cases hwaits.symm.trans hother
    cases htext.symm.trans hotherText
    exact hexact.mpr (hcond request number hwaits)

/-- A step replies honestly exactly when the texts it goes by mean what the
flags say. -/
theorem repliesHonestly_iff {libs : Nat → Lib} {s next : Watched} {e : ServiceEvent}
    (h : WatchedInv s) (hstep : s.step libs e = some next) :
    RepliesHonestly s e next ↔ TextsSpeak s e := by
  obtain ⟨service, hservice, rfl⟩ := Option.map_eq_some_iff.mp hstep
  cases step_stepped hservice with
  | answerState request number err hwaits htext =>
      have herr := h.text (by simp) (h.repoState request number hwaits) htext
      apply honest_answer_iff hwaits htext
      rw [herr]
      exact honest_open_iff request.repoName (s.made number)
  | answerReference request number err hwaits htext =>
      have herr := h.text (by simp) (h.writeReference request number hwaits) htext
      apply honest_answer_iff hwaits htext
      rw [herr]
      exact honest_reference_iff request (s.made number)
  | resume op number ret _ hwaits htext hnext =>
      obtain ⟨handler, hhandler, rfl⟩ := goOn_eq_some hnext
      obtain ⟨call, hcall, hholds, hasked⟩ := h.recvPack op number hwaits
      have hhonest : s.service.recvPack.req.calls op.tag = some .packCommit →
          (Honest (s.streamCalls s.service.recvPack.req.id) (finalReply ret) ↔
            NotTaken ["success"] (s.made number) ∧
              (firstFailure (s.made number) = none →
                (s.made number = [] ↔
                  firstFailure (s.streamCalls s.service.recvPack.req.id) ≠ none))) := by
        intro hcommit
        obtain rfl := Option.some.inj (hcall.symm.trans hcommit)
        rw [h.text (by simp) hholds htext]
        exact honest_final_iff (made_mem_streamCalls hasked)
      simp only [RepliesHonestly, finalsHonest_iff hhandler, TextsSpeak, hwaits,
        Option.some.injEq, Prod.mk.injEq, true_and]
      constructor
      · rintro hfinal _ _ ⟨rfl, rfl⟩ hcommit
        exact (hhonest hcommit).mp (hfinal hcommit)
      · intro hspeak hcommit
        exact (hhonest hcommit).mpr (hspeak op number ⟨rfl, rfl⟩ hcommit)
  | pass op ok _ hnothing hnext =>
      obtain ⟨handler, hhandler, rfl⟩ := goOn_eq_some hnext
      simp only [RepliesHonestly, finalsHonest_iff hhandler, TextsSpeak, iff_true]
      rintro ⟨hok, hcommit⟩
      rw [hnothing hok] at hcommit
      cases hcommit
  | ask op call hfree hcall hmem =>
      simp only [RepliesHonestly, TextsSpeak, iff_true]
      intro new hnew final hfinal
      rw [List.self_eq_append_right.mp hnew] at hfinal
      cases hfinal
  | askReference | changeState | run => exact Iff.rfl

/-- For all codes and all messages of libgit2, whatever the clients send and
however the threads take turns: the flags and the status of all replies say
success for requests whose calls have all returned 0, and for no others,
exactly when the texts speak for the calls wherever a reply goes by one. -/
theorem replies_honest_iff (libs : Nat → Lib) (sent : Nat → List ReceivePackRequest)
    (es : List ServiceEvent) :
    Always (Watched.step libs) RepliesHonestly (.init sent) es ↔
      StepsMeet (Watched.step libs) TextsSpeak (.init sent) es := by
  have hexact : ∀ s e next, WatchedInv s → Watched.step libs s e = some next →
      (RepliesHonestly s e next ↔ TextsSpeak s e) := by
    intro s e next h hstep
    exact repliesHonestly_iff h hstep
  have hkeep : ∀ s e next, WatchedInv s → TextsSpeak s e → Watched.step libs s e = some next →
      WatchedInv next := by
    intro s e next h _ hstep
    exact h.step hstep
  exact always_iff_stepsMeet hexact hkeep (watchedInv_init sent) es

/-- There is no room for what is appended, and no other call fails. -/
def fullDisk (number : Nat) : Lib := fun _ =>
  if number = 1 then ⟨-1, some "no space left on device"⟩ else ⟨0, none⟩

/-- A client opens a repository, and another sends a pack in one message. -/
def openAndUpload : List ServiceEvent :=
  [.changeRepoState ⟨"notes", true⟩, .run 0, .changeRepoStateResume,
    .recvPack ⟨.CONNECT, 0⟩ true, .recvPack ⟨.READ, 0⟩ true, .recvPack ⟨.WRITE, 0⟩ true,
    .run 0, .recvPackResume, .recvPack ⟨.READ, 0⟩ true, .recvPack ⟨.WRITE, 0⟩ true,
    .recvPack ⟨.DONE, 0⟩ true, .run 0]

/-- The final reply is a success, though the append has failed. -/
theorem failed_append_is_a_success :
    ¬ Always (Watched.step fullDisk) RepliesHonestly (.init fun _ => onePack)
      (openAndUpload ++ [.recvPackResume]) := by
  apply not_always_append (show exec (Watched.step fullDisk) _ openAndUpload = some _ from rfl)
  intro hall
  obtain ⟨hhonest, -⟩ := hall _ rfl
  have hfinal := hhonest [(0, ⟨true, "success"⟩, ⟨.OK, ""⟩)] rfl _ (List.mem_singleton_self _)
  have hfailed := hfinal.1.mp rfl ⟨-1, some "no space left on device"⟩ (by decide)
  simp at hfailed

end GitRpc.Services
