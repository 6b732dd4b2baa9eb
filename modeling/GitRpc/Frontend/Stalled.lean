import GitRpc.Frontend.GitServer

/-!
A push to a repository that is not open. The append of its first chunk ends
the server process, so the stream handler waits for it for good: there is at
most one reply on the stream, and the client, which waits for one more, never
learns that the pack is unpacked, nor asks for a reference.
-/

namespace GitRpc.Frontend

open Common Repository Requests Services Library.Runs Library.Futures

/-- A repository with a pack writer is in the slot. -/
def CanAppend (m : RepositoryManager) : Prop := ∃ g, m.currentRepo = some g ∧ g.wp.isSome

/-- The handler has not read a message yet, and only chunks wait. -/
structure Unread (h : Handler) : Prop where
  id : h.req.id = 0
  running : h.req.isRunning = true
  data : h.req.msg.data = []
  done : h.req.msg.done = false
  outstanding : h.outstanding = [] ∨ h.outstanding = [⟨.CONNECT, 0⟩] ∨ h.outstanding = [⟨.READ, 0⟩]
  unread : ∀ message ∈ h.unread 0, message.data ≠ []
  replies : repliesOn h.log 0 = []

/-- The handler has read a chunk and replied to it, and no more. -/
structure Replied (h : Handler) : Prop where
  running : h.req.isRunning = true
  data : h.req.msg.data ≠ []
  outstanding : h.outstanding = [] ∨ h.outstanding = [⟨.WRITE, 0⟩]
  replies : (repliesOn h.log 0).length = 1

theorem Unread.step {h next : Handler} {c : Completion} (hunread : Unread h)
    (hstep : h.step c = some next) : Unread next ∨ Replied next := by
  obtain ⟨hmem, hstepped⟩ := step_stepped hstep
  have hop : h.outstanding = [c.op] ∧ (c.op = ⟨.CONNECT, 0⟩ ∨ c.op = ⟨.READ, 0⟩) := by
    rcases hunread.outstanding with hnone | hone | hone
    · simp [hnone] at hmem
    · rw [hone, List.mem_singleton] at hmem
      exact ⟨by rw [hone, hmem], .inl hmem⟩
    · rw [hone, List.mem_singleton] at hmem
      exact ⟨by rw [hone, hmem], .inr hmem⟩
  obtain ⟨hone, hop⟩ := hop
  cases hstepped with
  | dropped =>
      refine .inl ⟨hunread.id, hunread.running, hunread.data, hunread.done, ?_,
        hunread.unread, ?_⟩
      · simp [hone]
      · simp [hunread.replies]
  | proceed hok htag =>
      have hturn : ({ h.req with currentStatus := c.op.tag }.readMessage c.ret) =
          ⟨{ h.req with currentStatus := c.op.tag }, [.startRead 0]⟩ := by
        simp [Request.readMessage, Request.checkDone, hunread.running, hunread.data,
          hunread.done, hunread.id]
      rw [hturn]
      refine .inl ⟨hunread.id, hunread.running, hunread.data, hunread.done, ?_,
        hunread.unread, ?_⟩
      · rw [take_outstanding, hone, List.erase_cons_head]
        exact .inr (.inr rfl)
      · simpa [repliesOn] using hunread.replies
  | reply hok htag message rest hmessage =>
      have howner : c.op.owner = 0 := by rcases hop with hop | hop <;> rw [hop]
      rw [howner] at hmessage
      refine .inr ⟨hunread.running, ?_, ?_, ?_⟩
      · rw [reply_msg]
        exact hunread.unread message (by simp [hmessage])
      · simp [hone, hunread.id]
      · have hold : repliesOn h.log 0 = [] := hunread.replies
        simp only [repliesOn] at hold
        simp [repliesOn, hold, hunread.id]
  | stop hok htag | commit hok htag | replace htag =>
      rcases hop with hop | hop <;> simp [hop] at htag

/-- With its append refused, the handler only ever drops the write. -/
theorem Replied.step {h next : Handler} {c : Completion} (hreplied : Replied h)
    (hok : c.ok = false) (hstep : h.step c = some next) : Replied next := by
  obtain ⟨hmem, hstepped⟩ := step_stepped hstep
  have hop : h.outstanding = [c.op] ∧ c.op = ⟨.WRITE, 0⟩ := by
    rcases hreplied.outstanding with hnone | hone
    · simp [hnone] at hmem
    · rw [hone, List.mem_singleton] at hmem
      exact ⟨by rw [hone, hmem], hmem⟩
  obtain ⟨hone, hop⟩ := hop
  cases hstepped with
  | dropped =>
      refine ⟨hreplied.running, hreplied.data, ?_, ?_⟩
      · simp [hone]
      · simpa using hreplied.replies
  | replace htag => simp [hop] at htag
  | proceed hok' | reply hok' | stop hok' | commit hok' => simp [hok] at hok'

/-- The service of such a push. No task has been run, and none but appends
will ever be posted. -/
structure StalledService (s : GitService) : Prop where
  manager : ¬ CanAppend s.manager
  results : s.main.results = []
  pending : ∀ entry ∈ s.main.pending, ∃ msg, entry.2 = .packAppend msg
  stream : Unread s.recvPack ∧ s.recvPackWaits = none ∨ Replied s.recvPack

theorem StalledService.replies {s : GitService} (h : StalledService s) :
    (repliesOn s.recvPack.log 0).length ≤ 1 := by
  rcases h.stream with ⟨hunread, -⟩ | hreplied
  · simp [hunread.replies]
  · exact hreplied.replies.le

/-- The points that a client may have come to with this many replies. -/
def FrontendAt.Stalled (received : Nat) : FrontendAt → Prop
  | .reading | .returned => True
  | .connecting data => data ≠ []
  | .sending data done => (done = false → data ≠ []) ∧ (done = true → 1 ≤ received)
  | .receiving done => done = true → 1 ≤ received
  | .unpackOk | .closingSend | .references | .awaiting _ _ | .answered _ _ | .closingRepo => False

/-- A client of such a push. -/
structure StalledClient (f : GitServer) (replies : Nat) : Prop where
  received : f.received ≤ replies
  wrote : f.wroteToStream = true → 1 ≤ f.received
  body : ∀ chunk ∈ f.body, chunk ≠ []
  program : f.program.Stalled f.received

structure Stalled (s : Push) : Prop where
  service : StalledService s.service
  client : StalledClient s.frontend (repliesOn s.service.recvPack.log 0).length

theorem stalled_start {manager : RepositoryManager} (hmanager : ¬ CanAppend manager)
    (upload : PackUpload) : Stalled (.start manager upload) where
  service :=
    { manager := hmanager
      results := rfl
      pending := by simp [Push.start, GitService.start, JobQueue.empty]
      stream := .inl ⟨⟨rfl, rfl, rfl, rfl, .inr (.inl rfl), by simp [Push.start, GitService.start,
        Handler.init], rfl⟩, rfl⟩ }
  client := ⟨le_refl 0, by simp [Push.start], upload.chunks_ne_nil, trivial⟩

/-- No future is ready. -/
theorem StalledService.text_none {s : GitService} (h : StalledService s) (number : Nat) :
    s.text number = none := by
  simp [GitService.text, JobQueue.future, h.results]

/-- Main cannot run any of the tasks. -/
theorem StalledService.not_run {s : GitService} (h : StalledService s) {index : Nat}
    {entry : Nat × RepoProxyCall} (hentry : s.main.pending[index]? = some entry) {lib : Lib}
    {outcome : Outcome} (hrun : entry.2.task.run s.manager lib = .ok outcome) : False := by
  obtain ⟨msg, hmsg⟩ := h.pending entry (List.mem_of_getElem? hentry)
  rw [hmsg] at hrun
  obtain ⟨g, wp, hslot, hwp, -⟩ := appendDataToPack_ok hrun
  exact h.manager ⟨g, hslot, by simp [hwp]⟩

theorem allows_writeReference {f : GitServer} {request : WriteReferenceRequest}
    (hallows : f.allows (.writeReference request) = true) :
    ∃ ref taken, f.program = .awaiting ref taken := by
  simp only [GitServer.allows] at hallows
  split at hallows
  · rename_i ref taken hprogram
    exact ⟨ref, taken, hprogram⟩
  · cases hallows

theorem allows_changeRepoState {f : GitServer} {request : RepoStateChangeRequest}
    (hallows : f.allows (.changeRepoState request) = true) : f.program = .closingRepo := by
  simp only [GitServer.allows, decide_eq_true_eq] at hallows
  exact hallows.1

/-- Another append is posted. -/
theorem StalledService.ask {s : GitService} (h : StalledService s) {op : Op}
    {call : RepoProxyCall} (hcall : s.recvPack.req.calls op.tag = some call)
    (hmem : op ∈ s.recvPack.outstanding) :
    StalledService { s with
      main := s.main.post call, recvPackWaits := some (op, s.main.posted) } := by
  rcases h.stream with ⟨hunread, -⟩ | hreplied
  · exfalso
    rcases hunread.outstanding with hnone | hone | hone
    · simp [hnone] at hmem
    · rw [hone, List.mem_singleton] at hmem
      simp [hmem, Request.calls, hunread.data] at hcall
    · rw [hone, List.mem_singleton] at hmem
      simp [hmem, Request.calls] at hcall
  · have hop : op = ⟨.WRITE, 0⟩ := by
      rcases hreplied.outstanding with hnone | hone
      · simp [hnone] at hmem
      · rwa [hone, List.mem_singleton] at hmem
    have happend : call = .packAppend s.recvPack.req.msg := by
      have hlength := List.length_pos_iff.mpr hreplied.data
      simpa [hop, Request.calls, hreplied.running, hlength, eq_comm] using hcall
    refine ⟨h.manager, h.results, ?_, .inr hreplied⟩
    intro entry hentry
    rcases List.mem_append.mp hentry with hold | hnew
    · exact h.pending entry hold
    · exact ⟨s.recvPack.req.msg, by rw [List.mem_singleton.mp hnew, happend]⟩

/-- The stream handler takes an event that needs no task. -/
theorem StalledService.pass {s next : GitService} (h : StalledService s) {op : Op} {ok : Bool}
    (hnothing : ok = true → s.recvPack.req.calls op.tag = none)
    (hnext : s.goOn ⟨op, ok, ""⟩ none = some next) : StalledService next := by
  obtain ⟨stream, hstep, rfl⟩ := goOn_eq_some hnext
  refine ⟨h.manager, h.results, h.pending, ?_⟩
  rcases h.stream with ⟨hunread, -⟩ | hreplied
  · rcases hunread.step hstep with hstill | hreplied
    · exact .inl ⟨hstill, rfl⟩
    · exact .inr hreplied
  · cases ok with
    | false => exact .inr (hreplied.step rfl hstep)
    | true =>
        exfalso
        obtain ⟨hmem, -⟩ := step_stepped hstep
        rcases hreplied.outstanding with hnone | hone
        · simp [hnone] at hmem
        · rw [hone, List.mem_singleton] at hmem
          have hcall := hnothing rfl
          simp [show op = ⟨.WRITE, 0⟩ from hmem, Request.calls, hreplied.running,
            hreplied.data] at hcall

/-- Replies are never taken back. -/
theorem replies_le {h next : Handler} {c : Completion} (hstep : h.step c = some next) :
    (repliesOn h.log 0).length ≤ (repliesOn next.log 0).length := by
  obtain ⟨new, hnew⟩ := step_log hstep
  rw [hnew, repliesOn_append, List.length_append]
  exact Nat.le_add_right _ _

/-- A step of the service that a stalled client allows. -/
theorem StalledService.step {libs : Nat → Lib} {s next : GitService} {f : GitServer}
    {e : ServiceEvent} (h : StalledService s) {replies : Nat} (hf : StalledClient f replies)
    (hallows : f.allows e = true) (hstep : s.step libs e = some next) :
    StalledService next ∧ f.notice s e = f ∧
      (repliesOn s.recvPack.log 0).length ≤ (repliesOn next.recvPack.log 0).length := by
  have hprogram := hf.program
  cases step_stepped hstep with
  | ask op call _ hcall hmem => exact ⟨h.ask hcall hmem, rfl, le_refl _⟩
  | pass op ok _ hnothing hnext =>
      obtain ⟨stream, hstream, rfl⟩ := goOn_eq_some hnext
      exact ⟨h.pass hnothing hnext, rfl, replies_le hstream⟩
  | resume op number ret _ _ htext =>
      rw [h.text_none] at htext
      cases htext
  | answerReference request number err _ htext =>
      rw [h.text_none] at htext
      cases htext
  | answerState request number err _ htext =>
      rw [h.text_none] at htext
      cases htext
  | askReference request =>
      obtain ⟨ref, taken, hawaiting⟩ := allows_writeReference hallows
      rw [hawaiting] at hprogram
      exact hprogram.elim
  | changeState request =>
      rw [allows_changeRepoState hallows] at hprogram
      exact hprogram.elim
  | run index entry hentry outcome hrun => exact (h.not_run hentry hrun).elim

/-- A message on its way. The last one is sent only after a reply. -/
theorem StalledService.sendTo {s : GitService} (h : StalledService s)
    {message : ReceivePackRequest}
    (hmessage : message.data ≠ [] ∨ 1 ≤ (repliesOn s.recvPack.log 0).length) :
    StalledService (sendTo s message) := by
  refine ⟨h.manager, h.results, h.pending, ?_⟩
  rcases h.stream with ⟨hunread, hfree⟩ | hreplied
  · have hdata : message.data ≠ [] := by
      rcases hmessage with hdata | hreply
      · exact hdata
      · simp [hunread.replies] at hreply
    refine .inl ⟨⟨hunread.id, hunread.running, hunread.data, hunread.done,
      hunread.outstanding, ?_, hunread.replies⟩, hfree⟩
    intro other hother
    have hmem : other ∈ s.recvPack.unread 0 ++ [message] := by
      simpa [Frontend.sendTo] using hother
    rcases List.mem_append.mp hmem with hold | hnew
    · exact hunread.unread other hold
    · rw [List.mem_singleton.mp hnew]
      exact hdata
  · exact .inr ⟨hreplied.running, hreplied.data, hreplied.outstanding, hreplied.replies⟩

/-- A chunk or the last message has failed. -/
theorem StalledClient.failed {f : GitServer} {replies : Nat} (h : StalledClient f replies)
    (done : Bool) : StalledClient (f.wrote done false) replies := by
  cases done with
  | false => exact ⟨h.received, by simp [GitServer.wrote], h.body, trivial⟩
  | true => exact ⟨h.received, h.wrote, h.body, trivial⟩

theorem StalledClient.tell {f : GitServer} {replies : Nat} (h : StalledClient f replies)
    (lines : List PktLine) : StalledClient { f with output := lines } replies :=
  ⟨h.received, h.wrote, h.body, h.program⟩

theorem StalledClient.more {f : GitServer} {replies more : Nat} (h : StalledClient f replies)
    (hmore : replies ≤ more) : StalledClient f more :=
  ⟨h.received.trans hmore, h.wrote, h.body, h.program⟩

/-- The client's next read. -/
theorem Stalled.read {libs : Nat → Lib} {s next : Push} (h : Stalled s)
    (hstep : s.step libs .read = some next) : Stalled next := by
  obtain ⟨hservice, hclient⟩ := h
  simp only [Push.step] at hstep
  split at hstep
  · rename_i data rest hreading hbody
    cases hstep
    have hdata : data ≠ [] := hclient.body data (by simp [hbody])
    refine ⟨hservice, hclient.received, hclient.wrote, ?_, ?_⟩
    · intro chunk hchunk
      exact hclient.body chunk (by simp [hbody, hchunk])
    · show (if s.frontend.connected = true then FrontendAt.sending data false
        else .connecting data).Stalled s.frontend.received
      split
      · exact ⟨fun _ => hdata, by rintro ⟨⟩⟩
      · exact hdata
  · cases hstep
    refine ⟨hservice, hclient.received, hclient.wrote, hclient.body, ?_⟩
    show (if s.frontend.wroteToStream = true then FrontendAt.sending [] true
      else .returned).Stalled s.frontend.received
    split
    · rename_i hwrote
      exact ⟨by rintro ⟨⟩, fun _ => hclient.wrote hwrote⟩
    · trivial
  · cases hstep

theorem Stalled.send {libs : Nat → Lib} {s next : Push} {err : Option String} (h : Stalled s)
    (hstep : s.step libs (.send err) = some next) : Stalled next := by
  obtain ⟨hservice, hclient⟩ := h
  have hprogram := hclient.program
  simp only [Push.step] at hstep
  split at hstep
  · rename_i data done hsending
    cases hstep
    rw [hsending] at hprogram
    have hmessage : data ≠ [] ∨ 1 ≤ (repliesOn s.service.recvPack.log 0).length := by
      cases done with
      | false => exact .inl (hprogram.1 rfl)
      | true => exact .inr ((hprogram.2 rfl).trans hclient.received)
    exact ⟨hservice.sendTo hmessage, hclient.received, hclient.wrote, hclient.body, hprogram.2⟩
  · rename_i data done err hsending
    cases hstep
    exact ⟨hservice, (hclient.tell _).failed done⟩
  · cases hstep

/-- One reply can be taken, and only for a chunk. -/
theorem Stalled.recv {libs : Nat → Lib} {s next : Push} {err : Option String} (h : Stalled s)
    (hstep : s.step libs (.recv err) = some next) : Stalled next := by
  obtain ⟨hservice, hclient⟩ := h
  have hprogram := hclient.program
  simp only [Push.step] at hstep
  split at hstep
  · rename_i done hreceiving
    obtain ⟨r, hr, rfl⟩ := Option.map_eq_some_iff.mp hstep
    obtain ⟨hlt, -⟩ := List.getElem?_eq_some_iff.mp hr
    have hone := hservice.replies
    rw [hreceiving] at hprogram
    cases done with
    | true =>
        have hmany : 1 ≤ s.frontend.received := hprogram rfl
        omega
    | false => exact ⟨hservice, hlt, fun _ => Nat.le_add_left 1 _, hclient.body, trivial⟩
  · rename_i done _ _
    cases hstep
    exact ⟨hservice, hclient.failed done⟩
  · cases hstep

/-- A push that is stalled remains so. -/
theorem Stalled.step {libs : Nat → Lib} {s next : Push} {e : PushEvent} (h : Stalled s)
    (hstep : s.step libs e = some next) : Stalled next := by
  have hprogram := h.client.program
  cases e with
  | read => exact h.read hstep
  | send err => exact h.send hstep
  | recv err => exact h.recv hstep
  | connect err =>
      simp only [Push.step] at hstep
      split at hstep
      · rename_i data hconnecting
        cases hstep
        rw [hconnecting] at hprogram
        exact ⟨h.service, h.client.received, h.client.wrote, h.client.body,
          fun _ => hprogram, by rintro ⟨⟩⟩
      · cases hstep
        exact ⟨h.service, h.client.received, h.client.wrote, h.client.body, trivial⟩
      · cases hstep
  | service e =>
      simp only [Push.step] at hstep
      split at hstep
      · rename_i hallows
        obtain ⟨service, hservice, rfl⟩ := Option.map_eq_some_iff.mp hstep
        obtain ⟨hnext, hnotice, hreplies⟩ := h.service.step h.client hallows hservice
        rw [hnotice]
        exact ⟨hnext, h.client.more hreplies⟩
      · cases hstep
  | encodeUnpackOk | closeSend | writeReference | writeReferenceFails | report
  | changeRepoStateFails =>
      simp only [Push.step] at hstep
      split at hstep <;> simp_all [FrontendAt.Stalled]

end GitRpc.Frontend
