import GitRpc.Frontend.GitServer

/-!
The upload of a push, when everything arrives: connect, then message by
message a send, a read, a reply, and for a chunk its append on Main. Only what
libgit2 says to the appends is left open. By the time the client has its last
reply nobody has asked for a commit.
-/

namespace GitRpc.Frontend

open Common Repository Requests Services Library.Runs Library.Futures

/-- Between two events of the upload: nobody waits for Main, no commit has
been asked for, and the stream's one operation is about to complete. The
repository in the slot has this handle. -/
structure Quiet (handle : Option RepositoryHandle) (s : GitService) (status : RequestStatus)
    (unread : List ReceivePackRequest) : Prop where
  recvPackFree : s.recvPackWaits = none
  referenceFree : s.writeReferenceWaits = none
  pending : s.main.pending = []
  uncommitted : ∀ number result, (number, RepoProxyCall.packCommit, result) ∉ s.main.results
  opened : ∃ g, s.manager.currentRepo = some g ∧ g.wp.isSome ∧ g.repo = handle
  id : s.recvPack.req.id = 0
  running : s.recvPack.req.isRunning = true
  outstanding : s.recvPack.outstanding = [⟨status, 0⟩]
  unread : s.recvPack.unread 0 = unread

variable {handle : Option RepositoryHandle}

section Upload

variable (libs : Nat → Lib)

/-- A message that waits is read and answered. -/
theorem Quiet.read {s : GitService} {message : ReceivePackRequest}
    (h : Quiet handle s .READ [message]) :
    ∃ next, s.step libs (.recvPack ⟨.READ, 0⟩ true) = some next ∧ Quiet handle next .WRITE [] ∧
      next.recvPack.req.msg = message ∧
      repliesOn next.recvPack.log 0 = repliesOn s.recvPack.log 0 ++ [⟨true, "Success"⟩] := by
  have hstep : s.recvPack.step ⟨⟨.READ, 0⟩, true, ""⟩ =
      some (s.recvPack.reply ⟨.READ, 0⟩ message []) := by
    simp [Handler.step, h.outstanding, h.unread, h.id, Request.handle, Request.processRequest,
      Request.writeResponse, Handler.reply, Handler.receive]
  obtain ⟨answers, hnext⟩ : ∃ answers, s.step libs (.recvPack ⟨.READ, 0⟩ true) = _ :=
    step_pass h.recvPackFree rfl hstep
  refine ⟨_, hnext, ⟨rfl, h.referenceFree, h.pending, h.uncommitted, h.opened, ?_, ?_, ?_, ?_⟩,
    ?_, ?_⟩
  · simp [h.id]
  · simp [h.running]
  · simp [h.outstanding, h.id]
  · simp
  · rfl
  · simp [repliesOn, h.id]

theorem appendDataToPack_opened {m : RepositoryManager} {g : GitRepo}
    (hslot : m.currentRepo = some g) (hwp : g.wp.isSome) (lib : Lib) (data : List UInt8) :
    ∃ outcome ret, m.appendDataToPack lib data = .ok outcome ∧ outcome.promise = [.text ret] ∧
      ∃ g', outcome.manager.currentRepo = some g' ∧ g'.wp.isSome ∧ g'.repo = g.repo := by
  obtain ⟨wp, hwp⟩ := Option.isSome_iff_exists.mp hwp
  simp only [RepositoryManager.appendDataToPack, hslot, GitRepo.packAppend, hwp,
    RepositoryManager.finish]
  exact ⟨_, _, rfl, rfl, _, rfl, rfl, rfl⟩

/-- A completed reply to a chunk: the handler posts its append, Main runs it,
and the handler goes on, whatever libgit2 said. -/
theorem Quiet.append {s : GitService} (h : Quiet handle s .WRITE [])
    (hdata : s.recvPack.req.msg.data ≠ []) (hdone : s.recvPack.req.msg.done = false) :
    ∃ next, exec (GitService.step libs) s
        [.recvPack ⟨.WRITE, 0⟩ true, .run 0, .recvPackResume] = some next ∧
      Quiet handle next .READ [] ∧ repliesOn next.recvPack.log 0 = repliesOn s.recvPack.log 0 := by
  have hlength : s.recvPack.req.msg.data.length > 0 := List.length_pos_iff.mpr hdata
  have hcall : s.recvPack.req.calls .WRITE = some (.packAppend s.recvPack.req.msg) := by
    simp [Request.calls, h.running, hlength]
  obtain ⟨g, hslot, hwp, rfl⟩ := h.opened
  obtain ⟨outcome, ret, happend, hpromise, hstill⟩ :=
    appendDataToPack_opened hslot hwp (libs s.main.posted) s.recvPack.req.msg.data
  have hrun : (RepoProxyCall.packAppend s.recvPack.req.msg).task.run s.manager
      (libs s.main.posted) = .ok outcome := happend
  let answered : Turn := { s.recvPack.req with currentStatus := .WRITE }.readMessage ret
  have hturn : answered.actions = [.startRead 0, .packAppend 0 s.recvPack.req.msg.data ret] ∧
      answered.req.id = 0 ∧ answered.req.isRunning = true := by
    simp only [answered, Request.readMessage, Request.checkDone, h.running, if_true, hlength,
      hdone, h.id, Bool.false_eq_true, if_false]
    split <;> exact ⟨rfl, rfl, rfl⟩
  obtain ⟨hactions, hid, hrunning⟩ := hturn
  have hstep : s.recvPack.step ⟨⟨.WRITE, 0⟩, true, ret⟩ =
      some (s.recvPack.take ⟨.WRITE, 0⟩ (answered.dispatched ⟨.WRITE, 0⟩ s.recvPack.req.id)) := by
    simp [Handler.step, h.outstanding, Request.handle, Request.processRequest, answered]
  obtain ⟨next, hexec, hmanager, hstream, hfree, hreference, hpending, hresults⟩ :=
    exec_call h.recvPackFree hcall (by simp [h.outstanding]) h.pending hrun hpromise hstep
  refine ⟨next, hexec, ⟨hfree, ?_, hpending, ?_, ?_, ?_, ?_, ?_, ?_⟩, ?_⟩
  · rw [hreference]
    exact h.referenceFree
  · intro number result hmem
    rw [hresults] at hmem
    rcases List.mem_append.mp hmem with hold | hnew
    · exact h.uncommitted number result hold
    · simp at hnew
  · rw [hmanager]
    exact hstill
  · rw [hstream]
    exact hid
  · rw [hstream]
    exact hrunning
  · rw [hstream, take_outstanding, dispatched_starts, hactions, h.outstanding]
    rfl
  · rw [hstream]
    exact h.unread
  · rw [hstream]
    simp [repliesOn, hactions]

/-- What a client sends while the service is quiet. -/
theorem Quiet.sendTo {s : GitService} {status : RequestStatus} (h : Quiet handle s status [])
    (message : ReceivePackRequest) : Quiet handle (sendTo s message) status [message] where
  recvPackFree := h.recvPackFree
  referenceFree := h.referenceFree
  pending := h.pending
  uncommitted := h.uncommitted
  opened := h.opened
  id := h.id
  running := h.running
  outstanding := h.outstanding
  unread := by simp [Frontend.sendTo, h.unread]

/-- Steps of the service that the client has no part in. -/
theorem exec_service {s : Push} {es : List ServiceEvent}
    {service : GitService}
    (hinternal : ∀ e ∈ es, s.frontend.allows e = true ∧
      ∀ service, s.frontend.notice service e = s.frontend)
    (hrun : exec (GitService.step libs) s.service es = some service) :
    exec (Push.step libs) s (es.map .service) = some { s with service := service } := by
  induction es generalizing s with
  | nil =>
      cases hrun
      rfl
  | cons e rest ih =>
      obtain ⟨next, hnext, hrest⟩ := Option.bind_eq_some_iff.mp hrun
      obtain ⟨hallows, hnotice⟩ := hinternal e (by simp)
      rw [List.map_cons, exec_cons, step_service hallows (hnotice s.service) hnext,
        Option.bind_some]
      exact ih (fun e' he' => hinternal e' (by simp [he'])) hrest

/-- The client is in the upload, and has taken every reply. -/
structure Uploading (handle : Option RepositoryHandle) (s : Push) (program : FrontendAt) :
    Prop where
  program : s.frontend.program = program
  quiet : Quiet handle s.service .READ []
  received : s.frontend.received = (repliesOn s.service.recvPack.log 0).length

/-- One message and its reply. The service has done no more than read it. -/
theorem exec_exchange {s : Push} {data : List UInt8} {done : Bool}
    (h : Uploading handle s (.sending data done)) :
    ∃ service, exec (Push.step libs) s
        [.send none, .service (.recvPack ⟨.READ, 0⟩ true), .recv none] =
          some ⟨service, { s.frontend with
            received := s.frontend.received + 1 }.wrote done true⟩ ∧
      Quiet handle service .WRITE [] ∧
      service.recvPack.req.msg = { repoName := "new-server", data := data, done := done } ∧
      s.frontend.received + 1 = (repliesOn service.recvPack.log 0).length := by
  let sent : Push := ⟨sendTo s.service { repoName := "new-server", data := data, done := done },
    { s.frontend with program := .receiving done }⟩
  have hsend : s.step libs (.send none) = some sent := by
    simp only [Push.step, h.program]
    rfl
  obtain ⟨service, hservice, hquiet, hmsg, hreplies⟩ :=
    (h.quiet.sendTo { repoName := "new-server", data := data, done := done }).read libs
  have hread : sent.step libs (.service (.recvPack ⟨.READ, 0⟩ true)) =
      some { sent with service := service } := step_service rfl rfl hservice
  have hreply : (repliesOn service.recvPack.log 0)[s.frontend.received]? =
      some ⟨true, "Success"⟩ := by
    rw [hreplies, h.received]
    exact List.getElem?_concat_length
  have hrecv : ({ sent with service := service } : Push).step libs (.recv none) =
      some ⟨service, { s.frontend with
        received := s.frontend.received + 1 }.wrote done true⟩ := by
    simp only [Push.step, sent, hreply, Option.map_some]
    cases done <;> rfl
  refine ⟨service, ?_, hquiet, hmsg, ?_⟩
  · rw [exec_cons, hsend, Option.bind_some, exec_cons, hread, Option.bind_some, exec_cons,
      hrecv, Option.bind_some, exec_nil]
  · rw [hreplies, List.length_append, h.received]
    rfl

/-- One chunk, with its append. -/
theorem exec_chunk {s : Push} {data : List UInt8} (hdata : data ≠ [])
    (h : Uploading handle s (.sending data false)) :
    ∃ es next, exec (Push.step libs) s es = some next ∧ Uploading handle next .reading ∧
      next.frontend = { s.frontend with
        program := .reading, wroteToStream := true, received := s.frontend.received + 1 } := by
  obtain ⟨service, hexchange, hquiet, hmsg, hreceived⟩ := exec_exchange libs h
  obtain ⟨appended, hexec, happended, hreplies⟩ :=
    hquiet.append libs (by rw [hmsg]; exact hdata) (by rw [hmsg])
  let read : Push :=
    ⟨service, { s.frontend with received := s.frontend.received + 1 }.wrote false true⟩
  have hservices : exec (Push.step libs) read _ = some { read with service := appended } :=
    exec_service libs (by simp [GitServer.allows, GitServer.notice]) hexec
  refine ⟨_, _, exec_append_some hexchange hservices, ⟨rfl, happended, ?_⟩, rfl⟩
  rw [hreplies]
  exact hreceived

/-- All chunks that are left, and the last message. -/
theorem exec_upload {chunks : List (List UInt8)} (hchunks : ∀ chunk ∈ chunks, chunk ≠ [])
    {s : Push} (h : Uploading handle s .reading) (hconnected : s.frontend.connected = true)
    (hwrote : s.frontend.wroteToStream = true) (hbody : s.frontend.body = chunks) :
    ∃ es next, exec (Push.step libs) s es = some next ∧ Quiet handle next.service .WRITE [] ∧
      next.frontend.program = .unpackOk ∧ next.frontend.refs = s.frontend.refs := by
  induction chunks generalizing s with
  | nil =>
      let ended : Push := { s with frontend := { s.frontend with program := .sending [] true } }
      have hread : s.step libs .read = some ended := by
        simp [Push.step, ended, h.program, hbody, hwrote]
      have hended : Uploading handle ended (.sending [] true) := ⟨rfl, h.quiet, h.received⟩
      obtain ⟨service, hexchange, hquiet, -, -⟩ := exec_exchange libs hended
      exact ⟨_, _, exec_append_some (exec_singleton hread) hexchange, hquiet, rfl, rfl⟩
  | cons data rest ih =>
      let begun : Push := { s with frontend := { s.frontend with
        program := .sending data false, body := rest } }
      have hread : s.step libs .read = some begun := by
        simp [Push.step, begun, h.program, hbody, hconnected]
      have hbegun : Uploading handle begun (.sending data false) := ⟨rfl, h.quiet, h.received⟩
      obtain ⟨chunk, next, hchunk, hnext, hfrontend⟩ :=
        exec_chunk libs (hchunks data (by simp)) hbegun
      obtain ⟨es, last, hrest, hquiet, hprogram, hrefs⟩ :=
        ih (fun c hc => hchunks c (by simp [hc])) hnext (by rw [hfrontend]; exact hconnected)
          (by rw [hfrontend]) (by rw [hfrontend])
      have hexec := exec_append_some (exec_append_some (exec_singleton hread) hchunk) hrest
      rw [hfrontend] at hrefs
      exact ⟨_, last, hexec, hquiet, hprogram, hrefs⟩

/-- The client connects once it has read something. -/
theorem exec_connect {upload : PackUpload} {data : List UInt8} {rest : List (List UInt8)}
    (hchunks : upload.chunks = data :: rest) {manager : RepositoryManager} {g : GitRepo}
    (hslot : manager.currentRepo = some g) (hwp : g.wp.isSome) :
    ∃ next, exec (Push.step libs) (.start manager upload)
        [.read, .connect none, .service (.recvPack ⟨.CONNECT, 0⟩ true)] = some next ∧
      Uploading g.repo next (.sending data false) ∧ next.frontend.connected = true ∧
      next.frontend.body = rest ∧ next.frontend.refs = upload.refs := by
  let connecting : Push := ⟨.start manager fun _ => [],
    ⟨.connecting data, rest, upload.refs, false, false, 0, []⟩⟩
  let connected : Push := ⟨.start manager fun _ => [],
    ⟨.sending data false, rest, upload.refs, true, false, 0, []⟩⟩
  have hread : (Push.start manager upload).step libs .read = some connecting := by
    simp [Push.step, Push.start, hchunks, connecting]
  have hconnect : connecting.step libs (.connect none) = some connected := rfl
  obtain ⟨answers, haccept⟩ :
      ∃ answers, connected.service.step libs (.recvPack ⟨.CONNECT, 0⟩ true) = _ :=
    step_pass rfl rfl rfl
  have hservice : connected.step libs (.service (.recvPack ⟨.CONNECT, 0⟩ true)) = some _ :=
    step_service rfl rfl haccept
  have hexec := exec_append_some (exec_append_some (exec_singleton hread)
    (exec_singleton hconnect)) (exec_singleton hservice)
  refine ⟨_, hexec, ⟨rfl, ⟨rfl, rfl, rfl, ?_, ⟨g, hslot, hwp, rfl⟩, rfl, rfl, rfl, rfl⟩, rfl⟩,
    rfl, rfl, rfl⟩
  intro number result hmem
  cases hmem

/-- Whatever comes of its appends, a push gets to the point where the client
has all the replies it waits for, and nobody has asked for a commit. -/
theorem exec_push {upload : PackUpload} (hchunks : upload.chunks ≠ [])
    {manager : RepositoryManager} {g : GitRepo} (hslot : manager.currentRepo = some g)
    (hwp : g.wp.isSome) :
    ∃ es next, exec (Push.step libs) (.start manager upload) es = some next ∧
      Quiet g.repo next.service .WRITE [] ∧ next.frontend.program = .unpackOk ∧
      next.frontend.refs = upload.refs := by
  cases hlist : upload.chunks with
  | nil => exact absurd hlist hchunks
  | cons data rest =>
      have hne : ∀ chunk ∈ data :: rest, chunk ≠ [] := by
        rw [← hlist]
        exact upload.chunks_ne_nil
      obtain ⟨connected, hconnect, huploading, hconnected, hbody, hrefs⟩ :=
        exec_connect libs hlist hslot hwp
      obtain ⟨chunk, next, hchunk, hnext, hfrontend⟩ :=
        exec_chunk libs (hne data (by simp)) huploading
      have hrestBody : next.frontend.body = rest := by
        rw [hfrontend]
        exact hbody
      obtain ⟨es, last, hrest, hquiet, hprogram, hlast⟩ :=
        exec_upload libs (fun c hc => hne c (by simp [hc])) hnext
          (by rw [hfrontend]; exact hconnected) (by rw [hfrontend]) hrestBody
      have hexec := exec_append_some (exec_append_some hconnect hchunk) hrest
      rw [hfrontend] at hlast
      exact ⟨_, last, hexec, hquiet, hprogram, hlast.trans hrefs⟩

/-- The client goes on to its first reference, and the service posts it. -/
theorem exec_reference {s : Push} {ref : String × String} {rest : List (String × String)}
    (hprogram : s.frontend.program = .unpackOk) (hrefs : s.frontend.refs = ref :: rest)
    (hquiet : Quiet handle s.service .WRITE []) :
    ∃ es next number, exec (Push.step libs) s es = some next ∧
      next.service.manager = s.service.manager ∧
      next.service.main.results = s.service.main.results ∧
      next.service.main.pending =
        [(number, .createReference ⟨"new-server", ref.1, ref.2⟩)] := by
  let told : Push := { s with frontend := { s.frontend with
    program := .closingSend, output := s.frontend.output ++ [.line "unpack ok\n", .flush] } }
  let closed : Push := { told with frontend := { told.frontend with program := .references } }
  let asking : Push := { closed with frontend := { closed.frontend with
    program := .awaiting ref false, refs := rest } }
  let posted : GitService := { s.service with
    main := s.service.main.post (.createReference ⟨"new-server", ref.1, ref.2⟩)
    writeReferenceWaits := some (⟨"new-server", ref.1, ref.2⟩, s.service.main.posted) }
  have htell : s.step libs .encodeUnpackOk = some told := by
    simp only [Push.step, hprogram, told]
  have hclose : told.step libs (.closeSend none) = some closed := rfl
  have hask : closed.step libs .writeReference = some asking := by
    simp [Push.step, closed, told, asking, hrefs]
  have htake : asking.service.step libs
      (.writeReference ⟨"new-server", ref.1, ref.2⟩) = some posted := by
    simp only [GitService.step, asking, closed, told, hquiet.referenceFree, posted]
  have hpost : asking.step libs (.service (.writeReference ⟨"new-server", ref.1, ref.2⟩)) =
      some ⟨posted, { asking.frontend with program := .awaiting ref true }⟩ := by
    have hallows : asking.frontend.allows
        (.writeReference ⟨"new-server", ref.1, ref.2⟩) = true := by
      simp [GitServer.allows, asking]
    simp only [Push.step, hallows, if_true, htake, Option.map_some]
    rfl
  have hexec := exec_append_some (exec_append_some (exec_singleton htell)
    (exec_singleton hclose)) (exec_append_some (exec_singleton hask) (exec_singleton hpost))
  refine ⟨_, _, s.service.main.posted, hexec, rfl, rfl, ?_⟩
  simp [posted, JobQueue.post, hquiet.pending]

end Upload

end GitRpc.Frontend
