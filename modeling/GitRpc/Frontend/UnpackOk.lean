import GitRpc.Frontend.Upload
import GitRpc.Frontend.Stalled

/-!
When the frontend tells its client that the pack is unpacked, and when the
service writes the references of the push. The reply that the frontend waits
for last is the one to the message that ends the stream; the service writes
it as soon as that message has come, like every other reply, and commits the
pack later, on an alarm.
-/

namespace GitRpc.Frontend

open Common Repository Requests Services Library.Runs Library.Futures

/-- `CommitPackChanges` has run and its future holds "success". -/
def Committed (s : GitService) : Prop :=
  ∃ number result, (number, RepoProxyCall.packCommit, result) ∈ s.main.results ∧
    result.text = some "success"

/-- The step sends "unpack ok" only after the commit. -/
def UnpackWaits (s : Push) (e : PushEvent) (_next : Push) : Prop :=
  e = .encodeUnpackOk → Committed s.service

/-- The step runs a `NewReference` only after the commit. -/
def ReferencesWait (s : Push) (e : PushEvent) (_next : Push) : Prop :=
  ∀ index number request, e = .service (.run index) →
    s.service.main.pending[index]? = some (number, .createReference request) →
      Committed s.service

/-- Neither the client nor a reference is ahead of the pack. -/
def Durable (s : Push) (e : PushEvent) (next : Push) : Prop :=
  UnpackWaits s e next ∧ ReferencesWait s e next

theorem Quiet.not_committed {handle : Option RepositoryHandle} {s : GitService}
    {status : RequestStatus} {unread : List ReceivePackRequest}
    (h : Quiet handle s status unread) : ¬ Committed s := by
  rintro ⟨number, result, hmem, -⟩
  exact h.uncommitted number result hmem

/-- A push that is stalled comes neither to "unpack ok" nor to a reference. -/
theorem Stalled.durable {libs : Nat → Lib} {s next : Push} {e : PushEvent} (h : Stalled s)
    (hstep : s.step libs e = some next) : Durable s e next := by
  constructor
  · rintro rfl
    have hprogram := h.client.program
    simp only [Push.step] at hstep
    split at hstep
    · rename_i hunpackOk
      rw [hunpackOk] at hprogram
      exact hprogram.elim
    · cases hstep
  · intro index number request _ hentry
    obtain ⟨msg, hmsg⟩ := h.service.pending _ (List.mem_of_getElem? hentry)
    cases hmsg

/-- What a push with a pack does depends on the slot. Without a pack writer its
first append ends the server process, and nothing is out of order. With one,
whatever comes of its appends and its commit, among the orders of its steps
there is one that sends "unpack ok" ahead of the commit. -/
theorem push_durable_iff (libs : Nat → Lib) (upload : PackUpload) (hchunks : upload.chunks ≠ [])
    (manager : RepositoryManager) :
    (∀ es, Always (Push.step libs) Durable (Push.start manager upload) es) ↔
      ¬ CanAppend manager := by
  constructor
  · rintro hall ⟨g, hslot, hwp⟩
    obtain ⟨es, s, hexec, hquiet, hprogram, -⟩ := exec_push libs hchunks hslot hwp
    obtain ⟨next, hnext⟩ : ∃ next, s.step libs .encodeUnpackOk = some next := by
      simp only [Push.step, hprogram]
      exact ⟨_, rfl⟩
    have hdurable := always_iff_forall_step.mp (hall (es ++ [.encodeUnpackOk])) es
      .encodeUnpackOk [] rfl s next hexec hnext
    exact hquiet.not_committed (hdurable.1 rfl)
  · intro hslot es
    apply always_of_invariant (fun s e next hs hstep => ?_) (stalled_start hslot upload) es
    exact ⟨hs.step hstep, hs.durable hstep⟩

/-- A manager with the repository open. -/
def openedManager : RepositoryManager :=
  ⟨some ⟨"new-server", DEFAULT_REPO_PATH ++ "new-server",
    some ⟨DEFAULT_REPO_PATH ++ "new-server"⟩, some ⟨DEFAULT_REPO_PATH ++ "new-server"⟩,
    some ⟨[]⟩⟩, 0⟩

/-- One chunk and one reference. -/
def smallUpload : PackUpload :=
  ⟨[[80]], [("refs/heads/master", "a94a8fe5ccb19ba61c4c0873d391e987982fbbd3")], by decide⟩

theorem push_durable_iff_small :
    (¬ ∀ es, Always (Push.step fun _ => Lib.allOk) Durable
        (Push.start openedManager smallUpload) es) ∧
      ∀ es, Always (Push.step fun _ => Lib.allOk) Durable
        (Push.start RepositoryManager.init smallUpload) es := by
  have hopened : CanAppend openedManager := ⟨_, rfl, rfl⟩
  have hempty : ¬ CanAppend RepositoryManager.init := by
    rintro ⟨g, hslot, -⟩
    cases hslot
  exact ⟨fun hall => (push_durable_iff _ smallUpload (by decide) openedManager).mp hall hopened,
    (push_durable_iff _ smallUpload (by decide) RepositoryManager.init).mpr hempty⟩

/-- The upload, up to the point where the client has its last reply. -/
def hastyRun : List PushEvent :=
  [.read, .connect none, .service (.recvPack ⟨.CONNECT, 0⟩ true), .send none,
    .service (.recvPack ⟨.READ, 0⟩ true), .recv none,
    .service (.recvPack ⟨.WRITE, 0⟩ true), .service (.run 0), .service .recvPackResume,
    .read, .send none, .service (.recvPack ⟨.READ, 0⟩ true), .recv none]

/-- The client is told "unpack ok" while only the append has run. -/
theorem unpack_ok_before_commit :
    ¬ Always (Push.step fun _ => Lib.allOk) Durable (Push.start openedManager smallUpload)
      (hastyRun ++ [.encodeUnpackOk]) := by
  intro hall
  obtain ⟨s, next, hrun, hnext, hresults⟩ : ∃ s next,
      exec (Push.step fun _ => Lib.allOk) (Push.start openedManager smallUpload) hastyRun =
          some s ∧
        s.step (fun _ => Lib.allOk) .encodeUnpackOk = some next ∧
        s.service.main.results.map (fun entry => entry.2.1) =
          [.packAppend { repoName := "new-server", data := [80] }] :=
    ⟨_, _, rfl, rfl, rfl⟩
  obtain ⟨number, result, hmem, -⟩ :=
    (always_iff_forall_step.mp hall hastyRun .encodeUnpackOk [] rfl s next hrun hnext).1 rfl
  have hcall : RepoProxyCall.packCommit ∈ s.service.main.results.map fun entry => entry.2.1 :=
    List.mem_map_of_mem hmem
  rw [hresults] at hcall
  simp at hcall

theorem createReference_opened {g : GitRepo} (hrepo : g.repo.isSome) (lib : Lib)
    (refRev refName : String) : ∃ ran, g.createReference lib refRev refName = .ok ran := by
  obtain ⟨handle, hrepo⟩ := Option.isSome_iff_exists.mp hrepo
  simp only [GitRepo.createReference, hrepo]
  split
  · exact ⟨_, rfl⟩
  · split <;> exact ⟨_, rfl⟩

/-- A reference that waits for Main can be run as long as the repository is
open. -/
theorem reference_runs {libs : Nat → Lib} {s : Push} {number : Nat}
    {request : WriteReferenceRequest} {g : GitRepo}
    (hslot : s.service.manager.currentRepo = some g) (hrepo : g.repo.isSome)
    (hpending : s.service.main.pending = [(number, .createReference request)]) :
    s.service.main.pending[0]? = some (number, .createReference request) ∧
      ∃ next, s.step libs (.service (.run 0)) = some next := by
  have hentry : s.service.main.pending[0]? = some (number, .createReference request) := by
    rw [hpending]
    rfl
  obtain ⟨ran, hran⟩ :=
    createReference_opened hrepo (libs number) request.refRev request.refName
  obtain ⟨outcome, hrun⟩ : ∃ outcome, (RepoProxyCall.createReference request).task.run
      s.service.manager (libs number) = .ok outcome := by
    simp only [RepoProxyCall.task, ManagerTask.run, RepositoryManager.newReference, hslot, hran]
    exact ⟨_, rfl⟩
  exact ⟨hentry, _, step_service rfl rfl (step_run hentry hrun)⟩

/-- While the repository is open, the references of a push are as early as its
"unpack ok". -/
theorem references_never_wait (libs : Nat → Lib) (upload : PackUpload)
    (hchunks : upload.chunks ≠ []) (hrefs : upload.refs ≠ []) {manager : RepositoryManager}
    {g : GitRepo} (hslot : manager.currentRepo = some g) (hopened : g.Opened) :
    ¬ ∀ es, Always (Push.step libs) ReferencesWait (Push.start manager upload) es := by
  intro hall
  obtain ⟨es, s, hexec, hquiet, hprogram, hleft⟩ := exec_push libs hchunks hslot hopened.2.2
  obtain ⟨ref, rest, hlist⟩ := List.exists_cons_of_ne_nil hrefs
  obtain ⟨more, asked, number, hmore, hmanager, hresults, hpending⟩ :=
    exec_reference libs hprogram (hleft.trans hlist) hquiet
  obtain ⟨g', hslot', -, hhandle⟩ := hquiet.opened
  rw [← hmanager] at hslot'
  obtain ⟨hentry, next, hnext⟩ : _ ∧ ∃ next, asked.step libs (.service (.run 0)) = some next :=
    reference_runs hslot' (by rw [hhandle]; exact hopened.1) hpending
  have hwait := always_iff_forall_step.mp (hall ((es ++ more) ++ [.service (.run 0)]))
    (es ++ more) (.service (.run 0)) [] rfl asked next (exec_append_some hexec hmore) hnext
  obtain ⟨n, result, hmem, -⟩ := hwait 0 number _ rfl hentry
  rw [hresults] at hmem
  exact hquiet.uncommitted n result hmem

end GitRpc.Frontend
