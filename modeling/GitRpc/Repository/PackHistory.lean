import GitRpc.Repository.RepositoryManager

/-!
What a commit writes when earlier pushes to the same repository were cut off.
The pack writer lives as long as the object in the slot: opening the name
again keeps the object, and only `CloseRepo` ends it. A push closes the
repository after its references, and not on the ways out before them.
-/

namespace GitRpc.Repository

open Common Library.Runs

/-- One push, with what libgit2 answers to each of its tasks. The references
are those the frontend comes to ask for: it stops at the first refusal. -/
structure Push where
  openLib : Lib
  chunks : List (List UInt8 × Lib)
  commitLib : Lib
  refs : List (WriteReferenceRequest × Lib)

/-- The pack, without the cuts between its chunks. -/
def Push.body (push : Push) : List UInt8 := push.chunks.flatMap Prod.fst

/-- From the open to the commit. -/
def Push.upload (push : Push) (repoName : String) : List (ManagerTask × Lib) :=
  (.openRepo repoName, push.openLib) ::
    push.chunks.map (fun chunk => (.appendDataToPack chunk.1, chunk.2)) ++
    [(.commitPackChanges, push.commitLib)]

def Push.tasks (push : Push) (repoName : String) : List (ManagerTask × Lib) :=
  push.upload repoName ++
    push.refs.map (fun ref => (.newReference ref.1.refName ref.1.refRev, ref.2)) ++
    [(.closeRepo, Lib.allOk)]

/-- Earlier pushes, each with the number of its tasks that were posted. -/
def historyTasks (repoName : String) (history : List (Push × Nat)) :
    List (ManagerTask × Lib) :=
  history.flatMap fun cut => (cut.1.tasks repoName).take cut.2

/-- The manager, and every call that may have changed a repository so far. -/
structure Logged where
  manager : RepositoryManager
  log : List Change
  deriving DecidableEq

def Logged.init : Logged := ⟨.init, []⟩

def loggedStep (s : Logged) (e : ManagerTask × Lib) : Option Logged :=
  (e.1.run s.manager e.2).toOption.map fun outcome =>
    ⟨outcome.manager, s.log ++ outcome.changes⟩

def RepoCall.committedBytes : RepoCall → Option (List UInt8)
  | .commit handed => some handed
  | _ => none

/-- What the latest commit wrote. -/
def Logged.committed (s : Logged) : Option (List UInt8) :=
  (s.log.filterMap fun change => change.call.committedBytes).getLast?

/-- The bytes on the pack writer after a task, when `bytes` were on it. -/
def leftoverAfter (bytes : List UInt8) : ManagerTask → List UInt8
  | .closeRepo => []
  | .appendDataToPack data => bytes ++ data
  | _ => bytes

/-- The pack data that was appended since the last close. -/
def leftover (es : List (ManagerTask × Lib)) : List UInt8 :=
  es.foldl (fun bytes e => leftoverAfter bytes e.1) []

/-- What the pack writer in the slot has been handed. -/
def residue (m : RepositoryManager) : List UInt8 :=
  match m.currentRepo with
  | none => []
  | some g => g.wp.elim [] WritePack.handed

/-- The slot is free or holds this repository, with `bytes` on its writer. -/
structure Carries (m : RepositoryManager) (repoName : String) (bytes : List UInt8) : Prop where
  name : ∀ g, m.currentRepo = some g → g.name = repoName
  bytes : residue m = bytes

/-- The task opens no other repository. -/
def ForRepo (repoName : String) (task : ManagerTask) : Prop :=
  ∀ other, task = .openRepo other → other = repoName

theorem loggedStep_eq_some {s next : Logged} {e : ManagerTask × Lib} :
    loggedStep s e = some next ↔
      ∃ outcome, e.1.run s.manager e.2 = .ok outcome ∧
        next = ⟨outcome.manager, s.log ++ outcome.changes⟩ := by
  rw [loggedStep, toOption_map_eq_some]
  simp only [eq_comm]

theorem carries_free {repoName : String} {count : Int} :
    Carries ⟨none, count⟩ repoName [] := by
  refine ⟨?_, rfl⟩
  rintro g ⟨⟩

theorem carries_open {m : RepositoryManager} {lib : Lib} {repoName : String}
    {bytes : List UInt8} {outcome : Outcome} (h : Carries m repoName bytes)
    (hrun : m.openRepo lib repoName = .ok outcome) :
    Carries outcome.manager repoName bytes := by
  cases hslot : m.currentRepo with
  | none =>
      have hbytes : [] = bytes := by simpa [residue, hslot] using h.bytes
      subst hbytes
      rw [openRepo_other lib (by simp [hslot])] at hrun
      obtain ⟨fresh, hnew, rfl⟩ := openNew_ok hrun
      obtain ⟨hname, -, hwp, -⟩ := GitRepo.open_new hnew lib
      refine ⟨?_, ?_⟩
      · rintro g ⟨⟩
        exact hname
      · rcases hwp with hwp | hwp <;> simp [residue, hwp]
  | some g =>
      obtain rfl := h.name g hslot
      rw [openRepo_again lib hslot] at hrun
      cases hrun
      exact ⟨h.name, h.bytes⟩

/-- An append that runs has a writer to run on, and adds to it. -/
theorem carries_append {m : RepositoryManager} {lib : Lib} {repoName : String}
    {bytes data : List UInt8} {outcome : Outcome} (h : Carries m repoName bytes)
    (hrun : m.appendDataToPack lib data = .ok outcome) :
    Carries outcome.manager repoName (bytes ++ data) := by
  unfold RepositoryManager.appendDataToPack at hrun
  cases hslot : m.currentRepo with
  | none => simp [hslot] at hrun
  | some g =>
      simp only [hslot] at hrun
      obtain ⟨ran, hran, rfl⟩ := finish_ok hrun
      obtain ⟨wp, hwp, rfl⟩ := packAppend_ok hran
      have hbytes : wp.handed = bytes := by simpa [residue, hslot, hwp] using h.bytes
      refine ⟨?_, ?_⟩
      · rintro _ ⟨⟩
        exact h.name g hslot
      · simp [residue, hbytes]

/-- An operation that gives the object back as it was. -/
theorem carries_finish {m : RepositoryManager} {g : GitRepo} {repoName : String}
    {bytes : List UInt8} {ran : Except Fault Ran} {outcome : Outcome}
    (h : Carries m repoName bytes) (hslot : m.currentRepo = some g)
    (hsame : ∀ r, ran = .ok r → r.repo = g) (hrun : m.finish ran = .ok outcome) :
    Carries outcome.manager repoName bytes := by
  obtain ⟨r, hr, rfl⟩ := finish_ok hrun
  have hkept : ({ m with currentRepo := some r.repo } : RepositoryManager) = m := by
    rw [hsame r hr, ← hslot]
  rw [hkept]
  exact h

/-- A commit that runs writes everything the writer carries. -/
theorem commit_writes {m : RepositoryManager} {lib : Lib} {repoName : String}
    {bytes : List UInt8} {outcome : Outcome} (h : Carries m repoName bytes)
    (hrun : m.commitPackChanges lib = .ok outcome) :
    Carries outcome.manager repoName bytes ∧
      (m.currentRepo.isSome → ∃ ok, outcome.changes = [⟨repoName, .commit bytes, ok⟩]) := by
  unfold RepositoryManager.commitPackChanges at hrun
  cases hslot : m.currentRepo with
  | none =>
      simp only [hslot, Except.ok.injEq] at hrun
      subst hrun
      exact ⟨h, by simp⟩
  | some g =>
      simp only [hslot] at hrun
      refine ⟨carries_finish h hslot (fun r hr => ?_) hrun, fun _ => ?_⟩
      · obtain ⟨wp, -, rfl⟩ := packCommit_ok hr
        rfl
      · obtain ⟨ran, hran, rfl⟩ := finish_ok hrun
        obtain ⟨wp, hwp, rfl⟩ := packCommit_ok hran
        have hbytes : wp.handed = bytes := by simpa [residue, hslot, hwp] using h.bytes
        exact ⟨_, by rw [h.name g hslot, hbytes]⟩

/-- One task: the writer carries what `leftoverAfter` says. -/
theorem run_carries {m : RepositoryManager} {e : ManagerTask × Lib} {repoName : String}
    {bytes : List UInt8} {outcome : Outcome} (h : Carries m repoName bytes)
    (hfor : ForRepo repoName e.1) (hrun : e.1.run m e.2 = .ok outcome) :
    Carries outcome.manager repoName (leftoverAfter bytes e.1) := by
  obtain ⟨task, lib⟩ := e
  cases task with
  | openRepo other =>
      obtain rfl := hfor other rfl
      exact carries_open h hrun
  | closeRepo =>
      rw [closeRepo_ok hrun]
      exact carries_free
  | appendDataToPack data => exact carries_append h hrun
  | commitPackChanges => exact (commit_writes h hrun).1
  | newReference refName refRev =>
      cases hslot : m.currentRepo with
      | none =>
          simp only [ManagerTask.run, RepositoryManager.newReference, hslot,
            Except.ok.injEq] at hrun
          subst hrun
          exact h
      | some g =>
          simp only [ManagerTask.run, RepositoryManager.newReference, hslot] at hrun
          exact carries_finish h hslot (fun r hr => (createReference_ok hr).1) hrun
  | getRepoRefs iteration unset =>
      cases hslot : m.currentRepo with
      | none =>
          simp only [ManagerTask.run, RepositoryManager.getRepoRefs, hslot,
            Except.ok.injEq] at hrun
          subst hrun
          exact h
      | some g =>
          simp only [ManagerTask.run, RepositoryManager.getRepoRefs, hslot] at hrun
          cases hrefs : g.getRepoReferences iteration unset with
          | error fault => simp [hrefs] at hrun
          | ok refs =>
              simp only [hrefs, Except.ok.injEq] at hrun
              subst hrun
              exact h

/-- Any sequence of tasks for one repository. -/
theorem exec_carries {repoName : String} {es : List (ManagerTask × Lib)} {s finish : Logged}
    {bytes : List UInt8} (h : Carries s.manager repoName bytes)
    (hfor : ∀ e ∈ es, ForRepo repoName e.1) (hrun : exec loggedStep s es = some finish) :
    Carries finish.manager repoName
      (es.foldl (fun bytes e => leftoverAfter bytes e.1) bytes) := by
  induction es generalizing s bytes with
  | nil =>
      cases hrun
      exact h
  | cons e rest ih =>
      obtain ⟨next, hnext, hrest⟩ := Option.bind_eq_some_iff.mp hrun
      obtain ⟨outcome, houtcome, rfl⟩ := loggedStep_eq_some.mp hnext
      have hone := run_carries h (hfor e (by simp)) houtcome
      exact ih hone (fun e' he' => hfor e' (by simp [he'])) hrest

theorem Push.tasks_forRepo (push : Push) (repoName : String) :
    ∀ e ∈ push.tasks repoName, ForRepo repoName e.1 := by
  intro e he other hopen
  simp only [Push.tasks, Push.upload, List.cons_append, List.nil_append, List.append_assoc,
    List.mem_cons, List.mem_append, List.mem_map, List.not_mem_nil, or_false] at he
  rcases he with rfl | ⟨chunk, -, rfl⟩ | rfl | ⟨ref, -, rfl⟩ | rfl
  · cases hopen
    rfl
  all_goals cases hopen

theorem historyTasks_forRepo (repoName : String) (history : List (Push × Nat)) :
    ∀ e ∈ historyTasks repoName history, ForRepo repoName e.1 := by
  intro e he
  obtain ⟨cut, -, hcut⟩ := List.mem_flatMap.mp he
  exact cut.1.tasks_forRepo repoName e (List.mem_of_mem_take hcut)

theorem leftover_chunks (chunks : List (List UInt8 × Lib)) (bytes : List UInt8) :
    (chunks.map fun chunk => (ManagerTask.appendDataToPack chunk.1, chunk.2)).foldl
        (fun bytes e => leftoverAfter bytes e.1) bytes =
      bytes ++ chunks.flatMap Prod.fst := by
  induction chunks generalizing bytes with
  | nil => simp
  | cons chunk rest ih =>
      rw [List.map_cons, List.foldl_cons, ih, List.flatMap_cons]
      exact List.append_assoc bytes chunk.1 (rest.flatMap Prod.fst)

/-- After an open and any appends that ran, the slot is taken. -/
theorem exec_chunks_slot {chunks : List (List UInt8 × Lib)} {s finish : Logged}
    (hslot : s.manager.currentRepo.isSome)
    (hrun : exec loggedStep s
      (chunks.map fun chunk => (ManagerTask.appendDataToPack chunk.1, chunk.2)) = some finish) :
    finish.manager.currentRepo.isSome := by
  induction chunks generalizing s with
  | nil =>
      cases hrun
      exact hslot
  | cons chunk rest ih =>
      obtain ⟨next, hnext, hrest⟩ := Option.bind_eq_some_iff.mp hrun
      obtain ⟨outcome, houtcome, rfl⟩ := loggedStep_eq_some.mp hnext
      obtain ⟨g, hg⟩ := Option.isSome_iff_exists.mp hslot
      simp only [ManagerTask.run, RepositoryManager.appendDataToPack, hg] at houtcome
      obtain ⟨ran, -, rfl⟩ := finish_ok houtcome
      exact ih rfl hrest

/-- A push that runs alone commits what was on the writer, and then its body. -/
theorem upload_commits {push : Push} {repoName : String} {s finish : Logged}
    {bytes : List UInt8} (h : Carries s.manager repoName bytes)
    (hrun : exec loggedStep s (push.upload repoName) = some finish) :
    finish.committed = some (bytes ++ push.body) := by
  unfold Push.upload at hrun
  rw [List.cons_append, exec_cons] at hrun
  obtain ⟨afterOpen, hopen, hrest⟩ := Option.bind_eq_some_iff.mp hrun
  rw [exec_append] at hrest
  obtain ⟨afterChunks, hchunks, hcommit⟩ := Option.bind_eq_some_iff.mp hrest
  obtain ⟨outcome, houtcome, rfl⟩ := loggedStep_eq_some.mp hopen
  obtain ⟨g, hg, -⟩ := openRepo_slot houtcome
  have hslot := exec_chunks_slot (Option.isSome_of_eq_some hg) hchunks
  have hcarries : Carries afterChunks.manager repoName (bytes ++ push.body) := by
    have hall := exec_carries (carries_open h houtcome) ?_ hchunks
    · rwa [leftover_chunks] at hall
    · intro e he other hother
      obtain ⟨chunk, -, rfl⟩ := List.mem_map.mp he
      cases hother
  obtain ⟨final, hfinal, hdone⟩ := Option.bind_eq_some_iff.mp hcommit
  cases hdone
  obtain ⟨commit, hcommitted, rfl⟩ := loggedStep_eq_some.mp hfinal
  obtain ⟨ok, hchanges⟩ := (commit_writes hcarries hcommitted).2 hslot
  simp [Logged.committed, hchanges, RepoCall.committedBytes]

/-- After any history of pushes to one repository, each cut off anywhere, a
push commits its own body exactly when no appended data outlived the last
close. -/
theorem commit_is_body_iff_no_leftover (repoName : String) (history : List (Push × Nat))
    (push : Push) (finish : Logged)
    (hrun : exec loggedStep Logged.init
      (historyTasks repoName history ++ push.upload repoName) = some finish) :
    finish.committed = some push.body ↔ leftover (historyTasks repoName history) = [] := by
  rw [exec_append] at hrun
  obtain ⟨before, hhistory, hupload⟩ := Option.bind_eq_some_iff.mp hrun
  have hcarries : Carries before.manager repoName (leftover (historyTasks repoName history)) :=
    exec_carries carries_free (historyTasks_forRepo repoName history) hhistory
  rw [upload_commits hcarries hupload]
  simp

/-- A push whose chunk holds these bytes, and for which every call succeeds. -/
def Push.ofChunk (data : List UInt8) : Push := ⟨Lib.allOk, [(data, Lib.allOk)], Lib.allOk, []⟩

/-- A first push that goes through to its close, and then one more. -/
theorem commit_is_body_after_complete_push :
    ∃ finish, exec loggedStep Logged.init
        (historyTasks "new-server" [(Push.ofChunk [1], 4)] ++
          (Push.ofChunk [2]).upload "new-server") = some finish ∧
      finish.committed = some [2] := by
  refine ⟨_, rfl, ?_⟩
  exact (commit_is_body_iff_no_leftover "new-server" [(Push.ofChunk [1], 4)]
    (Push.ofChunk [2]) _ rfl).mpr rfl

/-- The first push stops between its commit and its close; the second one
commits the first one's data once more in front of its own. -/
theorem commit_repeats_unclosed_push :
    ∃ finish, exec loggedStep Logged.init
        (historyTasks "new-server" [(Push.ofChunk [1], 3)] ++
          (Push.ofChunk [2]).upload "new-server") = some finish ∧
      finish.committed = some [1, 2] ∧ finish.committed ≠ some (Push.ofChunk [2]).body :=
  ⟨_, rfl, by decide, by decide⟩

end GitRpc.Repository
