import GitRpc.Repository.RepositoryManager

/-!
`RepoProxy`: the handlers' way to the manager. Every call makes a task out of
its arguments, posts it to Main, and gives back the future of the promise in
the task's argument. A call is shown with the whole request it is made for;
the task gets less than that. `GetReferences` has no caller.
-/

namespace GitRpc.Repository

open Common

inductive RepoProxyCall where
  | openRepo (name : String)
  | closeRepo
  | packAppend (msg : ReceivePackRequest)
  | packCommit
  | createReference (request : WriteReferenceRequest)
  deriving DecidableEq

/-- `WritePackDataArgs` and `NewReferenceArgs` have a field for the name of a
repository, and no call sets it. -/
def RepoProxyCall.task : RepoProxyCall → ManagerTask
  | .openRepo name => .openRepo name
  | .closeRepo => .closeRepo
  | .packAppend msg => .appendDataToPack msg.data
  | .packCommit => .commitPackChanges
  | .createReference request => .newReference request.refName request.refRev

/-- The repository that a request with something to store names. -/
def RepoProxyCall.target : RepoProxyCall → Option String
  | .packAppend msg => some msg.repoName
  | .createReference request => some request.repoName
  | .openRepo _ | .closeRepo | .packCommit => none

/-- What such a request asks to be done there. -/
def RepoProxyCall.effects : RepoProxyCall → List RepoCall
  | .packAppend msg => [.append msg.data]
  | .createReference request =>
      [.createReference request.refName request.refRev, .setHead request.refName]
  | .openRepo _ | .closeRepo | .packCommit => []

/-- What a task leaves behind: the values its promise was given, and what it
did to repositories. -/
structure TaskResult where
  promise : List Reply
  changes : List Change
  deriving DecidableEq

/-- What a handler reads from the future of such a call. -/
def TaskResult.text (result : TaskResult) : Option String :=
  match result.promise with
  | [.text ret] => some ret
  | _ => none

theorem newReference_ok {m : RepositoryManager} {lib : Lib} {refName refRev : String}
    {outcome : Outcome} (hrun : m.newReference lib refName refRev = .ok outcome) :
    (m.currentRepo = none ∧ outcome = ⟨m, [.text "nope"], []⟩) ∨
      ∃ g ran, m.currentRepo = some g ∧ g.createReference lib refRev refName = .ok ran ∧
        outcome = ⟨{ m with currentRepo := some ran.repo }, [.text ran.ret], ran.changes⟩ := by
  unfold RepositoryManager.newReference at hrun
  cases hslot : m.currentRepo with
  | none =>
      simp only [hslot, Except.ok.injEq] at hrun
      exact .inl ⟨rfl, hrun.symm⟩
  | some g =>
      simp only [hslot] at hrun
      obtain ⟨ran, hran, houtcome⟩ := finish_ok hrun
      exact .inr ⟨g, ran, rfl, hran, houtcome⟩

theorem appendDataToPack_ok {m : RepositoryManager} {lib : Lib} {data : List UInt8}
    {outcome : Outcome} (hrun : m.appendDataToPack lib data = .ok outcome) :
    ∃ g wp, m.currentRepo = some g ∧ g.wp = some wp ∧
      outcome = ⟨{ m with currentRepo := some { g with wp := some ⟨wp.handed ++ data⟩ } },
        [.text (report (lib (.writepackAppend data)))],
        [⟨g.name, .append data, (lib (.writepackAppend data)).errCode = 0⟩]⟩ := by
  unfold RepositoryManager.appendDataToPack at hrun
  cases hslot : m.currentRepo with
  | none => simp [hslot] at hrun
  | some g =>
      simp only [hslot] at hrun
      obtain ⟨ran, hran, rfl⟩ := finish_ok hrun
      obtain ⟨wp, hwp, rfl⟩ := packAppend_ok hran
      exact ⟨g, wp, rfl, hwp, rfl⟩

/-- The first of the three calls of `CreateReference` that fails, if one
does. -/
def firstReferenceError (lib : Lib) (refName refRev : String) : Option GitResult :=
  [lib (.oidFromstr refRev), lib (.referenceCreate refName),
    lib (.repositorySetHead refName)].find? fun result => result.errCode ≠ 0

/-- `CreateReference` in one view: the text is that of the first call that
failed, and when none failed it has made both changes. -/
theorem createReference_text {g : GitRepo} {lib : Lib} {refRev refName : String} {ran : Ran}
    (hrun : g.createReference lib refRev refName = .ok ran) :
    ran.ret = (firstReferenceError lib refName refRev).elim "success" checkForError ∧
      (firstReferenceError lib refName refRev = none →
        ran.changes = [⟨g.name, .createReference refName refRev, true⟩,
          ⟨g.name, .setHead refName, true⟩]) := by
  unfold GitRepo.createReference at hrun
  by_cases hoid : (lib (.oidFromstr refRev)).errCode = 0
  · cases hrepo : g.repo with
    | none => simp [hoid, hrepo] at hrun
    | some handle =>
        by_cases hcreate : (lib (.referenceCreate refName)).errCode = 0
        · have hran : ran = ⟨g, report (lib (.repositorySetHead refName)),
              [⟨g.name, .createReference refName refRev, true⟩, ⟨g.name, .setHead refName,
                (lib (.repositorySetHead refName)).errCode = 0⟩]⟩ := by
            simpa [hoid, hrepo, hcreate, eq_comm] using hrun
          by_cases hhead : (lib (.repositorySetHead refName)).errCode = 0
          · simp [hran, firstReferenceError, report, hoid, hcreate, hhead]
          · simp [hran, firstReferenceError, report, hoid, hcreate, hhead]
        · have hran : ran = ⟨g, checkForError (lib (.referenceCreate refName)),
              [⟨g.name, .createReference refName refRev, false⟩]⟩ := by
            simpa [hoid, hrepo, hcreate, eq_comm] using hrun
          simp [hran, firstReferenceError, hoid, hcreate]
  · have hran : ran = ⟨g, checkForError (lib (.oidFromstr refRev)), []⟩ := by
      simpa [hoid, eq_comm] using hrun
    simp [hran, firstReferenceError, hoid]

end GitRpc.Repository
