import GitRpc.Repository.RepoProxy

/-!
The libgit2 calls that a task makes, and the text that it puts on its promise.
`Open` and `CreateReference` stop at the first call that fails. A task that
makes no call has a text of its own.
-/

namespace GitRpc.Repository

open Common

/-- The calls of a sequence that gives up after the first failure. -/
def untilFailure : List GitResult → List GitResult
  | [] => []
  | result :: rest => if result.errCode ≠ 0 then [result] else result :: untilFailure rest

def firstFailure (results : List GitResult) : Option GitResult :=
  results.find? fun result => result.errCode ≠ 0

theorem firstFailure_cons (result : GitResult) (rest : List GitResult) :
    firstFailure (result :: rest) =
      if result.errCode ≠ 0 then some result else firstFailure rest := by
  by_cases hfailed : result.errCode = 0
  · simp [firstFailure, hfailed]
  · simp [firstFailure, hfailed]

theorem firstFailure_untilFailure (results : List GitResult) :
    firstFailure (untilFailure results) = firstFailure results := by
  induction results with
  | nil => rfl
  | cons result rest ih =>
      by_cases hfailed : result.errCode ≠ 0
      · simp only [untilFailure, if_pos hfailed, firstFailure_cons]
      · simp only [untilFailure, if_neg hfailed, firstFailure_cons, ih]

theorem untilFailure_ne_nil (result : GitResult) (rest : List GitResult) :
    untilFailure (result :: rest) ≠ [] := by
  unfold untilFailure
  split <;> simp

theorem firstFailure_eq_none {results : List GitResult} :
    firstFailure results = none ↔ ∀ result ∈ results, result.errCode = 0 := by
  rw [firstFailure, List.find?_eq_none]
  refine forall_congr' fun result => imp_congr_right fun _ => ?_
  simp

/-- The results of the calls that the task of a call to `RepoProxy` makes. -/
def callsMade (m : RepositoryManager) (lib : Lib) : RepoProxyCall → List GitResult
  | .openRepo name =>
      if ∃ g ∈ m.currentRepo, g.name = name then []
      else untilFailure [lib (.repositoryOpenBare (DEFAULT_REPO_PATH ++ name)),
        lib .repositoryOdb, lib .odbWritePack]
  | .closeRepo => []
  | .packAppend msg => if m.currentRepo.isSome then [lib (.writepackAppend msg.data)] else []
  | .packCommit => if m.currentRepo.isSome then [lib .writepackCommit] else []
  | .createReference request =>
      if m.currentRepo.isSome then untilFailure [lib (.oidFromstr request.refRev),
        lib (.referenceCreate request.refName), lib (.repositorySetHead request.refName)]
      else []

/-- The text of a task that makes no call. A `CloseRepo` has no promise, and an
append has no such text. -/
def idleText : RepoProxyCall → String
  | .openRepo _ => "success"
  | .packCommit => "repo not open"
  | .createReference _ => "nope"
  | .closeRepo | .packAppend _ => ""

/-- The text that comes of the calls. -/
def textOf (call : RepoProxyCall) (made : List GitResult) : String :=
  match firstFailure made with
  | some failed => checkForError failed
  | none => if made = [] then idleText call else "success"

theorem textOf_singleton (call : RepoProxyCall) (result : GitResult) :
    textOf call [result] = report result := by
  by_cases hok : result.errCode = 0
  · simp [textOf, firstFailure, report, hok]
  · simp [textOf, firstFailure, report, hok]

theorem textOf_untilFailure (call : RepoProxyCall) (result : GitResult) (rest : List GitResult) :
    textOf call (untilFailure (result :: rest)) =
      (firstFailure (result :: rest)).elim "success" checkForError := by
  rw [textOf, firstFailure_untilFailure, if_neg (untilFailure_ne_nil result rest)]
  cases firstFailure (result :: rest) <;> rfl

/-- What a task puts on its promise, in terms of the calls it has made. -/
theorem run_text {m : RepositoryManager} {lib : Lib} {call : RepoProxyCall} {outcome : Outcome}
    (hcall : call ≠ .closeRepo) (hrun : call.task.run m lib = .ok outcome) :
    outcome.promise = [.text (textOf call (callsMade m lib call))] := by
  cases call with
  | closeRepo => exact absurd rfl hcall
  | openRepo name =>
      by_cases hmine : ∃ g ∈ m.currentRepo, g.name = name
      · obtain ⟨g, hslot, rfl⟩ := hmine
        have hagain := (openRepo_again lib hslot).symm.trans hrun
        have hmade : callsMade m lib (.openRepo g.name) = [] := if_pos ⟨g, hslot, rfl⟩
        cases hagain
        rw [hmade]
        rfl
      · have hother : ∀ g, m.currentRepo = some g → g.name ≠ name := by
          intro g hslot hname
          exact hmine ⟨g, hslot, hname⟩
        have hmade : callsMade m lib (.openRepo name) = untilFailure
            [lib (.repositoryOpenBare (DEFAULT_REPO_PATH ++ name)), lib .repositoryOdb,
              lib .odbWritePack] := if_neg hmine
        obtain ⟨g, text, -, rfl, rfl⟩ := openNew_spec ((openRepo_other lib hother).symm.trans hrun)
        rw [hmade, textOf_untilFailure]
        rfl
  | packAppend msg =>
      obtain ⟨g, wp, hslot, -, rfl⟩ := appendDataToPack_ok hrun
      simp only [callsMade, hslot, Option.isSome_some, if_true, textOf_singleton]
  | packCommit =>
      have hcommit : m.commitPackChanges lib = .ok outcome := hrun
      cases hslot : m.currentRepo with
      | none =>
          simp only [RepositoryManager.commitPackChanges, hslot, Except.ok.injEq] at hcommit
          subst hcommit
          simp [callsMade, hslot, textOf, firstFailure, idleText]
      | some g =>
          simp only [RepositoryManager.commitPackChanges, hslot] at hcommit
          obtain ⟨ran, hran, rfl⟩ := finish_ok hcommit
          obtain ⟨wp, -, rfl⟩ := packCommit_ok hran
          simp only [callsMade, hslot, Option.isSome_some, if_true, textOf_singleton]
  | createReference request =>
      rcases newReference_ok hrun with ⟨hslot, rfl⟩ | ⟨g, ran, hslot, hran, rfl⟩
      · simp [callsMade, hslot, textOf, firstFailure, idleText]
      · have hret := (createReference_text hran).1
        simp only [callsMade, hslot, Option.isSome_some, if_true, textOf_untilFailure, hret]
        rfl

end GitRpc.Repository
