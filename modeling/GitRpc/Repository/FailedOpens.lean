import GitRpc.Repository.RepositoryManager

/-!
What an `OpenRepo` that fails leaves in the manager. The new object has the
slot before `Open` is called on it, and nothing takes it out again; the next
`OpenRepo` compares names only, so it answers "success" for the object whose
`Open` has failed.
-/

namespace GitRpc.Repository

open Common Library.Runs

/-- No task of the run is an `OpenRepo`. -/
def NoOpens (es : List (ManagerTask × Lib)) : Prop :=
  ∀ e ∈ es, ∀ name, e.1 ≠ .openRepo name

/-- An `OpenRepo` that reports a failure has changed nothing, and the next one
for the same name, whatever other tasks come in between, opens the repository
for itself. -/
def FailsCleanly (m : RepositoryManager) (lib : Lib) (repoName : String) : Prop :=
  ∀ outcome, m.openRepo lib repoName = .ok outcome → outcome.promise ≠ [.text "success"] →
    outcome.manager = m ∧
      ∀ es later, NoOpens es → exec taskStep outcome.manager es = some later →
        ∀ retry, later.openRepo retry repoName = later.openNew retry repoName

/-- The open has no failure to report: the constructor does not let the name
pass, or the name is in the slot, or the first call that fails leaves the
word for success behind. -/
def NothingToReport (m : RepositoryManager) (lib : Lib) (repoName : String) : Prop :=
  repoName = "" ∨ (∃ g, m.currentRepo = some g ∧ g.name = repoName) ∨
    ∀ failed, firstOpenError lib (DEFAULT_REPO_PATH ++ repoName) = some failed →
      checkForError failed = "success"

/-- An open that reports a failure was new, and its object has the slot. -/
theorem openRepo_failed {m : RepositoryManager} {lib : Lib} {repoName : String}
    {outcome : Outcome} (hrun : m.openRepo lib repoName = .ok outcome)
    (hfailed : outcome.promise ≠ [.text "success"]) :
    (∀ g, m.currentRepo = some g → g.name ≠ repoName) ∧
      ∃ g, outcome.manager.currentRepo = some g ∧ g.name = repoName := by
  refine ⟨?_, openRepo_slot hrun⟩
  rintro g hslot rfl
  rw [openRepo_again lib hslot] at hrun
  cases hrun
  exact hfailed rfl

/-- A failure to report is reported. -/
theorem openRepo_reports {m : RepositoryManager} {lib : Lib} {repoName : String}
    (hreport : ¬ NothingToReport m lib repoName) :
    ∃ outcome, m.openRepo lib repoName = .ok outcome ∧
      outcome.promise ≠ [.text "success"] := by
  simp only [NothingToReport, not_or, not_exists, not_and, not_forall] at hreport
  obtain ⟨hname, hother, failed, hfirst, htext⟩ := hreport
  obtain ⟨outcome, hrun⟩ : ∃ outcome, m.openNew lib repoName = .ok outcome := by
    simp only [RepositoryManager.openNew, GitRepo.new, hname, if_false]
    exact ⟨_, rfl⟩
  refine ⟨outcome, ?_, ?_⟩
  · rw [openRepo_other lib hother]
    exact hrun
  · obtain ⟨g, text, -, rfl, rfl⟩ := openNew_spec hrun
    simpa [hfirst] using htext

/-- For every manager, every name and whatever libgit2 answers: an open fails
cleanly exactly when it has no failure to report. -/
theorem failsCleanly_iff (m : RepositoryManager) (lib : Lib) (repoName : String) :
    FailsCleanly m lib repoName ↔ NothingToReport m lib repoName := by
  constructor
  · intro hclean
    by_contra hreport
    obtain ⟨outcome, hrun, hfailed⟩ := openRepo_reports hreport
    obtain ⟨hother, g, hslot, hname⟩ := openRepo_failed hrun hfailed
    rw [(hclean outcome hrun hfailed).1] at hslot
    exact hother g hslot hname
  · intro hnothing outcome hrun hfailed
    exfalso
    obtain ⟨hother, -⟩ := openRepo_failed hrun hfailed
    rw [openRepo_other lib hother] at hrun
    rcases hnothing with hempty | ⟨g, hslot, hname⟩ | htext
    · simp [RepositoryManager.openNew, GitRepo.new, hempty] at hrun
    · exact hother g hslot hname
    · apply hfailed
      obtain ⟨g, text, -, rfl, rfl⟩ := openNew_spec hrun
      cases hfirst : firstOpenError lib (DEFAULT_REPO_PATH ++ repoName) with
      | none => rfl
      | some failed =>
          rw [Option.elim_some, htext failed hfirst]

/-- An open of "new-server" on an empty slot fails at its first call and keeps
the slot. -/
theorem failed_open_keeps_the_slot :
    ¬ FailsCleanly .init (fun _ => ⟨-3, some "not a repository"⟩) "new-server" := by
  intro hclean
  obtain ⟨outcome, hrun, hpromise, hslot⟩ : ∃ outcome,
      RepositoryManager.init.openRepo (fun _ => ⟨-3, some "not a repository"⟩) "new-server" =
          .ok outcome ∧
        outcome.promise = [.text "not a repository"] ∧ outcome.manager.currentRepo.isSome :=
    ⟨_, rfl, rfl, rfl⟩
  have hsame := (hclean outcome hrun (by rw [hpromise]; decide)).1
  rw [hsame] at hslot
  cases hslot

end GitRpc.Repository
