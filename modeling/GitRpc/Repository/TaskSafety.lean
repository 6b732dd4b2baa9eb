import GitRpc.Repository.RepositoryManager

/-!
Which manager tasks run to their end. A half-open repository stays in the
slot after a failed `Open`, and four operations and the destructor use its
handles unchecked; `AppendDataToPack` does not check the slot either. The
result is the exact condition on the state in front of a task.

The assertion in the constructor counts as live: only the release
configuration of the build defines `NDEBUG`.
-/

namespace GitRpc.Repository

open Common Library.Runs

/-- How often a task has to fulfil its promise. `CloseRepo` has none. -/
def ManagerTask.promises : ManagerTask → Nat
  | .closeRepo => 0
  | _ => 1

/-- The task runs to its end and fulfils its promise exactly once. -/
def Completes (m : RepositoryManager) (e : ManagerTask × Lib) : Prop :=
  ∃ outcome, e.1.run m e.2 = .ok outcome ∧ outcome.promise.length = e.1.promises

/-- The state, and the answers of libgit2, in which a task can run. -/
def TaskSafe (m : RepositoryManager) : ManagerTask × Lib → Prop
  | (.openRepo repoName, _) =>
      repoName ≠ "" ∨ ∃ g, m.currentRepo = some g ∧ g.name = repoName
  | (.closeRepo, _) => ∀ g, m.currentRepo = some g → g.Opened
  | (.appendDataToPack _, _) => ∃ g, m.currentRepo = some g ∧ g.Opened
  | (.commitPackChanges, _) => ∀ g, m.currentRepo = some g → g.Opened
  | (.newReference _ refRev, lib) => ∀ g, m.currentRepo = some g →
      g.repo.isSome ∨ (lib (.oidFromstr refRev)).errCode ≠ 0
  | (.getRepoRefs iteration unset, _) => ∀ g, m.currentRepo = some g →
      g.repo.isSome ∧ (iteration.created.errCode ≠ 0 ∨
        LoopEnds unset iteration.errors 0 iteration.references)

/-- The object in the slot has its handles in the order of `Open`. -/
def Shaped (m : RepositoryManager) : Prop := ∀ g, m.currentRepo = some g → g.Layered

/-- No task breaks the order of the handles. -/
theorem run_shaped {m : RepositoryManager} {e : ManagerTask × Lib} {outcome : Outcome}
    (hm : Shaped m) (hrun : e.1.run m e.2 = .ok outcome) : Shaped outcome.manager := by
  intro left hleft
  rcases run_slot hrun hleft with ⟨repoName, fresh, -, hfresh, rfl⟩ | ⟨g, hslot, -, hrepo, hodb, hwp⟩
  · exact (GitRepo.open_new hfresh e.2).2.1
  · have hg : g.Layered := hm g hslot
    exact ⟨by rw [hwp, hodb]; exact hg.wp, by rw [hodb, hrepo]; exact hg.odb⟩

theorem taskStep_shaped (m : RepositoryManager) (e : ManagerTask × Lib)
    (next : RepositoryManager) (hm : Shaped m) (hstep : taskStep m e = some next) :
    Shaped next := by
  obtain ⟨outcome, hrun, rfl⟩ := taskStep_eq_some.mp hstep
  exact run_shaped hm hrun

theorem openRepo_completes_iff (m : RepositoryManager) (lib : Lib) (repoName : String) :
    Completes m (.openRepo repoName, lib) ↔ TaskSafe m (.openRepo repoName, lib) := by
  simp only [Completes, TaskSafe, ManagerTask.run, ManagerTask.promises]
  by_cases hother : ∀ g, m.currentRepo = some g → g.name ≠ repoName
  · have hnone : ¬ ∃ g, m.currentRepo = some g ∧ g.name = repoName := by
      rintro ⟨g, hslot, hname⟩
      exact hother g hslot hname
    rw [openRepo_other lib hother]
    by_cases hempty : repoName = ""
    · simpa [RepositoryManager.openNew, GitRepo.new, hempty] using hnone
    · simp [RepositoryManager.openNew, GitRepo.new, hempty]
  · push Not at hother
    obtain ⟨g, hslot, rfl⟩ := hother
    rw [openRepo_again lib hslot]
    exact iff_of_true ⟨_, rfl, rfl⟩ (Or.inr ⟨g, hslot, rfl⟩)

/-- The operations behind `finish` complete exactly when they do not fault. -/
theorem finish_completes_iff (m : RepositoryManager) (ran : Except Fault Ran) :
    (∃ outcome, m.finish ran = .ok outcome ∧ outcome.promise.length = 1) ↔
      ∃ r, ran = .ok r := by
  cases ran <;> simp [RepositoryManager.finish]

theorem packAppend_runs_iff (g : GitRepo) (lib : Lib) (data : List UInt8) :
    (∃ r, g.packAppend lib data = .ok r) ↔ g.wp.isSome := by
  unfold GitRepo.packAppend
  cases g.wp <;> simp

theorem packCommit_runs_iff (g : GitRepo) (lib : Lib) :
    (∃ r, g.packCommit lib = .ok r) ↔ g.wp.isSome := by
  unfold GitRepo.packCommit
  cases g.wp <;> simp

theorem createReference_runs_iff (g : GitRepo) (lib : Lib) (refRev refName : String) :
    (∃ r, g.createReference lib refRev refName = .ok r) ↔
      g.repo.isSome ∨ (lib (.oidFromstr refRev)).errCode ≠ 0 := by
  unfold GitRepo.createReference
  by_cases hparsed : (lib (.oidFromstr refRev)).errCode = 0
  · cases g.repo with
    | none => simp [hparsed]
    | some handle =>
        by_cases hcreated : (lib (.referenceCreate refName)).errCode = 0
        · simp [hparsed, hcreated]
        · simp [hparsed, hcreated]
  · simp [hparsed]

/-- One task, in a state that tasks can lead to: it completes exactly when
the condition holds in front of it. -/
theorem completes_iff {m : RepositoryManager} (hm : Shaped m) (e : ManagerTask × Lib) :
    Completes m e ↔ TaskSafe m e := by
  obtain ⟨task, lib⟩ := e
  cases hslot : m.currentRepo with
  | none =>
      cases task with
      | openRepo repoName => exact openRepo_completes_iff m lib repoName
      | closeRepo | appendDataToPack | commitPackChanges | newReference | getRepoRefs =>
          simp [Completes, TaskSafe, ManagerTask.run, ManagerTask.promises,
            RepositoryManager.closeRepo, RepositoryManager.appendDataToPack,
            RepositoryManager.commitPackChanges, RepositoryManager.newReference,
            RepositoryManager.getRepoRefs, hslot]
  | some g =>
      have hopened : g.Opened ↔ g.wp.isSome := (hm g hslot).opened_iff
      cases task with
      | openRepo repoName => exact openRepo_completes_iff m lib repoName
      | closeRepo =>
          simp only [Completes, TaskSafe, ManagerTask.run, ManagerTask.promises,
            RepositoryManager.closeRepo, hslot, Option.some.injEq, forall_eq']
          rw [← g.destroy_ok_iff]
          cases g.destroy <;> simp
      | appendDataToPack data =>
          simp only [Completes, TaskSafe, ManagerTask.run, ManagerTask.promises,
            RepositoryManager.appendDataToPack, hslot, Option.some.injEq, exists_eq_left']
          rw [finish_completes_iff, packAppend_runs_iff, hopened]
      | commitPackChanges =>
          simp only [Completes, TaskSafe, ManagerTask.run, ManagerTask.promises,
            RepositoryManager.commitPackChanges, hslot, Option.some.injEq, forall_eq']
          rw [finish_completes_iff, packCommit_runs_iff, hopened]
      | newReference refName refRev =>
          simp only [Completes, TaskSafe, ManagerTask.run, ManagerTask.promises,
            RepositoryManager.newReference, hslot, Option.some.injEq, forall_eq']
          rw [finish_completes_iff, createReference_runs_iff]
      | getRepoRefs iteration unset =>
          simp only [Completes, TaskSafe, ManagerTask.run, ManagerTask.promises,
            RepositoryManager.getRepoRefs, hslot, Option.some.injEq, forall_eq']
          rw [← getRepoReferences_runs_iff]
          cases g.getRepoReferences iteration unset <;> simp

/-- Along any sequence of tasks from `Init`, every task that is reached
completes exactly when every task meets its condition. -/
theorem tasks_complete_iff_safe (es : List (ManagerTask × Lib)) :
    Throughout taskStep Completes RepositoryManager.init es ↔
      Throughout taskStep TaskSafe RepositoryManager.init es := by
  have hinit : Shaped RepositoryManager.init := by
    rintro g ⟨⟩
  exact throughout_congr taskStep_shaped (fun _ e hm => completes_iff hm e) hinit es

/-- An append that arrives with no repository open dereferences the null
slot, where a commit answers "repo not open". -/
theorem append_without_open_faults :
    RepositoryManager.init.appendDataToPack Lib.allOk [80] = .error .nullCurrentRepo ∧
      ¬ Throughout taskStep Completes RepositoryManager.init
        [(.appendDataToPack [80], Lib.allOk)] := by
  refine ⟨rfl, ?_⟩
  rintro ⟨⟨outcome, hrun, _⟩, _⟩
  cases hrun

end GitRpc.Repository
