import GitRpc.Library.Runs
import GitRpc.Repository.ReferenceList

/-!
`RepositoryManager`: one slot for an open repository, a counter of repeated
opens, and the tasks that the Main pump runs on them. A task reports through
the promise in its argument; `Outcome.promise` lists every value it sets.

`OpenRepoArgs` carries the name as a pointer into the caller's string. The
tasks here get the name itself.
-/

namespace GitRpc.Repository

open Common Library.Runs

/-- The value range of `std::atomic<int>`, which wraps on overflow. -/
def int32 (x : Int) : Int := (x + 2 ^ 31) % 2 ^ 32 - 2 ^ 31

theorem int32_of_range {x : Int} (hlow : -2 ^ 31 ≤ x) (hhigh : x < 2 ^ 31) :
    int32 x = x := by
  unfold int32
  omega

structure RepositoryManager where
  currentRepo : Option GitRepo
  repoRefCnt : Int
  deriving DecidableEq

/-- After `Init`; the singleton's pointer starts out null. -/
def RepositoryManager.init : RepositoryManager := ⟨none, 0⟩

inductive Reply where
  | text (result : String)
  | refs (response : GetRefsResponse)
  deriving DecidableEq

structure Outcome where
  manager : RepositoryManager
  promise : List Reply
  changes : List Change
  deriving DecidableEq

/-- The tasks. A listing comes with what libgit2 answers to its loop, and with
what its unset pointers hold. -/
inductive ManagerTask where
  | openRepo (repoName : String)
  | closeRepo
  | appendDataToPack (data : List UInt8)
  | commitPackChanges
  | newReference (refName refRev : String)
  | getRepoRefs (iteration : RefIteration) (unset : UnsetPointers)

namespace RepositoryManager

/-- The first branch of `OpenRepo`. The object that was open before is not
deleted, and the slot is taken before the new object is known to be usable. -/
def openNew (m : RepositoryManager) (lib : Lib) (repoName : String) :
    Except Fault Outcome :=
  match GitRepo.new repoName with
  | .error fault => .error fault
  | .ok fresh =>
      let (g, result) := fresh.Open lib true
      .ok ⟨⟨some g, if result = "success" then 0 else m.repoRefCnt⟩, [.text result], []⟩

def openRepo (m : RepositoryManager) (lib : Lib) (repoName : String) :
    Except Fault Outcome :=
  match m.currentRepo with
  | none => m.openNew lib repoName
  | some g =>
      if repoName ≠ g.name then m.openNew lib repoName
      else .ok ⟨{ m with repoRefCnt := int32 (m.repoRefCnt + 1) }, [.text "success"], []⟩

def closeRepo (m : RepositoryManager) : Except Fault Outcome :=
  match m.currentRepo with
  | none => .ok ⟨⟨none, 0⟩, [], []⟩
  | some g =>
      match g.destroy with
      | .error fault => .error fault
      | .ok () => .ok ⟨⟨none, 0⟩, [], []⟩

/-- Put an operation's result back into the slot and on the promise. -/
def finish (m : RepositoryManager) : Except Fault Ran → Except Fault Outcome
  | .error fault => .error fault
  | .ok ran => .ok ⟨{ m with currentRepo := some ran.repo }, [.text ran.ret], ran.changes⟩

/-- The only task that does not check the slot for null. -/
def appendDataToPack (m : RepositoryManager) (lib : Lib) (data : List UInt8) :
    Except Fault Outcome :=
  match m.currentRepo with
  | none => .error .nullCurrentRepo
  | some g => m.finish (g.packAppend lib data)

def commitPackChanges (m : RepositoryManager) (lib : Lib) : Except Fault Outcome :=
  match m.currentRepo with
  | none => .ok ⟨m, [.text "repo not open"], []⟩
  | some g => m.finish (g.packCommit lib)

def newReference (m : RepositoryManager) (lib : Lib) (refName refRev : String) :
    Except Fault Outcome :=
  match m.currentRepo with
  | none => .ok ⟨m, [.text "nope"], []⟩
  | some g => m.finish (g.createReference lib refRev refName)

def getRepoRefs (m : RepositoryManager) (iteration : RefIteration) (unset : UnsetPointers) :
    Except Fault Outcome :=
  match m.currentRepo with
  | none => .ok ⟨m, [.refs ⟨false, "no repo open", []⟩], []⟩
  | some g =>
      match g.getRepoReferences iteration unset with
      | .error fault => .error fault
      | .ok refs => .ok ⟨m, [.refs refs], []⟩

end RepositoryManager

/-- What the Main pump does when it invokes a task, with the answers libgit2
gives to the calls the task makes. -/
def ManagerTask.run (m : RepositoryManager) (lib : Lib) : ManagerTask → Except Fault Outcome
  | .openRepo repoName => m.openRepo lib repoName
  | .closeRepo => m.closeRepo
  | .appendDataToPack data => m.appendDataToPack lib data
  | .commitPackChanges => m.commitPackChanges lib
  | .newReference refName refRev => m.newReference lib refName refRev
  | .getRepoRefs iteration unset => m.getRepoRefs iteration unset

/-- One step of the manager. There is no next state after a fault. -/
def taskStep (m : RepositoryManager) (e : ManagerTask × Lib) : Option RepositoryManager :=
  (e.1.run m e.2).toOption.map Outcome.manager

theorem toOption_map_eq_some {ε α β : Type*} {run : Except ε α} {f : α → β} {b : β} :
    run.toOption.map f = some b ↔ ∃ a, run = .ok a ∧ f a = b := by
  cases run <;> simp [Except.toOption]

theorem taskStep_eq_some {m next : RepositoryManager} {e : ManagerTask × Lib} :
    taskStep m e = some next ↔
      ∃ outcome, e.1.run m e.2 = .ok outcome ∧ outcome.manager = next :=
  toOption_map_eq_some

theorem openNew_ok {m : RepositoryManager} {lib : Lib} {repoName : String}
    {outcome : Outcome} (hrun : m.openNew lib repoName = .ok outcome) :
    ∃ fresh, GitRepo.new repoName = .ok fresh ∧
      outcome = ⟨⟨some (fresh.Open lib true).1,
        if (fresh.Open lib true).2 = "success" then 0 else m.repoRefCnt⟩,
        [.text (fresh.Open lib true).2], []⟩ := by
  unfold RepositoryManager.openNew at hrun
  cases hnew : GitRepo.new repoName with
  | error fault => simp [hnew] at hrun
  | ok fresh =>
      simp only [hnew, Except.ok.injEq] at hrun
      exact ⟨fresh, rfl, hrun.symm⟩

/-- What a new open leaves in the manager, and what it puts on its promise. -/
theorem openNew_spec {m : RepositoryManager} {lib : Lib} {repoName : String}
    {outcome : Outcome} (hrun : m.openNew lib repoName = .ok outcome) :
    ∃ g text, g.name = repoName ∧
      text = (firstOpenError lib (DEFAULT_REPO_PATH ++ repoName)).elim "success" checkForError ∧
      outcome = ⟨⟨some g, if text = "success" then 0 else m.repoRefCnt⟩, [.text text], []⟩ := by
  obtain ⟨fresh, hnew, rfl⟩ := openNew_ok hrun
  obtain ⟨hname, -, -, -, htext⟩ := GitRepo.open_new hnew lib
  have hpath : fresh.repoPath = DEFAULT_REPO_PATH ++ repoName := by
    unfold GitRepo.new at hnew
    split at hnew
    · cases hnew
    · cases hnew
      rfl
  rw [hpath] at htext
  exact ⟨_, _, hname, htext, rfl⟩

/-- `OpenRepo` on a name that is not in the slot. -/
theorem openRepo_other {m : RepositoryManager} {repoName : String} (lib : Lib)
    (hother : ∀ g, m.currentRepo = some g → g.name ≠ repoName) :
    m.openRepo lib repoName = m.openNew lib repoName := by
  unfold RepositoryManager.openRepo
  cases hslot : m.currentRepo with
  | none => rfl
  | some g => simp [(hother g hslot).symm]

/-- `OpenRepo` on the name that is in the slot. -/
theorem openRepo_again {m : RepositoryManager} {g : GitRepo} (lib : Lib)
    (hslot : m.currentRepo = some g) :
    m.openRepo lib g.name =
      .ok ⟨{ m with repoRefCnt := int32 (m.repoRefCnt + 1) }, [.text "success"], []⟩ := by
  simp [RepositoryManager.openRepo, hslot]

/-- An open that gets through leaves the named repository in the slot. -/
theorem openRepo_slot {m : RepositoryManager} {lib : Lib} {repoName : String}
    {outcome : Outcome} (hrun : m.openRepo lib repoName = .ok outcome) :
    ∃ g, outcome.manager.currentRepo = some g ∧ g.name = repoName := by
  by_cases hother : ∀ g, m.currentRepo = some g → g.name ≠ repoName
  · rw [openRepo_other lib hother] at hrun
    obtain ⟨g, text, hname, -, rfl⟩ := openNew_spec hrun
    exact ⟨g, rfl, hname⟩
  · push Not at hother
    obtain ⟨g, hslot, rfl⟩ := hother
    rw [openRepo_again lib hslot] at hrun
    cases hrun
    exact ⟨g, hslot, rfl⟩

theorem closeRepo_ok {m : RepositoryManager} {outcome : Outcome}
    (hrun : m.closeRepo = .ok outcome) : outcome = ⟨⟨none, 0⟩, [], []⟩ := by
  unfold RepositoryManager.closeRepo at hrun
  cases hslot : m.currentRepo with
  | none => simpa [hslot, eq_comm] using hrun
  | some g =>
      cases hdestroy : g.destroy with
      | error fault => simp [hslot, hdestroy] at hrun
      | ok => simpa [hslot, hdestroy, eq_comm] using hrun

theorem finish_ok {m : RepositoryManager} {ran : Except Fault Ran} {outcome : Outcome}
    (hrun : m.finish ran = .ok outcome) :
    ∃ r, ran = .ok r ∧
      outcome = ⟨{ m with currentRepo := some r.repo }, [.text r.ret], r.changes⟩ := by
  cases ran with
  | error fault => cases hrun
  | ok r =>
      cases hrun
      exact ⟨r, rfl, rfl⟩

/-- The operations on an open repository keep its name and its handles. -/
theorem packAppend_ok {g : GitRepo} {lib : Lib} {data : List UInt8} {ran : Ran}
    (hrun : g.packAppend lib data = .ok ran) :
    ∃ wp, g.wp = some wp ∧
      ran = ⟨{ g with wp := some ⟨wp.handed ++ data⟩ }, report (lib (.writepackAppend data)),
        [⟨g.name, .append data, (lib (.writepackAppend data)).errCode = 0⟩]⟩ := by
  unfold GitRepo.packAppend at hrun
  cases hwp : g.wp with
  | none => simp [hwp] at hrun
  | some wp =>
      simp only [hwp, Except.ok.injEq] at hrun
      exact ⟨wp, rfl, hrun.symm⟩

theorem packCommit_ok {g : GitRepo} {lib : Lib} {ran : Ran}
    (hrun : g.packCommit lib = .ok ran) :
    ∃ wp, g.wp = some wp ∧
      ran = ⟨g, report (lib .writepackCommit),
        [⟨g.name, .commit wp.handed, (lib .writepackCommit).errCode = 0⟩]⟩ := by
  unfold GitRepo.packCommit at hrun
  cases hwp : g.wp with
  | none => simp [hwp] at hrun
  | some wp =>
      simp only [hwp, Except.ok.injEq] at hrun
      exact ⟨wp, rfl, hrun.symm⟩

theorem createReference_ok {g : GitRepo} {lib : Lib} {refRev refName : String} {ran : Ran}
    (hrun : g.createReference lib refRev refName = .ok ran) :
    ran.repo = g ∧ ∀ change ∈ ran.changes, change.repo = g.name := by
  unfold GitRepo.createReference at hrun
  dsimp only at hrun
  split at hrun
  · cases hrun
    simp
  · split at hrun
    · cases hrun
    · split at hrun
      · cases hrun
        simp
      · cases hrun
        simp

/-- What a task leaves in the slot is new, or was there before and has the
same name and the same handles. -/
theorem run_slot {m : RepositoryManager} {task : ManagerTask} {lib : Lib} {outcome : Outcome}
    (hrun : task.run m lib = .ok outcome) {left : GitRepo}
    (hleft : outcome.manager.currentRepo = some left) :
    (∃ repoName fresh, task = .openRepo repoName ∧ GitRepo.new repoName = .ok fresh ∧
        left = (fresh.Open lib true).1) ∨
      ∃ g, m.currentRepo = some g ∧ left.name = g.name ∧ left.repo = g.repo ∧ left.odb = g.odb ∧
        left.wp.isSome = g.wp.isSome := by
  have hkept : outcome.manager.currentRepo = m.currentRepo →
      ∃ g, m.currentRepo = some g ∧ left.name = g.name ∧ left.repo = g.repo ∧ left.odb = g.odb ∧
        left.wp.isSome = g.wp.isSome := by
    intro hsame
    exact ⟨left, by rw [← hsame, hleft], rfl, rfl, rfl, rfl⟩
  cases task with
  | openRepo repoName =>
      by_cases hother : ∀ g, m.currentRepo = some g → g.name ≠ repoName
      · have hnew : m.openNew lib repoName = .ok outcome := by
          rw [← openRepo_other lib hother]
          exact hrun
        obtain ⟨fresh, hfresh, rfl⟩ := openNew_ok hnew
        exact .inl ⟨repoName, fresh, rfl, hfresh, (Option.some.inj hleft).symm⟩
      · push Not at hother
        obtain ⟨g, hslot, rfl⟩ := hother
        have hagain := (openRepo_again lib hslot).symm.trans hrun
        cases hagain
        exact .inr (hkept rfl)
  | closeRepo =>
      rw [closeRepo_ok hrun] at hleft
      cases hleft
  | appendDataToPack data =>
      cases hslot : m.currentRepo with
      | none => simp [ManagerTask.run, RepositoryManager.appendDataToPack, hslot] at hrun
      | some g =>
          simp only [ManagerTask.run, RepositoryManager.appendDataToPack, hslot] at hrun
          obtain ⟨ran, hran, rfl⟩ := finish_ok hrun
          obtain ⟨wp, hwp, rfl⟩ := packAppend_ok hran
          obtain rfl := Option.some.inj hleft
          exact .inr ⟨g, rfl, rfl, rfl, rfl, by simp [hwp]⟩
  | commitPackChanges =>
      cases hslot : m.currentRepo with
      | none =>
          simp only [ManagerTask.run, RepositoryManager.commitPackChanges, hslot] at hrun
          cases hrun
          simp [hslot] at hleft
      | some g =>
          simp only [ManagerTask.run, RepositoryManager.commitPackChanges, hslot] at hrun
          obtain ⟨ran, hran, rfl⟩ := finish_ok hrun
          obtain ⟨wp, -, rfl⟩ := packCommit_ok hran
          obtain rfl := Option.some.inj hleft
          exact .inr ⟨_, rfl, rfl, rfl, rfl, rfl⟩
  | newReference refName refRev =>
      cases hslot : m.currentRepo with
      | none =>
          simp only [ManagerTask.run, RepositoryManager.newReference, hslot] at hrun
          cases hrun
          simp [hslot] at hleft
      | some g =>
          simp only [ManagerTask.run, RepositoryManager.newReference, hslot] at hrun
          obtain ⟨ran, hran, rfl⟩ := finish_ok hrun
          obtain rfl := Option.some.inj hleft
          exact .inr ⟨g, rfl, by rw [(createReference_ok hran).1], by rw [(createReference_ok hran).1],
            by rw [(createReference_ok hran).1], by rw [(createReference_ok hran).1]⟩
  | getRepoRefs iteration unset =>
      apply Or.inr
      apply hkept
      simp only [ManagerTask.run, RepositoryManager.getRepoRefs] at hrun
      split at hrun
      · cases hrun
        rfl
      · split at hrun
        · cases hrun
        · cases hrun
          rfl

end GitRpc.Repository
