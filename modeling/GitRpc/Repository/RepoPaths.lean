import GitRpc.Library.Paths
import GitRpc.Repository.OpenArgs
import GitRpc.Requests.Calls

/-!
Where an open leads. The name in a request is appended to `DEFAULT_REPO_PATH`
as it is, up to its first null character, and nobody looks at what is in it;
the constructor of `GitRepo` asserts that there is something.
-/

namespace GitRpc.Repository

open Common Requests Library.Runs Library.Paths

/-- The path is that of a directory below the one that repositories are in. -/
def InsideRepoPath (path : String) : Prop :=
  StrictlyBelow (normal DEFAULT_REPO_PATH.toList) (normal path.toList)

/-- The open of a request for `repoName` comes to its end, with an error reply
or with an open repository whose path is inside. -/
def OpensInside (m : RepositoryManager) (lib : Lib) (repoName : String) : Prop :=
  ∃ outcome text, m.openRepo lib (cString repoName) = .ok outcome ∧
    outcome.promise = [.text text] ∧
      ((RepoStateChange.write text).1.success = false ∨
        ∃ g handle, outcome.manager.currentRepo = some g ∧ g.repo = some handle ∧
          InsideRepoPath handle.path)

/-- The parts of the name lead up by as many directories as they come back
down by the same names, and then to something else. -/
def StaysInside (name : String) : Prop :=
  let way := route (parts name.toList)
  StrictlyBelow (undone (normal DEFAULT_REPO_PATH.toList) way.ups) way.names

instance (name : String) : Decidable (StaysInside name) :=
  inferInstanceAs (Decidable (StrictlyBelow _ _))

def HasName (m : RepositoryManager) (name : String) : Prop :=
  ∃ g, m.currentRepo = some g ∧ g.name = name

/-- libgit2 fails, and what it leaves as its last message is not the word for
success. -/
def Refuses (lib : Lib) (name : String) : Prop :=
  ∃ failed, firstOpenError lib (DEFAULT_REPO_PATH ++ name) = some failed ∧
    checkForError failed ≠ "success"

/-- The repository has been opened for the object in the slot. -/
def HasRepo (m : RepositoryManager) : Prop := ∃ g, m.currentRepo = some g ∧ g.repo.isSome

/-- The name is not empty. If it is in the slot, it stays inside, and so far
the repository behind it has been opened; if it is not, libgit2 refuses it, or
it stays inside and libgit2 can open it. -/
def Admissible (m : RepositoryManager) (lib : Lib) (name : String) : Prop :=
  name ≠ "" ∧
    ((HasName m name ∧ HasRepo m ∧ StaysInside name) ∨
      (¬ HasName m name ∧ (Refuses lib name ∨
        ((lib (.repositoryOpenBare (DEFAULT_REPO_PATH ++ name))).errCode = 0 ∧
          StaysInside name))))

theorem repoPath_ends_with_slash :
    DEFAULT_REPO_PATH.toList = "/home/rstat1/Apps/test".toList ++ ['/'] := by
  rfl

/-- What matters is where the name leads from the directory. -/
theorem insideRepoPath_iff (name : String) :
    InsideRepoPath (DEFAULT_REPO_PATH ++ name) ↔ StaysInside name := by
  have hpath : (DEFAULT_REPO_PATH ++ name).toList =
      "/home/rstat1/Apps/test".toList ++ '/' :: name.toList := by
    rw [String.toList_append, repoPath_ends_with_slash]
    simp
  rw [InsideRepoPath, StaysInside, hpath, normal_append_slash, ← repoPath_ends_with_slash]
  exact strictlyBelow_walk_iff _ _

theorem new_ok {name : String} {fresh : GitRepo} (hnew : GitRepo.new name = .ok fresh) :
    name ≠ "" ∧ fresh = ⟨name, DEFAULT_REPO_PATH ++ name, none, none, none⟩ := by
  unfold GitRepo.new at hnew
  split at hnew
  · cases hnew
  · rename_i hname
    cases hnew
    exact ⟨hname, rfl⟩

theorem initWritePackFunctions_repo (g : GitRepo) (lib : Lib) :
    (g.initWritePackFunctions lib).1.repo = g.repo := by
  unfold GitRepo.initWritePackFunctions
  dsimp only
  split <;> rfl

/-- `Open` gets a repository for the path, or none. -/
theorem open_new_repo {name : String} {fresh : GitRepo} (hnew : GitRepo.new name = .ok fresh)
    (lib : Lib) :
    (fresh.Open lib true).1.repo =
      if (lib (.repositoryOpenBare (DEFAULT_REPO_PATH ++ name))).errCode = 0 then
        some ⟨DEFAULT_REPO_PATH ++ name⟩
      else none := by
  obtain ⟨-, rfl⟩ := new_ok hnew
  by_cases hopen : (lib (.repositoryOpenBare (DEFAULT_REPO_PATH ++ name))).errCode = 0
  · by_cases hodb : (lib .repositoryOdb).errCode = 0
    · simp [GitRepo.Open, hopen, hodb, initWritePackFunctions_repo]
    · simp [GitRepo.Open, hopen, hodb]
  · simp [GitRepo.Open, hopen]

/-- The slot holds a named object, and a repository only at its path. -/
def SlotNamed (m : RepositoryManager) : Prop := ∀ g, m.currentRepo = some g →
  g.name ≠ "" ∧ ∀ handle, g.repo = some handle → handle.path = DEFAULT_REPO_PATH ++ g.name

theorem slotNamed_step (m : RepositoryManager) (e : ManagerTask × Lib) (next : RepositoryManager)
    (h : SlotNamed m) (hstep : taskStep m e = some next) : SlotNamed next := by
  obtain ⟨outcome, hrun, rfl⟩ := taskStep_eq_some.mp hstep
  intro left hleft
  rcases run_slot hrun hleft with ⟨repoName, fresh, -, hnew, rfl⟩ | ⟨g, hslot, hname, hrepo, -⟩
  · rw [(GitRepo.open_new hnew e.2).1, open_new_repo hnew]
    refine ⟨(new_ok hnew).1, fun handle hhandle => ?_⟩
    split at hhandle
    · cases hhandle
      rfl
    · cases hhandle
  · rw [hname, hrepo]
    exact h g hslot

theorem write_success_iff (text : String) :
    (RepoStateChange.write text).1.success = false ↔ text ≠ "success" := by
  rw [← Bool.not_eq_true, RepoStateChange.write, finishWith_success]

/-- The name is in the slot, so nothing is opened. -/
theorem opensInside_again {m : RepositoryManager} (h : SlotNamed m) (lib : Lib) {repoName : String}
    (hname : HasName m (cString repoName)) :
    OpensInside m lib repoName ↔ HasRepo m ∧ StaysInside (cString repoName) := by
  obtain ⟨g, hslot, hmine⟩ := hname
  have hrun := openRepo_again lib hslot
  rw [hmine] at hrun
  have hpath : ∀ handle, g.repo = some handle →
      (InsideRepoPath handle.path ↔ StaysInside (cString repoName)) := by
    intro handle hhandle
    rw [(h g hslot).2 handle hhandle, hmine]
    exact insideRepoPath_iff _
  constructor
  · rintro ⟨outcome, text, hrun', hpromise, hreply⟩
    rw [hrun, Except.ok.injEq] at hrun'
    subst hrun'
    cases hpromise
    rcases hreply with hfalse | ⟨g', handle, hslot', hhandle, hinside⟩
    · exact absurd rfl ((write_success_iff "success").mp hfalse)
    · obtain rfl : g = g' := Option.some.inj (hslot.symm.trans hslot')
      exact ⟨⟨g, hslot, by simp [hhandle]⟩, (hpath handle hhandle).mp hinside⟩
  · rintro ⟨⟨g', hslot', hrepo⟩, hstays⟩
    obtain rfl : g = g' := Option.some.inj (hslot.symm.trans hslot')
    obtain ⟨handle, hhandle⟩ := Option.isSome_iff_exists.mp hrepo
    exact ⟨_, "success", hrun, rfl,
      .inr ⟨g, handle, hslot, hhandle, (hpath handle hhandle).mpr hstays⟩⟩

/-- A text that is not the word for success is that of a call that failed. -/
theorem open_text_iff {name : String} {fresh : GitRepo} (hnew : GitRepo.new name = .ok fresh)
    (lib : Lib) : (fresh.Open lib true).2 ≠ "success" ↔ Refuses lib name := by
  have htext := (GitRepo.open_new hnew lib).2.2.2.2
  rw [(new_ok hnew).2] at htext ⊢
  rw [htext, Refuses]
  cases firstOpenError lib (DEFAULT_REPO_PATH ++ name) <;> simp

/-- The name is not in the slot, and the constructor lets it pass. -/
theorem opensInside_new {m : RepositoryManager} (lib : Lib) {repoName : String}
    (hname : ¬ HasName m (cString repoName)) (hsome : cString repoName ≠ "") :
    OpensInside m lib repoName ↔ Refuses lib (cString repoName) ∨
      ((lib (.repositoryOpenBare (DEFAULT_REPO_PATH ++ cString repoName))).errCode = 0 ∧
        StaysInside (cString repoName)) := by
  obtain ⟨fresh, hnew⟩ : ∃ fresh, GitRepo.new (cString repoName) = .ok fresh := by
    simp [GitRepo.new, hsome]
  have hother : ∀ g, m.currentRepo = some g → g.name ≠ cString repoName := by
    intro g hslot hmine
    exact hname ⟨g, hslot, hmine⟩
  obtain ⟨outcome, hrun, hpromise, hslot⟩ : ∃ outcome, m.openRepo lib (cString repoName) = .ok outcome ∧
      outcome.promise = [.text (fresh.Open lib true).2] ∧
      outcome.manager.currentRepo = some (fresh.Open lib true).1 := by
    rw [openRepo_other lib hother]
    simp only [RepositoryManager.openNew, hnew]
    exact ⟨_, rfl, rfl, rfl⟩
  have hends : OpensInside m lib repoName ↔ (fresh.Open lib true).2 ≠ "success" ∨
      ∃ handle, (fresh.Open lib true).1.repo = some handle ∧ InsideRepoPath handle.path := by
    constructor
    · rintro ⟨outcome', text, hrun', hpromise', hreply⟩
      obtain rfl : outcome = outcome' := Except.ok.inj (hrun.symm.trans hrun')
      obtain rfl : (fresh.Open lib true).2 = text := by
        simpa using hpromise.symm.trans hpromise'
      rcases hreply with hfalse | ⟨g, handle, hslot', hhandle⟩
      · exact .inl ((write_success_iff _).mp hfalse)
      · obtain rfl : (fresh.Open lib true).1 = g := Option.some.inj (hslot.symm.trans hslot')
        exact .inr ⟨handle, hhandle⟩
    · rintro (htext | ⟨handle, hhandle⟩)
      · exact ⟨outcome, _, hrun, hpromise, .inl ((write_success_iff _).mpr htext)⟩
      · exact ⟨outcome, _, hrun, hpromise, .inr ⟨_, handle, hslot, hhandle⟩⟩
  rw [hends, open_text_iff hnew, open_new_repo hnew, ← insideRepoPath_iff]
  split
  · rename_i hopen
    simp [hopen]
  · rename_i hopen
    simp [hopen]

theorem opensInside_iff {m : RepositoryManager} (h : SlotNamed m) (lib : Lib) (repoName : String) :
    OpensInside m lib repoName ↔ Admissible m lib (cString repoName) := by
  by_cases hname : HasName m (cString repoName)
  · have hsome : cString repoName ≠ "" := by
      obtain ⟨g, hslot, hmine⟩ := hname
      rw [← hmine]
      exact (h g hslot).1
    rw [opensInside_again h lib hname]
    simp [Admissible, hname, hsome]
  · by_cases hsome : cString repoName = ""
    · refine iff_of_false ?_ fun hadmissible => hadmissible.1 hsome
      rintro ⟨outcome, text, hrun, -⟩
      have hother : ∀ g, m.currentRepo = some g → g.name ≠ cString repoName := by
        intro g hslot hmine
        exact hname ⟨g, hslot, hmine⟩
      rw [openRepo_other lib hother, hsome] at hrun
      cases hrun
    · rw [opensInside_new lib hname hsome]
      simp [Admissible, hname, hsome]

theorem slotNamed_init : SlotNamed .init := by
  intro g hslot
  cases hslot

/-- For every state of the manager that tasks can lead to, every name that a
client may send and whatever libgit2 answers: the open ends with an error
reply or inside exactly when the name is admissible. -/
theorem open_stays_inside_iff (m : RepositoryManager) (hreach : Reachable taskStep .init m)
    (lib : Lib) (repoName : String) :
    OpensInside m lib repoName ↔ Admissible m lib (cString repoName) :=
  opensInside_iff (hreach.invariant slotNamed_init slotNamed_step) lib repoName

theorem not_hasName_init (name : String) : ¬ HasName .init name := by
  rintro ⟨g, hslot, -⟩
  cases hslot

theorem new_server_opens_inside : OpensInside .init Lib.allOk "new-server" := by
  apply (open_stays_inside_iff .init ⟨[], rfl⟩ Lib.allOk "new-server").mpr
  rw [(cString_eq_self "new-server").mpr (by decide)]
  have hstays : StaysInside "new-server" := by decide
  exact ⟨by decide, .inr ⟨not_hasName_init _, .inr ⟨rfl, hstays⟩⟩⟩

/-- The empty name ends the process, and another one leads out. -/
theorem unchecked_names :
    ¬ OpensInside .init Lib.allOk "" ∧ ¬ OpensInside .init Lib.allOk "../secret" := by
  rw [opensInside_iff slotNamed_init, opensInside_iff slotNamed_init,
    (cString_eq_self "").mpr (by decide), (cString_eq_self "../secret").mpr (by decide)]
  have hout : ¬ StaysInside "../secret" := by decide
  have hnever : ¬ Refuses Lib.allOk "../secret" := by
    rintro ⟨failed, hfirst, -⟩
    cases hfirst
  constructor
  · rintro ⟨hsome, -⟩
    exact hsome rfl
  · rintro ⟨-, ⟨hname, -⟩ | ⟨-, hrefuses | ⟨-, hstays⟩⟩⟩
    · exact not_hasName_init _ hname
    · exact hnever hrefuses
    · exact hout hstays

end GitRpc.Repository
