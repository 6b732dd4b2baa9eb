import GitRpc.Common.GitServiceCommon

/-!
`GitRepo`: one bare repository and the pack writer on it. The constructor
initialises none of the three handles; `Open` sets them one after the other
and stops at the first libgit2 call that fails, so an object may be left with
none, one or two of them. A handle that no successful call has set is `none`
here, and using it is a `Fault`.
-/

namespace GitRpc.Repository

open Common

/-- What ends the server process, or leaves it in undefined behaviour. -/
inductive Fault where
  | assertionFailed
  | nullCurrentRepo
  | repoUnset
  | odbUnset
  | wpUnset
  | pointerUnset
  deriving DecidableEq

def DEFAULT_REPO_PATH : String := "/home/rstat1/Apps/test/"

structure RepositoryHandle where
  path : String
  deriving DecidableEq

structure OdbHandle where
  path : String
  deriving DecidableEq

/-- A `git_odb_writepack`: it accumulates what every `append` since its
creation handed to it. -/
structure WritePack where
  handed : List UInt8
  deriving DecidableEq

structure GitRepo where
  name : String
  repoPath : String
  repo : Option RepositoryHandle
  odb : Option OdbHandle
  wp : Option WritePack
  deriving DecidableEq

/-- The libgit2 calls that may change a repository. A commit is shown with
all the bytes its pack writer was handed. -/
inductive RepoCall where
  | append (data : List UInt8)
  | commit (handed : List UInt8)
  | createReference (refName refRev : String)
  | setHead (refName : String)
  deriving DecidableEq

/-- One such call, the name of the `GitRepo` it was made on, and whether
libgit2 returned 0. -/
structure Change where
  repo : String
  call : RepoCall
  ok : Bool
  deriving DecidableEq

/-- The end of an operation on an open repository. -/
structure Ran where
  repo : GitRepo
  ret : String
  changes : List Change
  deriving DecidableEq

structure ReferenceInfo where
  refName : String
  refHash : String
  deriving DecidableEq

structure GetRefsResponse where
  success : Bool
  error : String
  refs : List ReferenceInfo
  deriving DecidableEq

def GitRepo.new (name : String) : Except Fault GitRepo :=
  if name = "" then .error .assertionFailed
  else .ok ⟨name, DEFAULT_REPO_PATH ++ name, none, none, none⟩

/-- The destructor uses all three handles, the pack writer first. -/
def GitRepo.destroy (g : GitRepo) : Except Fault Unit :=
  if g.wp.isNone then .error .wpUnset
  else if g.odb.isNone then .error .odbUnset
  else if g.repo.isNone then .error .repoUnset
  else .ok ()

def GitRepo.initWritePackFunctions (g : GitRepo) (lib : Lib) : GitRepo × String :=
  let created := lib .odbWritePack
  if created.errCode ≠ 0 then (g, checkForError created)
  else ({ g with wp := some ⟨[]⟩ }, "success")

def GitRepo.Open (g : GitRepo) (lib : Lib) (bare : Bool) : GitRepo × String :=
  let opened := lib (if bare then .repositoryOpenBare g.repoPath else .repositoryOpen g.repoPath)
  if opened.errCode ≠ 0 then (g, checkForError opened)
  else
    let withRepo := { g with repo := some ⟨g.repoPath⟩ }
    let odb := lib .repositoryOdb
    if odb.errCode ≠ 0 then (withRepo, checkForError odb)
    else ({ withRepo with odb := some ⟨g.repoPath⟩ } : GitRepo).initWritePackFunctions lib

def GitRepo.packAppend (g : GitRepo) (lib : Lib) (data : List UInt8) : Except Fault Ran :=
  match g.wp with
  | none => .error .wpUnset
  | some wp =>
      let appended := lib (.writepackAppend data)
      .ok ⟨{ g with wp := some ⟨wp.handed ++ data⟩ }, report appended,
        [⟨g.name, .append data, appended.errCode = 0⟩]⟩

def GitRepo.packCommit (g : GitRepo) (lib : Lib) : Except Fault Ran :=
  match g.wp with
  | none => .error .wpUnset
  | some wp =>
      let committed := lib .writepackCommit
      .ok ⟨g, report committed, [⟨g.name, .commit wp.handed, committed.errCode = 0⟩]⟩

def GitRepo.createReference (g : GitRepo) (lib : Lib) (refRev refName : String) :
    Except Fault Ran :=
  let parsed := lib (.oidFromstr refRev)
  if parsed.errCode ≠ 0 then .ok ⟨g, checkForError parsed, []⟩
  else
    match g.repo with
    | none => .error .repoUnset
    | some _ =>
        let created := lib (.referenceCreate refName)
        let creation : Change :=
          ⟨g.name, .createReference refName refRev, created.errCode = 0⟩
        if created.errCode ≠ 0 then .ok ⟨g, checkForError created, [creation]⟩
        else
          let head := lib (.repositorySetHead refName)
          .ok ⟨g, report head, [creation, ⟨g.name, .setHead refName, head.errCode = 0⟩]⟩

/-- All three handles are set. -/
def GitRepo.Opened (g : GitRepo) : Prop :=
  g.repo.isSome ∧ g.odb.isSome ∧ g.wp.isSome

/-- The handles are set in the order in which `Open` sets them. -/
@[mk_iff]
structure GitRepo.Layered (g : GitRepo) : Prop where
  wp : g.wp.isSome → g.odb.isSome
  odb : g.odb.isSome → g.repo.isSome

/-- A new object on which all three calls of `Open` have succeeded. -/
def GitRepo.opened (name : String) : GitRepo :=
  ⟨name, DEFAULT_REPO_PATH ++ name, some ⟨DEFAULT_REPO_PATH ++ name⟩,
    some ⟨DEFAULT_REPO_PATH ++ name⟩, some ⟨[]⟩⟩

theorem GitRepo.Layered.opened_iff {g : GitRepo} (h : g.Layered) :
    g.Opened ↔ g.wp.isSome := by
  constructor
  · intro hopened
    exact hopened.2.2
  · intro hwp
    exact ⟨h.odb (h.wp hwp), h.wp hwp, hwp⟩

theorem GitRepo.destroy_ok_iff (g : GitRepo) : g.destroy = .ok () ↔ g.Opened := by
  unfold destroy Opened
  cases g.wp <;> cases g.odb <;> cases g.repo <;> simp

/-- The first of the three calls of `Open` that fails, if one does. -/
def firstOpenError (lib : Lib) (path : String) : Option GitResult :=
  [lib (.repositoryOpenBare path), lib .repositoryOdb, lib .odbWritePack].find?
    fun result => result.errCode ≠ 0

/-- `Open` on a new object, in one view: the handles are layered, they are
all set exactly when no call failed, and the text is that of the first call
that failed. -/
theorem GitRepo.open_new {name : String} {fresh : GitRepo}
    (hnew : GitRepo.new name = .ok fresh) (lib : Lib) :
    (fresh.Open lib true).1.name = name ∧
      (fresh.Open lib true).1.Layered ∧
      ((fresh.Open lib true).1.wp = none ∨ (fresh.Open lib true).1.wp = some ⟨[]⟩) ∧
      ((fresh.Open lib true).1.Opened ↔ firstOpenError lib fresh.repoPath = none) ∧
      (fresh.Open lib true).2 =
        (firstOpenError lib fresh.repoPath).elim "success" checkForError := by
  unfold GitRepo.new at hnew
  split at hnew
  · cases hnew
  · cases hnew
    by_cases hrepo : (lib (.repositoryOpenBare (DEFAULT_REPO_PATH ++ name))).errCode = 0
    · by_cases hodb : (lib .repositoryOdb).errCode = 0
      · by_cases hwp : (lib .odbWritePack).errCode = 0
        · simp [Open, initWritePackFunctions, firstOpenError, hrepo, hodb, hwp, Opened,
            GitRepo.layered_iff]
        · simp [Open, initWritePackFunctions, firstOpenError, hrepo, hodb, hwp, Opened,
            GitRepo.layered_iff]
      · simp [Open, firstOpenError, hrepo, hodb, Opened, GitRepo.layered_iff]
    · simp [Open, firstOpenError, hrepo, Opened, GitRepo.layered_iff]

end GitRpc.Repository
