import GitRpc.Repository.GitRepo

/-!
What `CreateReference` leaves behind: the references of the repository, HEAD,
and the `git_reference` objects that it has obtained from libgit2 and not given
back. A libgit2 call that does not return 0 changes nothing and gives no
object.
-/

namespace GitRpc.Repository

open Common

/-- The references of a repository with their ids, and what HEAD was last set
to. -/
structure RefStore where
  refs : String → Option String
  head : String

namespace RefStore

/-- `git_reference_create` that returns 0. -/
def create (store : RefStore) (refName refRev : String) : RefStore :=
  { store with refs := Function.update store.refs refName (some refRev) }

/-- `git_repository_set_head` that returns 0. -/
def setHead (store : RefStore) (refName : String) : RefStore := { store with head := refName }

/-- What a call has done to the references and HEAD. -/
def apply (store : RefStore) (change : Change) : RefStore :=
  if change.ok then
    match change.call with
    | .createReference refName refRev => store.create refName refRev
    | .setHead refName => store.setHead refName
    | .append _ | .commit _ => store
  else store

end RefStore

/-- The end of `CreateReference`; `held` are the objects not freed, by name. -/
structure ReferenceRun where
  store : RefStore
  held : List String
  ret : String

/-- `createReference`, on a repository with certain references. -/
def GitRepo.createReferenceOn (g : GitRepo) (lib : Lib) (store : RefStore)
    (refRev refName : String) : Except Fault ReferenceRun :=
  let parsed := lib (.oidFromstr refRev)
  if parsed.errCode ≠ 0 then .ok ⟨store, [], checkForError parsed⟩
  else
    match g.repo with
    | none => .error .repoUnset
    | some _ =>
        let created := lib (.referenceCreate refName)
        if created.errCode ≠ 0 then .ok ⟨store, [], checkForError created⟩
        else
          let newRef := [refName]
          let head := lib (.repositorySetHead refName)
          if head.errCode ≠ 0 then
            .ok ⟨store.create refName refRev, newRef, checkForError head⟩
          else
            .ok ⟨(store.create refName refRev).setHead refName, newRef.erase refName, "success"⟩

/-- The changes of `createReference` are what happens to the store, and the
texts are the same. -/
theorem createReferenceOn_changes (g : GitRepo) (lib : Lib) (store : RefStore)
    (refRev refName : String) :
    (g.createReferenceOn lib store refRev refName).map (fun run => (run.store, run.ret)) =
      (g.createReference lib refRev refName).map fun ran =>
        (ran.changes.foldl RefStore.apply store, ran.ret) := by
  unfold GitRepo.createReferenceOn GitRepo.createReference
  by_cases hoid : (lib (.oidFromstr refRev)).errCode = 0
  · cases hrepo : g.repo with
    | none => simp [hoid, Except.map]
    | some handle =>
        by_cases hcreate : (lib (.referenceCreate refName)).errCode = 0
        · by_cases hhead : (lib (.repositorySetHead refName)).errCode = 0
          · simp [hoid, hcreate, hhead, Except.map, RefStore.apply, report]
          · simp [hoid, hcreate, hhead, Except.map, RefStore.apply, report]
        · simp [hoid, hcreate, Except.map, RefStore.apply]
  · simp [hoid, Except.map]

/-- The operation gets to its end; unless it reports success the references
and HEAD are as before; and it holds no object any more. -/
def LeavesNothing (result : Except Fault ReferenceRun) (store : RefStore) : Prop :=
  ∃ run, result = .ok run ∧ (run.ret ≠ "success" → run.store = store) ∧ run.held = []

/-- The id does not parse, or the repository is open and HEAD can be set once
the reference is there. -/
def HeadFollows (g : GitRepo) (lib : Lib) (refRev refName : String) : Prop :=
  (lib (.oidFromstr refRev)).errCode ≠ 0 ∨
    (g.repo.isSome ∧ ((lib (.referenceCreate refName)).errCode ≠ 0 ∨
      (lib (.repositorySetHead refName)).errCode = 0))

/-- For every repository, every name and id, and whatever libgit2 answers. -/
theorem createReference_leaves_nothing_iff (g : GitRepo) (lib : Lib) (store : RefStore)
    (refRev refName : String) :
    LeavesNothing (g.createReferenceOn lib store refRev refName) store ↔
      HeadFollows g lib refRev refName := by
  unfold GitRepo.createReferenceOn LeavesNothing HeadFollows
  by_cases hoid : (lib (.oidFromstr refRev)).errCode = 0
  · cases hrepo : g.repo with
    | none => simp [hoid]
    | some handle =>
        by_cases hcreate : (lib (.referenceCreate refName)).errCode = 0
        · by_cases hhead : (lib (.repositorySetHead refName)).errCode = 0
          · simp [hoid, hcreate, hhead]
          · simp [hoid, hcreate, hhead]
        · simp [hoid, hcreate]
  · simp [hoid]

/-- libgit2 creates the reference, and refuses to let HEAD point to it. -/
def refusesHead : Lib
  | .repositorySetHead _ => ⟨-1, some "the reference does not point to a commit"⟩
  | _ => ⟨0, none⟩

def unbornMaster : RefStore := ⟨fun _ => none, "refs/heads/master"⟩

/-- An error is reported, and the reference is there. -/
theorem refused_head_leaves_reference :
    ¬ LeavesNothing ((GitRepo.opened "new-server").createReferenceOn refusesHead unbornMaster
      "a94a8fe5ccb19ba61c4c0873d391e987982fbbd3" "refs/tags/notes") unbornMaster := by
  rintro ⟨run, hrun, hclean, -⟩
  cases hrun
  have hsame := congrFun (congrArg RefStore.refs (hclean (by decide))) "refs/tags/notes"
  simp [RefStore.create, unbornMaster] at hsame

end GitRpc.Repository
