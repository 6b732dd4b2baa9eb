import GitRpc.Repository.GitRepo

/-!
`GetRepoReferences` on a repository with references. The iterator hands them
out one after the other and may fail at any call; each name is then looked up,
and the id that it comes to is formatted into a buffer.

`objectID` and `refID` are pointers that are never set. What they hold may by
chance be an address that can be written to, and the loop goes on then.
-/

namespace GitRpc.Repository

open Common

/-- `GIT_OID_HEXSZ`. -/
def gitOidHexSize : Nat := 40

/-- A `git_oid`, by its hexadecimal digits. -/
structure GitOid where
  digits : List Char
  length_eq : digits.length = gitOidHexSize

/-- A code that is neither success nor the end of an iteration. -/
abbrev IterError := {code : Int // code ≠ 0 ∧ code ≠ gitIterOver}

/-- A failing call. -/
abbrev LookupError := {result : GitResult // result.errCode ≠ 0}

/-- A reference with what `git_reference_name_to_id` answers for its name: its
id if it is direct, the id at the end of the chain if it is symbolic, or an
error. -/
structure Reference where
  name : String
  resolved : Except LookupError GitOid

/-- The references in the order of the iteration; `created` is the answer to
`git_reference_iterator_new`, and `errors` says which calls of
`git_reference_next` fail. -/
structure RefIteration where
  created : GitResult
  references : List Reference
  errors : Nat → Option IterError

/-- Whether the unset pointers hold addresses that can be written to. -/
structure UnsetPointers where
  objectID : Bool
  refID : Bool

/-- `git_oid_tostr`: it writes one digit less than the buffer has room for. -/
def oidToStr (size : Nat) (id : GitOid) : String := String.ofList (id.digits.take (size - 1))

def hexDigits (id : GitOid) : String := String.ofList id.digits

/-- The loop, from the call of `git_reference_next` with this number on. After
an error `ref` is not set, or it has been freed. A lookup writes to `objectID`
only when it succeeds. -/
def refLoop (unset : UnsetPointers) (errors : Nat → Option IterError) :
    Nat → List Reference → List ReferenceInfo → Except Fault GetRefsResponse
  | call, [], refs =>
      if (errors call).isSome then .error .pointerUnset else .ok ⟨true, "success", refs⟩
  | call, ref :: rest, refs =>
      if (errors call).isSome then .error .pointerUnset
      else
        match ref.resolved with
        | .error failed => .ok ⟨false, checkForError failed.1, []⟩
        | .ok id =>
            if !unset.objectID || !unset.refID then .error .pointerUnset
            else
              -- the constructor takes the name first
              refLoop unset errors (call + 1) rest
                (refs ++ [⟨oidToStr gitOidHexSize id, ref.name⟩])

def GitRepo.getRepoReferences (g : GitRepo) (it : RefIteration) (unset : UnsetPointers) :
    Except Fault GetRefsResponse :=
  match g.repo with
  | none => .error .repoUnset
  | some _ =>
      if it.created.errCode ≠ 0 then .ok ⟨false, checkForError it.created, []⟩
      else refLoop unset it.errors 0 it.references []

/-- The entry of a reference. -/
def Reference.Listed (ref : Reference) (info : ReferenceInfo) : Prop :=
  info.refName = ref.name ∧ ∃ id, ref.resolved = .ok id ∧ info.refHash = hexDigits id

/-- A call of libgit2 that the operation needs has failed. -/
def RefIteration.Failed (it : RefIteration) : Prop :=
  it.created.errCode ≠ 0 ∨ (∃ call ≤ it.references.length, (it.errors call).isSome) ∨
    ∃ ref ∈ it.references, ∀ id, ref.resolved ≠ .ok id

/-- The operation gets to its end; what it reports as a success lists every
reference, and it reports no success when a call has failed. -/
def ListsReferences (it : RefIteration) (result : Except Fault GetRefsResponse) : Prop :=
  ∃ response, result = .ok response ∧
    (response.success = true → List.Forall₂ Reference.Listed it.references response.refs) ∧
    (it.Failed → response.success = false)

/-- The loop can get past these references: they resolve, no call of the
iterator up to the one behind them fails, and the pointers can be used if
there is something to write through them. -/
structure GetsPast (unset : UnsetPointers) (errors : Nat → Option IterError) (call : Nat)
    (before : List Reference) : Prop where
  resolved : ∀ ref ∈ before, ∃ id, ref.resolved = .ok id
  noError : ∀ i ≤ before.length, errors (call + i) = none
  usable : before ≠ [] → unset.objectID = true ∧ unset.refID = true

/-- The loop comes to a reference that does not resolve. -/
def StopsAt (unset : UnsetPointers) (errors : Nat → Option IterError) (call : Nat)
    (references : List Reference) : Prop :=
  ∃ before ref rest, references = before ++ ref :: rest ∧
    GetsPast unset errors call before ∧ ∀ id, ref.resolved ≠ .ok id

/-- The loop ends: behind the last reference, or at one that does not
resolve. -/
def LoopEnds (unset : UnsetPointers) (errors : Nat → Option IterError) (call : Nat)
    (references : List Reference) : Prop :=
  GetsPast unset errors call references ∨ StopsAt unset errors call references

/-- What the loop puts down for a reference: the hash is cut short, and it
stands where the name should. -/
def Reference.Swapped (ref : Reference) (info : ReferenceInfo) : Prop :=
  ∃ id, ref.resolved = .ok id ∧ info = ⟨oidToStr gitOidHexSize id, ref.name⟩

variable {unset : UnsetPointers} {errors : Nat → Option IterError}

theorem GetsPast.nil {call : Nat} (hnone : errors call = none) :
    GetsPast unset errors call [] :=
  ⟨by simp, fun i hi => by rwa [Nat.le_zero.mp hi], fun hne => absurd rfl hne⟩

/-- No error at this call, by what holds from this call on. -/
theorem GetsPast.here {call : Nat} {before : List Reference}
    (h : GetsPast unset errors call before) : errors call = none :=
  h.noError 0 (Nat.zero_le _)

theorem GetsPast.cons {call : Nat} {ref : Reference} {before : List Reference} {id : GitOid}
    (hnone : errors call = none) (hresolved : ref.resolved = .ok id)
    (husable : unset.objectID = true ∧ unset.refID = true)
    (h : GetsPast unset errors (call + 1) before) : GetsPast unset errors call (ref :: before) where
  resolved := by
    intro other hother
    rcases List.mem_cons.mp hother with rfl | hother
    · exact ⟨id, hresolved⟩
    · exact h.resolved other hother
  noError := by
    intro i hi
    cases i with
    | zero => exact hnone
    | succ i =>
        have hnext := h.noError i (Nat.le_of_succ_le_succ hi)
        rwa [Nat.add_right_comm] at hnext
  usable := fun _ => husable

theorem GetsPast.tail {call : Nat} {ref : Reference} {before : List Reference}
    (h : GetsPast unset errors call (ref :: before)) : GetsPast unset errors (call + 1) before where
  resolved := fun other hother => h.resolved other (List.mem_cons_of_mem _ hother)
  noError := by
    intro i hi
    have hnext := h.noError (i + 1) (Nat.succ_le_succ hi)
    rwa [← Nat.add_assoc, Nat.add_right_comm] at hnext
  usable := fun _ => h.usable (List.cons_ne_nil _ _)

/-- What the loop has done when it ends. -/
theorem refLoop_ok {call : Nat} {references : List Reference} {refs : List ReferenceInfo}
    {response : GetRefsResponse} (hloop : refLoop unset errors call references refs = .ok response) :
    (∃ infos, response = ⟨true, "success", refs ++ infos⟩ ∧
        List.Forall₂ Reference.Swapped references infos ∧
        GetsPast unset errors call references) ∨
      (response.success = false ∧ StopsAt unset errors call references) := by
  induction references generalizing call refs with
  | nil =>
      simp only [refLoop] at hloop
      split at hloop
      · cases hloop
      · rename_i herror
        cases hloop
        exact .inl ⟨[], by rw [List.append_nil], .nil, .nil (by simpa using herror)⟩
  | cons ref rest ih =>
      simp only [refLoop] at hloop
      split at hloop
      · cases hloop
      rename_i herror
      have hhere : errors call = none := by simpa using herror
      cases hresolved : ref.resolved with
      | error failed =>
          simp only [hresolved] at hloop
          cases hloop
          exact .inr ⟨rfl, [], ref, rest, rfl, .nil hhere, by simp [hresolved]⟩
      | ok id =>
          simp only [hresolved] at hloop
          split at hloop
          · cases hloop
          rename_i hpointers
          have husable : unset.objectID = true ∧ unset.refID = true := by simpa using hpointers
          rcases ih hloop with ⟨infos, hresponse, hinfos, hpast⟩ |
            ⟨hfailed, before, other, after, hsplit, hpast, hother⟩
          · refine .inl ⟨⟨oidToStr gitOidHexSize id, ref.name⟩ :: infos, ?_,
              .cons ⟨id, hresolved, rfl⟩ hinfos, hpast.cons hhere hresolved husable⟩
            rw [hresponse, List.append_assoc]
            rfl
          · exact .inr ⟨hfailed, ref :: before, other, after, by rw [hsplit]; rfl,
              hpast.cons hhere hresolved husable, hother⟩

/-- The loop puts down an entry for each reference that it gets past. -/
theorem refLoop_past {call : Nat} {before : List Reference}
    (hpast : GetsPast unset errors call before) (rest : List Reference)
    (refs : List ReferenceInfo) :
    ∃ infos, refLoop unset errors call (before ++ rest) refs =
      refLoop unset errors (call + before.length) rest (refs ++ infos) := by
  induction before generalizing call refs with
  | nil => exact ⟨[], by simp⟩
  | cons ref others ih =>
      obtain ⟨id, hid⟩ := hpast.resolved ref List.mem_cons_self
      obtain ⟨hobject, href⟩ := hpast.usable (List.cons_ne_nil _ _)
      obtain ⟨infos, hinfos⟩ := ih hpast.tail (refs ++ [⟨oidToStr gitOidHexSize id, ref.name⟩])
      refine ⟨⟨oidToStr gitOidHexSize id, ref.name⟩ :: infos, ?_⟩
      have hstep : refLoop unset errors call (ref :: others ++ rest) refs =
          refLoop unset errors (call + 1) (others ++ rest)
            (refs ++ [⟨oidToStr gitOidHexSize id, ref.name⟩]) := by
        simp [refLoop, hpast.here, hid, hobject, href]
      rw [hstep, hinfos, List.append_assoc, List.length_cons, Nat.add_right_comm, Nat.add_assoc]
      rfl

theorem refLoop_stops {call : Nat} {references : List Reference}
    (hstops : StopsAt unset errors call references) (refs : List ReferenceInfo) :
    ∃ response, refLoop unset errors call references refs = .ok response ∧
      response.success = false := by
  obtain ⟨before, ref, rest, rfl, hpast, href⟩ := hstops
  obtain ⟨infos, hloop⟩ := refLoop_past hpast (ref :: rest) refs
  have hnone := hpast.noError before.length (Nat.le_refl _)
  cases hresolved : ref.resolved with
  | error failed =>
      refine ⟨⟨false, checkForError failed.1, []⟩, ?_, rfl⟩
      simp [hloop, refLoop, hnone, hresolved]
  | ok id => exact absurd hresolved (href id)

/-- Exactly when the loop ends. -/
theorem refLoop_ends_iff {call : Nat} {references : List Reference} (refs : List ReferenceInfo) :
    (∃ response, refLoop unset errors call references refs = .ok response) ↔
      LoopEnds unset errors call references := by
  constructor
  · rintro ⟨response, hloop⟩
    rcases refLoop_ok hloop with ⟨infos, -, -, hpast⟩ | ⟨-, hstops⟩
    · exact .inl hpast
    · exact .inr hstops
  · rintro (hpast | hstops)
    · obtain ⟨infos, hloop⟩ := refLoop_past hpast [] refs
      have hnone := hpast.noError references.length (Nat.le_refl _)
      rw [List.append_nil] at hloop
      exact ⟨⟨true, "success", refs ++ infos⟩, by simp [hloop, refLoop, hnone]⟩
    · obtain ⟨response, hloop, -⟩ := refLoop_stops hstops refs
      exact ⟨response, hloop⟩

/-- The operation ends exactly when the repository's handle has been set, and
the iterator cannot be made or the loop ends. -/
theorem getRepoReferences_runs_iff (g : GitRepo) (it : RefIteration) (unset : UnsetPointers) :
    (∃ response, g.getRepoReferences it unset = .ok response) ↔
      g.repo.isSome ∧ (it.created.errCode ≠ 0 ∨ LoopEnds unset it.errors 0 it.references) := by
  unfold GitRepo.getRepoReferences
  cases g.repo with
  | none => simp
  | some handle =>
      rw [← refLoop_ends_iff []]
      by_cases hcreated : it.created.errCode = 0
      · simp [hcreated]
      · simp [hcreated]

/-- No entry has a name of the right length and a hash of the right length. -/
theorem Reference.not_listed_of_swapped {ref : Reference} {info : ReferenceInfo}
    (hswapped : ref.Swapped info) : ¬ ref.Listed info := by
  obtain ⟨id, -, rfl⟩ := hswapped
  rintro ⟨hname, other, -, hhash⟩
  have hshort := congrArg String.length hname
  have hlong := congrArg String.length hhash
  have hid := id.length_eq
  have hother := other.length_eq
  simp only [oidToStr, hexDigits, gitOidHexSize, String.length_ofList, List.length_take] at *
  omega

/-- There is nothing to list, or the first lookup that the operation comes to
fails. -/
def NothingListed (g : GitRepo) (it : RefIteration) (unset : UnsetPointers) : Prop :=
  g.repo.isSome ∧ (it.created.errCode ≠ 0 ∨ (it.references = [] ∧ it.errors 0 = none) ∨
    StopsAt unset it.errors 0 it.references)

/-- For every repository, every iteration of its references, and whatever the
unset pointers hold. -/
theorem references_listed_iff (g : GitRepo) (it : RefIteration) (unset : UnsetPointers) :
    ListsReferences it (g.getRepoReferences it unset) ↔ NothingListed g it unset := by
  unfold GitRepo.getRepoReferences
  cases hrepo : g.repo with
  | none => simp [ListsReferences, NothingListed, hrepo]
  | some handle =>
      by_cases hcreated : it.created.errCode = 0
      · simp only [hcreated, ne_eq, not_true_eq_false, if_false]
        constructor
        · rintro ⟨response, hloop, hlisted, hfailed⟩
          refine ⟨by simp [hrepo], .inr ?_⟩
          rcases refLoop_ok hloop with ⟨infos, rfl, hswapped, hpast⟩ | ⟨-, hstops⟩
          · have hall := hlisted rfl
            cases hrefs : it.references with
            | nil => exact .inl ⟨rfl, hpast.here⟩
            | cons ref rest =>
                rw [hrefs] at hall hswapped
                rw [List.nil_append] at hall
                cases hswapped with
                | cons hfirst hrest =>
                    cases hall with
                    | cons hentry hothers => exact absurd hentry (Reference.not_listed_of_swapped hfirst)
          · exact .inr hstops
        · rintro ⟨-, hnot | ⟨hrefs, herror⟩ | hstops⟩
          · exact absurd hcreated hnot
          · refine ⟨⟨true, "success", []⟩, ?_, fun _ => ?_, ?_⟩
            · simp [hrefs, refLoop, herror]
            · rw [hrefs]
              exact .nil
            · rintro (hnot | ⟨call, hcall, hsome⟩ | ⟨ref, hmem, -⟩)
              · exact absurd hcreated hnot
              · rw [hrefs, List.length_nil, Nat.le_zero] at hcall
                simp [hcall, herror] at hsome
              · simp [hrefs] at hmem
          · obtain ⟨response, hloop, hfailed⟩ := refLoop_stops hstops []
            exact ⟨response, hloop, by simp [hfailed], fun _ => hfailed⟩
      · simp [ListsReferences, NothingListed, hrepo, hcreated]

/-- One branch, and no error anywhere. -/
def onlyMaster (id : GitOid) : RefIteration :=
  ⟨⟨0, none⟩, [⟨"refs/heads/master", .ok id⟩], fun _ => none⟩

def exampleId : GitOid := ⟨List.replicate 40 'a', rfl⟩

theorem only_master_run :
    (GitRepo.opened "new-server").getRepoReferences (onlyMaster exampleId) ⟨true, true⟩ =
      .ok ⟨true, "success",
        [⟨"aaaaaaaaaaaaaaaaaaaaaaaaaaaaaaaaaaaaaaa", "refs/heads/master"⟩]⟩ := by
  decide

/-- Even where the pointers happen to be usable, name and hash are exchanged,
and the hash lacks its last digit. -/
theorem only_master_not_listed :
    ¬ ListsReferences (onlyMaster exampleId)
      ((GitRepo.opened "new-server").getRepoReferences (onlyMaster exampleId) ⟨true, true⟩) := by
  rintro ⟨response, hresponse, hlisted, -⟩
  rw [only_master_run, Except.ok.injEq] at hresponse
  subst hresponse
  cases hlisted rfl with
  | cons hentry _ =>
      obtain ⟨hname, -⟩ := hentry
      revert hname
      decide

end GitRpc.Repository
