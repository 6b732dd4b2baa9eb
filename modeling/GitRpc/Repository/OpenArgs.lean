import Mathlib.Data.List.TakeWhile
import GitRpc.Library.Histories
import GitRpc.Repository.RepositoryManager

/-!
The argument of the OpenRepo task. `RepoProxy::OpenRepo` takes the name by
value and puts a pointer to its characters into `OpenRepoArgs`, which Main
reads when it runs the task: for the log of a debug build, for the comparison
when the slot is taken, and for the constructor of the new `GitRepo`. The
string is destroyed at the end of the caller's full expression, and the caller
waits for the future only after that.

A C string ends at its first null character. What a read through a pointer to
a destroyed string gives is given with the event. There is one handler thread
that opens repositories; the tasks of the others run between its own.
-/

namespace GitRpc.Repository

open Common Library.Runs Library.Histories

/-- What a reader of `text.c_str()` finds. -/
def cString (text : String) : String :=
  String.ofList (text.toList.takeWhile (· ≠ '\x00'))

/-- A pointer into a string, by the number of the call whose parameter the
string is. -/
structure OpenRepoArgs where
  repoName : Nat
  deriving DecidableEq

/-- Where the handler thread is: outside of `OpenRepo`, in it before and after
the post, and at `result.wait()`. -/
inductive CallerAt where
  | outside
  | entered (number : Nat)
  | posted (number : Nat)
  | waiting (number : Nat)
  deriving DecidableEq

/-- Where the task is: there is none, or it is queued, or Main is in it. -/
inductive OpenTaskAt where
  | none
  | queued (args : OpenRepoArgs)
  | logging (args : OpenRepoArgs)
  | comparing (args : OpenRepoArgs)
  | constructing (args : OpenRepoArgs)
  | opening (args : OpenRepoArgs) (name : String)
  deriving DecidableEq

/-- Main has not taken the task up, or has no task to take up. -/
def OpenTaskAt.Idle : OpenTaskAt → Prop
  | .none | .queued _ => True
  | _ => False

instance (task : OpenTaskAt) : Decidable task.Idle := by
  cases task <;> unfold OpenTaskAt.Idle <;> infer_instance

/-- Main is going to read through the pointer, or may have to. -/
def OpenTaskAt.ToRead (args : OpenRepoArgs) : OpenTaskAt → Prop
  | .queued mine | .logging mine | .comparing mine | .constructing mine => mine = args
  | .none | .opening _ _ => False

/-- One read through the pointer. -/
structure NameRead where
  args : OpenRepoArgs
  alive : Bool
  text : String
  deriving DecidableEq

/-- A task that has set its promise. -/
structure OpenRun where
  args : OpenRepoArgs
  before : RepositoryManager
  lib : Lib
  outcome : Outcome

/-- `parameter` is the string of the call under way while it lives. `names`,
`reads` and `runs` keep the history: what was asked for, what was read, and
what came of it. -/
structure OpenCalls where
  manager : RepositoryManager
  caller : CallerAt
  parameter : Option (Nat × String)
  task : OpenTaskAt
  names : List String
  reads : List NameRead
  runs : List OpenRun

def OpenCalls.start (m : RepositoryManager) : OpenCalls := ⟨m, .outside, none, .none, [], [], []⟩

/-- The first four are the handler's. `proceed` is Main's next step in the
task, `other` a task of another handler. -/
inductive OpenEvent where
  | call (name : String)
  | post
  | ret
  | resume
  | take
  | proceed (dead : String) (lib : Lib)
  | other (task : ManagerTask) (lib : Lib)

namespace OpenCalls

def deref (s : OpenCalls) (args : OpenRepoArgs) (dead : String) : NameRead :=
  match s.parameter with
  | some (number, name) =>
      if number = args.repoName then ⟨args, true, cString name⟩ else ⟨args, false, dead⟩
  | none => ⟨args, false, dead⟩

def read (s : OpenCalls) (args : OpenRepoArgs) (dead : String) : OpenCalls :=
  { s with reads := s.reads ++ [s.deref args dead] }

/-- The promise is set, and the task is over. -/
def finish (s : OpenCalls) (args : OpenRepoArgs) (lib : Lib) (outcome : Outcome) : OpenCalls :=
  { s with
    manager := outcome.manager
    task := .none
    runs := s.runs ++ [⟨args, s.manager, lib, outcome⟩] }

/-- The body of `RepositoryManager::OpenRepo`, one read at a time. -/
def proceed (s : OpenCalls) (dead : String) (lib : Lib) : Option OpenCalls :=
  match s.task with
  | .none | .queued _ => none
  | .logging args => some { s.read args dead with task := .comparing args }
  | .comparing args =>
      match s.manager.currentRepo with
      | none => some { s with task := .constructing args }
      | some g =>
          if (s.deref args dead).text ≠ g.name then
            some { s.read args dead with task := .constructing args }
          else some ((s.read args dead).finish args lib
            ⟨{ s.manager with repoRefCnt := int32 (s.manager.repoRefCnt + 1) },
              [.text "success"], []⟩)
  | .constructing args =>
      some { s.read args dead with task := .opening args (s.deref args dead).text }
  | .opening args name => (s.manager.openNew lib name).toOption.map (s.finish args lib)

def step (debug : Bool) (s : OpenCalls) : OpenEvent → Option OpenCalls
  | .call name =>
      match s.caller with
      | .outside => some { s with
          caller := .entered s.names.length
          parameter := some (s.names.length, name)
          names := s.names ++ [name] }
      | _ => none
  | .post =>
      match s.caller with
      | .entered number => some { s with caller := .posted number, task := .queued ⟨number⟩ }
      | _ => none
  | .ret =>
      match s.caller with
      | .posted number => some { s with caller := .waiting number, parameter := none }
      | _ => none
  | .resume =>
      match s.caller with
      | .waiting number =>
          if ∃ run ∈ s.runs, run.args = ⟨number⟩ then some { s with caller := .outside } else none
      | _ => none
  | .take =>
      match s.task with
      | .queued args => some { s with task := if debug then .logging args else .comparing args }
      | _ => none
  | .proceed dead lib => s.proceed dead lib
  | .other task lib =>
      if s.task.Idle then (taskStep s.manager (task, lib)).map fun m => { s with manager := m }
      else none

end OpenCalls

open OpenCalls

/-- Main reads living strings only, and opens what was asked for. -/
structure OpensWhatWasNamed (s : OpenCalls) : Prop where
  reads : ∀ read ∈ s.reads, read.alive = true ∧ s.names[read.args.repoName]? = some read.text
  runs : ∀ run ∈ s.runs, ∃ name, s.names[run.args.repoName]? = some name ∧
    run.before.openRepo run.lib name = .ok run.outcome

/-- The name is all of a C string, and its string is destroyed only when Main
has read it for the last time. -/
def OutlivesReads (s : OpenCalls) : OpenEvent → Prop
  | .call name => '\x00' ∉ name.toList
  | .ret => ∀ args, ¬ s.task.ToRead args
  | _ => True

theorem cString_eq_self (text : String) : cString text = text ↔ '\x00' ∉ text.toList := by
  unfold cString
  rw [← String.toList_inj, String.toList_ofList, List.takeWhile_eq_self_iff]
  constructor
  · intro hall hmem
    simpa using hall _ hmem
  · intro hnot c hc
    simp only [decide_eq_true_eq]
    rintro rfl
    exact hnot hc

/-- While Main has something to read, the caller is still in the call that it
reads for. -/
structure OpenInv (s : OpenCalls) : Prop where
  plain : ∀ name ∈ s.names, '\x00' ∉ name.toList
  parameter : ∀ number name, s.parameter = some (number, name) → s.names[number]? = some name
  outside : s.caller = .outside → s.task = .none
  entered : ∀ number, s.caller = .entered number →
    s.task = .none ∧ number < s.names.length ∧ (∃ name, s.parameter = some (number, name)) ∧
      ∀ run ∈ s.runs, run.args ≠ ⟨number⟩
  toRead : ∀ args, s.task.ToRead args →
    s.caller = .posted args.repoName ∧ (∃ name, s.parameter = some (args.repoName, name)) ∧
      ∀ run ∈ s.runs, run.args ≠ args
  constructing : ∀ args, s.task = .constructing args →
    ∀ g, s.manager.currentRepo = some g → s.names[args.repoName]? ≠ some g.name
  opening : ∀ args name, s.task = .opening args name →
    (s.caller = .posted args.repoName ∨ s.caller = .waiting args.repoName) ∧
      s.names[args.repoName]? = some name ∧
      (∀ g, s.manager.currentRepo = some g → g.name ≠ name) ∧ ∀ run ∈ s.runs, run.args ≠ args
  past : ∀ run ∈ s.runs, run.args.repoName < s.names.length
  sound : OpensWhatWasNamed s

theorem openInv_start (m : RepositoryManager) : OpenInv (.start m) := by
  constructor <;> simp [OpenCalls.start, OpenTaskAt.ToRead]
  constructor <;> simp

variable {s next : OpenCalls} {args : OpenRepoArgs}

/-- What Main reads while it has something to read. -/
theorem OpenInv.deref (h : OpenInv s) (hread : s.task.ToRead args) (dead : String) :
    ∃ name, s.names[args.repoName]? = some name ∧ s.deref args dead = ⟨args, true, name⟩ := by
  obtain ⟨-, ⟨name, hparameter⟩, -⟩ := h.toRead args hread
  have hname := h.parameter _ _ hparameter
  have hplain := h.plain name (List.mem_of_getElem? hname)
  refine ⟨name, hname, ?_⟩
  simp [OpenCalls.deref, hparameter, (cString_eq_self name).mpr hplain]

theorem OpenInv.sound_read (h : OpenInv s) (hread : s.task.ToRead args) (dead : String) :
    OpensWhatWasNamed (s.read args dead) where
  reads := by
    intro read hmem
    rcases List.mem_append.mp hmem with hold | hnew
    · exact h.sound.reads read hold
    · obtain ⟨name, hname, hderef⟩ := h.deref hread dead
      rw [List.mem_singleton.mp hnew, hderef]
      exact ⟨rfl, hname⟩
  runs := h.sound.runs

theorem OpensWhatWasNamed.finish (h : OpensWhatWasNamed s) {lib : Lib} {outcome : Outcome}
    {name : String} (hname : s.names[args.repoName]? = some name)
    (hrun : s.manager.openRepo lib name = .ok outcome) :
    OpensWhatWasNamed (s.finish args lib outcome) where
  reads := h.reads
  runs := by
    intro run hmem
    rcases List.mem_append.mp hmem with hold | hnew
    · exact h.runs run hold
    · rw [List.mem_singleton.mp hnew]
      exact ⟨name, hname, hrun⟩

theorem OpenInv.call (h : OpenInv s) (houtside : s.caller = .outside) {name : String}
    (hplain : '\x00' ∉ name.toList) :
    OpenInv { s with
      caller := .entered s.names.length
      parameter := some (s.names.length, name)
      names := s.names ++ [name] } where
  plain := by
    intro other hmem
    rcases List.mem_append.mp hmem with hold | hnew
    · exact h.plain other hold
    · rw [List.mem_singleton.mp hnew]
      exact hplain
  parameter := by
    rintro number other ⟨⟩
    exact List.getElem?_concat_length
  outside := by simp
  entered := by
    rintro number ⟨⟩
    refine ⟨h.outside houtside, by simp, ⟨name, rfl⟩, ?_⟩
    rintro run hmem heq
    have hpast := h.past run hmem
    rw [heq] at hpast
    exact lt_irrefl _ hpast
  toRead := by
    intro args hread
    simp [h.outside houtside, OpenTaskAt.ToRead] at hread
  constructing := by simp [h.outside houtside]
  opening := by simp [h.outside houtside]
  past := by
    intro run hmem
    have hpast := h.past run hmem
    simp only [List.length_append, List.length_singleton]
    omega
  sound := by
    refine ⟨fun read hmem => ?_, fun run hmem => ?_⟩
    · obtain ⟨halive, hname⟩ := h.sound.reads read hmem
      exact ⟨halive, getElem?_append_some hname [name]⟩
    · obtain ⟨asked, hname, hrun⟩ := h.sound.runs run hmem
      exact ⟨asked, getElem?_append_some hname [name], hrun⟩

theorem OpenInv.post (h : OpenInv s) {number : Nat} (hentered : s.caller = .entered number) :
    OpenInv { s with caller := .posted number, task := .queued ⟨number⟩ } := by
  obtain ⟨htask, hlength, hparameter, hruns⟩ := h.entered number hentered
  refine ⟨h.plain, h.parameter, by simp, by simp, ?_, by simp, by simp, h.past,
    ⟨h.sound.reads, h.sound.runs⟩⟩
  rintro args ⟨⟩
  exact ⟨rfl, hparameter, hruns⟩

theorem OpenInv.ret (h : OpenInv s) {number : Nat} (hposted : s.caller = .posted number)
    (hread : ∀ args, ¬ s.task.ToRead args) :
    OpenInv { s with caller := .waiting number, parameter := none } := by
  refine ⟨h.plain, by simp, by simp, by simp, ?_, h.constructing, ?_, h.past,
    ⟨h.sound.reads, h.sound.runs⟩⟩
  · intro args hmine
    exact absurd hmine (hread args)
  · intro args name hopening
    obtain ⟨hcaller, hrest⟩ := h.opening args name hopening
    rw [hposted] at hcaller
    refine ⟨.inr ?_, hrest⟩
    simpa using hcaller

theorem OpenInv.resume (h : OpenInv s) {number : Nat} (hwaiting : s.caller = .waiting number)
    (hdone : ∃ run ∈ s.runs, run.args = ⟨number⟩) : OpenInv { s with caller := .outside } := by
  have hread : ∀ args, ¬ s.task.ToRead args := by
    intro args hmine
    have hposted := (h.toRead args hmine).1
    rw [hwaiting] at hposted
    cases hposted
  have htask : s.task = .none := by
    cases hcase : s.task with
    | none => rfl
    | queued args | logging args | comparing args | constructing args =>
        exact absurd (show s.task.ToRead args by rw [hcase]; rfl) (hread args)
    | opening args name =>
        obtain ⟨hcaller, -, -, hruns⟩ := h.opening args name hcase
        obtain ⟨run, hmem, hargs⟩ := hdone
        rw [hwaiting] at hcaller
        obtain rfl : number = args.repoName := by simpa using hcaller
        exact absurd hargs (hruns run hmem)
  refine ⟨h.plain, h.parameter, fun _ => htask, by simp, ?_, h.constructing, ?_, h.past,
    ⟨h.sound.reads, h.sound.runs⟩⟩
  · intro args hmine
    exact absurd hmine (hread args)
  · intro args name hopening
    rw [htask] at hopening
    cases hopening

/-- Main goes from one point in the task to another. -/
theorem OpenInv.goTo (h : OpenInv s) (hread : s.task.ToRead args) {reads : List NameRead}
    {task : OpenTaskAt} (hsound : OpensWhatWasNamed { s with reads := reads })
    (htask : ∀ other, task.ToRead other → other = args)
    (hconstructing : task = .constructing args →
      ∀ g, s.manager.currentRepo = some g → s.names[args.repoName]? ≠ some g.name)
    (hopening : ∀ other name, task = .opening other name → other = args ∧
      s.names[args.repoName]? = some name ∧ ∀ g, s.manager.currentRepo = some g → g.name ≠ name) :
    OpenInv { s with reads := reads, task := task } := by
  obtain ⟨hcaller, hparameter, hruns⟩ := h.toRead args hread
  refine ⟨h.plain, h.parameter, ?_, ?_, ?_, ?_, ?_, h.past, ⟨hsound.reads, hsound.runs⟩⟩
  · intro houtside
    rw [show s.caller = .outside from houtside] at hcaller
    cases hcaller
  · intro number hentered
    rw [show s.caller = .entered number from hentered] at hcaller
    cases hcaller
  · intro other hmine
    rw [htask other hmine]
    exact ⟨hcaller, hparameter, hruns⟩
  · intro other heq
    have heq' : task = .constructing other := heq
    obtain rfl := htask other (by rw [heq']; rfl)
    exact hconstructing heq'
  · intro other name heq
    obtain ⟨rfl, hname, hother⟩ := hopening other name heq
    exact ⟨.inl hcaller, hname, hother, hruns⟩

/-- The task is over. -/
theorem OpenInv.finish (h : OpenInv s) {reads : List NameRead} {lib : Lib} {outcome : Outcome}
    (hsound : OpensWhatWasNamed (OpenCalls.finish { s with reads := reads } args lib outcome))
    (hcaller : s.caller = .posted args.repoName ∨ s.caller = .waiting args.repoName)
    (hlength : args.repoName < s.names.length) :
    OpenInv (OpenCalls.finish { s with reads := reads } args lib outcome) := by
  refine ⟨h.plain, h.parameter, fun _ => rfl, ?_, ?_, ?_, ?_, ?_, hsound⟩
  · intro number hentered
    rw [show s.caller = .entered number from hentered] at hcaller
    simp at hcaller
  · rintro other ⟨⟩
  · rintro other ⟨⟩
  · rintro other name ⟨⟩
  · intro run hmem
    rcases List.mem_append.mp hmem with hold | hnew
    · exact h.past run hold
    · rw [List.mem_singleton.mp hnew]
      exact hlength

theorem OpenInv.proceed (h : OpenInv s) {dead : String} {lib : Lib}
    (hstep : s.proceed dead lib = some next) : OpenInv next := by
  unfold OpenCalls.proceed at hstep
  split at hstep
  · cases hstep
  · cases hstep
  · rename_i args htask
    cases hstep
    have hread : s.task.ToRead args := by rw [htask]; rfl
    exact h.goTo hread (h.sound_read hread dead) (fun other hmine => hmine.symm) (by simp) (by simp)
  · rename_i args htask
    have hread : s.task.ToRead args := by rw [htask]; rfl
    obtain ⟨name, hname, hderef⟩ := h.deref hread dead
    split at hstep
    · rename_i hslot
      cases hstep
      exact h.goTo hread ⟨h.sound.reads, h.sound.runs⟩ (fun other hmine => hmine.symm)
        (by simp [hslot]) (by simp)
    · rename_i g hslot
      rw [hderef] at hstep
      split at hstep
      · rename_i hne
        cases hstep
        refine h.goTo hread (h.sound_read hread dead) (fun other hmine => hmine.symm) ?_ (by simp)
        intro _ g' hslot' hsame
        rw [hslot] at hslot'
        cases hslot'
        rw [hname] at hsame
        exact hne (Option.some.inj hsame)
      · rename_i heq
        cases hstep
        have hsame : name = g.name := not_not.mp heq
        have hrun := openRepo_again (m := s.manager) lib hslot
        rw [← hsame] at hrun
        obtain ⟨hcaller, -⟩ := h.toRead args hread
        exact h.finish ((h.sound_read hread dead).finish hname hrun) (.inl hcaller)
          (List.getElem?_eq_some_iff.mp hname).1
  · rename_i args htask
    have hread : s.task.ToRead args := by rw [htask]; rfl
    obtain ⟨name, hname, hderef⟩ := h.deref hread dead
    cases hstep
    refine h.goTo hread (h.sound_read hread dead) (by simp [OpenTaskAt.ToRead]) (by simp) ?_
    rintro other name' ⟨⟩
    rw [hderef]
    refine ⟨rfl, hname, fun g hslot hsame => ?_⟩
    apply h.constructing args htask g hslot
    rw [hname, hsame]
  · rename_i args name htask
    obtain ⟨hcaller, hname, hother, -⟩ := h.opening args name htask
    obtain ⟨outcome, hrun, rfl⟩ := toOption_map_eq_some.mp hstep
    have hopen : s.manager.openRepo lib name = .ok outcome := by
      rw [openRepo_other lib hother]
      exact hrun
    exact h.finish (h.sound.finish hname hopen) hcaller (List.getElem?_eq_some_iff.mp hname).1

theorem OpenInv.step (h : OpenInv s) {debug : Bool} {e : OpenEvent} (hcond : OutlivesReads s e)
    (hstep : s.step debug e = some next) : OpenInv next := by
  cases e with
  | call name =>
      simp only [OpenCalls.step] at hstep
      split at hstep
      · rename_i houtside
        cases hstep
        exact h.call houtside hcond
      · cases hstep
  | post =>
      simp only [OpenCalls.step] at hstep
      split at hstep
      · rename_i number hentered
        cases hstep
        exact h.post hentered
      · cases hstep
  | ret =>
      simp only [OpenCalls.step] at hstep
      split at hstep
      · rename_i number hposted
        cases hstep
        exact h.ret hposted hcond
      · cases hstep
  | resume =>
      simp only [OpenCalls.step] at hstep
      split at hstep
      · rename_i number hwaiting
        split at hstep
        · rename_i hdone
          cases hstep
          exact h.resume hwaiting hdone
        · cases hstep
      · cases hstep
  | take =>
      simp only [OpenCalls.step] at hstep
      split at hstep
      · rename_i args htask
        cases hstep
        have hread : s.task.ToRead args := by rw [htask]; rfl
        apply h.goTo hread ⟨h.sound.reads, h.sound.runs⟩
        · intro other hmine
          split at hmine <;> exact hmine.symm
        · intro hconstructing
          split at hconstructing <;> cases hconstructing
        · intro other name hopening
          split at hopening <;> cases hopening
      · cases hstep
  | proceed dead lib => exact h.proceed hstep
  | other task lib =>
      simp only [OpenCalls.step] at hstep
      split at hstep
      · rename_i hidle
        obtain ⟨m, -, rfl⟩ := Option.map_eq_some_iff.mp hstep
        refine ⟨h.plain, h.parameter, h.outside, h.entered, h.toRead, ?_, ?_, h.past,
          ⟨h.sound.reads, h.sound.runs⟩⟩
        · intro args heq
          rw [show s.task = .constructing args from heq] at hidle
          exact hidle.elim
        · intro args name heq
          rw [show s.task = .opening args name from heq] at hidle
          exact hidle.elim
      · cases hstep

/-- What Main would read is dead, or is not the name. -/
def OpenCalls.Misreads (s : OpenCalls) (args : OpenRepoArgs) : Prop :=
  (s.deref args "").alive = true → s.names[args.repoName]? ≠ some (s.deref args "").text

theorem deref_args (s : OpenCalls) (args : OpenRepoArgs) (dead : String) :
    (s.deref args dead).args = args := by
  unfold OpenCalls.deref
  split
  · split <;> rfl
  · rfl

variable {debug : Bool}

/-- A step that reads is bad. -/
theorem OpenCalls.Misreads.not_always (h : s.Misreads args) (lib : Lib)
    (hstep : s.step debug (.proceed "" lib) = some next)
    (hread : s.deref args "" ∈ next.reads) (hnames : next.names = s.names) :
    ¬ Always (OpenCalls.step debug) (fun _ _ next => OpensWhatWasNamed next) s
      [.proceed "" lib] := by
  intro hall
  obtain ⟨halive, hname⟩ := (hall next hstep).1.reads _ hread
  rw [hnames, deref_args] at hname
  exact h halive hname

theorem deref_mem_read (s : OpenCalls) (args : OpenRepoArgs) (dead : String) :
    s.deref args dead ∈ (s.read args dead).reads :=
  List.mem_append_right _ (List.mem_singleton_self _)

/-- From the comparison on there is one more read, here or in the constructor. -/
theorem OpenCalls.Misreads.compared (h : s.Misreads args) (htask : s.task = .comparing args) :
    ∃ more, ¬ Always (OpenCalls.step debug) (fun _ _ next => OpensWhatWasNamed next) s more := by
  have hmem := deref_mem_read s args ""
  cases hslot : s.manager.currentRepo with
  | none =>
      let constructing : OpenCalls := { s with task := .constructing args }
      have hgo : s.step debug (.proceed "" Lib.allOk) = some constructing := by
        simp only [OpenCalls.step, OpenCalls.proceed, htask, hslot]
        rfl
      have hmis : constructing.Misreads args := h
      exact ⟨_, not_always_cons hgo (hmis.not_always Lib.allOk rfl hmem rfl)⟩
  | some g =>
      by_cases hname : (s.deref args "").text = g.name
      · have hgo : s.step debug (.proceed "" Lib.allOk) = some ((s.read args "").finish args Lib.allOk
            ⟨{ s.manager with repoRefCnt := int32 (s.manager.repoRefCnt + 1) },
              [.text "success"], []⟩) := by
          simp only [OpenCalls.step, OpenCalls.proceed, htask, hslot, hname, ne_eq, not_true,
            if_false]
        exact ⟨_, h.not_always Lib.allOk hgo hmem rfl⟩
      · have hgo : s.step debug (.proceed "" Lib.allOk) =
            some { s.read args "" with task := .constructing args } := by
          simp only [OpenCalls.step, OpenCalls.proceed, htask, hslot, ne_eq, hname,
            not_false_iff, if_true]
        exact ⟨_, h.not_always Lib.allOk hgo hmem rfl⟩

/-- Whatever Main has to read, it may get to a read. -/
theorem OpenCalls.Misreads.reached (h : s.Misreads args) (debug : Bool)
    (hread : s.task.ToRead args) :
    ∃ more, ¬ Always (OpenCalls.step debug) (fun _ _ next => OpensWhatWasNamed next) s more := by
  have hmem := deref_mem_read s args ""
  have hlogging : ∀ s : OpenCalls, s.Misreads args → s.task = .logging args →
      ∃ more, ¬ Always (OpenCalls.step debug) (fun _ _ next => OpensWhatWasNamed next) s more := by
    intro s h htask
    have hgo : s.step debug (.proceed "" Lib.allOk) =
        some { s.read args "" with task := .comparing args } := by
      simp only [OpenCalls.step, OpenCalls.proceed, htask]
    exact ⟨_, h.not_always Lib.allOk hgo (deref_mem_read s args "") rfl⟩
  cases htask : s.task with
  | none | opening => simp [htask, OpenTaskAt.ToRead] at hread
  | queued mine =>
      obtain rfl : mine = args := by simpa [htask, OpenTaskAt.ToRead] using hread
      have hgo : s.step debug .take =
          some { s with task := if debug then .logging mine else .comparing mine } := by
        simp only [OpenCalls.step, htask]
      cases debug with
      | true =>
          obtain ⟨more, hmore⟩ := hlogging { s with task := .logging mine } h rfl
          exact ⟨_, not_always_cons hgo hmore⟩
      | false =>
          have hmis : ({ s with task := .comparing mine } : OpenCalls).Misreads mine := h
          obtain ⟨more, hmore⟩ := hmis.compared rfl
          exact ⟨_, not_always_cons hgo hmore⟩
  | logging mine =>
      obtain rfl : mine = args := by simpa [htask, OpenTaskAt.ToRead] using hread
      exact hlogging s h htask
  | comparing mine =>
      obtain rfl : mine = args := by simpa [htask, OpenTaskAt.ToRead] using hread
      exact h.compared htask
  | constructing mine =>
      obtain rfl : mine = args := by simpa [htask, OpenTaskAt.ToRead] using hread
      have hgo : s.step debug (.proceed "" Lib.allOk) = some
          { s.read mine "" with task := .opening mine (s.deref mine "").text } := by
        simp only [OpenCalls.step, OpenCalls.proceed, htask]
      exact ⟨_, h.not_always Lib.allOk hgo hmem rfl⟩

/-- A step that does not meet the condition may be followed by a bad read. -/
theorem not_outlivesReads {e : OpenEvent} (hstep : s.step debug e = some next)
    (hnot : ¬ OutlivesReads s e) :
    ∃ more, ¬ Always (OpenCalls.step debug) (fun _ _ next => OpensWhatWasNamed next) next
      more := by
  cases e with
  | call name =>
      simp only [OpenCalls.step] at hstep
      split at hstep
      · cases hstep
        let asked : OpenCalls := { s with
          caller := .posted s.names.length
          parameter := some (s.names.length, name)
          task := .queued ⟨s.names.length⟩
          names := s.names ++ [name] }
        have hmis : asked.Misreads ⟨s.names.length⟩ := by
          intro _ hname
          apply hnot
          intro hmem
          have hwhole : name = cString name := by simpa [asked, OpenCalls.deref] using hname
          exact (cString_eq_self name).mp hwhole.symm hmem
        obtain ⟨more, hmore⟩ := hmis.reached debug rfl
        exact ⟨.post :: more, not_always_cons rfl hmore⟩
      · cases hstep
  | ret =>
      simp only [OpenCalls.step] at hstep
      split at hstep
      · rename_i number hposted
        cases hstep
        obtain ⟨args, hread⟩ := not_forall_not.mp hnot
        let left : OpenCalls := { s with caller := .waiting number, parameter := none }
        have hmis : left.Misreads args := by rintro ⟨⟩
        exact hmis.reached debug hread
      · cases hstep
  | post | resume | take | proceed | other => exact absurd trivial hnot

/-- For every name and every timing: while every name is all of a C string
and every caller stays in the call until Main has read the name for the last
time, Main reads living strings and opens what was asked for; and whenever a
step of any run does not meet this, the run can go on to a bad read. -/
theorem opens_what_was_named (debug : Bool) (m : RepositoryManager) :
    (∀ es, StepsMeet (OpenCalls.step debug) OutlivesReads (.start m) es →
      Always (OpenCalls.step debug) (fun _ _ next => OpensWhatWasNamed next) (.start m) es) ∧
    ∀ es e here next, exec (OpenCalls.step debug) (.start m) es = some here →
      here.step debug e = some next → ¬ OutlivesReads here e →
      ∃ more, ¬ Always (OpenCalls.step debug) (fun _ _ next => OpensWhatWasNamed next) (.start m)
        (es ++ e :: more) := by
  constructor
  · intro es hmeet
    apply always_of_stepsMeet _ (openInv_start m) hmeet
    intro s e next h hcond hstep
    have hnext := h.step hcond hstep
    exact ⟨hnext, hnext.sound⟩
  · intro es e here next hrun hstep hnot
    obtain ⟨more, hmore⟩ := not_outlivesReads hstep hnot
    exact ⟨more, not_always_append hrun (not_always_cons hstep hmore)⟩

/-- The caller stays until the task is over. -/
def patientCall : List OpenEvent :=
  [.call "new-server", .post, .take, .proceed "" Lib.allOk, .proceed "" Lib.allOk,
    .proceed "" Lib.allOk, .ret, .resume]

theorem opens_what_was_named_patient :
    Always (OpenCalls.step false) (fun _ _ next => OpensWhatWasNamed next) (.start .init)
      patientCall := by
  apply (opens_what_was_named false .init).1
  have hplain : '\x00' ∉ "new-server".toList := by decide
  have hread : ∀ args, ¬ OpenTaskAt.ToRead args .none := fun _ hread => hread
  apply stepsMeet_cons rfl hplain
  apply stepsMeet_cons rfl trivial
  apply stepsMeet_cons rfl trivial
  apply stepsMeet_cons rfl trivial
  apply stepsMeet_cons rfl trivial
  apply stepsMeet_cons rfl trivial
  apply stepsMeet_cons rfl hread
  apply stepsMeet_cons rfl trivial
  trivial

/-- The caller is back before Main gets to the task. -/
theorem early_return_opens_another :
    ¬ Always (OpenCalls.step false) (fun _ _ next => OpensWhatWasNamed next) (.start .init)
      [.call "new-server", .post, .ret, .take, .proceed "" Lib.allOk,
        .proceed "old-server" Lib.allOk] := by
  intro hall
  obtain ⟨-, hall⟩ := hall _ rfl
  obtain ⟨-, hall⟩ := hall _ rfl
  obtain ⟨-, hall⟩ := hall _ rfl
  obtain ⟨-, hall⟩ := hall _ rfl
  obtain ⟨-, hall⟩ := hall _ rfl
  obtain ⟨hnamed, -⟩ := hall _ rfl
  have hdead := (hnamed.reads ⟨⟨0⟩, false, "old-server"⟩ (by decide)).1
  cases hdead

end GitRpc.Repository
