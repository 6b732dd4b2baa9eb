import GitRpc.Library.Histories
import GitRpc.TaskManager.NamedRunners

/-!
The task that a runner is made with. It should be run before any other, and
once; but `CreateRunnerOnNewThread` does nothing with it, and
`InitializeOnCurrentThread` posts it like any other task, after others may have
come, and without a lock, so that two posts may meet in the queue.
-/

namespace GitRpc.TaskManager

open Dispatcher Library.Runs Library.Families Library.Histories Library.TopSlot Library.Uses

variable {φ : Type*}

/-- A step of the loop that comes with the runner. -/
def RunnerEvent.isFirstLoop : RunnerEvent φ → Bool
  | .run 0 => true
  | _ => false

namespace NamedRunner

/-- The init task has been run, and is in the queue no more. -/
def InitDone (s : NamedRunner φ) : Prop :=
  ∀ creation, s.initTask = some creation → s.invoked ≠ [] ∧
    ∃ number, s.initNumber = some number ∧ number ∉ s.queue.entries.map Entry.number

/-- What the callers have to see to at each step. `InitializeOnCurrentThread` is
given a task, and not under the name of a runner that has yet to run its own;
`CreateRunnerOnNewThread` is given none. The init task comes before what has
been posted already, and as long as it is not complete no post comes before it
or, when its loop holds the pointer, moves it to another buffer. -/
def KeepsInitFirst (s : NamedRunner φ) : RunnerEvent φ → Prop
  | .initializeOnCurrentThread initTask _ => initTask.isSome ∧
      (s.created = false → ∀ creation ∈ initTask, creation.Invocable) ∧
      (s.created = true → s.InitDone)
  | .createRunnerOnNewThread initTask => s.created = false → initTask = none
  | .postNonThreadPoolTask creation memory => ∀ entry ∈ s.queue.entries,
      some entry.number = s.initNumber → entry.task.isComplete = false →
        s.queue.Keeps Entry.comesAfter ⟨s.posted.length, creation.create memory⟩ ∧
          ((∃ place ∈ s.loops, place.pointer.isSome) →
            s.queue.entries.length < s.queue.capacity)
  | .run i => i = 0 → ∀ creation memory, s.loops[i]? = some (.initializing (some creation) memory) →
      ∀ top ∈ s.queue.entries.head?,
        Entry.comesAfter top ⟨s.posted.length, creation.create memory⟩
  | _ => True

end NamedRunner

/-- The same for all runners; and no two threads are in one container at once
when one of them changes it. -/
def KeepsInitFirst : InUse (String → NamedRunner φ) Container →
    UseEvent (String × RunnerEvent φ) Container → Prop :=
  KeepsApart fun s e => (s e.1).KeepsInitFirst e.2

/-- How many steps of the loop lie before the call of a task at the top. -/
def LoopAt.toCall : LoopAt φ → Nat
  | .initializing _ _ => 5
  | .testing => 4
  | .taking => 3
  | .asking _ => 2
  | .invoking _ => 1
  | _ => 0

def NamedRunner.toCall (s : NamedRunner φ) : Nat := s.loops.head?.elim 5 LoopAt.toCall

/-- The loop is on its way to a call of the task at the top. -/
def LoopAt.BeforeCall (buffer : Nat) : LoopAt φ → Prop
  | .testing | .taking => True
  | .asking t | .invoking t => t = buffer
  | _ => False

def LoopAt.isInitializing : LoopAt φ → Bool
  | .initializing _ _ => true
  | _ => false

/-- The loop has yet to post the init task. -/
structure Preparing (creation : Creation φ) (s : NamedRunner φ) : Prop where
  loop : ∃ memory, s.loops = [.initializing (some creation) memory]
  invoked : s.invoked = []
  number : s.initNumber = none
  defined : s.undefined = none

/-- The init task is at the top, and its loop, the only one, is on the way to
its call, or in it. -/
structure Due (creation : Creation φ) (number : Nat) (s : NamedRunner φ) : Prop where
  initNumber : s.initNumber = some number
  posted : s.posted[number]? = some creation
  top : ∃ memory rest, s.queue.entries = ⟨number, creation.create memory⟩ :: rest
  loop : ∃ place, s.loops = [place] ∧
    ((place.BeforeCall s.queue.buffer ∧ s.invoked = []) ∨
      (place = .completing s.queue.buffer ∧ s.invoked = [(number, some creation.call)]))
  defined : s.undefined = none

/-- The init task has been run and is complete. As long as it is in the queue
there is one loop, and it is not about to call a complete task. -/
structure Ran (creation : Creation φ) (number : Nat) (s : NamedRunner φ) : Prop where
  initNumber : s.initNumber = some number
  posted : s.posted[number]? = some creation
  first : ∃ rest, s.invoked = (number, some creation.call) :: rest ∧ number ∉ rest.map Prod.fst
  started : ∃ place, s.loops[0]? = some place ∧ place.isInitializing = false
  left : number ∉ s.queue.entries.map Entry.number ∨ ∃ place, s.loops = [place] ∧
    (∀ entry ∈ s.queue.entries, entry.number = number → entry.task.isComplete = true) ∧
    ∀ t, place = .invoking t → ∀ top ∈ s.queue.entries.head?, top.task.isComplete = false

/-- The entries of the queue are of different posts. -/
structure QueueNumbered (s : NamedRunner φ) : Prop where
  once : (s.queue.entries.map Entry.number).Nodup
  posted : ∀ entry ∈ s.queue.entries, entry.number < s.posted.length

variable {s next : NamedRunner φ} {e : RunnerEvent φ} {creation : Creation φ} {number : Nat}

theorem QueueNumbered.push (h : QueueNumbered s) (creation : Creation φ) (memory : Int)
    (hqueue : next.queue = (s.postTask creation memory).queue)
    (hposted : next.posted = s.posted ++ [creation]) : QueueNumbered next := by
  have hperm : next.queue.entries.Perm
      (⟨s.posted.length, creation.create memory⟩ :: s.queue.entries) := by
    rw [hqueue]
    exact s.queue.push_perm _
  refine ⟨?_, ?_⟩
  · rw [(hperm.map Entry.number).nodup_iff, List.map_cons, List.nodup_cons]
    refine ⟨?_, h.once⟩
    intro hmem
    obtain ⟨entry, hentry, hnumber⟩ := List.mem_map.mp hmem
    have hlt := h.posted entry hentry
    rw [hnumber] at hlt
    exact lt_irrefl _ hlt
  · intro entry hentry
    rw [hposted, List.length_append, List.length_singleton]
    rcases List.mem_cons.mp (hperm.mem_iff.mp hentry) with rfl | hold
    · exact Nat.lt_succ_self _
    · exact Nat.lt_succ_of_lt (h.posted entry hold)

theorem map_modifyHead_complete (entries : List (Entry φ)) :
    (entries.modifyHead Entry.complete).map Entry.number = entries.map Entry.number := by
  cases entries <;> rfl

/-- A task is complete already, or it is the top that is marked. -/
theorem modifyHead_complete_iff {entries : List (Entry φ)} {number : Nat}
    (h : ∀ entry ∈ entries, entry.number = number → entry.task.isComplete = true) :
    ∀ entry ∈ entries.modifyHead Entry.complete, entry.number = number →
      entry.task.isComplete = true := by
  cases entries with
  | nil => exact h
  | cons top rest =>
      intro entry hmem hnumber
      rcases List.mem_cons.mp hmem with rfl | hrest
      · rfl
      · exact h entry (List.mem_cons_of_mem _ hrest) hnumber

theorem QueueNumbered.step (h : QueueNumbered s) (hstep : s.step e = some next) :
    QueueNumbered next := by
  cases step_runnerStepped hstep with
  | post creation memory => exact h.push creation memory rfl rfl
  | postInitTask i creation memory => exact h.push creation memory rfl rfl
  | complete i t entry =>
      have hsame := map_modifyHead_complete s.queue.entries
      refine ⟨?_, ?_⟩
      · exact hsame.symm ▸ h.once
      · intro other hother
        have hmem : other.number ∈ s.queue.entries.map Entry.number := by
          rw [← hsame]
          exact List.mem_map_of_mem hother
        obtain ⟨same, hsameMem, hnumber⟩ := List.mem_map.mp hmem
        rw [← hnumber]
        exact h.posted same hsameMem
  | pop i n popped _ hpop =>
      obtain ⟨top, rest, hentries, hperm, -⟩ := VectorHeap.pop_spec hpop
      have honce := h.once
      rw [hentries, List.map_cons, List.nodup_cons] at honce
      refine ⟨(hperm.map Entry.number).nodup_iff.mpr honce.2, ?_⟩
      intro entry hentry
      apply h.posted entry
      rw [hentries]
      exact List.mem_cons_of_mem _ (hperm.mem_iff.mp hentry)
  | _ => exact ⟨h.once, h.posted⟩

theorem only_loop {place other : LoopAt φ} {i : Nat} (hloops : s.loops = [place])
    (hat : s.loops[i]? = some other) : i = 0 ∧ other = place := by
  rw [hloops, List.getElem?_singleton] at hat
  split at hat
  · rename_i hi
    exact ⟨hi, (Option.some.inj hat).symm⟩
  · cases hat

theorem set_only_loop {place : LoopAt φ} (hloops : s.loops = [place]) (new : LoopAt φ) :
    s.loops.set 0 new = [new] := by
  rw [hloops]
  rfl

theorem toCall_only {place : LoopAt φ} (hloops : s.loops = [place]) : s.toCall = place.toCall := by
  rw [NamedRunner.toCall, hloops]
  rfl

/-- One step of the runner while the init task is still to be posted: others
may post, and then it comes to the top. -/
theorem Preparing.step (h : Preparing creation s) (hcreated : s.created = true)
    (hinit : s.initTask = some creation) (hcond : s.KeepsInitFirst e) (hstep : s.step e = some next) :
    (Preparing creation next ∨ Due creation s.posted.length next) ∧
      next.toCall + [e].countP RunnerEvent.isFirstLoop ≤ s.toCall := by
  obtain ⟨memory, hloops⟩ := h.loop
  cases step_runnerStepped hstep with
  | takeOver =>
      exact absurd h.invoked (hcond.2.2 hcreated creation hinit).1
  | create _ hnew =>
      rw [hcreated] at hnew
      cases hnew
  | exists_ | throw_ => exact ⟨.inl h, le_refl _⟩
  | post | signalNone => exact ⟨.inl ⟨⟨memory, hloops⟩, h.invoked, h.number, h.defined⟩, le_refl _⟩
  | postInitTask i creation' memory' hat =>
      obtain ⟨rfl, hplace⟩ := only_loop hloops hat
      cases hplace
      have hentries : (s.postInitTask 0 creation memory).queue.entries =
          ⟨s.posted.length, creation.create memory⟩ :: s.queue.entries :=
        VectorHeap.push_first (hcond rfl creation memory hat)
      have hposted : (s.postInitTask 0 creation memory).posted[s.posted.length]? =
          some creation := List.getElem?_concat_length
      have hnext : (s.postInitTask 0 creation memory).loops = [.testing] :=
        set_only_loop hloops .testing
      refine ⟨.inr ⟨rfl, hposted, ⟨memory, _, hentries⟩, ⟨.testing, hnext, .inl ⟨trivial, h.invoked⟩⟩,
        h.defined⟩, ?_⟩
      rw [toCall_only hnext, toCall_only hloops]
      exact le_refl 5
  | readNull _ _ hat | noTop _ hat | test _ hat | take _ hat | signal _ _ hat
  | ask _ _ _ hat | invoke _ _ _ hat | complete _ _ _ hat | check _ hat | enterWait _ hat
  | leaveWait _ hat | noPop _ _ hat | pop _ _ _ hat | wakeUnasked _ hat =>
      obtain ⟨-, hplace⟩ := only_loop hloops hat
      cases hplace
  | lose i t place hat hholds =>
      obtain ⟨-, rfl⟩ := only_loop hloops hat
      cases hholds

/-- A loop that has yet to make the call moves on by one step. -/
theorem Due.move {place : LoopAt φ} (h : Due creation number s) (hinvoked : s.invoked = [])
    (hloops : s.loops = [place]) {new : LoopAt φ} (hnew : new.BeforeCall s.queue.buffer)
    (htoCall : new.toCall + 1 = place.toCall) :
    Due creation number (s.goTo 0 new) ∧ ((s.goTo 0 new).invoked = [] → s.invoked = [] ∧
      (s.goTo 0 new).toCall + [RunnerEvent.run (φ := φ) 0].countP RunnerEvent.isFirstLoop ≤
        s.toCall) := by
  have hnext : (s.goTo 0 new).loops = [new] := set_only_loop hloops new
  refine ⟨⟨h.initNumber, h.posted, h.top, ⟨new, hnext, .inl ⟨hnew, hinvoked⟩⟩, h.defined⟩,
    fun _ => ⟨hinvoked, ?_⟩⟩
  rw [toCall_only hnext, toCall_only hloops]
  have hone : [RunnerEvent.run (φ := φ) 0].countP RunnerEvent.isFirstLoop = 1 := rfl
  omega

/-- A post leaves the init task at the top, and the pointer to it alive. -/
theorem Due.post (h : Due creation number s) {other : Creation φ} {memory : Int}
    (hcond : s.KeepsInitFirst (.postNonThreadPoolTask other memory)) :
    Due creation number { s.postTask other memory with toSignal := s.toSignal + 1 } := by
  obtain ⟨memory', rest, hentries⟩ := h.top
  obtain ⟨here, hloops, hhere⟩ := h.loop
  obtain ⟨hkeeps, hroom⟩ := hcond ⟨number, creation.create memory'⟩
    (by rw [hentries]; exact List.mem_cons_self) h.initNumber.symm
    (creation.create_isComplete memory')
  have hbuffer : here.pointer.isSome → (s.postTask other memory).queue.buffer = s.queue.buffer := by
    intro hholds
    apply VectorHeap.push_buffer
    exact hroom ⟨here, by rw [hloops]; exact List.mem_singleton_self _, hholds⟩
  have hhere' : (here.BeforeCall (s.postTask other memory).queue.buffer ∧ s.invoked = []) ∨
      (here = .completing (s.postTask other memory).queue.buffer ∧
        s.invoked = [(number, some creation.call)]) := by
    rcases hhere with ⟨hbefore, hinvoked⟩ | ⟨rfl, hinvoked⟩
    · refine .inl ⟨?_, hinvoked⟩
      cases here with
      | testing | taking => trivial
      | asking t | invoking t => exact Eq.trans hbefore (hbuffer rfl).symm
      | _ => exact hbefore.elim
    · rw [hbuffer rfl]
      exact .inr ⟨rfl, hinvoked⟩
  exact ⟨h.initNumber, getElem?_append_some h.posted _, ⟨memory', _, hkeeps.push hentries⟩,
    ⟨here, hloops, hhere'⟩, h.defined⟩

/-- The end of the init task's `Invoke`. -/
theorem Due.complete (h : Due creation number s) (hnumbered : QueueNumbered s) {t : Nat}
    (hloops : s.loops = [.completing t])
    (hinvoked : s.invoked = [(number, some creation.call)]) :
    Ran creation number { s.goTo 0 .popping with queue := s.queue.setTop Entry.complete } := by
  obtain ⟨memory, rest, hentries⟩ := h.top
  have hnext : (s.goTo 0 .popping).loops = [.popping] := set_only_loop hloops .popping
  have honce := hnumbered.once
  rw [hentries, List.map_cons, List.nodup_cons] at honce
  refine ⟨h.initNumber, h.posted, ⟨[], hinvoked, List.not_mem_nil⟩, ⟨.popping, ?_, rfl⟩,
    .inr ⟨.popping, hnext, ?_, ?_⟩⟩
  · show (s.goTo 0 .popping).loops[0]? = some .popping
    rw [hnext]
    rfl
  · intro entry hmem hnumber
    simp only [VectorHeap.setTop, hentries, List.modifyHead_cons] at hmem
    rcases List.mem_cons.mp hmem with rfl | hrest
    · rfl
    · have hlisted : entry.number ∈ rest.map Entry.number := List.mem_map_of_mem hrest
      rw [hnumber] at hlisted
      exact absurd hlisted honce.1
  · intro t ht
    cases ht

/-- One step of the runner while the init task is at the top. -/
theorem Due.step (h : Due creation number s) (hcreated : s.created = true)
    (hinit : s.initTask = some creation) (hinvocable : creation.Invocable)
    (hnumbered : QueueNumbered s) (hcond : s.KeepsInitFirst e) (hstep : s.step e = some next) :
    (Due creation number next ∧ (next.invoked = [] → s.invoked = [] ∧
      next.toCall + [e].countP RunnerEvent.isFirstLoop ≤ s.toCall)) ∨
      Ran creation number next := by
  obtain ⟨memory, rest, hentries⟩ := h.top
  obtain ⟨here, hloops, hhere⟩ := h.loop
  have hsome : s.queue.entries.isEmpty = false := by
    rw [hentries]
    rfl
  have hderef : s.queue.deref s.queue.buffer = some ⟨number, creation.create memory⟩ :=
    VectorHeap.deref_top hentries
  cases step_runnerStepped hstep with
  | takeOver =>
      exfalso
      obtain ⟨-, other, hother, hnot⟩ := hcond.2.2 hcreated creation hinit
      apply hnot
      obtain rfl := Option.some.inj (h.initNumber.symm.trans hother)
      simp [hentries]
  | create _ hnew =>
      rw [hcreated] at hnew
      cases hnew
  | exists_ | throw_ => exact .inl ⟨h, fun hnone => ⟨hnone, le_refl _⟩⟩
  | signalNone =>
      exact .inl ⟨⟨h.initNumber, h.posted, h.top, h.loop, h.defined⟩,
        fun hnone => ⟨hnone, le_refl _⟩⟩
  | post other memory' => exact .inl ⟨h.post hcond, fun hnone => ⟨hnone, le_refl _⟩⟩
  | test i hat =>
      obtain ⟨rfl, rfl⟩ := only_loop hloops hat
      rcases hhere with ⟨-, hinvoked⟩ | ⟨hplace, -⟩
      · rw [hsome]
        exact .inl (h.move hinvoked hloops trivial rfl)
      · cases hplace
  | take i hat =>
      obtain ⟨rfl, rfl⟩ := only_loop hloops hat
      rcases hhere with ⟨-, hinvoked⟩ | ⟨hplace, -⟩
      · refine .inl (h.move hinvoked hloops ?_ rfl)
        rfl
      · cases hplace
  | ask i t entry hat htop =>
      obtain ⟨rfl, rfl⟩ := only_loop hloops hat
      rcases hhere with ⟨ht, hinvoked⟩ | ⟨hplace, -⟩
      · obtain rfl : t = s.queue.buffer := ht
        obtain rfl := Option.some.inj (hderef.symm.trans htop)
        rw [creation.create_isComplete memory]
        refine .inl (h.move hinvoked hloops ?_ rfl)
        rfl
      · cases hplace
  | invoke i t entry hat htop =>
      obtain ⟨rfl, rfl⟩ := only_loop hloops hat
      rcases hhere with ⟨ht, hinvoked⟩ | ⟨hplace, -⟩
      · obtain rfl : t = s.queue.buffer := ht
        obtain rfl := Option.some.inj (hderef.symm.trans htop)
        have hcalled : s.invoked ++ [(number, (creation.create memory).invoke.1)] =
            [(number, some creation.call)] := by
          rw [hinvoked, Creation.invoke_create hinvocable memory, List.nil_append]
        refine .inl ⟨⟨h.initNumber, h.posted, h.top,
          ⟨_, set_only_loop hloops _, .inr ⟨rfl, hcalled⟩⟩, h.defined⟩, ?_⟩
        intro hnone
        exact absurd hnone (hcalled ▸ List.cons_ne_nil _ _)
      · cases hplace
  | complete i t entry hat =>
      obtain ⟨rfl, rfl⟩ := only_loop hloops hat
      rcases hhere with ⟨hbefore, -⟩ | ⟨hplace, hinvoked⟩
      · exact hbefore.elim
      · exact .inr (h.complete hnumbered hloops hinvoked)
  | lose i t place hat hholds hnone =>
      obtain ⟨-, rfl⟩ := only_loop hloops hat
      have ht : t = s.queue.buffer := by
        rcases hhere with ⟨hbefore, -⟩ | ⟨rfl, -⟩
        · cases place with
          | asking t | invoking t =>
              cases hholds
              exact hbefore
          | completing t => exact hbefore.elim
          | _ => cases hholds
        · cases hholds
          rfl
      rw [ht, hderef] at hnone
      cases hnone
  | noTop i _ hempty =>
      rw [hentries] at hempty
      cases hempty
  | postInitTask _ _ _ hat | readNull _ _ hat | signal _ _ hat | check _ hat | enterWait _ hat
  | leaveWait _ hat | noPop _ _ hat | pop _ _ _ hat | wakeUnasked _ hat =>
      obtain ⟨-, rfl⟩ := only_loop hloops hat
      rcases hhere with ⟨hbefore, -⟩ | ⟨hplace, -⟩
      · exact hbefore.elim
      · cases hplace

theorem Ran.lt (h : Ran creation number s) : number < s.posted.length :=
  (List.getElem?_eq_some_iff.mp h.posted).1

theorem started_set {loops : List (LoopAt φ)} {i : Nat} {new : LoopAt φ}
    (h : ∃ place, loops[0]? = some place ∧ place.isInitializing = false)
    (hnew : new.isInitializing = false) :
    ∃ place, (loops.set i new)[0]? = some place ∧ place.isInitializing = false := by
  obtain ⟨place, hplace, hstarted⟩ := h
  cases i with
  | zero =>
      refine ⟨new, ?_, hnew⟩
      rw [List.getElem?_set_self (List.getElem?_eq_some_iff.mp hplace).1]
  | succ i =>
      refine ⟨place, ?_, hstarted⟩
      rw [List.getElem?_set_ne (Nat.succ_ne_zero i)]
      exact hplace

/-- A loop moves, and calls nothing. -/
theorem Ran.goTo (h : Ran creation number s) {i : Nat} {old : LoopAt φ} (new : LoopAt φ)
    (hat : s.loops[i]? = some old) (hnew : new.isInitializing = false)
    (hcalls : ∀ t, new = .invoking t → ∀ top ∈ s.queue.entries.head?,
      top.task.isComplete = false) : Ran creation number (s.goTo i new) := by
  refine ⟨h.initNumber, h.posted, h.first, started_set h.started hnew, ?_⟩
  rcases h.left with hgone | ⟨place, hloops, hcomplete, -⟩
  · exact .inl hgone
  · obtain ⟨rfl, -⟩ := only_loop hloops hat
    exact .inr ⟨new, set_only_loop hloops new, hcomplete, hcalls⟩

/-- A complete task is not invoked again. -/
theorem Ran.not_called (h : Ran creation number s) {i t : Nat} {entry : Entry φ}
    (hat : s.loops[i]? = some (.invoking t)) (htop : s.queue.deref t = some entry) :
    entry.number ≠ number := by
  have hhead := VectorHeap.head_of_deref htop
  have hmem := List.mem_of_head? hhead
  rintro rfl
  rcases h.left with hgone | ⟨place, hloops, hcomplete, hcalls⟩
  · exact hgone (List.mem_map_of_mem hmem)
  · obtain ⟨-, rfl⟩ := only_loop hloops hat
    have htrue := hcomplete entry hmem rfl
    rw [hcalls t rfl entry hhead] at htrue
    cases htrue

/-- What is posted later is another task. -/
theorem Ran.not_queued (h : Ran creation number s) {other : Creation φ} {memory : Int}
    (hgone : number ∉ s.queue.entries.map Entry.number) :
    number ∉ (s.postTask other memory).queue.entries.map Entry.number := by
  intro hmem
  have hperm : ((s.postTask other memory).queue.entries.map Entry.number).Perm
      (s.posted.length :: s.queue.entries.map Entry.number) :=
    (s.queue.push_perm _).map Entry.number
  rcases List.mem_cons.mp (hperm.mem_iff.mp hmem) with heq | hold
  · exact absurd h.lt (heq ▸ lt_irrefl _)
  · exact hgone hold

theorem Ran.post (h : Ran creation number s) (other : Creation φ) (memory : Int) :
    Ran creation number { s.postTask other memory with toSignal := s.toSignal + 1 } := by
  refine ⟨h.initNumber, getElem?_append_some h.posted _, h.first, h.started, ?_⟩
  rcases h.left with hgone | ⟨place, hloops, hcomplete, hcalls⟩
  · exact .inl (h.not_queued hgone)
  · refine .inr ⟨place, hloops, ?_, ?_⟩
    · intro entry hmem hnumber
      rcases List.mem_cons.mp ((s.queue.push_perm _).mem_iff.mp hmem) with rfl | hold
      · exact absurd h.lt (hnumber ▸ lt_irrefl _)
      · exact hcomplete entry hold hnumber
    · intro t hplace top htop
      have hhead : (s.postTask other memory).queue.entries.head? = s.queue.entries.head? ∨
          (s.postTask other memory).queue.entries.head? =
            some ⟨s.posted.length, other.create memory⟩ := s.queue.push_head _
      rcases hhead with hsame | hnew
      · exact hcalls t hplace top (hsame ▸ htop)
      · obtain rfl := Option.some.inj (hnew.symm.trans htop)
        exact other.create_isComplete memory

/-- One step of the runner after the init task has been run. -/
theorem Ran.step (h : Ran creation number s) (hcreated : s.created = true)
    (hinit : s.initTask = some creation) (hcond : s.KeepsInitFirst e)
    (hstep : s.step e = some next) : Ran creation number next := by
  cases step_runnerStepped hstep with
  | takeOver initTask memory =>
      obtain ⟨-, other, hother, hgone⟩ := hcond.2.2 hcreated creation hinit
      obtain rfl := Option.some.inj (h.initNumber.symm.trans hother)
      obtain ⟨place, hplace, hstarted⟩ := h.started
      exact ⟨h.initNumber, h.posted, h.first, ⟨place, getElem?_append_some hplace _, hstarted⟩,
        .inl hgone⟩
  | create _ hnew =>
      rw [hcreated] at hnew
      cases hnew
  | exists_ | throw_ => exact h
  | post other memory => exact h.post other memory
  | signalNone | readNull | noTop | lose | noPop =>
      exact ⟨h.initNumber, h.posted, h.first, h.started, h.left⟩
  | signal i _ hat | wakeUnasked i hat =>
      have hnext := h.goTo .waking hat rfl (by rintro t ⟨⟩)
      exact ⟨hnext.initNumber, hnext.posted, hnext.first, hnext.started, hnext.left⟩
  | postInitTask i other memory hat =>
      obtain ⟨place, hplace, hstarted⟩ := h.started
      have hi : i ≠ 0 := by
        rintro rfl
        obtain rfl := Option.some.inj (hplace.symm.trans hat)
        cases hstarted
      refine ⟨?_, getElem?_append_some h.posted _, h.first, started_set h.started rfl, ?_⟩
      · rw [NamedRunner.postInitTask, if_neg hi]
        exact h.initNumber
      · rcases h.left with hgone | ⟨only, hloops, -⟩
        · exact .inl (h.not_queued hgone)
        · exact absurd (only_loop hloops hat).1 hi
  | test i hat | check i hat =>
      split
      · exact h.goTo _ hat rfl (by rintro t ⟨⟩)
      · exact h.goTo _ hat rfl (by rintro t ⟨⟩)
  | take i hat => exact h.goTo _ hat rfl (by rintro t ⟨⟩)
  | enterWait i hat =>
      have hnext := h.goTo .waiting hat rfl (by rintro t ⟨⟩)
      exact ⟨hnext.initNumber, hnext.posted, hnext.first, hnext.started, hnext.left⟩
  | leaveWait i hat =>
      have hnext := h.goTo .testing hat rfl (by rintro t ⟨⟩)
      exact ⟨hnext.initNumber, hnext.posted, hnext.first, hnext.started, hnext.left⟩
  | ask i t entry hat htop =>
      cases hcomplete : entry.task.isComplete with
      | false =>
          refine h.goTo _ hat rfl ?_
          intro t' _ top hhead
          obtain rfl := Option.some.inj ((VectorHeap.head_of_deref htop).symm.trans hhead)
          exact hcomplete
      | true => exact h.goTo _ hat rfl (by rintro t ⟨⟩)
  | invoke i t entry hat htop =>
      have hother := h.not_called hat htop
      obtain ⟨rest, hinvoked, hrest⟩ := h.first
      have hnext := h.goTo (.completing t) hat rfl (by rintro t ⟨⟩)
      refine ⟨h.initNumber, h.posted, ⟨rest ++ [(entry.number, entry.task.invoke.1)], ?_, ?_⟩,
        hnext.started, hnext.left⟩
      · rw [hinvoked, List.cons_append]
      · rw [List.map_append, List.mem_append, not_or]
        refine ⟨hrest, ?_⟩
        simpa using hother.symm
  | complete i t entry hat =>
      have hnext := h.goTo .popping hat rfl (by rintro t ⟨⟩)
      refine ⟨h.initNumber, h.posted, h.first, hnext.started, ?_⟩
      rcases h.left with hgone | ⟨place, hloops, hcomplete, -⟩
      · refine .inl ?_
        show number ∉ (s.queue.entries.modifyHead Entry.complete).map Entry.number
        rw [map_modifyHead_complete]
        exact hgone
      · obtain ⟨rfl, -⟩ := only_loop hloops hat
        exact .inr ⟨.popping, set_only_loop hloops .popping, modifyHead_complete_iff hcomplete,
          by rintro t ⟨⟩⟩
  | pop i n popped hat hpop =>
      obtain ⟨top, rest, hentries, hperm, -⟩ := VectorHeap.pop_spec hpop
      have hsub : ∀ entry ∈ popped.entries, entry ∈ s.queue.entries := by
        intro entry hmem
        rw [hentries]
        exact List.mem_cons_of_mem _ (hperm.mem_iff.mp hmem)
      have hnext := h.goTo .checking hat rfl (by rintro t ⟨⟩)
      refine ⟨h.initNumber, h.posted, h.first, hnext.started, ?_⟩
      rcases h.left with hgone | ⟨place, hloops, hcomplete, -⟩
      · refine .inl fun hmem => hgone ?_
        obtain ⟨entry, hentry, hnumber⟩ := List.mem_map.mp hmem
        exact List.mem_map.mpr ⟨entry, hsub entry hentry, hnumber⟩
      · obtain ⟨rfl, -⟩ := only_loop hloops hat
        exact .inr ⟨.checking, set_only_loop hloops .checking,
          fun entry hmem => hcomplete entry (hsub entry hmem), by rintro t ⟨⟩⟩

/-- How far a runner has come with the task that it was made with. -/
def InitPhase (creation : Creation φ) (s : NamedRunner φ) : Prop :=
  Preparing creation s ∨ (∃ number, Due creation number s) ∨ ∃ number, Ran creation number s

theorem Ran.invoked_ne_nil (h : Ran creation number s) : s.invoked ≠ [] := by
  obtain ⟨rest, hinvoked, -⟩ := h.first
  rw [hinvoked]
  exact List.cons_ne_nil _ _

theorem InitPhase.step (h : InitPhase creation s) (hcreated : s.created = true)
    (hinit : s.initTask = some creation) (hinvocable : creation.Invocable)
    (hnumbered : QueueNumbered s) (hcond : s.KeepsInitFirst e) (hstep : s.step e = some next) :
    InitPhase creation next ∧ (next.invoked = [] → s.invoked = [] ∧
      next.toCall + [e].countP RunnerEvent.isFirstLoop ≤ s.toCall) := by
  rcases h with h | ⟨number, h⟩ | ⟨number, h⟩
  · obtain ⟨hnext, hcount⟩ := h.step hcreated hinit hcond hstep
    exact ⟨hnext.imp_right fun hdue => .inl ⟨_, hdue⟩, fun _ => ⟨h.invoked, hcount⟩⟩
  · rcases h.step hcreated hinit hinvocable hnumbered hcond hstep with ⟨hnext, hcount⟩ | hnext
    · exact ⟨.inr (.inl ⟨number, hnext⟩), hcount⟩
    · exact ⟨.inr (.inr ⟨number, hnext⟩), fun hnone => absurd hnone hnext.invoked_ne_nil⟩
  · have hnext := h.step hcreated hinit hcond hstep
    exact ⟨.inr (.inr ⟨number, hnext⟩), fun hnone => absurd hnone hnext.invoked_ne_nil⟩

/-- Nothing has happened under a name that is not there. -/
structure Unmade (s : NamedRunner φ) : Prop where
  loops : s.loops = []
  invoked : s.invoked = []
  initTask : s.initTask = none
  initNumber : s.initNumber = none
  defined : s.undefined = none

structure InitInv (s : NamedRunner φ) : Prop where
  accepted : s.undefined ≠ some .nullTask
  nonnull : ∀ memory, .initializing none memory ∉ s.loops
  numbered : QueueNumbered s
  unmade : s.created = false → Unmade s
  phase : ∀ creation, s.initTask = some creation → creation.Invocable ∧ InitPhase creation s

/-- Under a name that is not there, a call makes the runner or nothing happens. -/
theorem Unmade.step (h : Unmade s) (hnew : s.created = false) (hstep : s.step e = some next) :
    (∃ initTask memory, e = .initializeOnCurrentThread initTask memory ∧ next = { s with
        created := true, loops := [.initializing initTask memory], initTask := initTask }) ∨
      (∃ initTask, e = .createRunnerOnNewThread initTask ∧ next = { s with
        created := true, loops := [.testing], initTask := initTask }) ∨
      (e.isFirstLoop = false ∧ ∃ toSignal, next = { s with toSignal := toSignal }) := by
  have hnone : ∀ (i : Nat) (place : LoopAt φ), s.loops[i]? ≠ some place := by
    intro i place hat
    rw [h.loops] at hat
    cases hat
  cases step_runnerStepped hstep with
  | takeOver initTask memory =>
      refine .inl ⟨initTask, memory, rfl, ?_⟩
      rw [h.loops, hnew]
      rfl
  | create initTask =>
      refine .inr (.inl ⟨initTask, rfl, ?_⟩)
      rw [h.loops]
      rfl
  | exists_ _ hcreated | post _ _ hcreated =>
      rw [hnew] at hcreated
      cases hcreated
  | throw_ | signalNone => exact .inr (.inr ⟨rfl, _, rfl⟩)
  | postInitTask _ _ _ hat | readNull _ _ hat | signal _ _ hat | check _ hat | enterWait _ hat
  | leaveWait _ hat | noPop _ _ hat | pop _ _ _ hat | wakeUnasked _ hat | test _ hat
  | take _ hat | ask _ _ _ hat | invoke _ _ _ hat | complete _ _ _ hat | lose _ _ _ hat
  | noTop _ hat => exact absurd hat (hnone _ _)

/-- A runner that is there keeps the init task it was made with. -/
theorem created_step (hcreated : s.created = true) (hstep : s.step e = some next) :
    next.created = true ∧ next.initTask = s.initTask := by
  cases step_runnerStepped hstep with
  | takeOver => exact ⟨rfl, if_pos hcreated⟩
  | create _ hnew =>
      rw [hcreated] at hnew
      cases hnew
  | _ => exact ⟨hcreated, rfl⟩

theorem nonnull_step (h : InitInv s) (hcond : s.KeepsInitFirst e) (hstep : s.step e = some next)
    (memory : Int) : .initializing none memory ∉ next.loops := by
  have hset : ∀ {i : Nat} {new : LoopAt φ}, new.isInitializing = false →
      .initializing none memory ∉ s.loops.set i new := by
    intro i new hnew hmem
    rcases List.mem_or_eq_of_mem_set hmem with hold | rfl
    · exact h.nonnull memory hold
    · cases hnew
  cases step_runnerStepped hstep with
  | takeOver initTask memory' =>
      intro hmem
      rcases List.mem_append.mp hmem with hold | hnew
      · exact h.nonnull memory hold
      · cases List.mem_singleton.mp hnew
        cases hcond.1
  | create =>
      intro hmem
      rcases List.mem_append.mp hmem with hold | hnew
      · exact h.nonnull memory hold
      · cases List.mem_singleton.mp hnew
  | exists_ | throw_ | post | signalNone | readNull | noTop | lose | noPop => exact h.nonnull memory
  | test | check | ask =>
      apply hset
      split <;> rfl
  | _ => exact hset rfl

theorem accepted_step (h : InitInv s) (hstep : s.step e = some next) :
    next.undefined ≠ some .nullTask := by
  cases step_runnerStepped hstep with
  | readNull i memory hat => exact absurd (List.mem_of_getElem? hat) (h.nonnull memory)
  | noTop | lose | noPop => rintro ⟨⟩
  | _ => exact h.accepted

/-- The runner is not there, or its init task has not been run. -/
def AwaitsInit (s : NamedRunner φ) : Prop :=
  s.invoked = [] ∧ (s.created = false ∨ s.initTask.isSome)

theorem InitInv.step (h : InitInv s) (hcond : s.KeepsInitFirst e) (hstep : s.step e = some next) :
    InitInv next ∧ (AwaitsInit next → AwaitsInit s ∧
      next.toCall + [e].countP RunnerEvent.isFirstLoop ≤ s.toCall) := by
  have haccepted := accepted_step h hstep
  have hnonnull := nonnull_step h hcond hstep
  have hnumbered := h.numbered.step hstep
  cases hcreated : s.created with
  | true =>
      obtain ⟨hnext, hinit⟩ := created_step hcreated hstep
      have hmade : next.created = false → Unmade next := by
        intro hnew
        rw [hnext] at hnew
        cases hnew
      refine ⟨⟨haccepted, hnonnull, hnumbered, hmade, ?_⟩, ?_⟩
      · intro creation hcreation
        rw [hinit] at hcreation
        obtain ⟨hinvocable, hphase⟩ := h.phase creation hcreation
        exact ⟨hinvocable,
          (hphase.step hcreated hcreation hinvocable h.numbered hcond hstep).1⟩
      · rintro ⟨hinvoked, hsome⟩
        rw [hnext, hinit] at hsome
        obtain ⟨creation, hcreation⟩ := Option.isSome_iff_exists.mp (hsome.resolve_left (by simp))
        obtain ⟨hinvocable, hphase⟩ := h.phase creation hcreation
        obtain ⟨hnone, hcount⟩ :=
          (hphase.step hcreated hcreation hinvocable h.numbered hcond hstep).2 hinvoked
        exact ⟨⟨hnone, .inr (by rw [hcreation]; rfl)⟩, hcount⟩
  | false =>
      have hunmade := h.unmade hcreated
      have htoCall : s.toCall = 5 := by
        rw [NamedRunner.toCall, hunmade.loops]
        rfl
      rcases hunmade.step hcreated hstep with
        ⟨initTask, memory, rfl, rfl⟩ | ⟨initTask, rfl, rfl⟩ | ⟨hquiet, toSignal, rfl⟩
      · refine ⟨⟨haccepted, hnonnull, hnumbered, by rintro ⟨⟩, ?_⟩, ?_⟩
        · rintro creation rfl
          exact ⟨hcond.2.1 hcreated creation rfl,
            .inl ⟨⟨memory, rfl⟩, hunmade.invoked, hunmade.initNumber, hunmade.defined⟩⟩
        · intro _
          rw [htoCall]
          exact ⟨⟨hunmade.invoked, .inl hcreated⟩, le_refl 5⟩
      · obtain rfl := hcond hcreated
        refine ⟨⟨haccepted, hnonnull, hnumbered, by rintro ⟨⟩, by rintro creation ⟨⟩⟩, ?_⟩
        rintro ⟨-, hnew | hsome⟩
        · cases hnew
        · cases hsome
      · refine ⟨⟨haccepted, hnonnull, hnumbered, fun _ => ⟨hunmade.loops, hunmade.invoked,
          hunmade.initTask, hunmade.initNumber, hunmade.defined⟩, ?_⟩, ?_⟩
        · intro creation hcreation
          rw [hunmade.initTask] at hcreation
          cases hcreation
        · intro _
          refine ⟨⟨hunmade.invoked, .inl hcreated⟩, ?_⟩
          rw [List.countP_singleton, hquiet]
          exact le_refl _

/-- A loop in front of the call can go on. -/
theorem Due.goes_on (h : Due creation number s) (hinvoked : s.invoked = []) :
    1 ≤ s.toCall ∧ (s.step (.run 0)).isSome := by
  obtain ⟨place, hloops, hhere⟩ := h.loop
  have hstep : s.step (.run 0) = s.startTaskRunner 0 place := by
    simp [NamedRunner.step, h.defined, hloops]
  rw [toCall_only hloops, hstep]
  rcases hhere with ⟨hbefore, -⟩ | ⟨-, hcalled⟩
  · cases place with
    | testing => exact ⟨Nat.le_of_ble_eq_true rfl, rfl⟩
    | taking | asking t | invoking t =>
        refine ⟨Nat.le_of_ble_eq_true rfl, ?_⟩
        simp only [NamedRunner.startTaskRunner]
        split <;> rfl
    | _ => exact hbefore.elim
  · rw [hinvoked] at hcalled
    cases hcalled

end GitRpc.TaskManager
