import GitRpc.TaskManager.Handover

/-!
`ExecuteRegularTask`, for a runner that has a queue of its own: it invokes the
task in the top slot of the queue where it is, which marks the task through
the same pointer, and pops the top. A task may post others to the same queue
while it runs, and a post may put another task into the top slot, or move them
all to another buffer.

Nobody else posts once the runner has started, so that it stops at the
condition variable when the queue is empty, and there are no two threads to
keep apart. `undefined` is set as in the thread pool.
-/

namespace GitRpc.TaskManager

open Dispatcher Library.Runs Library.Histories Library.TopSlot

variable {φ : Type*}

/-- A task, and the tasks that its function posts, in order. -/
inductive TaskTree (φ : Type*) where
  | node (creation : Creation φ) (posts : List (TaskTree φ))

namespace TaskTree

def creation : TaskTree φ → Creation φ
  | .node creation _ => creation

def posts : TaskTree φ → List (TaskTree φ)
  | .node _ posts => posts

end TaskTree

mutual

/-- The number of tasks. -/
def TaskTree.count : TaskTree φ → Nat
  | .node _ posts => 1 + countTasks posts

def countTasks : List (TaskTree φ) → Nat
  | [] => 0
  | tree :: rest => tree.count + countTasks rest

end

theorem countTasks_nil : countTasks ([] : List (TaskTree φ)) = 0 := by
  rw [countTasks]

structure QueuedTask (φ : Type*) extends Entry φ where
  posts : List (TaskTree φ)

def QueuedTask.comesAfter (x y : QueuedTask φ) : Prop := x.toEntry.comesAfter y.toEntry

instance (x y : QueuedTask φ) : Decidable (x.comesAfter y) :=
  inferInstanceAs (Decidable (x.toEntry.comesAfter y.toEntry))

/-- The last line of `Invoke`. -/
def QueuedTask.complete (x : QueuedTask φ) : QueuedTask φ :=
  { x with task := { x.task with isComplete := true } }

/-- The task that `PostTask` copies into the queue, made in memory that holds
`memory` where its priority will be. -/
def TaskTree.queued (tree : TaskTree φ) (number : Nat) (memory : Int) : QueuedTask φ :=
  ⟨⟨number, tree.creation.create memory⟩, tree.posts⟩

/-- Where the runner's thread is: it posts what is there before it starts, it
is at the top of the loop, in the call that `Invoke` makes through the pointer
`t`, or in front of `pop`. `left` are the tasks still to be posted. -/
inductive RegularAt (φ : Type*) where
  | starting (left : List (TaskTree φ))
  | testing
  | invoking (t : Nat) (left : List (TaskTree φ))
  | popping

/-- `posted` and `invoked` keep the history. -/
structure RegularRunner (φ : Type*) where
  queue : VectorHeap (QueuedTask φ)
  program : RegularAt φ
  posted : List (Creation φ)
  invoked : List (Nat × Option (Call φ))
  undefined : Bool

/-- A runner whose vector has this capacity from earlier tasks, and the tasks
it will be started with. -/
def RegularRunner.start (capacity : Nat) (roots : List (TaskTree φ)) : RegularRunner φ :=
  ⟨⟨0, capacity, []⟩, .starting roots, [], [], false⟩

/-- `next` says which task comes to the top. -/
inductive RegularEvent where
  | post (memory : Int)
  | proceed
  | pop (next : Nat)

namespace RegularRunner

def postTask (s : RegularRunner φ) (tree : TaskTree φ) (memory : Int)
    (program : RegularAt φ) : RegularRunner φ :=
  { s with
    queue := s.queue.push QueuedTask.comesAfter (tree.queued s.posted.length memory)
    program := program
    posted := s.posted ++ [tree.creation] }

/-- `ExecuteRegularTask` up to the call, and from its return to `pop`. -/
def executeRegularTask (s : RegularRunner φ) : Option (RegularRunner φ) :=
  match s.program with
  | .starting [] => some { s with program := .testing }
  | .testing =>
      match s.queue.entries with
      | [] => none
      | top :: _ =>
          if !top.task.isComplete then
            some { s with
              program := .invoking s.queue.buffer top.posts
              invoked := s.invoked ++ [(top.number, top.task.invoke.1)] }
          else some { s with program := .popping }
  | .invoking t [] =>
      match s.queue.deref t with
      | none => some { s with undefined := true }
      | some _ => some { s with queue := s.queue.setTop QueuedTask.complete, program := .popping }
  | .starting (_ :: _) | .invoking _ (_ :: _) | .popping => none

def step (s : RegularRunner φ) (e : RegularEvent) : Option (RegularRunner φ) :=
  if s.undefined then none
  else match e with
    | .post memory =>
        match s.program with
        | .starting (tree :: left) => some (s.postTask tree memory (.starting left))
        | .invoking t (tree :: left) => some (s.postTask tree memory (.invoking t left))
        | _ => none
    | .proceed => s.executeRegularTask
    | .pop next =>
        match s.program with
        | .popping => (s.queue.pop QueuedTask.comesAfter next).map fun queue =>
            { s with queue := queue, program := .testing }
        | _ => none

/-- The queue is empty when the loop looks at it. -/
def Stops (s : RegularRunner φ) : Prop := s.program = .testing ∧ s.queue.entries = []

/-- The tasks in the queue whose turn is still to come. -/
def waiting (s : RegularRunner φ) : List (QueuedTask φ) :=
  match s.program with
  | .starting _ | .testing => s.queue.entries
  | .invoking _ _ | .popping => s.queue.entries.tail

end RegularRunner

/-- What has been posted has been invoked or is in the queue, nothing has been
invoked twice or with another's call. A task that is neither will never be
invoked. -/
structure RunsEachOnce (s : RegularRunner φ) : Prop where
  defined : s.undefined = false
  own : ∀ invocation ∈ s.invoked, Posted s.posted invocation.1 invocation.2
  once : (s.invoked.map Prod.fst).Nodup
  kept : ∀ number < s.posted.length,
    number ∈ s.invoked.map Prod.fst ∨ number ∈ s.queue.entries.map fun task => task.number

/-- All is well on the way, and the run is over soon: until the queue is empty
it can go on, and then all tasks of all trees have been invoked once. -/
structure RunsWell (capacity : Nat) (roots : List (TaskTree φ)) (es : List RegularEvent) :
    Prop where
  sound : Always RegularRunner.step (fun _ _ next => RunsEachOnce next) (.start capacity roots) es
  ends : ∀ s, exec RegularRunner.step (.start capacity roots) es = some s →
    es.length ≤ 4 * countTasks roots + 1 ∧ ((∃ e next, s.step e = some next) ∨
      s.Stops ∧ (s.invoked.map Prod.fst).Perm (List.range (countTasks roots)))

/-- A task that posts another finds room for it in the buffer, and comes
before it or has the same priority; and a function that takes an argument is
not given a null one. -/
def PostsLater (s : RegularRunner φ) : RegularEvent → Prop
  | .post memory => ∀ t tree left, s.program = .invoking t (tree :: left) →
      s.queue.entries.length < s.queue.capacity ∧
        s.queue.Keeps QueuedTask.comesAfter (tree.queued s.posted.length memory)
  | .proceed => s.program = .testing → ∀ top ∈ s.queue.entries.head?,
      ∀ creation ∈ s.posted[top.number]?, creation.Invocable
  | .pop _ => True

/-- Everything a step can be. -/
inductive RegularStepped (s : RegularRunner φ) : RegularEvent → RegularRunner φ → Prop where
  | prepare (memory : Int) (tree : TaskTree φ) (left : List (TaskTree φ))
      (hat : s.program = .starting (tree :: left)) :
      RegularStepped s (.post memory) (s.postTask tree memory (.starting left))
  | post (memory : Int) (t : Nat) (tree : TaskTree φ) (left : List (TaskTree φ))
      (hat : s.program = .invoking t (tree :: left)) :
      RegularStepped s (.post memory) (s.postTask tree memory (.invoking t left))
  | begin (hat : s.program = .starting []) :
      RegularStepped s .proceed { s with program := .testing }
  | invoke (top : QueuedTask φ) (rest : List (QueuedTask φ)) (hat : s.program = .testing)
      (hentries : s.queue.entries = top :: rest) (hfresh : top.task.isComplete = false) :
      RegularStepped s .proceed { s with
        program := .invoking s.queue.buffer top.posts
        invoked := s.invoked ++ [(top.number, top.task.invoke.1)] }
  | skip (top : QueuedTask φ) (rest : List (QueuedTask φ)) (hat : s.program = .testing)
      (hentries : s.queue.entries = top :: rest) (hcomplete : top.task.isComplete = true) :
      RegularStepped s .proceed { s with program := .popping }
  | lose (t : Nat) (hat : s.program = .invoking t []) (hnone : s.queue.deref t = none) :
      RegularStepped s .proceed { s with undefined := true }
  | complete (t : Nat) (top : QueuedTask φ) (hat : s.program = .invoking t [])
      (htop : s.queue.deref t = some top) :
      RegularStepped s .proceed
        { s with queue := s.queue.setTop QueuedTask.complete, program := .popping }
  | pop (next : Nat) (popped : VectorHeap (QueuedTask φ)) (hat : s.program = .popping)
      (hpop : s.queue.pop QueuedTask.comesAfter next = some popped) :
      RegularStepped s (.pop next) { s with queue := popped, program := .testing }

variable {s next : RegularRunner φ} {e : RegularEvent}

theorem step_regularStepped (hstep : s.step e = some next) : RegularStepped s e next := by
  unfold RegularRunner.step at hstep
  split at hstep
  · cases hstep
  cases e with
  | post memory =>
      dsimp only at hstep
      split at hstep
      · rename_i tree left hat
        cases hstep
        exact .prepare memory tree left hat
      · rename_i t tree left hat
        cases hstep
        exact .post memory t tree left hat
      · cases hstep
  | proceed =>
      dsimp only [RegularRunner.executeRegularTask] at hstep
      split at hstep
      · rename_i hat
        cases hstep
        exact .begin hat
      · rename_i hat
        split at hstep
        · cases hstep
        · rename_i top rest hentries
          cases hcomplete : top.task.isComplete with
          | false =>
              simp only [hcomplete, Bool.not_false, if_true, Option.some.injEq] at hstep
              rw [← hstep]
              exact .invoke top rest hat hentries hcomplete
          | true =>
              simp only [hcomplete, Bool.not_true, Bool.false_eq_true, if_false,
                Option.some.injEq] at hstep
              rw [← hstep]
              exact .skip top rest hat hentries hcomplete
      · rename_i t hat
        split at hstep
        · rename_i hnone
          cases hstep
          exact .lose t hat hnone
        · rename_i top htop
          cases hstep
          exact .complete t top hat htop
      · cases hstep
      · cases hstep
      · cases hstep
  | pop next =>
      dsimp only at hstep
      split at hstep
      · rename_i hat
        obtain ⟨popped, hpop, rfl⟩ := Option.map_eq_some_iff.mp hstep
        exact .pop next popped hat hpop
      · cases hstep

def RegularAt.left : RegularAt φ → List (TaskTree φ)
  | .starting left | .invoking _ left => left
  | .testing | .popping => []

/-- The steps that are left for what the thread is doing. -/
def RegularAt.steps : RegularAt φ → Nat
  | .testing => 0
  | .starting _ | .popping => 1
  | .invoking _ _ => 2

namespace RegularRunner

/-- The number of posts to come. -/
def toPost (s : RegularRunner φ) : Nat :=
  countTasks s.program.left + (s.waiting.map fun task => countTasks task.posts).sum

/-- A post, a call, its end and a pop for each task. -/
def stepsLeft (s : RegularRunner φ) : Nat :=
  4 * s.toPost + 3 * s.waiting.length + s.program.steps

/-- The task in the top slot is the one that has been invoked last. -/
def TopHasRun (s : RegularRunner φ) : Prop :=
  ∃ top rest, s.queue.entries = top :: rest ∧ top.number ∈ s.invoked.map Prod.fst

/-- The pointer finds the task it was taken from. -/
def PointsToTop (s : RegularRunner φ) : Prop :=
  match s.program with
  | .starting _ | .testing => True
  | .invoking t _ => t = s.queue.buffer ∧ s.TopHasRun
  | .popping => s.TopHasRun

end RegularRunner

/-- `total` counts the tasks of all trees. -/
structure RegularInv (total : Nat) (s : RegularRunner φ) : Prop where
  defined : s.undefined = false
  top : s.PointsToTop
  once : (s.invoked.map Prod.fst ++ s.waiting.map fun task => task.number).Perm
    (List.range s.posted.length)
  own : ∀ invocation ∈ s.invoked, Posted s.posted invocation.1 invocation.2
  waits : ∀ task ∈ s.waiting, ∃ creation memory,
    s.posted[task.number]? = some creation ∧ task.task = creation.create memory
  work : s.posted.length + s.toPost = total

variable {total : Nat}

theorem TaskTree.count_eq (tree : TaskTree φ) : tree.count = 1 + countTasks tree.posts := by
  cases tree with
  | node creation posts => rw [TaskTree.count, TaskTree.posts]

theorem regularInv_start (capacity : Nat) (roots : List (TaskTree φ)) :
    RegularInv (countTasks roots) (.start capacity roots) := by
  refine ⟨rfl, trivial, .refl _, ?_, ?_, ?_⟩
  · intro invocation hmem
    cases hmem
  · intro task hmem
    cases hmem
  · simp [RegularRunner.start, RegularRunner.toPost, RegularRunner.waiting, RegularAt.left]

theorem waiting_subset (s : RegularRunner φ) : s.waiting ⊆ s.queue.entries := by
  unfold RegularRunner.waiting
  cases s.program with
  | starting | testing => exact List.Subset.refl _
  | invoking | popping => exact List.tail_subset _

theorem RegularInv.sound (h : RegularInv total s) : RunsEachOnce s where
  defined := h.defined
  own := h.own
  once := (List.nodup_append.mp (h.once.nodup_iff.mpr List.nodup_range)).1
  kept := by
    intro number hlt
    rcases List.mem_append.mp (h.once.mem_iff.mpr (List.mem_range.mpr hlt)) with hran | hwaits
    · exact .inl hran
    · exact .inr (List.map_subset _ (waiting_subset s) hwaits)

/-- A task is posted, and what was on top stays there if it is running. -/
theorem RegularInv.push (h : RegularInv total s) {tree : TaskTree φ} {memory : Int}
    {program : RegularAt φ} (hleft : s.program.left = tree :: program.left)
    (hsteps : program.steps = s.program.steps)
    (htop : (s.postTask tree memory program).PointsToTop)
    (hwaiting : (s.postTask tree memory program).waiting.Perm
      (tree.queued s.posted.length memory :: s.waiting)) :
    RegularInv total (s.postTask tree memory program) ∧
      (s.postTask tree memory program).stepsLeft + 1 = s.stepsLeft := by
  have hposted : (s.postTask tree memory program).posted.length = s.posted.length + 1 := by
    simp [RegularRunner.postTask]
  have htoPost : (s.postTask tree memory program).toPost + 1 = s.toPost := by
    have hsum := (hwaiting.map fun task => countTasks task.posts).sum_eq
    have hnew : (s.postTask tree memory program).toPost = countTasks program.left +
        (countTasks tree.posts + (s.waiting.map fun task => countTasks task.posts).sum) := by
      rw [RegularRunner.toPost, hsum]
      rfl
    rw [hnew, RegularRunner.toPost, hleft, countTasks, tree.count_eq]
    omega
  have hlength := hwaiting.length_eq
  refine ⟨⟨h.defined, htop, ?_, ?_, ?_, ?_⟩, ?_⟩
  · rw [hposted, List.range_succ]
    have hnumbers := (hwaiting.map fun task => task.number).append_left (s.invoked.map Prod.fst)
    apply hnumbers.trans
    apply List.perm_middle.trans
    exact (h.once.cons _).trans (List.perm_append_singleton _ _).symm
  · intro invocation hmem
    exact (h.own invocation hmem).append tree.creation
  · intro task hmem
    rcases List.mem_cons.mp (hwaiting.mem_iff.mp hmem) with rfl | hold
    · exact ⟨tree.creation, memory, List.getElem?_concat_length, rfl⟩
    · obtain ⟨creation, memory, hcreation, htask⟩ := h.waits task hold
      exact ⟨creation, memory, getElem?_append_some hcreation _, htask⟩
  · have hwork := h.work
    omega
  · have hprogram : (s.postTask tree memory program).program.steps = s.program.steps := hsteps
    simp only [RegularRunner.stepsLeft, hprogram, hlength, List.length_cons]
    omega

theorem waiting_testing (hat : s.program = .testing) : s.waiting = s.queue.entries := by
  rw [RegularRunner.waiting, hat]

/-- What the loop finds on top is as it was posted. -/
theorem RegularInv.top_posted (h : RegularInv total s) (hat : s.program = .testing)
    {top : QueuedTask φ} {rest : List (QueuedTask φ)} (hentries : s.queue.entries = top :: rest) :
    ∃ creation memory,
      s.posted[top.number]? = some creation ∧ top.task = creation.create memory := by
  apply h.waits top
  rw [waiting_testing hat, hentries]
  exact List.mem_cons_self

/-- So it has not been completed. -/
theorem RegularInv.top_fresh (h : RegularInv total s) (hat : s.program = .testing)
    {top : QueuedTask φ} {rest : List (QueuedTask φ)} (hentries : s.queue.entries = top :: rest) :
    top.task.isComplete = false := by
  obtain ⟨creation, memory, -, htask⟩ := h.top_posted hat hentries
  rw [htask]
  exact creation.create_isComplete memory

/-- The next steps of a task, from its call on. -/
theorem RegularInv.invoke (h : RegularInv total s) (hat : s.program = .testing)
    {top : QueuedTask φ} {rest : List (QueuedTask φ)} (hentries : s.queue.entries = top :: rest)
    (hcond : PostsLater s .proceed) :
    RegularInv total { s with
        program := .invoking s.queue.buffer top.posts
        invoked := s.invoked ++ [(top.number, top.task.invoke.1)] } ∧
      RegularRunner.stepsLeft { s with
        program := .invoking s.queue.buffer top.posts
        invoked := s.invoked ++ [(top.number, top.task.invoke.1)] } + 1 = s.stepsLeft := by
  have hwaiting : s.waiting = top :: rest := (waiting_testing hat).trans hentries
  let invoking : RegularRunner φ := { s with
    program := .invoking s.queue.buffer top.posts
    invoked := s.invoked ++ [(top.number, top.task.invoke.1)] }
  have hrest : invoking.waiting = rest := by
    rw [RegularRunner.waiting, hentries]
    rfl
  have htoPost : invoking.toPost = s.toPost := by
    have hleft : countTasks s.program.left = 0 := by rw [hat, RegularAt.left, countTasks_nil]
    rw [RegularRunner.toPost, RegularRunner.toPost, hrest, hwaiting, hleft, List.map_cons,
      List.sum_cons, Nat.zero_add]
    rfl
  refine ⟨⟨h.defined, ?_, ?_, ?_, ?_, ?_⟩, ?_⟩
  · exact ⟨rfl, top, rest, hentries, by simp⟩
  · have hbefore := h.once
    rw [hwaiting] at hbefore
    rw [hrest]
    simpa using hbefore
  · intro invocation hmem
    rcases List.mem_append.mp hmem with hold | hnew
    · exact h.own invocation hold
    · cases List.mem_singleton.mp hnew
      obtain ⟨creation, memory, hcreation, htask⟩ := h.top_posted hat hentries
      have hinvocable := hcond hat top (by rw [hentries]; rfl) creation hcreation
      refine ⟨creation, hcreation, ?_⟩
      rw [htask]
      exact Creation.invoke_create hinvocable memory
  · intro task hmem
    rw [hrest] at hmem
    exact h.waits task (by rw [hwaiting]; exact List.mem_cons_of_mem _ hmem)
  · rw [htoPost]
    exact h.work
  · show invoking.stepsLeft + 1 = s.stepsLeft
    have hbefore : s.program.steps = 0 := by rw [hat, RegularAt.steps]
    have hafter : invoking.program.steps = 2 := rfl
    rw [RegularRunner.stepsLeft, RegularRunner.stepsLeft, htoPost, hrest, hwaiting, hbefore,
      hafter, List.length_cons]
    omega

/-- A step that posts nothing and invokes nothing. -/
theorem RegularInv.move (h : RegularInv total s) {queue : VectorHeap (QueuedTask φ)}
    {program : RegularAt φ} (hleft : program.left = s.program.left)
    (hsteps : program.steps + 1 = s.program.steps)
    (htop : RegularRunner.PointsToTop { s with queue := queue, program := program })
    (hwaiting : (RegularRunner.waiting { s with queue := queue, program := program }).Perm
      s.waiting) :
    RegularInv total { s with queue := queue, program := program } ∧
      RegularRunner.stepsLeft { s with queue := queue, program := program } + 1 =
        s.stepsLeft := by
  have htoPost : RegularRunner.toPost { s with queue := queue, program := program } =
      s.toPost := by
    rw [RegularRunner.toPost, RegularRunner.toPost,
      (hwaiting.map fun task => countTasks task.posts).sum_eq, ← hleft]
  refine ⟨⟨h.defined, htop, ?_, h.own, ?_, ?_⟩, ?_⟩
  · have hnumbers := (hwaiting.map fun task => task.number).append_left (s.invoked.map Prod.fst)
    exact hnumbers.trans h.once
  · intro task hmem
    exact h.waits task (hwaiting.mem_iff.mp hmem)
  · rw [htoPost]
    exact h.work
  · rw [RegularRunner.stepsLeft, RegularRunner.stepsLeft, htoPost, hwaiting.length_eq, ← hsteps]
    rfl

/-- One step under the condition keeps the invariant, and brings the end one
step nearer. -/
theorem RegularInv.step (h : RegularInv total s) (hcond : PostsLater s e)
    (hstep : s.step e = some next) :
    RegularInv total next ∧ next.stepsLeft + 1 = s.stepsLeft := by
  have htop := h.top
  cases step_regularStepped hstep with
  | prepare memory tree left hat =>
      apply h.push (by rw [hat]; rfl) (by rw [hat]; rfl)
      · exact trivial
      · rw [RegularRunner.waiting, RegularRunner.waiting, hat]
        exact s.queue.push_perm _
  | post memory t tree left hat =>
      rw [RegularRunner.PointsToTop, hat] at htop
      obtain ⟨ht, top, rest, hentries, hran⟩ := htop
      obtain ⟨hroom, hkeeps⟩ := hcond t tree left hat
      have hpush := hkeeps.push hentries
      apply h.push (by rw [hat]; rfl) (by rw [hat]; rfl)
      · exact ⟨ht.trans (VectorHeap.push_buffer hroom).symm, top, _, hpush, hran⟩
      · have hnow : (s.postTask tree memory (.invoking t left)).waiting =
            tree.queued s.posted.length memory :: rest := by
          rw [RegularRunner.waiting]
          exact congrArg List.tail hpush
        have hbefore : s.waiting = rest := by
          rw [RegularRunner.waiting, hat, hentries]
          rfl
        rw [hnow, hbefore]
  | begin hat =>
      apply h.move (by rw [hat]; rfl) (by rw [hat]; rfl)
      · exact trivial
      · rw [RegularRunner.waiting, RegularRunner.waiting, hat]
  | invoke top rest hat hentries hfresh => exact h.invoke hat hentries hcond
  | skip top rest hat hentries hcomplete =>
      rw [h.top_fresh hat hentries] at hcomplete
      cases hcomplete
  | lose t hat hnone =>
      rw [RegularRunner.PointsToTop, hat] at htop
      obtain ⟨rfl, top, rest, hentries, -⟩ := htop
      rw [VectorHeap.deref_top hentries] at hnone
      cases hnone
  | complete t top hat hderef =>
      rw [RegularRunner.PointsToTop, hat] at htop
      obtain ⟨rfl, top, rest, hentries, hran⟩ := htop
      have hmarked : (s.queue.setTop QueuedTask.complete).entries = top.complete :: rest := by
        rw [VectorHeap.setTop, hentries]
        rfl
      apply h.move (by rw [hat]; rfl) (by rw [hat]; rfl)
      · exact ⟨top.complete, rest, hmarked, hran⟩
      · rw [RegularRunner.waiting, RegularRunner.waiting, hat]
        dsimp only
        rw [hmarked, hentries, List.tail_cons, List.tail_cons]
  | pop next popped hat hpop =>
      obtain ⟨top, rest, hentries, hperm, -⟩ := VectorHeap.pop_spec hpop
      apply h.move (by rw [hat]; rfl) (by rw [hat]; rfl)
      · exact trivial
      · rw [RegularRunner.waiting, RegularRunner.waiting, hat]
        dsimp only
        rw [hentries]
        exact hperm

theorem exists_pop_task {queue : VectorHeap (QueuedTask φ)} (hentries : queue.entries ≠ []) :
    ∃ next popped, queue.pop QueuedTask.comesAfter next = some popped := by
  have hafter : ∀ x y : QueuedTask φ,
      x.comesAfter y ↔ y.task.taskPriority < x.task.taskPriority := by
    intro x y
    exact Iff.rfl
  exact VectorHeap.exists_pop (fun task => task.task.taskPriority) hafter hentries

/-- When the queue is empty everything has been posted and invoked. -/
theorem RegularInv.all_invoked (h : RegularInv total s) (hstops : s.Stops) :
    (s.invoked.map Prod.fst).Perm (List.range total) := by
  obtain ⟨hat, hentries⟩ := hstops
  have hwaiting : s.waiting = [] := (waiting_testing hat).trans hentries
  have hnothing : s.toPost = 0 := by
    rw [RegularRunner.toPost, hat, hwaiting, RegularAt.left, countTasks_nil]
    rfl
  have hwork := h.work
  rw [hnothing, Nat.add_zero] at hwork
  have honce := h.once
  rw [hwaiting, hwork] at honce
  simpa using honce

/-- The loop goes on until the queue is empty. -/
theorem RegularInv.goes_on (h : RegularInv total s) :
    (∃ e next, s.step e = some next) ∨
      s.Stops ∧ (s.invoked.map Prod.fst).Perm (List.range total) := by
  have htop := h.top
  have hstep : ∀ e, (s.step e).isSome → ∃ e next, s.step e = some next := by
    intro e hsome
    exact ⟨e, Option.isSome_iff_exists.mp hsome⟩
  have hproceed : s.step .proceed = s.executeRegularTask := by
    simp [RegularRunner.step, h.defined]
  rw [RegularRunner.PointsToTop] at htop
  cases hat : s.program with
  | starting left =>
      left
      cases left with
      | nil =>
          apply hstep .proceed
          rw [hproceed, RegularRunner.executeRegularTask, hat]
          rfl
      | cons tree left =>
          apply hstep (.post 0)
          simp [RegularRunner.step, h.defined, hat]
  | testing =>
      cases hentries : s.queue.entries with
      | nil => exact .inr ⟨⟨hat, hentries⟩, h.all_invoked ⟨hat, hentries⟩⟩
      | cons top rest =>
          left
          apply hstep .proceed
          rw [hproceed, RegularRunner.executeRegularTask, hat]
          simp only [hentries]
          split <;> rfl
  | invoking t left =>
      rw [hat] at htop
      obtain ⟨rfl, top, rest, hentries, -⟩ := htop
      left
      cases left with
      | nil =>
          apply hstep .proceed
          rw [hproceed, RegularRunner.executeRegularTask, hat]
          simp only [VectorHeap.deref_top hentries]
          rfl
      | cons tree left =>
          apply hstep (.post 0)
          simp [RegularRunner.step, h.defined, hat]
  | popping =>
      rw [hat] at htop
      obtain ⟨top, rest, hentries, -⟩ := htop
      obtain ⟨next, popped, hpop⟩ := exists_pop_task (hentries ▸ List.cons_ne_nil top rest)
      left
      apply hstep (.pop next)
      simp [RegularRunner.step, h.defined, hat, hpop]

/-- The numbers in the queue are of different posts. -/
structure Numbered (s : RegularRunner φ) : Prop where
  queued : (s.queue.entries.map fun task => task.number).Nodup
  invoked : ∀ number ∈ s.invoked.map Prod.fst, number < s.posted.length
  entries : ∀ task ∈ s.queue.entries, task.number < s.posted.length

theorem RegularInv.numbered (h : RegularInv total s) (hran : s.TopHasRun)
    (hwaiting : s.waiting = s.queue.entries.tail) : Numbered s := by
  obtain ⟨top, rest, hentries, hmem⟩ := hran
  have hnodup := List.nodup_append.mp (h.once.nodup_iff.mpr List.nodup_range)
  have honce := h.once
  rw [hwaiting, hentries, List.tail_cons] at hnodup honce
  have hinvoked : ∀ number ∈ s.invoked.map Prod.fst, number < s.posted.length := by
    intro number hnumber
    exact List.mem_range.mp (honce.mem_iff.mp (List.mem_append_left _ hnumber))
  refine ⟨?_, hinvoked, ?_⟩
  · rw [hentries, List.map_cons, List.nodup_cons]
    exact ⟨fun hrest => hnodup.2.2 _ hmem _ hrest rfl, hnodup.2.1⟩
  · intro task htask
    rw [hentries] at htask
    rcases List.mem_cons.mp htask with rfl | hrest
    · exact hinvoked _ hmem
    · exact List.mem_range.mp (honce.mem_iff.mp
        (List.mem_append_right _ (List.mem_map_of_mem hrest)))

theorem Numbered.push (h : Numbered s) (tree : TaskTree φ) (memory : Int)
    (program : RegularAt φ) : Numbered (s.postTask tree memory program) := by
  have hperm : (s.postTask tree memory program).queue.entries.Perm
      (tree.queued s.posted.length memory :: s.queue.entries) := s.queue.push_perm _
  have hposted : (s.postTask tree memory program).posted.length = s.posted.length + 1 := by
    simp [RegularRunner.postTask]
  refine ⟨?_, ?_, ?_⟩
  · apply ((hperm.map fun task => task.number).nodup_iff).mpr
    rw [List.map_cons, List.nodup_cons]
    refine ⟨?_, h.queued⟩
    intro hmem
    obtain ⟨task, htask, hnumber⟩ := List.mem_map.mp hmem
    have hlt := h.entries task htask
    rw [hnumber] at hlt
    exact lt_irrefl _ hlt
  · intro number hnumber
    rw [hposted]
    exact Nat.lt_succ_of_lt (h.invoked number hnumber)
  · intro task htask
    rw [hposted]
    rcases List.mem_cons.mp (hperm.mem_iff.mp htask) with rfl | hold
    · exact Nat.lt_succ_self _
    · exact Nat.lt_succ_of_lt (h.entries task hold)

/-- The pointer finds nothing, or a task that has not been invoked. -/
def Derailed (s : RegularRunner φ) (t : Nat) : Prop :=
  t < s.queue.buffer ∨ ∃ top ∈ s.queue.entries.head?, top.number ∉ s.invoked.map Prod.fst

theorem Numbered.not_mem (h : Numbered s) : s.posted.length ∉ s.invoked.map Prod.fst := by
  intro hmem
  exact lt_irrefl _ (h.invoked _ hmem)

theorem Derailed.push {t : Nat} (h : Derailed s t) (hnumbered : Numbered s) (tree : TaskTree φ)
    (memory : Int) (program : RegularAt φ) : Derailed (s.postTask tree memory program) t := by
  rcases h with hbuffer | ⟨top, htop, hnever⟩
  · exact .inl (hbuffer.trans_le (s.queue.buffer_le_push _))
  · have hhead : (s.postTask tree memory program).queue.entries.head? = s.queue.entries.head? ∨
        (s.postTask tree memory program).queue.entries.head? =
          some (tree.queued s.posted.length memory) := s.queue.push_head _
    rcases hhead with hsame | hnew
    · exact .inr ⟨top, hsame.trans htop, hnever⟩
    · exact .inr ⟨_, hnew, hnumbered.not_mem⟩

/-- A pop of a task that has not been invoked loses it. -/
theorem Numbered.lost (h : Numbered s) {top : QueuedTask φ} {rest : List (QueuedTask φ)}
    (hentries : s.queue.entries = top :: rest) (hnever : top.number ∉ s.invoked.map Prod.fst)
    {popped : VectorHeap (QueuedTask φ)} (hperm : popped.entries.Perm rest)
    (program : RegularAt φ) :
    ¬ RunsEachOnce { s with queue := popped, program := program } := by
  intro honce
  have hmem : top ∈ s.queue.entries := by
    rw [hentries]
    exact List.mem_cons_self
  rcases honce.kept top.number (h.entries top hmem) with hran | hqueued
  · exact hnever hran
  · have hnodup := h.queued
    rw [hentries, List.map_cons, List.nodup_cons] at hnodup
    exact hnodup.1 ((hperm.map fun task => task.number).mem_iff.mp hqueued)

/-- Once the pointer has gone astray, nothing that the task still posts brings
it back. -/
theorem Derailed.leads {t : Nat} {left : List (TaskTree φ)} (h : Derailed s t)
    (hnumbered : Numbered s) (hdefined : s.undefined = false)
    (hat : s.program = .invoking t left) :
    ∃ more, ¬ Always RegularRunner.step (fun _ _ next => RunsEachOnce next) s more := by
  induction left generalizing s with
  | nil =>
      have hproceed : s.step .proceed = s.executeRegularTask := by
        simp [RegularRunner.step, hdefined]
      rw [RegularRunner.executeRegularTask, hat] at hproceed
      cases hderef : s.queue.deref t with
      | none =>
          simp only [hderef] at hproceed
          refine ⟨[.proceed], ?_⟩
          intro hall
          have hbroken := (hall _ hproceed).1.defined
          cases hbroken
      | some found =>
          simp only [hderef] at hproceed
          unfold VectorHeap.deref at hderef
          split at hderef
          · rename_i hbuffer
            obtain ⟨top, htop, hnever⟩ := h.resolve_left (by rw [hbuffer]; exact lt_irrefl _)
            obtain ⟨rest, hentries⟩ := List.head?_eq_some_iff.mp htop
            have hmarked : (s.queue.setTop QueuedTask.complete).entries =
                top.complete :: rest := by
              rw [VectorHeap.setTop, hentries]
              rfl
            obtain ⟨next, popped, hpop⟩ :=
              exists_pop_task (hmarked ▸ List.cons_ne_nil top.complete rest)
            obtain ⟨top', rest', hentries', hperm, -⟩ := VectorHeap.pop_spec hpop
            obtain ⟨rfl, rfl⟩ := List.cons.inj (hmarked.symm.trans hentries')
            let marked : RegularRunner φ :=
              { s with queue := s.queue.setTop QueuedTask.complete, program := .popping }
            have hstep : marked.step (.pop next) =
                some { marked with queue := popped, program := .testing } := by
              simp [RegularRunner.step, marked, hdefined, hpop]
            refine ⟨[.proceed, .pop next], not_always_cons hproceed ?_⟩
            intro hall
            exact hnumbered.lost hentries hnever hperm .testing (hall _ hstep).1
          · cases hderef
  | cons tree left ih =>
      have hpost : s.step (.post 0) = some (s.postTask tree 0 (.invoking t left)) := by
        simp [RegularRunner.step, hdefined, hat]
      obtain ⟨more, hmore⟩ := ih (h.push hnumbered tree 0 (.invoking t left))
        (hnumbered.push tree 0 (.invoking t left)) hdefined rfl
      exact ⟨.post 0 :: more, not_always_cons hpost hmore⟩

/-- A task that is posted without room, or before the one that runs, leads the
pointer astray. -/
theorem derailed_post {memory : Int} {tree : TaskTree φ} {program : RegularAt φ}
    (hnumbered : Numbered s)
    (hnot : ¬ (s.queue.entries.length < s.queue.capacity ∧
      s.queue.Keeps QueuedTask.comesAfter (tree.queued s.posted.length memory))) :
    Derailed (s.postTask tree memory program) s.queue.buffer := by
  by_cases hroom : s.queue.entries.length < s.queue.capacity
  · have hbefore : ¬ s.queue.Keeps QueuedTask.comesAfter (tree.queued s.posted.length memory) := by
      intro hkeeps
      exact hnot ⟨hroom, hkeeps⟩
    exact .inr ⟨_, VectorHeap.push_head_of_not_keeps hbefore, hnumbered.not_mem⟩
  · left
    have hgrows : (s.postTask tree memory program).queue.buffer = s.queue.buffer + 1 :=
      VectorHeap.push_grows hroom
    omega

/-- A step that is the first not to meet the condition may be followed by a
lost task, or by a use of a dead pointer. -/
theorem not_postsLater (h : RegularInv total s) (hstep : s.step e = some next)
    (hnot : ¬ PostsLater s e) :
    ∃ more, ¬ Always RegularRunner.step (fun _ _ next => RunsEachOnce next) s (e :: more) := by
  have htop := h.top
  cases step_regularStepped hstep with
  | prepare memory tree left hat =>
      exfalso
      apply hnot
      intro t tree' left' hother
      rw [hat] at hother
      cases hother
  | post memory t tree left hat =>
      rw [RegularRunner.PointsToTop, hat] at htop
      obtain ⟨rfl, hran⟩ := htop
      have hnumbered : Numbered s := by
        apply h.numbered hran
        rw [RegularRunner.waiting, hat]
      have hderailed : Derailed (s.postTask tree memory (.invoking s.queue.buffer left))
          s.queue.buffer := by
        apply derailed_post hnumbered
        intro hlater
        apply hnot
        intro t tree' left' hother
        rw [hat] at hother
        cases hother
        exact hlater
      obtain ⟨more, hmore⟩ := hderailed.leads (hnumbered.push tree memory _) h.defined rfl
      exact ⟨more, not_always_cons hstep hmore⟩
  | invoke top rest hat hentries hfresh =>
      refine ⟨[], ?_⟩
      intro hall
      apply hnot
      intro _ other hother creation hcreation
      rw [hentries, List.head?_cons, Option.mem_some_iff] at hother
      subst hother
      obtain ⟨mine, memory, hmine, htask⟩ := h.top_posted hat hentries
      obtain rfl := Option.some.inj (hmine.symm.trans hcreation)
      obtain ⟨same, -, hcall⟩ := (hall _ hstep).1.own (top.number, top.task.invoke.1)
        (List.mem_append_right _ (List.mem_singleton_self _))
      by_contra hnull
      rw [htask, Creation.invoke_create_null hnull] at hcall
      cases hcall
  | skip top rest hat hentries hcomplete =>
      rw [h.top_fresh hat hentries] at hcomplete
      cases hcomplete
  | begin hat | lose _ hat | complete _ _ hat =>
      exfalso
      apply hnot
      intro htesting
      rw [hat] at htesting
      cases htesting
  | pop => exact absurd trivial hnot

/-- For every forest of tasks, every vector to begin with, whatever the
unset priorities are and however ties are broken: while every task that a
running task posts fits in behind it, all tasks are invoked once and the queue
is empty after as many steps as there are for them; and the first step of a
run that does not meet this may be followed by a lost task or a use of a dead
pointer. -/
theorem regular_tasks_run_once (capacity : Nat) (roots : List (TaskTree φ)) :
    (∀ es, StepsMeet RegularRunner.step PostsLater (.start capacity roots) es →
      RunsWell capacity roots es) ∧
    ∀ es e here next, StepsMeet RegularRunner.step PostsLater (.start capacity roots) es →
      exec RegularRunner.step (.start capacity roots) es = some here →
      here.step e = some next → ¬ PostsLater here e →
      ∃ more, ¬ Always RegularRunner.step (fun _ _ next => RunsEachOnce next)
        (.start capacity roots) (es ++ e :: more) := by
  have hstart := regularInv_start capacity roots
  constructor
  · intro es hmeet
    refine ⟨?_, ?_⟩
    · apply always_of_stepsMeet _ hstart hmeet
      intro s e next h hcond hstep
      have hnext := (h.step hcond hstep).1
      exact ⟨hnext, hnext.sound⟩
    · intro s hrun
      have hlength := exec_length_add (fun _ _ _ h hcond hstep => h.step hcond hstep) hstart
        hmeet hrun
      have hinv := exec_invariant_of_stepsMeet
        (fun _ _ _ h hcond hstep => (h.step hcond hstep).1) hstart hmeet hrun
      refine ⟨?_, hinv.goes_on⟩
      have hall : RegularRunner.stepsLeft (.start capacity roots) = 4 * countTasks roots + 1 :=
        rfl
      omega
  · intro es e here next hmeet hrun hstep hnot
    have hinv := exec_invariant_of_stepsMeet
      (fun _ _ _ h hcond hstep => (h.step hcond hstep).1) hstart hmeet hrun
    obtain ⟨more, hmore⟩ := not_postsLater hinv hstep hnot
    exact ⟨more, not_always_append hrun hmore⟩

/-- A task that posts one other, which has this priority. -/
def followedUp (priority : TaskPriority) : TaskTree String :=
  .node (.methodNothing "connect" 1 .LOW) [.node (.methodNothing "report" 1 priority) []]

/-- The task is run up to its end. -/
def firstTask : List RegularEvent := [.post 0, .proceed, .proceed, .post 0, .proceed]

theorem regular_tasks_run_once_later :
    RunsWell 2 [followedUp .LOW] (firstTask ++ [.pop 0, .proceed, .proceed, .pop 0]) := by
  apply (regular_tasks_run_once 2 [followedUp .LOW]).1
  apply stepsMeet_cons rfl (by rintro t tree left ⟨⟩)
  apply stepsMeet_cons rfl (by rintro ⟨⟩)
  apply stepsMeet_cons rfl (by rintro - top ⟨⟩ creation ⟨⟩; trivial)
  apply stepsMeet_cons rfl (by rintro t tree left ⟨⟩; decide)
  apply stepsMeet_cons rfl (by rintro ⟨⟩)
  apply stepsMeet_cons rfl trivial
  apply stepsMeet_cons rfl (by rintro - top ⟨⟩ creation ⟨⟩; trivial)
  apply stepsMeet_cons rfl (by rintro ⟨⟩)
  apply stepsMeet_cons rfl trivial
  trivial

/-- On a new runner the post moves the queue to a larger buffer, and `Invoke`
marks the task in the one that is gone; where there is room, a task of a
higher priority is marked and popped in place of the one that runs. -/
theorem followed_up_goes_wrong :
    ¬ RunsWell 0 [followedUp .LOW] firstTask ∧
      ¬ RunsWell 2 [followedUp .HIGH] (firstTask ++ [.pop 0]) := by
  constructor
  · intro h
    have hall := h.sound
    obtain ⟨-, hall⟩ := hall _ rfl
    obtain ⟨-, hall⟩ := hall _ rfl
    obtain ⟨-, hall⟩ := hall _ rfl
    obtain ⟨-, hall⟩ := hall _ rfl
    have hdefined := (hall _ rfl).1.defined
    cases hdefined
  · intro h
    have hall := h.sound
    obtain ⟨-, hall⟩ := hall _ rfl
    obtain ⟨-, hall⟩ := hall _ rfl
    obtain ⟨-, hall⟩ := hall _ rfl
    obtain ⟨-, hall⟩ := hall _ rfl
    obtain ⟨-, hall⟩ := hall _ rfl
    have hkept := (hall _ rfl).1.kept 1 (by decide)
    revert hkept
    decide

end GitRpc.TaskManager
