import GitRpc.Library.Runs

/-!
Tasks that post tasks. A pump holds its `queueGuard` while it runs the tasks
of its queue, and whoever posts to it needs the same mutex, which is not
recursive. Here are any number of started pumps with the threads that run
them, and any number of other threads; `Dispatcher::PostTask` and
`EventHub::TriggerEvent` lead from a task's code to a pump. What a pump's
thread posts outside the lock, its init task or out of a message filter, is a
post of another thread here, and the pipe is left out: a pump may wake up at
any time.
-/

namespace GitRpc.Dispatcher.NestedPosts

open Library.Runs

/-- What code does to pumps. `K` stands for pieces of code. -/
inductive Action (K : Type*) where
  | postTask (receiver : String) (task : K)
  | triggerEvent (name : String)

structure EventHandler (K : Type*) where
  runHandlerAsTask : Bool
  owningThread : String
  handler : K

/-- The maps of `Dispatcher` and of `EventHub`, what each piece of code does,
and the priority that a task made of it is left with. No event handler that
runs in place triggers its own event again, through others or by itself: such
a call would not return. -/
structure Program (P K : Type*) where
  namedDMPs : String → Option P
  namedThreads : String → Option P
  knownDMPs : String → Option P
  eventHandlers : String → Option (List (EventHandler K))
  body : K → List (Action K)
  taskPriority : K → Int
  handlersReturn : WellFounded fun inner outer : String =>
    ∃ handlers, eventHandlers outer = some handlers ∧
      ∃ eh ∈ handlers, eh.runHandlerAsTask = false ∧
        Action.triggerEvent inner ∈ body eh.handler

variable {P T K : Type*}

namespace Program

/-- The pump that `Dispatcher::PostTask` finds. -/
def pumpOf (prog : Program P K) (receiver : String) : Option P :=
  match prog.namedDMPs receiver with
  | some runner => some runner
  | none =>
      match prog.namedThreads receiver with
      | some ref => some ref
      | none => prog.knownDMPs receiver

/-- The loop over the handlers in `TriggerEvent`. `RunEventHandler`, in the
task, and the call in place both lead to the handler's code. -/
def handle (prog : Program P K) (name : String) : List (Action K) :=
  match prog.eventHandlers name with
  | none => []
  | some handlers => handlers.flatMap fun eh =>
      if eh.runHandlerAsTask then [.postTask eh.owningThread eh.handler]
      else prog.body eh.handler

/-- The action leads to a post of the task to the pump. -/
inductive Posts (prog : Program P K) : Action K → P → K → Prop where
  | task {receiver : String} {task : K} {q : P} (hpump : prog.pumpOf receiver = some q) :
      Posts prog (.postTask receiver task) q task
  | event {name : String} {action : Action K} {q : P} {task : K}
      (haction : action ∈ prog.handle name) (hposts : Posts prog action q task) :
      Posts prog (.triggerEvent name) q task

theorem posts_triggerEvent {prog : Program P K} {name : String} {q : P} {task : K} :
    prog.Posts (.triggerEvent name) q task ↔
      ∃ action ∈ prog.handle name, prog.Posts action q task := by
  constructor
  · intro hposts
    cases hposts with
    | event haction hposts => exact ⟨_, haction, hposts⟩
  · rintro ⟨action, haction, hposts⟩
    exact .event haction hposts

/-- Actions are posts or lead to finitely many others, and this has an end. -/
theorem action_induction (prog : Program P K) {motive : Action K → Prop}
    (postTask : ∀ receiver task, motive (.postTask receiver task))
    (triggerEvent : ∀ name, (∀ action ∈ prog.handle name, motive action) →
      motive (.triggerEvent name)) (action : Action K) : motive action := by
  have hevent : ∀ name, motive (.triggerEvent name) := by
    intro name
    induction name using prog.handlersReturn.induction with
    | _ name ih =>
        apply triggerEvent
        intro action haction
        cases action with
        | postTask receiver task => exact postTask receiver task
        | triggerEvent inner =>
            apply ih
            cases hhandlers : prog.eventHandlers name with
            | none => simp [handle, hhandlers] at haction
            | some handlers =>
                simp only [handle, hhandlers, List.mem_flatMap] at haction
                obtain ⟨eh, heh, hinner⟩ := haction
                cases hrun : eh.runHandlerAsTask with
                | true => simp [hrun] at hinner
                | false => exact ⟨handlers, rfl, eh, heh, hrun, by simpa [hrun] using hinner⟩
  cases action with
  | postTask receiver task => exact postTask receiver task
  | triggerEvent name => exact hevent name

end Program

inductive Thread (P T : Type*) where
  | pump (p : P)
  | poster (t : T)
  deriving DecidableEq

/-- Where a pump's thread is in `StartMessageLoop`. -/
inductive Loop where
  | waiting
  | locking
  | draining
  deriving DecidableEq

/-- Where a thread is in `PostMessageToThread`: not there, in front of the
pump's `queueGuard`, or behind it. -/
inductive Posting (P K : Type*) where
  | no
  | locking (q : P) (task : K)
  | pushing (q : P) (task : K)

/-- `todo` is what is left of the code that a thread runs. -/
structure State (P T K : Type*) where
  loop : P → Loop
  todo : Thread P T → List (Action K)
  posting : Thread P T → Posting P K
  queueGuard : P → Option (Thread P T)
  taskQueue : P → List K

/-- Nothing has run yet. `posters` is what the other threads are going to do. -/
def State.start (posters : T → List (Action K)) : State P T K where
  loop _ := .waiting
  todo
    | .pump _ => []
    | .poster t => posters t
  posting _ := .no
  queueGuard _ := none
  taskQueue _ := []

inductive Event (P T : Type*) where
  | wake (p : P)
  | lock (p : P)
  | pop (p : P) (place : Nat)
  | unlock (p : P)
  | act (thread : Thread P T)
  | lockToPost (thread : Thread P T)
  | push (thread : Thread P T)

section Steps

variable [DecidableEq P] [DecidableEq T]

open Function (update)

/-- `PostTask` and `TriggerEvent`, as far as they go without a lock. -/
def State.perform (prog : Program P K) (s : State P T K) (thread : Thread P T)
    (action : Action K) (rest : List (Action K)) : State P T K :=
  match action with
  | .postTask receiver task =>
      match prog.pumpOf receiver with
      | none => { s with todo := update s.todo thread rest }
      | some q => { s with
          todo := update s.todo thread rest
          posting := update s.posting thread (.locking q task) }
  | .triggerEvent name => { s with todo := update s.todo thread (prog.handle name ++ rest) }

def State.step (prog : Program P K) (s : State P T K) : Event P T → Option (State P T K)
  | .wake p =>
      match s.loop p with
      | .waiting => some { s with loop := update s.loop p .locking }
      | _ => none
  | .lock p =>
      match s.loop p, s.queueGuard p with
      | .locking, none => some { s with
          loop := update s.loop p .draining
          queueGuard := update s.queueGuard p (some (.pump p)) }
      | _, _ => none
  | .pop p place =>
      match s.loop p, s.todo (.pump p), s.posting (.pump p), (s.taskQueue p)[place]? with
      | .draining, [], .no, some task =>
          if ∀ other ∈ s.taskQueue p, prog.taskPriority task ≤ prog.taskPriority other then
            some { s with
              taskQueue := update s.taskQueue p ((s.taskQueue p).eraseIdx place)
              todo := update s.todo (.pump p) (prog.body task) }
          else none
      | _, _, _, _ => none
  | .unlock p =>
      match s.loop p, s.todo (.pump p), s.posting (.pump p), s.taskQueue p with
      | .draining, [], .no, [] => some { s with
          loop := update s.loop p .waiting
          queueGuard := update s.queueGuard p none }
      | _, _, _, _ => none
  | .act thread =>
      match s.posting thread, s.todo thread with
      | .no, action :: rest => some (s.perform prog thread action rest)
      | _, _ => none
  | .lockToPost thread =>
      match s.posting thread with
      | .locking q task =>
          match s.queueGuard q with
          | none => some { s with
              posting := update s.posting thread (.pushing q task)
              queueGuard := update s.queueGuard q (some thread) }
          | some _ => none
      | _ => none
  | .push thread =>
      match s.posting thread with
      | .pushing q task => some { s with
          posting := update s.posting thread .no
          queueGuard := update s.queueGuard q none
          taskQueue := update s.taskQueue q (s.taskQueue q ++ [task]) }
      | _ => none

/-- Everything a step can be. -/
inductive Stepped (prog : Program P K) (s : State P T K) : Event P T → State P T K → Prop where
  | wake (p : P) (hwaiting : s.loop p = .waiting) :
      Stepped prog s (.wake p) { s with loop := update s.loop p .locking }
  | lock (p : P) (hlocking : s.loop p = .locking) (hfree : s.queueGuard p = none) :
      Stepped prog s (.lock p) { s with
        loop := update s.loop p .draining
        queueGuard := update s.queueGuard p (some (.pump p)) }
  | pop (p : P) (place : Nat) (task : K) (hdraining : s.loop p = .draining)
      (htodo : s.todo (.pump p) = []) (hno : s.posting (.pump p) = .no)
      (htask : (s.taskQueue p)[place]? = some task)
      (hfirst : ∀ other ∈ s.taskQueue p, prog.taskPriority task ≤ prog.taskPriority other) :
      Stepped prog s (.pop p place) { s with
        taskQueue := update s.taskQueue p ((s.taskQueue p).eraseIdx place)
        todo := update s.todo (.pump p) (prog.body task) }
  | unlock (p : P) (hdraining : s.loop p = .draining) (htodo : s.todo (.pump p) = [])
      (hno : s.posting (.pump p) = .no) (hempty : s.taskQueue p = []) :
      Stepped prog s (.unlock p) { s with
        loop := update s.loop p .waiting
        queueGuard := update s.queueGuard p none }
  | drop (thread : Thread P T) (receiver : String) (task : K) (rest : List (Action K))
      (hno : s.posting thread = .no) (htodo : s.todo thread = .postTask receiver task :: rest)
      (hpump : prog.pumpOf receiver = none) :
      Stepped prog s (.act thread) { s with todo := update s.todo thread rest }
  | post (thread : Thread P T) (receiver : String) (task : K) (rest : List (Action K)) (q : P)
      (hno : s.posting thread = .no) (htodo : s.todo thread = .postTask receiver task :: rest)
      (hpump : prog.pumpOf receiver = some q) :
      Stepped prog s (.act thread) { s with
        todo := update s.todo thread rest
        posting := update s.posting thread (.locking q task) }
  | trigger (thread : Thread P T) (name : String) (rest : List (Action K))
      (hno : s.posting thread = .no) (htodo : s.todo thread = .triggerEvent name :: rest) :
      Stepped prog s (.act thread)
        { s with todo := update s.todo thread (prog.handle name ++ rest) }
  | lockToPost (thread : Thread P T) (q : P) (task : K)
      (hlocking : s.posting thread = .locking q task) (hfree : s.queueGuard q = none) :
      Stepped prog s (.lockToPost thread) { s with
        posting := update s.posting thread (.pushing q task)
        queueGuard := update s.queueGuard q (some thread) }
  | push (thread : Thread P T) (q : P) (task : K)
      (hpushing : s.posting thread = .pushing q task) :
      Stepped prog s (.push thread) { s with
        posting := update s.posting thread .no
        queueGuard := update s.queueGuard q none
        taskQueue := update s.taskQueue q (s.taskQueue q ++ [task]) }

theorem stepped {prog : Program P K} {s next : State P T K} {e : Event P T}
    (hstep : s.step prog e = some next) : Stepped prog s e next := by
  cases e with
  | wake p =>
      simp only [State.step] at hstep
      split at hstep
      · rename_i hwaiting
        cases hstep
        exact .wake p hwaiting
      · cases hstep
  | lock p =>
      simp only [State.step] at hstep
      split at hstep
      · rename_i hlocking hfree
        cases hstep
        exact .lock p hlocking hfree
      · cases hstep
  | pop p place =>
      simp only [State.step] at hstep
      split at hstep
      · rename_i task hdraining htodo hno htask
        split at hstep
        · rename_i hfirst
          cases hstep
          exact .pop p place task hdraining htodo hno htask hfirst
        · cases hstep
      · cases hstep
  | unlock p =>
      simp only [State.step] at hstep
      split at hstep
      · rename_i hdraining htodo hno hempty
        cases hstep
        exact .unlock p hdraining htodo hno hempty
      · cases hstep
  | act thread =>
      simp only [State.step] at hstep
      split at hstep
      · rename_i action rest hno htodo
        cases action with
        | postTask receiver task =>
            simp only [State.perform] at hstep
            split at hstep
            · rename_i hpump
              cases hstep
              exact .drop thread receiver task rest hno htodo hpump
            · rename_i q hpump
              cases hstep
              exact .post thread receiver task rest q hno htodo hpump
        | triggerEvent name =>
            cases hstep
            exact .trigger thread name rest hno htodo
      · cases hstep
  | lockToPost thread =>
      simp only [State.step] at hstep
      split at hstep
      · rename_i q task hlocking
        split at hstep
        · rename_i hfree
          cases hstep
          exact .lockToPost thread q task hlocking hfree
        · cases hstep
      · cases hstep
  | push thread =>
      simp only [State.step] at hstep
      split at hstep
      · rename_i q task hpushing
        cases hstep
        exact .push thread q task hpushing
      · cases hstep

end Steps

/-- A thread that holds a pump's `queueGuard` waits for it. -/
def State.SelfWait (s : State P T K) : Prop :=
  ∃ thread q task, s.queueGuard q = some thread ∧ s.posting thread = .locking q task

/-- The pump may be given the task, by another thread or by a task that a pump
may be given. -/
inductive Gets (prog : Program P K) (posters : T → List (Action K)) : P → K → Prop where
  | outside {t : T} {action : Action K} {q : P} {task : K} (haction : action ∈ posters t)
      (hposts : prog.Posts action q task) : Gets prog posters q task
  | inside {p : P} {running : K} {action : Action K} {q : P} {task : K}
      (hgets : Gets prog posters p running) (haction : action ∈ prog.body running)
      (hposts : prog.Posts action q task) : Gets prog posters q task

/-- What a thread may post. -/
def MayPost (prog : Program P K) (posters : T → List (Action K)) (thread : Thread P T) (q : P)
    (task : K) : Prop :=
  match thread with
  | .pump p => ∃ running, Gets prog posters p running ∧
      ∃ action ∈ prog.body running, prog.Posts action q task
  | .poster t => ∃ action ∈ posters t, prog.Posts action q task

/-- A task on pump `p` may post to pump `q`. -/
def PostsTo (prog : Program P K) (posters : T → List (Action K)) (p q : P) : Prop :=
  ∃ task, MayPost prog posters (.pump p) q task

theorem MayPost.gets {prog : Program P K} {posters : T → List (Action K)} {thread : Thread P T}
    {q : P} {task : K} (hmay : MayPost prog posters thread q task) : Gets prog posters q task := by
  cases thread with
  | pump p =>
      obtain ⟨running, hgets, action, haction, hposts⟩ := hmay
      exact .inside hgets haction hposts
  | poster t =>
      obtain ⟨action, haction, hposts⟩ := hmay
      exact .outside haction hposts

/-- Who holds what, and that nobody does anything but what he may do. -/
structure Inv (prog : Program P K) (posters : T → List (Action K)) (s : State P T K) : Prop where
  held : ∀ q thread, s.queueGuard q = some thread →
    (thread = .pump q ∧ s.loop q = .draining) ∨ ∃ task, s.posting thread = .pushing q task
  drains : ∀ p, s.loop p = .draining → s.queueGuard p = some (.pump p)
  pushes : ∀ thread q task, s.posting thread = .pushing q task →
    s.queueGuard q = some thread ∧ s.loop q ≠ .draining
  outside : ∀ p, s.loop p ≠ .draining → s.todo (.pump p) = [] ∧ s.posting (.pump p) = .no
  todo : ∀ thread, ∀ action ∈ s.todo thread, ∀ q task, prog.Posts action q task →
    MayPost prog posters thread q task
  posting : ∀ thread q task,
    s.posting thread = .locking q task ∨ s.posting thread = .pushing q task →
      MayPost prog posters thread q task
  queued : ∀ p, ∀ task ∈ s.taskQueue p, Gets prog posters p task

theorem inv_start (prog : Program P K) (posters : T → List (Action K)) :
    Inv prog posters (State.start posters : State P T K) where
  held := by simp [State.start]
  drains := by simp [State.start]
  pushes := by simp [State.start]
  outside := by simp [State.start]
  todo := by
    intro thread action haction q task hposts
    cases thread with
    | pump p => simp [State.start] at haction
    | poster t => exact ⟨action, haction, hposts⟩
  posting := by simp [State.start]
  queued := by simp [State.start]

section Preserved

open Function (update)

variable {prog : Program P K} {posters : T → List (Action K)} {s : State P T K}

/-- A pump whose thread has something to do or to post is draining. -/
theorem Inv.draining_of_busy (h : Inv prog posters s) {p : P}
    (hbusy : s.todo (.pump p) ≠ [] ∨ s.posting (.pump p) ≠ .no) : s.loop p = .draining := by
  by_contra hnot
  obtain ⟨htodo, hno⟩ := h.outside p hnot
  rcases hbusy with hsome | hsome
  · exact hsome htodo
  · exact hsome hno

theorem Inv.not_draining (h : Inv prog posters s) {q : P} (hfree : s.queueGuard q = none) :
    s.loop q ≠ .draining := by
  intro hdraining
  rw [h.drains q hdraining] at hfree
  cases hfree

theorem Inv.draining_of_todo (h : Inv prog posters s) {thread : Thread P T} {action : Action K}
    {rest : List (Action K)} (htodo : s.todo thread = action :: rest) (p : P)
    (hthread : thread = .pump p) : s.loop p = .draining := by
  apply h.draining_of_busy
  left
  rw [← hthread, htodo]
  simp

/-- A thread waits for a lock of its own only where a task posts to the pump
that runs it. -/
theorem Inv.postsTo_of_selfWait (h : Inv prog posters s) (hwait : s.SelfWait) :
    ∃ p, PostsTo prog posters p p := by
  obtain ⟨thread, q, task, hguard, hlocking⟩ := hwait
  rcases h.held q thread hguard with ⟨rfl, -⟩ | ⟨task', hpushing⟩
  · exact ⟨q, task, h.posting (.pump q) q task (.inl hlocking)⟩
  · rw [hlocking] at hpushing
    cases hpushing

variable [DecidableEq P]

theorem Inv.wake (h : Inv prog posters s) {p : P} (hwaiting : s.loop p = .waiting) :
    Inv prog posters { s with loop := update s.loop p .locking } where
  held := by
    dsimp only
    intro q thread hguard
    rcases h.held q thread hguard with ⟨hthread, hdraining⟩ | hpushing
    · have hne : q ≠ p := by
        rintro rfl
        rw [hwaiting] at hdraining
        cases hdraining
      exact .inl ⟨hthread, by rw [Function.update_of_ne hne, hdraining]⟩
    · exact .inr hpushing
  drains := by
    dsimp only
    intro q hdraining
    rcases eq_or_ne q p with rfl | hne
    · rw [Function.update_self] at hdraining
      cases hdraining
    · rw [Function.update_of_ne hne] at hdraining
      exact h.drains q hdraining
  pushes := by
    dsimp only
    intro thread q task hpushing
    obtain ⟨hguard, hnot⟩ := h.pushes thread q task hpushing
    rcases eq_or_ne q p with rfl | hne
    · exact ⟨hguard, by simp⟩
    · exact ⟨hguard, by rwa [Function.update_of_ne hne]⟩
  outside := by
    dsimp only
    intro q hnot
    rcases eq_or_ne q p with rfl | hne
    · exact h.outside q (by simp [hwaiting])
    · rw [Function.update_of_ne hne] at hnot
      exact h.outside q hnot
  todo := h.todo
  posting := h.posting
  queued := h.queued

/-- Where no thread is pushing to a pump, its own place and its lock matter to
nobody who pushes. -/
theorem Inv.pushes_elsewhere (h : Inv prog posters s) {p : P}
    (hnobody : ∀ thread task, s.posting thread ≠ .pushing p task) (place : Loop)
    (guard : Option (Thread P T)) (thread : Thread P T) (q : P) (task : K)
    (hpushing : s.posting thread = .pushing q task) :
    update s.queueGuard p guard q = some thread ∧ update s.loop p place q ≠ .draining := by
  have hne : q ≠ p := by
    rintro rfl
    exact hnobody thread task hpushing
  rw [Function.update_of_ne hne, Function.update_of_ne hne]
  exact h.pushes thread q task hpushing

theorem Inv.lock (h : Inv prog posters s) {p : P} (hfree : s.queueGuard p = none) :
    Inv prog posters { s with
      loop := update s.loop p .draining
      queueGuard := update s.queueGuard p (some (.pump p)) } where
  held := by
    dsimp only
    intro q thread hguard
    rcases eq_or_ne q p with rfl | hne
    · rw [Function.update_self, Option.some.injEq] at hguard
      exact .inl ⟨hguard.symm, by simp⟩
    · rw [Function.update_of_ne hne] at hguard ⊢
      exact h.held q thread hguard
  drains := by
    dsimp only
    intro q hdraining
    rcases eq_or_ne q p with rfl | hne
    · rw [Function.update_self]
    · rw [Function.update_of_ne hne] at hdraining ⊢
      exact h.drains q hdraining
  pushes := by
    apply h.pushes_elsewhere
    intro thread task hpushing
    have hguard := (h.pushes thread p task hpushing).1
    rw [hfree] at hguard
    cases hguard
  outside := by
    dsimp only
    intro q hnot
    rcases eq_or_ne q p with rfl | hne
    · simp at hnot
    · rw [Function.update_of_ne hne] at hnot
      exact h.outside q hnot
  todo := h.todo
  posting := h.posting
  queued := h.queued

theorem Inv.unlock (h : Inv prog posters s) {p : P} (hdraining : s.loop p = .draining)
    (htodo : s.todo (.pump p) = []) (hno : s.posting (.pump p) = .no) :
    Inv prog posters { s with
      loop := update s.loop p .waiting
      queueGuard := update s.queueGuard p none } where
  held := by
    dsimp only
    intro q thread hguard
    rcases eq_or_ne q p with rfl | hne
    · simp at hguard
    · rw [Function.update_of_ne hne] at hguard ⊢
      exact h.held q thread hguard
  drains := by
    dsimp only
    intro q hother
    rcases eq_or_ne q p with rfl | hne
    · simp at hother
    · rw [Function.update_of_ne hne] at hother ⊢
      exact h.drains q hother
  pushes := by
    apply h.pushes_elsewhere
    intro thread task hpushing
    exact (h.pushes thread p task hpushing).2 hdraining
  outside := by
    dsimp only
    intro q hnot
    rcases eq_or_ne q p with rfl | hne
    · exact ⟨htodo, hno⟩
    · rw [Function.update_of_ne hne] at hnot
      exact h.outside q hnot
  todo := h.todo
  posting := h.posting
  queued := h.queued

variable [DecidableEq T]

/-- Changes to what a thread has to do, and to the queues, touch only the last
fields. -/
theorem Inv.with_todo (h : Inv prog posters s) {thread : Thread P T} {rest : List (Action K)}
    {queue : P → List K}
    (hdraining : ∀ p, thread = .pump p → s.loop p = .draining)
    (hrest : ∀ action ∈ rest, ∀ q task, prog.Posts action q task →
      MayPost prog posters thread q task)
    (hqueue : ∀ p, ∀ task ∈ queue p, Gets prog posters p task) :
    Inv prog posters { s with todo := update s.todo thread rest, taskQueue := queue } where
  held := h.held
  drains := h.drains
  pushes := h.pushes
  outside := by
    dsimp only
    intro p hnot
    have hne : Thread.pump p ≠ thread := by
      intro heq
      exact hnot (hdraining p heq.symm)
    rw [Function.update_of_ne hne]
    exact h.outside p hnot
  todo := by
    dsimp only
    intro other action haction
    rcases eq_or_ne other thread with rfl | hne
    · rw [Function.update_self] at haction
      exact hrest action haction
    · rw [Function.update_of_ne hne] at haction
      exact h.todo other action haction
  posting := h.posting
  queued := hqueue

/-- A thread goes to the lock of another pump. -/
theorem Inv.ask (h : Inv prog posters s) {thread : Thread P T} {q : P} {task : K}
    (hno : s.posting thread = .no) (hdraining : ∀ p, thread = .pump p → s.loop p = .draining)
    (hmay : MayPost prog posters thread q task) :
    Inv prog posters { s with posting := update s.posting thread (.locking q task) } where
  held := by
    dsimp only
    intro q' other hguard
    rcases h.held q' other hguard with hown | ⟨task', hpushing⟩
    · exact .inl hown
    · have hne : other ≠ thread := by
        rintro rfl
        rw [hno] at hpushing
        cases hpushing
      exact .inr ⟨task', by rw [Function.update_of_ne hne, hpushing]⟩
  drains := h.drains
  pushes := by
    dsimp only
    intro other q' task' hpushing
    rcases eq_or_ne other thread with rfl | hne
    · simp at hpushing
    · rw [Function.update_of_ne hne] at hpushing
      exact h.pushes other q' task' hpushing
  outside := by
    dsimp only
    intro p hnot
    have hne : Thread.pump p ≠ thread := by
      intro heq
      exact hnot (hdraining p heq.symm)
    rw [Function.update_of_ne hne]
    exact h.outside p hnot
  todo := h.todo
  posting := by
    dsimp only
    intro other q' task' hposting
    rcases eq_or_ne other thread with rfl | hne
    · rw [Function.update_self] at hposting
      rcases hposting with hlocking | hpushing
      · cases hlocking
        exact hmay
      · cases hpushing
    · rw [Function.update_of_ne hne] at hposting
      exact h.posting other q' task' hposting
  queued := h.queued

theorem Inv.lockToPost (h : Inv prog posters s) {thread : Thread P T} {q : P} {task : K}
    (hlocking : s.posting thread = .locking q task) (hfree : s.queueGuard q = none) :
    Inv prog posters { s with
      posting := update s.posting thread (.pushing q task)
      queueGuard := update s.queueGuard q (some thread) } where
  held := by
    dsimp only
    intro q' other hguard
    rcases eq_or_ne q' q with rfl | hne
    · rw [Function.update_self, Option.some.injEq] at hguard
      subst hguard
      exact .inr ⟨task, by simp⟩
    · rw [Function.update_of_ne hne] at hguard
      rcases h.held q' other hguard with hown | ⟨task', hpushing⟩
      · exact .inl hown
      · have hother : other ≠ thread := by
          rintro rfl
          rw [hlocking] at hpushing
          cases hpushing
        exact .inr ⟨task', by rw [Function.update_of_ne hother, hpushing]⟩
  drains := by
    dsimp only
    intro p hdraining
    have hne : p ≠ q := by
      rintro rfl
      exact h.not_draining hfree hdraining
    rw [Function.update_of_ne hne]
    exact h.drains p hdraining
  pushes := by
    dsimp only
    intro other q' task' hpushing
    rcases eq_or_ne other thread with rfl | hother
    · rw [Function.update_self] at hpushing
      cases hpushing
      exact ⟨by simp, h.not_draining hfree⟩
    · rw [Function.update_of_ne hother] at hpushing
      obtain ⟨hguard, hnot⟩ := h.pushes other q' task' hpushing
      have hne : q' ≠ q := by
        rintro rfl
        rw [hfree] at hguard
        cases hguard
      rw [Function.update_of_ne hne]
      exact ⟨hguard, hnot⟩
  outside := by
    dsimp only
    intro p hnot
    have hne : Thread.pump p ≠ thread := by
      rintro rfl
      have hno := (h.outside p hnot).2
      rw [hlocking] at hno
      cases hno
    rw [Function.update_of_ne hne]
    exact h.outside p hnot
  todo := h.todo
  posting := by
    dsimp only
    intro other q' task' hposting
    rcases eq_or_ne other thread with rfl | hne
    · rw [Function.update_self] at hposting
      rcases hposting with hnever | hpushing
      · cases hnever
      · cases hpushing
        exact h.posting other q task (.inl hlocking)
    · rw [Function.update_of_ne hne] at hposting
      exact h.posting other q' task' hposting
  queued := h.queued

theorem Inv.push (h : Inv prog posters s) {thread : Thread P T} {q : P} {task : K}
    (hpushing : s.posting thread = .pushing q task) :
    Inv prog posters { s with
      posting := update s.posting thread .no
      queueGuard := update s.queueGuard q none
      taskQueue := update s.taskQueue q (s.taskQueue q ++ [task]) } where
  held := by
    dsimp only
    intro q' other hguard
    rcases eq_or_ne q' q with rfl | hne
    · simp at hguard
    · rw [Function.update_of_ne hne] at hguard
      rcases h.held q' other hguard with hown | ⟨task', hother⟩
      · exact .inl hown
      · have hthread : other ≠ thread := by
          rintro rfl
          rw [hpushing] at hother
          cases hother
          exact hne rfl
        exact .inr ⟨task', by rw [Function.update_of_ne hthread, hother]⟩
  drains := by
    dsimp only
    intro p hdraining
    have hne : p ≠ q := by
      rintro rfl
      exact (h.pushes thread p task hpushing).2 hdraining
    rw [Function.update_of_ne hne]
    exact h.drains p hdraining
  pushes := by
    dsimp only
    intro other q' task' hother
    rcases eq_or_ne other thread with rfl | hthread
    · simp at hother
    · rw [Function.update_of_ne hthread] at hother
      obtain ⟨hguard, hnot⟩ := h.pushes other q' task' hother
      have hne : q' ≠ q := by
        rintro rfl
        rw [(h.pushes thread q' task hpushing).1, Option.some.injEq] at hguard
        exact hthread hguard.symm
      rw [Function.update_of_ne hne]
      exact ⟨hguard, hnot⟩
  outside := by
    dsimp only
    intro p hnot
    obtain ⟨htodo, hno⟩ := h.outside p hnot
    refine ⟨htodo, ?_⟩
    rcases eq_or_ne (Thread.pump p) thread with heq | hne
    · rw [heq, Function.update_self]
    · rw [Function.update_of_ne hne, hno]
  todo := h.todo
  posting := by
    dsimp only
    intro other q' task' hposting
    rcases eq_or_ne other thread with rfl | hne
    · simp at hposting
    · rw [Function.update_of_ne hne] at hposting
      exact h.posting other q' task' hposting
  queued := by
    dsimp only
    intro p other hother
    rcases eq_or_ne p q with rfl | hne
    · rw [Function.update_self] at hother
      rcases List.mem_append.mp hother with hold | hnew
      · exact h.queued p other hold
      · rw [List.mem_singleton.mp hnew]
        exact (h.posting thread p task (.inr hpushing)).gets
    · rw [Function.update_of_ne hne] at hother
      exact h.queued p other hother

theorem inv_step (prog : Program P K) (posters : T → List (Action K)) (s : State P T K)
    (e : Event P T) (next : State P T K) (h : Inv prog posters s)
    (hstep : s.step prog e = some next) : Inv prog posters next := by
  cases stepped hstep with
  | wake p hwaiting => exact h.wake hwaiting
  | lock p _ hfree => exact h.lock hfree
  | pop p place task hdraining htodo hno htask =>
      have hgets : Gets prog posters p task := h.queued p task (List.mem_of_getElem? htask)
      refine h.with_todo ?_ ?_ ?_
      · rintro p' ⟨⟩
        exact hdraining
      · intro action haction q task' hposts
        exact ⟨task, hgets, action, haction, hposts⟩
      · intro p' other hother
        rcases eq_or_ne p' p with rfl | hne
        · rw [Function.update_self] at hother
          exact h.queued p' other (List.mem_of_mem_eraseIdx hother)
        · rw [Function.update_of_ne hne] at hother
          exact h.queued p' other hother
  | unlock p hdraining htodo hno => exact h.unlock hdraining htodo hno
  | drop thread receiver task rest hno htodo =>
      refine h.with_todo (h.draining_of_todo htodo) ?_ h.queued
      intro action haction
      exact h.todo thread action (by simp [htodo, haction])
  | post thread receiver task rest q hno htodo hpump =>
      have hmay : MayPost prog posters thread q task :=
        h.todo thread (.postTask receiver task) (by simp [htodo]) q task (.task hpump)
      have hrest : Inv prog posters { s with todo := update s.todo thread rest } := by
        refine h.with_todo (h.draining_of_todo htodo) ?_ h.queued
        intro action haction
        exact h.todo thread action (by simp [htodo, haction])
      exact hrest.ask hno (h.draining_of_todo htodo) hmay
  | trigger thread name rest hno htodo =>
      refine h.with_todo (h.draining_of_todo htodo) ?_ h.queued
      intro action haction q task hposts
      rcases List.mem_append.mp haction with hhere | hlater
      · exact h.todo thread (.triggerEvent name) (by simp [htodo]) q task (.event hhere hposts)
      · exact h.todo thread action (by simp [htodo, hlater]) q task hposts
  | lockToPost thread q task hlocking hfree => exact h.lockToPost hlocking hfree
  | push thread q task hpushing => exact h.push hpushing

theorem inv_reachable {init : State P T K} (hinit : Inv prog posters init)
    (hreach : Reachable (State.step prog) init s) : Inv prog posters s :=
  hreach.invariant hinit (inv_step prog posters)

end Preserved

end GitRpc.Dispatcher.NestedPosts
