import GitRpc.Dispatcher.MessagePumpEPoll

/-!
The tasks on their way through a pump: a task is in flight from the moment a
thread has the lock to push it until the pump pops it. A pump without an init
task gets its tasks from `PostMessageToThread` alone.
-/

namespace GitRpc.Dispatcher

variable {T φ : Type*}

/-- The task is in the queue, or a thread has the lock to push it. -/
def Pump.InFlight (s : Pump T φ) (task : FreshTask φ) : Prop :=
  task ∈ s.taskQueue ∨ (∃ thread, s.posters thread = .locked task) ∨ s.program = .initLocked task

/-- The task that a thread has the lock to push. -/
def Pump.hand (s : Pump T φ) (thread : T) : List (FreshTask φ) :=
  match s.posters thread with
  | .locked task => [task]
  | _ => []

/-- The event neither brings a task nor takes one out. -/
def PumpEvent.Carries : PumpEvent T φ → Prop
  | .lockToPost _ _ _ | .pop _ => False
  | _ => True

instance (e : PumpEvent T φ) : Decidable e.Carries := by
  cases e <;> unfold PumpEvent.Carries <;> infer_instance

/-- An entry is replaced: what was there is gone, and what is there now is new. -/
theorem exists_update_or {α β : Type*} [DecidableEq α] (f : α → β) (key : α) (new value : β) :
    (∃ other, Function.update f key new other = value) ∨ f key = value ↔
      (∃ other, f other = value) ∨ new = value := by
  constructor
  · rintro (⟨other, hother⟩ | hold)
    · by_cases hsame : other = key
      · rw [hsame, Function.update_self] at hother
        exact .inr hother
      · rw [Function.update_of_ne hsame] at hother
        exact .inl ⟨other, hother⟩
    · exact .inl ⟨key, hold⟩
  · rintro (⟨other, hother⟩ | hnew)
    · by_cases hsame : other = key
      · exact .inr (hsame ▸ hother)
      · exact .inl ⟨other, by rw [Function.update_of_ne hsame, hother]⟩
    · exact .inl ⟨key, by rw [Function.update_self, hnew]⟩

variable {s next : Pump T φ}

/-- A thread has got the lock to push a new task. -/
structure Locked [DecidableEq T] (s next : Pump T φ) (thread : T) (task : FreshTask φ) : Prop where
  idle : s.posters thread = .idle
  queue : next.taskQueue = s.taskQueue
  posters : next.posters = Function.update s.posters thread (.locked task)
  inFlight : ∀ other, next.InFlight other ↔ s.InFlight other ∨ other = task
  initTask : next.initTask = s.initTask
  program : next.program = s.program

theorem locked_step [DecidableEq T] {thread : T} {creation : Creation φ} {memory : Int}
    (hstep : s.step (.lockToPost thread creation memory) = some next) :
    Locked s next thread (creation.fresh memory) := by
  cases pump_stepped hstep with
  | lockToPost _ _ _ hidle =>
      refine ⟨hidle, rfl, rfl, fun task => ?_, rfl, rfl⟩
      have hposters := exists_update_or s.posters thread (.locked (creation.fresh memory))
        (.locked task)
      simp only [hidle, reduceCtorEq, or_false, Posting.locked.injEq] at hposters
      simp only [Pump.InFlight, hposters, eq_comm (a := task)]
      tauto

/-- What every event leaves as it is that carries the tasks on. -/
structure Carried (s next : Pump T φ) : Prop where
  inFlight : ∀ task, next.InFlight task ↔ s.InFlight task
  initTask : next.initTask = s.initTask
  posters : ∀ thread task, next.posters thread = .locked task → s.posters thread = .locked task
  program : ∀ task, next.program = .initLocked task → s.program = .initLocked task
  moves : (next.taskQueue = s.taskQueue ∧ ∀ thread, next.hand thread = s.hand thread) ∨
    (∃ thread task, s.posters thread = .locked task ∧ next.taskQueue = s.taskQueue ++ [task] ∧
      next.hand thread = [] ∧ ∀ other, other ≠ thread → next.hand other = s.hand other) ∨
    ∃ task, s.program = .initLocked task

theorem Carried.of_same (hqueue : next.taskQueue = s.taskQueue) (hposters : next.posters = s.posters)
    (hinit : next.initTask = s.initTask)
    (hprogram : ∀ task, next.program = .initLocked task ↔ s.program = .initLocked task) :
    Carried s next where
  inFlight task := by rw [Pump.InFlight, hqueue, hposters, hprogram, Pump.InFlight]
  initTask := hinit
  posters thread task hlocked := by rwa [← hposters]
  program task := (hprogram task).mp
  moves := .inl ⟨hqueue, fun thread => by rw [Pump.hand, hposters, Pump.hand]⟩

/-- A thread gets on in its post. -/
theorem locked_of_update [DecidableEq T] {posters : T → Posting φ} {thread other : T}
    {posting : Posting φ} {task : FreshTask φ} (hnew : posting ≠ .locked task)
    (hlocked : Function.update posters thread posting other = .locked task) :
    posters other = .locked task := by
  by_cases hsame : other = thread
  · rw [hsame, Function.update_self] at hlocked
    exact absurd hlocked hnew
  · rwa [Function.update_of_ne hsame] at hlocked

theorem carried_step [DecidableEq T] {e : PumpEvent T φ} (hcarries : e.Carries)
    (hinit : s.initTask = none) (hstep : s.step e = some next) : Carried s next := by
  cases pump_stepped hstep with
  | lockToPost | pop => exact hcarries.elim
  | begin htop => exact .of_same rfl rfl rfl (by simp [htop])
  | beginInit task _ htask => simp [hinit] at htask
  | initPush pushed hlocked =>
      refine ⟨fun task => ?_, rfl, fun _ _ hmine => hmine, by simp, .inr (.inr ⟨_, hlocked⟩)⟩
      simp only [Pump.InFlight, Pump.pushTask, hlocked, List.mem_append, List.mem_singleton,
        PumpAt.initLocked.injEq, reduceCtorEq, or_false, eq_comm (a := pushed)]
      tauto
  | push thread pushed hlocked =>
      refine ⟨fun task => ?_, rfl, fun other task => locked_of_update (by simp),
        fun _ hmine => hmine, .inr (.inl ⟨thread, pushed, hlocked, rfl, ?_, ?_⟩)⟩
      · have hposters := exists_update_or s.posters thread .writing (.locked task)
        simp only [hlocked, reduceCtorEq, or_false, Posting.locked.injEq] at hposters
        simp only [Pump.InFlight, Pump.pushTask, List.mem_append, List.mem_singleton, ← hposters,
          eq_comm (a := pushed)]
        tauto
      · simp [Pump.hand]
      · intro other hne
        simp [Pump.hand, Function.update_of_ne hne]
  | write thread hwriting =>
      refine ⟨fun task => ?_, rfl, fun other task => locked_of_update (by simp),
        fun _ hmine => hmine, .inl ⟨rfl, fun other => ?_⟩⟩
      · have hposters := exists_update_or s.posters thread .idle (.locked task)
        simp only [hwriting, reduceCtorEq, or_false] at hposters
        simp only [Pump.InFlight, hposters]
      · by_cases hsame : other = thread
        · simp [Pump.hand, hsame, hwriting]
        · simp [Pump.hand, Function.update_of_ne hsame]
  | initWrite hprogram | wake hprogram | otherWake hprogram | read hprogram
  | lockToDrain hprogram | unlock hprogram =>
      exact .of_same rfl rfl rfl (by simp [hprogram])

/-- The task that a pop takes out has no other in front of it. -/
structure Popped (s next : Pump T φ) (task : FreshTask φ) : Prop where
  queue : (task :: next.taskQueue).Perm s.taskQueue
  first : ∀ other ∈ s.taskQueue, ¬ task.1.comesAfter other.1
  kept : ∀ other, next.InFlight other → s.InFlight other
  left : ∀ other, s.InFlight other → other = task ∨ next.InFlight other
  initTask : next.initTask = s.initTask
  posters : next.posters = s.posters
  program : next.program = s.program

theorem Popped.mem {task : FreshTask φ} (h : Popped s next task) : task ∈ s.taskQueue :=
  h.queue.mem_iff.mp List.mem_cons_self

theorem popped_step [DecidableEq T] {index : Nat} (hstep : s.step (.pop index) = some next) :
    ∃ task, s.taskQueue[index]? = some task ∧ Popped s next task := by
  cases pump_stepped hstep with
  | pop _ task hdraining htask hfirst =>
      obtain ⟨hindex, rfl⟩ := List.getElem?_eq_some_iff.mp htask
      have hpick := List.getElem_cons_eraseIdx_perm hindex
      have hfresh := (s.taskQueue[index]).2
      simp only [Pump.runTask, hfresh, Bool.not_false, if_true]
      refine ⟨_, htask, hpick, hfirst, ?_, ?_, rfl, rfl, rfl⟩
      · intro other hother
        exact hother.imp_left fun hmem => hpick.mem_iff.mp (List.mem_cons_of_mem _ hmem)
      · rintro other (hmem | hrest)
        · rcases List.mem_cons.mp (hpick.mem_iff.mpr hmem) with hsame | hmem
          · exact .inl hsame
          · exact .inr (.inl hmem)
        · exact .inr (.inr hrest)

end GitRpc.Dispatcher
