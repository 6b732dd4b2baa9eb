import GitRpc.Library.Runs
import GitRpc.Library.WakeupPipe
import GitRpc.Dispatcher.DispatcherTypes

/-!
`MessagePumpEPoll` once `startComplete` is set: one thread in
`StartMessageLoop` and any number of others in `PostMessageToThread`. A post
pushes the task under `queueGuard` and then writes a byte to the wake-up pipe;
the loop takes an edge, reads one byte, and drains the whole queue under the
lock. Posts coalesce, so bytes may pile up until writes fail.

`epoll_wait` may also return for another descriptor or for a signal, with the
pipe's edge still pending or not there at all. No task that runs here posts
to the pump that runs it.
-/

namespace GitRpc.Dispatcher

open Library.Runs Library.WakeupPipe

variable {T φ : Type*}

/-- Where the pump's own thread is. -/
inductive PumpAt (φ : Type*) where
  | top
  | initLocked (task : FreshTask φ)
  | initWriting
  | waiting
  | woken
  | locking
  | draining

/-- Where a thread is in `PostMessageToThread`. -/
inductive Posting (φ : Type*) where
  | idle
  | locked (task : FreshTask φ)
  | writing

inductive Owner (T : Type*) where
  | pump
  | poster (thread : T)

/-- `taskQueue` is the content of the priority queue, in no order. `posted`,
`invoked` and `calls` keep the history. -/
structure Pump (T φ : Type*) where
  program : PumpAt φ
  runInitTask : Bool
  initTask : Option (FreshTask φ)
  posters : T → Posting φ
  queueGuard : Option (Owner T)
  pipe : EdgePipe
  taskQueue : List (FreshTask φ)
  posted : List (FreshTask φ)
  invoked : List (FreshTask φ)
  calls : List (Option (Call φ))

def Pump.start (capacity : Nat) (hpositive : 0 < capacity)
    (initTask : Option (FreshTask φ)) : Pump T φ :=
  ⟨.top, true, initTask, fun _ => .idle, none, .new capacity hpositive, [], [], [], []⟩

inductive PumpEvent (T φ : Type*) where
  | begin
  | initPush
  | initWrite
  | lockToPost (thread : T) (creation : Creation φ) (memory : Int)
  | push (thread : T)
  | write (thread : T)
  | wake
  | otherWake
  | read
  | lockToDrain
  | pop (index : Nat)
  | unlock

/-- `taskQueue.push`, and the end of the scope of the lock. -/
def Pump.pushTask (s : Pump T φ) (task : FreshTask φ) : Pump T φ :=
  { s with
    taskQueue := s.taskQueue ++ [task]
    posted := s.posted ++ [task]
    queueGuard := none }

/-- The body of the draining loop, on the task that was on top. -/
def Pump.runTask (s : Pump T φ) (task : FreshTask φ) : Pump T φ :=
  if !task.1.isComplete then
    { s with invoked := s.invoked ++ [task], calls := s.calls ++ [task.1.invoke.1] }
  else s

def Pump.step [DecidableEq T] (s : Pump T φ) : PumpEvent T φ → Option (Pump T φ)
  | .begin =>
      match s.program, if s.runInitTask then s.initTask else none with
      | .top, none => some { s with program := .waiting }
      | .top, some task =>
          if s.queueGuard.isNone then
            some { s with
              runInitTask := false, program := .initLocked task, queueGuard := some .pump }
          else none
      | _, _ => none
  | .initPush =>
      match s.program with
      | .initLocked task => some { s.pushTask task with program := .initWriting }
      | _ => none
  | .initWrite =>
      match s.program with
      | .initWriting => some { s with program := .waiting, pipe := s.pipe.write }
      | _ => none
  | .lockToPost thread creation memory =>
      match s.posters thread with
      | .idle =>
          if s.queueGuard.isNone then
            some { s with
              posters := Function.update s.posters thread (.locked (creation.fresh memory))
              queueGuard := some (.poster thread) }
          else none
      | _ => none
  | .push thread =>
      match s.posters thread with
      | .locked task =>
          some { s.pushTask task with posters := Function.update s.posters thread .writing }
      | _ => none
  | .write thread =>
      match s.posters thread with
      | .writing => some { s with
          posters := Function.update s.posters thread .idle, pipe := s.pipe.write }
      | _ => none
  | .wake =>
      match s.program with
      | .waiting =>
          if s.pipe.edge then some { s with program := .woken, pipe := s.pipe.takeEdge }
          else none
      | _ => none
  | .otherWake =>
      match s.program with
      | .waiting => some { s with program := .woken }
      | _ => none
  | .read =>
      match s.program with
      | .woken => some { s with program := .locking, pipe := s.pipe.read }
      | _ => none
  | .lockToDrain =>
      match s.program with
      | .locking =>
          if s.queueGuard.isNone then
            some { s with program := .draining, queueGuard := some .pump }
          else none
      | _ => none
  | .pop index =>
      match s.program, s.taskQueue[index]? with
      | .draining, some task =>
          if ∀ other ∈ s.taskQueue, ¬ task.1.comesAfter other.1 then
            some ({ s with taskQueue := s.taskQueue.eraseIdx index }.runTask task)
          else none
      | _, _ => none
  | .unlock =>
      match s.program with
      | .draining =>
          if s.taskQueue.isEmpty then some { s with program := .top, queueGuard := none }
          else none
      | _ => none

/-- Everything a step can be. -/
inductive PumpStepped [DecidableEq T] (s : Pump T φ) : PumpEvent T φ → Pump T φ → Prop where
  | begin (htop : s.program = .top)
      (hnone : (if s.runInitTask then s.initTask else none) = none) :
      PumpStepped s .begin { s with program := .waiting }
  | beginInit (task : FreshTask φ) (htop : s.program = .top)
      (hinit : (if s.runInitTask then s.initTask else none) = some task) :
      PumpStepped s .begin
        { s with runInitTask := false, program := .initLocked task, queueGuard := some .pump }
  | initPush (task : FreshTask φ) (hlocked : s.program = .initLocked task) :
      PumpStepped s .initPush { s.pushTask task with program := .initWriting }
  | initWrite (hwriting : s.program = .initWriting) :
      PumpStepped s .initWrite { s with program := .waiting, pipe := s.pipe.write }
  | lockToPost (thread : T) (creation : Creation φ) (memory : Int)
      (hidle : s.posters thread = .idle) :
      PumpStepped s (.lockToPost thread creation memory) { s with
        posters := Function.update s.posters thread (.locked (creation.fresh memory))
        queueGuard := some (.poster thread) }
  | push (thread : T) (task : FreshTask φ) (hlocked : s.posters thread = .locked task) :
      PumpStepped s (.push thread)
        { s.pushTask task with posters := Function.update s.posters thread .writing }
  | write (thread : T) (hwriting : s.posters thread = .writing) :
      PumpStepped s (.write thread) { s with
        posters := Function.update s.posters thread .idle, pipe := s.pipe.write }
  | wake (hwaiting : s.program = .waiting) (hedge : s.pipe.edge = true) :
      PumpStepped s .wake { s with program := .woken, pipe := s.pipe.takeEdge }
  | otherWake (hwaiting : s.program = .waiting) :
      PumpStepped s .otherWake { s with program := .woken }
  | read (hwoken : s.program = .woken) :
      PumpStepped s .read { s with program := .locking, pipe := s.pipe.read }
  | lockToDrain (hlocking : s.program = .locking) :
      PumpStepped s .lockToDrain { s with program := .draining, queueGuard := some .pump }
  | pop (index : Nat) (task : FreshTask φ) (hdraining : s.program = .draining)
      (htask : s.taskQueue[index]? = some task)
      (hfirst : ∀ other ∈ s.taskQueue, ¬ task.1.comesAfter other.1) :
      PumpStepped s (.pop index) ({ s with taskQueue := s.taskQueue.eraseIdx index }.runTask task)
  | unlock (hdraining : s.program = .draining) (hempty : s.taskQueue = []) :
      PumpStepped s .unlock { s with program := .top, queueGuard := none }

theorem pump_stepped [DecidableEq T] {s next : Pump T φ} {e : PumpEvent T φ}
    (hstep : s.step e = some next) : PumpStepped s e next := by
  cases e with
  | begin =>
      simp only [Pump.step] at hstep
      split at hstep
      · rename_i htop hnone
        cases hstep
        exact .begin htop hnone
      · rename_i task htop hinit
        split at hstep
        · cases hstep
          exact .beginInit task htop hinit
        · cases hstep
      · cases hstep
  | initPush =>
      simp only [Pump.step] at hstep
      split at hstep
      · rename_i task hlocked
        cases hstep
        exact .initPush task hlocked
      · cases hstep
  | initWrite =>
      simp only [Pump.step] at hstep
      split at hstep
      · rename_i hwriting
        cases hstep
        exact .initWrite hwriting
      · cases hstep
  | lockToPost thread creation memory =>
      simp only [Pump.step] at hstep
      split at hstep
      · rename_i hidle
        split at hstep
        · cases hstep
          exact .lockToPost thread creation memory hidle
        · cases hstep
      · cases hstep
  | push thread =>
      simp only [Pump.step] at hstep
      split at hstep
      · rename_i task hlocked
        cases hstep
        exact .push thread task hlocked
      · cases hstep
  | write thread =>
      simp only [Pump.step] at hstep
      split at hstep
      · rename_i hwriting
        cases hstep
        exact .write thread hwriting
      · cases hstep
  | wake =>
      simp only [Pump.step] at hstep
      split at hstep
      · rename_i hwaiting
        split at hstep
        · rename_i hedge
          cases hstep
          exact .wake hwaiting hedge
        · cases hstep
      · cases hstep
  | otherWake =>
      simp only [Pump.step] at hstep
      split at hstep
      · rename_i hwaiting
        cases hstep
        exact .otherWake hwaiting
      · cases hstep
  | read =>
      simp only [Pump.step] at hstep
      split at hstep
      · rename_i hwoken
        cases hstep
        exact .read hwoken
      · cases hstep
  | lockToDrain =>
      simp only [Pump.step] at hstep
      split at hstep
      · rename_i hlocking
        split at hstep
        · cases hstep
          exact .lockToDrain hlocking
        · cases hstep
      · cases hstep
  | pop index =>
      simp only [Pump.step] at hstep
      split at hstep
      · rename_i task hdraining htask
        split at hstep
        · rename_i hfirst
          cases hstep
          exact .pop index task hdraining htask hfirst
        · cases hstep
      · cases hstep
  | unlock =>
      simp only [Pump.step] at hstep
      split at hstep
      · rename_i hdraining
        split at hstep
        · rename_i hempty
          cases hstep
          exact .unlock hdraining (List.isEmpty_iff.mp hempty)
        · cases hstep
      · cases hstep

/-- The pump sleeps on a queue that nobody is going to wake it up for. -/
def Pump.Stranded (s : Pump T φ) : Prop :=
  s.program = .waiting ∧ s.pipe.edge = false ∧ s.taskQueue ≠ [] ∧
    ∀ thread, s.posters thread = .idle

/-- No task is lost or run twice, and none is left behind. -/
structure PumpSound (s : Pump T φ) : Prop where
  conserved : s.posted.Perm (s.invoked ++ s.taskQueue)
  served : ¬ s.Stranded

/-- The pump has woken up and will get to the queue. -/
def PumpAt.Awake : PumpAt φ → Prop
  | .woken | .locking | .draining => True
  | _ => False

/-- Somebody is about to write to the pipe. -/
def Pump.WriteComing (s : Pump T φ) : Prop :=
  s.program = .initWriting ∨ ∃ thread, s.posters thread = .writing

/-- Why no task is left behind. A full pipe has an edge that nobody has taken
yet, or the pump stands in front of the read that makes room; so the write of
a post that fails has no need to raise an edge of its own. -/
structure PumpInv (s : Pump T φ) : Prop where
  conserved : s.posted.Perm (s.invoked ++ s.taskQueue)
  full : s.pipe.Full → s.pipe.edge = true ∨ s.program = .woken
  queued : s.taskQueue ≠ [] → s.pipe.edge = true ∨ s.program.Awake ∨ s.WriteComing

theorem PumpInv.sound {s : Pump T φ} (h : PumpInv s) : PumpSound s where
  conserved := h.conserved
  served := by
    rintro ⟨hwaiting, hedge, hqueue, hidle⟩
    rcases h.queued hqueue with hraised | hawake | hinit | ⟨thread, hwriting⟩
    · rw [hedge] at hraised
      cases hraised
    · rw [hwaiting] at hawake
      exact hawake
    · rw [hwaiting] at hinit
      cases hinit
    · rw [hidle thread] at hwriting
      cases hwriting

theorem pumpInv_start (capacity : Nat) (hpositive : 0 < capacity)
    (initTask : Option (FreshTask φ)) : PumpInv (Pump.start capacity hpositive initTask : Pump T φ) where
  conserved := List.Perm.refl []
  full := by
    intro hfull
    have hzero : 0 = capacity := hfull
    omega
  queued := by simp [Pump.start]

/-- Away from the read, a full pipe has its edge. -/
theorem PumpInv.full_edge {s : Pump T φ} (h : PumpInv s) (hprogram : s.program ≠ .woken)
    (hfull : s.pipe.Full) : s.pipe.edge = true :=
  (h.full hfull).resolve_right hprogram

theorem PumpInv.queued_top {s : Pump T φ} (h : PumpInv s) (htop : s.program = .top)
    (hqueue : s.taskQueue ≠ []) :
    s.pipe.edge = true ∨ ∃ thread, s.posters thread = .writing := by
  rcases h.queued hqueue with hedge | hawake | hinit | hwriting
  · exact .inl hedge
  · rw [htop] at hawake
    exact hawake.elim
  · rw [htop] at hinit
    cases hinit
  · exact .inr hwriting

/-- A write raises the edge, or fails at a time when it does not matter. -/
theorem PumpInv.write {s : Pump T φ} (h : PumpInv s) :
    s.pipe.write.edge = true ∨ s.program = .woken := by
  rcases s.pipe.write_edge_or_full with hedge | ⟨hfull, hsame⟩
  · exact .inl hedge
  · rw [hsame]
    exact h.full hfull

theorem pushTask_conserved {s : Pump T φ} (h : s.posted.Perm (s.invoked ++ s.taskQueue))
    (task : FreshTask φ) :
    (s.pushTask task).posted.Perm ((s.pushTask task).invoked ++ (s.pushTask task).taskQueue) := by
  show (s.posted ++ [task]).Perm (s.invoked ++ (s.taskQueue ++ [task]))
  rw [← List.append_assoc]
  exact h.append_right [task]

/-- What is popped is invoked, since nobody has invoked it before. -/
theorem runTask_invoked (s : Pump T φ) (task : FreshTask φ) :
    (s.runTask task).invoked = s.invoked ++ [task] ∧
      (s.runTask task).posted = s.posted ∧ (s.runTask task).taskQueue = s.taskQueue ∧
      (s.runTask task).program = s.program ∧ (s.runTask task).pipe = s.pipe := by
  have hfresh := task.2
  simp [Pump.runTask, hfresh]

theorem perm_pop {α : Type*} {invoked queue : List α} {index : Nat} {task : α}
    (htask : queue[index]? = some task) :
    (invoked ++ queue).Perm (invoked ++ [task] ++ queue.eraseIdx index) := by
  obtain ⟨hindex, rfl⟩ := List.getElem?_eq_some_iff.mp htask
  rw [List.append_assoc]
  exact (List.getElem_cons_eraseIdx_perm hindex).symm.append_left invoked

/-- A thread that goes on to another point than `idle` or `writing` from one
that is not `writing` keeps the writes that were coming. -/
theorem writing_update [DecidableEq T] {posters : T → Posting φ} {thread : T}
    {posting : Posting φ} (hnot : posters thread ≠ .writing)
    (hwriting : ∃ other, posters other = .writing) :
    ∃ other, Function.update posters thread posting other = .writing := by
  obtain ⟨other, hother⟩ := hwriting
  have hne : other ≠ thread := by
    rintro rfl
    exact hnot hother
  exact ⟨other, by rw [Function.update_of_ne hne, hother]⟩

theorem pumpInv_step [DecidableEq T] (s : Pump T φ) (e : PumpEvent T φ) (next : Pump T φ)
    (h : PumpInv s) (hstep : s.step e = some next) : PumpInv next := by
  cases pump_stepped hstep with
  | begin htop | beginInit _ htop =>
      refine ⟨h.conserved, fun hfull => .inl (h.full_edge (by simp [htop]) hfull), ?_⟩
      intro hqueue
      rcases h.queued_top htop hqueue with hedge | hwriting
      · exact .inl hedge
      · exact .inr (.inr (.inr hwriting))
  | initPush task hlocked =>
      exact ⟨pushTask_conserved h.conserved task,
        fun hfull => .inl (h.full_edge (by simp [hlocked]) hfull),
        fun _ => .inr (.inr (.inl rfl))⟩
  | initWrite hwriting =>
      have hedge : s.pipe.write.edge = true := h.write.resolve_right (by simp [hwriting])
      exact ⟨h.conserved, fun _ => .inl hedge, fun _ => .inl hedge⟩
  | lockToPost thread creation memory hidle =>
      refine ⟨h.conserved, h.full, fun hqueue => ?_⟩
      rcases h.queued hqueue with hedge | hawake | hinit | hwriting
      · exact .inl hedge
      · exact .inr (.inl hawake)
      · exact .inr (.inr (.inl hinit))
      · exact .inr (.inr (.inr (writing_update (by simp [hidle]) hwriting)))
  | push thread task =>
      exact ⟨pushTask_conserved h.conserved task, h.full,
        fun _ => .inr (.inr (.inr ⟨thread, Function.update_self thread .writing s.posters⟩))⟩
  | write =>
      refine ⟨h.conserved, fun _ => h.write, fun _ => ?_⟩
      rcases h.write with hedge | hwoken
      · exact .inl hedge
      · right
        left
        rw [hwoken]
        trivial
  | wake | otherWake => exact ⟨h.conserved, fun _ => .inr rfl, fun _ => .inr (.inl trivial)⟩
  | read =>
      exact ⟨h.conserved, fun hfull => absurd hfull s.pipe.not_full_read,
        fun _ => .inr (.inl trivial)⟩
  | lockToDrain hlocking =>
      exact ⟨h.conserved, fun hfull => .inl (h.full_edge (by simp [hlocking]) hfull),
        fun _ => .inr (.inl trivial)⟩
  | pop index task hdraining htask =>
      obtain ⟨hinvoked, hposted, hqueue, hprogram, hpipe⟩ :=
        runTask_invoked { s with taskQueue := s.taskQueue.eraseIdx index } task
      refine ⟨?_, ?_, fun _ => .inr (.inl ?_)⟩
      · rw [hinvoked, hposted, hqueue]
        exact h.conserved.trans (perm_pop htask)
      · rw [hpipe, hprogram]
        exact h.full
      · rw [hprogram]
        simp only [hdraining]
        trivial
  | unlock hdraining hempty =>
      refine ⟨h.conserved, fun hfull => .inl (h.full_edge (by simp [hdraining]) hfull), ?_⟩
      intro hqueue
      exact absurd hempty hqueue

/-- Any number of threads post to a started pump, over a pipe of any
capacity: in every state they can reach, each posted task has been invoked
once or is still in the queue, and the pump does not sleep on the queue when
all posts are over. -/
theorem pump_sound [DecidableEq T] (capacity : Nat) (hpositive : 0 < capacity)
    (initTask : Option (FreshTask φ)) (s : Pump T φ)
    (hreach : Reachable Pump.step (Pump.start capacity hpositive initTask) s) : PumpSound s :=
  (hreach.invariant (pumpInv_start capacity hpositive initTask) pumpInv_step).sound

/-- Two threads post over a pipe of one byte. The second write fails, and the
pump serves both tasks on one wake-up. -/
def fullPipeRun : List (PumpEvent (Fin 2) Unit) :=
  [.begin, .lockToPost 0 (.methodNothing () 8 .LOW) 0, .push 0,
    .lockToPost 1 (.methodNothing () 16 .HIGH) 0, .write 0, .push 1, .write 1,
    .wake, .read, .lockToDrain, .pop 1, .pop 0, .unlock, .begin]

theorem pump_sound_full_pipe :
    ∃ s : Pump (Fin 2) Unit,
      exec Pump.step (Pump.start 1 Nat.one_pos none) fullPipeRun = some s ∧
      s.calls = [some ⟨(), some 16, none⟩, some ⟨(), some 8, none⟩] ∧ PumpSound s := by
  obtain ⟨s, hrun, hcalls⟩ : ∃ s,
      exec Pump.step (Pump.start 1 Nat.one_pos none) fullPipeRun = some s ∧
        s.calls = [some ⟨(), some 16, none⟩, some ⟨(), some 8, none⟩] :=
    ⟨_, rfl, rfl⟩
  exact ⟨s, hrun, hcalls, pump_sound 1 Nat.one_pos none s ⟨fullPipeRun, hrun⟩⟩

end GitRpc.Dispatcher
