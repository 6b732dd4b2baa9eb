import GitRpc.Library.Histories
import GitRpc.TaskManager.ThreadPool

/-!
A schedule that hands over one task at a time: as long as the pool keeps to
it, the pointer that a runner uses still finds the task it was made for.
-/

namespace GitRpc.TaskManager

open Dispatcher Library.Runs Library.Histories Library.TopSlot

variable {T φ : Type*}

/-- How far the hand-over of the top has come. A thread has taken the pointer,
and has given it to a runner; the runner has made the call, and has marked the
task. -/
inductive Handover (T : Type*) where
  | none
  | taken (holder : T)
  | given (holder : T) (i : Nat)
  | called (holder : T) (i : Nat)
  | done (holder : T) (i : Nat)

def Dispatching.HasTaken (buffer : Nat) : Dispatching → Prop
  | .asking _ t | .marking _ t | .posting _ t => t = buffer
  | _ => False

def Dispatching.HasGiven (i : Nat) : Dispatching → Prop
  | .signalling threadID => threadID = i
  | .popping => True
  | _ => False

/-- The runner is on its way from one task to the next. -/
def RunnerAt.Between : RunnerAt → Prop
  | .testing | .entering | .waiting => True
  | .invoking | .completing _ | .releasing => False

/-- The runner has never been given a task, or has run the one it was given. -/
def Runner.Rests (r : Runner) (ran : Prop) : Prop :=
  (r.pendingTask = none ∧ ¬ ran ∧ r.program.Between) ∨
    (r.pendingTask.isSome ∧ ran ∧ (r.program.Between ∨ r.program = .releasing))

namespace Handover

def holder : Handover T → Option T
  | .none => Option.none
  | .taken holder | .given holder _ | .called holder _ | .done holder _ => some holder

def HolderAt (buffer : Nat) (program : Dispatching) : Handover T → Prop
  | .none => False
  | .taken _ => program.HasTaken buffer
  | .given _ i | .called _ i | .done _ i => program.HasGiven i

def RunnerAt (buffer i : Nat) (r : Runner) (ran : Prop) : Handover T → Prop
  | .none | .taken _ | .done _ _ => r.Rests ran
  | .given _ chosen =>
      if chosen = i then
        r.pendingTask = some buffer ∧ ¬ ran ∧ (r.program.Between ∨ r.program = .invoking)
      else r.Rests ran
  | .called _ chosen =>
      if chosen = i then r.pendingTask.isSome ∧ ran ∧ r.program = .completing buffer
      else r.Rests ran

/-- The entries that nobody has invoked. -/
def toInvoke (entries : List (Entry φ)) : Handover T → List (Entry φ)
  | .none | .taken _ | .given _ _ => entries
  | .called _ _ | .done _ _ => entries.tail

def QueueAt (entries : List (Entry φ)) : Handover T → Prop
  | .none => ∀ entry ∈ entries, entry.task.isComplete = false
  | .taken _ | .given _ _ | .called _ _ =>
      entries ≠ [] ∧ ∀ entry ∈ entries, entry.task.isComplete = false
  | .done _ _ => entries ≠ [] ∧ ∀ entry ∈ entries.tail, entry.task.isComplete = false

end Handover

def ThreadPool.HasRun (s : ThreadPool T φ) (i : Nat) : Prop :=
  ∃ invocation ∈ s.invoked, invocation.runner = i

/-- The task is one that was posted, and calls what it was bound to. -/
def Posted (posted : List (Creation φ)) (number : Nat) (call : Option (Call φ)) : Prop :=
  ∃ creation, posted[number]? = some creation ∧ call = some creation.call

structure HandoverInv (s : ThreadPool T φ) (phase : Handover T) : Prop where
  defined : s.undefined = false
  holder : ∀ thread, phase.holder = some thread →
    phase.HolderAt s.queue.buffer (s.threads thread)
  others : ∀ thread, (s.threads thread).Holds → phase.holder = some thread
  runners : ∀ i r, s.runners[i]? = some r → phase.RunnerAt s.queue.buffer i r (s.HasRun i)
  queue : phase.QueueAt s.queue.entries
  once : (s.invoked.map Invocation.number ++
    (phase.toInvoke s.queue.entries).map Entry.number).Perm (List.range s.posted.length)
  own : ∀ invocation ∈ s.invoked, Posted s.posted invocation.number invocation.call
  entries : ∀ entry ∈ s.queue.entries, Posted s.posted entry.number entry.task.invoke.1
  empty : (∀ thread, s.threads thread = .outside) → s.queue.entries = []

variable {s next : ThreadPool T φ} {phase : Handover T}

theorem HandoverInv.sound (h : HandoverInv s phase) : InvokesEachOnce s where
  defined := h.defined
  own := h.own
  once := (List.nodup_append.mp (h.once.nodup_iff.mpr List.nodup_range)).1
  settled := by
    rintro ⟨houtside, -⟩ number hlt
    have hempty := h.empty houtside
    have hnone : phase.toInvoke s.queue.entries = [] := by
      rw [hempty]
      cases phase <;> rfl
    have hmem := h.once.mem_iff.mpr (List.mem_range.mpr hlt)
    rw [hnone] at hmem
    simpa using hmem

theorem HasTaken.holds {buffer : Nat} {program : Dispatching} (h : program.HasTaken buffer) :
    program.Holds := by
  cases program <;> simp_all [Dispatching.HasTaken, Dispatching.Holds]

theorem HasGiven.holds {i : Nat} {program : Dispatching} (h : program.HasGiven i) :
    program.Holds := by
  cases program <;> simp_all [Dispatching.HasGiven, Dispatching.Holds]

theorem Handover.HolderAt.holds {buffer : Nat} {program : Dispatching}
    (h : phase.HolderAt buffer program) : program.Holds := by
  cases phase with
  | none => exact h.elim
  | taken => exact HasTaken.holds h
  | given | called | done => exact HasGiven.holds h

theorem Handover.RunnerAt.inversion {buffer i : Nat} {r : Runner} {ran : Prop}
    (h : phase.RunnerAt buffer i r ran) :
    r.Rests ran ∨
      ((∃ holder, phase = .given holder i) ∧ r.pendingTask = some buffer ∧ ¬ ran ∧
        (r.program.Between ∨ r.program = .invoking)) ∨
      ((∃ holder, phase = .called holder i) ∧ r.pendingTask.isSome ∧ ran ∧
        r.program = .completing buffer) := by
  cases phase with
  | none | taken | done => exact .inl h
  | given holder chosen =>
      by_cases hmine : chosen = i
      · subst hmine
        exact .inr (.inl ⟨⟨holder, rfl⟩, (if_pos rfl).mp h⟩)
      · exact .inl ((if_neg hmine).mp h)
  | called holder chosen =>
      by_cases hmine : chosen = i
      · subst hmine
        exact .inr (.inr ⟨⟨holder, rfl⟩, (if_pos rfl).mp h⟩)
      · exact .inl ((if_neg hmine).mp h)

theorem Runner.Rests.move {r r' : Runner} {ran : Prop} (h : r.Rests ran)
    (hpending : r'.pendingTask = r.pendingTask)
    (hprogram : r'.program = r.program ∨
      (r.program.Between ∨ r.program = .releasing) ∧ r'.program.Between) : r'.Rests ran := by
  unfold Runner.Rests at h ⊢
  rw [hpending]
  rcases hprogram with hsame | ⟨-, hbetween⟩
  · rwa [hsame]
  · exact h.imp (fun ⟨hnone, hnever, _⟩ => ⟨hnone, hnever, hbetween⟩)
      fun ⟨hsome, hran, _⟩ => ⟨hsome, hran, .inl hbetween⟩

/-- A runner may move on in the same place or from one task towards the next. -/
theorem Handover.RunnerAt.move {buffer i : Nat} {r r' : Runner} {ran : Prop}
    (h : phase.RunnerAt buffer i r ran) (hpending : r'.pendingTask = r.pendingTask)
    (hprogram : r'.program = r.program ∨
      (r.program.Between ∨ r.program = .releasing) ∧ r'.program.Between) :
    phase.RunnerAt buffer i r' ran := by
  cases phase with
  | none | taken | done => exact Runner.Rests.move h hpending hprogram
  | given holder chosen =>
      by_cases hmine : chosen = i
      · obtain ⟨hbuffer, hnever, hat⟩ := (if_pos hmine).mp h
        apply (if_pos hmine).mpr
        refine ⟨hpending.trans hbuffer, hnever, ?_⟩
        rcases hprogram with hsame | ⟨-, hbetween⟩
        · rwa [hsame]
        · exact .inl hbetween
      · exact (if_neg hmine).mpr (((if_neg hmine).mp h).move hpending hprogram)
  | called holder chosen =>
      by_cases hmine : chosen = i
      · obtain ⟨hsome, hran, hat⟩ := (if_pos hmine).mp h
        apply (if_pos hmine).mpr
        refine ⟨hpending ▸ hsome, hran, ?_⟩
        rcases hprogram with hsame | ⟨hbetween, -⟩
        · exact hsame.trans hat
        · rw [hat] at hbetween
          simp [RunnerAt.Between] at hbetween
      · exact (if_neg hmine).mpr (((if_neg hmine).mp h).move hpending hprogram)

/-- Who holds the top after one thread has moved. -/
theorem holds_update [DecidableEq T] {threads : T → Dispatching} {thread : T}
    {program : Dispatching} {P : T → Prop} (hmine : program.Holds → P thread)
    (hothers : ∀ other, other ≠ thread → (threads other).Holds → P other) :
    ∀ other, (Function.update threads thread program other).Holds → P other :=
  (Function.forall_update_iff threads fun other at_ => Dispatching.Holds at_ → P other).mpr
    ⟨hmine, hothers⟩

/-- A thread that moves on by itself. -/
theorem HandoverInv.goTo [DecidableEq T] (h : HandoverInv s phase) (thread : T)
    (program : Dispatching)
    (hholder : phase.holder = some thread → phase.HolderAt s.queue.buffer program)
    (hother : program.Holds → phase.holder = some thread)
    (houtside : program = .outside → s.queue.entries = []) :
    HandoverInv (s.goTo thread program) phase := by
  refine ⟨h.defined, ?_, ?_, h.runners, h.queue, h.once, h.own, h.entries, ?_⟩
  · apply (Function.forall_update_iff s.threads fun other at_ =>
      phase.holder = some other → phase.HolderAt s.queue.buffer at_).mpr
    exact ⟨hholder, fun other _ => h.holder other⟩
  · exact holds_update hother fun other _ => h.others other
  · intro hall
    exact houtside (by simpa [ThreadPool.goTo] using hall thread)

theorem HandoverInv.goToFree [DecidableEq T] (h : HandoverInv s phase) {thread : T}
    {program : Dispatching} (hbefore : ¬ (s.threads thread).Holds) (hafter : ¬ program.Holds)
    (houtside : program = .outside → s.queue.entries = []) :
    HandoverInv (s.goTo thread program) phase := by
  apply h.goTo thread program
  · intro hmine
    exact absurd (h.holder thread hmine).holds hbefore
  · intro hholds
    exact absurd hholds hafter
  · exact houtside

theorem forall_set {α : Type*} {xs : List α} {i : Nat} {x : α} {P : Nat → α → Prop} (hnew : P i x)
    (hold : ∀ other, i ≠ other → ∀ y, xs[other]? = some y → P other y) :
    ∀ other y, (xs.set i x)[other]? = some y → P other y := by
  intro other y hy
  by_cases hsame : i = other
  · subst hsame
    rw [List.getElem?_set_self'] at hy
    obtain ⟨-, -, rfl⟩ := Option.map_eq_some_iff.mp hy
    exact hnew
  · rw [List.getElem?_set_ne hsame] at hy
    exact hold other hsame y hy

/-- A runner that moves on by itself. -/
theorem HandoverInv.setRunner (h : HandoverInv s phase) {i : Nat} (r : Runner)
    (hrunner : phase.RunnerAt s.queue.buffer i r (s.HasRun i)) :
    HandoverInv (s.setRunner i r) phase := by
  refine ⟨h.defined, h.holder, h.others, ?_, h.queue, h.once, h.own, h.entries, h.empty⟩
  exact forall_set hrunner fun other _ => h.runners other

theorem Posted.append {posted : List (Creation φ)} {number : Nat} {call : Option (Call φ)}
    (h : Posted posted number call) (creation : Creation φ) :
    Posted (posted ++ [creation]) number call := by
  obtain ⟨mine, hmine, hcall⟩ := h
  exact ⟨mine, getElem?_append_some hmine _, hcall⟩

/-- Somebody is going to use the pointer. -/
def Handover.Points : Handover T → Prop
  | .taken _ | .given _ _ | .called _ _ => True
  | .none | .done _ _ => False

/-- The entries after a push of `x`: the top stays the top if somebody holds
it, and where it is if somebody points to it. -/
structure Handover.Pushed (phase : Handover T) (queue pushed : VectorHeap (Entry φ))
    (x : Entry φ) : Prop where
  buffer : phase.Points → pushed.buffer = queue.buffer
  entries : pushed.entries.Perm (x :: queue.entries)
  toInvoke : (phase.toInvoke pushed.entries).Perm (x :: phase.toInvoke queue.entries)
  queue : phase.QueueAt queue.entries → x.task.isComplete = false → phase.QueueAt pushed.entries

theorem pushed_held {queue : VectorHeap (Entry φ)} {x : Entry φ} {holder : T}
    (hheld : phase.holder = some holder) (hqueue : phase.QueueAt queue.entries)
    (hkeeps : queue.Keeps Entry.comesAfter x)
    (hroom : queue.entries.length < queue.capacity ∨
      ∀ top ∈ queue.entries.head?, top.task.isComplete = true) :
    phase.Pushed queue (queue.push Entry.comesAfter x) x := by
  have hentries : queue.entries ≠ [] := by
    cases phase with
    | none => cases hheld
    | taken | given | called | done => exact hqueue.1
  obtain ⟨top, rest, htop⟩ := List.exists_cons_of_ne_nil hentries
  have hpush := hkeeps.push htop
  refine ⟨fun hpoints => ?_, queue.push_perm x, ?_, ?_⟩
  · -- a top that somebody points to has not been marked
    refine VectorHeap.push_buffer (hroom.resolve_right fun hmarked => ?_)
    have hcomplete : top.task.isComplete = true := hmarked top (by rw [htop]; rfl)
    cases phase with
    | none | done => exact hpoints
    | taken | given | called =>
        have hfresh := hqueue.2 top (by rw [htop]; exact List.mem_cons_self)
        rw [hcomplete] at hfresh
        cases hfresh
  · rw [hpush, htop]
    cases phase with
    | none | taken | given => exact .swap _ _ _
    | called | done => exact .refl _
  · intro hbefore hfresh
    rw [hpush]
    rw [htop] at hbefore
    cases phase with
    | none => cases hheld
    | taken | given | called =>
        obtain ⟨-, hbefore⟩ := hbefore
        simp only [List.mem_cons, forall_eq_or_imp] at hbefore
        exact ⟨List.cons_ne_nil _ _, by simpa using ⟨hbefore.1, hfresh, hbefore.2⟩⟩
    | done =>
        obtain ⟨-, hbefore⟩ := hbefore
        exact ⟨List.cons_ne_nil _ _, by simpa using ⟨hfresh, hbefore⟩⟩

theorem pushed_free {queue : VectorHeap (Entry φ)} (x : Entry φ) :
    (Handover.none : Handover T).Pushed queue (queue.push Entry.comesAfter x) x where
  buffer hpoints := hpoints.elim
  entries := queue.push_perm x
  toInvoke := queue.push_perm x
  queue := by
    intro hbefore hfresh entry hmem
    rcases List.mem_cons.mp ((queue.push_perm x).mem_iff.mp hmem) with rfl | hold
    · exact hfresh
    · exact hbefore entry hold

/-- A thread that is inside posts a task. -/
theorem HandoverInv.push (h : HandoverInv s phase) {thread : T}
    (hinside : s.threads thread ≠ .outside) {creation : Creation φ} (hinvocable : creation.Invocable)
    (memory : Int) (hpushed : phase.Pushed s.queue
      (s.queue.push Entry.comesAfter ⟨s.posted.length, creation.create memory⟩)
      ⟨s.posted.length, creation.create memory⟩) :
    HandoverInv { s with
      queue := s.queue.push Entry.comesAfter ⟨s.posted.length, creation.create memory⟩
      posted := s.posted ++ [creation] } phase := by
  refine ⟨h.defined, ?_, h.others, ?_, ?_, ?_, ?_, ?_, ?_⟩
  · intro other hmine
    have hholder := h.holder other hmine
    cases phase with
    | none | done => exact hholder
    | taken | given | called =>
        rw [hpushed.buffer trivial]
        exact hholder
  · intro i r hr
    have hrunner := h.runners i r hr
    cases phase with
    | none | taken | done => exact hrunner
    | given | called =>
        rw [hpushed.buffer trivial]
        exact hrunner
  · exact hpushed.queue h.queue (creation.create_isComplete memory)
  · have hnew := (hpushed.toInvoke.map Entry.number).append_left
      (s.invoked.map Invocation.number)
    rw [List.length_append, List.length_singleton, List.range_succ]
    apply hnew.trans
    apply List.perm_middle.trans
    exact (h.once.cons _).trans (List.perm_append_singleton _ _).symm
  · exact fun invocation hmem => (h.own invocation hmem).append creation
  · intro entry hmem
    rcases List.mem_cons.mp (hpushed.entries.mem_iff.mp hmem) with rfl | hold
    · exact ⟨creation, List.getElem?_concat_length, Creation.invoke_create hinvocable memory⟩
    · exact (h.entries entry hold).append creation
  · intro hall
    exact absurd (hall thread) hinside

/-- A thread posts a task. -/
theorem HandoverInv.post [DecidableEq T] (h : HandoverInv s phase) {thread : T}
    (houtside : s.threads thread = .outside) {creation : Creation φ} {memory : Int}
    (hcond : HandsOver s (.post thread creation memory)) :
    HandoverInv ((s.postTask creation memory).goTo thread .testing) phase := by
  obtain ⟨hpool, hinvocable, hkeeps⟩ := hcond
  have hinside : HandoverInv (s.goTo thread .testing) phase := by
    apply h.goToFree _ id (by rintro ⟨⟩)
    rw [houtside]
    exact id
  have hpushed : phase.Pushed s.queue
      (s.queue.push Entry.comesAfter ⟨s.posted.length, creation.create memory⟩)
      ⟨s.posted.length, creation.create memory⟩ := by
    cases hheld : phase.holder with
    | none =>
        cases phase with
        | none => exact pushed_free _
        | taken | given | called | done => cases hheld
    | some holder =>
        obtain ⟨htop, hroom⟩ := hkeeps ⟨holder, (h.holder holder hheld).holds⟩
        exact pushed_held hheld h.queue htop hroom
  rw [ThreadPool.postTask, if_neg (by simpa using hpool)]
  have hat : (s.goTo thread .testing).threads thread ≠ .outside := by
    simp [ThreadPool.goTo]
  exact hinside.push hat hinvocable memory hpushed

/-- A thread at a point where it holds the top is the holder. -/
theorem HandoverInv.held (h : HandoverInv s phase) {thread : T} {program : Dispatching}
    (hprogram : s.threads thread = program) (hholds : program.Holds) :
    phase.holder = some thread ∧ phase.HolderAt s.queue.buffer program := by
  subst hprogram
  have hmine := h.others thread hholds
  exact ⟨hmine, h.holder thread hmine⟩

/-- A thread takes the pointer. -/
theorem HandoverInv.take [DecidableEq T] (h : HandoverInv s phase) {thread : T} {i : Nat}
    (htaking : s.threads thread = .taking i) (next : Nat)
    (hcond : HandsOver s (.dispatch thread next)) :
    HandoverInv (s.goTo thread (.asking i s.queue.buffer)) (.taken thread) := by
  simp only [HandsOver, htaking, ThreadPool.InTurn] at hcond
  obtain ⟨hentries, hfree⟩ := hcond
  obtain rfl : phase = .none := by
    cases phase with
    | none => rfl
    | taken holder | given holder | called holder | done holder =>
        exact absurd (h.holder holder rfl).holds (hfree holder)
  refine ⟨h.defined, ?_, ?_, h.runners, ⟨hentries, h.queue⟩, h.once, h.own, h.entries, ?_⟩
  · rintro other ⟨⟩
    simp [ThreadPool.goTo, Handover.HolderAt, Dispatching.HasTaken]
  · exact holds_update (fun _ => rfl) fun other _ hholds => absurd hholds (hfree other)
  · intro hall
    have hthread := hall thread
    simp [ThreadPool.goTo] at hthread

/-- It gives the pointer to a runner that has not had one. -/
theorem HandoverInv.give [DecidableEq T] (h : HandoverInv s phase) {thread : T} {i t : Nat}
    (hposting : s.threads thread = .posting i t) {r : Runner} (hr : s.runners[i]? = some r)
    (hnew : r.pendingTask = none) :
    HandoverInv ((s.setRunner i { r with pendingTask := some t }).goTo thread (.signalling i))
      (.given thread i) := by
  obtain ⟨hmine, hat⟩ := h.held hposting trivial
  cases phase with
  | none | given | called | done => exact hat.elim
  | taken holder =>
      obtain rfl := Option.some.inj hmine
      obtain rfl : t = s.queue.buffer := hat
      have hrest : r.Rests (s.HasRun i) := h.runners i r hr
      obtain ⟨-, hnever, hbetween⟩ : r.pendingTask = none ∧ ¬ s.HasRun i ∧ r.program.Between := by
        rcases hrest with hrest | ⟨hsome, -⟩
        · exact hrest
        · rw [hnew] at hsome
          cases hsome
      refine ⟨h.defined, ?_, ?_, ?_, h.queue, h.once, h.own, h.entries, ?_⟩
      · rintro other ⟨⟩
        simp [ThreadPool.goTo, Handover.HolderAt, Dispatching.HasGiven]
      · exact holds_update (fun _ => rfl) fun other _ => h.others other
      · apply forall_set
        · exact (if_pos rfl).mpr ⟨rfl, hnever, .inl hbetween⟩
        · intro other hother r' hr'
          exact (if_neg hother).mpr (h.runners other r' hr')
      · intro hall
        have hthread := hall holder
        simp [ThreadPool.goTo] at hthread

/-- A call is one more that its own runner has made. -/
theorem hasRun_call {called : ThreadPool T φ} {i number : Nat} {call : Option (Call φ)}
    (hinvoked : called.invoked = s.invoked ++ [⟨i, number, call⟩]) {other : Nat}
    (hother : i ≠ other) : called.HasRun other ↔ s.HasRun other := by
  unfold ThreadPool.HasRun
  rw [hinvoked]
  simp [hother]

/-- A runner that is about to call is the one that has been given the top. -/
theorem HandoverInv.given_of_invoking (h : HandoverInv s phase) {i : Nat} {r : Runner}
    (hr : s.runners[i]? = some r) (hinvoking : r.program = .invoking) :
    (∃ holder, phase = .given holder i) ∧ r.pendingTask = some s.queue.buffer := by
  rcases (h.runners i r hr).inversion with hrest | ⟨hgiven, hpending, -⟩ | ⟨-, -, -, hprogram⟩
  · rw [Runner.Rests, hinvoking] at hrest
    simp [RunnerAt.Between] at hrest
  · exact ⟨hgiven, hpending⟩
  · rw [hinvoking] at hprogram
    cases hprogram

/-- The runner makes the call. -/
theorem HandoverInv.call {holder : T} {i : Nat} (h : HandoverInv s (.given holder i)) {r : Runner}
    (hpending : r.pendingTask = some s.queue.buffer) {top : Entry φ} {rest : List (Entry φ)}
    (hentries : s.queue.entries = top :: rest) :
    HandoverInv { s.setRunner i { r with program := .completing s.queue.buffer } with
      invoked := s.invoked ++ [⟨i, top.number, top.task.invoke.1⟩] } (.called holder i) := by
  have htop : top ∈ s.queue.entries := by simp [hentries]
  refine ⟨h.defined, h.holder, h.others, ?_, h.queue, ?_, ?_, h.entries, h.empty⟩
  · apply forall_set
    · apply (if_pos rfl).mpr
      exact ⟨by simp [hpending], ⟨_, List.mem_append_right _ (List.mem_singleton_self _), rfl⟩, rfl⟩
    · intro other hother r' hr'
      apply (if_neg hother).mpr
      have hrest : r'.Rests (s.HasRun other) := (if_neg hother).mp (h.runners other r' hr')
      rwa [hasRun_call rfl hother]
  · have honce := h.once
    simp only [ThreadPool.setRunner, Handover.toInvoke, hentries, List.map_cons, List.map_append,
      List.map_nil, List.tail_cons, List.append_assoc, List.singleton_append] at honce ⊢
    exact honce
  · intro invocation hmem
    rcases List.mem_append.mp hmem with hold | hnew
    · exact h.own invocation hold
    · rw [List.mem_singleton.mp hnew]
      exact h.entries top htop

/-- A runner that is about to mark a task is the one that has called it. -/
theorem HandoverInv.called_of_completing (h : HandoverInv s phase) {i t : Nat} {r : Runner}
    (hr : s.runners[i]? = some r) (hcompleting : r.program = .completing t) :
    (∃ holder, phase = .called holder i) ∧ t = s.queue.buffer ∧ r.pendingTask.isSome ∧
      s.HasRun i := by
  rcases (h.runners i r hr).inversion with
    hrest | ⟨-, -, -, hprogram⟩ | ⟨hcalled, hsome, hran, hprogram⟩
  · rw [Runner.Rests, hcompleting] at hrest
    simp [RunnerAt.Between] at hrest
  · rw [hcompleting] at hprogram
    simp [RunnerAt.Between] at hprogram
  · rw [hcompleting] at hprogram
    exact ⟨hcalled, RunnerAt.completing.inj hprogram, hsome, hran⟩

/-- The runner marks the task. -/
theorem HandoverInv.complete {holder : T} {i : Nat} (h : HandoverInv s (.called holder i))
    {r : Runner} (hpending : r.pendingTask.isSome) (hran : s.HasRun i) {top : Entry φ}
    {rest : List (Entry φ)} (hentries : s.queue.entries = top :: rest) :
    HandoverInv { s.setRunner i { r with program := .releasing } with
      queue := s.queue.setTop fun entry =>
        { entry with task := { entry.task with isComplete := true } } } (.done holder i) := by
  have hset : (s.queue.setTop fun entry =>
      { entry with task := { entry.task with isComplete := true } }).entries =
        { top with task := { top.task with isComplete := true } } :: rest := by
    rw [VectorHeap.setTop, hentries]
    rfl
  refine ⟨h.defined, h.holder, h.others, ?_, ?_, ?_, h.own, ?_, ?_⟩
  · apply forall_set
    · exact .inr ⟨hpending, hran, .inr rfl⟩
    · intro other hother r' hr'
      exact (if_neg hother).mp (h.runners other r' hr')
  · obtain ⟨-, hfresh⟩ := h.queue
    rw [hentries] at hfresh
    simp only [hset]
    exact ⟨List.cons_ne_nil _ _, fun entry hmem => hfresh entry (List.mem_cons_of_mem _ hmem)⟩
  · have honce := h.once
    simp only [Handover.toInvoke, hentries, hset, List.tail_cons] at honce ⊢
    exact honce
  · intro entry hmem
    simp only [hset] at hmem
    rcases List.mem_cons.mp hmem with rfl | hold
    · exact h.entries top (by simp [hentries])
    · exact h.entries entry (by simp [hentries, hold])
  · intro hall
    have hempty := h.empty hall
    rw [hentries] at hempty
    cases hempty

/-- The thread pops what has been marked. -/
theorem HandoverInv.pop [DecidableEq T] (h : HandoverInv s phase) {thread : T}
    (hpopping : s.threads thread = .popping) {index : Nat}
    (hcond : HandsOver s (.dispatch thread index)) {popped : ThreadPool T φ}
    (hpop : s.queuePop index = some popped) :
    HandoverInv (popped.goTo thread .testing) .none := by
  simp only [HandsOver, hpopping, ThreadPool.InTurn] at hcond
  obtain ⟨hmine, hat⟩ := h.held hpopping trivial
  have hentries : s.queue.entries ≠ [] := by
    cases phase with
    | none => cases hmine
    | taken | given | called | done => exact h.queue.1
  obtain ⟨top, rest, htop⟩ := List.exists_cons_of_ne_nil hentries
  have hmarked : top.task.isComplete = true := hcond top (by rw [htop]; rfl)
  cases phase with
  | none | taken => exact hat.elim
  | given | called =>
      have hfresh := h.queue.2 top (by rw [htop]; exact List.mem_cons_self)
      rw [hmarked] at hfresh
      cases hfresh
  | done holder i =>
      obtain rfl := Option.some.inj hmine
      rw [ThreadPool.queuePop, if_neg (by simpa using hentries)] at hpop
      obtain ⟨queue, hqueue, rfl⟩ := Option.map_eq_some_iff.mp hpop
      obtain ⟨top', rest', htop', hperm, hbuffer⟩ := VectorHeap.pop_spec hqueue
      obtain ⟨-, rfl⟩ := List.cons.inj (htop.symm.trans htop')
      have hkept : ∀ entry, entry ∈ queue.entries → entry ∈ s.queue.entries := by
        intro entry hmem
        rw [htop]
        exact List.mem_cons_of_mem _ (hperm.mem_iff.mp hmem)
      refine ⟨h.defined, nofun, ?_, h.runners, ?_, ?_, h.own, ?_, ?_⟩
      · apply holds_update
        · intro hholds
          exact hholds.elim
        · intro other hother hholds
          exact absurd (Option.some.inj (h.others other hholds)).symm hother
      · intro entry hmem
        have hfresh := h.queue.2 entry
        rw [htop] at hfresh
        exact hfresh (hperm.mem_iff.mp hmem)
      · have honce := h.once
        rw [Handover.toInvoke, htop] at honce
        exact ((hperm.map Entry.number).append_left _).trans honce
      · exact fun entry hmem => h.entries entry (hkept entry hmem)
      · intro hall
        have hthread := hall holder
        simp [ThreadPool.goTo] at hthread

/-- The thread that holds the top finds it in its slot, not yet complete. -/
theorem HandoverInv.asking (h : HandoverInv s phase) {thread : T} {i t : Nat}
    (hasking : s.threads thread = .asking i t) :
    phase = .taken thread ∧ t = s.queue.buffer ∧
      ∃ top rest, s.queue.entries = top :: rest ∧ top.task.isComplete = false := by
  obtain ⟨hmine, hat⟩ := h.held hasking trivial
  cases phase with
  | none | given | called | done => exact hat.elim
  | taken holder =>
      obtain rfl := Option.some.inj hmine
      obtain ⟨hentries, hfresh⟩ := h.queue
      obtain ⟨top, rest, htop⟩ := List.exists_cons_of_ne_nil hentries
      exact ⟨rfl, hat, top, rest, htop, hfresh top (by simp [htop])⟩

theorem HandoverInv.executeTasks [DecidableEq T] (h : HandoverInv s phase) {thread : T}
    {index : Nat} (hcond : HandsOver s (.dispatch thread index))
    (hstep : s.executeTasks thread index = some next) : ∃ phase', HandoverInv next phase' := by
  unfold ThreadPool.executeTasks at hstep
  split at hstep
  · cases hstep
  · rename_i htesting
    cases hstep
    refine ⟨phase, h.goToFree (by rw [htesting]; exact id) ?_ ?_⟩
    · split <;> exact id
    · split
      · rename_i hempty
        exact fun _ => List.isEmpty_iff.mp hempty
      · rintro ⟨⟩
  · rename_i i hscanning
    have hfree : ¬ (s.threads thread).Holds := by
      rw [hscanning]
      exact id
    split at hstep
    · cases hstep
      exact ⟨phase, h.goToFree hfree id (by rintro ⟨⟩)⟩
    · split at hstep
      · cases hstep
        exact ⟨phase, h.goToFree hfree id (by rintro ⟨⟩)⟩
      · split at hstep <;> cases hstep <;> exact ⟨phase, h.goToFree hfree id (by rintro ⟨⟩)⟩
  · rename_i i htaking
    split at hstep
    · rename_i hempty
      simp only [HandsOver, htaking, ThreadPool.InTurn] at hcond
      exact absurd (List.isEmpty_iff.mp hempty) hcond.1
    · cases hstep
      exact ⟨.taken thread, h.take htaking index hcond⟩
  · rename_i i t hasking
    obtain ⟨rfl, rfl, top, rest, htop, hfresh⟩ := h.asking hasking
    rw [VectorHeap.deref_top htop] at hstep
    simp only [hfresh, Bool.not_false, if_true] at hstep
    cases hstep
    exact ⟨_, h.goTo thread _ (fun _ => rfl) (fun _ => rfl) (by rintro ⟨⟩)⟩
  · rename_i i t hmarking
    obtain ⟨r, hr, rfl⟩ := Option.map_eq_some_iff.mp hstep
    obtain ⟨hmine, hat⟩ := h.held hmarking trivial
    have hused := h.setRunner { r with inUse := true }
      ((h.runners i r hr).move rfl (.inl rfl))
    refine ⟨phase, hused.goTo thread _ (fun _ => ?_) (fun _ => hmine) (by rintro ⟨⟩)⟩
    cases phase with
    | none | given | called | done => exact hat.elim
    | taken => exact hat
  · rename_i i t hposting
    obtain ⟨r, hr, rfl⟩ := Option.map_eq_some_iff.mp hstep
    simp only [HandsOver, hposting, ThreadPool.InTurn] at hcond
    have hnew := hcond r hr
    rw [ThreadPool.resetPendingTask, hnew, if_neg (by simp)]
    exact ⟨_, h.give hposting hr hnew⟩
  · rename_i i hsignalling
    obtain ⟨r, hr, rfl⟩ := Option.map_eq_some_iff.mp hstep
    obtain ⟨hmine, hat⟩ := h.held hsignalling trivial
    have hpopping : phase.HolderAt s.queue.buffer .popping := by
      cases phase with
      | none | taken => exact hat.elim
      | given | called | done => trivial
    unfold ThreadPool.signal
    split
    · rename_i hwaiting
      have hwoken := h.setRunner { r with program := .testing }
        ((h.runners i r hr).move rfl (.inr ⟨.inl (by rw [hwaiting]; trivial), trivial⟩))
      exact ⟨phase, hwoken.goTo thread _ (fun _ => hpopping) (fun _ => hmine) (by rintro ⟨⟩)⟩
    · exact ⟨phase, h.goTo thread _ (fun _ => hpopping) (fun _ => hmine) (by rintro ⟨⟩)⟩
  · rename_i hpopping
    obtain ⟨popped, hpop, rfl⟩ := Option.map_eq_some_iff.mp hstep
    exact ⟨.none, h.pop hpopping hcond hpop⟩

/-- A runner that wakes up with a task it has not run is the one that has been
given the top. -/
theorem HandoverInv.test (h : HandoverInv s phase) {i : Nat} {r : Runner}
    (hr : s.runners[i]? = some r) (htesting : r.program = .testing)
    (hcond : r.pendingTask.isSome → ¬ s.HasRun i) :
    phase.RunnerAt s.queue.buffer i
      { r with program := if r.pendingTask.isSome then .invoking else .entering } (s.HasRun i) := by
  by_cases hpending : r.pendingTask.isSome
  · have hnever := hcond hpending
    rw [if_pos hpending]
    rcases (h.runners i r hr).inversion with
      (⟨hnone, -⟩ | ⟨-, hran, -⟩) | ⟨⟨holder, rfl⟩, hbuffer, -⟩ | ⟨-, -, hran, -⟩
    · rw [hnone] at hpending
      cases hpending
    · exact absurd hran hnever
    · exact (if_pos rfl).mpr ⟨hbuffer, hnever, .inr rfl⟩
    · exact absurd hran hnever
  · rw [if_neg hpending]
    exact (h.runners i r hr).move rfl (.inr ⟨.inl (by rw [htesting]; trivial), trivial⟩)

theorem HandoverInv.top (h : HandoverInv s phase) (hheld : phase.holder ≠ none) :
    ∃ top rest, s.queue.entries = top :: rest := by
  apply List.exists_cons_of_ne_nil
  cases phase with
  | none => exact absurd rfl hheld
  | taken | given | called | done => exact h.queue.1

theorem HandoverInv.startTaskRunner (h : HandoverInv s phase) {i : Nat}
    (hcond : HandsOver s (.run i)) (hstep : s.startTaskRunner i = some next) :
    ∃ phase', HandoverInv next phase' := by
  unfold ThreadPool.startTaskRunner at hstep
  split at hstep
  · cases hstep
  · rename_i r hr
    split at hstep
    · rename_i htesting
      cases hstep
      refine ⟨phase, h.setRunner _ (h.test hr htesting ?_)⟩
      rintro hpending ⟨invocation, hmem, hrunner⟩
      exact hcond r hr htesting hpending invocation hmem hrunner
    · rename_i hinvoking
      obtain ⟨⟨holder, rfl⟩, hpending⟩ := h.given_of_invoking hr hinvoking
      obtain ⟨top, rest, htop⟩ := h.top nofun
      simp only [hpending, VectorHeap.deref_top htop] at hstep
      cases hstep
      have hcall := h.call hpending htop
      rw [hpending] at hcall
      exact ⟨.called holder i, hcall⟩
    · rename_i t hcompleting
      obtain ⟨⟨holder, rfl⟩, rfl, hpending, hran⟩ := h.called_of_completing hr hcompleting
      obtain ⟨top, rest, htop⟩ := h.top nofun
      simp only [VectorHeap.deref_top htop] at hstep
      cases hstep
      exact ⟨.done holder i, h.complete hpending hran htop⟩
    · rename_i hreleasing
      cases hstep
      exact ⟨phase, h.setRunner _ ((h.runners i r hr).move rfl (.inr ⟨.inr hreleasing, trivial⟩))⟩
    · rename_i hentering
      cases hstep
      have hbetween : r.program.Between := by
        rw [hentering]
        trivial
      exact ⟨phase, h.setRunner _ ((h.runners i r hr).move rfl (.inr ⟨.inl hbetween, trivial⟩))⟩
    · cases hstep

theorem HandoverInv.step [DecidableEq T] (h : HandoverInv s phase) {e : PoolEvent T φ}
    (hcond : HandsOver s e) (hstep : s.step e = some next) : ∃ phase', HandoverInv next phase' := by
  simp only [ThreadPool.step, h.defined, Bool.false_eq_true, if_false] at hstep
  cases e with
  | post thread creation memory =>
      simp only at hstep
      split at hstep
      · rename_i houtside
        cases hstep
        exact ⟨phase, h.post houtside hcond⟩
      · cases hstep
  | dispatch thread index => exact h.executeTasks hcond hstep
  | run i => exact h.startTaskRunner hcond hstep
  | wakeUp i =>
      simp only at hstep
      split at hstep
      · cases hstep
      · rename_i r hr
        split at hstep
        · rename_i hwaiting
          cases hstep
          have hbetween : r.program.Between := by
            rw [hwaiting]
            trivial
          exact ⟨phase, h.setRunner _ ((h.runners i r hr).move rfl (.inr ⟨.inl hbetween, trivial⟩))⟩
        · cases hstep

theorem handoverInv_start (hardwareConcurrency : Nat) (threadPoolSize : Int) :
    HandoverInv (ThreadPool.start hardwareConcurrency threadPoolSize : ThreadPool T φ) .none := by
  refine ⟨rfl, ?_, ?_, ?_, ?_, .refl _, ?_, ?_, fun _ => rfl⟩
  · rintro thread ⟨⟩
  · intro thread hholds
    exact hholds.elim
  · intro i r hr
    obtain rfl := List.eq_of_mem_replicate (List.mem_of_getElem? hr)
    refine .inl ⟨rfl, ?_, trivial⟩
    rintro ⟨invocation, hmem, -⟩
    cases hmem
  · intro entry hmem
    cases hmem
  · intro invocation hmem
    cases hmem
  · intro entry hmem
    cases hmem

/-- Over every run with any number of threads, for every size of the pool: as
long as the schedule hands over one task at a time, no task is lost, replaced
or run twice. -/
theorem pool_invokes_each_once [DecidableEq T] (hardwareConcurrency : Nat) (threadPoolSize : Int)
    (es : List (PoolEvent T φ)) (s : ThreadPool T φ)
    (hmeet : StepsMeet ThreadPool.step HandsOver (.start hardwareConcurrency threadPoolSize) es)
    (hrun : exec ThreadPool.step (.start hardwareConcurrency threadPoolSize) es = some s) :
    InvokesEachOnce s := by
  have hkeep : ∀ (here : ThreadPool T φ) (e : PoolEvent T φ) next,
      (∃ phase, HandoverInv here phase) → HandsOver here e → here.step e = some next →
        ∃ phase, HandoverInv next phase := by
    rintro here e next ⟨phase, h⟩ hcond hstep
    exact h.step hcond hstep
  obtain ⟨phase, hinv⟩ := exec_invariant_of_stepsMeet hkeep
    ⟨.none, handoverInv_start hardwareConcurrency threadPoolSize⟩ hmeet hrun
  exact hinv.sound

/-- Two threads post a task each to a pool of two. The second runner wakes up
for nothing first, and the first keeps its flag until the second task has been
handed out. -/
def oneForEach : List (PoolEvent Bool Nat) := List.flatten [
  [.run 1, .run 1, .wakeUp 1, .run 1, .run 1, .post false (.methodNoReturn 5 1 7 .LOW) 0],
  .replicate 6 (.dispatch false 0), .replicate 3 (.run 0), .replicate 2 (.dispatch false 0),
  [.post true (.methodNothing 6 2 .HIGH) 0],
  .replicate 8 (.dispatch true 0), .replicate 3 (.run 1), .replicate 2 (.dispatch true 0),
  [.dispatch false 0, .run 0, .run 0, .run 1, .run 1]]

theorem pool_invokes_each_once_two :
    ∃ s : ThreadPool Bool Nat, s.Settled ∧
      s.invoked = [⟨0, 0, some ⟨5, some 1, some 7⟩⟩, ⟨1, 1, some ⟨6, some 2, none⟩⟩] ∧
      InvokesEachOnce s := by
  have hmeet : StepsMeet ThreadPool.step HandsOver (.start 2 2) oneForEach := by decide +kernel
  have hrun : ∃ s ∈ exec ThreadPool.step (.start 2 2) oneForEach, s.Settled ∧
      s.invoked = [⟨0, 0, some ⟨5, some 1, some 7⟩⟩, ⟨1, 1, some ⟨6, some 2, none⟩⟩] := by
    decide +kernel
  obtain ⟨s, hexec, hsettled, hinvoked⟩ := hrun
  exact ⟨s, hsettled, hinvoked, pool_invokes_each_once 2 2 oneForEach s hmeet hexec⟩

/-- The only runner finds its task before it is signalled, and the signal makes
it run the task again. -/
theorem signal_repeats_task :
    ¬ ∀ (es : List (PoolEvent Unit Nat)) (s : ThreadPool Unit Nat),
      exec ThreadPool.step (.start 1 1) es = some s → InvokesEachOnce s := by
  intro hall
  have hrun : ∃ s ∈ exec ThreadPool.step (.start 1 1)
      (List.flatten [[.post () (.methodNothing 5 1 .LOW) 0], .replicate 6 (.dispatch () 0),
        .replicate 5 (.run 0), [.dispatch () 0, .run 0, .run 0]]),
      (s : ThreadPool Unit Nat).invoked.map Invocation.number = [0, 0] := by
    decide +kernel
  obtain ⟨s, hexec, hinvoked⟩ := hrun
  have honce := (hall _ s hexec).once
  rw [hinvoked] at honce
  exact absurd honce (by decide)

end GitRpc.TaskManager
