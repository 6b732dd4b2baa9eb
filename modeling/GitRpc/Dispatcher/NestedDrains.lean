import GitRpc.Library.Drains
import GitRpc.Dispatcher.NestedPosts

/-!
When nested posts go well. A drain comes to its end when the locks that its
posts need are free; if no chain of posts leads from a pump back to it, the
locks can be freed in an order in which this is so, and no queue is left with
a task that cannot be run any more. A task that posts to the pump that runs it
can make the pump's thread wait for itself.
-/

namespace GitRpc.Dispatcher.NestedPosts

open Library.Runs Library.Drains

open Function (update)

variable {P T K : Type*} [DecidableEq P] [DecidableEq T] {prog : Program P K}

/-- The posts of some actions of `thread` have gone through, and `rest` is
left of its code. -/
def State.deliver (s : State P T K) (thread : Thread P T) (rest : List (Action K))
    (extra : P → List K) : State P T K :=
  { s with
    todo := update s.todo thread rest
    taskQueue := fun q => s.taskQueue q ++ extra q }

/-- Some run gets to a thread that waits for itself. -/
def State.GetsStuck (prog : Program P K) (s : State P T K) : Prop :=
  ∃ es stuck, exec (State.step prog) s es = some stuck ∧ stuck.SelfWait

theorem State.GetsStuck.after {s next : State P T K} {es : List (Event P T)}
    (hrun : exec (State.step prog) s es = some next) (hstuck : next.GetsStuck prog) :
    s.GetsStuck prog := by
  obtain ⟨more, stuck, hmore, hwait⟩ := hstuck
  exact ⟨es ++ more, stuck, exec_append_some hrun hmore, hwait⟩

/-- A thread can perform the actions at once when the locks that they need are
free. If it holds one of them, it gets stuck there. -/
def Performs (T : Type*) [DecidableEq T] (prog : Program P K) (actions : List (Action K)) : Prop :=
  ∀ (s : State P T K) (thread : Thread P T) (rest : List (Action K)),
    s.todo thread = actions ++ rest → s.posting thread = .no →
    (∀ action ∈ actions, ∀ q task, prog.Posts action q task →
      s.queueGuard q = none ∨ s.queueGuard q = some thread) →
    s.GetsStuck prog ∨
      ∃ es extra, exec (State.step prog) s es = some (s.deliver thread rest extra) ∧
        ∀ q task, (task ∈ extra q ↔ ∃ action ∈ actions, prog.Posts action q task) ∧
          (task ∈ extra q → s.queueGuard q = none)

theorem performs_nil : Performs T prog ([] : List (Action K)) := by
  intro s thread rest htodo _ _
  have hsame : s.deliver thread rest (fun _ => []) = s := by
    have hrest : s.todo thread = rest := htodo
    simp [State.deliver, ← hrest]
  exact .inr ⟨[], fun _ => [], by rw [hsame]; rfl, by simp⟩

theorem performs_cons {action : Action K} {actions : List (Action K)}
    (hfirst : Performs T prog [action]) (hothers : Performs T prog actions) :
    Performs T prog (action :: actions) := by
  intro s thread rest htodo hno hguards
  have hguardsFirst : ∀ a ∈ [action], ∀ q task, prog.Posts a q task →
      s.queueGuard q = none ∨ s.queueGuard q = some thread := by
    intro a ha
    exact hguards a (by simp_all)
  rcases hfirst s thread (actions ++ rest) htodo hno hguardsFirst with
    hstuck | ⟨es, extra, hrun, hextra⟩
  · exact .inl hstuck
  have hguardsOthers : ∀ a ∈ actions, ∀ q task, prog.Posts a q task →
      s.queueGuard q = none ∨ s.queueGuard q = some thread := by
    intro a ha
    exact hguards a (List.mem_cons_of_mem action ha)
  rcases hothers (s.deliver thread (actions ++ rest) extra) thread rest (by simp [State.deliver])
      hno hguardsOthers with hstuck | ⟨more, extra', hmore, hextra'⟩
  · exact .inl (hstuck.after hrun)
  refine .inr ⟨es ++ more, fun q => extra q ++ extra' q, ?_, ?_⟩
  · rw [exec_append_some hrun hmore]
    simp [State.deliver]
  · intro q task
    obtain ⟨hmem, hfree⟩ := hextra q task
    obtain ⟨hmem', hfree'⟩ := hextra' q task
    refine ⟨by simp [hmem, hmem', or_and_right, exists_or], ?_⟩
    intro htask
    rcases List.mem_append.mp htask with hhere | hlater
    · exact hfree hhere
    · exact hfree' hlater

theorem performs_of_each {actions : List (Action K)}
    (heach : ∀ action ∈ actions, Performs T prog [action]) : Performs T prog actions := by
  induction actions with
  | nil => exact performs_nil
  | cons action rest ih =>
      apply performs_cons (heach action (by simp))
      apply ih
      intro other hother
      exact heach other (List.mem_cons_of_mem action hother)

theorem step_postTask {s : State P T K} {thread : Thread P T} {receiver : String} {task : K}
    {rest : List (Action K)} (htodo : s.todo thread = .postTask receiver task :: rest)
    (hno : s.posting thread = .no) :
    s.step prog (.act thread) =
      some (s.perform prog thread (.postTask receiver task) rest) := by
  simp [State.step, hno, htodo]

/-- A whole post, when nobody holds the lock. -/
theorem exec_postTask {s : State P T K} {thread : Thread P T} {receiver : String} {task : K}
    {rest : List (Action K)} {q : P} (htodo : s.todo thread = .postTask receiver task :: rest)
    (hno : s.posting thread = .no) (hpump : prog.pumpOf receiver = some q)
    (hfree : s.queueGuard q = none) :
    exec (State.step prog) s [.act thread, .lockToPost thread, .push thread] =
      some (s.deliver thread rest fun q' => if q' = q then [task] else []) := by
  have hqueue : update s.taskQueue q (s.taskQueue q ++ [task]) =
      fun q' => s.taskQueue q' ++ if q' = q then [task] else [] := by
    funext q'
    rcases eq_or_ne q' q with rfl | hne
    · simp
    · simp [hne]
  have hposting : update s.posting thread .no = s.posting := by
    rw [← hno, Function.update_eq_self]
  have hguard : update s.queueGuard q none = s.queueGuard := by
    rw [← hfree, Function.update_eq_self]
  rw [exec_cons, step_postTask htodo hno]
  simp [State.perform, hpump, State.step, hfree, State.deliver, hqueue, hposting, hguard]

theorem performs_postTask (receiver : String) (task : K) :
    Performs T prog [.postTask receiver task] := by
  intro s thread rest htodo hno hguards
  have hact := (step_postTask htodo hno : s.step prog _ = _)
  cases hpump : prog.pumpOf receiver with
  | none =>
      refine .inr ⟨[.act thread], fun _ => [], ?_, ?_⟩
      · simp [hact, State.perform, hpump, State.deliver]
      · intro q other
        refine ⟨⟨by simp, ?_⟩, by simp⟩
        rintro ⟨action, haction, hposts⟩
        rw [List.mem_singleton.mp haction] at hposts
        cases hposts with
        | task hsome =>
            rw [hpump] at hsome
            cases hsome
  | some q =>
      rcases hguards _ (List.mem_singleton.mpr rfl) q task (.task hpump) with hfree | hheld
      · refine .inr ⟨[.act thread, .lockToPost thread, .push thread],
          fun q' => if q' = q then [task] else [], ?_, ?_⟩
        · exact exec_postTask htodo hno hpump hfree
        · intro q' other
          constructor
          · constructor
            · intro hmem
              refine ⟨_, List.mem_singleton.mpr rfl, ?_⟩
              rcases eq_or_ne q' q with rfl | hne
              · obtain rfl : other = task := by simpa using hmem
                exact .task hpump
              · simp [hne] at hmem
            · rintro ⟨action, haction, hposts⟩
              rw [List.mem_singleton.mp haction] at hposts
              cases hposts with
              | task hsome =>
                  rw [hpump, Option.some.injEq] at hsome
                  simp [hsome]
          · intro hmem
            rcases eq_or_ne q' q with rfl | hne
            · exact hfree
            · simp [hne] at hmem
      · refine .inl ⟨[.act thread], _, by rw [exec_singleton hact], thread, q, task, ?_, ?_⟩
        · simp [State.perform, hpump, hheld]
        · simp [State.perform, hpump]

theorem performs_singleton (action : Action K) : Performs T prog [action] := by
  induction action using prog.action_induction with
  | postTask receiver task => exact performs_postTask receiver task
  | triggerEvent name ih =>
      intro s thread rest htodo hno hguards
      have hact : exec (State.step prog) s [.act thread] =
          some { s with todo := update s.todo thread (prog.handle name ++ rest) } := by
        simp [State.step, hno, htodo, State.perform]
      have hguardsHere : ∀ action ∈ prog.handle name, ∀ q task, prog.Posts action q task →
          s.queueGuard q = none ∨ s.queueGuard q = some thread := by
        intro action haction q task hposts
        exact hguards _ (List.mem_singleton.mpr rfl) q task (.event haction hposts)
      rcases performs_of_each ih { s with todo := update s.todo thread (prog.handle name ++ rest) }
          thread rest (by simp) hno hguardsHere with hstuck | ⟨es, extra, hrun, hextra⟩
      · exact .inl (hstuck.after hact)
      · refine .inr ⟨[.act thread] ++ es, extra, ?_, ?_⟩
        · rw [exec_append_some hact hrun]
          simp [State.deliver]
        · intro q task
          obtain ⟨hmem, hfree⟩ := hextra q task
          exact ⟨by simp [hmem, Program.posts_triggerEvent], hfree⟩

theorem performs (actions : List (Action K)) : Performs T prog actions :=
  performs_of_each fun action _ => performs_singleton action

/-- Pump `p` drains its queue, and nobody holds the locks that this needs. -/
structure Draining (prog : Program P K) (p : P) (s : State P T K) : Prop where
  loop : s.loop p = .draining
  queueGuard : s.queueGuard p = some (.pump p)
  posting : s.posting (.pump p) = .no
  todo : ∀ action ∈ s.todo (.pump p), ∀ q task, prog.Posts action q task →
    s.queueGuard q = none ∨ s.queueGuard q = some (.pump p)
  queue : ∀ running ∈ s.taskQueue p, ∀ action ∈ prog.body running, ∀ q task,
    prog.Posts action q task → s.queueGuard q = none ∨ s.queueGuard q = some (.pump p)

/-- The drain of pump `p` is over, and what it had to post has been posted. -/
structure Drained (prog : Program P K) (p : P) (s done : State P T K) : Prop where
  loop : done.loop = update s.loop p .waiting
  todo : done.todo = update s.todo (.pump p) []
  posting : done.posting = s.posting
  queueGuard : done.queueGuard = update s.queueGuard p none
  empty : done.taskQueue p = []
  kept : ∀ q ≠ p, ∀ task ∈ s.taskQueue q, task ∈ done.taskQueue q
  finished : ∀ action ∈ s.todo (.pump p), ∀ q task, prog.Posts action q task →
    task ∈ done.taskQueue q
  served : ∀ running ∈ s.taskQueue p, ∀ action ∈ prog.body running, ∀ q task,
    prog.Posts action q task → task ∈ done.taskQueue q

/-- The task that runs comes to its end. Nothing has been posted to `p`. -/
theorem Draining.finish_task {p : P} {s : State P T K} (h : Draining prog p s) :
    s.GetsStuck prog ∨ ∃ es extra,
      exec (State.step prog) s es = some (s.deliver (.pump p) [] extra) ∧ extra p = [] ∧
        ∀ action ∈ s.todo (.pump p), ∀ q task, prog.Posts action q task →
          task ∈ extra q ∧ q ≠ p := by
  rcases performs (s.todo (.pump p)) s (.pump p) [] (by simp) h.posting h.todo with
    hstuck | ⟨es, extra, hrun, hextra⟩
  · exact .inl hstuck
  have hnever : ∀ task, task ∉ extra p := by
    intro task htask
    have hfree := (hextra p task).2 htask
    rw [h.queueGuard] at hfree
    cases hfree
  refine .inr ⟨es, extra, hrun, List.eq_nil_iff_forall_not_mem.mpr hnever, ?_⟩
  intro action haction q task hposts
  have hmem : task ∈ extra q := (hextra q task).1.mpr ⟨action, haction, hposts⟩
  refine ⟨hmem, ?_⟩
  rintro rfl
  exact hnever task hmem

theorem step_unlock {p : P} {s : State P T K} (hloop : s.loop p = .draining)
    (htodo : s.todo (.pump p) = []) (hno : s.posting (.pump p) = .no)
    (hempty : s.taskQueue p = []) :
    s.step prog (.unlock p) = some { s with
      loop := update s.loop p .waiting
      queueGuard := update s.queueGuard p none } := by
  simp [State.step, hloop, htodo, hno, hempty]

theorem step_pop {p : P} {s : State P T K} {place : Nat} {task : K}
    (hloop : s.loop p = .draining) (htodo : s.todo (.pump p) = [])
    (hno : s.posting (.pump p) = .no) (htask : (s.taskQueue p)[place]? = some task)
    (hfirst : ∀ other ∈ s.taskQueue p, prog.taskPriority task ≤ prog.taskPriority other) :
    s.step prog (.pop p place) = some { s with
      taskQueue := update s.taskQueue p ((s.taskQueue p).eraseIdx place)
      todo := update s.todo (.pump p) (prog.body task) } := by
  simp only [State.step, hloop, htodo, hno, htask]
  exact if_pos hfirst

/-- Between two tasks, the next one is popped. -/
theorem Draining.pop {p : P} {s : State P T K} (h : Draining prog p s)
    (htodo : s.todo (.pump p) = []) (hsome : s.taskQueue p ≠ []) :
    ∃ place running, (s.taskQueue p)[place]? = some running ∧
      ∃ popped, s.step prog (.pop p place) = some popped ∧ Draining prog p popped ∧
        popped = { s with
          taskQueue := update s.taskQueue p ((s.taskQueue p).eraseIdx place)
          todo := update s.todo (.pump p) (prog.body running) } := by
  obtain ⟨place, running, hplace, hfirst⟩ := exists_first prog.taskPriority hsome
  refine ⟨place, running, hplace, _, step_pop h.loop htodo h.posting hplace hfirst, ?_, rfl⟩
  constructor
  case loop => exact h.loop
  case queueGuard => exact h.queueGuard
  case posting => exact h.posting
  case todo =>
    simp only [Function.update_self]
    exact h.queue running (List.mem_of_getElem? hplace)
  case queue =>
    simp only [Function.update_self]
    intro other hother
    exact h.queue other (List.mem_of_mem_eraseIdx hother)

theorem Draining.deliver {p : P} {s : State P T K} (h : Draining prog p s) {extra : P → List K}
    (hextra : extra p = []) : Draining prog p (s.deliver (.pump p) [] extra) := by
  constructor
  case loop => exact h.loop
  case queueGuard => exact h.queueGuard
  case posting => exact h.posting
  case todo => simp [State.deliver]
  case queue =>
    simp only [State.deliver, hextra, List.append_nil]
    exact h.queue

/-- A drain runs all the tasks of the queue, unless it waits for itself. -/
theorem Draining.drain {p : P} {s : State P T K} (h : Draining prog p s) :
    s.GetsStuck prog ∨
      ∃ es done, exec (State.step prog) s es = some done ∧ Drained prog p s done := by
  induction hlength : (s.taskQueue p).length using Nat.strong_induction_on generalizing s with
  | _ length ih =>
      rcases h.finish_task with hstuck | ⟨es, extra, hrun, hextra, hposted⟩
      · exact .inl hstuck
      have hqueue : (s.deliver (.pump p) [] extra).taskQueue p = s.taskQueue p := by
        simp [State.deliver, hextra]
      have htodo : (s.deliver (.pump p) [] extra).todo (.pump p) = [] := by
        simp [State.deliver]
      rcases eq_or_ne (s.taskQueue p) [] with hempty | hsome
      · have hunlock : (s.deliver (.pump p) [] extra).step prog (.unlock p) = _ :=
          step_unlock h.loop htodo h.posting (hqueue.trans hempty)
        refine .inr ⟨es ++ [.unlock p], _, exec_append_some hrun (exec_singleton hunlock), ?_⟩
        constructor
        case empty => exact hqueue.trans hempty
        case kept =>
          intro q _ task htask
          exact List.mem_append_left (extra q) htask
        case finished =>
          intro action haction q task hposts
          exact List.mem_append_right (s.taskQueue q) (hposted action haction q task hposts).1
        case served =>
          intro running hrunning
          simp [hempty] at hrunning
        all_goals rfl
      · obtain ⟨place, running, hplace, popped, hpop, hnext, hpopped⟩ :=
          (h.deliver hextra).pop htodo (by rwa [hqueue])
        rw [hqueue] at hplace
        have hcode : popped.todo (.pump p) = prog.body running := by simp [hpopped]
        have hleft : popped.taskQueue p = (s.taskQueue p).eraseIdx place := by
          simp [hpopped, hqueue]
        have hothers : ∀ q ≠ p, popped.taskQueue q = s.taskQueue q ++ extra q := by
          intro q hne
          simp [hpopped, hne, State.deliver]
        have hlt : (popped.taskQueue p).length < length := by
          rw [hleft, ← hlength]
          exact length_eraseIdx_lt hplace
        have hrun' : exec (State.step prog) s (es ++ [.pop p place]) = some popped :=
          exec_append_some hrun (exec_singleton hpop)
        rcases ih _ hlt hnext rfl with hstuck | ⟨more, done, hmore, hdone⟩
        · exact .inl (hstuck.after hrun')
        refine .inr ⟨es ++ [.pop p place] ++ more, done, exec_append_some hrun' hmore, ?_⟩
        constructor
        case loop => simp [hdone.loop, hpopped, State.deliver]
        case todo => simp [hdone.todo, hpopped, State.deliver]
        case posting => simp [hdone.posting, hpopped, State.deliver]
        case queueGuard => simp [hdone.queueGuard, hpopped, State.deliver]
        case empty => exact hdone.empty
        case kept =>
          intro q hne task htask
          apply hdone.kept q hne
          rw [hothers q hne]
          exact List.mem_append_left (extra q) htask
        case finished =>
          intro action haction q task hposts
          obtain ⟨hposted, hne⟩ := hposted action haction q task hposts
          apply hdone.kept q hne
          rw [hothers q hne]
          exact List.mem_append_right (s.taskQueue q) hposted
        case served =>
          intro other hother action haction q task hposts
          rcases eq_or_ne other running with rfl | hne
          · exact hdone.finished action (by rwa [hcode]) q task hposts
          · apply hdone.served other ?_ action haction q task hposts
            rw [hleft]
            exact mem_eraseIdx_of_ne hplace hother hne

/-- All pumps sleep, and nobody is about to post. -/
structure Quiet (s : State P T K) : Prop where
  loop : ∀ p, s.loop p = .waiting
  todo : ∀ p, s.todo (.pump p) = []
  posting : ∀ thread, s.posting thread = .no
  queueGuard : ∀ p, s.queueGuard p = none

/-- One whole turn of a pump's loop, while all the others sleep. -/
theorem Quiet.serve {s : State P T K} (h : Quiet s) (p : P) :
    s.GetsStuck prog ∨ ∃ es done, exec (State.step prog) s es = some done ∧ Quiet done ∧
      done.taskQueue p = [] ∧
      ∀ running ∈ s.taskQueue p, ∀ action ∈ prog.body running, ∀ q task,
        prog.Posts action q task → task ∈ done.taskQueue q := by
  obtain ⟨locked, hlocked⟩ : ∃ locked, locked = { s with
      loop := update s.loop p .draining
      queueGuard := update s.queueGuard p (some (.pump p)) } := ⟨_, rfl⟩
  have hrun : exec (State.step prog) s [.wake p, .lock p] = some locked := by
    simp [State.step, h.loop p, h.queueGuard p, hlocked]
  have hothers : ∀ q, locked.queueGuard q = none ∨ locked.queueGuard q = some (.pump p) := by
    intro q
    rcases eq_or_ne q p with rfl | hne
    · exact .inr (by simp [hlocked])
    · exact .inl (by simp [hlocked, hne, h.queueGuard q])
  have hdraining : Draining prog p locked := by
    constructor
    case todo => exact fun _ _ q _ _ => hothers q
    case queue => exact fun _ _ _ _ q _ _ => hothers q
    all_goals simp [hlocked, h.posting]
  rcases hdraining.drain with hstuck | ⟨es, done, hes, hdone⟩
  · exact .inl (hstuck.after hrun)
  refine .inr ⟨[.wake p, .lock p] ++ es, done, exec_append_some hrun hes, ?_, hdone.empty, ?_⟩
  · constructor
    · intro q
      rcases eq_or_ne q p with rfl | hne
      · simp [hdone.loop]
      · simp [hdone.loop, hlocked, hne, h.loop q]
    · intro q
      rcases eq_or_ne q p with rfl | hne
      · simp [hdone.todo]
      · simp [hdone.todo, hlocked, hne, h.todo q]
    · simp [hdone.posting, hlocked, h.posting]
    · intro q
      rcases eq_or_ne q p with rfl | hne
      · simp [hdone.queueGuard]
      · simp [hdone.queueGuard, hlocked, hne, h.queueGuard q]
  · rw [hlocked] at hdone
    exact hdone.served

section Runs

variable {posters : T → List (Action K)}

/-- Whatever a pump may be given can be brought to its queue, by turns of one
pump at a time. -/
theorem Gets.delivered {p : P} {task : K} (hgets : Gets prog posters p task) :
    (State.start posters : State P T K).GetsStuck prog ∨
      ∃ es s, exec (State.step prog) (State.start posters) es = some s ∧ Quiet s ∧
        task ∈ s.taskQueue p := by
  induction hgets with
  | @outside t action q task haction hposts =>
      rcases performs (posters t) (State.start posters : State P T K) (.poster t) []
          (by simp [State.start]) rfl (fun _ _ _ _ _ => .inl rfl) with
        hstuck | ⟨es, extra, hrun, hextra⟩
      · exact .inl hstuck
      refine .inr ⟨es, _, hrun, ⟨fun _ => rfl, ?_, fun _ => rfl, fun _ => rfl⟩, ?_⟩
      · simp [State.deliver, State.start]
      · exact List.mem_append_right _ ((hextra q task).1.mpr ⟨action, haction, hposts⟩)
  | @inside p running action q task _ haction hposts ih =>
      rcases ih with hstuck | ⟨es, s, hrun, hquiet, hmem⟩
      · exact .inl hstuck
      rcases hquiet.serve p with hstuck | ⟨more, done, hmore, hdone, -, hserved⟩
      · exact .inl (hstuck.after hrun)
      exact .inr ⟨es ++ more, done, exec_append_some hrun hmore, hdone,
        hserved running hmem action haction q task hposts⟩

/-- A task that posts to its own pump makes the pump wait for itself. -/
theorem PostsTo.getsStuck {p : P} (hself : PostsTo prog posters p p) :
    (State.start posters : State P T K).GetsStuck prog := by
  obtain ⟨task, running, hgets, action, haction, hposts⟩ := hself
  rcases hgets.delivered with hstuck | ⟨es, s, hrun, hquiet, hmem⟩
  · exact hstuck
  rcases hquiet.serve p with hstuck | ⟨more, done, hmore, -, hempty, hserved⟩
  · exact hstuck.after hrun
  · have htask := hserved running hmem action haction p task hposts
    simp [hempty] at htask

/-- Exactly the tasks that post to their own pump make a thread wait for
itself. -/
theorem never_selfWait_iff :
    (∀ s, Reachable (State.step prog) (State.start posters : State P T K) s → ¬ s.SelfWait) ↔
      ∀ p, ¬ PostsTo prog posters p p := by
  constructor
  · intro hnever p hself
    obtain ⟨es, stuck, hrun, hwait⟩ := hself.getsStuck
    exact hnever stuck ⟨es, hrun⟩ hwait
  · intro hnone s hreach hwait
    obtain ⟨p, hself⟩ := (inv_reachable (inv_start prog posters) hreach).postsTo_of_selfWait hwait
    exact hnone p hself

/-- The lock of `p` can be had, and no other lock is taken for it. -/
def CanFree (prog : Program P K) (posters : T → List (Action K)) (p : P) : Prop :=
  ∀ s : State P T K, Inv prog posters s →
    ∃ es free, exec (State.step prog) s es = some free ∧ free.queueGuard p = none ∧
      ∀ q, s.queueGuard q = none → free.queueGuard q = none

theorem exec_inv {s next : State P T K} {es : List (Event P T)} (h : Inv prog posters s)
    (hrun : exec (State.step prog) s es = some next) : Inv prog posters next :=
  exec_invariant (inv_step prog posters) h hrun

/-- Locks that can be freed one by one can be freed together. -/
theorem canFree_all {pumps : List P} (hpumps : ∀ p ∈ pumps, CanFree prog posters p)
    {s : State P T K} (h : Inv prog posters s) :
    ∃ es free, exec (State.step prog) s es = some free ∧ (∀ p ∈ pumps, free.queueGuard p = none) ∧
      ∀ q, s.queueGuard q = none → free.queueGuard q = none := by
  induction pumps generalizing s with
  | nil => exact ⟨[], s, rfl, by simp, fun _ hfree => hfree⟩
  | cons p rest ih =>
      obtain ⟨es, middle, hrun, hp, hkept⟩ := hpumps p (by simp) s h
      obtain ⟨more, free, hmore, hrest, hkept'⟩ :=
        ih (fun q hq => hpumps q (List.mem_cons_of_mem p hq)) (exec_inv h hrun)
      refine ⟨es ++ more, free, exec_append_some hrun hmore, ?_, fun q hq => hkept' q (hkept q hq)⟩
      intro q hq
      rcases List.mem_cons.mp hq with rfl | hlater
      · exact hkept' q hp
      · exact hrest q hlater

/-- A thread that has a lock for a post gives it back with its next step. -/
theorem step_push {s : State P T K} {thread : Thread P T} {q : P} {task : K}
    (hpushing : s.posting thread = .pushing q task) :
    s.step prog (.push thread) = some { s with
      posting := update s.posting thread .no
      queueGuard := update s.queueGuard q none
      taskQueue := update s.taskQueue q (s.taskQueue q ++ [task]) } := by
  simp [State.step, hpushing]

omit [DecidableEq T] in
theorem update_none_of_none {guards : P → Option (Thread P T)} {p q : P}
    (hfree : guards q = none) : update guards p none q = none := by
  rcases eq_or_ne q p with rfl | hne
  · simp
  · rw [Function.update_of_ne hne, hfree]

variable (hacyclic : ∀ p, ¬ Relation.TransGen (PostsTo prog posters) p p)

include hacyclic in
theorem not_getsStuck {s : State P T K} (h : Inv prog posters s) : ¬ s.GetsStuck prog := by
  rintro ⟨es, stuck, hrun, hwait⟩
  obtain ⟨p, hself⟩ := (exec_inv h hrun).postsTo_of_selfWait hwait
  exact hacyclic p (.single hself)

/-- Nobody holds a lock that a task of pump `p` may need. -/
def BelowFree (prog : Program P K) (posters : T → List (Action K)) (p : P) (s : State P T K) : Prop :=
  ∀ q, PostsTo prog posters p q → s.queueGuard q = none

/-- The post that a draining pump is at can be finished. -/
theorem Inv.finish_post {s : State P T K} (h : Inv prog posters s) {p : P}
    (hbelow : BelowFree prog posters p s) :
    ∃ es next, exec (State.step prog) s es = some next ∧ next.posting (.pump p) = .no ∧
      next.loop = s.loop ∧ next.queueGuard = s.queueGuard := by
  cases hposting : s.posting (.pump p) with
  | no => exact ⟨[], s, rfl, hposting, rfl, rfl⟩
  | locking q task =>
      have hfree : s.queueGuard q = none :=
        hbelow q ⟨task, h.posting (.pump p) q task (.inl hposting)⟩
      refine ⟨[.lockToPost (.pump p), .push (.pump p)], { s with
        posting := update s.posting (.pump p) .no
        taskQueue := update s.taskQueue q (s.taskQueue q ++ [task]) }, ?_, by simp, rfl, rfl⟩
      have hguard : update s.queueGuard q none = s.queueGuard := by
        rw [← hfree, Function.update_eq_self]
      simp [State.step, hposting, hfree, hguard]
  | pushing q task =>
      have hfree : s.queueGuard q = none :=
        hbelow q ⟨task, h.posting (.pump p) q task (.inr hposting)⟩
      rw [(h.pushes (.pump p) q task hposting).1] at hfree
      cases hfree

include hacyclic in
/-- A drain can be finished when the locks below its pump are free. -/
theorem Inv.drain {s : State P T K} (h : Inv prog posters s) {p : P}
    (hdraining : s.loop p = .draining) (hbelow : BelowFree prog posters p s) :
    ∃ es done, exec (State.step prog) s es = some done ∧ done.taskQueue p = [] ∧
      done.queueGuard = update s.queueGuard p none := by
  obtain ⟨es, next, hrun, hno, hloop, hguards⟩ := h.finish_post hbelow
  have hinv : Inv prog posters next := exec_inv h hrun
  have hdrain : Draining prog p next := by
    constructor
    case loop => rw [hloop, hdraining]
    case queueGuard => rw [hguards, h.drains p hdraining]
    case posting => exact hno
    case todo =>
      intro action haction q task hposts
      rw [hguards]
      exact .inl (hbelow q ⟨task, hinv.todo (.pump p) action haction q task hposts⟩)
    case queue =>
      intro running hrunning action haction q task hposts
      have hgets := hinv.queued p running hrunning
      rw [hguards]
      exact .inl (hbelow q ⟨task, running, hgets, action, haction, hposts⟩)
  obtain ⟨more, done, hmore, hdone⟩ := hdrain.drain.resolve_left (not_getsStuck hacyclic hinv)
  exact ⟨es ++ more, done, exec_append_some hrun hmore, hdone.empty, by rw [hdone.queueGuard, hguards]⟩

include hacyclic in
theorem Inv.free {s : State P T K} (h : Inv prog posters s) {p : P}
    (hbelow : BelowFree prog posters p s) :
    ∃ es free, exec (State.step prog) s es = some free ∧ free.queueGuard p = none ∧
      ∀ q, s.queueGuard q = none → free.queueGuard q = none := by
  cases hguard : s.queueGuard p with
  | none => exact ⟨[], s, rfl, hguard, fun _ hfree => hfree⟩
  | some thread =>
      rcases h.held p thread hguard with ⟨-, hdraining⟩ | ⟨task, hpushing⟩
      · obtain ⟨es, done, hrun, -, hguards⟩ := h.drain hacyclic hdraining hbelow
        refine ⟨es, done, hrun, by simp [hguards], fun q hfree => ?_⟩
        rw [hguards, update_none_of_none hfree]
      · refine ⟨[.push thread], _, exec_singleton (step_push hpushing), by simp, fun q hfree => ?_⟩
        exact update_none_of_none hfree

include hacyclic in
theorem canFree [Finite P] (p : P) : CanFree prog posters p := by
  have hbelow : WellFounded fun q p => Relation.TransGen (PostsTo prog posters) p q := by
    have htrans : IsTrans P fun q p => Relation.TransGen (PostsTo prog posters) p q :=
      ⟨fun _ _ _ hfirst hsecond => hsecond.trans hfirst⟩
    have hirrefl : Std.Irrefl fun q p => Relation.TransGen (PostsTo prog posters) p q :=
      ⟨hacyclic⟩
    exact Finite.wellFounded_of_trans_of_irrefl _
  induction p using hbelow.induction with
  | _ p ih =>
      intro s h
      obtain ⟨pumps, hpumps⟩ : ∃ pumps : List P, ∀ q, q ∈ pumps ↔ PostsTo prog posters p q :=
        ⟨(Set.toFinite {q | PostsTo prog posters p q}).toFinset.toList, by simp⟩
      obtain ⟨es, middle, hrun, hfreed, hkept⟩ :=
        canFree_all (fun q hq => ih q (.single ((hpumps q).mp hq))) h
      obtain ⟨more, free, hmore, hp, hkept'⟩ :=
        (exec_inv h hrun).free hacyclic fun q hposts => hfreed q ((hpumps q).mpr hposts)
      exact ⟨es ++ more, free, exec_append_some hrun hmore, hp, fun q hq => hkept' q (hkept q hq)⟩

include hacyclic in
/-- The pump gets to its queue and through it. -/
theorem Inv.can_empty [Finite P] {s : State P T K} (h : Inv prog posters s) (p : P) :
    ∃ es done, exec (State.step prog) s es = some done ∧ done.taskQueue p = [] := by
  obtain ⟨pumps, hpumps⟩ : ∃ pumps : List P, ∀ q, q ∈ pumps := by
    have := Fintype.ofFinite P
    exact ⟨Finset.univ.toList, by simp⟩
  have hcan : ∀ q ∈ pumps, CanFree prog posters q := fun q _ => canFree hacyclic q
  obtain ⟨es, free, hrun, hfreed, -⟩ := canFree_all hcan h
  have hinv : Inv prog posters free := exec_inv h hrun
  have hlock : ∃ before locked, exec (State.step prog) free before = some locked ∧
      locked.loop p = .draining ∧ ∀ q ≠ p, locked.queueGuard q = none := by
    have hothers : ∀ q ≠ p, update free.queueGuard p (some (.pump p)) q = none := by
      intro q hne
      rw [Function.update_of_ne hne, hfreed q (hpumps q)]
    cases hloop : free.loop p with
    | waiting =>
        refine ⟨[.wake p, .lock p], { free with
          loop := update free.loop p .draining
          queueGuard := update free.queueGuard p (some (.pump p)) }, ?_, by simp, hothers⟩
        simp [State.step, hloop, hfreed p (hpumps p)]
    | locking =>
        refine ⟨[.lock p], { free with
          loop := update free.loop p .draining
          queueGuard := update free.queueGuard p (some (.pump p)) }, ?_, by simp, hothers⟩
        simp [State.step, hloop, hfreed p (hpumps p)]
    | draining => exact absurd hloop (hinv.not_draining (hfreed p (hpumps p)))
  obtain ⟨before, locked, hbefore, hdraining, hothers⟩ := hlock
  have hbelow : BelowFree prog posters p locked := by
    intro q hposts
    apply hothers
    rintro rfl
    exact hacyclic q (.single hposts)
  obtain ⟨more, done, hmore, hempty, -⟩ := (exec_inv hinv hbefore).drain hacyclic hdraining hbelow
  exact ⟨es ++ (before ++ more), done,
    exec_append_some hrun (exec_append_some hbefore hmore), hempty⟩

end Runs

/-- No thread waits for itself, every queue can still be run to its end, and
no post has to wait for ever. -/
structure State.Live (prog : Program P K) (s : State P T K) : Prop where
  noSelfWait : ¬ s.SelfWait
  queues : ∀ p, ∃ es done, exec (State.step prog) s es = some done ∧ done.taskQueue p = []
  posts : ∀ thread q task, s.posting thread = .locking q task →
    ∃ es next, exec (State.step prog) s es = some next ∧ next.posting thread ≠ .locking q task

/-- Exactly the tasks that may post to the pump that runs them make a thread
wait for a lock that it holds; and where no chain of posts leads from a pump
back to it, all that is posted can still be run, in every state that any
interleaving reaches. -/
theorem nested_posts_live [Finite P] (prog : Program P K) (posters : T → List (Action K)) :
    ((∀ s, Reachable (State.step prog) (State.start posters : State P T K) s → ¬ s.SelfWait) ↔
        ∀ p, ¬ PostsTo prog posters p p) ∧
      ((∀ p, ¬ Relation.TransGen (PostsTo prog posters) p p) →
        ∀ s, Reachable (State.step prog) (State.start posters : State P T K) s → s.Live prog) := by
  refine ⟨never_selfWait_iff, ?_⟩
  intro hacyclic s hreach
  have h : Inv prog posters s := inv_reachable (inv_start prog posters) hreach
  constructor
  case noSelfWait =>
    intro hwait
    exact not_getsStuck hacyclic h ⟨[], s, rfl, hwait⟩
  case queues => exact h.can_empty hacyclic
  case posts =>
    intro thread q task hlocking
    obtain ⟨es, free, hrun, hfree, -⟩ := canFree hacyclic q s h
    by_cases hstill : free.posting thread = .locking q task
    · refine ⟨es ++ [.lockToPost thread], { free with
        posting := update free.posting thread (.pushing q task)
        queueGuard := update free.queueGuard q (some thread) }, ?_, by simp⟩
      apply exec_append_some hrun
      simp [State.step, hstill, hfree]
    · exact ⟨es, free, hrun, hstill⟩

theorem no_handlers_return (body : K → List (Action K)) :
    WellFounded fun inner _ : String =>
      ∃ handlers, (none : Option (List (EventHandler K))) = some handlers ∧
        ∃ eh ∈ handlers, eh.runHandlerAsTask = false ∧
          Action.triggerEvent inner ∈ body eh.handler := by
  refine ⟨fun _ => ⟨_, ?_⟩⟩
  rintro inner ⟨handlers, hnone, -⟩
  cases hnone

def reportBody : Bool → List (Action Bool)
  | true => [.postTask "Main" false]
  | false => []

inductive TwoPumps where
  | Main | Worker
  deriving DecidableEq

instance : Finite TwoPumps := by
  apply Finite.of_injective (fun p => decide (p = TwoPumps.Main))
  intro p q hsame
  cases p <;> cases q <;> simp_all

/-- A task runner Main and a thread Worker, and code that posts to Main. -/
def reportToMain : Program TwoPumps Bool where
  namedDMPs name := if name = "Main" then some .Main else none
  namedThreads name := if name = "Worker" then some .Worker else none
  knownDMPs _ := none
  eventHandlers _ := none
  body := reportBody
  taskPriority _ := 2
  handlersReturn := no_handlers_return reportBody

/-- On Main, it makes the thread wait for itself. -/
theorem main_waits_for_itself :
    ¬ ∀ s, Reachable (State.step reportToMain)
      (State.start fun _ => [.postTask "Main" true] : State TwoPumps Unit Bool) s →
        s.Live reportToMain := by
  intro hlive
  obtain ⟨s, hrun, hguard, hlocking⟩ : ∃ s, exec (State.step reportToMain)
      (State.start fun _ => [.postTask "Main" true] : State TwoPumps Unit Bool)
      [.act (.poster ()), .lockToPost (.poster ()), .push (.poster ()), .wake .Main,
        .lock .Main, .pop .Main 0, .act (.pump .Main)] = some s ∧
      s.queueGuard .Main = some (.pump .Main) ∧
        s.posting (.pump .Main) = .locking .Main false :=
    ⟨_, rfl, rfl, rfl⟩
  exact (hlive s ⟨_, hrun⟩).noSelfWait ⟨.pump .Main, .Main, false, hguard, hlocking⟩

/-- On Worker, it does not, though it has to wait for Main's lock. -/
theorem worker_reports_to_main :
    ∃ s, exec (State.step reportToMain)
      (State.start fun _ => [.postTask "Worker" true] : State TwoPumps Unit Bool)
      [.act (.poster ()), .lockToPost (.poster ()), .push (.poster ()), .wake .Worker,
        .lock .Worker, .pop .Worker 0, .act (.pump .Worker)] = some s ∧
      s.posting (.pump .Worker) = .locking .Main false ∧ s.Live reportToMain := by
  have hruns : ∀ p, Gets reportToMain (fun _ : Unit => [.postTask "Worker" true]) p true →
      p = .Worker := by
    intro p hgets
    cases hgets with
    | outside haction hposts =>
        rw [List.mem_singleton.mp haction] at hposts
        cases hposts with
        | task hpump => exact (Option.some.inj hpump).symm
    | @inside _ running action _ _ _ haction hposts =>
        cases running with
        | false => cases haction
        | true =>
            rw [List.mem_singleton.mp haction] at hposts
            cases hposts
  have hposts : ∀ p q, PostsTo reportToMain (fun _ : Unit => [.postTask "Worker" true]) p q →
      p = .Worker ∧ q = .Main := by
    rintro p q ⟨task, running, hgets, action, haction, hposts⟩
    cases running with
    | false => cases haction
    | true =>
        rw [List.mem_singleton.mp haction] at hposts
        cases hposts with
        | task hpump => exact ⟨hruns p hgets, (Option.some.inj hpump).symm⟩
  have hacyclic : ∀ p, ¬ Relation.TransGen
      (PostsTo reportToMain fun _ : Unit => [.postTask "Worker" true]) p p := by
    intro p hcycle
    obtain ⟨_, hfirst, -⟩ := Relation.TransGen.head'_iff.mp hcycle
    obtain ⟨_, -, hlast⟩ := Relation.TransGen.tail'_iff.mp hcycle
    have hworker := (hposts _ _ hfirst).1
    have hmain := (hposts _ _ hlast).2
    rw [hworker] at hmain
    cases hmain
  have hlive := (nested_posts_live reportToMain fun _ : Unit => [.postTask "Worker" true]).2
    hacyclic
  obtain ⟨s, hrun, hlocking⟩ : ∃ s, exec (State.step reportToMain)
      (State.start fun _ => [.postTask "Worker" true] : State TwoPumps Unit Bool)
      [.act (.poster ()), .lockToPost (.poster ()), .push (.poster ()), .wake .Worker,
        .lock .Worker, .pop .Worker 0, .act (.pump .Worker)] = some s ∧
      s.posting (.pump .Worker) = .locking .Main false :=
    ⟨_, rfl, rfl⟩
  exact ⟨s, hrun, hlocking, hlive s ⟨_, hrun⟩⟩

end GitRpc.Dispatcher.NestedPosts
