import GitRpc.Library.Runs

/-!
How posters wait for the pump to start. A poster that finds `startComplete`
unset goes to `postBlocker->Wait()`; the pump sets the flag and signals once.
`pthread_cond_wait` gives up the mutex of the condition variable and takes it
again before it returns, and it may return without a signal. No caller locks
the mutex before `Wait` or unlocks it afterwards: it is not held by anybody
in particular, and the one who has come back last leaves it locked.
-/

namespace GitRpc.Dispatcher.StartHandshake

open Library.Runs

variable {T : Type*}

/-- Where a thread is in `PostMessageToThread`, as far as the handshake goes:
not there or past it, between the test and `Wait`, blocked on the condition,
or woken up and on its way back through the mutex. -/
inductive PosterAt where
  | outside
  | tested
  | waiting
  | waking
  deriving DecidableEq

/-- `condition` lists the threads that are blocked on the condition, and `m`
says whether its mutex is locked. -/
structure Handshake (T : Type*) where
  startComplete : Bool
  signalled : Bool
  posters : T → PosterAt
  condition : List T
  m : Bool

def Handshake.start : Handshake T := ⟨false, false, fun _ => .outside, [], false⟩

/-- `signal` wakes up the thread at some place of `condition`. -/
inductive HandshakeEvent (T : Type*) where
  | test (thread : T)
  | enterWait (thread : T)
  | wakeUnasked (thread : T)
  | leaveWait (thread : T)
  | setStartComplete
  | signal (place : Nat)

section Steps

variable [DecidableEq T]

open Function (update)

def Handshake.step (s : Handshake T) : HandshakeEvent T → Option (Handshake T)
  | .test thread =>
      match s.posters thread with
      | .outside =>
          if s.startComplete then some s
          else some { s with posters := update s.posters thread .tested }
      | _ => none
  | .enterWait thread =>
      match s.posters thread with
      | .tested => some { s with
          posters := update s.posters thread .waiting
          condition := s.condition ++ [thread]
          m := false }
      | _ => none
  | .wakeUnasked thread =>
      match s.posters thread with
      | .waiting => some { s with
          posters := update s.posters thread .waking
          condition := s.condition.erase thread }
      | _ => none
  | .leaveWait thread =>
      match s.posters thread, s.m with
      | .waking, false => some { s with posters := update s.posters thread .outside, m := true }
      | _, _ => none
  | .setStartComplete =>
      if s.startComplete then none else some { s with startComplete := true }
  | .signal place =>
      if s.startComplete && !s.signalled then
        match s.condition, s.condition[place]? with
        | [], _ => some { s with signalled := true }
        | _, some woken => some { s with
            signalled := true
            posters := update s.posters woken .waking
            condition := s.condition.eraseIdx place }
        | _, none => none
      else none

/-- Everything a step can be. -/
inductive HandshakeStepped (s : Handshake T) : HandshakeEvent T → Handshake T → Prop where
  | pass (thread : T) (houtside : s.posters thread = .outside) :
      HandshakeStepped s (.test thread) s
  | test (thread : T) (houtside : s.posters thread = .outside) :
      HandshakeStepped s (.test thread) { s with posters := update s.posters thread .tested }
  | enterWait (thread : T) (htested : s.posters thread = .tested) :
      HandshakeStepped s (.enterWait thread) { s with
        posters := update s.posters thread .waiting
        condition := s.condition ++ [thread]
        m := false }
  | wakeUnasked (thread : T) (hwaiting : s.posters thread = .waiting) :
      HandshakeStepped s (.wakeUnasked thread) { s with
        posters := update s.posters thread .waking
        condition := s.condition.erase thread }
  | leaveWait (thread : T) (hwaking : s.posters thread = .waking) (hfree : s.m = false) :
      HandshakeStepped s (.leaveWait thread)
        { s with posters := update s.posters thread .outside, m := true }
  | setStartComplete (hunset : s.startComplete = false) :
      HandshakeStepped s .setStartComplete { s with startComplete := true }
  | signalNone (place : Nat) (hset : s.startComplete = true) (hfirst : s.signalled = false)
      (hempty : s.condition = []) :
      HandshakeStepped s (.signal place) { s with signalled := true }
  | signal (place : Nat) (woken : T) (hset : s.startComplete = true)
      (hfirst : s.signalled = false) (hwoken : s.condition[place]? = some woken) :
      HandshakeStepped s (.signal place) { s with
        signalled := true
        posters := update s.posters woken .waking
        condition := s.condition.eraseIdx place }

theorem handshake_stepped {s next : Handshake T} {e : HandshakeEvent T}
    (hstep : s.step e = some next) : HandshakeStepped s e next := by
  cases e with
  | test thread =>
      simp only [Handshake.step] at hstep
      split at hstep
      · rename_i houtside
        split at hstep
        · cases hstep
          exact .pass thread houtside
        · cases hstep
          exact .test thread houtside
      · cases hstep
  | enterWait thread =>
      simp only [Handshake.step] at hstep
      split at hstep
      · rename_i htested
        cases hstep
        exact .enterWait thread htested
      · cases hstep
  | wakeUnasked thread =>
      simp only [Handshake.step] at hstep
      split at hstep
      · rename_i hwaiting
        cases hstep
        exact .wakeUnasked thread hwaiting
      · cases hstep
  | leaveWait thread =>
      simp only [Handshake.step] at hstep
      split at hstep
      · rename_i hwaking hfree
        cases hstep
        exact .leaveWait thread hwaking hfree
      · cases hstep
  | setStartComplete =>
      simp only [Handshake.step] at hstep
      split at hstep
      · cases hstep
      · rename_i hunset
        cases hstep
        exact .setStartComplete (Bool.eq_false_iff.mpr hunset)
  | signal place =>
      simp only [Handshake.step] at hstep
      split at hstep
      · rename_i hturn
        obtain ⟨hset, hfirst⟩ : s.startComplete = true ∧ s.signalled = false := by
          simpa using hturn
        split at hstep
        · rename_i hempty
          cases hstep
          exact .signalNone place hset hfirst hempty
        · rename_i woken hwoken _
          cases hstep
          exact .signal place woken hset hfirst hwoken
        · cases hstep
      · cases hstep

end Steps

/-- The thread is in `Wait` and cannot go on: it is blocked on the condition,
or in front of a locked mutex. -/
def Handshake.Blocked (s : Handshake T) (thread : T) : Prop :=
  s.posters thread = .waiting ∨ (s.posters thread = .waking ∧ s.m = true)

/-- The pump has set the flag and has given its signal, and somebody is still
blocked. -/
def Handshake.Stranded (s : Handshake T) : Prop :=
  s.startComplete = true ∧ s.signalled = true ∧ ∃ thread, s.Blocked thread

/-- When a step leaves nobody behind. Nobody may come to `Wait` when the signal
is over. The signal finds at most one thread on the condition, and nobody has
to pass a locked mutex then. Who leaves `Wait` after the signal is the last
one there. -/
def Handshake.LeavesNobody (s : Handshake T) : HandshakeEvent T → Prop
  | .test _ | .wakeUnasked _ | .setStartComplete => True
  | .enterWait _ => s.signalled = false
  | .leaveWait thread => s.signalled = true → ∀ other, s.posters other = .waking → other = thread
  | .signal _ => s.condition.length ≤ 1 ∧
      (s.m = true → s.condition = [] ∧ ∀ thread, s.posters thread ≠ .waking)

/-- What holds as long as nobody is left behind. -/
structure HandshakeInv (s : Handshake T) : Prop where
  listed : ∀ thread, thread ∈ s.condition ↔ s.posters thread = .waiting
  once : s.condition.Nodup
  order : s.signalled = true → s.startComplete = true
  served : ¬ s.Stranded

theorem handshakeInv_start : HandshakeInv (Handshake.start : Handshake T) where
  listed := by simp [Handshake.start]
  once := List.nodup_nil
  order := by simp [Handshake.start]
  served := by simp [Handshake.Stranded, Handshake.start]

theorem HandshakeInv.not_blocked {s : Handshake T} (h : HandshakeInv s)
    (hsignalled : s.signalled = true) (thread : T) : ¬ s.Blocked thread := by
  intro hblocked
  exact h.served ⟨h.order hsignalled, hsignalled, thread, hblocked⟩

section Exact

variable [DecidableEq T] {s next : Handshake T} {e : HandshakeEvent T}

open Function (update)

/-- Who moves is the only one whose place changes. -/
theorem update_posters_iff {posters : T → PosterAt} {mover thread : T} {new place : PosterAt} :
    update posters mover new thread = place ↔
      (thread = mover ∧ new = place) ∨ (thread ≠ mover ∧ posters thread = place) := by
  rcases eq_or_ne thread mover with rfl | hne
  · simp
  · simp [hne]

/-- The list of the threads on the condition follows the steps. -/
theorem listed_step (h : HandshakeInv s) (hstep : s.step e = some next) :
    (∀ thread, thread ∈ next.condition ↔ next.posters thread = .waiting) ∧
      next.condition.Nodup := by
  cases handshake_stepped hstep with
  | pass => exact ⟨h.listed, h.once⟩
  | test thread houtside =>
      refine ⟨fun other => ?_, h.once⟩
      rw [update_posters_iff, h.listed other]
      rcases eq_or_ne other thread with rfl | hne
      · simp [houtside]
      · simp [hne]
  | enterWait thread htested =>
      have hnew : thread ∉ s.condition := by
        rw [h.listed thread, htested]
        simp
      refine ⟨fun other => ?_, ?_⟩
      · rw [update_posters_iff, List.mem_append, List.mem_singleton, h.listed other]
        rcases eq_or_ne other thread with rfl | hne
        · simp
        · simp [hne]
      · exact h.once.append (List.nodup_singleton thread) (by simpa using hnew)
  | wakeUnasked thread hwaiting =>
      refine ⟨fun other => ?_, h.once.erase thread⟩
      rw [update_posters_iff, h.once.mem_erase_iff, h.listed other]
      simp
  | leaveWait thread hwaking =>
      refine ⟨fun other => ?_, h.once⟩
      rw [update_posters_iff, h.listed other]
      rcases eq_or_ne other thread with rfl | hne
      · simp [hwaking]
      · simp [hne]
  | setStartComplete | signalNone => exact ⟨h.listed, h.once⟩
  | signal place woken _ _ hwoken =>
      obtain ⟨hlt, rfl⟩ := List.getElem?_eq_some_iff.mp hwoken
      have herase : s.condition.eraseIdx place = s.condition.erase s.condition[place] :=
        (h.once.erase_getElem place hlt).symm
      refine ⟨fun other => ?_, ?_⟩
      · rw [update_posters_iff, herase, h.once.mem_erase_iff, h.listed other]
        simp
      · exact h.once.sublist (List.eraseIdx_sublist ..)

/-- A thread that did not get to its place by this step was there before. -/
theorem place_before {posters : T → PosterAt} {mover thread : T} {new place : PosterAt}
    (hnew : new ≠ place) (hplace : update posters mover new thread = place) :
    thread ≠ mover ∧ posters thread = place := by
  rcases update_posters_iff.mp hplace with ⟨-, hsame⟩ | hbefore
  · exact absurd hsame hnew
  · exact hbefore

/-- A step leaves somebody behind exactly where the condition says so. -/
theorem served_iff (h : HandshakeInv s) (hstep : s.step e = some next) :
    ¬ next.Stranded ↔ s.LeavesNobody e := by
  have hlisted := (listed_step h hstep).1
  cases handshake_stepped hstep with
  | pass thread => simpa [Handshake.LeavesNobody] using h.served
  | test thread =>
      simp only [Handshake.LeavesNobody, iff_true]
      rintro ⟨-, hsignalled, other, hblocked⟩
      apply h.not_blocked hsignalled other
      rcases hblocked with hwaiting | ⟨hwaking, hm⟩
      · exact .inl (place_before (by simp) hwaiting).2
      · exact .inr ⟨(place_before (by simp) hwaking).2, hm⟩
  | enterWait thread =>
      simp only [Handshake.LeavesNobody]
      constructor
      · intro hserved
        by_contra hsome
        have hsignalled : s.signalled = true := by simpa using hsome
        exact hserved ⟨h.order hsignalled, hsignalled, thread, .inl (by simp)⟩
      · rintro hfirst ⟨-, hsignalled, -⟩
        have hsignalled : s.signalled = true := hsignalled
        rw [hfirst] at hsignalled
        cases hsignalled
  | wakeUnasked thread hwaiting =>
      simp only [Handshake.LeavesNobody, iff_true]
      rintro ⟨-, hsignalled, -⟩
      exact h.not_blocked hsignalled thread (.inl hwaiting)
  | leaveWait thread =>
      simp only [Handshake.LeavesNobody]
      constructor
      · intro hserved hsignalled other hwaking
        by_contra hne
        have hstill : update s.posters thread .outside other = .waking :=
          update_posters_iff.mpr (.inr ⟨hne, hwaking⟩)
        exact hserved ⟨h.order hsignalled, hsignalled, other, .inr ⟨hstill, rfl⟩⟩
      · rintro hlast ⟨-, hsignalled, other, hwaiting | ⟨hwaking, -⟩⟩
        · have hbefore := (place_before (by simp) hwaiting).2
          exact h.not_blocked hsignalled other (.inl hbefore)
        · obtain ⟨hne, hbefore⟩ := place_before (by simp) hwaking
          exact hne (hlast hsignalled other hbefore)
  | setStartComplete hunset =>
      simp only [Handshake.LeavesNobody, iff_true]
      rintro ⟨-, hsignalled, -⟩
      rw [h.order hsignalled] at hunset
      cases hunset
  | signalNone place hset hfirst hempty =>
      simp only [Handshake.LeavesNobody, hempty, List.length_nil, Nat.zero_le, true_and]
      constructor
      · intro hserved hm thread hwaking
        exact hserved ⟨hset, rfl, thread, .inr ⟨hwaking, hm⟩⟩
      · rintro hnobody ⟨-, -, thread, hwaiting | ⟨hwaking, hm⟩⟩
        · have hmem : thread ∈ s.condition := (h.listed thread).mpr hwaiting
          simp [hempty] at hmem
        · exact hnobody hm thread hwaking
  | signal place woken hset hfirst hwoken =>
      obtain ⟨hlt, rfl⟩ := List.getElem?_eq_some_iff.mp hwoken
      simp only [Handshake.LeavesNobody]
      constructor
      · intro hserved
        constructor
        · by_contra hmany
          have hleft : s.condition.eraseIdx place ≠ [] := by
            apply List.ne_nil_of_length_pos
            rw [List.length_eraseIdx_of_lt hlt]
            omega
          obtain ⟨other, hother⟩ := List.exists_mem_of_ne_nil _ hleft
          exact hserved ⟨hset, rfl, other, .inl ((hlisted other).mp hother)⟩
        · intro hm
          exact absurd ⟨hset, rfl, s.condition[place], .inr ⟨by simp, hm⟩⟩ hserved
      · rintro ⟨hone, hfree⟩ ⟨-, -, thread, hwaiting | ⟨-, hm⟩⟩
        · have hleft : s.condition.eraseIdx place = [] := by
            apply List.eq_nil_of_length_eq_zero
            rw [List.length_eraseIdx_of_lt hlt]
            omega
          have hmem := (hlisted thread).mpr hwaiting
          simp [hleft] at hmem
        · simp [(hfree hm).1] at hlt

theorem order_step (h : HandshakeInv s) (hstep : s.step e = some next)
    (hsignalled : next.signalled = true) : next.startComplete = true := by
  cases handshake_stepped hstep with
  | setStartComplete => rfl
  | signalNone _ hset | signal _ _ hset => exact hset
  | _ => exact h.order hsignalled

theorem handshakeInv_step (h : HandshakeInv s) (hcond : s.LeavesNobody e)
    (hstep : s.step e = some next) : HandshakeInv next where
  listed := (listed_step h hstep).1
  once := (listed_step h hstep).2
  order := order_step h hstep
  served := (served_iff h hstep).mpr hcond

/-- Any number of threads may post before and while the pump starts, in any
order of steps: no state on the way has a thread left in `Wait` exactly when
every step meets the condition. -/
theorem handshake_served_iff (es : List (HandshakeEvent T)) :
    Always Handshake.step (fun _ _ next => ¬ next.Stranded) (Handshake.start : Handshake T) es ↔
      StepsMeet Handshake.step Handshake.LeavesNobody (Handshake.start : Handshake T) es :=
  always_iff_stepsMeet (fun s _ _ (h : HandshakeInv s) hstep => served_iff h hstep)
    (fun s _ _ (h : HandshakeInv s) hcond hstep => handshakeInv_step h hcond hstep)
    handshakeInv_start es

end Exact

/-- The flag is tested before the pump sets it, and `Wait` is called after the
signal. -/
theorem poster_left_in_wait :
    ¬ ∀ s : Handshake Unit, Reachable Handshake.step Handshake.start s → ¬ s.Stranded := by
  intro hserved
  obtain ⟨s, hrun, hset, hsignalled, hwaiting⟩ : ∃ s : Handshake Unit,
      exec Handshake.step Handshake.start
        [.test (), .setStartComplete, .signal 0, .enterWait ()] = some s ∧
        s.startComplete = true ∧ s.signalled = true ∧ s.posters () = .waiting :=
    ⟨_, rfl, rfl, rfl, rfl⟩
  exact hserved s ⟨_, hrun⟩ ⟨hset, hsignalled, (), .inl hwaiting⟩

end GitRpc.Dispatcher.StartHandshake
