import Mathlib.Tactic
import GitRpc.Library.Runs

/-!
What `StartMessageLoop` makes of a wake-up. `epoll_wait` fills in the first
entries of an array that lives as long as the loop, and the loop looks at all
four entries without asking how many were filled. `R` stands for the receivers
that `RegisterMessageFilter` puts into `handlers`.
-/

namespace GitRpc.Dispatcher.MessageFilters

open Library.Runs

variable {R : Type*}

/-- `events`: the descriptors in its entries. -/
abbrev Entries := {fds : List Int // fds.length = 4}

/-- What `epoll_wait` gives back: -1, or the descriptors of as many entries as
it says. -/
inductive EpollResult where
  | failed
  | ready (fds : List Int) (hmax : fds.length ≤ 4)

namespace EpollResult

def reported : EpollResult → List Int
  | .failed => []
  | .ready fds _ => fds

theorem reported_length (result : EpollResult) : result.reported.length ≤ 4 := by
  cases result with
  | failed => exact Nat.zero_le 4
  | ready fds hmax => exact hmax

theorem fill_length (result : EpollResult) (events : Entries) :
    (result.reported ++ events.1.drop result.reported.length).length = 4 := by
  have hmax := result.reported_length
  have hlength := events.2
  rw [List.length_append, List.length_drop]
  omega

/-- The array after the call. -/
def fill (result : EpollResult) (events : Entries) : Entries :=
  ⟨result.reported ++ events.1.drop result.reported.length, result.fill_length events⟩

end EpollResult

/-- The loop over the entries: the calls of `recvFunc`, with the descriptor
that each was made for. -/
def scan (handlers : Int → Option R) (fds : List Int) : List (Int × R) :=
  fds.filterMap fun fd => if 0 < fd then (handlers fd).map fun recv => (fd, recv) else none

/-- `calls` are those of the last iteration. -/
structure FilterLoop (R : Type*) where
  handlers : Int → Option R
  events : Entries
  calls : List (Int × R)

/-- The array is not initialised. -/
def FilterLoop.start (events : Entries) : FilterLoop R := ⟨fun _ => none, events, []⟩

inductive FilterEvent (R : Type*) where
  | registerMessageFilter (filter : Int) (recv : R)
  | iterate (result : EpollResult)

def FilterLoop.step (s : FilterLoop R) : FilterEvent R → Option (FilterLoop R)
  | .registerMessageFilter filter recv =>
      some { s with handlers := Function.update s.handlers filter (some recv) }
  | .iterate result => some { s with
      events := result.fill s.events
      calls := scan s.handlers (result.fill s.events).1 }

def FilterLoop.Registered (s : FilterLoop R) (fd : Int) : Prop := (s.handlers fd).isSome = true

instance (s : FilterLoop R) (fd : Int) : Decidable (s.Registered fd) :=
  inferInstanceAs (Decidable ((s.handlers fd).isSome = true))

/-- An iteration calls the receiver of every registered descriptor that was
reported once, and calls no other. -/
def CallsReported (s : FilterLoop R) (e : FilterEvent R) (next : FilterLoop R) : Prop :=
  match e with
  | .registerMessageFilter _ _ => True
  | .iterate result =>
      (∀ call ∈ next.calls, s.handlers call.1 = some call.2) ∧
        ∀ fd, (next.calls.map Prod.fst).count fd =
          if fd ∈ result.reported ∧ s.Registered fd then 1 else 0

/-- The registered descriptors that are reported are positive, each is
reported once, and none is in the entries that the call has not filled. -/
def FilterLoop.NothingStale (s : FilterLoop R) : FilterEvent R → Prop
  | .registerMessageFilter _ _ => True
  | .iterate result => ∀ fd, s.Registered fd →
      (fd ∈ result.reported → 0 < fd ∧ result.reported.count fd = 1) ∧
        (0 < fd → fd ∉ s.events.1.drop result.reported.length)

theorem scan_cons (handlers : Int → Option R) (fd : Int) (rest : List Int) :
    scan handlers (fd :: rest) =
      (if 0 < fd then ((handlers fd).map fun recv => (fd, recv)).toList else []) ++
        scan handlers rest := by
  rcases lt_or_ge 0 fd with hpos | hnot
  · cases hrecv : handlers fd with
    | none => simp [scan, hpos, hrecv]
    | some recv => simp [scan, hpos, hrecv]
  · simp [scan, not_lt.mpr hnot]

/-- A receiver that is called is the one registered for the descriptor. -/
theorem scan_handlers {handlers : Int → Option R} {fds : List Int} {call : Int × R}
    (hcall : call ∈ scan handlers fds) : handlers call.1 = some call.2 := by
  obtain ⟨fd, -, hmade⟩ := List.mem_filterMap.mp hcall
  split at hmade
  · obtain ⟨recv, hrecv, rfl⟩ := Option.map_eq_some_iff.mp hmade
    exact hrecv
  · cases hmade

/-- A positive registered descriptor is called for as often as it stands in
the entries. -/
theorem count_scan (handlers : Int → Option R) (fds : List Int) (fd : Int) :
    ((scan handlers fds).map Prod.fst).count fd =
      if 0 < fd ∧ (handlers fd).isSome = true then fds.count fd else 0 := by
  induction fds with
  | nil => simp [scan]
  | cons head rest ih =>
      rw [scan_cons, List.map_append, List.count_append, ih, List.count_cons]
      rcases eq_or_ne head fd with rfl | hne
      · cases hrecv : handlers head with
        | none => simp
        | some recv =>
            rcases lt_or_ge 0 head with hpos | hnot
            · simp [hpos, Nat.add_comm]
            · simp [not_lt.mpr hnot]
      · have hother : ((if 0 < head then ((handlers head).map fun recv => (head, recv)).toList
            else []).map Prod.fst).count fd = 0 := by
          apply List.count_eq_zero.mpr
          split
          · cases handlers head <;> simp [hne.symm]
          · simp
        simp [hother, hne]

/-- For one registered descriptor: what stands in the filled entries and in
the others adds up to the one call that it should get. -/
theorem calls_once_iff (reported left : List Int) (fd : Int) :
    (if 0 < fd then (reported ++ left).count fd else 0) = (if fd ∈ reported then 1 else 0) ↔
      (fd ∈ reported → 0 < fd ∧ reported.count fd = 1) ∧ (0 < fd → fd ∉ left) := by
  have hleft : left.count fd = 0 ↔ fd ∉ left := List.count_eq_zero
  rw [List.count_append]
  by_cases hpos : 0 < fd
  · by_cases hmem : fd ∈ reported
    · have hsome : 0 < reported.count fd := List.count_pos_iff.mpr hmem
      simp only [hpos, hmem, if_true, ← hleft, true_and, forall_const]
      omega
    · have hnone : reported.count fd = 0 := List.count_eq_zero.mpr hmem
      simp [hpos, hmem, hnone, ← hleft]
  · by_cases hmem : fd ∈ reported
    · simp [hpos, hmem]
    · simp [hpos, hmem]

theorem callsReported_iff {s next : FilterLoop R} {e : FilterEvent R}
    (hstep : s.step e = some next) : CallsReported s e next ↔ s.NothingStale e := by
  cases e with
  | registerMessageFilter filter recv => exact Iff.rfl
  | iterate result =>
      simp only [FilterLoop.step, Option.some.injEq] at hstep
      subst hstep
      have hown : ∀ call ∈ scan s.handlers (result.fill s.events).1,
          s.handlers call.1 = some call.2 := fun _ => scan_handlers
      simp only [CallsReported, FilterLoop.NothingStale, and_iff_right hown, count_scan]
      refine forall_congr' fun fd => ?_
      by_cases hregistered : s.Registered fd
      · have hsome : (s.handlers fd).isSome = true := hregistered
        simpa [hregistered, hsome, EpollResult.fill] using
          calls_once_iff result.reported (s.events.1.drop result.reported.length) fd
      · have hnone : ¬ (s.handlers fd).isSome = true := hregistered
        simp [hregistered, hnone]

/-- Over any run of registrations and wake-ups, and whatever the array held at
first: each iteration calls for exactly the registered descriptors that were
reported, and once for each, if and only if no iteration meets anything
stale. -/
theorem filters_called_iff (events : Entries) (es : List (FilterEvent R)) :
    Always FilterLoop.step CallsReported (FilterLoop.start events) es ↔
      StepsMeet FilterLoop.step FilterLoop.NothingStale (FilterLoop.start events) es := by
  apply always_iff_stepsMeet_of_exact
  intro s e next hstep
  exact callsReported_iff hstep

/-- Descriptor 7 is reported once. A signal interrupts the next wait, and its
receiver is called again. -/
theorem interrupted_wait_calls_again :
    ¬ Always FilterLoop.step CallsReported
      (FilterLoop.start ⟨[0, 0, 0, 0], rfl⟩ : FilterLoop Unit)
      [.registerMessageFilter 7 (), .iterate (.ready [7] (by decide)), .iterate .failed] := by
  intro hall
  obtain ⟨-, hall⟩ := hall _ rfl
  obtain ⟨-, hall⟩ := hall _ rfl
  obtain ⟨⟨-, hcount⟩, -⟩ := hall _ rfl
  have hseven := hcount 7
  revert hseven
  decide

end GitRpc.Dispatcher.MessageFilters
