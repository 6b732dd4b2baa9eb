import GitRpc.Requests.RecvPackStream

/-!
When the handler thread waits for a queue that has nothing left to deliver.
Only the `FINISH` event puts a new `Request` on the queue, and an event that
completes with `ok` false starts nothing, so every other way for the last
outstanding operation to end leaves the thread in `Next` for good. The other
handlers of the service put their next accept on the queue as soon as the
last one is taken.
-/

namespace GitRpc.Requests

open Common Library.Runs

/-- The request starts an operation when this event reaches it. -/
def Request.Continues (r : Request) : RequestStatus → Prop
  | .CONNECT => r.isRunning = true
  | .WRITE => r.isRunning = true
  | .READ => True
  | .DONE => r.repoOpen = true
  | .FINISH => True

/-- The event is not the last thing the queue will ever deliver: something
else is outstanding, or it ends the stream, or it reaches a request that goes
on from it. -/
def GoesOn (h : Handler) (c : Completion) : Prop :=
  h.outstanding.erase c.op ≠ [] ∨ c.op.tag = .FINISH ∨
    (c.ok = true ∧ h.req.Continues c.op.tag)

theorem readMessage_starts_iff (r : Request) (ret : String) :
    (r.readMessage ret).actions.filterMap Action.starts ≠ [] ↔ r.isRunning = true := by
  unfold Request.readMessage
  cases r.isRunning with
  | false => simp
  | true =>
      by_cases hdata : r.msg.data.length > 0
      · by_cases hret : ret = "success"
        · simp [hdata, hret, Action.starts]
        · simp [hdata, hret, Action.starts]
      · simp [hdata, Action.starts]

/-- After one event the queue has something to deliver exactly when the event
goes on. -/
theorem pending_iff_goesOn {h next : Handler} {c : Completion}
    (hstep : h.step c = some next) : next.outstanding ≠ [] ↔ GoesOn h c := by
  obtain ⟨-, hstepped⟩ := step_stepped hstep
  unfold GoesOn
  cases hstepped with
  | dropped hok htag => simp [hok, htag]
  | proceed hok htag =>
      have hstarts := readMessage_starts_iff { h.req with currentStatus := c.op.tag } c.ret
      rw [take_outstanding, dispatched_starts, ne_eq, List.append_eq_nil_iff, not_and_or]
      apply or_congr Iff.rfl
      rcases htag with htag | htag
      · rw [htag] at hstarts ⊢
        simpa [hok, Request.Continues] using hstarts
      · rw [htag] at hstarts ⊢
        simpa [hok, Request.Continues] using hstarts
  | reply hok htag message rest hunread =>
      simp [hok, htag, Request.Continues]
  | stop hok htag hopen =>
      rw [take_outstanding, dispatched_starts, halt_starts]
      simp [htag, hopen, Request.Continues]
  | commit hok htag hopen resp last status hsuccess =>
      rw [take_outstanding, dispatched_starts, complete_starts]
      simp [hok, htag, hopen, Request.Continues]
  | replace htag dispatched hdispatched =>
      rw [take_outstanding, renew_starts h.req c.op hdispatched]
      simp [htag]

/-- For whatever the clients send and in whatever way the completions arrive:
the thread never waits in vain exactly when every event goes on. -/
theorem never_waits_in_vain_iff (sent : Nat → List ReceivePackRequest)
    (es : List Completion) :
    Always Handler.step (fun _ _ next => next.outstanding ≠ []) (Handler.init sent) es ↔
      StepsMeet Handler.step GoesOn (Handler.init sent) es :=
  always_iff_stepsMeet_of_exact (fun _ _ _ hstep => pending_iff_goesOn hstep) _ es

/-- A client connects and goes away without a message. -/
theorem disconnect_ends_the_service :
    ¬ Always Handler.step (fun _ _ next => next.outstanding ≠ [])
      (Handler.init fun _ => []) [⟨⟨.CONNECT, 0⟩, true, "success"⟩,
        ⟨⟨.READ, 0⟩, false, "success"⟩] := by
  intro hall
  obtain ⟨-, hrest⟩ := hall _ rfl
  obtain ⟨hpending, -⟩ := hrest _ rfl
  exact hpending rfl

end GitRpc.Requests
