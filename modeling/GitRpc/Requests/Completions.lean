import GitRpc.Library.Potentials
import GitRpc.Requests.PackCalls

/-!
How much the handler thread can be made to do. Every operation that it starts
goes back to a stream that was accepted or to a message that was read, and
only so many to each: whatever the clients send, in whatever way the
completions arrive and however they end, the thread cannot keep itself busy.

Nothing is asked of the clients here, so a completion may well reach the
request of a later stream; but a run does not go on when that is a `Read` that
brings a message, whose buffer has been freed.
-/

namespace GitRpc.Requests

open Common Library.Runs Library.Potentials

/-- How many completions can come of an operation, with no more messages. -/
def Op.work (op : Op) : Nat :=
  match op.tag with
  | .CONNECT | .WRITE => 4
  | .DONE => 2
  | .READ | .FINISH => 1

def work (ops : List Op) : Nat := (ops.map Op.work).sum

def Handler.work (h : Handler) : Nat :=
  Requests.work h.outstanding +
    4 * ∑ stream ∈ Finset.range (h.req.id + 1), (h.unread stream).length

/-- What the reads have brought is what the clients sent, and nothing is started or
read for a stream that was not accepted. -/
structure Accounts (sent : Nat → List ReceivePackRequest) (h : Handler) : Prop where
  owners : ∀ op ∈ h.outstanding, op.owner ≤ h.req.id
  fresh : ∀ stream, h.req.id < stream → h.unread stream = sent stream
  messages : ∀ stream, sent stream = receivedOn h.log stream ++ h.unread stream

variable {sent : Nat → List ReceivePackRequest} {h next : Handler} {op : Op} {turn : Turn}

namespace Accounts

theorem init (sent : Nat → List ReceivePackRequest) : Accounts sent (Handler.init sent) where
  owners := by simp [Handler.init]
  fresh _ _ := rfl
  messages _ := rfl

/-- A turn that brings no message. -/
theorem take (a : Accounts sent h) (hid : h.req.id ≤ turn.req.id)
    (howners : ∀ x ∈ turn.actions.filterMap Action.starts, x.owner ≤ turn.req.id)
    (hreceived : ∀ stream, receivedOn turn.actions stream = []) :
    Accounts sent (h.take op turn) where
  owners := by
    intro x hx
    rw [take_outstanding] at hx
    rcases List.mem_append.mp hx with hold | hnew
    · exact (a.owners x (List.mem_of_mem_erase hold)).trans hid
    · exact howners x hnew
  fresh stream hlater := a.fresh stream (hid.trans_lt hlater)
  messages := by
    intro stream
    rw [take_log, receivedOn_append, hreceived, List.append_nil]
    exact a.messages stream

theorem reply (a : Accounts sent h) (hmem : op ∈ h.outstanding) {message : ReceivePackRequest}
    {rest : List ReceivePackRequest} (hunread : h.unread op.owner = message :: rest) :
    Accounts sent (h.reply op message rest) where
  owners := by
    intro x hx
    rw [reply_outstanding] at hx
    rcases List.mem_append.mp hx with hold | hnew
    · exact a.owners x (List.mem_of_mem_erase hold)
    · rw [List.mem_singleton.mp hnew]
      exact le_rfl
  fresh := by
    intro stream hlater
    have hother : stream ≠ op.owner := (lt_of_le_of_lt (a.owners op hmem) hlater).ne'
    rw [reply_unread, Function.update_of_ne hother]
    exact a.fresh stream hlater
  messages := by
    intro stream
    rw [reply_log, reply_unread, receivedOn_append]
    by_cases howner : op.owner = stream
    · subst howner
      rw [Function.update_self, a.messages op.owner, hunread]
      simp [receivedOn]
    · rw [Function.update_of_ne (Ne.symm howner), a.messages stream]
      simp [receivedOn, howner]

theorem replace (a : Accounts sent h) {dispatched : List Action}
    (hdispatched : ∀ action ∈ dispatched, action = .dispatch op h.req.id) :
    Accounts sent (h.take op (h.req.renew op dispatched)) := by
  refine a.take (Nat.le_succ h.req.id) ?_ ?_
  · intro x hx
    rw [renew_starts h.req op hdispatched] at hx
    rw [List.mem_singleton.mp hx]
    exact le_rfl
  · intro stream
    apply List.filterMap_eq_nil_iff.mpr
    intro action haction
    rcases renew_mem hdispatched haction with rfl | rfl | rfl <;> rfl

end Accounts

end GitRpc.Requests
