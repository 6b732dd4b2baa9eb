import GitRpc.Library.Runs
import GitRpc.Common.GitServiceCommon

/-!
`RecvPackStream`: one thread that takes completions off its queue and drives
one `Request` at a time through a bidirectional stream. A tag on the queue is
only a `RequestStatus`; here it travels with the stream that started the
operation, so that a run can tell what the code cannot.

The queue may deliver the operations that are outstanding in any order, each
once, with `ok` true or false. A `Read` completes with `ok` only when its
client has sent a message that no earlier one took, and fills the buffer only
then. If its request has been deleted by then, the buffer and the stream have
been freed with it: what happens is undefined, and there is no next state. The
two futures that a request waits for are answered by the completion's `ret`; no
event needs more than one answer.
-/

namespace GitRpc.Requests

open Common Library.Runs

/-- An operation on the completion queue: its tag, and the stream it is for. -/
structure Op where
  tag : RequestStatus
  owner : Nat
  deriving DecidableEq

structure Request where
  id : Nat
  currentStatus : RequestStatus := .CONNECT
  repoOpen : Bool := false
  isRunning : Bool := true
  msg : ReceivePackRequest := {}
  resp : Option CommonResponseInfo := none
  deriving DecidableEq

/-- What the handler does that others can see, with the stream it does it
on; `received`, `dispatch` and `delete` mark the handler's own progress. -/
inductive Action where
  | accept (stream : Nat)
  | received (stream : Nat) (message : ReceivePackRequest)
  | dispatch (op : Op) (receiver : Nat)
  | startRead (stream : Nat)
  | packAppend (stream : Nat) (data : List UInt8) (ret : String)
  | setAlarm (stream : Nat)
  | write (stream : Nat) (r : GenericResponse)
  | packCommit (stream : Nat) (ret : String)
  | writeAndFinish (stream : Nat) (r : GenericResponse) (status : Status)
  | delete (op : Op) (receiver : Nat)
  deriving DecidableEq

/-- The operation that an action puts on the queue. -/
def Action.starts : Action → Option Op
  | .accept stream => some ⟨.CONNECT, stream⟩
  | .startRead stream => some ⟨.READ, stream⟩
  | .setAlarm stream => some ⟨.DONE, stream⟩
  | .write stream _ => some ⟨.WRITE, stream⟩
  | .writeAndFinish stream _ _ => some ⟨.FINISH, stream⟩
  | _ => none

/-- A request after a member function, and what the function did. -/
structure Turn where
  req : Request
  actions : List Action
  deriving DecidableEq

/-- The turn as the answer to an event. -/
def Turn.dispatched (turn : Turn) (op : Op) (receiver : Nat) : Turn :=
  ⟨turn.req, .dispatch op receiver :: turn.actions⟩

/-- The end of `ReadMessage`. The alarm is a local of that function. -/
def Request.checkDone (r : Request) : Turn :=
  if r.msg.done then
    ⟨{ r with msg := { r.msg with data := [], repoName := "" } }, [.setAlarm r.id]⟩
  else ⟨r, []⟩

/-- The next `Read` is started before the message in the buffer is used. A
failed append leaves `resp` behind and skips the check for the last message. -/
def Request.readMessage (r : Request) (ret : String) : Turn :=
  if r.isRunning then
    if r.msg.data.length > 0 then
      let opened := { r with repoOpen := true }
      let append : Action := .packAppend r.id r.msg.data ret
      if ret ≠ "success" then
        ⟨{ opened with resp := some (response ret false .INTERNAL) }, [.startRead r.id, append]⟩
      else ⟨opened.checkDone.req, [.startRead r.id, append] ++ opened.checkDone.actions⟩
    else ⟨r.checkDone.req, .startRead r.id :: r.checkDone.actions⟩
  else ⟨r, []⟩

def Request.writeResponse (r : Request) : Turn :=
  ⟨r, [.write r.id ⟨true, "Success"⟩]⟩

def Request.finishRequest (r : Request) (ret : String) : Turn :=
  if r.repoOpen then
    if ret ≠ "success" then
      let info := response ret false .INTERNAL
      ⟨{ r with resp := some info, repoOpen := false },
        [.packCommit r.id ret, .writeAndFinish r.id ⟨info.success, info.errorMessage⟩
          ⟨.INTERNAL, info.errorMessage⟩]⟩
    else
      ⟨{ r with repoOpen := false },
        [.packCommit r.id ret, .writeAndFinish r.id ⟨true, "success"⟩ ⟨.OK, ""⟩]⟩
  else ⟨r, []⟩

def Request.processRequest (r : Request) (status : RequestStatus) (ret : String) : Turn :=
  let r := { r with currentStatus := status }
  match status with
  | .CONNECT => r.readMessage ret
  | .READ => r.writeResponse
  | .WRITE => r.readMessage ret
  | .DONE =>
      let stopped := { r with isRunning := false }
      if stopped.repoOpen then stopped.finishRequest ret else ⟨stopped, []⟩
  | .FINISH => ⟨{ r with isRunning := false }, []⟩

/-- An event of the queue: an operation completes. -/
structure Completion where
  op : Op
  ok : Bool
  ret : String := "success"
  deriving DecidableEq

/-- The body of the loop in `HandlerThread`. It looks at the tag alone. -/
def Request.handle (r : Request) (c : Completion) : Turn :=
  let turn : Turn :=
    if c.ok then (r.processRequest c.op.tag c.ret).dispatched c.op r.id else ⟨r, []⟩
  if c.op.tag = .FINISH then
    ⟨{ id := r.id + 1 }, turn.actions ++ [.delete c.op r.id, .accept (r.id + 1)]⟩
  else turn

/-- The handler's request, the operations on its queue, all it has done, and
what each client has sent that no `Read` has taken yet. -/
structure Handler where
  req : Request
  outstanding : List Op
  log : List Action
  unread : Nat → List ReceivePackRequest

def Handler.init (sent : Nat → List ReceivePackRequest) : Handler :=
  ⟨{ id := 0 }, [⟨.CONNECT, 0⟩], [.accept 0], sent⟩

/-- A `Read` of the request's stream completes with this message. -/
def Handler.receive (h : Handler) (stream : Nat) (message : ReceivePackRequest)
    (rest : List ReceivePackRequest) : Handler :=
  { h with
    req := { h.req with msg := message }
    log := h.log ++ [.received stream message]
    unread := Function.update h.unread stream rest }

/-- The operation leaves the queue, and those that the turn starts enter it. -/
def Handler.take (h : Handler) (op : Op) (turn : Turn) : Handler :=
  { h with
    req := turn.req
    outstanding := h.outstanding.erase op ++ turn.actions.filterMap Action.starts
    log := h.log ++ turn.actions }

def Handler.step (h : Handler) (c : Completion) : Option Handler :=
  if c.op ∈ h.outstanding then
    if c.op.tag = .READ ∧ c.ok then
      -- The buffer of an earlier request is not there any more.
      if c.op.owner = h.req.id then
        match h.unread c.op.owner with
        | [] => none
        | message :: rest =>
            let filled := h.receive c.op.owner message rest
            some (filled.take c.op (filled.req.handle c))
      else none
    else some (h.take c.op (h.req.handle c))
  else none

/-- The messages that a stream's reads have brought, in order. -/
def receivedOn (log : List Action) (stream : Nat) : List ReceivePackRequest :=
  log.filterMap fun
    | .received i message => if i = stream then some message else none
    | _ => none

/-- The data fields that are not empty. -/
def packData (messages : List ReceivePackRequest) : List (List UInt8) :=
  messages.filterMap fun message => if message.data = [] then none else some message.data

theorem receivedOn_append (old new : List Action) (stream : Nat) :
    receivedOn (old ++ new) stream = receivedOn old stream ++ receivedOn new stream :=
  List.filterMap_append

theorem packData_append (first second : List ReceivePackRequest) :
    packData (first ++ second) = packData first ++ packData second :=
  List.filterMap_append

@[simp] theorem dispatched_req (turn : Turn) (op : Op) (receiver : Nat) :
    (turn.dispatched op receiver).req = turn.req := rfl

@[simp] theorem dispatched_actions (turn : Turn) (op : Op) (receiver : Nat) :
    (turn.dispatched op receiver).actions = .dispatch op receiver :: turn.actions := rfl

theorem dispatched_starts (turn : Turn) (op : Op) (receiver : Nat) :
    (turn.dispatched op receiver).actions.filterMap Action.starts =
      turn.actions.filterMap Action.starts := rfl

@[simp] theorem take_req (h : Handler) (op : Op) (turn : Turn) :
    (h.take op turn).req = turn.req := rfl

@[simp] theorem take_log (h : Handler) (op : Op) (turn : Turn) :
    (h.take op turn).log = h.log ++ turn.actions := rfl

@[simp] theorem take_unread (h : Handler) (op : Op) (turn : Turn) :
    (h.take op turn).unread = h.unread := rfl

@[simp] theorem take_outstanding (h : Handler) (op : Op) (turn : Turn) :
    (h.take op turn).outstanding =
      h.outstanding.erase op ++ turn.actions.filterMap Action.starts := rfl

/-- What the completion of a `Read` comes to. -/
def Handler.reply (h : Handler) (op : Op) (message : ReceivePackRequest)
    (rest : List ReceivePackRequest) : Handler :=
  (h.receive op.owner message rest).take op
    (({ (h.receive op.owner message rest).req with
      currentStatus := .READ } : Request).writeResponse.dispatched op h.req.id)

@[simp] theorem reply_id (h : Handler) (op : Op) (message : ReceivePackRequest)
    (rest : List ReceivePackRequest) : (h.reply op message rest).req.id = h.req.id := rfl

@[simp] theorem reply_msg (h : Handler) (op : Op) (message : ReceivePackRequest)
    (rest : List ReceivePackRequest) : (h.reply op message rest).req.msg = message := rfl

@[simp] theorem reply_repoOpen (h : Handler) (op : Op) (message : ReceivePackRequest)
    (rest : List ReceivePackRequest) :
    (h.reply op message rest).req.repoOpen = h.req.repoOpen := rfl

@[simp] theorem reply_isRunning (h : Handler) (op : Op) (message : ReceivePackRequest)
    (rest : List ReceivePackRequest) :
    (h.reply op message rest).req.isRunning = h.req.isRunning := rfl

@[simp] theorem reply_unread (h : Handler) (op : Op) (message : ReceivePackRequest)
    (rest : List ReceivePackRequest) :
    (h.reply op message rest).unread = Function.update h.unread op.owner rest := rfl

@[simp] theorem reply_outstanding (h : Handler) (op : Op) (message : ReceivePackRequest)
    (rest : List ReceivePackRequest) :
    (h.reply op message rest).outstanding =
      h.outstanding.erase op ++ [⟨.WRITE, h.req.id⟩] := rfl

@[simp] theorem reply_log (h : Handler) (op : Op) (message : ReceivePackRequest)
    (rest : List ReceivePackRequest) :
    (h.reply op message rest).log = h.log ++ [.received op.owner message,
      .dispatch op h.req.id, .write h.req.id ⟨true, "Success"⟩] := by
  simp [Handler.reply, Handler.receive, Request.writeResponse]

/-- What the alarm comes to when no pack data has been seen. -/
def Request.halt (r : Request) : Turn :=
  ⟨{ r with currentStatus := .DONE, isRunning := false }, []⟩

/-- What the alarm comes to otherwise; the reply depends on the commit. -/
def Request.complete (r : Request) (ret : String) (resp : Option CommonResponseInfo)
    (last : GenericResponse) (status : Status) : Turn :=
  ⟨{ r with currentStatus := .DONE, isRunning := false, repoOpen := false, resp := resp },
    [.packCommit r.id ret, .writeAndFinish r.id last status]⟩

/-- The end of a stream and the start of the next one. -/
def Request.renew (r : Request) (op : Op) (dispatched : List Action) : Turn :=
  ⟨{ id := r.id + 1 }, dispatched ++ [.delete op r.id, .accept (r.id + 1)]⟩

theorem halt_starts (r : Request) : r.halt.actions.filterMap Action.starts = [] := rfl

theorem complete_starts (r : Request) (ret : String) (resp : Option CommonResponseInfo)
    (last : GenericResponse) (status : Status) :
    (r.complete ret resp last status).actions.filterMap Action.starts = [⟨.FINISH, r.id⟩] := rfl

theorem renew_starts (r : Request) (op : Op) {dispatched : List Action}
    (hdispatched : ∀ action ∈ dispatched, action = .dispatch op r.id) :
    (r.renew op dispatched).actions.filterMap Action.starts = [⟨.CONNECT, r.id + 1⟩] := by
  have hnone : dispatched.filterMap Action.starts = [] := by
    apply List.filterMap_eq_nil_iff.mpr
    intro action haction
    rw [hdispatched action haction]
    rfl
  rw [Request.renew, List.filterMap_append, hnone]
  rfl

theorem renew_mem {r : Request} {op : Op} {dispatched : List Action}
    (hdispatched : ∀ action ∈ dispatched, action = .dispatch op r.id) {action : Action}
    (haction : action ∈ (r.renew op dispatched).actions) :
    action = .dispatch op r.id ∨ action = .delete op r.id ∨ action = .accept (r.id + 1) := by
  simp only [Request.renew, List.mem_append, List.mem_cons, List.not_mem_nil,
    or_false] at haction
  rcases haction with haction | haction
  · exact .inl (hdispatched action haction)
  · exact .inr haction

/-- Everything a step can be. -/
inductive Stepped (h : Handler) (c : Completion) : Handler → Prop where
  | dropped (hok : c.ok = false) (htag : c.op.tag ≠ .FINISH) :
      Stepped h c (h.take c.op ⟨h.req, []⟩)
  | proceed (hok : c.ok = true) (htag : c.op.tag = .CONNECT ∨ c.op.tag = .WRITE) :
      Stepped h c (h.take c.op
        (({ h.req with currentStatus := c.op.tag }.readMessage c.ret).dispatched c.op h.req.id))
  | reply (hok : c.ok = true) (htag : c.op.tag = .READ) (message : ReceivePackRequest)
      (rest : List ReceivePackRequest) (hunread : h.unread c.op.owner = message :: rest)
      (howner : c.op.owner = h.req.id) :
      Stepped h c (h.reply c.op message rest)
  | stop (hok : c.ok = true) (htag : c.op.tag = .DONE) (hopen : h.req.repoOpen = false) :
      Stepped h c (h.take c.op (h.req.halt.dispatched c.op h.req.id))
  | commit (hok : c.ok = true) (htag : c.op.tag = .DONE) (hopen : h.req.repoOpen = true)
      (resp : Option CommonResponseInfo) (last : GenericResponse) (status : Status)
      (hsuccess : last.success = true ↔ c.ret = "success") :
      Stepped h c (h.take c.op
        ((h.req.complete c.ret resp last status).dispatched c.op h.req.id))
  | replace (htag : c.op.tag = .FINISH) (dispatched : List Action)
      (hdispatched : ∀ action ∈ dispatched, action = .dispatch c.op h.req.id) :
      Stepped h c (h.take c.op (h.req.renew c.op dispatched))

theorem step_take {h next : Handler} {c : Completion}
    (hread : ¬ (c.op.tag = .READ ∧ c.ok)) (hstep : h.step c = some next) :
    next = h.take c.op (h.req.handle c) := by
  unfold Handler.step at hstep
  rw [if_neg hread] at hstep
  split at hstep
  · exact (Option.some.inj hstep).symm
  · cases hstep

theorem step_stepped {h next : Handler} {c : Completion} (hstep : h.step c = some next) :
    c.op ∈ h.outstanding ∧ Stepped h c next := by
  have hmem : c.op ∈ h.outstanding := by
    by_contra hnot
    simp [Handler.step, hnot] at hstep
  refine ⟨hmem, ?_⟩
  by_cases hread : c.op.tag = .READ ∧ c.ok
  · obtain ⟨htag, hok⟩ := hread
    unfold Handler.step at hstep
    rw [if_pos hmem, if_pos ⟨htag, hok⟩] at hstep
    split at hstep
    case isFalse => cases hstep
    rename_i howner
    split at hstep
    · cases hstep
    · rename_i message rest hunread
      have hnext := (Option.some.inj hstep).symm
      simp only [Request.handle, hok, htag, Request.processRequest, Request.writeResponse,
        if_true, reduceCtorEq, if_false] at hnext
      rw [hnext]
      exact .reply hok htag message rest hunread howner
  · have hnext := step_take hread hstep
    cases hok : c.ok with
    | false =>
        by_cases htag : c.op.tag = .FINISH
        · simp only [Request.handle, hok, htag, Bool.false_eq_true, if_false, if_true] at hnext
          rw [hnext]
          exact .replace htag [] (by simp)
        · simp only [Request.handle, hok, htag, Bool.false_eq_true, if_false] at hnext
          rw [hnext]
          exact .dropped hok htag
    | true =>
        cases htag : c.op.tag with
        | READ => exact absurd ⟨htag, hok⟩ hread
        | CONNECT | WRITE =>
            simp only [Request.handle, hok, htag, Request.processRequest, if_true,
              reduceCtorEq, if_false] at hnext
            rw [hnext, ← htag]
            exact .proceed hok (by simp [htag])
        | DONE =>
            simp only [Request.handle, hok, htag, Request.processRequest, if_true,
              reduceCtorEq, if_false] at hnext
            cases hopen : h.req.repoOpen with
            | false =>
                rw [if_neg (by simp [hopen])] at hnext
                rw [hnext]
                exact .stop hok htag hopen
            | true =>
                rw [if_pos hopen, Request.finishRequest, if_pos hopen] at hnext
                by_cases hret : c.ret = "success"
                · rw [if_neg (by simp [hret])] at hnext
                  rw [hnext]
                  exact .commit hok htag hopen h.req.resp _ _ (by simp [hret])
                · rw [if_pos hret] at hnext
                  rw [hnext]
                  exact .commit hok htag hopen _ _ _ (by simp [hret, response])
        | FINISH =>
            simp only [Request.handle, hok, htag, Request.processRequest, if_true] at hnext
            rw [hnext]
            exact .replace htag [.dispatch c.op h.req.id] (by simp)

/-- What has been done is never undone. -/
theorem step_log {h next : Handler} {c : Completion} (hstep : h.step c = some next) :
    ∃ new, next.log = h.log ++ new := by
  cases (step_stepped hstep).2 with
  | reply hok htag message rest => exact ⟨_, reply_log h c.op message rest⟩
  | dropped | proceed | stop | commit | replace => exact ⟨_, rfl⟩

/-- A pack in one message, and then the last message. -/
def onePack : List ReceivePackRequest := [{ data := [80] }, { done := true }]

/-- The completions of a stream that carries it without trouble. -/
def smoothUpload (stream : Nat) : List Completion :=
  [⟨⟨.CONNECT, stream⟩, true, "success"⟩, ⟨⟨.READ, stream⟩, true, "success"⟩,
    ⟨⟨.WRITE, stream⟩, true, "success"⟩, ⟨⟨.READ, stream⟩, true, "success"⟩,
    ⟨⟨.WRITE, stream⟩, true, "success"⟩, ⟨⟨.DONE, stream⟩, true, "success"⟩,
    ⟨⟨.FINISH, stream⟩, true, "success"⟩]

end GitRpc.Requests
