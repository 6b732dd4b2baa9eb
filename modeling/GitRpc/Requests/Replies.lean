import GitRpc.Library.Histories
import GitRpc.Requests.RecvPackStream

/-!
What a success reply on a stream is worth. A reply is written when a message
arrives, before its data is appended, and nothing that happens to the append
afterwards reaches the client: the response that `ReadMessage` builds for a
failed append is read by nobody.
-/

namespace GitRpc.Requests

open Common Library.Runs Library.Histories

/-- The pack data that has arrived on a stream, message by message. -/
def receivedData (log : List Action) (stream : Nat) : List (List UInt8) :=
  packData (receivedOn log stream)

/-- The pack data of a stream that was appended with success. -/
def appendedData (log : List Action) (stream : Nat) : List (List UInt8) :=
  log.filterMap fun
    | .packAppend i data ret => if i = stream ∧ ret = "success" then some data else none
    | _ => none

def AppendFailed (log : List Action) (stream : Nat) : Prop :=
  ∃ data ret, .packAppend stream data ret ∈ log ∧ ret ≠ "success"

/-- All pack data of the stream has been appended, and no append failed. -/
def AllAppended (log : List Action) (stream : Nat) : Prop :=
  appendedData log stream = receivedData log stream ∧ ¬ AppendFailed log stream

/-- What an action says about those before it. -/
def Justified (before : List Action) : Action → Prop
  | .write stream r => r.success = true → AllAppended before stream
  | .writeAndFinish stream r _ => r.success = true →
      AllAppended before stream ∧ .packCommit stream "success" ∈ before
  | .packCommit stream _ => ¬ AppendFailed before stream
  | _ => True

/-- Every success reply, and every commit, was justified when it was made. -/
def RepliesSound (log : List Action) : Prop := Grounded Justified log

/-- The event brings the request no message with pack data in it. -/
def NoData (h : Handler) (c : Completion) : Prop :=
  c.op = ⟨.READ, h.req.id⟩ → c.ok = true →
    ∀ message ∈ (h.unread h.req.id).head?, message.data = []

/-- A handler that has never had any pack data to deal with. -/
structure Dataless (h : Handler) : Prop where
  sound : RepliesSound h.log
  received : ∀ stream, h.req.id ≤ stream → receivedData h.log stream = []
  appends : ∀ stream data ret, .packAppend stream data ret ∉ h.log
  msg : h.req.msg.data = []
  closed : h.req.repoOpen = false

theorem receivedData_append (old new : List Action) (stream : Nat) :
    receivedData (old ++ new) stream = receivedData old stream ++ receivedData new stream := by
  unfold receivedData
  rw [receivedOn_append, packData_append]

theorem appendedData_eq_nil {log : List Action} {stream : Nat}
    (hnone : ∀ stream data ret, .packAppend stream data ret ∉ log) :
    appendedData log stream = [] := by
  apply List.filterMap_eq_nil_iff.mpr
  intro action haction
  cases action with
  | packAppend i data ret => exact absurd haction (hnone i data ret)
  | _ => rfl

theorem allAppended_of_none {log : List Action} {stream : Nat}
    (hnone : ∀ stream data ret, .packAppend stream data ret ∉ log)
    (hreceived : receivedData log stream = []) : AllAppended log stream := by
  refine ⟨by rw [appendedData_eq_nil hnone, hreceived], ?_⟩
  rintro ⟨data, ret, hmem, -⟩
  exact hnone stream data ret hmem

/-- `ReadMessage` on a message without data starts operations only. -/
theorem readMessage_dataless {r : Request} (hmsg : r.msg.data = []) (status : RequestStatus)
    (ret : String) :
    ∃ turn, { r with currentStatus := status }.readMessage ret = turn ∧ turn.req.id = r.id ∧
      turn.req.msg.data = [] ∧ turn.req.repoOpen = r.repoOpen ∧
      ∀ action ∈ turn.actions, action = .startRead r.id ∨ action = .setAlarm r.id := by
  refine ⟨_, rfl, ?_⟩
  unfold Request.readMessage Request.checkDone
  cases r.isRunning with
  | false => simp [hmsg]
  | true => cases hdone : r.msg.done <;> simp [hmsg]

/-- The actions that neither need nor give a justification. -/
def Action.Neutral : Action → Prop
  | .received _ _ => False
  | .packAppend _ _ _ => False
  | .write _ _ => False
  | .packCommit _ _ => False
  | .writeAndFinish _ _ _ => False
  | _ => True

theorem receivedData_neutral {actions : List Action}
    (hneutral : ∀ action ∈ actions, action.Neutral) (stream : Nat) :
    receivedData actions stream = [] := by
  have hnone : receivedOn actions stream = [] := by
    apply List.filterMap_eq_nil_iff.mpr
    intro action haction
    cases action with
    | received i message => exact absurd (hneutral _ haction) id
    | _ => rfl
  rw [receivedData, hnone]
  rfl

/-- A turn of neutral actions. -/
theorem Dataless.take {h : Handler} (hh : Dataless h) {op : Op} {turn : Turn}
    (hid : h.req.id ≤ turn.req.id) (hmsg : turn.req.msg.data = [])
    (hclosed : turn.req.repoOpen = false)
    (hneutral : ∀ action ∈ turn.actions, action.Neutral) :
    Dataless (h.take op turn) where
  sound := by
    apply hh.sound.append_of_forall
    intro action haction before
    have hfree := hneutral action haction
    cases action with
    | write | packCommit | writeAndFinish => exact absurd hfree id
    | _ => trivial
  received := by
    intro stream hstream
    rw [take_log, receivedData_append, hh.received stream (hid.trans hstream),
      receivedData_neutral hneutral]
    rfl
  appends := by
    intro stream data ret hmem
    rcases List.mem_append.mp hmem with hold | hnew
    · exact hh.appends stream data ret hold
    · exact hneutral _ hnew
  msg := hmsg
  closed := hclosed

/-- A message for the request, and the reply to it. -/
theorem Dataless.reply {h : Handler} (hh : Dataless h) (op : Op) {message : ReceivePackRequest}
    (rest : List ReceivePackRequest) (hdata : message.data = []) :
    Dataless (h.reply op message rest) := by
  have happends : ∀ stream data ret, Action.packAppend stream data ret ∉
      (h.reply op message rest).log := by
    intro stream data ret hmem
    exact hh.appends stream data ret (by simpa using hmem)
  have hreceived : ∀ stream, h.req.id ≤ stream →
      receivedData (h.log ++ [.received op.owner message, .dispatch op h.req.id]) stream = [] := by
    intro stream hstream
    rw [receivedData_append, hh.received stream hstream]
    by_cases hsame : op.owner = stream
    · simp [receivedData, receivedOn, packData, hdata]
    · simp [receivedData, receivedOn, packData, hsame]
  refine ⟨?_, ?_, happends, hdata, hh.closed⟩
  · rw [reply_log]
    refine grounded_append.mpr ⟨hh.sound, ?_⟩
    simp only [grounded_cons, grounded_nil, and_true]
    refine ⟨trivial, trivial, fun _ => allAppended_of_none ?_ (hreceived _ le_rfl)⟩
    intro stream data ret hmem
    exact hh.appends stream data ret (by simpa using hmem)
  · intro stream hstream
    have hold := hreceived stream hstream
    rw [receivedData_append] at hold
    rw [reply_log, receivedData_append]
    simpa [receivedData, receivedOn, packData] using hold

theorem Dataless.step {h next : Handler} {c : Completion} (hh : Dataless h)
    (hcond : NoData h c) (hstep : h.step c = some next) : Dataless next := by
  obtain ⟨-, hstepped⟩ := step_stepped hstep
  cases hstepped with
  | dropped hok htag => exact hh.take le_rfl hh.msg hh.closed (by simp)
  | proceed hok htag =>
      obtain ⟨turn, hturn, hid, hmsg, hclosed, hactions⟩ :=
        readMessage_dataless hh.msg c.op.tag c.ret
      rw [hturn]
      refine hh.take hid.ge hmsg (hclosed.trans hh.closed) ?_
      intro action haction
      rcases List.mem_cons.mp haction with rfl | haction
      · trivial
      · rcases hactions action haction with rfl | rfl <;> trivial
  | reply hok htag message rest hunread howner =>
      refine hh.reply c.op rest (hcond ?_ hok message ?_)
      · rw [← htag, ← howner]
      · rw [← howner, hunread]
        rfl
  | stop hok htag hopen =>
      exact hh.take le_rfl hh.msg hopen (by simp [Request.halt, Action.Neutral])
  | commit hok htag hopen resp last status hsuccess =>
      rw [hh.closed] at hopen
      cases hopen
  | replace htag dispatched hdispatched =>
      refine hh.take (Nat.le_succ _) rfl rfl ?_
      intro action haction
      rcases renew_mem hdispatched haction with rfl | rfl | rfl <;> trivial

/-- A message with data is answered before anything is done with the data. -/
theorem noData_of_sound {h next : Handler} {c : Completion} (hh : Dataless h)
    (hstep : h.step c = some next) (hsound : RepliesSound next.log) : NoData h c := by
  intro hop hok message hhead
  obtain ⟨-, hstepped⟩ := step_stepped hstep
  have htag : c.op.tag = .READ := by rw [hop]
  cases hstepped with
  | reply _ _ head rest hunread =>
      rw [hop] at hunread
      rw [hunread] at hhead
      cases hhead
      have hreply := hsound (h.log ++ [.received h.req.id message, .dispatch c.op h.req.id])
        (.write h.req.id ⟨true, "Success"⟩) [] (by simp [hop])
      have hall := (hreply rfl).1
      rw [appendedData_eq_nil fun stream data ret hmem =>
        hh.appends stream data ret (by simpa using hmem), receivedData_append,
        hh.received _ le_rfl] at hall
      simpa [receivedData, receivedOn, packData] using hall
  | dropped hlost => simp [hok] at hlost
  | proceed _ hother => simp [htag] at hother
  | stop _ hother => simp [htag] at hother
  | commit _ hother => simp [htag] at hother
  | replace hother => simp [htag] at hother

theorem sound_iff_noData (h : Handler) (c : Completion) (next : Handler) (hh : Dataless h)
    (hstep : h.step c = some next) : RepliesSound next.log ↔ NoData h c := by
  constructor
  · exact noData_of_sound hh hstep
  · intro hcond
    exact (hh.step hcond hstep).sound

theorem dataless_init (sent : Nat → List ReceivePackRequest) :
    Dataless (Handler.init sent) := by
  refine ⟨?_, by simp [Handler.init, receivedData, receivedOn, packData],
    by simp [Handler.init], rfl, rfl⟩
  simp [RepliesSound, Handler.init, grounded_cons, grounded_nil, Justified]

/-- For whatever the clients send, whatever the futures return and in
whatever way the completions arrive: the replies are sound exactly as long
as no message with pack data reaches its request. -/
theorem replies_sound_iff_no_data (sent : Nat → List ReceivePackRequest)
    (es : List Completion) :
    Always Handler.step (fun _ _ next => RepliesSound next.log) (Handler.init sent) es ↔
      StepsMeet Handler.step NoData (Handler.init sent) es :=
  always_iff_stepsMeet sound_iff_noData (fun _ _ _ hh hcond hstep => hh.step hcond hstep)
    (dataless_init sent) es

/-- A stream of two messages on which the append fails. -/
def lostAppend : List Action :=
  [.accept 0, .dispatch ⟨.CONNECT, 0⟩ 0, .startRead 0,
    .received 0 { data := [80] }, .dispatch ⟨.READ, 0⟩ 0, .write 0 ⟨true, "Success"⟩,
    .dispatch ⟨.WRITE, 0⟩ 0, .startRead 0, .packAppend 0 [80] "no space left on device",
    .received 0 { done := true }, .dispatch ⟨.READ, 0⟩ 0, .write 0 ⟨true, "Success"⟩,
    .dispatch ⟨.WRITE, 0⟩ 0, .startRead 0, .setAlarm 0,
    .dispatch ⟨.DONE, 0⟩ 0, .packCommit 0 "success",
    .writeAndFinish 0 ⟨true, "success"⟩ ⟨.OK, ""⟩]

/-- The client gets a success reply to both messages, and after the commit a
final one. -/
theorem lostAppend_is_answered_success :
    ∃ final, exec Handler.step (Handler.init fun _ => onePack)
        [⟨⟨.CONNECT, 0⟩, true, "success"⟩, ⟨⟨.READ, 0⟩, true, "success"⟩,
          ⟨⟨.WRITE, 0⟩, true, "no space left on device"⟩, ⟨⟨.READ, 0⟩, true, "success"⟩,
          ⟨⟨.WRITE, 0⟩, true, "success"⟩, ⟨⟨.DONE, 0⟩, true, "success"⟩] = some final ∧
      final.log = lostAppend ∧ ¬ RepliesSound final.log := by
  refine ⟨_, rfl, rfl, fun hsound => ?_⟩
  obtain ⟨⟨-, hfine⟩, -⟩ := hsound lostAppend.dropLast _ [] rfl rfl
  exact hfine ⟨[80], "no space left on device", by decide, by decide⟩

end GitRpc.Requests
