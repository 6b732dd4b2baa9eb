import GitRpc.Requests.RecvPackStream

/-!
One stream at a time: what is on the queue for the current stream, how far
its messages have got, and what is left of the streams before it. The
messages of the current stream split into those that `ReadMessage` has dealt
with, at most one that has been answered and not dealt with yet, and those
that are still unread.

The account holds for clients that keep an order of their own: once they have
sent both pack data and a last message they send nothing more, and with pack
data they send at most one last message. Each action of the handler has a
lemma that carries the account over it.
-/

namespace GitRpc.Requests

open Common

def AnyData (messages : List ReceivePackRequest) : Prop :=
  ∃ message ∈ messages, message.data ≠ []

def countDone (messages : List ReceivePackRequest) : Nat :=
  messages.countP fun message => message.done

def AnyDone (messages : List ReceivePackRequest) : Prop := 0 < countDone messages

/-- A stream comes to its last write only with both, and only then is the next
one accepted. -/
def CanFinish (messages : List ReceivePackRequest) : Prop := AnyDone messages ∧ AnyData messages

/-- The order that a client has to keep. -/
structure Orderly (messages : List ReceivePackRequest) : Prop where
  last : ∀ before message after, messages = before ++ message :: after →
    ¬ (AnyDone before ∧ AnyData before)
  once : AnyData messages → countDone messages ≤ 1

/-- Nothing comes after a message that says it is the last. -/
def NothingAfterDone (messages : List ReceivePackRequest) : Prop :=
  ∀ message ∈ messages.dropLast, message.done = false

theorem nothingAfterDone_onePack : NothingAfterDone onePack := by
  simp [NothingAfterDone, onePack]

/-- The operations with this tag that are outstanding for the current stream. -/
def Handler.count (h : Handler) (tag : RequestStatus) : Nat :=
  h.outstanding.count ⟨tag, h.req.id⟩

structure Tracks (sent : Nat → List ReceivePackRequest) (h : Handler)
    (handled answered : List ReceivePackRequest) : Prop where
  split : sent h.req.id = handled ++ answered ++ h.unread h.req.id
  fresh : ∀ stream, h.req.id < stream → h.unread stream = sent stream
  owners : ∀ op ∈ h.outstanding, op.owner ≤ h.req.id
  stale : ∀ op ∈ h.outstanding, op.owner < h.req.id →
    op.tag = .READ ∧ h.unread op.owner = []
  turn : h.count .CONNECT + h.count .READ + h.count .WRITE ≤ 1
  write : h.count .WRITE + h.count .FINISH ≤ 1
  connecting : 0 < h.count .CONNECT → handled = [] ∧ answered = [] ∧ h.req.msg = {}
  reading : 0 < h.count .READ → answered = []
  writing : 0 < h.count .WRITE → answered = [h.req.msg]
  opened : h.req.repoOpen = true → AnyData handled
  alarms : h.count .DONE ≤ countDone handled
  stopped : h.req.isRunning = false → h.count .DONE + 1 ≤ countDone handled
  finishing : 0 < h.count .FINISH → AnyDone handled ∧ AnyData handled ∧
    h.req.isRunning = false ∧ h.req.repoOpen = false

variable {sent : Nat → List ReceivePackRequest} {h : Handler} {op : Op}
  {handled answered : List ReceivePackRequest}

theorem countDone_append (first second : List ReceivePackRequest) :
    countDone (first ++ second) = countDone first + countDone second :=
  List.countP_append

theorem anyDone_iff {messages : List ReceivePackRequest} :
    AnyDone messages ↔ ∃ message ∈ messages, message.done = true :=
  List.countP_pos_iff

/-- Where a last message has been sent, it is the last one. -/
theorem NothingAfterDone.ends {messages : List ReceivePackRequest}
    (hsent : NothingAfterDone messages) (hdone : AnyDone messages) :
    ∃ before final, messages = before ++ [final] ∧ final.done = true ∧
      ∀ message ∈ before, message.done = false := by
  have hne : messages ≠ [] := by
    rintro rfl
    exact absurd hdone (by simp [AnyDone, countDone])
  have hsplit := List.dropLast_append_getLast hne
  refine ⟨messages.dropLast, messages.getLast hne, hsplit.symm, ?_, hsent⟩
  obtain ⟨message, hmem, hmessage⟩ := anyDone_iff.mp hdone
  rw [← hsplit] at hmem
  rcases List.mem_append.mp hmem with hbefore | hlast
  · rw [hsent message hbefore] at hmessage
    cases hmessage
  · rwa [← List.mem_singleton.mp hlast]

/-- The simplest way to keep the order. -/
theorem NothingAfterDone.orderly {messages : List ReceivePackRequest}
    (hsent : NothingAfterDone messages) : Orderly messages := by
  constructor
  · rintro before message after rfl ⟨hdone, -⟩
    obtain ⟨done, hmem, hdone⟩ := anyDone_iff.mp hdone
    have hearly : done ∈ (before ++ message :: after).dropLast := by
      rw [List.dropLast_append_of_ne_nil (by simp)]
      exact List.mem_append_left _ hmem
    rw [hsent done hearly] at hdone
    cases hdone
  · intro _
    by_cases hdone : AnyDone messages
    · obtain ⟨before, final, rfl, hfinal, hbefore⟩ := hsent.ends hdone
      have hnone : countDone before = 0 := by
        apply List.countP_eq_zero.mpr
        intro message hmem
        simp [hbefore message hmem]
      rw [countDone_append, hnone]
      simp [countDone, hfinal]
    · unfold AnyDone at hdone
      omega

theorem AnyData.append_left {first : List ReceivePackRequest} (hany : AnyData first)
    (second : List ReceivePackRequest) : AnyData (first ++ second) := by
  obtain ⟨message, hmem, hdata⟩ := hany
  exact ⟨message, List.mem_append_left second hmem, hdata⟩

theorem AnyDone.append_left {first : List ReceivePackRequest} (hany : AnyDone first)
    (second : List ReceivePackRequest) : AnyDone (first ++ second) := by
  unfold AnyDone at hany ⊢
  rw [countDone_append]
  omega

theorem AnyData.append_singleton {message : ReceivePackRequest} (hdata : message.data ≠ [])
    (first : List ReceivePackRequest) : AnyData (first ++ [message]) :=
  ⟨message, by simp, hdata⟩

/-- An operation that leaves the queue is counted out once. -/
theorem count_erase (hmem : op ∈ h.outstanding) (x : Op) :
    h.outstanding.count x = (h.outstanding.erase op).count x + if op = x then 1 else 0 := by
  by_cases hx : op = x
  · subst hx
    have hpos := List.count_pos_iff.mpr hmem
    rw [List.count_erase_self, if_pos rfl]
    omega
  · rw [List.count_erase_of_ne (Ne.symm hx), if_neg hx]
    omega

theorem count_pos (hmem : op ∈ h.outstanding) (howner : op.owner = h.req.id) :
    0 < h.count op.tag := by
  unfold Handler.count
  rw [← howner]
  exact List.count_pos_iff.mpr hmem

@[simp] theorem checkDone_id (r : Request) : r.checkDone.req.id = r.id := by
  unfold Request.checkDone
  split <;> rfl

@[simp] theorem checkDone_isRunning (r : Request) :
    r.checkDone.req.isRunning = r.isRunning := by
  unfold Request.checkDone
  split <;> rfl

@[simp] theorem checkDone_repoOpen (r : Request) : r.checkDone.req.repoOpen = r.repoOpen := by
  unfold Request.checkDone
  split <;> rfl

@[simp] theorem checkDone_actions (r : Request) :
    r.checkDone.actions = if r.msg.done = true then [.setAlarm r.id] else [] := by
  unfold Request.checkDone
  split <;> rfl

/-- What `ReadMessage` does to a running request: it starts a read, appends
the data of the message, and may set the alarm if the message is the last. -/
structure Reads (r : Request) (ret : String) (turn : Turn) : Prop where
  id : turn.req.id = r.id
  running : turn.req.isRunning = true
  opened : turn.req.repoOpen = true → r.repoOpen = true ∨ r.msg.data ≠ []
  actions : ∃ armed : Bool, (armed = true → r.msg.done = true) ∧
    turn.actions = .startRead r.id ::
      ((if r.msg.data = [] then [] else [.packAppend r.id r.msg.data ret]) ++
        if armed = true then [.setAlarm r.id] else [])

theorem readMessage_running {r : Request} (hrun : r.isRunning = true) (status : RequestStatus)
    (ret : String) : Reads r ret ({ r with currentStatus := status }.readMessage ret) := by
  unfold Request.readMessage
  rw [if_pos hrun]
  by_cases hdata : r.msg.data = []
  · exact ⟨by simp [hdata], by simp [hdata, hrun], by simp [hdata],
      r.msg.done, fun hdone => hdone, by simp [hdata]⟩
  · have hlength : r.msg.data.length > 0 := List.length_pos_of_ne_nil hdata
    by_cases hret : ret = "success"
    · exact ⟨by simp [hlength, hret], by simp [hlength, hret, hrun], fun _ => .inr hdata,
        r.msg.done, fun hdone => hdone, by simp [hlength, hret, hdata]⟩
    · exact ⟨by simp [hlength, hret], by simp [hlength, hret, hrun], fun _ => .inr hdata,
        false, by simp, by simp [hlength, hret, hdata]⟩

theorem readMessage_stopped {r : Request} (hrun : r.isRunning = false)
    (status : RequestStatus) (ret : String) :
    { r with currentStatus := status }.readMessage ret = ⟨{ r with currentStatus := status }, []⟩ := by
  simp [Request.readMessage, hrun]

theorem Reads.mem {r : Request} {ret : String} {turn : Turn} (hreads : Reads r ret turn)
    {action : Action} (haction : action ∈ turn.actions) :
    action = .startRead r.id ∨ action = .packAppend r.id r.msg.data ret ∨
      action = .setAlarm r.id := by
  obtain ⟨armed, -, hactions⟩ := hreads.actions
  rw [hactions] at haction
  by_cases hdata : r.msg.data = []
  · cases armed <;> simp [hdata] at haction <;> tauto
  · cases armed <;> simp [hdata] at haction <;> tauto

/-- What such a turn puts on the queue. -/
theorem Reads.starts {r : Request} {ret : String} {turn : Turn} (hreads : Reads r ret turn) :
    ∃ armed : Bool, (armed = true → r.msg.done = true) ∧
      turn.actions.filterMap Action.starts =
        ⟨.READ, r.id⟩ :: if armed = true then [⟨.DONE, r.id⟩] else [] := by
  obtain ⟨armed, harmed, hactions⟩ := hreads.actions
  refine ⟨armed, harmed, ?_⟩
  rw [hactions]
  by_cases hdata : r.msg.data = []
  · rw [if_pos hdata]
    cases armed <;> rfl
  · rw [if_neg hdata]
    cases armed <;> rfl

/-- The counts of the current stream over a turn that stays on it. -/
theorem count_take (hmem : op ∈ h.outstanding) (howner : op.owner = h.req.id) {turn : Turn}
    {started : List Op} (hid : turn.req.id = h.req.id)
    (hstarts : turn.actions.filterMap Action.starts = started) (tag : RequestStatus) :
    (h.take op turn).count tag + (if op.tag = tag then 1 else 0) =
      h.count tag + started.count ⟨tag, h.req.id⟩ := by
  have hsame : op = ⟨tag, h.req.id⟩ ↔ op.tag = tag := by
    rw [← howner]
    cases op
    simp
  have herase := count_erase hmem ⟨tag, h.req.id⟩
  simp only [hsame] at herase
  simp only [Handler.count, take_req, hid, take_outstanding, List.count_append, hstarts]
  omega

/-- A turn that starts nothing and is not for the last write. -/
theorem count_finish_silent {turn : Turn} (htag : op.tag ≠ .FINISH)
    (hid : turn.req.id = h.req.id) (hstarts : turn.actions.filterMap Action.starts = []) :
    (h.take op turn).count .FINISH = h.count .FINISH := by
  have hne : (⟨.FINISH, h.req.id⟩ : Op) ≠ op := by
    rintro rfl
    exact htag rfl
  simp [Handler.count, hid, hstarts, List.count_erase_of_ne hne]

theorem count_reply (hmem : op ∈ h.outstanding) (howner : op.owner = h.req.id)
    (message : ReceivePackRequest) (rest : List ReceivePackRequest) (tag : RequestStatus) :
    (h.reply op message rest).count tag + (if op.tag = tag then 1 else 0) =
      h.count tag + [Op.mk .WRITE h.req.id].count ⟨tag, h.req.id⟩ := by
  have hreceived : op ∈ (h.receive op.owner message rest).outstanding := hmem
  exact count_take hreceived howner rfl rfl tag

namespace Tracks

/-- Losing operations, and changes to what the account does not mention. -/
theorem mono {next : Handler} (t : Tracks sent h handled answered)
    (hsub : ∀ x, next.outstanding.count x ≤ h.outstanding.count x)
    (hid : next.req.id = h.req.id) (hmsg : next.req.msg = h.req.msg)
    (hopen : next.req.repoOpen = h.req.repoOpen) (hrun : next.req.isRunning = h.req.isRunning)
    (hunread : next.unread = h.unread) : Tracks sent next handled answered := by
  have hcount : ∀ tag, next.count tag ≤ h.count tag := by
    intro tag
    unfold Handler.count
    rw [hid]
    exact hsub _
  have hmem : ∀ op ∈ next.outstanding, op ∈ h.outstanding := by
    intro op hop
    exact List.count_pos_iff.mp ((List.count_pos_iff.mpr hop).trans_le (hsub op))
  constructor
  · rw [hid, hunread]
    exact t.split
  · rw [hid, hunread]
    exact t.fresh
  · rw [hid]
    exact fun op hop => t.owners op (hmem op hop)
  · rw [hid, hunread]
    exact fun op hop => t.stale op (hmem op hop)
  · have hturn := t.turn
    have hc := hcount .CONNECT
    have hr := hcount .READ
    have hw := hcount .WRITE
    omega
  · have hwrite := t.write
    have hw := hcount .WRITE
    have hf := hcount .FINISH
    omega
  · rw [hmsg]
    exact fun hpos => t.connecting (hpos.trans_le (hcount _))
  · exact fun hpos => t.reading (hpos.trans_le (hcount _))
  · rw [hmsg]
    exact fun hpos => t.writing (hpos.trans_le (hcount _))
  · rw [hopen]
    exact t.opened
  · exact (hcount _).trans t.alarms
  · rw [hrun]
    exact fun hstop => (Nat.succ_le_succ (hcount _)).trans (t.stopped hstop)
  · rw [hrun, hopen]
    exact fun hpos => t.finishing (hpos.trans_le (hcount _))

/-- Everything but a `Read` is for the current stream. -/
theorem current (t : Tracks sent h handled answered) (hmem : op ∈ h.outstanding)
    (htag : op.tag ≠ .READ) : op = ⟨op.tag, h.req.id⟩ := by
  have howner := t.owners op hmem
  rcases Nat.lt_or_eq_of_le howner with hlt | heq
  · exact absurd (t.stale op hmem hlt).1 htag
  · rw [← heq]

/-- So is a `Read` that brings a message: with orderly clients none comes for a
request that has been deleted. -/
theorem current_of_unread (t : Tracks sent h handled answered) (hmem : op ∈ h.outstanding)
    {message : ReceivePackRequest} {rest : List ReceivePackRequest}
    (hunread : h.unread op.owner = message :: rest) : op.owner = h.req.id := by
  have howner := t.owners op hmem
  rcases Nat.lt_or_eq_of_le howner with hlt | heq
  · rw [(t.stale op hmem hlt).2] at hunread
    cases hunread
  · exact heq

/-- Both orders to begin a read find the queue empty of the other two. -/
theorem finish_free_of_proceed (t : Tracks sent h handled answered) (hmem : op ∈ h.outstanding)
    (htag : op.tag = .CONNECT ∨ op.tag = .WRITE) : h.count .FINISH = 0 := by
  have hcurrent := t.current hmem (by rcases htag with htag | htag <;> simp [htag])
  have hpos := count_pos hmem (by rw [hcurrent])
  rcases htag with htag | htag
  · rw [htag] at hpos
    by_contra hfinish
    obtain ⟨hdone, -⟩ := t.finishing (Nat.pos_of_ne_zero hfinish)
    rw [(t.connecting hpos).1] at hdone
    exact absurd hdone (by simp [AnyDone, countDone])
  · rw [htag] at hpos
    have hwrite := t.write
    omega

theorem unfinished (t : Tracks sent h handled answered) (hrun : h.req.isRunning = true) :
    h.count .FINISH = 0 := by
  by_contra hfinish
  obtain ⟨-, -, hstop, -⟩ := t.finishing (Nat.pos_of_ne_zero hfinish)
  rw [hrun] at hstop
  cases hstop

theorem dropped (t : Tracks sent h handled answered) :
    Tracks sent (h.take op ⟨h.req, []⟩) handled answered := by
  refine t.mono (fun x => ?_) rfl rfl rfl rfl rfl
  simpa using List.erase_sublist.count_le x

/-- A turn that stays on the stream and starts operations on it only. -/
theorem take_owners (t : Tracks sent h handled answered) {turn : Turn} {started : List Op}
    (hid : turn.req.id = h.req.id) (hstarts : turn.actions.filterMap Action.starts = started)
    (hstarted : ∀ x ∈ started, x.owner = h.req.id) :
    ∀ x ∈ (h.take op turn).outstanding, x.owner ≤ (h.take op turn).req.id := by
  simp only [take_outstanding, take_req, hid, hstarts, List.mem_append]
  rintro x (hold | hnew)
  · exact t.owners x (List.mem_of_mem_erase hold)
  · exact (hstarted x hnew).le

theorem take_stale (t : Tracks sent h handled answered) {turn : Turn} {started : List Op}
    (hid : turn.req.id = h.req.id) (hstarts : turn.actions.filterMap Action.starts = started)
    (hstarted : ∀ x ∈ started, x.owner = h.req.id) :
    ∀ x ∈ (h.take op turn).outstanding, x.owner < (h.take op turn).req.id →
      x.tag = .READ ∧ (h.take op turn).unread x.owner = [] := by
  simp only [take_outstanding, take_req, take_unread, hid, hstarts, List.mem_append]
  rintro x (hold | hnew) hlt
  · exact t.stale x (List.mem_of_mem_erase hold) hlt
  · rw [hstarted x hnew] at hlt
    exact absurd hlt (lt_irrefl _)

/-- `ReadMessage` deals with the message that was answered, if there is one. -/
theorem proceed (t : Tracks sent h handled answered) (hmem : op ∈ h.outstanding)
    (htag : op.tag = .CONNECT ∨ op.tag = .WRITE) {ret : String} {turn : Turn}
    (hreads : Reads h.req ret turn) :
    Tracks sent (h.take op (turn.dispatched op h.req.id)) (handled ++ answered) [] := by
  have hcurrent := t.current hmem (by rcases htag with htag | htag <;> simp [htag])
  have howner : op.owner = h.req.id := by rw [hcurrent]
  have hpos := count_pos hmem howner
  have hnofinish := t.finish_free_of_proceed hmem htag
  have hturn := t.turn
  -- the message in the buffer is the empty one, or the one that was answered
  have hmsg : h.req.msg = {} ∨ answered = [h.req.msg] := by
    rcases htag with htag | htag
    · exact .inl (t.connecting (htag ▸ hpos)).2.2
    · exact .inr (t.writing (htag ▸ hpos))
  obtain ⟨armed, harmed, hstarts⟩ := hreads.starts
  have hnext : ∀ tag, (h.take op (turn.dispatched op h.req.id)).count tag =
      if tag = .READ then 1
      else if tag = .DONE then h.count .DONE + (if armed = true then 1 else 0) else 0 := by
    intro tag
    have hcount : (h.take op (turn.dispatched op h.req.id)).count tag + _ = _ :=
      count_take hmem howner hreads.id hstarts tag
    rcases htag with htag | htag <;> rw [htag] at hcount hpos <;>
      cases tag <;> cases armed <;> simp at hcount ⊢ <;> omega
  have halarms : h.count .DONE + (if armed = true then 1 else 0) ≤
      countDone (handled ++ answered) := by
    have hold := t.alarms
    rw [countDone_append]
    cases armed with
    | false => simpa using hold.trans (Nat.le_add_right _ _)
    | true =>
        have hdone := harmed rfl
        rcases hmsg with hmsg | hmsg
        · simp [hmsg] at hdone
        · have hlast : countDone answered = 1 := by simp [hmsg, countDone, hdone]
          rw [hlast, if_pos rfl]
          omega
  have hstarted : ∀ x ∈ Op.mk .READ h.req.id ::
      (if armed = true then [Op.mk .DONE h.req.id] else []), x.owner = h.req.id := by
    cases armed <;> simp
  refine ⟨?_, ?_, t.take_owners hreads.id hstarts hstarted,
    t.take_stale hreads.id hstarts hstarted, ?_, ?_, ?_, fun _ => rfl, ?_, ?_, ?_, ?_, ?_⟩
  · rw [take_req, take_unread, dispatched_req, hreads.id, t.split]
    simp
  · rw [take_req, take_unread, dispatched_req, hreads.id]
    exact t.fresh
  · simp [hnext]
  · simp [hnext]
  · simp [hnext]
  · simp [hnext]
  · intro hopen
    rcases hreads.opened hopen with hold | hdata
    · exact (t.opened hold).append_left answered
    · rcases hmsg with hmsg | hmsg
      · exact absurd (by rw [hmsg]) hdata
      · rw [hmsg]
        exact AnyData.append_singleton hdata handled
  · rw [hnext]
    simpa using halarms
  · rw [take_req, dispatched_req, hreads.running]
    rintro ⟨⟩
  · simp [hnext]

/-- Once stopped, the request leaves an answered message where it is. -/
theorem idle (t : Tracks sent h handled answered) (op : Op) (status : RequestStatus) :
    Tracks sent (h.take op
      (Turn.dispatched ⟨{ h.req with currentStatus := status }, []⟩ op h.req.id))
      handled answered := by
  refine t.mono (fun x => ?_) rfl rfl rfl rfl rfl
  rw [take_outstanding, dispatched_starts, List.filterMap_nil, List.append_nil]
  exact List.erase_sublist.count_le x

/-- An orderly client sends nothing after the stream has begun to finish. -/
theorem unread_eq_nil (t : Tracks sent h handled answered)
    (hsent : Orderly (sent h.req.id)) (hdone : AnyDone handled) (hdata : AnyData handled) :
    answered = [] ∧ h.unread h.req.id = [] := by
  have hsplit := t.split
  rw [List.append_assoc] at hsplit
  cases hrest : answered ++ h.unread h.req.id with
  | nil => exact List.append_eq_nil_iff.mp hrest
  | cons message rest =>
      rw [hrest] at hsplit
      exact absurd ⟨hdone, hdata⟩ (hsent.last handled message rest hsplit)

/-- A message arrives and is answered. -/
theorem reply (t : Tracks sent h handled answered) (hsent : Orderly (sent h.req.id))
    (hmem : op ∈ h.outstanding) (htag : op.tag = .READ) {message : ReceivePackRequest}
    {rest : List ReceivePackRequest} (hunread : h.unread op.owner = message :: rest) :
    h.count .FINISH = 0 ∧ Tracks sent (h.reply op message rest) handled [message] := by
  have howner := t.current_of_unread hmem hunread
  have hpos := count_pos hmem howner
  rw [htag] at hpos
  have hanswered := t.reading hpos
  have hturn := t.turn
  rw [howner] at hunread
  have hnofinish : h.count .FINISH = 0 := by
    by_contra hfinish
    obtain ⟨hdone, hdata, -⟩ := t.finishing (Nat.pos_of_ne_zero hfinish)
    rw [(t.unread_eq_nil hsent hdone hdata).2] at hunread
    cases hunread
  have hnext : ∀ tag, (h.reply op message rest).count tag =
      if tag = .WRITE then 1 else if tag = .DONE then h.count .DONE else 0 := by
    intro tag
    have hcount := count_reply hmem howner message rest tag
    rw [htag] at hcount
    cases tag <;> simp at hcount ⊢ <;> omega
  refine ⟨hnofinish, ?_, ?_, ?_, ?_, ?_, ?_, ?_, ?_, ?_, t.opened, ?_, ?_, ?_⟩
  · rw [reply_id, reply_unread, howner, Function.update_self, t.split, hanswered, hunread]
    simp
  · intro stream hstream
    rw [reply_id] at hstream
    rw [reply_unread, howner, Function.update_of_ne (ne_of_gt hstream)]
    exact t.fresh stream hstream
  · intro x hx
    rw [reply_outstanding] at hx
    rcases List.mem_append.mp hx with hold | hnew
    · exact t.owners x (List.mem_of_mem_erase hold)
    · rw [List.mem_singleton.mp hnew]
      rfl
  · intro x hx hlt
    rw [reply_outstanding] at hx
    rcases List.mem_append.mp hx with hold | hnew
    · obtain ⟨hread, hnone⟩ := t.stale x (List.mem_of_mem_erase hold) hlt
      rw [reply_id] at hlt
      rw [reply_unread, howner, Function.update_of_ne (ne_of_lt hlt)]
      exact ⟨hread, hnone⟩
    · rw [List.mem_singleton.mp hnew] at hlt
      exact absurd hlt (lt_irrefl _)
  · simp [hnext]
  · simp [hnext]
  · simp [hnext]
  · simp [hnext]
  · intro _
    rw [reply_msg]
  · rw [hnext]
    exact t.alarms
  · rw [hnext]
    exact t.stopped
  · simp [hnext]

/-- The alarm of a stream that has received no pack data. -/
theorem stop (t : Tracks sent h handled answered) (hmem : op ∈ h.outstanding)
    (htag : op.tag = .DONE) :
    Tracks sent (h.take op (h.req.halt.dispatched op h.req.id)) handled answered := by
  have hcurrent := t.current hmem (by simp [htag])
  have howner : op.owner = h.req.id := by rw [hcurrent]
  have hpos := count_pos hmem howner
  rw [htag] at hpos
  have halarms := t.alarms
  have hstarts : (h.req.halt.dispatched op h.req.id).actions.filterMap Action.starts = [] := rfl
  have hnext : ∀ tag, (h.take op (h.req.halt.dispatched op h.req.id)).count tag =
      if tag = .DONE then h.count .DONE - 1 else h.count tag := by
    intro tag
    have hcount := count_take hmem howner rfl hstarts tag
    rw [htag] at hcount
    cases tag <;> simp at hcount ⊢ <;> omega
  refine ⟨t.split, t.fresh, t.take_owners rfl hstarts (by simp),
    t.take_stale rfl hstarts (by simp), ?_, ?_, ?_, ?_, ?_, t.opened, ?_, ?_, ?_⟩
  · simpa [hnext] using t.turn
  · simpa [hnext] using t.write
  · rw [hnext]
    exact t.connecting
  · rw [hnext]
    exact t.reading
  · rw [hnext]
    exact t.writing
  · rw [hnext, if_pos rfl]
    omega
  · intro _
    rw [hnext, if_pos rfl]
    omega
  · rw [hnext]
    intro hfinish
    obtain ⟨hdone, hdata, -, hopen⟩ := t.finishing hfinish
    exact ⟨hdone, hdata, rfl, hopen⟩

/-- The alarm of a stream with pack data: the commit and the last write. -/
theorem commit (t : Tracks sent h handled answered) (hsent : Orderly (sent h.req.id))
    (hmem : op ∈ h.outstanding) (htag : op.tag = .DONE) (hopen : h.req.repoOpen = true)
    (ret : String) (resp : Option CommonResponseInfo) (last : GenericResponse)
    (status : Status) :
    h.count .FINISH = 0 ∧ answered = [] ∧ h.unread h.req.id = [] ∧ AnyDone handled ∧
      Tracks sent (h.take op ((h.req.complete ret resp last status).dispatched op h.req.id))
        handled answered := by
  have hcurrent := t.current hmem (by simp [htag])
  have howner : op.owner = h.req.id := by rw [hcurrent]
  have hpos := count_pos hmem howner
  rw [htag] at hpos
  have halarms := t.alarms
  have hdone : AnyDone handled := hpos.trans_le halarms
  have hdata := t.opened hopen
  obtain ⟨hanswered, hunread⟩ := t.unread_eq_nil hsent hdone hdata
  have hnofinish : h.count .FINISH = 0 := by
    by_contra hfinish
    obtain ⟨-, -, -, hclosed⟩ := t.finishing (Nat.pos_of_ne_zero hfinish)
    rw [hopen] at hclosed
    cases hclosed
  have hnowrite : h.count .WRITE = 0 := by
    by_contra hwrite
    have hwriting := t.writing (Nat.pos_of_ne_zero hwrite)
    rw [hanswered] at hwriting
    cases hwriting
  have hstarts : ((h.req.complete ret resp last status).dispatched op
      h.req.id).actions.filterMap Action.starts = [⟨.FINISH, h.req.id⟩] := rfl
  have hnext : ∀ tag, (h.take op
      ((h.req.complete ret resp last status).dispatched op h.req.id)).count tag =
        if tag = .DONE then h.count .DONE - 1 else if tag = .FINISH then 1 else h.count tag := by
    intro tag
    have hcount := count_take hmem howner rfl hstarts tag
    rw [htag] at hcount
    cases tag <;> simp at hcount ⊢ <;> omega
  refine ⟨hnofinish, hanswered, hunread, hdone, t.split, t.fresh,
    t.take_owners rfl hstarts (by simp), t.take_stale rfl hstarts (by simp),
    ?_, ?_, ?_, ?_, ?_, ?_, ?_, ?_, ?_⟩
  · simpa [hnext] using t.turn
  · simp [hnext, hnowrite]
  · rw [hnext]
    exact t.connecting
  · rw [hnext]
    exact t.reading
  · rw [hnext]
    exact t.writing
  · rintro ⟨⟩
  · rw [hnext, if_pos rfl]
    omega
  · intro _
    rw [hnext, if_pos rfl]
    omega
  · intro _
    exact ⟨hdone, hdata, rfl, rfl⟩

/-- The stream is over: what it leaves on the queue are reads that nothing
will ever answer, and a new stream begins. -/
theorem replace (t : Tracks sent h handled answered) (hsent : Orderly (sent h.req.id))
    (hmem : op ∈ h.outstanding) (htag : op.tag = .FINISH) {dispatched : List Action}
    (hdispatched : ∀ action ∈ dispatched, action = .dispatch op h.req.id) :
    answered = [] ∧ h.unread h.req.id = [] ∧
      Tracks sent (h.take op (h.req.renew op dispatched)) [] [] := by
  have hcurrent := t.current hmem (by simp [htag])
  have howner : op.owner = h.req.id := by rw [hcurrent]
  have hpos := count_pos hmem howner
  rw [htag] at hpos
  obtain ⟨hdone, hdata, hstop, -⟩ := t.finishing hpos
  obtain ⟨hanswered, hunread⟩ := t.unread_eq_nil hsent hdone hdata
  have hstarts := renew_starts h.req op hdispatched
  -- of the current stream only reads remain
  have honly : ∀ x ∈ h.outstanding.erase op, x.owner = h.req.id → x.tag = .READ := by
    intro x hx hxowner
    have hxpos : 0 < (h.outstanding.erase op).count x := List.count_pos_iff.mpr hx
    have hcount := count_erase hmem x
    have hx' : x = ⟨x.tag, h.req.id⟩ := by rw [← hxowner]
    have hxcount : h.outstanding.count x = h.count x.tag := by
      unfold Handler.count
      rw [← hx']
    cases htagx : x.tag with
    | READ => rfl
    | CONNECT =>
        have hnone := (t.connecting (by rw [← htagx]; omega)).1
        rw [hnone] at hdone
        exact absurd hdone (by simp [AnyDone, countDone])
    | WRITE =>
        have hwrite := t.write
        rw [htagx] at hxcount
        omega
    | DONE =>
        have hstopped := t.stopped hstop
        have honce := hsent.once (by
          rw [t.split, List.append_assoc]
          exact hdata.append_left _)
        rw [t.split, hanswered, hunread, List.append_nil, List.append_nil] at honce
        rw [htagx] at hxcount
        omega
    | FINISH =>
        have hwrite := t.write
        have hsame : op = x := by rw [hcurrent, hx', htag, htagx]
        rw [htagx] at hxcount
        rw [if_pos hsame] at hcount
        omega
  have hmemNext : ∀ x ∈ (h.take op (h.req.renew op dispatched)).outstanding,
      x ∈ h.outstanding.erase op ∨ x = ⟨.CONNECT, h.req.id + 1⟩ := by
    intro x hx
    rw [take_outstanding, hstarts] at hx
    simpa using hx
  have hid : (h.req.renew op dispatched).req.id = h.req.id + 1 := rfl
  have hnext : ∀ tag, (h.take op (h.req.renew op dispatched)).count tag =
      if tag = .CONNECT then 1 else 0 := by
    intro tag
    have hnone : (h.outstanding.erase op).count ⟨tag, h.req.id + 1⟩ = 0 := by
      apply List.count_eq_zero.mpr
      intro hold
      have hle := t.owners _ (List.mem_of_mem_erase hold)
      exact absurd hle (by simp)
    simp only [Handler.count, take_outstanding, take_req, hid, hstarts, List.count_append,
      hnone]
    cases tag <;> simp
  refine ⟨hanswered, hunread, ?_, ?_, ?_, ?_, ?_, ?_, ?_, ?_, ?_, ?_, ?_, ?_, ?_⟩
  · rw [take_unread, take_req, hid]
    simpa using (t.fresh (h.req.id + 1) (Nat.lt_succ_self _)).symm
  · intro stream hstream
    exact t.fresh stream ((Nat.lt_succ_self _).trans hstream)
  · intro x hx
    rcases hmemNext x hx with hold | rfl
    · exact (t.owners x (List.mem_of_mem_erase hold)).trans (Nat.le_succ _)
    · exact le_rfl
  · intro x hx hlt
    rcases hmemNext x hx with hold | rfl
    · rcases Nat.lt_or_eq_of_le (Nat.lt_succ_iff.mp hlt) with hpast | hlast
      · exact t.stale x (List.mem_of_mem_erase hold) hpast
      · refine ⟨honly x hold hlast, ?_⟩
        rw [take_unread, hlast]
        exact hunread
    · exact absurd hlt (lt_irrefl _)
  · simp [hnext]
  · simp [hnext]
  · exact fun _ => ⟨rfl, rfl, rfl⟩
  · exact fun _ => rfl
  · simp [hnext]
  · rintro ⟨⟩
  · simp [hnext]
  · rintro ⟨⟩
  · simp [hnext]

end Tracks

end GitRpc.Requests
