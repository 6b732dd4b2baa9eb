import GitRpc.Library.Blocks
import GitRpc.Requests.Ownership

/-!
The appends and commits that a handler asks for, over all its streams. With
clients that send nothing after their last message, the calls fall into one
block for each stream, in the order of the streams; a block appends the data
of a stream message by message, and commits, if at all, once everything up to
the last message has been appended.

`ReadMessage` starts the next read into the buffer that it is about to use.
Nothing is lost by that, since the buffer is filled only when the read's own
completion is taken, and then the message before it has been dealt with.
-/

namespace GitRpc.Requests

open Common Library.Runs Library.Blocks

inductive PackCall where
  | append (stream : Nat) (data : List UInt8)
  | commit (stream : Nat)
  deriving DecidableEq

def PackCall.stream : PackCall → Nat
  | .append stream _ => stream
  | .commit stream => stream

def packCalls (log : List Action) : List PackCall :=
  log.filterMap fun
    | .packAppend stream data _ => some (.append stream data)
    | .packCommit stream _ => some (.commit stream)
    | _ => none

/-- Everything that the stream received, up to a last message, and then the
commit. -/
def Complete (received : List ReceivePackRequest) (stream : Nat) (block : List PackCall) : Prop :=
  block = (packData received).map (.append stream) ++ [.commit stream] ∧
    ∃ before final, received = before ++ [final] ∧ final.done = true

/-- The first part of what the stream received, or everything and a commit. -/
def BlockSound (received : List ReceivePackRequest) (stream : Nat) (block : List PackCall) :
    Prop :=
  (∃ appended, appended <+: packData received ∧ block = appended.map (.append stream)) ∨
    Complete received stream block

/-- The calls of the handler are the blocks of its streams, one after the other. -/
structure CallsInBlocks (h : Handler) : Prop where
  concatenation : packCalls h.log =
    (List.range (h.req.id + 1)).flatMap (blockOf PackCall.stream (packCalls h.log))
  sound : ∀ stream, BlockSound (receivedOn h.log stream) stream
    (blockOf PackCall.stream (packCalls h.log) stream)

/-- What a history says about all streams but the current one. -/
structure Archived (log : List Action) (current : Nat) : Prop where
  blocks : InBlocks PackCall.stream (current + 1) (packCalls log)
  later : ∀ stream, current < stream → receivedOn log stream = []
  past : ∀ stream, stream < current → BlockSound (receivedOn log stream) stream
    (blockOf PackCall.stream (packCalls log) stream)

/-- What it says about the current one. -/
structure Served (h : Handler) (handled answered : List ReceivePackRequest) : Prop where
  received : receivedOn h.log h.req.id = handled ++ answered
  ongoing : h.count .FINISH = 0 →
    blockOf PackCall.stream (packCalls h.log) h.req.id =
      (packData handled).map (.append h.req.id)
  finishing : 0 < h.count .FINISH →
    Complete (receivedOn h.log h.req.id) h.req.id
      (blockOf PackCall.stream (packCalls h.log) h.req.id)

theorem packCalls_append (old new : List Action) :
    packCalls (old ++ new) = packCalls old ++ packCalls new :=
  List.filterMap_append

/-- Calls and messages of the current stream may be added. -/
theorem Archived.append {log new : List Action} {current : Nat} (a : Archived log current)
    (hcalls : ∀ call ∈ packCalls new, call.stream = current)
    (hreceived : ∀ stream, stream ≠ current → receivedOn new stream = []) :
    Archived (log ++ new) current where
  blocks := by
    rw [packCalls_append]
    exact a.blocks.append hcalls
  later := by
    intro stream hlater
    rw [receivedOn_append, a.later stream hlater, hreceived stream (by omega)]
    rfl
  past := by
    intro stream hpast
    rw [receivedOn_append, packCalls_append, blockOf_append, hreceived stream (by omega),
      blockOf_other hcalls (by omega), List.append_nil, List.append_nil]
    exact a.past stream hpast

theorem Archived.succ {log : List Action} {current : Nat} (a : Archived log current)
    (hcurrent : BlockSound (receivedOn log current) current
      (blockOf PackCall.stream (packCalls log) current)) : Archived log (current + 1) where
  blocks := a.blocks.succ
  later := fun stream hlater => a.later stream (by omega)
  past := by
    intro stream hpast
    rcases Nat.lt_or_eq_of_le (Nat.lt_succ_iff.mp hpast) with hlt | rfl
    · exact a.past stream hlt
    · exact hcurrent

theorem callsInBlocks_of_served {h : Handler} {handled answered : List ReceivePackRequest}
    (a : Archived h.log h.req.id) (s : Served h handled answered) : CallsInBlocks h where
  concatenation := a.blocks
  sound := by
    intro stream
    rcases Nat.lt_trichotomy stream h.req.id with hlt | rfl | hgt
    · exact a.past stream hlt
    · rcases Nat.eq_zero_or_pos (h.count .FINISH) with hnone | hpos
      · refine .inl ⟨packData handled, ?_, s.ongoing hnone⟩
        rw [s.received, packData_append]
        exact List.prefix_append _ _
      · exact .inr (s.finishing hpos)
    · refine .inl ⟨[], List.nil_prefix, ?_⟩
      exact a.blocks.blockOf_bound hgt

variable {sent : Nat → List ReceivePackRequest} {h : Handler} {op : Op} {turn : Turn}
  {handled answered : List ReceivePackRequest}

/-- A turn that neither reads a message nor asks for a call. -/
theorem Served.silent (s : Served h handled answered) (hid : turn.req.id = h.req.id)
    (hcalls : packCalls turn.actions = []) (hreceived : ∀ stream, receivedOn turn.actions stream = [])
    (hfinish : (h.take op turn).count .FINISH = h.count .FINISH) :
    Served (h.take op turn) handled answered := by
  constructor
  · rw [take_log, take_req, hid, receivedOn_append, hreceived, List.append_nil]
    exact s.received
  · rw [hfinish, take_log, take_req, hid, packCalls_append, hcalls, List.append_nil]
    exact s.ongoing
  · rw [hfinish, take_log, take_req, hid, packCalls_append, hcalls, List.append_nil,
      receivedOn_append, hreceived, List.append_nil]
    exact s.finishing

theorem Archived.silent {current : Nat} (a : Archived h.log current)
    (hcalls : packCalls turn.actions = [])
    (hreceived : ∀ stream, receivedOn turn.actions stream = []) :
    Archived (h.take op turn).log current :=
  a.append (by simp [hcalls]) fun stream _ => hreceived stream

/-- The appends of `ReadMessage` are those of the answered message. -/
theorem Reads.packCalls {ret : String} (hreads : Reads h.req ret turn) (op : Op)
    (hmsg : h.req.msg.data = [] ∧ packData answered = [] ∨ answered = [h.req.msg]) :
    packCalls (turn.dispatched op h.req.id).actions =
      (packData answered).map (.append h.req.id) := by
  obtain ⟨armed, -, hactions⟩ := hreads.actions
  rw [dispatched_actions, hactions]
  rcases hmsg with ⟨hdata, hnone⟩ | rfl
  · cases armed <;> simp [Requests.packCalls, hdata, hnone]
  · by_cases hdata : h.req.msg.data = []
    · cases armed <;> simp [Requests.packCalls, packData, hdata]
    · cases armed <;> simp [Requests.packCalls, packData, hdata]

theorem Reads.received {ret : String} (hreads : Reads h.req ret turn) (op : Op) (stream : Nat) :
    receivedOn (turn.dispatched op h.req.id).actions stream = [] := by
  apply List.filterMap_eq_nil_iff.mpr
  intro action haction
  rcases List.mem_cons.mp haction with rfl | haction
  · rfl
  · rcases hreads.mem haction with rfl | rfl | rfl <;> rfl

/-- The answered message is appended, and nothing else is asked for. -/
theorem Served.proceed (s : Served h handled answered) (hid : turn.req.id = h.req.id)
    (hcalls : packCalls turn.actions = (packData answered).map (.append h.req.id))
    (hreceived : ∀ stream, receivedOn turn.actions stream = [])
    (hbefore : h.count .FINISH = 0) (hafter : (h.take op turn).count .FINISH = 0) :
    Served (h.take op turn) (handled ++ answered) [] := by
  have hown : ∀ call ∈ packCalls turn.actions, call.stream = h.req.id := by
    intro call hcall
    rw [hcalls] at hcall
    obtain ⟨data, -, rfl⟩ := List.mem_map.mp hcall
    rfl
  constructor
  · rw [take_log, take_req, hid, receivedOn_append, hreceived, s.received]
  · intro _
    rw [take_log, take_req, hid, packCalls_append, blockOf_append, s.ongoing hbefore,
      blockOf_self hown, hcalls, packData_append, List.map_append]
  · intro hpos
    omega

/-- A message arrives; no call is asked for. -/
theorem Served.reply (s : Served h handled []) (howner : op.owner = h.req.id)
    {message : ReceivePackRequest} {rest : List ReceivePackRequest}
    (hbefore : h.count .FINISH = 0) (hafter : (h.reply op message rest).count .FINISH = 0) :
    Served (h.reply op message rest) handled [message] := by
  constructor
  · rw [reply_log, reply_id, receivedOn_append, s.received]
    simp [receivedOn, howner]
  · intro _
    rw [reply_log, reply_id, packCalls_append]
    simpa [packCalls] using s.ongoing hbefore
  · intro hpos
    omega

/-- The commit, once everything has been appended. -/
theorem Served.commit (s : Served h handled []) (hid : turn.req.id = h.req.id)
    (hcalls : packCalls turn.actions = [.commit h.req.id])
    (hreceived : ∀ stream, receivedOn turn.actions stream = [])
    (hbefore : h.count .FINISH = 0) (hafter : 0 < (h.take op turn).count .FINISH)
    (hends : ∃ before final, handled = before ++ [final] ∧ final.done = true) :
    Served (h.take op turn) handled [] := by
  have hown : ∀ call ∈ packCalls turn.actions, call.stream = h.req.id := by
    simp [hcalls, PackCall.stream]
  have hsame : receivedOn (h.take op turn).log h.req.id = handled := by
    rw [take_log, receivedOn_append, hreceived, s.received, List.append_nil, List.append_nil]
  constructor
  · rw [take_req, hid, hsame, List.append_nil]
  · intro hnone
    omega
  · intro _
    rw [take_req, hid, hsame]
    refine ⟨?_, hends⟩
    rw [take_log, packCalls_append, blockOf_append, s.ongoing hbefore, blockOf_self hown, hcalls]

/-- One event of clients that send nothing after their last message. -/
theorem step_served (hsent : ∀ stream, NothingAfterDone (sent stream)) {c : Completion}
    {next : Handler} (t : Tracks sent h handled answered) (a : Archived h.log h.req.id)
    (s : Served h handled answered) (hstep : h.step c = some next) :
    ∃ handled answered, Tracks sent next handled answered ∧
      Archived next.log next.req.id ∧ Served next handled answered := by
  obtain ⟨hmem, hstepped⟩ := step_stepped hstep
  have horderly : Orderly (sent h.req.id) := (hsent h.req.id).orderly
  cases hstepped with
  | dropped hok htag =>
      have hfinish : (h.take c.op ⟨h.req, []⟩).count .FINISH = h.count .FINISH :=
        count_finish_silent htag rfl rfl
      exact ⟨_, _, t.dropped, a.silent rfl fun _ => rfl,
        s.silent rfl rfl (fun _ => rfl) hfinish⟩
  | proceed hok htag =>
      cases hrun : h.req.isRunning with
      | false =>
          rw [readMessage_stopped hrun]
          have hnot : c.op.tag ≠ .FINISH := by rcases htag with htag | htag <;> simp [htag]
          exact ⟨_, _, t.idle c.op c.op.tag, a.silent rfl fun _ => rfl,
            s.silent rfl rfl (fun _ => rfl) (count_finish_silent hnot rfl rfl)⟩
      | true =>
          have hreads := readMessage_running hrun c.op.tag c.ret
          have hnext := t.proceed hmem htag hreads
          have hcurrent := t.current hmem (by rcases htag with htag | htag <;> simp [htag])
          have hpos := count_pos hmem (by rw [hcurrent])
          have hmsg : h.req.msg.data = [] ∧ packData answered = [] ∨ answered = [h.req.msg] := by
            rcases htag with htag | htag
            · obtain ⟨-, hanswered, hempty⟩ := t.connecting (htag ▸ hpos)
              exact .inl ⟨by rw [hempty], by rw [hanswered]; rfl⟩
            · exact .inr (t.writing (htag ▸ hpos))
          have hcalls := hreads.packCalls c.op hmsg
          have hafter := hnext.unfinished hreads.running
          refine ⟨_, _, hnext, ?_, s.proceed hreads.id hcalls (hreads.received c.op)
            (t.finish_free_of_proceed hmem htag) hafter⟩
          rw [take_req, dispatched_req, hreads.id]
          refine a.append ?_ fun stream _ => hreads.received c.op stream
          rw [hcalls]
          intro call hcall
          obtain ⟨data, -, rfl⟩ := List.mem_map.mp hcall
          rfl
  | reply hok htag message rest hunread =>
      have howner := t.current_of_unread hmem hunread
      have hpos := count_pos hmem howner
      have hanswered := t.reading (htag ▸ hpos)
      subst hanswered
      obtain ⟨hbefore, hnext⟩ := t.reply horderly hmem htag hunread
      have hafter : (h.reply c.op message rest).count .FINISH = 0 := by
        have hcount := count_reply hmem howner message rest .FINISH
        simpa [htag, hbefore] using hcount
      refine ⟨_, _, hnext, ?_, s.reply howner hbefore hafter⟩
      rw [reply_log, reply_id]
      refine a.append (by simp [packCalls]) fun stream hother => ?_
      simp [receivedOn, howner, Ne.symm hother]
  | stop hok htag hopen =>
      have hnot : c.op.tag ≠ .FINISH := by simp [htag]
      exact ⟨_, _, t.stop hmem htag, a.silent rfl fun _ => rfl,
        s.silent rfl rfl (fun _ => rfl) (count_finish_silent hnot rfl rfl)⟩
  | commit hok htag hopen resp last status hsuccess =>
      obtain ⟨hbefore, hanswered, hunread, hdone, hnext⟩ :=
        t.commit horderly hmem htag hopen c.ret resp last status
      subst hanswered
      have hall : sent h.req.id = handled := by
        rw [t.split, hunread, List.append_nil, List.append_nil]
      obtain ⟨before, final, hsplit, hfinal, -⟩ := (hall ▸ hsent h.req.id).ends hdone
      have hafter : 0 < (h.take c.op
          ((h.req.complete c.ret resp last status).dispatched c.op h.req.id)).count .FINISH := by
        unfold Handler.count
        rw [take_outstanding, dispatched_starts, complete_starts]
        simp [Request.complete]
      refine ⟨_, _, hnext, ?_, s.commit rfl rfl (fun _ => rfl) hbefore hafter
        ⟨before, final, hsplit, hfinal⟩⟩
      refine a.append ?_ fun _ _ => rfl
      simp [packCalls, Request.complete, PackCall.stream]
  | replace htag dispatched hdispatched =>
      have hcurrent := t.current hmem (by simp [htag])
      have hpos := count_pos hmem (by rw [hcurrent])
      obtain ⟨hanswered, -, hnext⟩ := t.replace horderly hmem htag hdispatched
      have hcalls : packCalls (h.req.renew c.op dispatched).actions = [] := by
        apply List.filterMap_eq_nil_iff.mpr
        intro action haction
        rcases renew_mem hdispatched haction with rfl | rfl | rfl <;> rfl
      have hreceived : ∀ stream, receivedOn (h.req.renew c.op dispatched).actions stream = [] := by
        intro stream
        apply List.filterMap_eq_nil_iff.mpr
        intro action haction
        rcases renew_mem hdispatched haction with rfl | rfl | rfl <;> rfl
      have harchived : Archived (h.take c.op (h.req.renew c.op dispatched)).log
          (h.req.id + 1) :=
        (a.succ (.inr (s.finishing (htag ▸ hpos)))).silent hcalls hreceived
      refine ⟨_, _, hnext, harchived, ?_, ?_, ?_⟩
      · rw [take_log, receivedOn_append, hreceived, List.append_nil]
        exact a.later (h.req.id + 1) (Nat.lt_succ_self _)
      · intro _
        rw [take_log, packCalls_append, hcalls, List.append_nil]
        exact a.blocks.blockOf_bound (le_refl (h.req.id + 1))
      · intro hfinish
        exact absurd (hnext.finishing hfinish).1 (by simp [AnyDone, countDone])

theorem archived_init (sent : Nat → List ReceivePackRequest) :
    Archived (Handler.init sent).log 0 where
  blocks := inBlocks_nil PackCall.stream 1
  later _ _ := rfl
  past stream hpast := absurd hpast (Nat.not_lt_zero stream)

theorem served_init (sent : Nat → List ReceivePackRequest) :
    Served (Handler.init sent) [] [] where
  received := rfl
  ongoing _ := rfl
  finishing := by simp [Handler.init, Handler.count]

/-- What every event of clients that send nothing after their last message
preserves. -/
def Accounted (sent : Nat → List ReceivePackRequest) (h : Handler) : Prop :=
  ∃ handled answered, Tracks sent h handled answered ∧
    Archived h.log h.req.id ∧ Served h handled answered

/-- Any number of streams, of any messages with nothing after a last one, in
any order of the completions: the calls come in blocks. -/
theorem calls_in_blocks (sent : Nat → List ReceivePackRequest)
    (hsent : ∀ stream, NothingAfterDone (sent stream)) (es : List Completion) (final : Handler)
    (hrun : exec Handler.step (Handler.init sent) es = some final) : CallsInBlocks final := by
  have hinit : Accounted sent (Handler.init sent) :=
    ⟨[], [], tracks_init sent, archived_init sent, served_init sent⟩
  have hkeep : ∀ h c next, Accounted sent h → h.step c = some next → Accounted sent next := by
    rintro h c next ⟨handled, answered, t, a, s⟩ hstep
    exact step_served hsent t a s hstep
  obtain ⟨handled, answered, -, a, s⟩ := exec_invariant hkeep hinit hrun
  exact callsInBlocks_of_served a s

/-- Two streams, the second of which is cut off after its first message. -/
theorem calls_in_blocks_of_two_streams :
    ∃ final, exec Handler.step (Handler.init fun _ => onePack)
        (smoothUpload 0 ++ (smoothUpload 1).take 3) = some final ∧
      packCalls final.log = [.append 0 [80], .commit 0, .append 1 [80]] ∧
      CallsInBlocks final := by
  obtain ⟨final, hrun, hcalls⟩ : ∃ final, exec Handler.step (Handler.init fun _ => onePack)
      (smoothUpload 0 ++ (smoothUpload 1).take 3) = some final ∧
        packCalls final.log = [.append 0 [80], .commit 0, .append 1 [80]] := ⟨_, rfl, rfl⟩
  exact ⟨final, hrun, hcalls,
    calls_in_blocks _ (fun _ => nothingAfterDone_onePack) _ final hrun⟩

end GitRpc.Requests
