import GitRpc.Library.Histories
import GitRpc.Requests.Streams

/-!
Whose operation is whose. A tag on the queue does not say which request
started its operation, and a read stays outstanding while the alarm and the
last write are under way. Clients that keep the order never notice: at most
one write is outstanding on a stream, nothing is started on it after its last
write, and every event reaches the request that started the operation. A
client that sends one message too many breaks the first of these.
-/

namespace GitRpc.Requests

open Common Library.Runs Library.Histories

/-- At most one write is outstanding on each stream. -/
def OneWrite (h : Handler) : Prop :=
  ∀ stream, h.outstanding.count ⟨.WRITE, stream⟩ + h.outstanding.count ⟨.FINISH, stream⟩ ≤ 1

def Finished (log : List Action) (stream : Nat) : Prop :=
  ∃ last status, .writeAndFinish stream last status ∈ log

/-- No operation was started on a stream after its last write. -/
def NothingAfterFinish (log : List Action) : Prop :=
  Grounded (fun before action => ∀ op ∈ action.starts, ¬ Finished before op.owner) log

/-- An event reached the request that had started the operation. -/
def Action.WellReceived : Action → Prop
  | .dispatch op receiver => op.owner = receiver
  | .delete op receiver => op.owner = receiver
  | _ => True

structure WellDriven (h : Handler) : Prop where
  oneWrite : OneWrite h
  quiet : NothingAfterFinish h.log
  received : ∀ action ∈ h.log, action.WellReceived

/-- The history of a handler: only streams of the past have finished, and the
current one while its last write is outstanding. -/
structure Sequenced (h : Handler) : Prop where
  finished : ∀ stream, Finished h.log stream →
    stream < h.req.id ∨ stream = h.req.id ∧ 0 < h.count .FINISH
  quiet : NothingAfterFinish h.log
  received : ∀ action ∈ h.log, action.WellReceived

theorem finished_append {old new : List Action} {stream : Nat} :
    Finished (old ++ new) stream ↔ Finished old stream ∨ Finished new stream := by
  constructor
  · rintro ⟨last, status, hmem⟩
    rcases List.mem_append.mp hmem with hold | hnew
    · exact .inl ⟨last, status, hold⟩
    · exact .inr ⟨last, status, hnew⟩
  · rintro (⟨last, status, hmem⟩ | ⟨last, status, hmem⟩)
    · exact ⟨last, status, List.mem_append_left new hmem⟩
    · exact ⟨last, status, List.mem_append_right old hmem⟩

theorem nothingAfterFinish_of_unfinished {actions : List Action}
    (hnone : ∀ stream, ¬ Finished actions stream) : NothingAfterFinish actions := by
  rintro before action after rfl op - hfinished
  exact hnone op.owner (finished_append.mpr (.inl hfinished))

namespace Sequenced

variable {h : Handler} {op : Op} {turn : Turn}

theorem unfinished (hs : Sequenced h) (hnofinish : h.count .FINISH = 0) :
    ¬ Finished h.log h.req.id := by
  intro hfinished
  rcases hs.finished h.req.id hfinished with hlt | ⟨-, hpos⟩
  · exact lt_irrefl _ hlt
  · omega

/-- A turn that starts nothing on a finished stream, and of whose streams
this much is known afterwards. -/
theorem take (hs : Sequenced h)
    (hfinished : ∀ stream, Finished h.log stream ∨ Finished turn.actions stream →
      stream < turn.req.id ∨ stream = turn.req.id ∧ 0 < (h.take op turn).count .FINISH)
    (hstarts : ∀ x ∈ turn.actions.filterMap Action.starts, ¬ Finished h.log x.owner)
    (hquiet : NothingAfterFinish turn.actions)
    (hreceived : ∀ action ∈ turn.actions, action.WellReceived) :
    Sequenced (h.take op turn) where
  finished stream hstream := hfinished stream (finished_append.mp hstream)
  quiet := by
    refine grounded_append.mpr ⟨hs.quiet, ?_⟩
    intro before action after hsplit x hx hbefore
    rcases finished_append.mp hbefore with hold | hnew
    · have haction : action ∈ turn.actions := by simp [hsplit]
      exact hstarts x (List.mem_filterMap.mpr ⟨action, haction, hx⟩) hold
    · exact hquiet before action after hsplit x hx hnew
  received := by
    intro action haction
    rcases List.mem_append.mp haction with hold | hnew
    · exact hs.received action hold
    · exact hreceived action hnew

/-- A turn that starts nothing at all. -/
theorem silent (hs : Sequenced h) (htag : op.tag ≠ .FINISH) (hid : turn.req.id = h.req.id)
    (hactions : turn.actions = [] ∨
      turn.actions = [.dispatch op h.req.id] ∧ op.owner = h.req.id) :
    Sequenced (h.take op turn) := by
  have hnone : ∀ stream, ¬ Finished turn.actions stream := by
    rintro stream ⟨last, status, hmem⟩
    rcases hactions with hactions | ⟨hactions, -⟩ <;> simp [hactions] at hmem
  have hstarts : turn.actions.filterMap Action.starts = [] := by
    rcases hactions with hactions | ⟨hactions, -⟩ <;> rw [hactions] <;> rfl
  have hfinish := count_finish_silent htag hid hstarts
  refine hs.take ?_ (by simp [hstarts]) (nothingAfterFinish_of_unfinished hnone) ?_
  · rintro stream (hold | hnew)
    · rw [hid, hfinish]
      exact hs.finished stream hold
    · exact absurd hnew (hnone stream)
  · rcases hactions with hactions | ⟨hactions, howner⟩
    · simp [hactions]
    · simpa [hactions, Action.WellReceived] using howner

/-- A turn on the current stream while its last write has not begun. -/
theorem ongoing (hs : Sequenced h) (hnofinish : h.count .FINISH = 0)
    (hid : turn.req.id = h.req.id)
    (hstarts : ∀ x ∈ turn.actions.filterMap Action.starts, x.owner = h.req.id)
    (hnone : ∀ stream, ¬ Finished turn.actions stream)
    (hreceived : ∀ action ∈ turn.actions, action.WellReceived) :
    Sequenced (h.take op turn) := by
  have hcurrent := hs.unfinished hnofinish
  refine hs.take ?_ ?_ (nothingAfterFinish_of_unfinished hnone) hreceived
  · rintro stream (hold | hnew)
    · rcases hs.finished stream hold with hlt | ⟨-, hpos⟩
      · exact .inl (hid ▸ hlt)
      · omega
    · exact absurd hnew (hnone stream)
  · intro x hx
    rw [hstarts x hx]
    exact hcurrent

theorem receive (hs : Sequenced h) (stream : Nat) (message : ReceivePackRequest)
    (rest : List ReceivePackRequest) : Sequenced (h.receive stream message rest) where
  finished other hother := by
    apply hs.finished other
    rcases finished_append.mp hother with hold | ⟨last, status, hmem⟩
    · exact hold
    · simp at hmem
  quiet := hs.quiet.append_of_forall (by simp [Action.starts])
  received := by
    intro action haction
    rcases List.mem_append.mp haction with hold | hnew
    · exact hs.received action hold
    · rw [List.mem_singleton.mp hnew]
      trivial

end Sequenced

variable {sent : Nat → List ReceivePackRequest} {h : Handler}
  {handled answered : List ReceivePackRequest}

theorem Tracks.oneWrite (t : Tracks sent h handled answered) : OneWrite h := by
  intro stream
  rcases Nat.lt_trichotomy stream h.req.id with hlt | rfl | hgt
  · have hnone : ∀ tag, tag ≠ .READ → h.outstanding.count ⟨tag, stream⟩ = 0 := by
      intro tag htag
      exact List.count_eq_zero.mpr fun hmem => htag (t.stale _ hmem hlt).1
    rw [hnone .WRITE (by simp), hnone .FINISH (by simp)]
    exact Nat.zero_le 1
  · exact t.write
  · have hnone : ∀ tag, h.outstanding.count ⟨tag, stream⟩ = 0 := by
      intro tag
      exact List.count_eq_zero.mpr fun hmem => absurd (t.owners _ hmem) (not_le.mpr hgt)
    rw [hnone, hnone]
    exact Nat.zero_le 1

/-- One event of a stream with an orderly client. -/
theorem step_sequenced (hsent : Orderly (sent h.req.id)) {c : Completion}
    {next : Handler} (t : Tracks sent h handled answered) (hs : Sequenced h)
    (hstep : h.step c = some next) :
    (∃ handled answered, Tracks sent next handled answered) ∧ Sequenced next := by
  obtain ⟨hmem, hstepped⟩ := step_stepped hstep
  cases hstepped with
  | dropped hok htag => exact ⟨⟨_, _, t.dropped⟩, hs.silent htag rfl (.inl rfl)⟩
  | proceed hok htag =>
      have hcurrent := t.current hmem (by rcases htag with htag | htag <;> simp [htag])
      have howner : c.op.owner = h.req.id := by rw [hcurrent]
      cases hrun : h.req.isRunning with
      | false =>
          rw [readMessage_stopped hrun]
          refine ⟨⟨_, _, t.idle c.op c.op.tag⟩, hs.silent ?_ rfl (.inr ⟨rfl, howner⟩)⟩
          rcases htag with htag | htag <;> simp [htag]
      | true =>
          have hreads := readMessage_running hrun c.op.tag c.ret
          obtain ⟨armed, -, hstarts⟩ := hreads.starts
          refine ⟨⟨_, _, t.proceed hmem htag hreads⟩,
            hs.ongoing (t.finish_free_of_proceed hmem htag) hreads.id ?_ ?_ ?_⟩
          · rw [dispatched_starts, hstarts]
            cases armed <;> simp
          · rintro stream ⟨last, status, hlast⟩
            rcases List.mem_cons.mp hlast with hlast | hlast
            · cases hlast
            · rcases hreads.mem hlast with hlast | hlast | hlast <;> cases hlast
          · intro action haction
            rcases List.mem_cons.mp haction with rfl | haction
            · exact howner
            · rcases hreads.mem haction with rfl | rfl | rfl <;> trivial
  | reply hok htag message rest hunread =>
      have howner := t.current_of_unread hmem hunread
      obtain ⟨hnofinish, hnext⟩ := t.reply hsent hmem htag hunread
      refine ⟨⟨_, _, hnext⟩, (hs.receive c.op.owner message rest).ongoing hnofinish rfl ?_ ?_ ?_⟩
      · simp [Request.writeResponse, Action.starts]
      · rintro stream ⟨last, status, hlast⟩
        simp [Request.writeResponse] at hlast
      · simp [Request.writeResponse, Action.WellReceived, howner]
  | stop hok htag hopen =>
      have hcurrent := t.current hmem (by simp [htag])
      have howner : c.op.owner = h.req.id := by rw [hcurrent]
      exact ⟨⟨_, _, t.stop hmem htag⟩, hs.silent (by simp [htag]) rfl (.inr ⟨rfl, howner⟩)⟩
  | commit hok htag hopen resp last status hsuccess =>
      have hcurrent := t.current hmem (by simp [htag])
      have howner : c.op.owner = h.req.id := by rw [hcurrent]
      obtain ⟨hnofinish, -, -, -, hnext⟩ :=
        t.commit hsent hmem htag hopen c.ret resp last status
      refine ⟨⟨_, _, hnext⟩, hs.take ?_ ?_ ?_ ?_⟩
      · rintro stream (hold | ⟨last', status', hlast⟩)
        · rcases hs.finished stream hold with hlt | ⟨-, hpos⟩
          · exact .inl hlt
          · omega
        · have hstream : stream = h.req.id := by
            simp [Request.complete] at hlast
            exact hlast.1
          refine .inr ⟨hstream, ?_⟩
          unfold Handler.count
          rw [take_outstanding, dispatched_starts, complete_starts]
          simp [Request.complete]
      · rw [dispatched_starts, complete_starts]
        intro x hx
        rw [List.mem_singleton.mp hx]
        exact hs.unfinished hnofinish
      · simp [NothingAfterFinish, Request.complete, grounded_cons, grounded_nil, Action.starts,
          Finished]
      · simp [Request.complete, Action.WellReceived, howner]
  | replace htag dispatched hdispatched =>
      have hcurrent := t.current hmem (by simp [htag])
      have howner : c.op.owner = h.req.id := by rw [hcurrent]
      obtain ⟨-, -, hnext⟩ := t.replace hsent hmem htag hdispatched
      have hpast : ∀ stream, Finished h.log stream → stream < h.req.id + 1 := by
        intro stream hfinished
        rcases hs.finished stream hfinished with hlt | ⟨heq, -⟩ <;> omega
      have hnone : ∀ stream, ¬ Finished (h.req.renew c.op dispatched).actions stream := by
        rintro stream ⟨last, status, hlast⟩
        rcases renew_mem hdispatched hlast with hlast | hlast | hlast <;> cases hlast
      refine ⟨⟨_, _, hnext⟩, hs.take ?_ ?_ (nothingAfterFinish_of_unfinished hnone) ?_⟩
      · rintro stream (hold | hnew)
        · exact .inl (hpast stream hold)
        · exact absurd hnew (hnone stream)
      · rw [renew_starts h.req c.op hdispatched]
        intro x hx hfinished
        rw [List.mem_singleton.mp hx] at hfinished
        exact lt_irrefl _ (hpast _ hfinished)
      · intro action haction
        rcases renew_mem hdispatched haction with rfl | rfl | rfl
        · exact howner
        · exact howner
        · trivial

/-- The streams of the past have come to their last write. -/
theorem step_canFinish (t : Tracks sent h handled answered) {c : Completion} {next : Handler}
    (hpast : ∀ stream < h.req.id, CanFinish (sent stream)) (hstep : h.step c = some next) :
    ∀ stream < next.req.id, CanFinish (sent stream) := by
  obtain ⟨hmem, hstepped⟩ := step_stepped hstep
  cases hstepped with
  | dropped | reply | stop | commit => exact hpast
  | proceed hok htag =>
      cases hrun : h.req.isRunning with
      | false =>
          rw [readMessage_stopped hrun]
          exact hpast
      | true =>
          rw [take_req, dispatched_req, (readMessage_running hrun c.op.tag c.ret).id]
          exact hpast
  | replace htag dispatched hdispatched =>
      have hcurrent := t.current hmem (by simp [htag])
      have hpos := count_pos hmem (by rw [hcurrent])
      obtain ⟨hdone, hdata, -⟩ := t.finishing (htag ▸ hpos)
      intro stream hstream
      rcases Nat.lt_or_eq_of_le (Nat.lt_succ_iff.mp hstream) with hearlier | rfl
      · exact hpast stream hearlier
      · rw [t.split, List.append_assoc]
        exact ⟨hdone.append_left _, hdata.append_left _⟩

theorem tracks_init (sent : Nat → List ReceivePackRequest) :
    Tracks sent (Handler.init sent) [] [] := by
  constructor <;> simp [Handler.init, Handler.count]

theorem sequenced_init (sent : Nat → List ReceivePackRequest) :
    Sequenced (Handler.init sent) := by
  have hnone : ∀ stream, ¬ Finished (Handler.init sent).log stream := by
    rintro stream ⟨last, status, hlast⟩
    simp [Handler.init] at hlast
  refine ⟨fun stream hstream => absurd hstream (hnone stream),
    nothingAfterFinish_of_unfinished hnone, ?_⟩
  simp [Handler.init, Action.WellReceived]

/-- What every event preserves as long as the clients whose turn comes are
orderly. -/
def OnTrack (sent : Nat → List ReceivePackRequest) (h : Handler) : Prop :=
  (∃ handled answered, Tracks sent h handled answered) ∧ Sequenced h ∧
    ∀ stream < h.req.id, CanFinish (sent stream)

/-- However the completions arrive, the handler drives the streams well, if the
clients of all streams that can ever be accepted are orderly. -/
theorem wellDriven_of_orderly (sent : Nat → List ReceivePackRequest)
    (hsent : ∀ stream, (∀ earlier < stream, CanFinish (sent earlier)) → Orderly (sent stream))
    (es : List Completion) :
    Always Handler.step (fun _ _ next => WellDriven next) (Handler.init sent) es := by
  have hinit : OnTrack sent (Handler.init sent) :=
    ⟨⟨[], [], tracks_init sent⟩, sequenced_init sent, fun _ hlt => absurd hlt (Nat.not_lt_zero _)⟩
  refine always_of_invariant (fun h c next hinv hstep => ?_) hinit es
  obtain ⟨⟨handled, answered, t⟩, hs, hpast⟩ := hinv
  obtain ⟨⟨handled', answered', t'⟩, hs'⟩ := step_sequenced (hsent h.req.id hpast) t hs hstep
  exact ⟨⟨⟨handled', answered', t'⟩, hs', step_canFinish t hpast hstep⟩, t'.oneWrite, hs'.quiet,
    hs'.received⟩

/-- Two streams, one after the other. -/
theorem wellDriven_two_streams :
    Always Handler.step (fun _ _ next => WellDriven next) (Handler.init fun _ => onePack)
      (smoothUpload 0 ++ smoothUpload 1) :=
  wellDriven_of_orderly _ (fun _ _ => nothingAfterDone_onePack.orderly) _

/-- A client sends one more message after its last one, and the message is
read before the alarm goes off: two writes are outstanding on its stream. -/
theorem message_after_done_overlaps :
    ∃ final, exec Handler.step (Handler.init fun _ => onePack ++ [{ data := [81] }])
        ((smoothUpload 0).take 5 ++ [⟨⟨.READ, 0⟩, true, "success"⟩,
          ⟨⟨.DONE, 0⟩, true, "success"⟩]) = some final ∧
      final.outstanding = [⟨.WRITE, 0⟩, ⟨.FINISH, 0⟩] ∧ ¬ WellDriven final := by
  refine ⟨_, rfl, rfl, fun hwell => ?_⟩
  have htwo := hwell.oneWrite 0
  exact absurd htwo (by decide)

end GitRpc.Requests
