import GitRpc.Frontend.WriteStream

/-!
What `unbufferedWriteStream` may conclude from its messages and its reads. Each
chunk's result replaces the one before it, so only the last chunk counts; and
the errors of `Read` are thrown away, so a read of no bytes is taken for the
end of the body.
-/

namespace GitRpc.Frontend

open Common

/-- The result "unpack ok" stands for success of all messages, and nothing is
sent after one that fails. -/
structure StopsOnFailure (net : Network) (reader : Reader) (result : Verdict × StreamWriter) :
    Prop where
  confirmed : result.1 = .returned true ∨ .line "unpack ok\n" ∈ result.2.output →
    (∃ k, reader.StopsAt k ∧ result.2.sent = reader.messages k ++ [doneMessage]) ∧
      ∀ i < result.2.sent.length, net.Succeeds i
  stopped : ∀ i < result.2.sent.length, ¬ net.Succeeds i → result.2.sent.length = i + 1

/-- No chunk fails but the last one. -/
def OnlyLastFails (net : Network) (reader : Reader) : Prop :=
  net.receivePackStream ≠ none ∨ ∀ i, reader.GivesBytes (i + 2) → net.Succeeds i

variable {net : Network} {reader : Reader}

/-- Among the messages of the chunks, only the last one may have failed. -/
theorem OnlyLastFails.last {k i : Nat} (h : OnlyLastFails net reader)
    (hstream : net.receivePackStream = none) (hgives : reader.GivesBytes k) (hi : i < k)
    (hfails : ¬ net.Succeeds i) : k = i + 1 := by
  by_contra hnot
  rcases h with hnone | hall
  · exact hnone hstream
  · exact hfails (hall i fun j hj => hgives j (by omega))

theorem Sending.stopsOnFailure {k : Nat} {w : StreamWriter} {verdict : Verdict}
    (h : Sending net reader k w) (hlast : OnlyLastFails net reader)
    (hverdict : verdict ≠ .returned true) : StopsOnFailure net reader (verdict, w) where
  confirmed := by
    rintro (htrue | hline)
    · exact absurd htrue hverdict
    · exact absurd hline h.output.not_ok
  stopped := by
    simp only [h.sent_length]
    intro i hi hfails
    exact hlast.last (h.reached (by omega)) h.gives hi hfails

theorem Uploaded.stopsOnFailure {bound : Nat} {result : Verdict × StreamWriter}
    (h : Uploaded net reader bound result) (hlast : OnlyLastFails net reader) :
    StopsOnFailure net reader result := by
  cases h with
  | running w h => exact h.stopsOnFailure hlast (by simp)
  | notWritten k w h hstop hwrote => exact h.stopsOnFailure hlast (by simp)
  | noStream w hstream hgives hsent houtput =>
      constructor
      · rintro (htrue | hline)
        · simp at htrue
        · exact absurd hline houtput.not_ok
      · simp [hsent]
  | notDone k w hstop hwrote hstream hdone hsent houtput =>
      have hlength : w.sent.length = k + 1 := by simp [hsent]
      constructor
      · rintro (htrue | hline)
        · simp at htrue
        · exact absurd hline houtput.not_ok
      · intro i hi hfails
        rw [hlength] at hi ⊢
        rcases Nat.lt_succ_iff_lt_or_eq.mp hi with hchunk | rfl
        · -- the last chunk succeeded, or the message `done` would not have been sent
          have hk := hlast.last hstream hstop.1 hchunk hfails
          rw [hk, Nat.add_sub_cancel] at hwrote
          exact absurd hwrote.2 hfails
        · rfl
  | unpackOk k w hstop hwrote hstream hdone hsent errors closing herrors hclosing houtput result
      hresult =>
      have hlength : w.sent.length = k + 1 := by simp [hsent]
      have hall : ∀ i < k + 1, net.Succeeds i := by
        intro i hi
        by_contra hfails
        rcases Nat.lt_succ_iff_lt_or_eq.mp hi with hchunk | rfl
        · have hk := hlast.last hstream hstop.1 hchunk hfails
          rw [hk, Nat.add_sub_cancel] at hwrote
          exact hfails hwrote.2
        · exact hfails hdone
      constructor
      · intro _
        refine ⟨⟨k, hstop, hsent⟩, ?_⟩
        rw [hlength]
        exact hall
      · intro i hi hfails
        rw [hlength] at hi
        exact absurd (hall i hi) hfails

/-- For every body, every split of it into reads and every outcome of the
messages: `unbufferedWriteStream` takes a failure for what it is exactly when
no chunk but the last one fails. -/
theorem stopsOnFailure_iff (net : Network) (reader : Reader) :
    (∀ fuel, StopsOnFailure net reader (unbufferedWriteStream net reader fuel)) ↔
      OnlyLastFails net reader := by
  constructor
  · intro hall
    by_contra hnot
    simp only [OnlyLastFails, not_or, not_not, not_forall] at hnot
    obtain ⟨hstream, i, hgives, hfails⟩ := hnot
    have hloop : (writeChunks net reader (i + 2) 0 .start).1 = .running := by
      apply writeChunks_running hstream
      rwa [Nat.zero_add]
    have hran := writeChunks_ran (i + 2) (sending_start net reader)
    have hstopped := (hall (i + 2)).stopped i
    rw [Nat.zero_add] at hran
    unfold unbufferedWriteStream at hstopped
    cases hwritten : writeChunks net reader (i + 2) 0 .start with
    | mk loopEnd w =>
        rw [hwritten] at hran hloop hstopped
        cases hran with
        | running _ h =>
            simp only [h.sent_length] at hstopped
            have hend := hstopped (by omega) hfails
            omega
        | brokeOff => simp at hloop
        | returnedFalse => simp at hloop
  · intro hlast fuel
    exact (unbufferedWriteStream_uploaded net reader fuel).stopsOnFailure hlast

/-- Two chunks, and then the end of the body. -/
def twoChunks : Reader :=
  .of [.of [80] none (by decide), .of [81] none (by decide)] (by simp [ReadResult.of])

/-- The first chunk is refused. -/
def firstRefused : Network :=
  ⟨none, fun i => .reply (i ≠ 0), none, fun _ => none⟩

/-- The second chunk is sent all the same, and the upload is called a success. -/
theorem failed_chunk_is_forgotten :
    ¬ ∀ fuel, StopsOnFailure firstRefused twoChunks
      (unbufferedWriteStream firstRefused twoChunks fuel) := by
  intro hall
  have hresult : (unbufferedWriteStream firstRefused twoChunks 3).1 = .returned true := rfl
  have hlength : (unbufferedWriteStream firstRefused twoChunks 3).2.sent.length = 3 := rfl
  have hfirst := ((hall 3).confirmed (.inl hresult)).2 0 (by rw [hlength]; decide)
  cases hfirst

/-- Every message of the request goes through. -/
def Network.Delivers (net : Network) : Prop :=
  net.receivePackStream = none ∧ ∀ i, net.Succeeds i

/-- The message `done` has been sent. -/
def StreamWriter.SentDone (w : StreamWriter) : Prop := ∃ message ∈ w.sent, message.done = true

/-- The message `done` stands for the whole body, up to its end, and is not
sent for a body that an error has cut short. -/
structure SendsWholeBody (reader : Reader) (w : StreamWriter) : Prop where
  whole : w.SentDone → ∃ e, reader.FirstError e .EOF ∧
    (w.sent.map (·.data)).flatten = reader.upTo (e + 1)
  cutShort : ∀ e err, reader.FirstError e (.other err) → ¬ w.SentDone

/-- A read of no bytes stands where the body is over, unless it is the very
first one: no error but the end of the body comes first, and no more bytes
come up to it. -/
def Reader.EmptyOnlyAtEnd (reader : Reader) : Prop :=
  ∀ k, 0 < k → reader.StopsAt k →
    ∃ e, reader.FirstError e .EOF ∧ ∀ i, k ≤ i → i ≤ e → (reader.read i).n = 0

theorem Reader.messages_not_done (reader : Reader) (k : Nat) :
    ∀ message ∈ reader.messages k, message.done = false := by
  intro message hmessage
  obtain ⟨i, -, rfl⟩ := List.mem_map.mp hmessage
  rfl

/-- When everything is delivered, `done` is sent where the reads stop. -/
theorem sentDone_iff (hnet : net.Delivers) {bound : Nat} {result : Verdict × StreamWriter}
    (h : Uploaded net reader bound result) :
    result.2.SentDone ↔
      ∃ k, 0 < k ∧ reader.StopsAt k ∧ result.2.sent = reader.messages k ++ [doneMessage] := by
  have hchunks : ∀ {w : StreamWriter} {k : Nat}, w.sent = reader.messages k →
      ¬ (w.SentDone ∨ ∃ k, 0 < k ∧ reader.StopsAt k ∧
        w.sent = reader.messages k ++ [doneMessage]) := by
    intro w k hsent hdone
    have hmem : w.SentDone := by
      rcases hdone with hdone | ⟨k, -, -, hlast⟩
      · exact hdone
      · exact ⟨doneMessage, by simp [hlast], rfl⟩
    obtain ⟨message, hmessage, hdone⟩ := hmem
    rw [hsent] at hmessage
    rw [reader.messages_not_done k message hmessage] at hdone
    cases hdone
  cases h with
  | running w h | notWritten k w h hstop hwrote =>
      have hnot := hchunks h.sent
      exact ⟨fun hdone => absurd (.inl hdone) hnot, fun hlast => absurd (.inr hlast) hnot⟩
  | noStream w hstream => exact absurd hnet.1 hstream
  | notDone k w hstop hwrote hstream hdone => exact absurd (hnet.2 k) hdone
  | unpackOk k w hstop hwrote hstream hdone hsent =>
      refine iff_of_true ⟨doneMessage, by simp [hsent], rfl⟩ ⟨k, hwrote.1, hstop, hsent⟩

/-- The bytes of all messages. -/
theorem sent_data {k : Nat} {w : StreamWriter}
    (hsent : w.sent = reader.messages k ++ [doneMessage]) :
    (w.sent.map (·.data)).flatten = reader.upTo k := by
  rw [hsent, List.map_append, List.flatten_append, reader.messages_data]
  simp [doneMessage]

theorem Reader.EmptyOnlyAtEnd.sendsWholeBody (h : reader.EmptyOnlyAtEnd) (hnet : net.Delivers)
    (fuel : Nat) : SendsWholeBody reader (unbufferedWriteStream net reader fuel).2 := by
  have huploaded := unbufferedWriteStream_uploaded net reader fuel
  constructor
  · intro hdone
    obtain ⟨k, hk, hstop, hsent⟩ := (sentDone_iff hnet huploaded).mp hdone
    obtain ⟨e, he, hempty⟩ := h k hk hstop
    refine ⟨e, he, ?_⟩
    rw [sent_data hsent, eq_comm, reader.upTo_eq_iff (Reader.stops_before_EOF hstop.1 he)]
    intro i hki hie
    exact hempty i hki (by omega)
  · intro e err he hdone
    obtain ⟨k, hk, hstop, -⟩ := (sentDone_iff hnet huploaded).mp hdone
    obtain ⟨e', he', -⟩ := h k hk hstop
    have hsame := (Reader.firstError_unique he he').2
    cases hsame

/-- A network that delivers everything. -/
def Network.allDelivered : Network := ⟨none, fun _ => .reply true, none, fun _ => none⟩

theorem allDelivered_delivers : Network.allDelivered.Delivers := ⟨rfl, fun _ => rfl⟩

/-- Where the reads stop, the loop ends. -/
theorem writeChunks_brokeOff {k : Nat} (hstop : reader.StopsAt k) {i fuel : Nat}
    {w : StreamWriter} (hi : i ≤ k) (hfuel : k < i + fuel)
    (hstream : net.receivePackStream = none) :
    (writeChunks net reader fuel i w).1 = .brokeOff := by
  induction fuel generalizing i w with
  | zero => omega
  | succ fuel ih =>
      unfold writeChunks
      by_cases hend : i = k
      · subst hend
        rw [if_neg (not_not.mpr hstop.2)]
      · rw [if_pos (hstop.1 i (by omega))]
        simp only [hstream, ite_self]
        exact ih (by omega) (by omega)

/-- A body that stops does not keep `unbufferedWriteStream` going. -/
theorem unbufferedWriteStream_ended {k fuel : Nat} (hstop : reader.StopsAt k) (hfuel : k < fuel)
    (hstream : net.receivePackStream = none) :
    (unbufferedWriteStream net reader fuel).1 ≠ .running := by
  have hloop : (writeChunks net reader fuel 0 .start).1 = .brokeOff :=
    writeChunks_brokeOff hstop (Nat.zero_le k) (by omega) hstream
  unfold unbufferedWriteStream
  split
  · rename_i hrunning
    simp [hrunning] at hloop
  · simp
  · simp

/-- When everything is delivered and the body stops, all messages are sent. -/
theorem delivered_sent (hnet : net.Delivers) {k fuel : Nat} (hk : 0 < k)
    (hstop : reader.StopsAt k) (hfuel : k < fuel) :
    (unbufferedWriteStream net reader fuel).2.sent = reader.messages k ++ [doneMessage] := by
  have hended := unbufferedWriteStream_ended hstop hfuel hnet.1
  generalize hresult : unbufferedWriteStream net reader fuel = result at hended ⊢
  have huploaded := unbufferedWriteStream_uploaded net reader fuel
  rw [hresult] at huploaded
  cases huploaded with
  | running w h => exact absurd rfl hended
  | noStream w hstream => exact absurd hnet.1 hstream
  | notWritten k' w h hstop' hwrote =>
      rw [Reader.stopsAt_unique hstop' hstop] at hwrote
      exact absurd ⟨hk, hnet.2 (k - 1)⟩ hwrote
  | notDone k' w hstop' hwrote hstream hdone => exact absurd (hnet.2 k') hdone
  | unpackOk k' w hstop' hwrote hstream hdone hsent =>
      rw [hsent, Reader.stopsAt_unique hstop' hstop]

/-- For every behaviour of the body's reader: whenever everything is delivered
the message `done` stands for the whole body, exactly when the reads are empty
only at the end. -/
theorem sendsWholeBody_iff (reader : Reader) :
    (∀ net fuel, Network.Delivers net →
      SendsWholeBody reader (unbufferedWriteStream net reader fuel).2) ↔
        reader.EmptyOnlyAtEnd := by
  constructor
  · intro hall k hk hstop
    have hwhole := (hall .allDelivered (k + 1) allDelivered_delivers).whole
    have hsent := delivered_sent allDelivered_delivers hk hstop (Nat.lt_succ_self k)
    obtain ⟨e, he, hdata⟩ := hwhole ⟨doneMessage, by simp [hsent], rfl⟩
    refine ⟨e, he, fun i hki hie => ?_⟩
    rw [sent_data hsent, eq_comm,
      reader.upTo_eq_iff (Reader.stops_before_EOF hstop.1 he)] at hdata
    exact hdata i hki (by omega)
  · intro h net fuel hnet
    exact h.sendsWholeBody hnet fuel

/-- One chunk, and then the connection breaks. -/
def brokenOff : Reader :=
  .of [.of [80] none (by decide), .of [] (some (.other "unexpected EOF")) (by decide)]
    (by simp [ReadResult.of])

theorem brokenOff_stopsAt : brokenOff.StopsAt 1 := by
  constructor
  · intro i hi
    obtain rfl : i = 0 := by omega
    exact Nat.one_ne_zero
  · rfl

/-- The message `done` is sent although the body is not over. -/
theorem broken_body_is_done :
    ¬ ∀ net fuel, Network.Delivers net →
      SendsWholeBody brokenOff (unbufferedWriteStream net brokenOff fuel).2 := by
  intro hall
  have hcut : brokenOff.FirstError 1 (.other "unexpected EOF") := by
    constructor
    · intro i hi
      obtain rfl : i = 0 := by omega
      rfl
    · rfl
  have hsent := delivered_sent allDelivered_delivers Nat.one_pos brokenOff_stopsAt
    (Nat.lt_succ_self 1)
  exact (hall .allDelivered 2 allDelivered_delivers).cutShort 1 _ hcut
    ⟨doneMessage, by simp [hsent], rfl⟩

end GitRpc.Frontend
