import GitRpc.Frontend.Body
import GitRpc.Frontend.GitServer

/-!
`unbufferedWriteStream` and `writeToStream` as functions of what the body
gives and of what becomes of each message. The loop is followed for as many
reads as the argument `fuel` allows; a body may well keep it going for ever.
-/

namespace GitRpc.Frontend

open Common

/-- The text of a gRPC error: "EOF", or one that begins with "rpc error:". -/
abbrev RpcError := {err : String // err ≠ "ok"}

/-- What becomes of one message and of the reply to it. -/
inductive Delivery where
  | sendFails (err : RpcError)
  | recvFails
  | reply (success : Bool)
  deriving DecidableEq

/-- How the calls of one request end: `ReceivePackStream`, the messages by
their number, `CloseSend`, and the calls of `WriteReference` by their number. -/
structure Network where
  receivePackStream : Option RpcError
  message : Nat → Delivery
  closeSend : Option RpcError
  writeReference : Nat → Option RpcError

/-- The local variables of `unbufferedWriteStream`, what it has encoded, and
the messages it has handed to `Send`. -/
structure StreamWriter where
  output : List PktLine
  sent : List ReceivePackRequest
  connected : Bool
  wroteToStream : Bool
  pakToWrite : List UInt8
  deriving DecidableEq

def StreamWriter.start : StreamWriter := ⟨[], [], false, false, []⟩

inductive Verdict where
  | running
  | returned (result : Bool)
  deriving DecidableEq

/-- How `for` ends, if it has. -/
inductive LoopEnd where
  | running
  | brokeOff
  | returnedFalse
  deriving DecidableEq

def StreamWriter.encode (w : StreamWriter) (lines : List PktLine) : StreamWriter :=
  { w with output := w.output ++ lines }

def writeToStream (net : Network) (w : StreamWriter) (data : List UInt8) (done : Bool) :
    Bool × StreamWriter :=
  let sent := { w with
    sent := w.sent ++ [{ repoName := "new-server", data := data, done := done }] }
  match net.message w.sent.length with
  | .sendFails err => (false, sent.encode (unpackError err))
  | .recvFails => (false, sent)
  | .reply success => (success, sent)

/-- The slice of the buffer that is written after a read. -/
def StreamWriter.slice (w : StreamWriter) (r : ReadResult) : StreamWriter :=
  { w with pakToWrite :=
      if r.n < chunkSize then r.pak.take r.n
      else if r.n = chunkSize then r.pak
      else w.pakToWrite }

/-- The loop, from read `i` on. -/
def writeChunks (net : Network) (reader : Reader) : Nat → Nat → StreamWriter →
    LoopEnd × StreamWriter
  | 0, _, w => (.running, w)
  | fuel + 1, i, w =>
      if (reader.read i).n ≠ 0 then
        let w := w.slice (reader.read i)
        match if w.connected then none else net.receivePackStream with
        | some err => (.returnedFalse, w.encode (unpackError err))
        | none =>
            let (ok, w) := writeToStream net { w with connected := true } w.pakToWrite false
            writeChunks net reader fuel (i + 1) { w with wroteToStream := ok }
      else (.brokeOff, w)

/-- Behind the loop. -/
def finishStream (net : Network) (w : StreamWriter) : Bool × StreamWriter :=
  if w.wroteToStream then
    match writeToStream net w [] true with
    | (false, w) => (false, w)
    | (true, w) =>
        let w := w.encode [.line "unpack ok\n", .flush]
        match net.closeSend with
        | some err => (false, w.encode (unpackError err))
        | none => (true, w)
  else (false, w)

def unbufferedWriteStream (net : Network) (reader : Reader) (fuel : Nat) :
    Verdict × StreamWriter :=
  match writeChunks net reader fuel 0 .start with
  | (.running, w) => (.running, w)
  | (.returnedFalse, w) => (.returned false, w)
  | (.brokeOff, w) =>
      let (result, w) := finishStream net w
      (.returned result, w)

/-- The message of a read. -/
def chunkMessage (r : ReadResult) : ReceivePackRequest :=
  { repoName := "new-server", data := r.data, done := false }

def doneMessage : ReceivePackRequest := { repoName := "new-server", data := [], done := true }

/-- The messages of the first `k` reads. -/
def Reader.messages (reader : Reader) (k : Nat) : List ReceivePackRequest :=
  (List.range k).map fun i => chunkMessage (reader.read i)

/-- `writeToStream` returns true for this message. -/
def Network.Succeeds (net : Network) (i : Nat) : Prop := net.message i = .reply true

/-- Nothing but reports of errors. -/
def ErrorLines (output : List PktLine) : Prop :=
  ∃ errs : List RpcError, output = errs.flatMap fun err => unpackError err.1

@[simp] theorem Reader.messages_length (reader : Reader) (k : Nat) :
    (reader.messages k).length = k := by
  simp [messages]

theorem Reader.messages_succ (reader : Reader) (k : Nat) :
    reader.messages (k + 1) = reader.messages k ++ [chunkMessage (reader.read k)] := by
  simp [messages, List.range_succ]

theorem Reader.messages_data (reader : Reader) (k : Nat) :
    ((reader.messages k).map (·.data)).flatten = reader.upTo k := by
  rw [messages, List.map_map, Reader.upTo, List.flatMap_def]
  rfl

theorem errorLines_nil : ErrorLines [] := ⟨[], rfl⟩

theorem ErrorLines.append {output : List PktLine} (h : ErrorLines output) (err : RpcError) :
    ErrorLines (output ++ unpackError err) := by
  obtain ⟨errs, rfl⟩ := h
  exact ⟨errs ++ [err], by simp⟩

theorem ErrorLines.not_ok {output : List PktLine} (h : ErrorLines output) :
    .line "unpack ok\n" ∉ output := by
  obtain ⟨errs, rfl⟩ := h
  intro hmem
  obtain ⟨err, -, hline⟩ := List.mem_flatMap.mp hmem
  have htext : "unpack ok\n" = "unpack " ++ err.1 ++ "\n" := by
    simpa [unpackError] using hline
  have hok : "unpack " ++ "ok" ++ "\n" = "unpack " ++ err.1 ++ "\n" := htext
  exact err.2 ((String.append_right_inj _).mp ((String.append_left_inj _).mp hok)).symm

theorem slice_eq (w : StreamWriter) (r : ReadResult) :
    w.slice r = { w with pakToWrite := r.data } := by
  have hbound := r.bound
  unfold StreamWriter.slice
  split
  · rfl
  · rename_i hnot
    have hfull : r.n = chunkSize := by omega
    have hdata : r.data = r.pak := by
      rw [ReadResult.data, hfull, ← r.size, List.take_length]
    rw [if_pos hfull, hdata]

/-- One message, and what it leaves. -/
theorem writeToStream_eq (net : Network) (w : StreamWriter) (data : List UInt8) (done : Bool) :
    ∃ ok output, writeToStream net w data done = (ok, { w with
        output := output
        sent := w.sent ++ [{ repoName := "new-server", data := data, done := done }] }) ∧
      (ok = true ↔ net.Succeeds w.sent.length) ∧ (ok = true → output = w.output) ∧
      (ErrorLines w.output → ErrorLines output) := by
  unfold writeToStream Network.Succeeds
  cases net.message w.sent.length with
  | sendFails err =>
      exact ⟨false, w.output ++ unpackError err.1, rfl, by simp, by simp, fun h => h.append err⟩
  | recvFails => exact ⟨false, w.output, rfl, by simp, by simp, id⟩
  | reply success => exact ⟨success, w.output, rfl, by simp, by simp, id⟩

variable {net : Network} {reader : Reader}

/-- In front of read `i`, with every read so far written. -/
structure Sending (net : Network) (reader : Reader) (i : Nat) (w : StreamWriter) : Prop where
  gives : reader.GivesBytes i
  connected : w.connected = true ↔ 0 < i
  reached : 0 < i → net.receivePackStream = none
  sent : w.sent = reader.messages i
  wrote : w.wroteToStream = true ↔ 0 < i ∧ net.Succeeds (i - 1)
  output : ErrorLines w.output

theorem sending_start (net : Network) (reader : Reader) : Sending net reader 0 .start where
  gives := by simp [Reader.GivesBytes]
  connected := by simp [StreamWriter.start]
  reached := by simp
  sent := rfl
  wrote := by simp [StreamWriter.start]
  output := errorLines_nil

theorem Sending.sent_length {i : Nat} {w : StreamWriter} (h : Sending net reader i w) :
    w.sent.length = i := by
  rw [h.sent, Reader.messages_length]

theorem GivesBytes.succ {i : Nat} (h : reader.GivesBytes i) (hread : (reader.read i).n ≠ 0) :
    reader.GivesBytes (i + 1) := by
  intro j hj
  rcases Nat.lt_succ_iff_lt_or_eq.mp hj with hbefore | rfl
  · exact h j hbefore
  · exact hread

/-- The body of the loop, once the stream is there. -/
theorem Sending.write {i : Nat} {w : StreamWriter} (h : Sending net reader i w)
    (hread : (reader.read i).n ≠ 0) (hstream : net.receivePackStream = none) :
    ∃ ok next, writeToStream net { w with
        pakToWrite := (reader.read i).data, connected := true } (reader.read i).data false =
          (ok, next) ∧ Sending net reader (i + 1) { next with wroteToStream := ok } := by
  obtain ⟨ok, output, hwritten, hresult, -, houtput⟩ := writeToStream_eq net
    { w with pakToWrite := (reader.read i).data, connected := true } (reader.read i).data false
  refine ⟨ok, _, hwritten, GivesBytes.succ h.gives hread, by simp, fun _ => hstream, ?_, ?_,
    houtput h.output⟩
  · rw [Reader.messages_succ, h.sent]
    rfl
  · rw [hresult, h.sent_length]
    simp

/-- What the loop has come to within `bound` reads. -/
inductive LoopRan (net : Network) (reader : Reader) (bound : Nat) :
    LoopEnd × StreamWriter → Prop where
  | running (w : StreamWriter) (h : Sending net reader bound w) :
      LoopRan net reader bound (.running, w)
  | brokeOff (k : Nat) (w : StreamWriter) (h : Sending net reader k w)
      (hread : (reader.read k).n = 0) : LoopRan net reader bound (.brokeOff, w)
  | returnedFalse (w : StreamWriter) (hstream : net.receivePackStream ≠ none)
      (hgives : reader.GivesBytes 1) (hsent : w.sent = []) (houtput : ErrorLines w.output) :
      LoopRan net reader bound (.returnedFalse, w)

theorem writeChunks_ran (fuel : Nat) {i : Nat} {w : StreamWriter}
    (h : Sending net reader i w) :
    LoopRan net reader (i + fuel) (writeChunks net reader fuel i w) := by
  induction fuel generalizing i w with
  | zero => exact .running w h
  | succ fuel ih =>
      unfold writeChunks
      by_cases hread : (reader.read i).n = 0
      · rw [if_neg (not_not.mpr hread)]
        exact .brokeOff i w h hread
      · rw [if_pos hread]
        simp only [slice_eq]
        cases hstream : net.receivePackStream with
        | none =>
            obtain ⟨ok, next, hwritten, hnext⟩ := h.write hread hstream
            rw [show i + (fuel + 1) = i + 1 + fuel by omega]
            simp only [ite_self, hwritten]
            exact ih hnext
        | some err =>
            have hfirst : i = 0 := by
              by_contra hlater
              have hreached := h.reached (by omega)
              rw [hstream] at hreached
              cases hreached
            subst hfirst
            have hfresh : w.connected = false := by
              rw [← Bool.not_eq_true, h.connected]
              omega
            simp only [hfresh, Bool.false_eq_true, if_false]
            refine .returnedFalse _ (by simp [hstream]) (GivesBytes.succ h.gives hread) ?_ ?_
            · exact h.sent
            · exact h.output.append err

/-- What `unbufferedWriteStream` has come to within `bound` reads. -/
inductive Uploaded (net : Network) (reader : Reader) (bound : Nat) :
    Verdict × StreamWriter → Prop where
  | running (w : StreamWriter) (h : Sending net reader bound w) :
      Uploaded net reader bound (.running, w)
  | noStream (w : StreamWriter) (hstream : net.receivePackStream ≠ none)
      (hgives : reader.GivesBytes 1) (hsent : w.sent = []) (houtput : ErrorLines w.output) :
      Uploaded net reader bound (.returned false, w)
  | notWritten (k : Nat) (w : StreamWriter) (h : Sending net reader k w)
      (hstop : reader.StopsAt k) (hwrote : ¬ (0 < k ∧ net.Succeeds (k - 1))) :
      Uploaded net reader bound (.returned false, w)
  | notDone (k : Nat) (w : StreamWriter) (hstop : reader.StopsAt k)
      (hwrote : 0 < k ∧ net.Succeeds (k - 1)) (hstream : net.receivePackStream = none)
      (hdone : ¬ net.Succeeds k) (hsent : w.sent = reader.messages k ++ [doneMessage])
      (houtput : ErrorLines w.output) : Uploaded net reader bound (.returned false, w)
  | unpackOk (k : Nat) (w : StreamWriter) (hstop : reader.StopsAt k)
      (hwrote : 0 < k ∧ net.Succeeds (k - 1)) (hstream : net.receivePackStream = none)
      (hdone : net.Succeeds k) (hsent : w.sent = reader.messages k ++ [doneMessage])
      (errors closing : List PktLine) (herrors : ErrorLines errors)
      (hclosing : ErrorLines closing)
      (houtput : w.output = errors ++ [.line "unpack ok\n", .flush] ++ closing)
      (result : Bool) (hresult : result = true ↔ net.closeSend = none) :
      Uploaded net reader bound (.returned result, w)

/-- Behind the loop, in one view. -/
theorem finishStream_uploaded {k bound : Nat} {w : StreamWriter}
    (h : Sending net reader k w) (hread : (reader.read k).n = 0) :
    Uploaded net reader bound
      (.returned (finishStream net w).1, (finishStream net w).2) := by
  unfold finishStream
  by_cases hwrote : w.wroteToStream = true
  · rw [if_pos hwrote]
    have hlast := h.wrote.mp hwrote
    have hstream := h.reached hlast.1
    obtain ⟨ok, output, hwritten, hresult, hsame, houtput⟩ := writeToStream_eq net w [] true
    rw [h.sent_length] at hresult
    rw [hwritten, h.sent]
    cases ok with
    | false =>
        exact .notDone k _ ⟨h.gives, hread⟩ hlast hstream (by simpa using hresult) rfl
          (houtput h.output)
    | true =>
        have hdone : net.Succeeds k := hresult.mp rfl
        rw [hsame rfl]
        cases hclose : net.closeSend with
        | some err =>
            exact .unpackOk k _ ⟨h.gives, hread⟩ hlast hstream hdone rfl w.output
              (unpackError err.1) h.output (errorLines_nil.append err) rfl false (by simp [hclose])
        | none =>
            exact .unpackOk k _ ⟨h.gives, hread⟩ hlast hstream hdone rfl w.output []
              h.output errorLines_nil (List.append_nil _).symm true (by simp [hclose])
  · rw [if_neg hwrote]
    exact .notWritten k w h ⟨h.gives, hread⟩ fun hlast => hwrote (h.wrote.mpr hlast)

theorem unbufferedWriteStream_uploaded (net : Network) (reader : Reader) (fuel : Nat) :
    Uploaded net reader fuel (unbufferedWriteStream net reader fuel) := by
  have hran := writeChunks_ran fuel (sending_start net reader)
  rw [Nat.zero_add] at hran
  unfold unbufferedWriteStream
  cases hloop : writeChunks net reader fuel 0 .start with
  | mk loopEnd w =>
      rw [hloop] at hran
      cases hran with
      | running _ h => exact .running w h
      | brokeOff k _ h hread => exact finishStream_uploaded h hread
      | returnedFalse _ hstream hgives hsent houtput =>
          exact .noStream w hstream hgives hsent houtput

/-- While the body gives bytes the loop goes on. -/
theorem writeChunks_running (hstream : net.receivePackStream = none) (fuel : Nat) {i : Nat}
    {w : StreamWriter} (hgives : reader.GivesBytes (i + fuel)) :
    (writeChunks net reader fuel i w).1 = .running := by
  induction fuel generalizing i w with
  | zero => rfl
  | succ fuel ih =>
      have hread : (reader.read i).n ≠ 0 := hgives i (by omega)
      have hrest : reader.GivesBytes (i + 1 + fuel) := by
        rwa [show i + 1 + fuel = i + (fuel + 1) by omega]
      unfold writeChunks
      rw [if_pos hread]
      simp only [hstream, ite_self]
      exact ih hrest

end GitRpc.Frontend
