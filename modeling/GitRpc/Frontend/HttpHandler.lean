import GitRpc.Frontend.Commands
import GitRpc.Frontend.WholeBody

/-!
`GitHTTPHandler` and what it calls: the repository is opened for every request
that names one, and the rest depends on the method and the path. The network,
the storage and the body are given with the request; an index out of range, or
a method call on `nil`, ends the request with a panic.
-/

namespace GitRpc.Frontend

open Common

/-- What becomes of `listRefs`: `git.PlainOpen` fails, or `repo.References`
fails and leaves `refs` nil, or neither does. -/
inductive Listing where
  | notOpened
  | noReferences
  | listed
  deriving DecidableEq

/-- `lines` is what `DecodeUntilFlush` gives, unless it fails, and `body` is
what comes behind it. -/
structure HttpRequest where
  method : String
  path : String
  service : String
  lines : Option (List String)
  body : Reader

structure World where
  net : Network
  storageFails : Bool
  listing : Listing

/-- What the handling of a request has written and asked of the service. -/
structure Served where
  output : List PktLine
  references : List WriteReferenceRequest
  stateChanges : List Bool
  deriving DecidableEq

def Served.nothing : Served := ⟨[], [], []⟩

inductive Exit where
  | running
  | returned
  | panicked
  deriving DecidableEq

def Served.encode (r : Served) (lines : List PktLine) : Served :=
  { r with output := r.output ++ lines }

/-- The result of the call is only logged. -/
def Served.changeRepoState (r : Served) (opened : Bool) : Served :=
  { r with stateChanges := r.stateChanges ++ [opened] }

/-- From call `i` on. -/
def writeReferences (net : Network) (parsedRefs : String → String) :
    Nat → List String → Served → Served
  | _, [], r => r.changeRepoState false
  | i, ref :: rest, r =>
      let refName := strings.trimSuffix ref '\x00'
      let r : Served :=
        { r with references := r.references ++ [⟨"new-server", refName, parsedRefs ref⟩] }
      match net.writeReference i with
      | some err =>
          (r.encode [.line ("ng " ++ refName ++ " " ++ err.1 ++ "\n")]).changeRepoState false
      | none =>
          writeReferences net parsedRefs (i + 1) rest (r.encode [.line ("ok " ++ refName ++ "\n")])

def packUpload (net : Network) (request : HttpRequest) (fuel : Nat) (r : Served) :
    Exit × Served :=
  match request.lines with
  | none => (.returned, r)
  | some lines =>
      let parsed := parseCommands lines
      match unbufferedWriteStream net request.body fuel with
      | (.running, w) => (.running, r.encode w.output)
      | (.returned false, w) => (.returned, r.encode w.output)
      | (.returned true, w) =>
          (.returned, writeReferences net parsed.refs 0 parsed.names (r.encode w.output))

/-- `clone` does nothing. -/
def postRequestHandler (net : Network) (request : HttpRequest) (fuel : Nat) (r : Served) :
    Exit × Served :=
  match (strings.split '/' request.path)[3]? with
  | none => (.panicked, r)
  | some service =>
      if service = "git-receive-pack" then packUpload net request fuel r else (.returned, r)

/-- `listRefsForClone` does nothing, and `listRefs` writes past the encoder. -/
def getRequestHandler (world : World) (request : HttpRequest) (r : Served) : Exit × Served :=
  let r := r.encode [.line ("# service=" ++ request.service ++ "\n"), .flush]
  if request.service = "git-receive-pack" ∧ world.listing = .noReferences then (.panicked, r)
  else (.returned, r)

def gitHTTPHandler (world : World) (request : HttpRequest) (fuel : Nat) : Exit × Served :=
  match (strings.split '/' request.path)[2]? with
  | none => (.panicked, .nothing)
  | some repoName =>
      if repoName ≠ "" then
        if world.storageFails then (.panicked, .nothing)
        else
          let r := Served.nothing.changeRepoState true
          if request.method = "GET" then getRequestHandler world request r
          else if request.method = "POST" then postRequestHandler world.net request fuel r
          else (.returned, r)
      else (.returned, .nothing)

/-- Everything is closed again, and nothing is closed before it is open. -/
structure Paired (stateChanges : List Bool) : Prop where
  count : stateChanges.count false = stateChanges.count true
  order : ∀ before after, stateChanges = before ++ after →
    before.count false ≤ before.count true

/-- The whole upload goes through: the body is not empty, and its last chunk,
the message `done` and `CloseSend` do not fail. -/
structure UploadSucceeds (net : Network) (reader : Reader) : Prop where
  stream : reader.GivesBytes 1 → net.receivePackStream = none
  stop : ∀ k, reader.StopsAt k →
    0 < k ∧ net.Succeeds (k - 1) ∧ net.Succeeds k ∧ net.closeSend = none

/-- The repository is opened for this request. -/
def Opens (world : World) (request : HttpRequest) : Prop :=
  world.storageFails = false ∧
    ∃ repoName, (strings.split '/' request.path)[2]? = some repoName ∧ repoName ≠ ""

/-- The request is a push that gets to its references. -/
structure ReachesReferences (world : World) (request : HttpRequest) : Prop where
  method : request.method = "POST"
  path : (strings.split '/' request.path)[3]? = some "git-receive-pack"
  lines : request.lines.isSome
  upload : UploadSucceeds world.net request.body

variable {net : Network} {reader : Reader}

/-- The upload goes through exactly when `unbufferedWriteStream` never returns
false. -/
theorem uploadSucceeds_iff (net : Network) (reader : Reader) :
    UploadSucceeds net reader ↔
      ∀ fuel, (unbufferedWriteStream net reader fuel).1 ≠ .returned false := by
  constructor
  · intro h fuel
    generalize hrun : unbufferedWriteStream net reader fuel = ended
    have huploaded := unbufferedWriteStream_uploaded net reader fuel
    rw [hrun] at huploaded
    cases huploaded with
    | running w h => simp
    | noStream w hstream hgives => exact absurd (h.stream hgives) hstream
    | notWritten k w hw hstop hwrote =>
        obtain ⟨hk, hlast, -, -⟩ := h.stop k hstop
        exact absurd ⟨hk, hlast⟩ hwrote
    | notDone k w hstop hwrote hstream hdone => exact absurd (h.stop k hstop).2.2.1 hdone
    | unpackOk k w hstop hwrote hstream hdone hsent errors closing herrors hclosing houtput
        result hresult =>
        simp [hresult.mpr (h.stop k hstop).2.2.2]
  · intro hall
    have hstream : reader.GivesBytes 1 → net.receivePackStream = none := by
      intro hgives
      by_contra hnone
      obtain ⟨err, herr⟩ := Option.ne_none_iff_exists'.mp hnone
      apply hall 1
      simp [unbufferedWriteStream, writeChunks, hgives 0 Nat.one_pos, slice_eq,
        StreamWriter.start, herr]
    refine ⟨hstream, fun k hstop => ?_⟩
    have hk : 0 < k := by
      by_contra hzero
      obtain rfl : k = 0 := by omega
      apply hall 1
      simp [unbufferedWriteStream, writeChunks, hstop.2, finishStream, StreamWriter.start]
    have hreached := hstream fun i hi => hstop.1 i (by omega)
    have hended := unbufferedWriteStream_ended hstop (Nat.lt_succ_self k) hreached
    have hnot := hall (k + 1)
    generalize hrun : unbufferedWriteStream net reader (k + 1) = ran at hended hnot
    have huploaded := unbufferedWriteStream_uploaded net reader (k + 1)
    rw [hrun] at huploaded
    cases huploaded with
    | running w h => exact absurd rfl hended
    | noStream | notWritten | notDone => exact absurd rfl hnot
    | unpackOk k' w hstop' hwrote _ hdone _ _ _ _ _ _ result hclosed =>
        obtain rfl := Reader.stopsAt_unique hstop' hstop
        have htrue : result = true := by simpa using hnot
        exact ⟨hk, hwrote.2, hdone, hclosed.mp htrue⟩

/-- The repository is closed once, after the last reference or the first one
that fails. -/
theorem writeReferences_stateChanges (parsedRefs : String → String) (i : Nat)
    (names : List String) (r : Served) :
    (writeReferences net parsedRefs i names r).stateChanges = r.stateChanges ++ [false] := by
  induction names generalizing i r with
  | nil => rfl
  | cons ref rest ih =>
      unfold writeReferences
      cases net.writeReference i with
      | none => exact ih _ _
      | some err => rfl

theorem paired_nil : Paired [] := ⟨rfl, by simp⟩

theorem not_paired_open : ¬ Paired [true] := fun h => by simpa using h.count

theorem paired_open_close : Paired [true, false] where
  count := rfl
  order := by
    intro before after hsplit
    rcases before with _ | ⟨first, _ | ⟨second, rest⟩⟩
    · simp
    · simp at hsplit
      simp [hsplit]
    · simp at hsplit
      simp [hsplit]

/-- `packUpload` closes the repository exactly when the upload is through. -/
theorem packUpload_stateChanges (net : Network) (request : HttpRequest) (r : Served) :
    (∀ fuel, (packUpload net request fuel r).1 ≠ .running →
      (packUpload net request fuel r).2.stateChanges = r.stateChanges ++ [false]) ↔
        request.lines.isSome ∧ UploadSucceeds net request.body := by
  rw [uploadSucceeds_iff]
  unfold packUpload
  cases request.lines with
  | none =>
      simp
  | some lines =>
      simp only [Option.isSome_some, true_and]
      apply forall_congr'
      intro fuel
      cases hupload : unbufferedWriteStream net request.body fuel with
      | mk verdict w =>
          cases verdict with
          | running => simp
          | returned result =>
              cases result with
              | false => simp [Served.encode]
              | true => simp [writeReferences_stateChanges, Served.encode]

theorem packUpload_closes_or_not (net : Network) (request : HttpRequest) (fuel : Nat)
    (r : Served) :
    (packUpload net request fuel r).2.stateChanges = r.stateChanges ∨
      (packUpload net request fuel r).2.stateChanges = r.stateChanges ++ [false] := by
  unfold packUpload
  split
  · exact .inl rfl
  · split
    · exact .inl rfl
    · exact .inl rfl
    · exact .inr (writeReferences_stateChanges _ _ _ _)

/-- What is done once the repository has been opened. -/
theorem gitHTTPHandler_opens {world : World} {request : HttpRequest} (fuel : Nat)
    (hopens : Opens world request) :
    gitHTTPHandler world request fuel =
      if request.method = "GET" then
        getRequestHandler world request (Served.nothing.changeRepoState true)
      else if request.method = "POST" then
        postRequestHandler world.net request fuel (Served.nothing.changeRepoState true)
      else (.returned, Served.nothing.changeRepoState true) := by
  obtain ⟨hstorage, repoName, hname, hne⟩ := hopens
  simp [gitHTTPHandler, hname, hne, hstorage]

theorem gitHTTPHandler_closed {world : World} {request : HttpRequest} (fuel : Nat)
    (hopens : ¬ Opens world request) :
    (gitHTTPHandler world request fuel).2.stateChanges = [] := by
  unfold gitHTTPHandler
  split
  · rfl
  · rename_i repoName hname
    by_cases hne : repoName = ""
    · simp [hne, Served.nothing]
    · cases hstorage : world.storageFails with
      | true => simp [hne, Served.nothing]
      | false => exact absurd ⟨hstorage, repoName, hname, hne⟩ hopens

/-- Once opened, a push is paired exactly when its upload goes through. -/
theorem packUpload_paired_iff (net : Network) (request : HttpRequest) {r : Served}
    (hr : r.stateChanges = [true]) :
    (∀ fuel, (packUpload net request fuel r).1 ≠ .running →
      Paired (packUpload net request fuel r).2.stateChanges) ↔
        request.lines.isSome ∧ UploadSucceeds net request.body := by
  rw [← packUpload_stateChanges net request r]
  apply forall_congr'
  intro fuel
  apply imp_congr Iff.rfl
  rcases packUpload_closes_or_not net request fuel r with hopen | hclosed
  · rw [hopen, hr]
    exact iff_of_false not_paired_open (by simp)
  · rw [hclosed, hr]
    exact iff_of_true paired_open_close rfl

theorem postRequestHandler_paired_iff (net : Network) (request : HttpRequest) {r : Served}
    (hr : r.stateChanges = [true]) :
    (∀ fuel, (postRequestHandler net request fuel r).1 ≠ .running →
      Paired (postRequestHandler net request fuel r).2.stateChanges) ↔
        (strings.split '/' request.path)[3]? = some "git-receive-pack" ∧
          request.lines.isSome ∧ UploadSucceeds net request.body := by
  unfold postRequestHandler
  cases hservice : (strings.split '/' request.path)[3]? with
  | none => simp [hr, not_paired_open]
  | some service =>
      by_cases hpush : service = "git-receive-pack"
      · simpa [hpush] using packUpload_paired_iff net request hr
      · simp [hpush, hr, not_paired_open]

/-- Nothing on the way of a GET closes the repository. -/
theorem getRequestHandler_ended (world : World) (request : HttpRequest) (r : Served) :
    (getRequestHandler world request r).1 ≠ .running ∧
      (getRequestHandler world request r).2.stateChanges = r.stateChanges := by
  unfold getRequestHandler
  dsimp only
  split <;> exact ⟨by simp, rfl⟩

/-- For every request, whatever fails on the way: by the time the handler is
through, everything it has opened is closed, exactly when it opens nothing or
the request is a push that gets to its references. -/
theorem handler_paired_iff (world : World) (request : HttpRequest) :
    (∀ fuel, (gitHTTPHandler world request fuel).1 ≠ .running →
      Paired (gitHTTPHandler world request fuel).2.stateChanges) ↔
        (Opens world request → ReachesReferences world request) := by
  by_cases hopens : Opens world request
  · have hopened : (Served.nothing.changeRepoState true).stateChanges = [true] := rfl
    simp only [gitHTTPHandler_opens _ hopens, hopens, true_imp_iff]
    by_cases hget : request.method = "GET"
    · obtain ⟨hended, htrace⟩ := getRequestHandler_ended world request
        (Served.nothing.changeRepoState true)
      refine iff_of_false (fun hall => ?_) (fun h => ?_)
      · have hpaired := hall 0
        rw [if_pos hget, htrace] at hpaired
        exact not_paired_open (hpaired hended)
      · exact absurd (hget.symm.trans h.method) (by decide)
    · simp only [hget, if_false]
      by_cases hpost : request.method = "POST"
      · simp only [hpost, if_true]
        rw [postRequestHandler_paired_iff world.net request hopened]
        constructor
        · rintro ⟨hpath, hlines, hupload⟩
          exact ⟨hpost, hpath, hlines, hupload⟩
        · intro h
          exact ⟨h.path, h.lines, h.upload⟩
      · refine iff_of_false (fun hall => ?_) (fun h => hpost h.method)
        apply not_paired_open
        simpa [hpost, hopened] using hall 0
  · refine iff_of_true (fun fuel _ => ?_) (fun h => absurd h hopens)
    rw [gitHTTPHandler_closed fuel hopens]
    exact paired_nil

/-- A client asks for the references of "new-server". -/
def infoRefs : HttpRequest :=
  ⟨"GET", "/git/new-server/info/refs", "git-upload-pack", none, .of [] (by simp)⟩

/-- The repository stays open behind every GET. -/
theorem get_leaves_open :
    ¬ ∀ fuel, (gitHTTPHandler ⟨.allDelivered, false, .listed⟩ infoRefs fuel).1 ≠ .running →
      Paired (gitHTTPHandler ⟨.allDelivered, false, .listed⟩ infoRefs fuel).2.stateChanges := by
  intro hall
  have htrace : (gitHTTPHandler ⟨.allDelivered, false, .listed⟩ infoRefs 0).2.stateChanges =
      [true] := by decide
  have hended : (gitHTTPHandler ⟨.allDelivered, false, .listed⟩ infoRefs 0).1 = .returned := by
    decide
  have hpaired := hall 0 (by rw [hended]; decide)
  rw [htrace] at hpaired
  exact not_paired_open hpaired

end GitRpc.Frontend
