import GitRpc.Services.GitServiceAsyncImpl

/-!
A push as the frontend carries it out: `packUpload`, after it has read the
commands, with `unbufferedWriteStream`, `writeToStream` and `writeReferences`,
in step with the service. The frontend's calls may fail at any time, whatever
the service does with them; the texts of their errors come with the events.

The push has the only stream, the first one that the service accepts. The
repository has been opened before, by `GitHTTPHandler`.
-/

namespace GitRpc.Frontend

open Common Repository Requests Services Library.Runs

/-- What one request brings. The chunks are what the reads of the body give
until one gives nothing; a reference is the name and the id that the frontend
sends for it. -/
structure PackUpload where
  chunks : List (List UInt8)
  refs : List (String × String)
  chunks_ne_nil : ∀ chunk ∈ chunks, chunk ≠ []

/-- `enc.Encode` of a text, or of `nil`. -/
inductive PktLine where
  | line (text : String)
  | flush
  deriving DecidableEq

inductive FrontendAt where
  | reading
  | connecting (data : List UInt8)
  | sending (data : List UInt8) (done : Bool)
  | receiving (done : Bool)
  | unpackOk
  | closingSend
  | references
  | awaiting (ref : String × String) (taken : Bool)
  | answered (ref : String × String) (code : StatusCode)
  | closingRepo
  | returned
  deriving DecidableEq

/-- `received` counts the replies that `Recv` has taken off the stream. -/
structure GitServer where
  program : FrontendAt
  body : List (List UInt8)
  refs : List (String × String)
  connected : Bool
  wroteToStream : Bool
  received : Nat
  output : List PktLine
  deriving DecidableEq

structure Push where
  service : GitService
  frontend : GitServer

def Push.start (manager : RepositoryManager) (upload : PackUpload) : Push :=
  ⟨.start manager fun _ => [], ⟨.reading, upload.chunks, upload.refs, false, false, 0, []⟩⟩

inductive PushEvent where
  | read
  | connect (err : Option String)
  | send (err : Option String)
  | recv (err : Option String)
  | encodeUnpackOk
  | closeSend (err : Option String)
  | writeReference
  | writeReferenceFails (err : String)
  | report (err : String)
  | changeRepoStateFails
  | service (e : ServiceEvent)

/-- The replies that the service has written to a stream. -/
def repliesOn (log : List Action) (stream : Nat) : List GenericResponse :=
  log.filterMap fun
    | .write i r => if i = stream then some r else none
    | .writeAndFinish i r _ => if i = stream then some r else none
    | _ => none

/-- How an error ends up in the report. -/
def unpackError (err : String) : List PktLine := [.line ("unpack " ++ err ++ "\n"), .flush]

/-- Back in `unbufferedWriteStream`, with what `writeToStream` returned. A
chunk's result replaces the one before it. -/
def GitServer.wrote (f : GitServer) (done ok : Bool) : GitServer :=
  if done then { f with program := if ok then .unpackOk else .returned }
  else { f with program := .reading, wroteToStream := ok }

/-- The message is on its way to the service. -/
def sendTo (s : GitService) (message : ReceivePackRequest) : GitService :=
  { s with recvPack := { s.recvPack with
    unread := Function.update s.recvPack.unread 0 (s.recvPack.unread 0 ++ [message]) } }

/-- Whether the client has done what a step of the service needs it for. -/
def GitServer.allows (f : GitServer) : ServiceEvent → Bool
  | .recvPack op ok => op.tag ≠ .CONNECT ∨ ok = false ∨ f.connected
  | .writeReference request =>
      match f.program with
      | .awaiting ref taken => !taken && request = ⟨"new-server", ref.1, ref.2⟩
      | _ => false
  | .changeRepoState request =>
      f.program = .closingRepo ∧ request = ⟨"new-server", false⟩
  | _ => true

/-- What a step of the service gives back to the client. -/
def GitServer.notice (f : GitServer) (s : GitService) : ServiceEvent → GitServer
  | .writeReference _ =>
      match f.program with
      | .awaiting ref _ => { f with program := .awaiting ref true }
      | _ => f
  | .writeReferenceResume =>
      match f.program, s.writeReferenceWaits with
      | .awaiting ref true, some (_, number) =>
          match s.text number with
          | some err => { f with program := .answered ref (WriteReference.read err).2.code }
          | none => f
      | _, _ => f
  | .changeRepoState _ => { f with program := .returned }
  | _ => f

def Push.step (libs : Nat → Lib) (s : Push) : PushEvent → Option Push
  | .read =>
      match s.frontend.program, s.frontend.body with
      | .reading, data :: rest => some { s with frontend := { s.frontend with
          program := if s.frontend.connected then .sending data false else .connecting data
          body := rest } }
      | .reading, [] => some { s with frontend := { s.frontend with
          program := if s.frontend.wroteToStream then .sending [] true else .returned } }
      | _, _ => none
  | .connect err =>
      match s.frontend.program, err with
      | .connecting data, none => some { s with frontend := { s.frontend with
          program := .sending data false, connected := true } }
      | .connecting _, some err => some { s with frontend := { s.frontend with
          program := .returned, output := s.frontend.output ++ unpackError err } }
      | _, _ => none
  | .send err =>
      match s.frontend.program, err with
      | .sending data done, none => some {
          service := sendTo s.service { repoName := "new-server", data := data, done := done }
          frontend := { s.frontend with program := .receiving done } }
      | .sending _ done, some err => some { s with frontend := { s.frontend with
          output := s.frontend.output ++ unpackError err }.wrote done false }
      | _, _ => none
  | .recv err =>
      match s.frontend.program, err with
      | .receiving done, none =>
          (repliesOn s.service.recvPack.log 0)[s.frontend.received]?.map fun r =>
            { s with frontend := { s.frontend with
              received := s.frontend.received + 1 }.wrote done r.success }
      | .receiving done, some _ => some { s with frontend := s.frontend.wrote done false }
      | _, _ => none
  | .encodeUnpackOk =>
      match s.frontend.program with
      | .unpackOk => some { s with frontend := { s.frontend with
          program := .closingSend
          output := s.frontend.output ++ [.line "unpack ok\n", .flush] } }
      | _ => none
  | .closeSend err =>
      match s.frontend.program, err with
      | .closingSend, none => some { s with frontend := { s.frontend with
          program := .references } }
      | .closingSend, some err => some { s with frontend := { s.frontend with
          program := .returned, output := s.frontend.output ++ unpackError err } }
      | _, _ => none
  | .writeReference =>
      match s.frontend.program, s.frontend.refs with
      | .references, ref :: rest => some { s with frontend := { s.frontend with
          program := .awaiting ref false, refs := rest } }
      | .references, [] => some { s with frontend := { s.frontend with
          program := .closingRepo } }
      | _, _ => none
  | .writeReferenceFails err =>
      match s.frontend.program with
      | .awaiting ref _ => some { s with frontend := { s.frontend with
          program := .closingRepo
          output := s.frontend.output ++ [.line ("ng " ++ ref.1 ++ " " ++ err ++ "\n")] } }
      | _ => none
  | .report err =>
      match s.frontend.program with
      | .answered ref .OK => some { s with frontend := { s.frontend with
          program := .references
          output := s.frontend.output ++ [.line ("ok " ++ ref.1 ++ "\n")] } }
      | .answered ref .INTERNAL => some { s with frontend := { s.frontend with
          program := .closingRepo
          output := s.frontend.output ++ [.line ("ng " ++ ref.1 ++ " " ++ err ++ "\n")] } }
      | _ => none
  | .changeRepoStateFails =>
      match s.frontend.program with
      | .closingRepo => some { s with frontend := { s.frontend with program := .returned } }
      | _ => none
  | .service e =>
      if s.frontend.allows e then
        (s.service.step libs e).map fun service => ⟨service, s.frontend.notice s.service e⟩
      else none

theorem repliesOn_append (old new : List Action) (stream : Nat) :
    repliesOn (old ++ new) stream = repliesOn old stream ++ repliesOn new stream :=
  List.filterMap_append

/-- A step of the service that the client has no part in. -/
theorem step_service {libs : Nat → Lib} {s : Push} {e : ServiceEvent} {service : GitService}
    (hallows : s.frontend.allows e = true) (hnotice : s.frontend.notice s.service e = s.frontend)
    (hstep : s.service.step libs e = some service) :
    s.step libs (.service e) = some { s with service := service } := by
  simp only [Push.step, hallows, if_true, hstep, Option.map_some, hnotice]

end GitRpc.Frontend
