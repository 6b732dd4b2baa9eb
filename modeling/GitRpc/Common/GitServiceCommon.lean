import Mathlib.Tactic

/-!
What the services share: the libgit2 calls with their return codes, the way
an error code becomes a text, and the messages of the RPC interface.

libgit2 itself is not part of the repository. One task makes each call at
most once, so a table from calls to results stands for all that libgit2 may
answer to the task. The listing of references calls it in a loop; what it is
answered there comes with its task.
-/

namespace GitRpc.Common

/-- A libgit2 function the service calls, with the arguments that tell two
calls of one task apart. -/
inductive GitCall where
  | repositoryOpen (path : String)
  | repositoryOpenBare (path : String)
  | repositoryOdb
  | odbWritePack
  | writepackAppend (data : List UInt8)
  | writepackCommit
  | oidFromstr (str : String)
  | referenceCreate (refName : String)
  | repositorySetHead (refName : String)
  deriving DecidableEq

/-- The return code of a call, and the message that `giterr_last` holds after
it. There may be none, or one that an earlier call left there. -/
structure GitResult where
  errCode : Int
  lastError : Option String
  deriving DecidableEq

abbrev Lib := GitCall → GitResult

/-- `GIT_ITEROVER`, the end of an iteration. -/
def gitIterOver : Int := -31

/-- `Common::CheckForError`: libgit2's last message, whatever the code is,
and the empty text when there is none. -/
def checkForError (result : GitResult) : String := result.lastError.getD ""

/-- How the wrappers around libgit2 report one call. -/
def report (result : GitResult) : String :=
  if result.errCode ≠ 0 then checkForError result else "success"

/-- Every libgit2 call succeeds. -/
def Lib.allOk : Lib := fun _ => ⟨0, none⟩

inductive RequestStatus where
  | READ | WRITE | CONNECT | DONE | FINISH
  deriving DecidableEq

inductive StatusCode where
  | OK | INTERNAL
  deriving DecidableEq

structure Status where
  code : StatusCode
  message : String
  deriving DecidableEq

structure GenericResponse where
  success : Bool
  errorMessage : String
  deriving DecidableEq

structure GitReference where
  referenceHash : String
  referenceName : String
  deriving DecidableEq

structure ReceivePackRequest where
  repoName : String := ""
  data : List UInt8 := []
  done : Bool := false
  ref : Option GitReference := none
  deriving DecidableEq

structure WriteReferenceRequest where
  repoName : String
  refName : String
  refRev : String
  deriving DecidableEq

structure RepoStateChangeRequest where
  repoName : String
  newRepoState : Bool
  deriving DecidableEq

/-- `CommonResponseInfo`. `Common::Response` stores `Status::OK` in it
whatever status it is given. -/
structure CommonResponseInfo where
  success : Bool
  errorMessage : String
  requestStatus : StatusCode
  deriving DecidableEq

def response (msg : String) (success : Bool) (_status : StatusCode) : CommonResponseInfo :=
  ⟨success, msg, .OK⟩

end GitRpc.Common
