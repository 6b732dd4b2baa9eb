import GitRpc.Repository.RepoProxy
import GitRpc.Requests.RecvPackStream

/-!
What the handlers ask of `RepoProxy`, and what they reply. A handler thread
stops on the future of such a call, at most one at a time, before it takes
another event.
-/

namespace GitRpc.Requests

open Common Repository

/-- `Write` of the two handlers of single requests: the text that stands for
success differs. -/
def finishWith (accepted msg : String) : GenericResponse × Status :=
  if msg = accepted then (⟨true, msg⟩, ⟨.OK, "Success"⟩)
  else (⟨false, msg⟩, ⟨.INTERNAL, msg⟩)

def WriteReference.write (msg : String) : GenericResponse × Status :=
  finishWith "Success" msg

def RepoStateChange.write (msg : String) : GenericResponse × Status :=
  finishWith "success" msg

/-- The end of `WriteReference::Request::Read`. -/
def WriteReference.read (err : String) : GenericResponse × Status :=
  if err ≠ "success" then WriteReference.write err else WriteReference.write "Success"

/-- The call that a stream's request waits for when it processes an event. -/
def Request.calls (r : Request) : RequestStatus → Option RepoProxyCall
  | .CONNECT | .WRITE =>
      if r.isRunning ∧ r.msg.data.length > 0 then some (.packAppend r.msg) else none
  | .DONE => if r.repoOpen then some .packCommit else none
  | .READ | .FINISH => none

/-- The call that `RepoStateChange::Request::Read` makes. -/
def RepoStateChange.calls (request : RepoStateChangeRequest) : RepoProxyCall :=
  if request.newRepoState then .openRepo request.repoName else .closeRepo

/-- The task that an action waited for, and the text that came back. -/
def Action.waitedFor : Action → Option (ManagerTask × String)
  | .packAppend _ data ret => some (.appendDataToPack data, ret)
  | .packCommit _ ret => some (.commitPackChanges, ret)
  | _ => none

theorem finishWith_success (accepted msg : String) :
    (finishWith accepted msg).1.success = true ↔ msg = accepted := by
  unfold finishWith
  split <;> simp_all

/-- The flag and the status of a reply agree. -/
theorem finishWith_status (accepted msg : String) :
    (finishWith accepted msg).2.code = .OK ↔ (finishWith accepted msg).1.success = true := by
  unfold finishWith
  split <;> simp

/-- libgit2's own text passes for success in either spelling. -/
theorem writeReference_success (err : String) :
    (WriteReference.read err).1.success = true ↔ err = "success" ∨ err = "Success" := by
  unfold WriteReference.read
  split
  · rename_i hne
    rw [WriteReference.write, finishWith_success]
    simp [hne]
  · rename_i heq
    simp [not_not.mp heq, WriteReference.write, finishWith_success]

theorem checkDone_waitedFor (r : Request) :
    r.checkDone.actions.filterMap Action.waitedFor = [] := by
  unfold Request.checkDone
  split <;> rfl

theorem readMessage_waitedFor (r : Request) (ret : String) :
    (r.readMessage ret).actions.filterMap Action.waitedFor =
      if r.isRunning ∧ r.msg.data.length > 0 then [(.appendDataToPack r.msg.data, ret)]
      else [] := by
  unfold Request.readMessage
  by_cases hrunning : r.isRunning = true
  · rw [if_pos hrunning]
    by_cases hdata : r.msg.data.length > 0
    · have hboth : r.isRunning ∧ r.msg.data.length > 0 := ⟨hrunning, hdata⟩
      rw [if_pos hdata, if_pos hboth]
      split
      · rfl
      · rw [List.filterMap_append, checkDone_waitedFor]
        rfl
    · have hnot : ¬ (r.isRunning ∧ r.msg.data.length > 0) := fun hboth => hdata hboth.2
      rw [if_neg hdata, if_neg hnot]
      exact checkDone_waitedFor r
  · have hnot : ¬ (r.isRunning ∧ r.msg.data.length > 0) := fun hboth => hrunning hboth.1
    rw [if_neg hrunning, if_neg hnot]
    rfl

theorem finishRequest_waitedFor (r : Request) (ret : String) :
    (r.finishRequest ret).actions.filterMap Action.waitedFor =
      if r.repoOpen then [(.commitPackChanges, ret)] else [] := by
  unfold Request.finishRequest
  split
  · split <;> rfl
  · rfl

/-- A request waits for the one call that `calls` names, and puts what comes
back into its actions. -/
theorem processRequest_waitedFor (r : Request) (status : RequestStatus) (ret : String) :
    (r.processRequest status ret).actions.filterMap Action.waitedFor =
      ((r.calls status).map fun call => (call.task, ret)).toList := by
  cases status with
  | READ | FINISH => rfl
  | CONNECT | WRITE =>
      simp only [Request.processRequest, Request.calls, readMessage_waitedFor]
      split <;> rfl
  | DONE =>
      simp only [Request.processRequest, Request.calls]
      split
      · rename_i hopen
        rw [finishRequest_waitedFor, if_pos hopen]
        rfl
      · rfl

/-- Where a request waits for nothing, no text can make a difference. -/
theorem processRequest_free {r : Request} {status : RequestStatus}
    (hfree : r.calls status = none) (ret other : String) :
    r.processRequest status ret = r.processRequest status other := by
  cases status with
  | READ | FINISH => rfl
  | CONNECT | WRITE =>
      have hnot : ¬ (r.isRunning ∧ r.msg.data.length > 0) := by
        intro hboth
        simp [Request.calls, hboth] at hfree
      simp only [Request.processRequest, Request.readMessage]
      by_cases hrunning : r.isRunning = true
      · rw [if_pos hrunning, if_pos hrunning, if_neg (fun hdata => hnot ⟨hrunning, hdata⟩),
          if_neg (fun hdata => hnot ⟨hrunning, hdata⟩)]
      · rw [if_neg hrunning, if_neg hrunning]
  | DONE =>
      have hclosed : r.repoOpen = false := by
        by_contra hopen
        simp [Request.calls, hopen] at hfree
      simp [Request.processRequest, hclosed]

end GitRpc.Requests
