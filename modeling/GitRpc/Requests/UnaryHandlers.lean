import GitRpc.Library.Runs
import GitRpc.Requests.Calls

/-!
`HandlerThread` and `Request` of `WriteReference` and of `RepoStateChange`,
which differ in what they ask of `RepoProxy` and in what they reply. Each
object starts one operation at a time with its own address as the tag: the
accept, in its constructor, and then `Finish`. It makes its successor when its
accept comes through, and deletes itself when its `Finish` does, if that comes
with `ok` true: the loop skips every other completion.

While `Read` waits for a future the thread takes nothing off the queue.
-/

namespace GitRpc.Requests

open Common Repository Library.Runs

inductive UnaryOp where
  | accept
  | finish
  deriving DecidableEq

/-- What the two handlers differ in: the call that `Read` makes, whether it
waits for the call's future, and how it replies to the text it gets. Where it
does not wait the text is "success". -/
structure UnaryService (ρ : Type*) where
  call : ρ → RepoProxyCall
  waits : ρ → Bool
  reply : String → GenericResponse × Status

def WriteReference.service : UnaryService WriteReferenceRequest :=
  ⟨.createReference, fun _ => true, WriteReference.read⟩

def RepoStateChange.service : UnaryService RepoStateChangeRequest :=
  ⟨RepoStateChange.calls, RepoStateChangeRequest.newRepoState, RepoStateChange.write⟩

variable {ρ : Type*}

/-- Addresses are numbers, given out in order. The last four fields are a
history: the requests that were accepted, the calls of `Finish`, the requests
whose `Finish` has come back, and those that were deleted. -/
structure UnaryHandler (ρ : Type*) where
  status : Nat → RequestStatus
  allocated : Nat
  live : List Nat
  outstanding : List (Nat × UnaryOp)
  waiting : Option (Nat × ρ)
  calls : List RepoProxyCall
  accepted : List Nat
  finishes : List (Nat × GenericResponse × Status)
  ended : List Nat
  deleted : List Nat

inductive UnaryEvent (ρ : Type*) where
  | complete (address : Nat) (op : UnaryOp) (ok : Bool) (request : ρ)
  | ready (ret : String)

namespace UnaryHandler

def empty : UnaryHandler ρ := ⟨fun _ => .CONNECT, 0, [], [], none, [], [], [], [], []⟩

/-- `ProcessRequest` in the state `CONNECT`. -/
def connect (s : UnaryHandler ρ) (address : Nat) : UnaryHandler ρ :=
  { s with
    status := Function.update s.status address .READ
    outstanding := s.outstanding ++ [(address, .accept)] }

/-- `new Request`. -/
def newRequest (s : UnaryHandler ρ) : UnaryHandler ρ :=
  { s with
    status := Function.update s.status s.allocated .CONNECT
    allocated := s.allocated + 1
    live := s.live ++ [s.allocated] }.connect s.allocated

/-- `Write`, and the assignment behind `Read`. -/
def write (service : UnaryService ρ) (s : UnaryHandler ρ) (address : Nat) (text : String) :
    UnaryHandler ρ :=
  { s with
    status := Function.update s.status address .FINISH
    outstanding := s.outstanding ++ [(address, .finish)]
    waiting := none
    finishes := s.finishes ++ [(address, service.reply text)] }

def read (service : UnaryService ρ) (s : UnaryHandler ρ) (address : Nat) (request : ρ) :
    UnaryHandler ρ :=
  let s := { s with calls := s.calls ++ [service.call request] }
  if service.waits request then { s with waiting := some (address, request) }
  else s.write service address "success"

def delete (s : UnaryHandler ρ) (address : Nat) : UnaryHandler ρ :=
  { s with live := s.live.erase address, deleted := s.deleted ++ [address] }

/-- There is no next state when the assertion fails. -/
def processRequest (service : UnaryService ρ) (s : UnaryHandler ρ) (address : Nat)
    (request : ρ) : Option (UnaryHandler ρ) :=
  match s.status address with
  | .CONNECT => some (s.connect address)
  | .READ => some (s.newRequest.read service address request)
  | .FINISH => some (s.delete address)
  | .WRITE | .DONE => none

/-- A completion leaves the queue. -/
def deliver (s : UnaryHandler ρ) (address : Nat) (op : UnaryOp) (ok : Bool) : UnaryHandler ρ :=
  { s with
    outstanding := s.outstanding.erase (address, op)
    accepted := if op = .accept ∧ ok then s.accepted ++ [address] else s.accepted
    ended := if op = .finish then s.ended ++ [address] else s.ended }

def step (service : UnaryService ρ) (s : UnaryHandler ρ) :
    UnaryEvent ρ → Option (UnaryHandler ρ)
  | .complete address op ok request =>
      if s.waiting.isNone ∧ (address, op) ∈ s.outstanding then
        if ok then (s.deliver address op ok).processRequest service address request
        else some (s.deliver address op ok)
      else none
  | .ready ret => s.waiting.map fun waiting => s.write service waiting.1 ret

/-- The thread has made its first `Request`. -/
def start : UnaryHandler ρ := empty.newRequest

/-- The accepts that are outstanding. -/
def armed (s : UnaryHandler ρ) : List Nat :=
  (s.outstanding.filter fun entry => entry.2 = .accept).map Prod.fst

def finishing (s : UnaryHandler ρ) : List Nat :=
  (s.outstanding.filter fun entry => entry.2 = .finish).map Prod.fst

/-- The request that the thread is in the middle of. -/
def processing (s : UnaryHandler ρ) : List Nat := s.waiting.toList.map Prod.fst

end UnaryHandler

open UnaryHandler

/-- What the objects of a handler thread are to do for themselves. -/
structure UnarySound (s : UnaryHandler ρ) : Prop where
  armed : s.armed.length = 1
  finished : ∀ address ∈ s.accepted,
    (s.finishes.map Prod.fst).count address = if address ∈ s.processing then 0 else 1
  deleted : ∀ address ∈ s.ended, s.deleted.count address = 1
  live : s.live.length = 1 + s.processing.length + s.finishing.length

/-- Each live request has one place, and the histories agree. -/
structure UnaryInv (s : UnaryHandler ρ) : Prop where
  armed : s.armed.length = 1
  live : s.live.Perm (s.armed ++ s.processing ++ s.finishing)
  nodup : s.live.Nodup
  fresh : ∀ address ∈ s.live ++ (s.accepted ++ s.ended), address < s.allocated
  reading : ∀ address ∈ s.armed, s.status address = .READ ∧ address ∉ s.accepted
  writing : ∀ address ∈ s.finishing, s.status address = .FINISH
  accepted : s.accepted = s.finishes.map Prod.fst ++ s.processing
  once : s.accepted.Nodup
  deleted : s.deleted = s.ended
  gone : s.ended.Nodup ∧ ∀ address ∈ s.ended, address ∉ s.live

theorem unaryInv_start : UnaryInv (start : UnaryHandler ρ) where
  armed := rfl
  live := List.Perm.refl _
  nodup := by simp [start, newRequest, connect, empty]
  fresh := by simp [start, newRequest, connect, empty]
  reading := by simp [start, newRequest, connect, empty, UnaryHandler.armed]
  writing := by simp [start, newRequest, connect, empty, UnaryHandler.finishing]
  accepted := rfl
  once := List.nodup_nil
  deleted := rfl
  gone := ⟨List.nodup_nil, by simp [start, newRequest, connect, empty]⟩

theorem UnaryInv.sound {s : UnaryHandler ρ} (h : UnaryInv s) : UnarySound s where
  armed := h.armed
  finished := by
    intro address haddress
    have hcount := List.count_eq_one_of_mem h.once haddress
    rw [h.accepted, List.count_append] at hcount
    split
    · rename_i hmem
      have hpos := List.count_pos_iff.mpr hmem
      omega
    · rename_i hnot
      rw [List.count_eq_zero.mpr hnot] at hcount
      exact hcount
  deleted := by
    intro address haddress
    rw [h.deleted]
    exact List.count_eq_one_of_mem h.gone.1 haddress
  live := by
    rw [h.live.length_eq, List.length_append, List.length_append, h.armed]

section Places

variable (service : UnaryService ρ) (s : UnaryHandler ρ) (address : Nat)

@[simp] theorem armed_newRequest : s.newRequest.armed = s.armed ++ [s.allocated] := by
  simp [newRequest, connect, UnaryHandler.armed]

@[simp] theorem finishing_newRequest : s.newRequest.finishing = s.finishing := by
  simp [newRequest, connect, UnaryHandler.finishing]

@[simp] theorem armed_write (text : String) : (s.write service address text).armed = s.armed := by
  simp [write, UnaryHandler.armed]

@[simp] theorem finishing_write (text : String) :
    (s.write service address text).finishing = s.finishing ++ [address] := by
  simp [write, UnaryHandler.finishing]

@[simp] theorem processing_write (text : String) :
    (s.write service address text).processing = [] := rfl

@[simp] theorem status_write (text : String) :
    (s.write service address text).status = Function.update s.status address .FINISH := rfl

@[simp] theorem accepted_write (text : String) :
    (s.write service address text).accepted = s.accepted := rfl

@[simp] theorem finishes_write (text : String) :
    (s.write service address text).finishes = s.finishes ++ [(address, service.reply text)] := rfl

@[simp] theorem status_newRequest :
    s.newRequest.status = Function.update s.status s.allocated .READ := by
  simp [newRequest, connect]

@[simp] theorem live_newRequest : s.newRequest.live = s.live ++ [s.allocated] := rfl

end Places

/-- A completion takes its request out of the place that it was in. -/
theorem deliver_accept {s : UnaryHandler ρ} {address : Nat} (ok : Bool)
    (hmem : (address, .accept) ∈ s.outstanding) :
    s.armed.Perm (address :: (s.deliver address .accept ok).armed) ∧
      s.finishing.Perm (s.deliver address .accept ok).finishing := by
  have hperm := List.perm_cons_erase hmem
  exact ⟨(hperm.filter _).map _, (hperm.filter _).map _⟩

theorem deliver_finish {s : UnaryHandler ρ} {address : Nat} (ok : Bool)
    (hmem : (address, .finish) ∈ s.outstanding) :
    s.armed.Perm (s.deliver address .finish ok).armed ∧
      s.finishing.Perm (address :: (s.deliver address .finish ok).finishing) := by
  have hperm := List.perm_cons_erase hmem
  exact ⟨(hperm.filter _).map _, (hperm.filter _).map _⟩

/-- No address is in two places. -/
theorem UnaryInv.places_nodup {s : UnaryHandler ρ} (h : UnaryInv s) :
    (s.armed ++ s.processing ++ s.finishing).Nodup := h.live.nodup_iff.mp h.nodup

/-- `Finish` is called for the request in hand. -/
theorem UnaryInv.write {s : UnaryHandler ρ} (h : UnaryInv s) (service : UnaryService ρ)
    {address : Nat} {request : ρ} (hwaiting : s.waiting = some (address, request))
    (text : String) : UnaryInv (s.write service address text) := by
  have hprocessing : s.processing = [address] := by simp [UnaryHandler.processing, hwaiting]
  have hplaces := h.places_nodup
  rw [hprocessing] at hplaces
  refine ⟨?_, ?_, h.nodup, h.fresh, ?_, ?_, ?_, h.once, h.deleted, h.gone⟩
  · rw [armed_write]
    exact h.armed
  · have hlive := h.live
    rw [hprocessing, List.append_assoc] at hlive
    rw [armed_write, processing_write, finishing_write, List.append_nil]
    exact hlive.trans (List.perm_append_comm.append_left _)
  · intro other hother
    rw [armed_write] at hother
    have hne : other ≠ address := by
      rintro rfl
      have hdisjoint := (List.nodup_append.mp (List.nodup_append.mp hplaces).1).2.2
      exact hdisjoint other hother other (List.mem_singleton_self _) rfl
    rw [status_write, accepted_write, Function.update_of_ne hne]
    exact h.reading other hother
  · intro other hother
    rw [finishing_write] at hother
    rw [status_write]
    rcases List.mem_append.mp hother with hold | hnew
    · have hne : other ≠ address := by
        rintro rfl
        have hdisjoint := (List.nodup_append.mp hplaces).2.2
        exact hdisjoint other (by simp) other hold rfl
      rw [Function.update_of_ne hne]
      exact h.writing other hold
    · rw [List.mem_singleton.mp hnew, Function.update_self]
  · rw [processing_write, accepted_write, finishes_write, h.accepted, hprocessing]
    simp

/-- A request is accepted: its successor is armed, and it is in hand. -/
theorem UnaryInv.accept {s : UnaryHandler ρ} (h : UnaryInv s) (hfree : s.waiting = none)
    {address : Nat} (hmem : (address, .accept) ∈ s.outstanding) (request : ρ)
    (calls : List RepoProxyCall) :
    UnaryInv { (s.deliver address .accept true).newRequest with
      calls := calls, waiting := some (address, request) } := by
  obtain ⟨harmed, hfinishing⟩ := deliver_accept true hmem
  have hnone : (s.deliver address .accept true).armed = [] := by
    have hlength := harmed.length_eq
    rw [h.armed, List.length_cons] at hlength
    exact List.length_eq_zero_iff.mp (by omega)
  have hprocessing : s.processing = [] := by simp [UnaryHandler.processing, hfree]
  have hlive : s.live.Perm (address :: s.finishing) := by
    have hplaces := h.live
    rw [hprocessing, List.append_nil] at hplaces
    rw [hnone] at harmed
    exact hplaces.trans (harmed.append_right _)
  have haddress : address ∈ s.live := hlive.mem_iff.mpr List.mem_cons_self
  have hnew : s.allocated ∉ s.live := fun hold =>
    lt_irrefl _ (h.fresh s.allocated (List.mem_append_left _ hold))
  obtain ⟨hread, hnot⟩ := h.reading address (harmed.mem_iff.mpr List.mem_cons_self)
  refine ⟨?_, ?_, ?_, ?_, ?_, ?_, ?_, ?_, h.deleted, h.gone.1, ?_⟩
  · show (s.deliver address .accept true).newRequest.armed.length = 1
    simp [hnone]
  · show (s.deliver address .accept true).newRequest.live.Perm
      ((s.deliver address .accept true).newRequest.armed ++ [address] ++
        (s.deliver address .accept true).newRequest.finishing)
    rw [live_newRequest, armed_newRequest, finishing_newRequest, hnone, List.nil_append]
    exact (hlive.append_right _).trans
      (List.perm_append_comm.trans ((hfinishing.cons address).cons s.allocated))
  · show (s.live ++ [s.allocated]).Nodup
    rw [← List.concat_eq_append]
    exact h.nodup.concat hnew
  · intro other hother
    show other < s.allocated + 1
    have hold : other ∈ s.live ++ (s.accepted ++ s.ended) ∨ other = s.allocated := by
      have hmemAll : other ∈ (s.live ++ [s.allocated]) ++ ((s.accepted ++ [address]) ++ s.ended) :=
        hother
      simp only [List.mem_append, List.mem_singleton] at hmemAll ⊢
      rcases hmemAll with (hlive | hnew) | (haccepted | rfl) | hended
      · exact .inl (.inl hlive)
      · exact .inr hnew
      · exact .inl (.inr (.inl haccepted))
      · exact .inl (.inl haddress)
      · exact .inl (.inr (.inr hended))
    rcases hold with hold | rfl
    · exact Nat.lt_succ_of_lt (h.fresh other hold)
    · exact Nat.lt_succ_self _
  · intro other hother
    have hother' : other ∈ (s.deliver address .accept true).newRequest.armed := hother
    rw [armed_newRequest, hnone, List.nil_append, List.mem_singleton] at hother'
    subst hother'
    constructor
    · show (s.deliver address .accept true).newRequest.status s.allocated = .READ
      rw [status_newRequest]
      exact Function.update_self _ _ _
    · show s.allocated ∉ s.accepted ++ [address]
      rw [List.mem_append, List.mem_singleton, not_or]
      refine ⟨fun hold => ?_, fun hsame => ?_⟩
      · exact lt_irrefl _ (h.fresh s.allocated (by simp [hold]))
      · rw [← hsame] at haddress
        exact hnew haddress
  · intro other hother
    have hother' : other ∈ (s.deliver address .accept true).newRequest.finishing := hother
    rw [finishing_newRequest] at hother'
    have hold : other ∈ s.finishing := hfinishing.mem_iff.mpr hother'
    have hne : other ≠ s.allocated := by
      rintro rfl
      exact hnew (hlive.mem_iff.mpr (List.mem_cons_of_mem _ hold))
    show (s.deliver address .accept true).newRequest.status other = .FINISH
    rw [status_newRequest]
    exact (Function.update_of_ne hne _ _).trans (h.writing other hold)
  · show s.accepted ++ [address] = s.finishes.map Prod.fst ++ [address]
    rw [h.accepted, hprocessing, List.append_nil]
  · show (s.accepted ++ [address]).Nodup
    rw [← List.concat_eq_append]
    exact h.once.concat hnot
  · intro other hended
    show other ∉ s.live ++ [s.allocated]
    rw [List.mem_append, List.mem_singleton, not_or]
    refine ⟨h.gone.2 other hended, ?_⟩
    rintro rfl
    exact lt_irrefl _ (h.fresh s.allocated (List.mem_append_right _ (List.mem_append_right _ hended)))

/-- A request is deleted. -/
theorem UnaryInv.finish {s : UnaryHandler ρ} (h : UnaryInv s)
    {address : Nat} (hmem : (address, .finish) ∈ s.outstanding) :
    UnaryInv ((s.deliver address .finish true).delete address) := by
  obtain ⟨harmed, hfinishing⟩ := deliver_finish true hmem
  have haddress : address ∈ s.live := by
    apply h.live.mem_iff.mpr
    exact List.mem_append_right _ (hfinishing.mem_iff.mpr List.mem_cons_self)
  have hgone : address ∉ s.ended := fun hended => h.gone.2 address hended haddress
  refine ⟨?_, ?_, h.nodup.erase address, ?_, ?_, ?_, h.accepted, h.once, ?_, ?_, ?_⟩
  · exact harmed.length_eq.symm.trans h.armed
  · have hplaces : s.live.Perm (address :: ((s.deliver address .finish true).armed ++
        s.processing ++ (s.deliver address .finish true).finishing)) :=
      h.live.trans (((harmed.append_right _).append hfinishing).trans List.perm_middle)
    have herased := hplaces.erase address
    rwa [List.erase_cons_head] at herased
  · intro other hother
    have hmemAll : other ∈ s.live.erase address ++ (s.accepted ++ (s.ended ++ [address])) := hother
    apply h.fresh other
    simp only [List.mem_append, List.mem_singleton] at hmemAll ⊢
    rcases hmemAll with hlive | haccepted | hended | rfl
    · exact .inl (List.mem_of_mem_erase hlive)
    · exact .inr (.inl haccepted)
    · exact .inr (.inr hended)
    · exact .inl haddress
  · intro other hother
    exact h.reading other (harmed.mem_iff.mpr hother)
  · intro other hother
    exact h.writing other (hfinishing.mem_iff.mpr (List.mem_cons_of_mem _ hother))
  · show s.deleted ++ [address] = s.ended ++ [address]
    rw [h.deleted]
  · show (s.ended ++ [address]).Nodup
    rw [← List.concat_eq_append]
    exact h.gone.1.concat hgone
  · intro other hother
    show other ∉ s.live.erase address
    rcases List.mem_append.mp hother with hold | hlast
    · exact fun hlive => h.gone.2 other hold (List.mem_of_mem_erase hlive)
    · rw [List.mem_singleton.mp hlast]
      exact h.nodup.not_mem_erase

/-- The completion says that its operation has succeeded. -/
def UnaryEvent.Completes : UnaryEvent ρ → Prop
  | .complete _ _ ok _ => ok = true
  | .ready _ => True

theorem UnaryInv.step {service : UnaryService ρ} {s next : UnaryHandler ρ} {e : UnaryEvent ρ}
    (h : UnaryInv s) (hcond : e.Completes) (hstep : s.step service e = some next) :
    UnaryInv next := by
  cases e with
  | ready ret =>
      obtain ⟨⟨address, request⟩, hwaiting, rfl⟩ := Option.map_eq_some_iff.mp hstep
      exact h.write service hwaiting ret
  | complete address op ok request =>
      simp only [UnaryHandler.step] at hstep
      split at hstep
      · rename_i hready
        obtain ⟨hfree, hmem⟩ := hready
        rw [Option.isNone_iff_eq_none] at hfree
        obtain rfl : ok = true := hcond
        rw [if_pos rfl] at hstep
        cases op with
        | accept =>
            have harmed : address ∈ s.armed :=
              (deliver_accept true hmem).1.mem_iff.mpr List.mem_cons_self
            have hread : (s.deliver address .accept true).status address = .READ :=
              (h.reading address harmed).1
            simp only [processRequest, hread, Option.some.injEq] at hstep
            subst hstep
            have haccept := h.accept hfree hmem request
              (s.calls ++ [service.call request])
            unfold UnaryHandler.read
            split
            · exact haccept
            · exact haccept.write service rfl "success"
        | finish =>
            have hfinishing : address ∈ s.finishing :=
              (deliver_finish true hmem).2.mem_iff.mpr List.mem_cons_self
            have hfinish : (s.deliver address .finish true).status address = .FINISH :=
              h.writing address hfinishing
            simp only [processRequest, hfinish, Option.some.injEq] at hstep
            subst hstep
            exact h.finish hmem
      · cases hstep

/-- One step leaves the objects in order exactly when its completion says
that the operation has succeeded. -/
theorem unarySound_iff (service : UnaryService ρ) (s : UnaryHandler ρ) (e : UnaryEvent ρ)
    (next : UnaryHandler ρ) (h : UnaryInv s) (hstep : s.step service e = some next) :
    UnarySound next ↔ e.Completes := by
  constructor
  · intro hsound
    cases e with
    | ready ret => trivial
    | complete address op ok request =>
        simp only [UnaryHandler.step] at hstep
        split at hstep
        · rename_i hready
          obtain ⟨-, hmem⟩ := hready
          cases ok with
          | true => rfl
          | false =>
              exfalso
              rw [if_neg (by simp), Option.some.injEq] at hstep
              subst hstep
              cases op with
              | accept =>
                  have hlength := (deliver_accept false hmem).1.length_eq
                  rw [h.armed, List.length_cons, hsound.armed] at hlength
                  omega
              | finish =>
                  have hdeleted := hsound.deleted address (by simp [deliver])
                  have hlive : address ∈ s.live := h.live.mem_iff.mpr
                    (List.mem_append_right _ ((deliver_finish false hmem).2.mem_iff.mpr
                      List.mem_cons_self))
                  have hnone : address ∉ s.deleted := by
                    rw [h.deleted]
                    exact fun hended => h.gone.2 address hended hlive
                  have hzero : (s.deliver address .finish false).deleted.count address = 0 :=
                    List.count_eq_zero.mpr hnone
                  omega
        · cases hstep
  · intro hcond
    exact (h.step hcond hstep).sound

/-- Over every run of a handler thread: the objects are in order after every
step exactly when every completion comes with `ok` true. -/
theorem unary_sound_iff (service : UnaryService ρ) (es : List (UnaryEvent ρ)) :
    Always (UnaryHandler.step service) (fun _ _ next => UnarySound next) start es ↔
      StepsMeet (UnaryHandler.step service) (fun _ e => e.Completes) start es :=
  always_iff_stepsMeet (unarySound_iff service) (fun _ _ _ h hcond hstep => h.step hcond hstep)
    unaryInv_start es

/-- For the two handlers, over every run of each: the objects are in order
after every step exactly when every completion comes with `ok` true. -/
theorem handlers_sound_iff (references : List (UnaryEvent WriteReferenceRequest))
    (states : List (UnaryEvent RepoStateChangeRequest)) :
    (Always (UnaryHandler.step WriteReference.service) (fun _ _ next => UnarySound next) start
        references ↔
      StepsMeet (UnaryHandler.step WriteReference.service) (fun _ e => e.Completes) start
        references) ∧
    (Always (UnaryHandler.step RepoStateChange.service) (fun _ _ next => UnarySound next) start
        states ↔
      StepsMeet (UnaryHandler.step RepoStateChange.service) (fun _ e => e.Completes) start
        states) :=
  ⟨unary_sound_iff WriteReference.service references,
    unary_sound_iff RepoStateChange.service states⟩

/-- A client goes away before the reply to its close request is on the wire. -/
theorem lost_reply_leaves_request :
    ¬ Always (UnaryHandler.step RepoStateChange.service) (fun _ _ next => UnarySound next) start
      [.complete 0 .accept true ⟨"new-server", false⟩,
        .complete 0 .finish false ⟨"new-server", false⟩] := by
  intro hall
  obtain ⟨-, hrest⟩ := hall _ rfl
  obtain ⟨hsound, -⟩ := hrest _ rfl
  exact absurd (hsound.deleted 0 (by decide)) (by decide)

end GitRpc.Requests
