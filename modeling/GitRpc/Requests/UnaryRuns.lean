import GitRpc.Library.Potentials
import GitRpc.Requests.UnaryHandlers

/-!
The handler threads of `WriteReference` and of `RepoStateChange` when operations may
also come back with `ok` false. An object that is skipped then is never deleted, and
the thread may be left without an accept; but no object is taken for another one, and
each has at most three events to come.
-/

namespace GitRpc.Requests

open Common Repository Library.Runs Library.Potentials UnaryHandler

variable {ρ : Type*} {service : UnaryService ρ} {s next : UnaryHandler ρ} {address : Nat}
  {op : UnaryOp} {ok : Bool} {request : ρ}

/-- The state that an operation finds its object in. -/
def UnaryOp.awaited : UnaryOp → RequestStatus
  | .accept => .READ
  | .finish => .FINISH

/-- The objects that will hear of an operation or of a future. -/
def UnaryHandler.engaged (s : UnaryHandler ρ) : List Nat :=
  s.outstanding.map Prod.fst ++ s.processing

def UnaryHandler.work (s : UnaryHandler ρ) : Nat :=
  s.outstanding.length + 2 * s.processing.length

/-- A request is accepted: its successor is there, and its answer is waited for. -/
def UnaryHandler.inHand (service : UnaryService ρ) (s : UnaryHandler ρ) (address : Nat)
    (request : ρ) : UnaryHandler ρ :=
  { (s.deliver address .accept true).newRequest with
    calls := s.calls ++ [service.call request]
    waiting := some (address, request) }

/-- What holds whatever becomes of the operations. -/
structure UnaryPlaced (s : UnaryHandler ρ) : Prop where
  awaited : ∀ entry ∈ s.outstanding, s.status entry.1 = entry.2.awaited
  places : s.engaged.Nodup
  older : ∀ address ∈ s.engaged ++ s.accepted, address < s.allocated
  accepted : s.accepted = s.finishes.map Prod.fst ++ s.processing
  once : s.accepted.Nodup
  unanswered : ∀ address, (address, .accept) ∈ s.outstanding → address ∉ s.accepted

theorem unaryPlaced_start : UnaryPlaced (start : UnaryHandler ρ) where
  awaited := by simp [start, newRequest, connect, empty, UnaryOp.awaited]
  places := by simp [start, newRequest, connect, empty, engaged, processing]
  older := by simp [start, newRequest, connect, empty, engaged, processing]
  accepted := rfl
  once := List.nodup_nil
  unanswered := by simp [start, newRequest, connect, empty]

theorem engaged_free (hfree : s.waiting = none) :
    s.engaged = s.outstanding.map Prod.fst ∧ s.processing = [] := by
  have hprocessing : s.processing = [] := by
    rw [processing, hfree, Option.toList_none, List.map_nil]
  exact ⟨by rw [engaged, hprocessing, List.append_nil], hprocessing⟩

/-- The object in hand goes from one list to the other. -/
theorem engaged_write (hwaiting : s.waiting = some (address, request)) (text : String) :
    (s.write service address text).engaged = s.engaged := by
  have hprocessing : s.processing = [address] := by
    rw [processing, hwaiting, Option.toList_some, List.map_singleton]
  rw [engaged, engaged, processing_write, hprocessing, List.append_nil]
  exact List.map_append

namespace UnaryPlaced

theorem write (h : UnaryPlaced s) (hwaiting : s.waiting = some (address, request))
    (text : String) : UnaryPlaced (s.write service address text) where
  awaited := by
    intro entry hentry
    have hmem : entry ∈ s.outstanding ++ [(address, .finish)] := hentry
    rw [status_write]
    rcases List.mem_append.mp hmem with hold | hnew
    · have hne : entry.1 ≠ address := by
        intro hsame
        have hdisjoint := (List.nodup_append.mp h.places).2.2
        exact hdisjoint entry.1 (List.mem_map_of_mem hold) address
          (by simp [processing, hwaiting]) hsame
      rw [Function.update_of_ne hne]
      exact h.awaited entry hold
    · rw [List.mem_singleton.mp hnew]
      exact Function.update_self _ _ _
  places := by
    rw [engaged_write hwaiting]
    exact h.places
  older := by
    rw [engaged_write hwaiting]
    exact h.older
  accepted := by
    have hprocessing : s.processing = [address] := by simp [processing, hwaiting]
    rw [accepted_write, h.accepted, hprocessing, processing_write, finishes_write]
    simp
  once := h.once
  unanswered := by
    intro other hother
    have hmem : (other, UnaryOp.accept) ∈ s.outstanding ++ [(address, .finish)] := hother
    rcases List.mem_append.mp hmem with hold | hnew
    · exact h.unanswered other hold
    · simp at hnew

/-- A completion that accepts nothing. -/
theorem deliver (h : UnaryPlaced s) (hsame : ¬ (op = .accept ∧ ok = true)) :
    UnaryPlaced (s.deliver address op ok) := by
  have hsub : (s.deliver address op ok).outstanding ⊆ s.outstanding := List.erase_subset
  have hengaged : (s.deliver address op ok).engaged.Sublist s.engaged :=
    (List.erase_sublist.map Prod.fst).append_right s.processing
  have haccepted : (s.deliver address op ok).accepted = s.accepted := if_neg hsame
  refine ⟨fun entry hentry => h.awaited entry (hsub hentry), h.places.sublist hengaged, ?_, ?_, ?_,
    ?_⟩
  · intro other hother
    rw [haccepted] at hother
    rcases List.mem_append.mp hother with hold | hold
    · exact h.older other (List.mem_append_left _ (hengaged.subset hold))
    · exact h.older other (List.mem_append_right _ hold)
  · rw [haccepted]
    exact h.accepted
  · rw [haccepted]
    exact h.once
  · intro other hother
    rw [haccepted]
    exact h.unanswered other (hsub hother)

theorem delete (h : UnaryPlaced s) : UnaryPlaced (s.delete address) :=
  ⟨h.awaited, h.places, h.older, h.accepted, h.once, h.unanswered⟩

theorem inHand (h : UnaryPlaced s) (hfree : s.waiting = none)
    (hmem : (address, .accept) ∈ s.outstanding) (service : UnaryService ρ) (request : ρ) :
    UnaryPlaced (s.inHand service address request) := by
  obtain ⟨hengaged, hprocessing⟩ := engaged_free hfree
  have hperm := (List.perm_cons_erase hmem).map Prod.fst
  have hplaces : (address :: (s.outstanding.erase (address, .accept)).map Prod.fst).Nodup := by
    have hnodup := h.places
    rw [hengaged] at hnodup
    exact hperm.nodup_iff.mp hnodup
  have holder : ∀ other ∈ s.outstanding.map Prod.fst, other < s.allocated := by
    intro other hother
    rw [← hengaged] at hother
    exact h.older other (List.mem_append_left _ hother)
  have haddress : address < s.allocated :=
    holder address (List.mem_map_of_mem (f := Prod.fst) hmem)
  have hleft : ∀ other ∈ (s.outstanding.erase (address, .accept)).map Prod.fst,
      other < s.allocated ∧ other ≠ address := by
    intro other hother
    refine ⟨holder other (hperm.mem_iff.mpr (List.mem_cons_of_mem _ hother)), ?_⟩
    rintro rfl
    exact (List.nodup_cons.mp hplaces).1 hother
  have hknown : ∀ other ∈ s.accepted, other < s.allocated := fun other hother =>
    h.older other (List.mem_append_right _ hother)
  refine ⟨?_, ?_, ?_, ?_, ?_, ?_⟩
  · intro entry hentry
    have hparts : entry ∈
        s.outstanding.erase (address, .accept) ++ [(s.allocated, UnaryOp.accept)] := hentry
    show (s.deliver address .accept true).newRequest.status entry.1 = entry.2.awaited
    rw [status_newRequest]
    rcases List.mem_append.mp hparts with hold | hnew
    · have hne : entry.1 ≠ s.allocated := (hleft entry.1 (List.mem_map_of_mem hold)).1.ne
      exact (Function.update_of_ne hne _ _).trans (h.awaited entry (List.mem_of_mem_erase hold))
    · rw [List.mem_singleton.mp hnew]
      exact Function.update_self _ _ _
  · show ((s.outstanding.erase (address, .accept) ++
      [(s.allocated, UnaryOp.accept)]).map Prod.fst ++ [address]).Nodup
    have hrest := (List.nodup_cons.mp hplaces).2
    rw [List.map_append, List.append_assoc]
    refine List.nodup_append.mpr ⟨hrest, by simp [haddress.ne'], ?_⟩
    intro other hother last hlast
    have hbounds := hleft other hother
    simp only [List.map_cons, List.map_nil, List.cons_append, List.nil_append, List.mem_cons,
      List.not_mem_nil, or_false] at hlast
    rcases hlast with rfl | rfl
    · exact hbounds.1.ne
    · exact hbounds.2
  · intro other hother
    have hparts : other ∈ ((s.outstanding.erase (address, .accept) ++
        [(s.allocated, UnaryOp.accept)]).map Prod.fst ++ [address]) ++
          (s.accepted ++ [address]) := hother
    show other < s.allocated + 1
    simp only [List.map_append, List.map_cons, List.map_nil, List.mem_append, List.mem_cons,
      List.not_mem_nil, or_false] at hparts
    rcases hparts with ((hold | rfl) | rfl) | hold | rfl
    · exact Nat.lt_succ_of_lt (hleft other hold).1
    · exact Nat.lt_succ_self _
    · exact Nat.lt_succ_of_lt haddress
    · exact Nat.lt_succ_of_lt (hknown other hold)
    · exact Nat.lt_succ_of_lt haddress
  · show s.accepted ++ [address] = s.finishes.map Prod.fst ++ [address]
    rw [h.accepted, hprocessing, List.append_nil]
  · show (s.accepted ++ [address]).Nodup
    rw [← List.concat_eq_append]
    exact h.once.concat (h.unanswered address hmem)
  · intro other hother
    have hparts : (other, UnaryOp.accept) ∈
        s.outstanding.erase (address, .accept) ++ [(s.allocated, UnaryOp.accept)] := hother
    show other ∉ s.accepted ++ [address]
    rw [List.mem_append, List.mem_singleton, not_or]
    rcases List.mem_append.mp hparts with hold | hnew
    · exact ⟨h.unanswered other (List.mem_of_mem_erase hold),
        (hleft other (List.mem_map_of_mem (f := Prod.fst) hold)).2⟩
    · obtain rfl : other = s.allocated := by simpa using hnew
      exact ⟨fun hold => lt_irrefl _ (hknown _ hold), haddress.ne'⟩

end UnaryPlaced

/-- Everything an event can be to objects that are in their places. -/
inductive UnaryStepped (service : UnaryService ρ) (s : UnaryHandler ρ) :
    UnaryEvent ρ → UnaryHandler ρ → Prop where
  | ready (address : Nat) (request : ρ) (ret : String)
      (hwaiting : s.waiting = some (address, request)) :
      UnaryStepped service s (.ready ret) (s.write service address ret)
  | skipped (address : Nat) (op : UnaryOp) (request : ρ) (hmem : (address, op) ∈ s.outstanding) :
      UnaryStepped service s (.complete address op false request) (s.deliver address op false)
  | accepted (address : Nat) (request : ρ) (hfree : s.waiting = none)
      (hmem : (address, .accept) ∈ s.outstanding) :
      UnaryStepped service s (.complete address .accept true request)
        ((s.deliver address .accept true).newRequest.read service address request)
  | finished (address : Nat) (request : ρ) (hmem : (address, .finish) ∈ s.outstanding) :
      UnaryStepped service s (.complete address .finish true request)
        ((s.deliver address .finish true).delete address)

/-- The assertion of `ProcessRequest` holds, for either operation. -/
theorem UnaryPlaced.processRequest_accept (h : UnaryPlaced s)
    (hmem : (address, .accept) ∈ s.outstanding) (request : ρ) :
    (s.deliver address .accept true).processRequest service address request =
      some ((s.deliver address .accept true).newRequest.read service address request) := by
  have hstatus : (s.deliver address .accept true).status address = .READ :=
    h.awaited (address, .accept) hmem
  rw [UnaryHandler.processRequest, hstatus]

theorem UnaryPlaced.processRequest_finish (h : UnaryPlaced s)
    (hmem : (address, .finish) ∈ s.outstanding) (request : ρ) :
    (s.deliver address .finish true).processRequest service address request =
      some ((s.deliver address .finish true).delete address) := by
  have hstatus : (s.deliver address .finish true).status address = .FINISH :=
    h.awaited (address, .finish) hmem
  rw [UnaryHandler.processRequest, hstatus]

theorem unary_stepped {e : UnaryEvent ρ} (h : UnaryPlaced s)
    (hstep : s.step service e = some next) : UnaryStepped service s e next := by
  cases e with
  | ready ret =>
      obtain ⟨⟨address, request⟩, hwaiting, rfl⟩ := Option.map_eq_some_iff.mp hstep
      exact .ready address request ret hwaiting
  | complete address op ok request =>
      simp only [UnaryHandler.step] at hstep
      split at hstep
      case isFalse => cases hstep
      case isTrue hready =>
        obtain ⟨hfree, hmem⟩ := hready
        rw [Option.isNone_iff_eq_none] at hfree
        cases ok with
        | false =>
            cases hstep
            exact .skipped address op request hmem
        | true =>
            rw [if_pos rfl] at hstep
            cases op with
            | accept =>
                rw [h.processRequest_accept hmem request] at hstep
                cases hstep
                exact .accepted address request hfree hmem
            | finish =>
                rw [h.processRequest_finish hmem request] at hstep
                cases hstep
                exact .finished address request hmem

/-- Where `Read` waits for no future the answer is there at once. -/
theorem read_cases (service : UnaryService ρ) (s : UnaryHandler ρ) (address : Nat) (request : ρ) :
    (s.deliver address .accept true).newRequest.read service address request =
        s.inHand service address request ∨
      (s.deliver address .accept true).newRequest.read service address request =
        (s.inHand service address request).write service address "success" := by
  unfold UnaryHandler.read
  cases service.waits request with
  | true => exact .inl rfl
  | false => exact .inr rfl

theorem unaryPlaced_step {e : UnaryEvent ρ} (h : UnaryPlaced s)
    (hstep : s.step service e = some next) : UnaryPlaced next := by
  cases unary_stepped h hstep with
  | ready address request ret hwaiting => exact h.write hwaiting ret
  | skipped address op request hmem => exact h.deliver (by simp)
  | finished address request hmem => exact (h.deliver (by simp)).delete
  | accepted address request hfree hmem =>
      have hplaced := h.inHand hfree hmem service request
      rcases read_cases service s address request with hread | hread
      · rw [hread]
        exact hplaced
      · rw [hread]
        exact hplaced.write rfl "success"

/-- An event that the queue or a future has for the thread finds its next state. -/
theorem UnaryPlaced.goes_on (h : UnaryPlaced s) (hfree : s.waiting = none)
    (hmem : (address, op) ∈ s.outstanding) (ok : Bool) (request : ρ) :
    (s.step service (.complete address op ok request)).isSome = true := by
  have hready : s.waiting.isNone = true ∧ (address, op) ∈ s.outstanding := by
    rw [hfree]
    exact ⟨rfl, hmem⟩
  simp only [UnaryHandler.step, if_pos hready]
  cases ok with
  | false => rfl
  | true =>
      rw [if_pos rfl]
      cases op with
      | accept => rw [h.processRequest_accept hmem request, Option.isSome_some]
      | finish => rw [h.processRequest_finish hmem request, Option.isSome_some]

theorem work_unary_write (service : UnaryService ρ)
    (hwaiting : s.waiting = some (address, request)) (text : String) :
    (s.write service address text).work + 1 = s.work := by
  have hprocessing : s.processing.length = 1 := by simp [processing, hwaiting]
  have houtstanding : (s.write service address text).outstanding.length =
      s.outstanding.length + 1 := List.length_append
  rw [UnaryHandler.work, UnaryHandler.work, processing_write, houtstanding, hprocessing,
    List.length_nil]

theorem work_deliver (hmem : (address, op) ∈ s.outstanding) (ok : Bool) :
    (s.deliver address op ok).work + 1 = s.work := by
  have hleft := List.length_erase_of_mem hmem
  have hpos := List.length_pos_of_mem hmem
  have houtstanding : (s.deliver address op ok).outstanding.length = s.outstanding.length - 1 :=
    hleft
  have hprocessing : (s.deliver address op ok).processing = s.processing := rfl
  rw [UnaryHandler.work, UnaryHandler.work, houtstanding, hprocessing]
  omega

/-- The successor is waited for, and so is the answer. -/
theorem work_inHand (hfree : s.waiting = none) (hmem : (address, .accept) ∈ s.outstanding)
    (service : UnaryService ρ) (request : ρ) :
    (s.inHand service address request).work = s.work + 2 := by
  have hleft := List.length_erase_of_mem hmem
  have hpos := List.length_pos_of_mem hmem
  have hprocessing := (engaged_free hfree).2
  show (s.outstanding.erase (address, .accept) ++ [(s.allocated, UnaryOp.accept)]).length + 2 * 1 =
    s.work + 2
  rw [UnaryHandler.work, hprocessing, List.length_append, hleft, List.length_singleton,
    List.length_nil]
  omega

theorem unary_pays (service : UnaryService ρ) :
    PaysForSteps (UnaryHandler.step service) UnaryPlaced UnaryHandler.work
      fun s => 3 * s.accepted.length := by
  intro s e next h hstep
  change next.work + 1 + 3 * s.accepted.length ≤ s.work + 3 * next.accepted.length
  cases unary_stepped h hstep with
  | ready address request ret hwaiting =>
      have hwork := work_unary_write service hwaiting ret
      rw [accepted_write]
      omega
  | skipped address op request hmem =>
      have hwork := work_deliver hmem false
      have haccepted : (s.deliver address op false).accepted = s.accepted := if_neg (by simp)
      rw [haccepted]
      omega
  | finished address request hmem =>
      have hwork := work_deliver hmem true
      have hdelete : ((s.deliver address .finish true).delete address).work =
          (s.deliver address .finish true).work := rfl
      have haccepted : ((s.deliver address .finish true).delete address).accepted = s.accepted :=
        rfl
      rw [haccepted, hdelete]
      omega
  | accepted address request hfree hmem =>
      have hwork := work_inHand hfree hmem service request
      have haccepted : (s.inHand service address request).accepted = s.accepted ++ [address] := rfl
      have hlength : (s.accepted ++ [address]).length = s.accepted.length + 1 := List.length_append
      rcases read_cases service s address request with hread | hread
      · rw [hread, haccepted]
        omega
      · have hanswered := work_unary_write service
          (show (s.inHand service address request).waiting = some (address, request) from rfl)
          "success"
        rw [hread, accepted_write, haccepted]
        omega

/-- For either handler thread and every run, whatever the completions say: whatever may
happen next is provided for, each accepted request is answered once, if it is not in
hand, and three events at most come of each. -/
theorem unary_runs_are_bounded (service : UnaryService ρ) {es : List (UnaryEvent ρ)}
    {final : UnaryHandler ρ} (hrun : exec (UnaryHandler.step service) start es = some final) :
    (∀ address op, (address, op) ∈ final.outstanding → final.waiting = none →
      ∀ ok request, (final.step service (.complete address op ok request)).isSome = true) ∧
    (final.accepted = final.finishes.map Prod.fst ++ final.processing ∧ final.accepted.Nodup) ∧
    es.length + final.work ≤ 3 * final.accepted.length + 1 := by
  have hsteps : ∀ s e next, UnaryPlaced s → UnaryHandler.step service s e = some next →
      UnaryPlaced next := fun s e next h hstep => unaryPlaced_step h hstep
  have hplaced := exec_invariant hsteps unaryPlaced_start hrun
  have hbound := (unary_pays service).length_add_le hsteps unaryPlaced_start hrun
  have hwork : (start : UnaryHandler ρ).work = 1 := rfl
  have hnone : (start : UnaryHandler ρ).accepted.length = 0 := rfl
  refine ⟨fun address op hmem hfree ok request => hplaced.goes_on hfree hmem ok request,
    ⟨hplaced.accepted, hplaced.once⟩, ?_⟩
  simp only [hwork, hnone] at hbound
  omega

/-- A close request is answered, but the client is gone. -/
theorem lost_reply_is_bounded :
    ∃ final, exec (UnaryHandler.step RepoStateChange.service) start
        [.complete 0 .accept true ⟨"new-server", false⟩,
          .complete 0 .finish false ⟨"new-server", false⟩] = some final ∧
      final.accepted = [0] ∧ final.accepted.Nodup ∧
      2 + final.work ≤ 3 * final.accepted.length + 1 := by
  obtain ⟨final, hrun, haccepted⟩ : ∃ final, exec (UnaryHandler.step RepoStateChange.service) start
      [.complete 0 .accept true ⟨"new-server", false⟩,
        .complete 0 .finish false ⟨"new-server", false⟩] = some final ∧ final.accepted = [0] :=
    ⟨_, rfl, rfl⟩
  obtain ⟨-, ⟨-, honce⟩, hbound⟩ := unary_runs_are_bounded RepoStateChange.service hrun
  exact ⟨final, hrun, haccepted, honce, hbound⟩

end GitRpc.Requests
