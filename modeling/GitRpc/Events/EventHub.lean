import Mathlib.Data.List.Nodup
import GitRpc.Library.Histories
import GitRpc.Dispatcher.DispatcherTypes

/-!
`EventHub`, as far as one thread at a time uses it: which handlers an event
reaches after a sequence of registrations. Names are compared as strings. The
function of a handler is an element of `H`.
-/

namespace GitRpc.Events

open Dispatcher Library.Histories

variable {H : Type*}

structure EventHandler (H : Type*) where
  runHandlerAsTask : Bool
  handler : H
  owningThread : String
  id : String

structure ThreadedEventHandlerArgs (H : Type*) where
  eventHandler : EventHandler H
  args : Pointer

structure EventHub (H : Type*) where
  eventHandlers : String → Option (List (EventHandler H))

inductive HubCall (H : Type*) where
  | registerEvent (name : String)
  | registerEventHandler (name : String) (handler : EventHandler H)
  | unregisterEventHandler (name id : String)

/-- What `TriggerEvent` does for a handler: the call, or a task for
`RunEventHandler`. -/
inductive Dispatch (H : Type*) where
  | call (handler : H) (args : Pointer)
  | post (receiver : String) (task : ThreadedEventHandlerArgs H)

/-- `std::find_if` and `erase`. -/
def eraseId (handlers : List (EventHandler H)) (id : String) : List (EventHandler H) :=
  handlers.eraseP fun eh => eh.id == id

def EventHandler.dispatch (args : Pointer) (eh : EventHandler H) : Dispatch H :=
  if eh.runHandlerAsTask then .post eh.owningThread ⟨eh, args⟩ else .call eh.handler args

namespace EventHub

def start : EventHub H := ⟨fun _ => none⟩

/-- `insert` changes nothing under a name that is there. -/
def registerEvent (hub : EventHub H) (name : String) : EventHub H :=
  match hub.eventHandlers name with
  | some _ => hub
  | none => ⟨Function.update hub.eventHandlers name (some [])⟩

def registerEventHandler (hub : EventHub H) (name : String) (handler : EventHandler H) :
    EventHub H :=
  match hub.eventHandlers name with
  | some handlers => ⟨Function.update hub.eventHandlers name (some (handlers ++ [handler]))⟩
  | none => hub

/-- `operator[]` finds no handlers under a name that is not there; the list is
stored again in either case. -/
def unregisterEventHandler (hub : EventHub H) (name id : String) : EventHub H :=
  let handlers := (hub.eventHandlers name).getD []
  ⟨Function.update hub.eventHandlers name (some (eraseId handlers id))⟩

/-- `none` is the log of an unrecognized event. -/
def triggerEvent (hub : EventHub H) (name : String) (args : Pointer) :
    Option (List (Dispatch H)) :=
  (hub.eventHandlers name).map fun handlers => handlers.map (EventHandler.dispatch args)

def call (hub : EventHub H) : HubCall H → EventHub H
  | .registerEvent name => hub.registerEvent name
  | .registerEventHandler name handler => hub.registerEventHandler name handler
  | .unregisterEventHandler name id => hub.unregisterEventHandler name id

def calls (hub : EventHub H) (cs : List (HubCall H)) : EventHub H := cs.foldl call hub

end EventHub

def HubCall.registers (name : String) : HubCall H → Bool
  | .registerEvent other => other == name
  | _ => false

def HubCall.unregisters (name id : String) : HubCall H → Bool
  | .unregisterEventHandler other otherId => other == name && id == otherId
  | _ => false

def HubCall.unregistersAny (name : String) : HubCall H → Bool
  | .unregisterEventHandler other _ => other == name
  | _ => false

/-- The handler that a call registers for `name`. -/
def HubCall.handlerFor (name : String) : HubCall H → Option (EventHandler H)
  | .registerEventHandler other handler => if other = name then some handler else none
  | _ => none

/-- The handlers that should be run: those that are registered for `name` once
the name is known, and not unregistered later. -/
def liveHandlers (name : String) (known : Bool) : List (HubCall H) → List (EventHandler H)
  | [] => []
  | c :: rest =>
      let later := liveHandlers name (known || c.registers name) rest
      match c.handlerFor name with
      | none => later
      | some eh => if known && !rest.any (HubCall.unregisters name eh.id) then eh :: later else later

/-- What `TriggerEvent` should do. -/
def expected (cs : List (HubCall H)) (name : String) (args : Pointer) :
    Option (List (Dispatch H)) :=
  if cs.any (HubCall.registers name) then
    some ((liveHandlers name false cs).map (EventHandler.dispatch args))
  else none

/-- No two handlers for `name` have the same id. -/
def DistinctIds (name : String) (cs : List (HubCall H)) : Prop :=
  ((cs.filterMap (HubCall.handlerFor name)).map EventHandler.id).Nodup

/-- A name that handlers are unregistered from has been registered; and no
handler is left that came after such a call, when the name was not known. -/
structure KnownInTime (name : String) (cs : List (HubCall H)) : Prop where
  registered : cs.any (HubCall.unregistersAny name) → cs.any (HubCall.registers name)
  nothingEarly : ∀ before c after, cs = before ++ c :: after → ∀ eh, c.handlerFor name = some eh →
    before.any (HubCall.unregistersAny name) → ¬ before.any (HubCall.registers name) →
      after.any (HubCall.unregisters name eh.id)

variable {name : String} {cs : List (HubCall H)} {hub : EventHub H}

theorem eraseId_eq_filter {handlers : List (EventHandler H)} {id : String}
    (h : (handlers.map EventHandler.id).Nodup) :
    eraseId handlers id = handlers.filter fun eh => !(eh.id == id) := by
  induction handlers with
  | nil => rfl
  | cons eh rest ih =>
      rw [List.map_cons, List.nodup_cons] at h
      by_cases heq : eh.id = id
      · have hrest : rest.filter (fun eh => !(eh.id == id)) = rest := by
          rw [List.filter_eq_self]
          intro other hother
          have hne : other.id ≠ id := by
            rintro rfl
            exact h.1 (heq ▸ List.mem_map_of_mem hother)
          simpa using hne
        rw [List.filter_cons_of_neg (by simp [heq]), hrest]
        exact List.eraseP_cons_of_pos (by simp [heq])
      · rw [List.filter_cons_of_pos (by simp [heq]), ← ih h.2]
        exact List.eraseP_cons_of_neg (by simp [heq])

theorem calls_cons (c : HubCall H) (cs : List (HubCall H)) :
    hub.calls (c :: cs) = (hub.call c).calls cs := rfl

theorem distinctIds_cons {c : HubCall H} (h : DistinctIds name (c :: cs)) :
    DistinctIds name cs := by
  unfold DistinctIds at h ⊢
  cases hc : c.handlerFor name with
  | none => rwa [List.filterMap_cons_none hc] at h
  | some eh =>
      rw [List.filterMap_cons_some hc, List.map_cons, List.nodup_cons] at h
      exact h.2

/-- What a call makes of the handlers under a name that is there. -/
def HubCall.onHandlers (name : String) (handlers : List (EventHandler H)) :
    HubCall H → List (EventHandler H)
  | .registerEvent _ => handlers
  | .registerEventHandler other eh => if other = name then handlers ++ [eh] else handlers
  | .unregisterEventHandler other id => if other = name then eraseId handlers id else handlers

theorem call_known {handlers : List (EventHandler H)} (h : hub.eventHandlers name = some handlers)
    (c : HubCall H) : (hub.call c).eventHandlers name = some (c.onHandlers name handlers) := by
  cases c with
  | registerEvent other =>
      simp only [EventHub.call, EventHub.registerEvent, HubCall.onHandlers]
      split
      · exact h
      · rename_i hnone
        rcases eq_or_ne other name with rfl | hne
        · rw [h] at hnone
          cases hnone
        · dsimp only
          rw [Function.update_of_ne hne.symm]
          exact h
  | registerEventHandler other eh =>
      simp only [EventHub.call, EventHub.registerEventHandler, HubCall.onHandlers]
      rcases eq_or_ne other name with rfl | hne
      · simp [h]
      · rw [if_neg hne]
        split
        · dsimp only
          rw [Function.update_of_ne hne.symm]
          exact h
        · exact h
  | unregisterEventHandler other id =>
      simp only [EventHub.call, EventHub.unregisterEventHandler, HubCall.onHandlers]
      rcases eq_or_ne other name with rfl | hne
      · simp [h]
      · rw [if_neg hne, Function.update_of_ne hne.symm]
        exact h

/-- What a call makes of a name that is not there. -/
theorem call_unknown (h : hub.eventHandlers name = none) (c : HubCall H) :
    (hub.call c).eventHandlers name =
      if c.registers name || c.unregistersAny name then some [] else none := by
  cases c with
  | registerEvent other =>
      simp only [EventHub.call, EventHub.registerEvent, HubCall.registers, HubCall.unregistersAny]
      rcases eq_or_ne other name with rfl | hne
      · simp [h]
      · split
        · simp [h, hne]
        · simp [h, hne, Function.update_of_ne hne.symm]
  | registerEventHandler other eh =>
      simp only [EventHub.call, EventHub.registerEventHandler, HubCall.registers,
        HubCall.unregistersAny]
      rcases eq_or_ne other name with rfl | hne
      · simp [h]
      · split
        · simp [h, Function.update_of_ne hne.symm]
        · simp [h]
  | unregisterEventHandler other id =>
      simp only [EventHub.call, EventHub.unregisterEventHandler, HubCall.registers,
        HubCall.unregistersAny]
      rcases eq_or_ne other name with rfl | hne
      · simp [h, eraseId]
      · simp [h, hne, Function.update_of_ne hne.symm]

/-- Once the name is there, its handlers are those that were there and are not
unregistered, and those that come. -/
theorem calls_known {handlers : List (EventHandler H)}
    (h : hub.eventHandlers name = some handlers)
    (hdistinct : (handlers.map EventHandler.id ++
      (cs.filterMap (HubCall.handlerFor name)).map EventHandler.id).Nodup) :
    (hub.calls cs).eventHandlers name =
      some ((handlers.filter fun eh => !cs.any (HubCall.unregisters name eh.id)) ++
        liveHandlers name true cs) := by
  induction cs generalizing hub handlers with
  | nil => simpa [EventHub.calls, liveHandlers] using h
  | cons c rest ih =>
      have hcall := call_known h c
      rw [calls_cons]
      cases c with
      | registerEvent other =>
          rw [HubCall.onHandlers] at hcall
          rw [ih hcall hdistinct]
          simp [liveHandlers, HubCall.unregisters, HubCall.handlerFor]
      | registerEventHandler other eh =>
          rcases eq_or_ne other name with rfl | hne
          · have hnext : ((handlers ++ [eh]).map EventHandler.id ++
                (rest.filterMap (HubCall.handlerFor other)).map EventHandler.id).Nodup := by
              simpa [HubCall.handlerFor] using hdistinct
            rw [HubCall.onHandlers, if_pos rfl] at hcall
            rw [ih hcall hnext]
            cases hlater : rest.any (HubCall.unregisters other eh.id) with
            | true => simp [liveHandlers, HubCall.handlerFor, HubCall.unregisters, hlater]
            | false => simp [liveHandlers, HubCall.handlerFor, HubCall.unregisters, hlater]
          · have hnext : (handlers.map EventHandler.id ++
                (rest.filterMap (HubCall.handlerFor name)).map EventHandler.id).Nodup := by
              simpa [HubCall.handlerFor, hne] using hdistinct
            rw [HubCall.onHandlers, if_neg hne] at hcall
            rw [ih hcall hnext]
            simp [liveHandlers, HubCall.unregisters, HubCall.handlerFor, hne]
      | unregisterEventHandler other id =>
          have hrest : (handlers.map EventHandler.id ++
              (rest.filterMap (HubCall.handlerFor name)).map EventHandler.id).Nodup := hdistinct
          rcases eq_or_ne other name with rfl | hne
          · have hids := (List.nodup_append.mp hrest).1
            rw [HubCall.onHandlers, if_pos rfl, eraseId_eq_filter hids] at hcall
            have hsub := (List.filter_sublist (l := handlers)
              (p := fun eh => !(eh.id == id))).map EventHandler.id
            rw [ih hcall (hrest.sublist (hsub.append_right _))]
            simp [liveHandlers, HubCall.unregisters, HubCall.handlerFor, List.filter_filter,
              HubCall.registers, Bool.and_comm]
          · have hother : (other == name) = false := beq_eq_false_iff_ne.mpr hne
            rw [HubCall.onHandlers, if_neg hne] at hcall
            rw [ih hcall hrest]
            simp [liveHandlers, HubCall.unregisters, HubCall.handlerFor, hother]

/-- The handlers that come before the name is known, and are not unregistered
later. -/
def earlyHandlers (name : String) : List (HubCall H) → List (EventHandler H)
  | [] => []
  | c :: rest =>
      if c.registers name then []
      else match c.handlerFor name with
        | none => earlyHandlers name rest
        | some eh =>
            if rest.any (HubCall.unregisters name eh.id) then earlyHandlers name rest
            else eh :: earlyHandlers name rest

theorem handlerFor_of_registers {c : HubCall H} (h : c.registers name = true) :
    c.handlerFor name = none := by
  cases c with
  | registerEvent => rfl
  | registerEventHandler | unregisterEventHandler => cases h

theorem liveHandlers_true (name : String) (cs : List (HubCall H)) :
    liveHandlers name true cs = earlyHandlers name cs ++ liveHandlers name false cs := by
  induction cs with
  | nil => rfl
  | cons c rest ih =>
      simp only [liveHandlers, earlyHandlers, Bool.true_or, Bool.false_or]
      cases hknown : c.registers name with
      | true => simp [handlerFor_of_registers hknown]
      | false =>
          cases c.handlerFor name with
          | none => simpa using ih
          | some eh =>
              dsimp only
              cases rest.any (HubCall.unregisters name eh.id) with
              | true => simpa using ih
              | false => simpa using ih

theorem earlyHandlers_eq_nil_iff (name : String) (cs : List (HubCall H)) :
    earlyHandlers name cs = [] ↔
      ∀ before c after, cs = before ++ c :: after → ∀ eh, c.handlerFor name = some eh →
        ¬ before.any (HubCall.registers name) → after.any (HubCall.unregisters name eh.id) := by
  induction cs with
  | nil => simp [earlyHandlers]
  | cons c rest ih =>
      rw [forall_split_cons]
      cases hknown : c.registers name with
      | true => simp [earlyHandlers, hknown, handlerFor_of_registers hknown]
      | false =>
          simp only [earlyHandlers, hknown, List.any_cons, Bool.false_or]
          cases c.handlerFor name with
          | none =>
              rw [if_neg Bool.false_ne_true, ih]
              exact ⟨fun h => ⟨fun eh hnone => (by cases hnone), h⟩, And.right⟩
          | some eh =>
              rw [if_neg Bool.false_ne_true]
              dsimp only
              cases hlater : rest.any (HubCall.unregisters name eh.id) with
              | true =>
                  rw [if_pos rfl, ih]
                  refine ⟨fun h => ⟨?_, h⟩, And.right⟩
                  rintro other ⟨⟩ -
                  exact hlater
              | false =>
                  rw [if_neg Bool.false_ne_true]
                  refine iff_of_false (List.cons_ne_nil _ _) fun h => ?_
                  have hdead := h.1 eh rfl (by simp)
                  rw [hlater] at hdead
                  cases hdead

theorem knownInTime_of_registers {c : HubCall H} (hknown : c.registers name = true)
    (rest : List (HubCall H)) : KnownInTime name (c :: rest) := by
  refine ⟨fun _ => by simp [hknown], ?_⟩
  rw [forall_split_cons]
  constructor
  · intro eh hfor
    rw [handlerFor_of_registers hknown] at hfor
    cases hfor
  · intro before c' after _ eh _ _ hnot
    exact absurd (by simp [hknown]) hnot

theorem of_unregistersAny {c : HubCall H} (h : c.unregistersAny name = true) :
    c.registers name = false ∧ c.handlerFor name = none := by
  cases c with
  | unregisterEventHandler => exact ⟨rfl, rfl⟩
  | registerEvent | registerEventHandler => cases h

/-- The name comes to be there by a call of `UnregisterEventHandler`. -/
theorem knownInTime_unregister_iff {c : HubCall H} (hany : c.unregistersAny name = true)
    (rest : List (HubCall H)) : KnownInTime name (c :: rest) ↔
      rest.any (HubCall.registers name) = true ∧ earlyHandlers name rest = [] := by
  obtain ⟨hknown, hfor⟩ := of_unregistersAny hany
  rw [earlyHandlers_eq_nil_iff]
  constructor
  · intro h
    have hlater := h.nothingEarly
    rw [forall_split_cons] at hlater
    refine ⟨?_, ?_⟩
    · have hregistered := h.registered (by simp [hany])
      rwa [List.any_cons, hknown, Bool.false_or] at hregistered
    · intro before c' after hsplit eh heh hnot
      apply hlater.2 before c' after hsplit eh heh
      · simp [hany]
      · rwa [List.any_cons, hknown, Bool.false_or]
  · rintro ⟨hregistered, hearly⟩
    refine ⟨fun _ => ?_, ?_⟩
    · rw [List.any_cons, hregistered, Bool.or_true]
    · rw [forall_split_cons]
      refine ⟨fun eh heh => ?_, ?_⟩
      · rw [hfor] at heh
        cases heh
      · intro before c' after hsplit eh heh _ hnot
        rw [List.any_cons, hknown, Bool.false_or] at hnot
        exact hearly before c' after hsplit eh heh hnot

theorem knownInTime_skip_iff {c : HubCall H} (hknown : c.registers name = false)
    (hany : c.unregistersAny name = false) (rest : List (HubCall H)) :
    KnownInTime name (c :: rest) ↔ KnownInTime name rest := by
  constructor
  · intro h
    have hlater := h.nothingEarly
    rw [forall_split_cons] at hlater
    refine ⟨?_, ?_⟩
    · simpa only [List.any_cons, hknown, hany, Bool.false_or] using h.registered
    · simpa only [List.any_cons, hknown, hany, Bool.false_or] using hlater.2
  · intro h
    refine ⟨?_, ?_⟩
    · simpa only [List.any_cons, hknown, hany, Bool.false_or] using h.registered
    · rw [forall_split_cons]
      refine ⟨fun eh _ hsome => (by cases hsome), ?_⟩
      simpa only [List.any_cons, hknown, hany, Bool.false_or] using h.nothingEarly

/-- What `TriggerEvent` finds once the name is there. -/
theorem triggerEvent_known (h : hub.eventHandlers name = some []) (hdistinct : DistinctIds name cs)
    (args : Pointer) : (hub.calls cs).triggerEvent name args =
      some ((liveHandlers name true cs).map (EventHandler.dispatch args)) := by
  have hentry := calls_known h hdistinct
  rw [List.filter_nil, List.nil_append] at hentry
  rw [EventHub.triggerEvent, hentry, Option.map_some]

/-- Under a name that is not there yet. -/
theorem triggerEvent_unknown_iff (h : hub.eventHandlers name = none)
    (hdistinct : DistinctIds name cs) :
    (∀ args, (hub.calls cs).triggerEvent name args = expected cs name args) ↔
      KnownInTime name cs := by
  induction cs generalizing hub with
  | nil =>
      refine iff_of_true (fun args => ?_) ⟨by rintro ⟨⟩, ?_⟩
      · rw [EventHub.calls, List.foldl_nil, EventHub.triggerEvent, h]
        rfl
      · intro before c after hsplit
        simp at hsplit
  | cons c rest ih =>
      have hcall := call_unknown h c
      have hrest := distinctIds_cons hdistinct
      simp only [calls_cons]
      cases hknown : c.registers name with
      | true =>
          rw [hknown, Bool.true_or, if_pos rfl] at hcall
          refine iff_of_true (fun args => ?_) (knownInTime_of_registers hknown rest)
          rw [triggerEvent_known hcall hrest, expected, List.any_cons, hknown, Bool.true_or,
            if_pos rfl]
          simp only [liveHandlers, handlerFor_of_registers hknown, hknown, Bool.or_true]
      | false =>
          have hexpected : expected (c :: rest) name = expected rest name := by
            funext args
            simp only [expected, List.any_cons, hknown, Bool.false_or, liveHandlers]
            cases c.handlerFor name <;> rfl
          rw [hexpected]
          cases hany : c.unregistersAny name with
          | true =>
              rw [hany, Bool.or_true, if_pos rfl] at hcall
              rw [knownInTime_unregister_iff hany]
              simp only [triggerEvent_known hcall hrest, expected]
              split
              · rename_i hregistered
                rw [liveHandlers_true]
                constructor
                · intro hall
                  have hlength := congrArg List.length (Option.some.inj (hall nullptr))
                  simp only [List.length_map, List.length_append] at hlength
                  exact ⟨hregistered, List.eq_nil_of_length_eq_zero (by omega)⟩
                · rintro ⟨-, hearly⟩ args
                  rw [hearly, List.nil_append]
              · rename_i hregistered
                simp [hregistered]
          | false =>
              rw [hknown, hany, Bool.or_false, if_neg Bool.false_ne_true] at hcall
              rw [knownInTime_skip_iff hknown hany]
              exact ih hcall hrest

/-- For every sequence of calls, every name and all arguments: the handlers
that should be run are run, in their order and on their threads, and a name
that was never registered is not recognized, exactly when the condition holds
of the name. -/
theorem triggerEvent_eq_expected_iff (cs : List (HubCall H)) (name : String)
    (hdistinct : DistinctIds name cs) :
    (∀ args, (EventHub.start.calls cs).triggerEvent name args = expected cs name args) ↔
      KnownInTime name cs :=
  triggerEvent_unknown_iff rfl hdistinct

/-- A handler on the thread that triggers. -/
def onPush : EventHandler String := ⟨false, "onPush", "Main", "a1"⟩

/-- The event is registered first. -/
theorem registered_event_reaches_handler :
    (∀ args, (EventHub.start.calls [.registerEvent "push",
        .registerEventHandler "push" onPush]).triggerEvent "push" args =
      some [.call "onPush" args]) ∧
    KnownInTime "push" [.registerEvent "push", .registerEventHandler "push" onPush] := by
  refine ⟨fun _ => rfl, (triggerEvent_eq_expected_iff _ "push" ?_).mp fun _ => rfl⟩
  exact List.nodup_singleton "a1"

/-- A handler is unregistered from an event that nobody has registered, and
the next one that is registered for it is run. -/
theorem unregistered_event_reaches_handler :
    DistinctIds "push" [.unregisterEventHandler "push" "a0", .registerEventHandler "push" onPush] ∧
    (EventHub.start.calls [.unregisterEventHandler "push" "a0",
        .registerEventHandler "push" onPush]).triggerEvent "push" 7 = some [.call "onPush" 7] ∧
    expected [.unregisterEventHandler "push" "a0", .registerEventHandler "push" onPush] "push" 7 =
      none :=
  ⟨List.nodup_singleton _, rfl, rfl⟩

end GitRpc.Events
