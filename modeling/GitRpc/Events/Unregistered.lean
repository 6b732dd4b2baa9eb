import GitRpc.Library.Runs
import GitRpc.Events.EventHub

/-!
`EventHub` among threads. `TriggerEvent` copies the handlers of the event and
goes through the copy, and a task has a copy of its handler;
`UnregisterEventHandler` changes a copy, too, and stores it. Any number of
calls may be under way, and the tasks of all pumps are run in any order.
-/

namespace GitRpc.Events

open Dispatcher Library.Runs

variable {H : Type*}

/-- A call of `TriggerEvent` that has made its copy at the time `copied`, and
the handlers that are left. -/
structure Trigger (H : Type*) where
  name : String
  args : Pointer
  copied : Nat
  left : List (EventHandler H)

/-- A call of `UnregisterEventHandler` that has made its copy. -/
structure Unregistration (H : Type*) where
  name : String
  id : String
  handlers : List (EventHandler H)

/-- A task in the queue of a pump, with the event and the time of the copy that
its handler comes from. -/
structure HandlerTask (H : Type*) where
  name : String
  copied : Nat
  task : ThreadedEventHandlerArgs H

/-- `now` counts the steps. `returned` lists the calls of
`UnregisterEventHandler` that are over, and when they stored their lists. -/
structure SharedHub (H : Type*) where
  hub : EventHub H
  triggers : List (Trigger H)
  unregistrations : List (Unregistration H)
  tasks : List (HandlerTask H)
  now : Nat
  returned : List (String × String × Nat)

def SharedHub.start (hub : EventHub H) : SharedHub H := ⟨hub, [], [], [], 0, []⟩

/-- `triggerEvent` and `unregisterEventHandler` are the calls up to their
copies, `handle` is a turn of the loop in `TriggerEvent`, `store` the last line
of `UnregisterEventHandler`, and `runTask` a pump that runs a task. -/
inductive HubEvent (H : Type*) where
  | registerEvent (name : String)
  | registerEventHandler (name : String) (handler : EventHandler H)
  | triggerEvent (name : String) (args : Pointer)
  | handle (i : Nat)
  | unregisterEventHandler (name id : String)
  | store (i : Nat)
  | runTask (i : Nat)

namespace SharedHub

def storeHandlers (hub : EventHub H) (name : String) (handlers : List (EventHandler H)) :
    EventHub H :=
  ⟨Function.update hub.eventHandlers name (some handlers)⟩

/-- `operator[]` and the copy. -/
def beginUnregister (s : SharedHub H) (name id : String) : SharedHub H :=
  let handlers := (s.hub.eventHandlers name).getD []
  { s with
    hub := storeHandlers s.hub name handlers
    unregistrations := s.unregistrations ++ [⟨name, id, handlers⟩]
    now := s.now + 1 }

def endUnregister (s : SharedHub H) (i : Nat) (u : Unregistration H) : SharedHub H :=
  { s with
    hub := storeHandlers s.hub u.name (eraseId u.handlers u.id)
    unregistrations := s.unregistrations.eraseIdx i
    now := s.now + 1
    returned := s.returned ++ [(u.name, u.id, s.now)] }

def handleNext (s : SharedHub H) (i : Nat) (t : Trigger H) (eh : EventHandler H)
    (left : List (EventHandler H)) : SharedHub H :=
  { s with
    triggers := s.triggers.set i { t with left := left }
    tasks := if eh.runHandlerAsTask then s.tasks ++ [⟨t.name, t.copied, ⟨eh, t.args⟩⟩] else s.tasks
    now := s.now + 1 }

def step (s : SharedHub H) : HubEvent H → Option (SharedHub H)
  | .registerEvent name => some { s with hub := s.hub.registerEvent name, now := s.now + 1 }
  | .registerEventHandler name handler =>
      some { s with hub := s.hub.registerEventHandler name handler, now := s.now + 1 }
  | .triggerEvent name args =>
      match s.hub.eventHandlers name with
      | none => some { s with now := s.now + 1 }
      | some handlers => some { s with
          triggers := s.triggers ++ [⟨name, args, s.now, handlers⟩], now := s.now + 1 }
  | .handle i =>
      match s.triggers[i]? with
      | none => none
      | some t =>
          match t.left with
          | [] => none
          | eh :: left => some (s.handleNext i t eh left)
  | .unregisterEventHandler name id => some (s.beginUnregister name id)
  | .store i => s.unregistrations[i]?.map (s.endUnregister i)
  | .runTask i =>
      s.tasks[i]?.map fun _ => { s with tasks := s.tasks.eraseIdx i, now := s.now + 1 }

/-- No two calls of `UnregisterEventHandler` for one event overlap when the
first of them stores its list, and a handler that is registered has an id of
its own. -/
def Apart (s : SharedHub H) : HubEvent H → Prop
  | .registerEventHandler name handler =>
      (∀ time, (name, handler.id, time) ∉ s.returned) ∧
        ∀ handlers, s.hub.eventHandlers name = some handlers →
          handler.id ∉ handlers.map EventHandler.id
  | .store i => ∀ u, s.unregistrations[i]? = some u →
      ∀ other ∈ s.unregistrations.eraseIdx i, other.name ≠ u.name
  | _ => True

end SharedHub

/-- Handlers of one event have different ids. -/
def EventHub.Distinct (hub : EventHub H) : Prop :=
  ∀ name handlers, hub.eventHandlers name = some handlers → (handlers.map EventHandler.id).Nodup

/-- Alone, the two halves of `UnregisterEventHandler` do what the whole does. -/
theorem unregister_alone (hub : EventHub H) (name id : String) :
    (exec SharedHub.step (.start hub) [.unregisterEventHandler name id, .store 0]).map
      SharedHub.hub = some (hub.unregisterEventHandler name id) := by
  simp [SharedHub.step, SharedHub.start, SharedHub.beginUnregister, SharedHub.endUnregister,
    SharedHub.storeHandlers, EventHub.unregisterEventHandler]

/-- Everything a step can be. -/
inductive HubStepped (s : SharedHub H) : HubEvent H → SharedHub H → Prop where
  | registerEvent (name : String) :
      HubStepped s (.registerEvent name)
        { s with hub := s.hub.registerEvent name, now := s.now + 1 }
  | registerEventHandler (name : String) (handler : EventHandler H) :
      HubStepped s (.registerEventHandler name handler)
        { s with hub := s.hub.registerEventHandler name handler, now := s.now + 1 }
  | unrecognized (name : String) (args : Pointer) (hnone : s.hub.eventHandlers name = none) :
      HubStepped s (.triggerEvent name args) { s with now := s.now + 1 }
  | triggerEvent (name : String) (args : Pointer) (handlers : List (EventHandler H))
      (hsome : s.hub.eventHandlers name = some handlers) :
      HubStepped s (.triggerEvent name args) { s with
        triggers := s.triggers ++ [⟨name, args, s.now, handlers⟩], now := s.now + 1 }
  | handle (i : Nat) (t : Trigger H) (eh : EventHandler H) (left : List (EventHandler H))
      (hat : s.triggers[i]? = some t) (hleft : t.left = eh :: left) :
      HubStepped s (.handle i) (s.handleNext i t eh left)
  | unregisterEventHandler (name id : String) :
      HubStepped s (.unregisterEventHandler name id) (s.beginUnregister name id)
  | store (i : Nat) (u : Unregistration H) (hat : s.unregistrations[i]? = some u) :
      HubStepped s (.store i) (s.endUnregister i u)
  | runTask (i : Nat) (t : HandlerTask H) (hat : s.tasks[i]? = some t) :
      HubStepped s (.runTask i) { s with tasks := s.tasks.eraseIdx i, now := s.now + 1 }

variable {s next : SharedHub H} {e : HubEvent H}

theorem step_hubStepped (hstep : s.step e = some next) : HubStepped s e next := by
  cases e with
  | registerEvent name =>
      cases hstep
      exact .registerEvent name
  | registerEventHandler name handler =>
      cases hstep
      exact .registerEventHandler name handler
  | triggerEvent name args =>
      simp only [SharedHub.step] at hstep
      split at hstep
      · rename_i hnone
        cases hstep
        exact .unrecognized name args hnone
      · rename_i handlers hsome
        cases hstep
        exact .triggerEvent name args handlers hsome
  | handle i =>
      simp only [SharedHub.step] at hstep
      split at hstep
      · cases hstep
      · rename_i t hat
        split at hstep
        · cases hstep
        · rename_i eh left hleft
          cases hstep
          exact .handle i t eh left hat hleft
  | unregisterEventHandler name id =>
      cases hstep
      exact .unregisterEventHandler name id
  | store i =>
      obtain ⟨u, hat, rfl⟩ := Option.map_eq_some_iff.mp hstep
      exact .store i u hat
  | runTask i =>
      obtain ⟨t, hat, rfl⟩ := Option.map_eq_some_iff.mp hstep
      exact .runTask i t hat

/-- What holds of an event's handlers and all copies of them. Nobody stores a
handler again that has been unregistered, and copies that have it are older. -/
structure CopiesInv (s : SharedHub H) : Prop where
  distinct : s.hub.Distinct
  copies : ∀ u ∈ s.unregistrations, (u.handlers.map EventHandler.id).Nodup
  gone : ∀ name id time, (name, id, time) ∈ s.returned → ∀ handlers,
    s.hub.eventHandlers name = some handlers → id ∉ handlers.map EventHandler.id
  notStored : ∀ name id time, (name, id, time) ∈ s.returned → ∀ u ∈ s.unregistrations,
    u.name = name → id ∉ u.handlers.map EventHandler.id
  triggersOld : ∀ t ∈ s.triggers, t.copied < s.now
  tasksOld : ∀ t ∈ s.tasks, t.copied < s.now
  triggers : ∀ name id time, (name, id, time) ∈ s.returned → ∀ t ∈ s.triggers,
    t.name = name → id ∈ t.left.map EventHandler.id → t.copied < time
  tasks : ∀ name id time, (name, id, time) ∈ s.returned → ∀ t ∈ s.tasks,
    t.name = name → t.task.eventHandler.id = id → t.copied < time

/-- Only the handlers of one event change. -/
theorem CopiesInv.storing (h : CopiesInv s) {name : String} {handlers : List (EventHandler H)}
    (hdistinct : (handlers.map EventHandler.id).Nodup)
    (hgone : ∀ id time, (name, id, time) ∈ s.returned → id ∉ handlers.map EventHandler.id) :
    CopiesInv { s with hub := SharedHub.storeHandlers s.hub name handlers, now := s.now + 1 } where
  distinct := by
    intro other found hfound
    rcases eq_or_ne other name with rfl | hne
    · simp only [SharedHub.storeHandlers, Function.update_self, Option.some.injEq] at hfound
      exact hfound ▸ hdistinct
    · simp only [SharedHub.storeHandlers, Function.update_of_ne hne] at hfound
      exact h.distinct other found hfound
  copies := h.copies
  gone := by
    intro other id time hreturned found hfound
    rcases eq_or_ne other name with rfl | hne
    · simp only [SharedHub.storeHandlers, Function.update_self, Option.some.injEq] at hfound
      exact hfound ▸ hgone id time hreturned
    · simp only [SharedHub.storeHandlers, Function.update_of_ne hne] at hfound
      exact h.gone other id time hreturned found hfound
  notStored := h.notStored
  triggersOld := fun t ht => Nat.lt_succ_of_lt (h.triggersOld t ht)
  tasksOld := fun t ht => Nat.lt_succ_of_lt (h.tasksOld t ht)
  triggers := h.triggers
  tasks := h.tasks

theorem CopiesInv.tick (h : CopiesInv s) : CopiesInv { s with now := s.now + 1 } where
  distinct := h.distinct
  copies := h.copies
  gone := h.gone
  notStored := h.notStored
  triggersOld := fun t ht => Nat.lt_succ_of_lt (h.triggersOld t ht)
  tasksOld := fun t ht => Nat.lt_succ_of_lt (h.tasksOld t ht)
  triggers := h.triggers
  tasks := h.tasks

theorem CopiesInv.registerEvent (h : CopiesInv s) (name : String) :
    CopiesInv { s with hub := s.hub.registerEvent name, now := s.now + 1 } := by
  unfold EventHub.registerEvent
  split
  · exact h.tick
  · exact h.storing List.nodup_nil fun _ _ _ => List.not_mem_nil

theorem CopiesInv.registerEventHandler (h : CopiesInv s) {name : String}
    {handler : EventHandler H} (hcond : s.Apart (.registerEventHandler name handler)) :
    CopiesInv { s with hub := s.hub.registerEventHandler name handler, now := s.now + 1 } := by
  unfold EventHub.registerEventHandler
  split
  · rename_i handlers hsome
    apply h.storing
    · rw [List.map_append, List.map_singleton]
      apply (h.distinct name handlers hsome).append (List.nodup_singleton _)
      exact List.disjoint_singleton.mpr (hcond.2 handlers hsome)
    · intro id time hreturned hmem
      rw [List.map_append, List.mem_append, List.map_singleton, List.mem_singleton] at hmem
      rcases hmem with hold | rfl
      · exact h.gone name id time hreturned handlers hsome hold
      · exact hcond.1 time hreturned
  · exact h.tick

/-- A new copy has no handler that has been unregistered. -/
theorem CopiesInv.triggerEvent (h : CopiesInv s) {name : String} {handlers : List (EventHandler H)}
    (hsome : s.hub.eventHandlers name = some handlers) (args : Pointer) :
    CopiesInv { s with
      triggers := s.triggers ++ [⟨name, args, s.now, handlers⟩], now := s.now + 1 } := by
  refine { h.tick with triggersOld := ?_, triggers := ?_ }
  · intro t ht
    rcases List.mem_append.mp ht with hold | hnew
    · exact Nat.lt_succ_of_lt (h.triggersOld t hold)
    · obtain rfl := List.mem_singleton.mp hnew
      exact Nat.lt_succ_self _
  · intro other id time hreturned t ht hname hmem
    rcases List.mem_append.mp ht with hold | hnew
    · exact h.triggers other id time hreturned t hold hname hmem
    · obtain rfl := List.mem_singleton.mp hnew
      obtain rfl : name = other := hname
      exact absurd hmem (h.gone name id time hreturned handlers hsome)

/-- A task takes over the age of the copy. -/
theorem CopiesInv.handleNext (h : CopiesInv s) {i : Nat} {t : Trigger H} {eh : EventHandler H}
    {left : List (EventHandler H)} (hat : s.triggers[i]? = some t) (hleft : t.left = eh :: left) :
    CopiesInv (s.handleNext i t eh left) := by
  have hmem := List.mem_of_getElem? hat
  refine { h.tick with triggersOld := ?_, tasksOld := ?_, triggers := ?_, tasks := ?_ }
  · intro t' ht'
    rcases List.mem_or_eq_of_mem_set ht' with hold | rfl
    · exact Nat.lt_succ_of_lt (h.triggersOld t' hold)
    · exact Nat.lt_succ_of_lt (h.triggersOld t hmem)
  · intro task htask
    simp only [SharedHub.handleNext] at htask
    split at htask
    · rcases List.mem_append.mp htask with hold | hnew
      · exact Nat.lt_succ_of_lt (h.tasksOld task hold)
      · obtain rfl := List.mem_singleton.mp hnew
        exact Nat.lt_succ_of_lt (h.triggersOld t hmem)
    · exact Nat.lt_succ_of_lt (h.tasksOld task htask)
  · intro name id time hreturned t' ht' hname hid
    rcases List.mem_or_eq_of_mem_set ht' with hold | rfl
    · exact h.triggers name id time hreturned t' hold hname hid
    · apply h.triggers name id time hreturned t hmem hname
      rw [hleft]
      exact List.mem_cons_of_mem _ hid
  · intro name id time hreturned task htask hname hid
    simp only [SharedHub.handleNext] at htask
    split at htask
    · rcases List.mem_append.mp htask with hold | hnew
      · exact h.tasks name id time hreturned task hold hname hid
      · obtain rfl := List.mem_singleton.mp hnew
        apply h.triggers name id time hreturned t hmem hname
        rw [hleft, List.map_cons, ← hid]
        exact List.mem_cons_self
    · exact h.tasks name id time hreturned task htask hname hid

theorem CopiesInv.beginUnregister (h : CopiesInv s) (name id : String) :
    CopiesInv (s.beginUnregister name id) := by
  have hdistinct : (((s.hub.eventHandlers name).getD []).map EventHandler.id).Nodup := by
    cases hfound : s.hub.eventHandlers name with
    | none => exact List.nodup_nil
    | some handlers => exact h.distinct name handlers hfound
  have hgone : ∀ other time, (name, other, time) ∈ s.returned →
      other ∉ ((s.hub.eventHandlers name).getD []).map EventHandler.id := by
    intro other time hreturned
    cases hfound : s.hub.eventHandlers name with
    | none => exact List.not_mem_nil
    | some handlers => exact h.gone name other time hreturned handlers hfound
  refine { h.storing hdistinct hgone with copies := ?_, notStored := ?_ }
  · intro u hu
    rcases List.mem_append.mp hu with hold | hnew
    · exact h.copies u hold
    · obtain rfl := List.mem_singleton.mp hnew
      exact hdistinct
  · intro other id' time hreturned u hu hname
    rcases List.mem_append.mp hu with hold | hnew
    · exact h.notStored other id' time hreturned u hold hname
    · obtain rfl := List.mem_singleton.mp hnew
      obtain rfl : name = other := hname
      exact hgone id' time hreturned

theorem eraseId_subset {handlers : List (EventHandler H)} {id other : String}
    (hmem : other ∈ (eraseId handlers id).map EventHandler.id) :
    other ∈ handlers.map EventHandler.id :=
  (List.eraseP_sublist.map EventHandler.id).subset hmem

theorem not_mem_eraseId {handlers : List (EventHandler H)} {id : String}
    (h : (handlers.map EventHandler.id).Nodup) :
    id ∉ (eraseId handlers id).map EventHandler.id := by
  rw [eraseId_eq_filter h]
  simp

/-- The list that is stored has no handler that has been unregistered, and
nobody else will store one for this event. -/
theorem CopiesInv.endUnregister (h : CopiesInv s) {i : Nat} {u : Unregistration H}
    (hat : s.unregistrations[i]? = some u) (hcond : s.Apart (.store i)) :
    CopiesInv (s.endUnregister i u) := by
  have hmem := List.mem_of_getElem? hat
  have hdistinct : ((eraseId u.handlers u.id).map EventHandler.id).Nodup :=
    (h.copies u hmem).sublist (List.eraseP_sublist.map EventHandler.id)
  have hstored := h.storing hdistinct fun id time hreturned hid =>
    h.notStored u.name id time hreturned u hmem rfl (eraseId_subset hid)
  have hold : ∀ name id time, (name, id, time) ∈ (s.endUnregister i u).returned →
      (name, id, time) ∈ s.returned ∨ (name = u.name ∧ id = u.id ∧ time = s.now) := by
    intro name id time hreturned
    rcases List.mem_append.mp hreturned with hbefore | hnew
    · exact .inl hbefore
    · cases List.mem_singleton.mp hnew
      exact .inr ⟨rfl, rfl, rfl⟩
  have hleft : ∀ other ∈ (s.endUnregister i u).unregistrations, other ∈ s.unregistrations :=
    fun other hother => List.mem_of_mem_eraseIdx hother
  refine { hstored with copies := ?_, gone := ?_, notStored := ?_, triggers := ?_, tasks := ?_ }
  · exact fun other hother => h.copies other (hleft other hother)
  · intro name id time hreturned handlers hfound
    rcases hold name id time hreturned with hbefore | ⟨rfl, rfl, -⟩
    · exact hstored.gone name id time hbefore handlers hfound
    · simp only [SharedHub.endUnregister, SharedHub.storeHandlers, Function.update_self,
        Option.some.injEq] at hfound
      rw [← hfound]
      exact not_mem_eraseId (h.copies u hmem)
  · intro name id time hreturned other hother hname
    rcases hold name id time hreturned with hbefore | ⟨rfl, -, -⟩
    · exact h.notStored name id time hbefore other (hleft other hother) hname
    · exact absurd hname (hcond u hat other hother)
  · intro name id time hreturned t ht hname hid
    rcases hold name id time hreturned with hbefore | ⟨-, -, rfl⟩
    · exact h.triggers name id time hbefore t ht hname hid
    · exact h.triggersOld t ht
  · intro name id time hreturned t ht hname hid
    rcases hold name id time hreturned with hbefore | ⟨-, -, rfl⟩
    · exact h.tasks name id time hbefore t ht hname hid
    · exact h.tasksOld t ht

theorem CopiesInv.runTask (h : CopiesInv s) (i : Nat) :
    CopiesInv { s with tasks := s.tasks.eraseIdx i, now := s.now + 1 } := by
  have hleft : ∀ t ∈ s.tasks.eraseIdx i, t ∈ s.tasks := fun t ht => List.mem_of_mem_eraseIdx ht
  refine { h.tick with tasksOld := ?_, tasks := ?_ }
  · exact fun t ht => Nat.lt_succ_of_lt (h.tasksOld t (hleft t ht))
  · exact fun name id time hreturned t ht => h.tasks name id time hreturned t (hleft t ht)

theorem CopiesInv.step (h : CopiesInv s) (hcond : s.Apart e) (hstep : s.step e = some next) :
    CopiesInv next := by
  cases step_hubStepped hstep with
  | registerEvent name => exact h.registerEvent name
  | registerEventHandler name handler => exact h.registerEventHandler hcond
  | unrecognized => exact h.tick
  | triggerEvent name args handlers hsome => exact h.triggerEvent hsome args
  | handle i t eh left hat hleft => exact h.handleNext hat hleft
  | unregisterEventHandler name id => exact h.beginUnregister name id
  | store i u hat => exact h.endUnregister hat hcond
  | runTask i => exact h.runTask i

end GitRpc.Events
