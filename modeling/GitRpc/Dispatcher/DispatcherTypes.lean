import Mathlib.Tactic.Common

/-!
`Task`: a call that a thread hands to a message pump. One class stands for
five kinds of bound function, each with a pointer member of its own, and the
constructor sets none of the pointers; a member that nothing has set is
`none` here. The priority is an integer that the constructor does not set
either, so a new task takes over what its memory holds.
-/

namespace GitRpc.Dispatcher

inductive TaskPriority where
  | HIGH | NORMAL | LOW
  deriving DecidableEq

/-- The value of the enumerator. -/
def TaskPriority.toInt : TaskPriority → Int
  | .HIGH => 0
  | .NORMAL => 1
  | .LOW => 2

/-- An address; 0 is the null pointer. -/
abbrev Pointer := Nat

def nullptr : Pointer := 0

/-- `φ` stands for what a function pointer may point to. -/
structure Task (φ : Type*) where
  taskPriority : Int
  cbFunction : Option φ := none
  taskFunction : Option φ := none
  taskNothing : Option φ := none
  taskFuncNoArgs : Option φ := none
  taskFuncNoReturn : Option φ := none
  taskFuncInstance : Option Pointer := none
  cbFuncInstance : Option Pointer := none
  functionArguments : Option Pointer := none
  hasCB : Bool := false
  isCBTask : Bool := false
  hasArgs : Bool := false
  hasReturn : Bool := true
  isComplete : Bool := false
  cbThreadName : String := ""

/-- The overloads of `Create`, by the type of the function they bind. -/
inductive Creation (φ : Type*) where
  | function (f : φ) (args : Pointer) (priority : TaskPriority)
  | method (f : φ) (reference args : Pointer) (priority : TaskPriority)
  | methodNoReturn (f : φ) (reference args : Pointer) (priority : TaskPriority)
  | methodNoArgs (f : φ) (reference : Pointer) (priority : TaskPriority)
  | methodNothing (f : φ) (reference : Pointer) (priority : TaskPriority)

variable {φ : Type*}

namespace Task

/-- The lines that all `Bind` overloads begin with. -/
def bind (t : Task φ) (reference args : Pointer) (hasArgs : Bool) : Task φ :=
  { t with
    taskFuncInstance := some reference
    functionArguments := some args
    hasCB := false
    hasArgs := hasArgs
    isCBTask := false }

def bindFunction (t : Task φ) (f : φ) (args : Pointer) (priority : TaskPriority) : Task φ :=
  { t.bind nullptr args true with
    hasReturn := true, taskPriority := priority.toInt, taskFunction := some f }

def bindMethod (t : Task φ) (f : φ) (reference args : Pointer) (priority : TaskPriority) :
    Task φ :=
  { t.bind reference args true with
    hasReturn := true, taskPriority := priority.toInt, taskFunction := some f }

/-- The only overload that leaves the priority alone. -/
def bindMethodNoReturn (t : Task φ) (f : φ) (reference args : Pointer)
    (_priority : TaskPriority) : Task φ :=
  { t.bind reference args true with hasReturn := false, taskFuncNoReturn := some f }

/-- The only overload that leaves `hasReturn` alone. -/
def bindMethodNoArgs (t : Task φ) (f : φ) (reference : Pointer) (priority : TaskPriority) :
    Task φ :=
  { t.bind reference nullptr false with
    taskPriority := priority.toInt, taskFuncNoArgs := some f }

def bindMethodNothing (t : Task φ) (f : φ) (reference : Pointer) (priority : TaskPriority) :
    Task φ :=
  { t.bind reference nullptr false with
    hasReturn := false, taskPriority := priority.toInt, taskNothing := some f }

end Task

/-- `Create`, on memory that holds `memory` where the priority will be. -/
def Creation.create (memory : Int) : Creation φ → Task φ
  | .function f args priority =>
      ({ taskPriority := memory } : Task φ).bindFunction f args priority
  | .method f reference args priority =>
      ({ taskPriority := memory } : Task φ).bindMethod f reference args priority
  | .methodNoReturn f reference args priority =>
      ({ taskPriority := memory } : Task φ).bindMethodNoReturn f reference args priority
  | .methodNoArgs f reference priority =>
      ({ taskPriority := memory } : Task φ).bindMethodNoArgs f reference priority
  | .methodNothing f reference priority =>
      ({ taskPriority := memory } : Task φ).bindMethodNothing f reference priority

/-- A call through one of the function pointers. -/
structure Call (φ : Type*) where
  f : φ
  instance_ : Option Pointer
  arguments : Option Pointer
  deriving DecidableEq

/-- `Invoke`. There is no call when the pointer it goes through was never set. -/
def Task.invoke (t : Task φ) : Option (Call φ) × Task φ :=
  let call : Option (Call φ) :=
    if t.functionArguments ≠ some nullptr then
      if !t.isCBTask then
        if t.hasReturn then
          t.taskFunction.map fun f => ⟨f, t.taskFuncInstance, t.functionArguments⟩
        else t.taskFuncNoReturn.map fun f => ⟨f, t.taskFuncInstance, t.functionArguments⟩
      else t.cbFunction.map fun f => ⟨f, t.cbFuncInstance, t.functionArguments⟩
    else if t.hasReturn then t.taskFuncNoArgs.map fun f => ⟨f, t.taskFuncInstance, none⟩
    else t.taskNothing.map fun f => ⟨f, t.taskFuncInstance, none⟩
  (call, { t with isComplete := true })

/-- `Task::PriorityComparer`. -/
def Task.comesAfter (x y : Task φ) : Prop := y.taskPriority < x.taskPriority

instance (x y : Task φ) : Decidable (x.comesAfter y) :=
  inferInstanceAs (Decidable (y.taskPriority < x.taskPriority))

/-- A task that `Create` has made and nobody has invoked. The constructor is
private and `Invoke` runs on the pump's own copy, so every task that is
posted is one. -/
abbrev FreshTask (φ : Type*) := {task : Task φ // task.isComplete = false}

theorem Creation.create_isComplete (creation : Creation φ) (memory : Int) :
    (creation.create memory).isComplete = false := by
  cases creation <;> rfl

def Creation.fresh (creation : Creation φ) (memory : Int) : FreshTask φ :=
  ⟨creation.create memory, creation.create_isComplete memory⟩

/-- What `Create` was told to call. -/
def Creation.call : Creation φ → Call φ
  | .function f args _ => ⟨f, some nullptr, some args⟩
  | .method f reference args _ => ⟨f, some reference, some args⟩
  | .methodNoReturn f reference args _ => ⟨f, some reference, some args⟩
  | .methodNoArgs f reference _ => ⟨f, some reference, none⟩
  | .methodNothing f reference _ => ⟨f, some reference, none⟩

/-- `Invoke` takes a null argument for none. -/
def Creation.Invocable : Creation φ → Prop
  | .function _ args _ | .method _ _ args _ | .methodNoReturn _ _ args _ => args ≠ nullptr
  | .methodNoArgs _ _ _ | .methodNothing _ _ _ => True

instance (creation : Creation φ) : Decidable creation.Invocable := by
  cases creation <;> unfold Creation.Invocable <;> infer_instance

/-- A task calls what it was bound to. -/
theorem Creation.invoke_create {creation : Creation φ} (h : creation.Invocable) (memory : Int) :
    (creation.create memory).invoke.1 = some creation.call := by
  cases creation with
  | function f args | method f reference args | methodNoReturn f reference args =>
      have hargs : args ≠ nullptr := h
      simp [create, Task.bindFunction, Task.bindMethod, Task.bindMethodNoReturn, Task.bind,
        Task.invoke, call, hargs]
  | methodNoArgs | methodNothing => rfl

/-- A null argument leads `Invoke` to a pointer that was never set. -/
theorem Creation.invoke_create_null {creation : Creation φ} (h : ¬ creation.Invocable)
    (memory : Int) : (creation.create memory).invoke.1 = none := by
  cases creation with
  | function f args | method f reference args | methodNoReturn f reference args =>
      obtain rfl : args = nullptr := not_not.mp h
      rfl
  | methodNoArgs | methodNothing => exact absurd trivial h

end GitRpc.Dispatcher
