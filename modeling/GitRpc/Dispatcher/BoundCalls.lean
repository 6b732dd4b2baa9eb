import Mathlib.Logic.Function.Iterate
import GitRpc.Dispatcher.DispatcherTypes

/-!
Which of its function pointers a task calls. `Invoke` chooses by the argument
pointer and two flags, not by what was bound, nor by its own parameter or
`hasArgs`; and a pointer that nobody has set holds whatever the memory held.
-/

namespace GitRpc.Dispatcher

variable {φ : Type*}

inductive FunctionMember where
  | cbFunction | taskFunction | taskNothing | taskFuncNoArgs | taskFuncNoReturn
  deriving DecidableEq

namespace Task

def member (t : Task φ) : FunctionMember → Option φ
  | .cbFunction => t.cbFunction
  | .taskFunction => t.taskFunction
  | .taskNothing => t.taskNothing
  | .taskFuncNoArgs => t.taskFuncNoArgs
  | .taskFuncNoReturn => t.taskFuncNoReturn

/-- The member that `Invoke` reads. -/
def memberRead (t : Task φ) : FunctionMember :=
  if t.functionArguments ≠ some nullptr then
    if !t.isCBTask then
      if t.hasReturn then .taskFunction else .taskFuncNoReturn
    else .cbFunction
  else if t.hasReturn then .taskFuncNoArgs else .taskNothing

/-- The call that `Invoke` makes, when a member that is not set holds
`memory`. -/
def callThrough (t : Task φ) (memory : FunctionMember → φ) : Call φ :=
  let f := (t.member t.memberRead).getD (memory t.memberRead)
  match t.memberRead with
  | .taskFunction | .taskFuncNoReturn => ⟨f, t.taskFuncInstance, t.functionArguments⟩
  | .cbFunction => ⟨f, t.cbFuncInstance, t.functionArguments⟩
  | .taskFuncNoArgs | .taskNothing => ⟨f, t.taskFuncInstance, none⟩

/-- The implicit copy constructor; a move copies, too. -/
def copy (t : Task φ) : Task φ where
  taskPriority := t.taskPriority
  cbFunction := t.cbFunction
  taskFunction := t.taskFunction
  taskNothing := t.taskNothing
  taskFuncNoArgs := t.taskFuncNoArgs
  taskFuncNoReturn := t.taskFuncNoReturn
  taskFuncInstance := t.taskFuncInstance
  cbFuncInstance := t.cbFuncInstance
  functionArguments := t.functionArguments
  hasCB := t.hasCB
  isCBTask := t.isCBTask
  hasArgs := t.hasArgs
  hasReturn := t.hasReturn
  isComplete := t.isComplete
  cbThreadName := t.cbThreadName

/-- Copies of copies, as the queue makes them. -/
theorem copy_iterate (n : Nat) (t : Task φ) : copy^[n] t = t := by
  have hcopy : (copy : Task φ → Task φ) = id := rfl
  rw [hcopy, Function.iterate_id, id]

/-- `Invoke` makes a call through the member that it reads, where that is set. -/
theorem invoke_eq_callThrough (t : Task φ) (memory : FunctionMember → φ) :
    t.invoke.1 = (t.member t.memberRead).map fun _ => t.callThrough memory := by
  by_cases hargs : t.functionArguments = some nullptr
  · cases hreturn : t.hasReturn with
    | true =>
        have hread : t.memberRead = .taskFuncNoArgs := by simp [memberRead, hargs, hreturn]
        cases hf : t.taskFuncNoArgs <;>
          simp [invoke, callThrough, hread, member, hargs, hreturn, hf]
    | false =>
        have hread : t.memberRead = .taskNothing := by simp [memberRead, hargs, hreturn]
        cases hf : t.taskNothing <;>
          simp [invoke, callThrough, hread, member, hargs, hreturn, hf]
  · cases hcb : t.isCBTask with
    | true =>
        have hread : t.memberRead = .cbFunction := by simp [memberRead, hargs, hcb]
        cases hf : t.cbFunction <;> simp [invoke, callThrough, hread, member, hargs, hcb, hf]
    | false =>
        cases hreturn : t.hasReturn with
        | true =>
            have hread : t.memberRead = .taskFunction := by
              simp [memberRead, hargs, hcb, hreturn]
            cases hf : t.taskFunction <;>
              simp [invoke, callThrough, hread, member, hargs, hcb, hreturn, hf]
        | false =>
            have hread : t.memberRead = .taskFuncNoReturn := by
              simp [memberRead, hargs, hcb, hreturn]
            cases hf : t.taskFuncNoReturn <;>
              simp [invoke, callThrough, hread, member, hargs, hcb, hreturn, hf]

end Task

/-- The member that the overload's `Bind` sets. -/
def Creation.member : Creation φ → FunctionMember
  | .function _ _ _ | .method _ _ _ _ => .taskFunction
  | .methodNoReturn _ _ _ _ => .taskFuncNoReturn
  | .methodNoArgs _ _ _ => .taskFuncNoArgs
  | .methodNothing _ _ _ => .taskNothing

/-- `Bind` sets one function pointer. -/
theorem Creation.create_member (creation : Creation φ) (memory : Int) (m : FunctionMember) :
    (creation.create memory).member m =
      if m = creation.member then some creation.call.f else none := by
  cases creation <;> cases m <;> rfl

/-- `Invoke` reads the member that was bound, and calls the bound function on
its instance with its argument. -/
structure InvokesBound (creation : Creation φ) (t : Task φ) (memory : FunctionMember → φ) :
    Prop where
  read : t.memberRead = creation.member
  call : t.callThrough memory = creation.call

theorem Creation.memberRead_create {creation : Creation φ} (h : creation.Invocable)
    (memory : Int) : (creation.create memory).memberRead = creation.member := by
  cases creation with
  | function f args | method f reference args | methodNoReturn f reference args =>
      have hargs : args ≠ nullptr := h
      simp [create, Task.bindFunction, Task.bindMethod, Task.bindMethodNoReturn, Task.bind,
        Task.memberRead, member, hargs]
  | methodNoArgs | methodNothing => rfl

/-- A null argument leads to a member that the overload leaves alone. -/
theorem Creation.memberRead_create_null {creation : Creation φ} (h : ¬ creation.Invocable)
    (memory : Int) : (creation.create memory).memberRead ≠ creation.member := by
  cases creation with
  | function f args | method f reference args | methodNoReturn f reference args =>
      obtain rfl : args = nullptr := not_not.mp h
      rintro ⟨⟩
  | methodNoArgs | methodNothing => exact absurd trivial h

/-- For every overload and all its arguments, whatever the memory held and
however often the queue copies the task: `Invoke` calls what was bound exactly
when an overload that takes an argument was not given a null one. -/
theorem invokes_bound_iff (creation : Creation φ) (priority : Int) (n : Nat)
    (memory : FunctionMember → φ) :
    InvokesBound creation (Task.copy^[n] (creation.create priority)) memory ↔
      creation.Invocable := by
  rw [Task.copy_iterate]
  constructor
  · intro h
    by_contra hnull
    exact Creation.memberRead_create_null hnull priority h.read
  · intro h
    have hread := Creation.memberRead_create h priority
    refine ⟨hread, ?_⟩
    have hcall := Creation.invoke_create h priority
    rw [Task.invoke_eq_callThrough _ memory, hread, Creation.create_member, if_pos rfl,
      Option.map_some] at hcall
    exact Option.some.inj hcall

/-- A method that takes an argument and is given a null one: the pointer for
methods without arguments is read, which nobody has set. -/
theorem null_argument_reads_unset :
    ¬ InvokesBound (.method "onPush" 1 nullptr .LOW)
      (Creation.create 0 (.method "onPush" 1 nullptr .LOW)) fun _ => "onFetch" := by
  intro h
  cases h.read

end GitRpc.Dispatcher
