import Mathlib.Tactic
import Mathlib.Data.List.Nodup
import GitRpc.Threading.Receivers

/-!
From a name to an id and back. The ids are `pthread_t`, and `threadIDs` has
them as they are; but the function that looks a name up in it takes an `int`,
and the compiler converts on the way in and in front of the map.
-/

namespace GitRpc.Threading

open Library.Registries

/-- The id that `threadIDs` gets. -/
def Registration.key : Registration → ThreadID
  | .addMessagePump _ _ parentThreadID => parentThreadID.signExtend 64
  | .addTaskRunner _ dmpRef => dmpRef.Id
  | .addNamedThread _ threadRef => threadRef.Id

/-- The name that a registration enters for `id`. -/
def Registration.nameFor (id : ThreadID) (c : Registration) : Option String :=
  if c.key = id then some c.name else none

def Registration.isPump : Registration → Bool
  | .addMessagePump _ _ _ => true
  | _ => false

/-- `GetThreadNameFromId(GetThreadId(name))`. -/
def Dispatcher.nameAndBack (d : Dispatcher) (name : String) : String :=
  d.getThreadNameFromId ((d.getThreadId name).setWidth 32)

/-- The value of an `int`, as a `pthread_t`. -/
def FitsInt (id : ThreadID) : Prop := id.toNat < 2 ^ 31 ∨ 2 ^ 64 - 2 ^ 31 ≤ id.toNat

instance (id : ThreadID) : Decidable (FitsInt id) :=
  inferInstanceAs (Decidable (_ ∨ _))

theorem signExtend_setWidth_iff (id : ThreadID) :
    (id.setWidth 32).signExtend 64 = id ↔ FitsInt id := by
  rw [← BitVec.toInt_inj, BitVec.toInt_signExtend_of_le (by omega), FitsInt]
  have hlt := id.isLt
  rw [BitVec.toInt_eq_toNat_cond, BitVec.toInt_eq_toNat_cond, BitVec.toNat_setWidth]
  split <;> split <;> omega

/-- None of the names has been registered as what it will be. -/
def Fresh (d : Dispatcher) (cs : List Registration) : Prop :=
  ∀ c ∈ cs, d.namedDMPs c.name = none ∧ d.namedThreads c.name = none ∧ d.knownDMPs c.name = none

variable {d : Dispatcher} {cs : List Registration} {c : Registration}

theorem not_for_other {name : String} (hne : c.name ≠ name) :
    c.runnerFor name = none ∧ c.threadFor name = none ∧ c.pumpFor name = none := by
  cases c with
  | addMessagePump => exact ⟨rfl, rfl, if_neg hne⟩
  | addTaskRunner => exact ⟨if_neg hne, rfl, rfl⟩
  | addNamedThread => exact ⟨rfl, if_neg hne, rfl⟩

theorem Fresh.tail (h : Fresh d (c :: cs)) (hname : c.name ∉ cs.map Registration.name) :
    Fresh (d.add c) cs := by
  intro other hother
  have hne : c.name ≠ other.name := by
    intro heq
    exact hname (heq ▸ List.mem_map_of_mem hother)
  obtain ⟨hrunner, hthread, hpump⟩ := h other (List.mem_cons_of_mem _ hother)
  obtain ⟨hnoRunner, hnoThread, hnoPump⟩ := not_for_other hne
  rw [namedDMPs_add, namedThreads_add, knownDMPs_add, hrunner, hthread, hpump, hnoRunner,
    hnoThread, hnoPump]
  exact ⟨rfl, rfl, rfl⟩

/-- The id of a new name is entered. -/
theorem Fresh.threadIDs_add (h : Fresh d (c :: cs)) :
    (d.add c).threadIDs = Function.update d.threadIDs c.key (some c.name) := by
  obtain ⟨hrunner, hthread, hpump⟩ := h c List.mem_cons_self
  cases c with
  | addMessagePump name dmp parentThreadID =>
      simp only [Dispatcher.add, Dispatcher.addMessagePump]
      rw [show d.knownDMPs name = none from hpump]
      rfl
  | addTaskRunner name dmpRef =>
      simp only [Dispatcher.add, Dispatcher.addTaskRunner]
      rw [show d.namedDMPs name = none from hrunner]
      rfl
  | addNamedThread name threadRef =>
      simp only [Dispatcher.add, Dispatcher.addNamedThread]
      rw [show d.namedThreads name = none from hthread]
      rfl

/-- Where names and ids are distinct, `threadIDs` has the name of each id that
was registered. -/
theorem Fresh.threadIDs_addAll (h : Fresh d cs) (hnames : (cs.map Registration.name).Nodup)
    (hids : (cs.map Registration.key).Nodup) (id : ThreadID) :
    (d.addAll cs).threadIDs id =
      (cs.findSome? (Registration.nameFor id)).or (d.threadIDs id) := by
  induction cs generalizing d with
  | nil => rfl
  | cons c rest ih =>
      rw [List.map_cons, List.nodup_cons] at hnames hids
      have hrest := ih (h.tail hnames.1) hnames.2 hids.2
      have hadd : d.addAll (c :: rest) = (d.add c).addAll rest := rfl
      rw [hadd, hrest, h.threadIDs_add, List.findSome?_cons]
      rcases eq_or_ne c.key id with rfl | hne
      · have hnone : rest.findSome? (Registration.nameFor c.key) = none := by
          rw [List.findSome?_eq_none_iff]
          intro other hother
          refine if_neg fun heq => hids.1 ?_
          rw [← heq]
          exact List.mem_map_of_mem hother
        rw [hnone, Registration.nameFor, if_pos rfl, Function.update_self]
        rfl
      · rw [Registration.nameFor, if_neg hne, Function.update_of_ne hne.symm]

/-- A runner's or a thread's name leads to the id it was registered with. -/
theorem getThreadId_addAll (hnames : (cs.map Registration.name).Nodup) (hmem : c ∈ cs)
    (hkind : c.isPump = false) : (Dispatcher.new.addAll cs).getThreadId c.name = c.key := by
  have hothers : ∀ other ∈ cs, other ≠ c → other.name ≠ c.name := by
    intro other hother hne heq
    exact hne (List.inj_on_of_nodup_map hnames hother hmem heq)
  cases c with
  | addMessagePump => cases hkind
  | addTaskRunner name dmpRef =>
      have hfound : (Dispatcher.new.addAll cs).namedDMPs name = some dmpRef := by
        rw [namedDMPs_addAll]
        exact findSome?_of_mem hmem (if_pos rfl)
          fun other hother hne => (not_for_other (hothers other hother hne)).1
      simp only [Dispatcher.getThreadId, Registration.name, hfound]
      rfl
  | addNamedThread name threadRef =>
      have hnone : (Dispatcher.new.addAll cs).namedDMPs name = none := by
        rw [namedDMPs_addAll, List.findSome?_eq_none_iff]
        intro other hother
        by_cases hsame : other = .addNamedThread name threadRef
        · rw [hsame]
          rfl
        · exact (not_for_other (hothers other hother hsame)).1
      have hfound : (Dispatcher.new.addAll cs).namedThreads name = some threadRef := by
        rw [namedThreads_addAll]
        exact findSome?_of_mem hmem (if_pos rfl)
          fun other hother hne => (not_for_other (hothers other hother hne)).2.1
      simp only [Dispatcher.getThreadId, Registration.name, hnone, hfound]
      rfl

/-- For every sequence of registrations with distinct names and distinct ids,
each runner's and each thread's name comes back exactly when its id survives
as an `int`; or it is empty, and nothing has the id that is looked up. -/
theorem nameAndBack_eq_iff (cs : List Registration) (hnames : (cs.map Registration.name).Nodup)
    (hids : (cs.map Registration.key).Nodup) (c : Registration) (hmem : c ∈ cs)
    (hkind : c.isPump = false) :
    (Dispatcher.new.addAll cs).nameAndBack c.name = c.name ↔
      FitsInt c.key ∨ (c.name = "" ∧
        ∀ other ∈ cs, other.key ≠ (c.key.setWidth 32).signExtend 64) := by
  have hfresh : Fresh Dispatcher.new cs := fun _ _ => ⟨rfl, rfl, rfl⟩
  have hback : (Dispatcher.new.addAll cs).nameAndBack c.name =
      (cs.findSome? (Registration.nameFor ((c.key.setWidth 32).signExtend 64))).getD "" := by
    rw [Dispatcher.nameAndBack, getThreadId_addAll hnames hmem hkind,
      Dispatcher.getThreadNameFromId, hfresh.threadIDs_addAll hnames hids]
    rw [show Dispatcher.new.threadIDs _ = none from rfl, Option.or_none]
  rw [hback, ← signExtend_setWidth_iff]
  constructor
  · intro heq
    cases hfound : cs.findSome? (Registration.nameFor ((c.key.setWidth 32).signExtend 64)) with
    | none =>
        rw [hfound] at heq
        refine .inr ⟨heq.symm, fun other hother hkey => ?_⟩
        have hnone := List.findSome?_eq_none_iff.mp hfound other hother
        rw [Registration.nameFor, if_pos hkey] at hnone
        cases hnone
    | some name =>
        obtain ⟨other, hother, hname⟩ := List.exists_of_findSome?_eq_some hfound
        unfold Registration.nameFor at hname
        split at hname
        · rename_i hkey
          rw [hfound, Option.getD_some] at heq
          have hsame : other = c :=
            List.inj_on_of_nodup_map hnames hother hmem ((Option.some.inj hname).trans heq)
          rw [hsame] at hkey
          exact .inl hkey.symm
        · cases hname
  · rintro (hkey | ⟨hempty, hnone⟩)
    · have hfound : cs.findSome? (Registration.nameFor ((c.key.setWidth 32).signExtend 64)) =
          some c.name := by
        apply findSome?_of_mem hmem (if_pos hkey.symm)
        intro other hother hne
        refine if_neg fun hsame => hne ?_
        exact List.inj_on_of_nodup_map hids hother hmem (hsame.trans hkey)
      rw [hfound, Option.getD_some]
    · have hfound : cs.findSome? (Registration.nameFor ((c.key.setWidth 32).signExtend 64)) =
          none := by
        rw [List.findSome?_eq_none_iff]
        exact fun other hother => if_neg (hnone other hother)
      rw [hfound, Option.getD_none, hempty]

/-- A main thread as the C library places it, and one with a small id. -/
def mainAndWorker : List Registration :=
  [.addTaskRunner "main" ⟨1, 0x7f00deadb700⟩, .addNamedThread "worker" ⟨3, 4711⟩]

theorem worker_comes_back : (Dispatcher.new.addAll mainAndWorker).nameAndBack "worker" = "worker" :=
  (nameAndBack_eq_iff mainAndWorker (by decide) (by decide) (.addNamedThread "worker" ⟨3, 4711⟩)
    (by simp [mainAndWorker]) rfl).mpr (.inl (by decide))

theorem main_does_not_come_back :
    (mainAndWorker.map Registration.name).Nodup ∧ (mainAndWorker.map Registration.key).Nodup ∧
      .addTaskRunner "main" ⟨1, 0x7f00deadb700⟩ ∈ mainAndWorker ∧
      (Dispatcher.new.addAll mainAndWorker).nameAndBack "main" ≠ "main" :=
  ⟨by decide, by decide, List.mem_cons_self, by decide⟩

end GitRpc.Threading
