import GitRpc.Library.Leases
import GitRpc.Repository.RepositoryManager

/-!
Any number of clients that open and close repositories through the one
manager. A ledger records, beside the manager, every open that was answered
"success" and has not been closed. The manager counts repeated opens in
`repoRefCnt`, but no operation reads the counter: `CloseRepo` destroys the
object and resets the counter whatever its value is.
-/

namespace GitRpc.Repository

open Common Library.Runs Library.Leases

variable {κ : Type*}

structure Session (κ : Type*) where
  manager : RepositoryManager
  ledger : Ledger κ String

def Session.init : Session κ := ⟨.init, []⟩

inductive SessionEvent (κ : Type*) where
  | openRepo (client : κ) (repoName : String) (lib : Lib)
  | closeRepo (client : κ)

/-- An open enters the ledger when its promise is set to "success". -/
def sessionStep [DecidableEq κ] (s : Session κ) : SessionEvent κ → Option (Session κ)
  | .openRepo client repoName lib =>
      (s.manager.openRepo lib repoName).toOption.map fun outcome =>
        ⟨outcome.manager,
          if outcome.promise = [.text "success"] then s.ledger.grant client repoName
          else s.ledger⟩
  | .closeRepo client =>
      s.manager.closeRepo.toOption.map fun outcome =>
        ⟨outcome.manager, s.ledger.endLatest client⟩

/-- What the clients rely on, for one step. -/
structure SessionSound (s : Session κ) (e : SessionEvent κ) (next : Session κ) : Prop where
  served : ∀ client repoName, (client, repoName) ∈ next.ledger →
    ∃ g, next.manager.currentRepo = some g ∧ g.name = repoName
  destroyed : ∀ client, e = .closeRepo client →
    (s.manager.currentRepo.isSome ∧ next.manager.currentRepo = none ↔
      s.ledger ≠ [] ∧ next.ledger = [])
  counted : next.manager.currentRepo.isSome →
    next.manager.repoRefCnt + 1 = next.ledger.length

/-- The way of using the manager under which the counter does not matter: no
open of another name while one is open, no open that fails, and no close but
the one of the last client. -/
def Disciplined (s : Session κ) : SessionEvent κ → Prop
  | .openRepo _ repoName lib =>
      match s.manager.currentRepo with
      | none => ∀ failed, firstOpenError lib (DEFAULT_REPO_PATH ++ repoName) = some failed →
          checkForError failed = "success"
      | some g => g.name = repoName ∧ s.manager.repoRefCnt + 1 < 2 ^ 31
  | .closeRepo client =>
      s.manager.currentRepo.isSome →
        s.manager.repoRefCnt = 0 ∧ s.ledger.Holds client

/-- The manager counts what the ledger records. -/
structure Counts (s : Session κ) : Prop where
  closed : s.manager.currentRepo = none → s.manager.repoRefCnt = 0 ∧ s.ledger = []
  only : ∀ g, s.manager.currentRepo = some g → s.ledger.OnlyFor g.name
  length : s.manager.currentRepo.isSome → s.manager.repoRefCnt + 1 = s.ledger.length
  low : 0 ≤ s.manager.repoRefCnt
  high : s.manager.repoRefCnt < 2 ^ 31

theorem counts_closed : Counts (⟨⟨none, 0⟩, []⟩ : Session κ) where
  closed _ := ⟨rfl, rfl⟩
  only := by rintro g ⟨⟩
  length := by rintro ⟨⟩
  low := le_refl 0
  high := by
    show (0 : Int) < 2 ^ 31
    omega

theorem counts_opened {g : GitRepo} {count : Int} {ledger : Ledger κ String}
    (honly : ledger.OnlyFor g.name) (hlength : count + 1 = ledger.length)
    (hlow : 0 ≤ count) (hhigh : count < 2 ^ 31) : Counts ⟨⟨some g, count⟩, ledger⟩ where
  closed := by rintro ⟨⟩
  only := by
    rintro g ⟨⟩
    exact honly
  length _ := hlength
  low := hlow
  high := hhigh

theorem sessionStep_open {s next : Session κ} [DecidableEq κ] {client : κ}
    {repoName : String} {lib : Lib}
    (hstep : sessionStep s (.openRepo client repoName lib) = some next) :
    ∃ outcome, s.manager.openRepo lib repoName = .ok outcome ∧
      next = ⟨outcome.manager,
        if outcome.promise = [.text "success"] then s.ledger.grant client repoName
        else s.ledger⟩ := by
  obtain ⟨outcome, hrun, rfl⟩ := toOption_map_eq_some.mp hstep
  exact ⟨outcome, hrun, rfl⟩

theorem sessionStep_close {s next : Session κ} [DecidableEq κ] {client : κ}
    (hstep : sessionStep s (.closeRepo client) = some next) :
    next = ⟨⟨none, 0⟩, s.ledger.endLatest client⟩ := by
  obtain ⟨outcome, hrun, rfl⟩ := toOption_map_eq_some.mp hstep
  rw [closeRepo_ok hrun]

/-- An open that takes the slot: what it leaves, and what it answers. -/
theorem sessionStep_openNew {s next : Session κ} [DecidableEq κ] {client : κ}
    {repoName : String} {lib : Lib}
    (hother : ∀ g, s.manager.currentRepo = some g → g.name ≠ repoName)
    (hstep : sessionStep s (.openRepo client repoName lib) = some next) :
    ∃ g result, g.name = repoName ∧
      result = (firstOpenError lib (DEFAULT_REPO_PATH ++ repoName)).elim
        "success" checkForError ∧
      next = ⟨⟨some g, if result = "success" then 0 else s.manager.repoRefCnt⟩,
        if result = "success" then s.ledger.grant client repoName else s.ledger⟩ := by
  obtain ⟨outcome, hrun, rfl⟩ := sessionStep_open hstep
  rw [openRepo_other lib hother] at hrun
  obtain ⟨g, result, hname, hresult, rfl⟩ := openNew_spec hrun
  exact ⟨g, result, hname, hresult, by simp⟩

theorem sessionStep_openAgain {s next : Session κ} [DecidableEq κ] {client : κ}
    {g : GitRepo} {lib : Lib} (hslot : s.manager.currentRepo = some g)
    (hstep : sessionStep s (.openRepo client g.name lib) = some next) :
    next = ⟨⟨some g, int32 (s.manager.repoRefCnt + 1)⟩, s.ledger.grant client g.name⟩ := by
  obtain ⟨outcome, hrun, rfl⟩ := sessionStep_open hstep
  rw [openRepo_again lib hslot] at hrun
  cases hrun
  simp [hslot]

theorem openText_eq_success (first : Option GitResult) :
    first.elim "success" checkForError = "success" ↔
      ∀ failed, first = some failed → checkForError failed = "success" := by
  cases first <;> simp

theorem Counts.served {s : Session κ} (h : Counts s) {client : κ} {repoName : String}
    (hmem : (client, repoName) ∈ s.ledger) :
    ∃ g, s.manager.currentRepo = some g ∧ g.name = repoName := by
  cases hslot : s.manager.currentRepo with
  | none => simp [(h.closed hslot).2] at hmem
  | some g => exact ⟨g, rfl, (h.only g hslot _ hmem).symm⟩

theorem Counts.ledger_ne_nil {s : Session κ} (h : Counts s)
    (hslot : s.manager.currentRepo.isSome) : s.ledger ≠ [] := by
  intro hnil
  have hlength := h.length hslot
  have hlow := h.low
  rw [hnil, List.length_nil] at hlength
  omega

/-- A disciplined step keeps the count. -/
theorem Counts.step [DecidableEq κ] {s next : Session κ} {e : SessionEvent κ}
    (h : Counts s) (hcond : Disciplined s e) (hstep : sessionStep s e = some next) :
    Counts next := by
  have hlow := h.low
  cases e with
  | openRepo client repoName lib =>
      cases hslot : s.manager.currentRepo with
      | none =>
          simp only [Disciplined, hslot] at hcond
          obtain ⟨hcount, hledger⟩ := h.closed hslot
          obtain ⟨g, result, hname, hresult, rfl⟩ :=
            sessionStep_openNew (by simp [hslot]) hstep
          have hsuccess : result = "success" := by
            rw [hresult, openText_eq_success]
            exact hcond
          simp only [hsuccess, if_true, hledger]
          refine counts_opened ?_ (by simp [Ledger.grant]) (by omega) (by omega)
          rw [hname]
          exact Ledger.OnlyFor.grant (by simp [Ledger.OnlyFor]) client
      | some g =>
          simp only [Disciplined, hslot] at hcond
          obtain ⟨rfl, hroom⟩ := hcond
          have hlength := h.length (by simp [hslot])
          rw [sessionStep_openAgain hslot hstep, int32_of_range (by omega) hroom]
          refine counts_opened ((h.only g hslot).grant client) ?_ (by omega) hroom
          simp only [Ledger.grant, List.length_cons]
          push_cast
          omega
  | closeRepo client =>
      rw [sessionStep_close hstep]
      cases hslot : s.manager.currentRepo with
      | none =>
          rw [(h.closed hslot).2]
          exact counts_closed
      | some g =>
          have hopen : s.manager.currentRepo.isSome := by simp [hslot]
          obtain ⟨hlast, hholds⟩ := hcond hopen
          have hlength := h.length hopen
          have hone : s.ledger.length = 1 := by omega
          rw [(Ledger.endLatest_eq_nil_iff (h.ledger_ne_nil hopen)).mpr ⟨hone, hholds⟩]
          exact counts_closed

theorem sessionSound_open_iff [DecidableEq κ] {s next : Session κ} {client : κ}
    {repoName : String} {lib : Lib} (h : Counts s)
    (hstep : sessionStep s (.openRepo client repoName lib) = some next) :
    SessionSound s (.openRepo client repoName lib) next ↔
      Disciplined s (.openRepo client repoName lib) := by
  have hlow := h.low
  constructor
  · intro hsound
    cases hslot : s.manager.currentRepo with
    | none =>
        simp only [Disciplined, hslot]
        obtain ⟨g, result, -, hresult, rfl⟩ :=
          sessionStep_openNew (by simp [hslot]) hstep
        rw [← openText_eq_success, ← hresult]
        by_contra hfail
        have hcounted := hsound.counted rfl
        simp [hfail, h.closed hslot] at hcounted
    | some g =>
        simp only [Disciplined, hslot]
        by_cases hname : g.name = repoName
        · subst hname
          refine ⟨rfl, ?_⟩
          have hlength := h.length (by simp [hslot])
          have hcounted := hsound.counted (by rw [sessionStep_openAgain hslot hstep]; rfl)
          rw [sessionStep_openAgain hslot hstep] at hcounted
          simp only [Ledger.grant, List.length_cons, int32] at hcounted
          push_cast at hcounted
          omega
        · -- the lease that is already there is on the name that just lost the slot
          exfalso
          obtain ⟨g', result, hname', -, hnext⟩ :=
            sessionStep_openNew (by simpa [hslot] using hname) hstep
          obtain ⟨lease, hlease⟩ :=
            List.exists_mem_of_ne_nil _ (h.ledger_ne_nil (by simp [hslot]))
          have hold : lease ∈ next.ledger := by
            rw [hnext]
            dsimp only
            split
            · exact List.mem_cons_of_mem _ hlease
            · exact hlease
          obtain ⟨g'', hslot'', hserved⟩ := hsound.served lease.1 lease.2 hold
          rw [hnext] at hslot''
          cases hslot''
          rw [h.only g hslot lease hlease] at hserved
          exact hname (hserved.symm.trans hname')
  · intro hcond
    have hnext := h.step hcond hstep
    exact ⟨fun _ _ => hnext.served, by rintro client ⟨⟩, hnext.length⟩

theorem sessionSound_close_iff [DecidableEq κ] {s next : Session κ} {client : κ}
    (h : Counts s) (hstep : sessionStep s (.closeRepo client) = some next) :
    SessionSound s (.closeRepo client) next ↔ Disciplined s (.closeRepo client) := by
  have hnext := sessionStep_close hstep
  constructor
  · intro hsound hopen
    have hne := h.ledger_ne_nil hopen
    have hended := ((hsound.destroyed client rfl).mp ⟨hopen, by rw [hnext]⟩).2
    rw [hnext] at hended
    obtain ⟨hone, hholds⟩ := (Ledger.endLatest_eq_nil_iff hne).mp hended
    have hlength := h.length hopen
    exact ⟨by omega, hholds⟩
  · intro hcond
    have hkept := h.step hcond hstep
    refine ⟨fun _ _ => hkept.served, ?_, hkept.length⟩
    rintro client' ⟨⟩
    have hempty : next.ledger = [] := (hkept.closed (by rw [hnext])).2
    cases hslot : s.manager.currentRepo with
    | none => simp [(h.closed hslot).2]
    | some g =>
        have hne := h.ledger_ne_nil (by simp [hslot])
        have hdestroyed : next.manager.currentRepo = none := by rw [hnext]
        exact iff_of_true ⟨rfl, hdestroyed⟩ ⟨hne, hempty⟩

/-- From a state that counts right, a step is sound exactly when it is
disciplined. -/
theorem sessionSound_iff [DecidableEq κ] (s : Session κ) (e : SessionEvent κ)
    (next : Session κ) (h : Counts s) (hstep : sessionStep s e = some next) :
    SessionSound s e next ↔ Disciplined s e := by
  cases e with
  | openRepo client repoName lib => exact sessionSound_open_iff h hstep
  | closeRepo client => exact sessionSound_close_iff h hstep

/-- Over every run of any number of clients: the manager serves them as its
counter promises exactly when every step is disciplined. -/
theorem sessions_sound_iff_disciplined [DecidableEq κ] (es : List (SessionEvent κ)) :
    Always sessionStep SessionSound (Session.init : Session κ) es ↔
      StepsMeet sessionStep Disciplined (Session.init : Session κ) es :=
  always_iff_stepsMeet sessionSound_iff (fun _ _ _ h hcond hstep => h.step hcond hstep)
    counts_closed es

/-- Two clients open one repository and the second closes it: the first one
is left with an empty slot. -/
theorem close_ends_the_other_open :
    ¬ Always sessionStep SessionSound (Session.init : Session (Fin 2))
      [.openRepo 0 "new-server" Lib.allOk, .openRepo 1 "new-server" Lib.allOk,
        .closeRepo 1] := by
  intro hall
  obtain ⟨-, hall⟩ := hall _ rfl
  obtain ⟨-, hall⟩ := hall _ rfl
  obtain ⟨hsound, -⟩ := hall _ rfl
  obtain ⟨g, hslot, -⟩ := hsound.served 0 "new-server" (by decide)
  cases hslot

end GitRpc.Repository
