import AgenticPlatform.CourseRun

/-! Runs that are cut short and started again. What is stored of the plan survives every cut but
one: between the plan and the row that points to it. -/
namespace AgenticPlatform
open Interaction ExecutionEngine Store Course

/-- The worlds that an execution passes through when its run is interrupted anywhere and started
again, any number of times. Each start must be `legal`. -/
inductive Restarts (env : Env) (engine : ExecutionEngine) (id : UUID)
    (legal : World → Prop) (w : World) :
    World → Prop
  | refl : Restarts env engine id legal w w
  | restart {s t : World} {fuel : Nat} {rest : M
    Execution} : Restarts env engine id legal w s → legal s →
      Visits (handle env).sem (engine.runExecution fuel id, s) (rest, t) →
        Restarts env engine id legal w t

/-- The execution as it was created: nothing has been planned. -/
structure Unplanned (id : UUID) (w : World) : Prop where
  bounded : Bounded w
  row : ∃ row, w.execution id = some row ∧ row.status = .created ∧ row.currentPlanId = none
  plans : ∀ p ∈ w.repo.plans, p.executionId ≠ id
  steps : ∀ s ∈ w.repo.steps, s.executionId ≠ id

/-- One plan for each version, no step but of the current plan, and no key given twice. -/
structure PlannedOnce (id : UUID) (w : World) : Prop where
  versions : ∀ p ∈ w.repo.plans, ∀ q ∈ w.repo.plans, p.executionId = id → q.executionId = id →
    p.planVersion = q.planVersion → p = q
  current : ∀ row planId, w.execution id = some row → row.currentPlanId = some planId →
    ∀ s ∈ w.repo.steps, s.executionId = id → s.planId = planId
  keys : ∀ s ∈ w.repo.steps, ∀ t ∈ w.repo.steps, s.executionId = id → t.executionId = id →
    plannerKey s = plannerKey t → s = t

section
variable {env : Env} {engine : ExecutionEngine} {id : UUID} {w t : World} {passing : Prop}

theorem Orderly.plannedOnce (orderly : Orderly passing id w) : PlannedOnce id w where
  versions p hp q hq own own' _ := orderly.single p hp q hq own own'
  current row planId stored current s member own := by
    have keyed : row.executionId = id := (Table.get_eq_some.mp stored).2
    obtain ⟨p, hp, owner, rfl, _⟩ := (orderly.row row stored).current planId current
    obtain ⟨q, hq, owner', same, _⟩ := (orderly.steps s member own).plan
    rw [← same, orderly.single p hp q hq (owner.trans keyed) (owner'.trans own)]
  keys := orderly.keys

theorem Unplanned.orderly (unplanned : Unplanned id w) : Orderly passing id w := by
  obtain ⟨row, stored, created, unset⟩ := unplanned.row
  exact orderly_created unplanned.plans unplanned.steps stored created unset

/-- Where no run is started over a plan that its row does not know of, the plan stays the only
one. -/
theorem planned_once (env : Env) (engine : ExecutionEngine) (unplanned : Unplanned id w)
    (restarts : Restarts env engine id (Restartable id) w t) : PlannedOnce id t := by
  have ordered : Bounded t ∧ Orderly False id t := by
    induction restarts with
    | refl => exact ⟨unplanned.bounded, unplanned.orderly⟩
    | restart _ restartable visits ih =>
        obtain ⟨bounded, orderly⟩ := ih
        exact free_visits (runExecution_held (c := free env id) (fun _ _ => trivial) bounded
          orderly restartable)
          visits bounded orderly
  exact ordered.2.plannedOnce

end

/-- The execution 1 as it was created. -/
theorem unplanned_created (env : Env) (request : NewExecution) : Unplanned ⟨1⟩
    (.created env request) where
  bounded := bounded_created env request
  row := ⟨executionOf request ⟨1⟩ ⟨0⟩ 0, rfl, rfl, rfl⟩
  plans _ no := (Table.not_mem_empty no).elim
  steps _ no := (Table.not_mem_empty no).elim

/-- The first `n` calls of a run of the generic execution 1. -/
def interrupted (n : Nat) : World :=
  (cut (handle .refusing) n ((ExecutionEngine.default .flat).runExecution 5 ⟨1⟩)
    (.created .refusing genericRequest)).2

/-- What a second run leaves. -/
def restarted (n : Nat) : World :=
  (run (handle .refusing) ((ExecutionEngine.default .flat).runExecution 5 ⟨1⟩) (interrupted n)).2

theorem restarts_twice {legal : World → Prop} (first : legal (.created .refusing genericRequest))
    (n : Nat) (second : legal (interrupted n)) :
    Restarts .refusing (.default .flat) ⟨1⟩ legal (.created .refusing genericRequest)
    (restarted n) := by
  obtain ⟨rest, visits, _⟩ := visits_run (handle .refusing)
    ((ExecutionEngine.default .flat).runExecution 5 ⟨1⟩)
    (interrupted n)
  exact (Restarts.refl.restart first (visits_cut _ n _ _)).restart second visits

theorem restartable_of_none {w : World} (none : w.repo.plans.rows = []) : Restartable ⟨1⟩ w := by
  intro _ _ _ p (member : p ∈ w.repo.plans.rows)
  simp [none] at member

/-- Cut before a plan is stored, the run is planned by the second start. -/
theorem planned_once_generic : PlannedOnce ⟨1⟩ (restarted 4) :=
  planned_once .refusing (.default .flat) (unplanned_created .refusing genericRequest)
    (restarts_twice (restartable_of_none (by decide)) 4 (restartable_of_none (by decide)))

/-- Cut between the plan and the row, the second start stores another plan of the same version. -/
theorem planned_twice : ¬ ∀ (env : Env) (engine : ExecutionEngine) (id : UUID) (w t : World),
    Unplanned id w →
    Restarts env engine id (fun _ => True) w t → PlannedOnce id t := by
  intro once
  have versions := (once _ _ _ _ _ (unplanned_created .refusing genericRequest)
    (restarts_twice trivial 7 trivial)).versions
  have stored : (restarted 7).repo.plans.rows.map
    (fun p => (p.planId.n, p.executionId.n, p.planVersion)) =
      [(2, 1, 1), (5, 1, 1)] := by decide +kernel
  obtain ⟨p, q, rows⟩ :=
    List.length_eq_two.mp ((List.length_map _).symm.trans (congrArg List.length stored))
  simp only [rows, List.map_cons, List.map_nil, List.cons.injEq, Prod.mk.injEq, and_true] at stored
  obtain ⟨⟨first, own, version⟩, second, own', version'⟩ := stored
  have member : p ∈ (restarted 7).repo.plans ∧ q ∈ (restarted 7).repo.plans := by
    constructor
    · exact (by simp [rows] : p ∈ (restarted 7).repo.plans.rows)
    · exact (by simp [rows] : q ∈ (restarted 7).repo.plans.rows)
  have same := versions p member.1 q member.2 (congrArg UUID.mk own) (congrArg UUID.mk own')
    (version.trans version'.symm)
  rw [same, second] at first
  exact absurd first (by decide)

end AgenticPlatform
