import AgenticPlatform.EngineSpec
import AgenticPlatform.Rows

/-! What the rows of one execution promise together: its plan, its steps, their results and
the execution row. A call that is lawful for the execution keeps the promise, and a local call
neither reads nor writes what belongs to another execution. -/
namespace AgenticPlatform
open Interaction Store

/-- Every identifier in use is below `n`. -/
structure Below (n : Nat) (repo : Repository) : Prop where
  contexts : ∀ c ∈ repo.contexts, c.contextId.n < n
  executions : ∀ row ∈ repo.executions, row.executionId.n < n
  plans : ∀ p ∈ repo.plans, p.planId.n < n ∧ p.executionId.n < n
  steps : ∀ s ∈ repo.steps, s.stepId.n < n ∧ s.executionId.n < n
  results : ∀ r ∈ repo.stepResults, r.stepId.n < n
  proposals : ∀ p ∈ repo.actionProposals, p.proposalId.n < n ∧ p.executionId.n < n
  evaluations : ∀ e ∈ repo.policyEvaluations, e.evaluationId.n < n
  approvals : ∀ a ∈ repo.approvals, a.approvalId.n < n

/-- Every identifier in use has been drawn. -/
abbrev Bounded (w : World) : Prop := Below w.fresh w.repo

def plannerKey (s : Step) : Json := s.input.get "planner_step_key"

/-- The step row was made from the specification. -/
structure Realizes (spec : StepSpec) (s : Step) : Prop where
  key : plannerKey s = .str spec.stepKey
  kind : s.stepType = stepKindOf spec.kind

/-- The step comes from a stored plan of its execution, and its status is backed by a result. -/
structure Placed (passing : Prop) (w : World) (s : Step) : Prop where
  plan : ∃ p ∈ w.repo.plans, p.executionId = s.executionId ∧ p.planId = s.planId ∧
    ∃ spec ∈ p.steps, Realizes spec s
  status : s.status = .pending ∨ s.status = .running ∨ s.status = .succeeded
  planned : passing → s.Planned
  finished : s.status = .succeeded → ∃ r, w.repo.stepResults.get s.stepId = some r ∧
    (passing → isValidationStep s = true → r.Passed)

/-- Every specification of the plan has its step row. -/
def Instantiated (w : World) (p : ExecutionPlan) : Prop :=
  ∀ spec ∈ p.steps, ∃ s ∈ w.repo.steps, s.executionId = p.executionId ∧ Realizes spec s

/-- What the status of a row says about the plan and the steps. -/
structure RowOrderly (w : World) (row : Execution) : Prop where
  created : row.status = .created → row.currentPlanId = none ∧
    ∀ p ∈ w.repo.plans, p.executionId ≠ row.executionId
  planning : row.status = .planning → row.currentPlanId = none
  planned : row.status = .executing ∨ row.status = .validating ∨ row.status = .awaitingApproval ∨
    row.status = .completed → row.currentPlanId ≠ none
  current : ∀ planId, row.currentPlanId = some planId →
    ∃ p ∈ w.repo.plans, p.executionId = row.executionId ∧ p.planId = planId ∧ Instantiated w p
  done : row.status = .awaitingApproval ∨ row.status = .completed →
    ∀ s ∈ w.repo.steps, s.executionId = row.executionId → s.status = .succeeded

/-- What belongs to the execution `id` fits together. With `passing`, the results of its
validation steps pass. -/
structure Orderly (passing : Prop) (id : UUID) (w : World) : Prop where
  single : ∀ p ∈ w.repo.plans, ∀ q ∈ w.repo.plans, p.executionId = id → q.executionId = id → p = q
  steps : ∀ s ∈ w.repo.steps, s.executionId = id → Placed passing w s
  keys : ∀ s ∈ w.repo.steps, ∀ t ∈ w.repo.steps, s.executionId = id → t.executionId = id →
    plannerKey s = plannerKey t → s = t
  row : ∀ row, w.execution id = some row → RowOrderly w row

/-- A write of the row over the stored one. -/
structure Rewrite (w : World) (row ex : Execution) : Prop where
  executionId : ex.executionId = row.executionId
  status : ex.status = row.status ∨ (row.status, ex.status) ∈ executionAllowed
  kept : ex.currentPlanId = row.currentPlanId ∨ (row.status = .planning ∧ ex.status = .executing ∧
    ∃ p ∈ w.repo.plans, p.executionId = row.executionId ∧ ex.currentPlanId = some p.planId ∧
      Instantiated w p)
  entered : ex.status = .executing → row.status = .planning → ex.currentPlanId ≠ none
  done : ex.status = .awaitingApproval ∨ ex.status = .completed → row.status = ex.status ∨
    row.status = .awaitingApproval ∨ ∀ s ∈ w.repo.steps, s.executionId = row.executionId →
      s.status = .succeeded

/-- The row is in its planning phase. -/
def Planning (id : UUID) (w : World) : Prop :=
  ∃ row, w.execution id = some row ∧ row.status = .planning

/-- A pending step that the scheduler has chosen. -/
structure Scheduled (w : World) (s : Step) : Prop where
  stored : w.repo.steps.get s.stepId = some s
  pending : s.status = .pending
  chosen : ∃ row p, w.execution s.executionId = some row ∧ isExecutionTerminal row.status = false ∧
    row.currentPlanId = some p.planId ∧ p ∈ w.repo.plans ∧
    nextPendingReady (stepsInPlanOrder (w.repo.listStepsForExecution s.executionId) p)
      (w.repo.listStepsForExecution s.executionId) = some s

/-- A step whose result is stored. -/
structure Finished (passing : Prop) (w : World) (s : Step) : Prop where
  stored : w.repo.steps.get s.stepId = some s
  running : s.status = .running
  result : ∃ r, w.repo.stepResults.get s.stepId = some r ∧
    (passing → isValidationStep s = true → r.Passed)

/-- Calls that keep what belongs to `id` in order. -/
def Lawful (passing : Prop) (id : UUID) (w : World) : Op → Prop
  | .saveContext _ | .saveExecution _ => False
  | .updateExecution ex => ∃ row, w.execution id = some row ∧ Rewrite w row ex
  | .savePlan p => p.executionId = id ∧ p.planId.n < w.fresh ∧ id.n < w.fresh ∧ Planning id w ∧
      ∀ q ∈ w.repo.plans, q.executionId ≠ id ∧ q.planId ≠ p.planId
  | .saveStep s => s.executionId = id ∧ s.stepId.n < w.fresh ∧ id.n < w.fresh ∧ Planning id w ∧
      s.status = .pending ∧ Placed passing w s ∧ w.repo.stepResults.get s.stepId = none ∧
      ∀ t ∈ w.repo.steps, t.stepId ≠ s.stepId ∧ (t.executionId = id → plannerKey t ≠ plannerKey s)
  | .updateStep s => s.executionId = id ∧
      ((∃ old now, Scheduled w old ∧ s = { old with status := .running, updatedAt := now }) ∨
        (∃ old now, Finished passing w old ∧
          s = { old with status := .succeeded, updatedAt := now }))
  | .saveStepResult r => ∃ s ∈ w.repo.steps, s.executionId = id ∧ s.stepId = r.stepId ∧
    s.status = .running
  | .saveActionProposal p => p.proposalId.n < w.fresh ∧ p.executionId.n < w.fresh
  | .savePolicyEvaluation e => e.evaluationId.n < w.fresh
  | .saveApproval a => a.approvalId.n < w.fresh
  | _ => True

/-- Calls that concern nothing but what belongs to `id`. -/
def Local (id : UUID) (w : World) : Op → Prop
  | .getContext contextId => ∃ row, w.execution id = some row ∧ row.executionContextId = contextId
  | .getExecution j | .listStepsForExecution j => j = id
  | .updateExecution ex => ex.executionId = id
  | .savePlan p => p.executionId = id
  | .getPlan planId => ∃ p ∈ w.repo.plans, p.planId = planId ∧ p.executionId = id
  | .saveStep s => s.executionId = id
  | .getStep stepId | .getStepResult stepId => ∃ s ∈ w.repo.steps, s.stepId = stepId ∧
    s.executionId = id
  | .updateStep s => s.executionId = id
  | .saveStepResult r => ∃ s ∈ w.repo.steps, s.stepId = r.stepId ∧ s.executionId = id
  | .saveActionProposal p => p.executionId = id ∧
      ∀ q ∈ w.repo.actionProposals, q.proposalId = p.proposalId → q.executionId = id
  | .savePolicyEvaluation e => e.executionId = id ∧ ∀ x ∈ w.repo.policyEvaluations, x.evaluationId ≠
    e.evaluationId
  | .saveContext _ | .saveExecution _ | .getActionProposal _ | .saveApproval _ | .enqueue _ _
  | .dequeue => False
  | _ => True

section
variable {env : Env} {passing : Prop} {id j : UUID} {w t : World} {op : Op} {row ex : Execution}

/-- The call stores its row under identifiers that have been drawn. -/
def Drawn (w : World) : Op → Prop
  | .saveContext c => c.contextId.n < w.fresh
  | .saveExecution row => row.executionId.n < w.fresh
  | .updateExecution row => row.executionId.n < w.fresh
  | .savePlan p => p.planId.n < w.fresh ∧ p.executionId.n < w.fresh
  | .saveStep s | .updateStep s => s.stepId.n < w.fresh ∧ s.executionId.n < w.fresh
  | .saveStepResult r => r.stepId.n < w.fresh
  | .saveActionProposal p => p.proposalId.n < w.fresh ∧ p.executionId.n < w.fresh
  | .savePolicyEvaluation e => e.evaluationId.n < w.fresh
  | .saveApproval a => a.approvalId.n < w.fresh
  | _ => True

theorem Below.mono {n m : Nat} {repo : Repository} (below : Below n repo) (le : n ≤ m) :
    Below m repo where
  contexts c member := (below.contexts c member).trans_le le
  executions row member := (below.executions row member).trans_le le
  plans p member := ⟨(below.plans p member).1.trans_le le, (below.plans p member).2.trans_le le⟩
  steps s member := ⟨(below.steps s member).1.trans_le le, (below.steps s member).2.trans_le le⟩
  results r member := (below.results r member).trans_le le
  proposals p member :=
    ⟨(below.proposals p member).1.trans_le le, (below.proposals p member).2.trans_le le⟩
  evaluations e member := (below.evaluations e member).trans_le le
  approvals a member := (below.approvals a member).trans_le le

theorem bounded_handle (bounded : Bounded w) (drawn : Drawn w op) : Bounded
    (handle env w op).2 := by
  cases op with
  | saveContext c => exact { bounded with contexts := Table.forall_put bounded.contexts drawn }
  | saveExecution row =>
      exact { bounded with executions := Table.forall_put bounded.executions drawn }
  | updateExecution row =>
      simp only [handle]
      split
      · exact { bounded with executions := Table.forall_put bounded.executions drawn }
      · exact bounded
  | savePlan p => exact { bounded with plans := Table.forall_put bounded.plans drawn }
  | saveStep s => exact { bounded with steps := Table.forall_put bounded.steps drawn }
  | updateStep s =>
      simp only [handle]
      split
      · exact { bounded with steps := Table.forall_put bounded.steps drawn }
      · exact bounded
  | saveStepResult r => exact { bounded with results := Table.forall_put bounded.results drawn }
  | saveActionProposal p =>
      exact { bounded with proposals := Table.forall_put bounded.proposals drawn }
  | savePolicyEvaluation e =>
      exact { bounded with evaluations := Table.forall_put bounded.evaluations drawn }
  | saveApproval a => exact { bounded with approvals := Table.forall_put bounded.approvals drawn }
  | uuid4 => exact bounded.mono (Nat.le_succ _)
  | _ => exact { bounded with }

theorem bounded_execution (bounded : Bounded w) (stored : w.execution id = some row) :
    id.n < w.fresh := by
  obtain ⟨member, rfl⟩ := Table.get_eq_some.mp stored
  exact bounded.executions row member

/-- A lawful call has drawn its identifiers. -/
theorem Lawful.drawn (lawful : Lawful passing id w op) (bounded : Bounded w) : Drawn w op := by
  cases op with
  | saveContext c => exact lawful.elim
  | saveExecution row => exact lawful.elim
  | updateExecution ex =>
      obtain ⟨row, stored, rewrite⟩ := lawful
      obtain ⟨member, _⟩ := Table.get_eq_some.mp stored
      change ex.executionId.n < w.fresh
      rw [rewrite.executionId]
      exact bounded.executions row member
  | savePlan p => exact ⟨lawful.2.1, lawful.1 ▸ lawful.2.2.1⟩
  | saveStep s => exact ⟨lawful.2.1, lawful.1 ▸ lawful.2.2.1⟩
  | updateStep s =>
      obtain ⟨_, ⟨old, now, scheduled, rfl⟩ | ⟨old, now, finished, rfl⟩⟩ := lawful
      · exact bounded.steps old (Table.get_eq_some.mp scheduled.stored).1
      · exact bounded.steps old (Table.get_eq_some.mp finished.stored).1
  | saveStepResult r =>
      obtain ⟨s, member, _, same, _⟩ := lawful
      change r.stepId.n < w.fresh
      rw [← same]
      exact (bounded.steps s member).1
  | saveActionProposal p => exact lawful
  | savePolicyEvaluation e => exact lawful
  | saveApproval a => exact lawful
  | _ => trivial

/-- The row, the plans, the steps and the results of an execution are the same. -/
structure SameOwn (j : UUID) (w t : World) : Prop where
  execution : t.execution j = w.execution j
  plans : ∀ p, p.executionId = j → (p ∈ t.repo.plans ↔ p ∈ w.repo.plans)
  steps : ∀ s, s.executionId = j → (s ∈ t.repo.steps ↔ s ∈ w.repo.steps)
  results : ∀ s ∈ w.repo.steps, s.executionId = j →
    t.repo.stepResults.get s.stepId = w.repo.stepResults.get s.stepId

theorem SameOwn.of_tables (executions : t.repo.executions = w.repo.executions)
    (plans : t.repo.plans = w.repo.plans) (steps : t.repo.steps = w.repo.steps)
    (results : t.repo.stepResults = w.repo.stepResults) : SameOwn j w t := by
  refine ⟨?_, fun p _ => by rw [plans], fun s _ => by rw [steps], fun s _ _ => by rw [results]⟩
  simp only [World.execution, executions]

theorem SameOwn.instantiated (same : SameOwn j w t) {p : ExecutionPlan} (own : p.executionId = j)
    (instantiated : Instantiated w p) : Instantiated t p := by
  intro spec member
  obtain ⟨s, stored, mine, realizes⟩ := instantiated spec member
  exact ⟨s, (same.steps s (mine.trans own)).mpr stored, mine, realizes⟩

/-- The promise is about nothing else. -/
theorem Orderly.same (orderly : Orderly passing j w) (same : SameOwn j w t) :
    Orderly passing j t where
  single p hp q hq own own' := orderly.single p ((same.plans p own).mp hp) q
    ((same.plans q own').mp hq) own own'
  steps s hs own := by
    have stored := (same.steps s own).mp hs
    have placed := orderly.steps s stored own
    obtain ⟨p, hp, owner, rest⟩ := placed.plan
    refine ⟨⟨p, (same.plans p (owner.trans own)).mpr hp, owner, rest⟩, placed.status,
      placed.planned, ?_⟩
    rw [same.results s stored own]
    exact placed.finished
  keys s hs u hu own own' := orderly.keys s ((same.steps s own).mp hs) u
    ((same.steps u own').mp hu) own own'
  row row stored := by
    have keyed : row.executionId = j := (Table.get_eq_some.mp stored).2
    have ordered := orderly.row row (same.execution ▸ stored)
    refine ⟨fun created => ⟨(ordered.created created).1, fun p hp own => ?_⟩, ordered.planning,
      ordered.planned, fun planId current => ?_, fun done s hs own => ?_⟩
    · exact (ordered.created created).2 p ((same.plans p (own.trans keyed)).mp hp) own
    · obtain ⟨p, hp, own, ident, instantiated⟩ := ordered.current planId current
      exact ⟨p, (same.plans p (own.trans keyed)).mpr hp, own, ident,
        same.instantiated (own.trans keyed) instantiated⟩
    · exact ordered.done done s ((same.steps s (own.trans keyed)).mp hs) own

/-- Calls that write neither rows, plans, steps nor results. -/
def Op.offDuty : Op → Bool
  | .saveExecution _ | .updateExecution _ | .savePlan _ | .saveStep _ | .updateStep _
  | .saveStepResult _ => false
  | _ => true

theorem handle_offDuty (off : op.offDuty = true) : SameOwn j w (handle env w op).2 := by
  cases op with
  | saveExecution _ | updateExecution _ | savePlan _ | saveStep _ | updateStep _
  | saveStepResult _ =>
      exact absurd off (by simp [Op.offDuty])
  | _ => exact SameOwn.of_tables rfl rfl rfl rfl

/-- A row of `id` that is put in place of a row of `id` or of none is no row of another
execution. -/
theorem mem_put_other {α : Type} [Keyed UUID α] {table : Table UUID α} (owner : α → UUID) {r x : α}
    (mine : owner r = id) (own : ∀ y ∈ table, key y = key r → owner y = id) (other : owner x ≠ id) :
    x ∈ table.put r ↔ x ∈ table := by
  rw [Table.mem_put]
  constructor
  · rintro (rfl | ⟨old, _⟩)
    · exact absurd mine other
    · exact old
  · intro old
    exact .inr ⟨old, fun keyed => other (own x old keyed)⟩

/-- The step that is written over a stored one is that step with another status. -/
theorem Lawful.updated {s : Step} (lawful : Lawful passing id w (.updateStep s)) :
    s.executionId = id ∧ ∃ old, w.repo.steps.get s.stepId = some old ∧ old.executionId = id := by
  obtain ⟨own, ⟨old, now, scheduled, rfl⟩ | ⟨old, now, finished, rfl⟩⟩ := lawful
  · exact ⟨own, old, scheduled.stored, own⟩
  · exact ⟨own, old, finished.stored, own⟩

/-- A lawful call for `id` leaves alone what belongs to another execution. -/
theorem Lawful.elsewhere (lawful : Lawful passing id w op) (other : j ≠ id) : SameOwn j w
    (handle env w op).2 := by
  cases op with
  | saveContext c => exact lawful.elim
  | saveExecution row => exact lawful.elim
  | updateExecution ex =>
      obtain ⟨row, stored, rewrite⟩ := lawful
      have keyed : row.executionId = id := (Table.get_eq_some.mp stored).2
      simp only [handle]
      split
      · refine ⟨Table.get_put_of_ne ?_, fun p _ => Iff.rfl, fun s _ => Iff.rfl, fun s _ _ => rfl⟩
        exact fun same => other (same.trans (rewrite.executionId.trans keyed))
      · exact .of_tables rfl rfl rfl rfl
  | savePlan p =>
      obtain ⟨own, _, _, _, unused⟩ := lawful
      refine ⟨rfl, fun q mine => ?_, fun s _ => Iff.rfl, fun s _ _ => rfl⟩
      exact mem_put_other ExecutionPlan.executionId own (fun y member same => absurd same
        (unused y member).2) (mine ▸ other)
  | saveStep s =>
      obtain ⟨own, _, _, _, _, _, _, unused⟩ := lawful
      refine ⟨rfl, fun p _ => Iff.rfl, fun u mine => ?_, fun s _ _ => rfl⟩
      exact mem_put_other Step.executionId own (fun y member same => absurd same
        (unused y member).1) (mine ▸ other)
  | updateStep s =>
      obtain ⟨own, old, stored, mine⟩ := lawful.updated
      simp only [handle, stored, Option.isSome_some, if_true]
      refine ⟨rfl, fun p _ => Iff.rfl, fun u owned => ?_, fun s _ _ => rfl⟩
      refine mem_put_other Step.executionId own (fun y member same => ?_) (owned ▸ other)
      obtain ⟨member', keyed⟩ := Table.get_eq_some.mp stored
      exact (Table.eq_of_key member member' (same.trans keyed.symm)) ▸ mine
  | saveStepResult r =>
      obtain ⟨s, member, own, same, _⟩ := lawful
      refine ⟨rfl, fun p _ => Iff.rfl, fun u _ => Iff.rfl, fun u stored mine => ?_⟩
      refine Table.get_put_of_ne fun keyed => other ?_
      rw [← mine, ← own, Table.eq_of_key stored member (keyed.trans same.symm)]
  | _ => exact handle_offDuty rfl

theorem Placed.carry {s : Step} (placed : Placed passing w s) (plans : t.repo.plans = w.repo.plans)
    (results : t.repo.stepResults = w.repo.stepResults) : Placed passing t s :=
  ⟨plans ▸ placed.plan, placed.status, placed.planned, results ▸ placed.finished⟩

theorem RowOrderly.carry (ordered : RowOrderly w row) (plans : t.repo.plans = w.repo.plans)
    (steps : t.repo.steps = w.repo.steps) : RowOrderly t row := by
  refine ⟨plans ▸ ordered.created, ordered.planning, ordered.planned, ?_, steps ▸ ordered.done⟩
  unfold Instantiated
  rw [plans, steps]
  exact ordered.current

theorem RowOrderly.of_planning (planning : row.status = .planning)
    (unset : row.currentPlanId = none) :
    RowOrderly w row where
  created no := by simp [planning] at no
  planning _ := unset
  planned no := by simp [planning] at no
  current _ no := by simp [unset] at no
  done no := by simp [planning] at no

/-- The stored row of the planning phase. -/
theorem Orderly.planning_row (orderly : Orderly passing id w) (planning : Planning id w)
    (same : t.execution id = w.execution id) (stored : t.execution id = some row) :
    RowOrderly t row := by
  obtain ⟨old, known, status⟩ := planning
  obtain rfl := Option.some.inj (stored.symm.trans (same.trans known))
  exact .of_planning status ((orderly.row row known).planning status)

theorem Rewrite.orderly (rewrite : Rewrite w row ex) (ordered : RowOrderly w row) :
    RowOrderly w ex where
  created created := by
    have before : row.status = .created := by
      rcases rewrite.status with same | moved
      · exact same ▸ created
      · rw [created] at moved
        exact absurd moved (by cases row.status <;> decide)
    have kept := rewrite.kept.resolve_right fun moved => by simp [created] at moved
    rw [kept, rewrite.executionId]
    exact ordered.created before
  planning planning := by
    have kept := rewrite.kept.resolve_right fun moved => by simp [planning] at moved
    rw [kept]
    rcases rewrite.status with same | moved
    · exact ordered.planning (same ▸ planning)
    · rw [planning] at moved
      exact (ordered.created (by revert moved; cases row.status <;> decide)).1
  planned planned := by
    rcases rewrite.kept with kept | ⟨_, _, p, _, _, current, _⟩
    · rcases rewrite.status with same | moved
      · exact kept ▸ ordered.planned (same ▸ planned)
      · by_cases entering : row.status = .planning
        · have executing : ex.status = .executing := by
            rw [entering] at moved
            revert moved planned
            cases ex.status <;> decide
          exact rewrite.entered executing entering
        · refine kept ▸ ordered.planned ?_
          revert moved planned entering
          cases row.status <;> cases ex.status <;> decide
    · simp [current]
  current planId current := by
    rw [rewrite.executionId]
    rcases rewrite.kept with kept | ⟨_, _, p, stored, own, set, instantiated⟩
    · exact ordered.current planId (kept ▸ current)
    · exact ⟨p, stored, own, Option.some.inj (set.symm.trans current), instantiated⟩
  done done := by
    rw [rewrite.executionId]
    rcases rewrite.done done with same | awaiting | all
    · exact ordered.done (same ▸ done)
    · exact ordered.done (.inl awaiting)
    · exact all

theorem orderly_update (orderly : Orderly passing id w) (stored : w.execution id = some row)
    (rewrite : Rewrite w row ex) : Orderly passing id
      { w with repo.executions := w.repo.executions.put ex } := by
  refine ⟨orderly.single, fun s hs own => (orderly.steps s hs own).carry rfl rfl, orderly.keys,
    fun last known => ?_⟩
  have keyed : row.executionId = id := (Table.get_eq_some.mp stored).2
  have written : (w.repo.executions.put ex).get id = some ex := by
    rw [← keyed, ← rewrite.executionId]
    exact Table.get_put_self
  obtain rfl := Option.some.inj (written.symm.trans known)
  exact (rewrite.orderly (orderly.row row stored)).carry rfl rfl

theorem orderly_savePlan {p : ExecutionPlan} (orderly : Orderly passing id w)
    (planning : Planning id w) (first : ∀ q ∈ w.repo.plans, q.executionId ≠ id) :
    Orderly passing id { w with repo.plans := w.repo.plans.put p } := by
  have unstarted : ∀ s ∈ w.repo.steps, s.executionId ≠ id := fun s member own => by
    obtain ⟨q, stored, owner, _⟩ := (orderly.steps s member own).plan
    exact first q stored (owner.trans own)
  have only : ∀ q ∈ w.repo.plans.put p, q.executionId = id → q = p := fun q member own =>
    (Table.mem_put.mp member).resolve_right fun old => first q old.1 own
  exact ⟨fun q hq u hu own own' => (only q hq own).trans (only u hu own').symm,
    fun s member own => absurd own (unstarted s member), fun s hs _ _ own _ => absurd own
      (unstarted s hs),
    fun row stored => orderly.planning_row planning rfl stored⟩

theorem orderly_saveStep {s : Step} (orderly : Orderly passing id w) (planning : Planning id w)
    (placed : Placed passing w s)
    (new : ∀ t ∈ w.repo.steps, t.stepId ≠ s.stepId ∧
      (t.executionId = id → plannerKey t ≠ plannerKey s)) :
    Orderly passing id { w with repo.steps := w.repo.steps.put s } := by
  refine ⟨orderly.single, fun u member own => ?_, fun u hu v hv own own' same => ?_,
    fun row stored => orderly.planning_row planning rfl stored⟩
  · have before : Placed passing w u := by
      rcases Table.mem_put.mp member with rfl | ⟨old, _⟩
      · exact placed
      · exact orderly.steps u old own
    exact before.carry rfl rfl
  · rcases Table.mem_put.mp hu with rfl | ⟨old, _⟩
    · rcases Table.mem_put.mp hv with rfl | ⟨old', _⟩
      · rfl
      · exact absurd same.symm ((new v old').2 own')
    · rcases Table.mem_put.mp hv with rfl | ⟨old', _⟩
      · exact absurd same ((new u old).2 own)
      · exact orderly.keys u old v old' own own' same

/-- A step with another status and another time of update. -/
def Step.moved (old : Step) (status : StepStatus) (now : Time) : Step :=
  { old with status := status, updatedAt := now }

theorem orderly_updateStep {old : Step} {status : StepStatus} {now : Time}
    (orderly : Orderly passing id w) (stored : w.repo.steps.get old.stepId = some old)
    (own : old.executionId = id) (unfinished : old.status ≠ .succeeded)
    (placed : (old.moved status now).status = .running ∨
      (old.moved status now).status = .succeeded ∧
      ∃ r, w.repo.stepResults.get old.stepId = some r ∧
        (passing → isValidationStep old = true → r.Passed)) :
    Orderly passing id { w with repo.steps := w.repo.steps.put (old.moved status now) } := by
  have member : old ∈ w.repo.steps := (Table.get_eq_some.mp stored).1
  have before := orderly.steps old member own
  have others : ∀ u ∈ w.repo.steps.put (old.moved status now), u = old.moved status now ∨
      (u ∈ w.repo.steps ∧ u ≠ old) := by
    intro u hu
    rcases Table.mem_put.mp hu with new | ⟨kept, apart⟩
    · exact .inl new
    · refine .inr ⟨kept, fun same => apart ?_⟩
      rw [same]
      rfl
  refine ⟨orderly.single, fun u hu mine => ?_, fun u hu v hv mine mine' same => ?_,
    fun row known => ?_⟩
  · rcases others u hu with rfl | ⟨kept, _⟩
    · obtain ⟨p, hp, owner, ident, spec, hs, realizes⟩ := before.plan
      refine ⟨⟨p, hp, owner, ident, spec, hs, realizes.key, realizes.kind⟩, ?_, before.planned,
        fun done => ?_⟩
      · rcases placed with running | ⟨succeeded, _⟩
        · exact .inr (.inl running)
        · exact .inr (.inr succeeded)
      · rcases placed with running | ⟨_, result⟩
        · rw [running] at done
          cases done
        · exact result
    · exact (orderly.steps u kept mine).carry rfl rfl
  · rcases others u hu with rfl | ⟨kept, apart⟩
    · rcases others v hv with rfl | ⟨kept', apart'⟩
      · rfl
      · exact absurd (orderly.keys old member v kept' own mine' same).symm apart'
    · rcases others v hv with rfl | ⟨kept', apart'⟩
      · exact absurd (orderly.keys u kept old member mine own same) apart
      · exact orderly.keys u kept v kept' mine mine' same
  · have keyed : row.executionId = id := (Table.get_eq_some.mp known).2
    have ordered := orderly.row row known
    refine ⟨ordered.created, ordered.planning, ordered.planned, fun planId current => ?_,
      fun done => ?_⟩
    · obtain ⟨p, hp, owner, ident, instantiated⟩ := ordered.current planId current
      refine ⟨p, hp, owner, ident, fun spec hs => ?_⟩
      obtain ⟨u, hu, mine, realizes⟩ := instantiated spec hs
      by_cases same : u = old
      · subst same
        exact ⟨u.moved status now, Table.mem_put.mpr (.inl rfl), mine, realizes.key, realizes.kind⟩
      · refine ⟨u, Table.mem_put.mpr (.inr ⟨hu, fun eq => same ?_⟩), mine, realizes⟩
        exact Table.eq_of_key hu member eq
    · exact absurd (ordered.done done old member (own.trans keyed.symm)) unfinished

theorem orderly_saveStepResult {r : StepResult} {s : Step} (orderly : Orderly passing id w)
    (member : s ∈ w.repo.steps) (same : s.stepId = r.stepId) (running : s.status = .running) :
    Orderly passing id { w with repo.stepResults := w.repo.stepResults.put r } := by
  refine ⟨orderly.single, fun u hu own => ?_, orderly.keys, fun row known => ?_⟩
  · have placed := orderly.steps u hu own
    refine ⟨placed.plan, placed.status, placed.planned, fun done => ?_⟩
    have apart : u.stepId ≠ r.stepId := fun eq => by
      rw [Table.eq_of_key hu member (eq.trans same.symm), running] at done
      cases done
    change ∃ x, (w.repo.stepResults.put r).get u.stepId = some x ∧ _
    rw [Table.get_put_of_ne apart]
    exact placed.finished done
  · exact (orderly.row row known).carry rfl rfl

/-- A lawful call for `id` keeps what belongs to any execution in order. -/
theorem Lawful.orderly (lawful : Lawful passing id w op) (orderly : Orderly passing j w) :
    Orderly passing j (handle env w op).2 := by
  by_cases other : j = id
  · subst other
    cases op with
    | saveContext c => exact lawful.elim
    | saveExecution row => exact lawful.elim
    | updateExecution ex =>
        obtain ⟨row, stored, rewrite⟩ := lawful
        simp only [handle]
        split
        · exact orderly_update orderly stored rewrite
        · exact orderly
    | savePlan p =>
        obtain ⟨_, _, _, planning, unused⟩ := lawful
        exact orderly_savePlan orderly planning fun q member => (unused q member).1
    | saveStep s =>
        obtain ⟨_, _, _, planning, _, placed, _, new⟩ := lawful
        exact orderly_saveStep orderly planning placed new
    | updateStep s =>
        obtain ⟨own, ⟨old, now, scheduled, rfl⟩ | ⟨old, now, finished, rfl⟩⟩ := lawful
        · have stored : w.repo.steps.get old.stepId = some old := scheduled.stored
          simp only [handle, stored, Option.isSome_some, if_true]
          exact orderly_updateStep orderly stored own (by simp [scheduled.pending]) (.inl rfl)
        · have stored : w.repo.steps.get old.stepId = some old := finished.stored
          simp only [handle, stored, Option.isSome_some, if_true]
          exact orderly_updateStep orderly stored own (by simp [finished.running])
            (.inr ⟨rfl, finished.result⟩)
    | saveStepResult r =>
        obtain ⟨s, member, _, same, running⟩ := lawful
        exact orderly_saveStepResult orderly member same running
    | _ => exact orderly.same (handle_offDuty rfl)
  · exact orderly.same (lawful.elsewhere other)

/-- A new execution starts in order: nothing belongs to it yet. -/
theorem orderly_created (plans : ∀ p ∈ w.repo.plans, p.executionId ≠ id)
    (steps : ∀ s ∈ w.repo.steps, s.executionId ≠ id) (stored : w.execution id = some row)
    (created : row.status = .created) (unplanned : row.currentPlanId = none) :
    Orderly passing id w := by
  refine ⟨fun p hp q _ own => absurd own (plans p hp), fun s hs own => absurd own (steps s hs),
    fun s hs t _ own => absurd own (steps s hs), fun other found => ?_⟩
  obtain rfl := Option.some.inj (stored.symm.trans found)
  have keyed : row.executionId = id := (Table.get_eq_some.mp stored).2
  refine ⟨fun _ => ⟨unplanned, keyed ▸ plans⟩, fun no => by simp [created] at no,
    fun no => by simp [created] at no, fun planId current => by simp [unplanned] at current,
      fun no => by simp [created] at no⟩

end
end AgenticPlatform
