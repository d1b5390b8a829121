import AgenticPlatform.Engine
import AgenticPlatform.WorkSpec

/-! Facts about the engine that every invariant uses: what the pure parts choose, and which
parts only read. -/
namespace AgenticPlatform
open Interaction ExecutionEngine

inductive ReadBlock (known : UUID → Prop) : ∀ {β : Type}, M β → (β → Prop) → Prop
  | result (stepId : UUID) : known stepId → ReadBlock known (M.getStepResult stepId) (fun _ => True)

/-- The program reads results of known steps and does nothing else. -/
abbrev ReadsOf (known : UUID → Prop) {α : Type} (p : M α) : Prop :=
  Built (ReadBlock known) (fun _ => False) p (fun _ => True)

abbrev Reads {α : Type} (p : M α) : Prop := ReadsOf (fun _ => True) p

section
variable {known : UUID → Prop} (steps : List Step) (all : ∀ s ∈ steps, known s.stepId)
include all

theorem validationSummaryFromSteps_readsOf : ReadsOf known (validationSummaryFromSteps steps) := by
  unfold validationSummaryFromSteps
  cases found : steps.find? isValidationStep with
  | none => exact .ret _ trivial
  | some s =>
      have member : s ∈ steps := List.mem_of_find?_eq_some found
      refine .bind (.block (.result s.stepId (all s member)) fun _ h => h) fun res _ => ?_
      cases res with
      | none => exact .ret _ trivial
      | some res => exact .ret _ trivial

theorem namedOutputs_readsOf : ReadsOf known (namedOutputs steps) := by
  induction steps with
  | nil => exact .ret _ trivial
  | cons s rest ih =>
      have later := ih fun x member => all x (List.mem_cons_of_mem s member)
      unfold namedOutputs
      split
      · exact .bind (.block (.result s.stepId (all s List.mem_cons_self)) fun _ h => h) fun _ _ =>
          .bind later fun _ _ => .ret _ trivial
      · exact later

theorem buildCompletionResult_readsOf (ex : Execution) : ReadsOf known
    (buildCompletionResult ex steps) :=
  .ite (fun _ => .bind (namedOutputs_readsOf steps all) fun _ _ => .ret _ trivial)
    fun _ => .ite (fun _ => .bind (namedOutputs_readsOf steps all) fun _ _ => .ret _ trivial)
      fun _ => .ret _ trivial

theorem stepOutputByName_readsOf (name : String) : ReadsOf known (stepOutputByName steps name) := by
  unfold stepOutputByName
  cases found : stepByPlannerName steps name with
  | none => exact .ret _ trivial
  | some s =>
      have member : s ∈ steps := List.mem_of_find?_eq_some found
      exact .bind (.block (.result s.stepId (all s member)) fun _ h => h) fun _ _ => .ret _ trivial

end

theorem validationSummaryFromSteps_reads (steps : List Step) : Reads
    (validationSummaryFromSteps steps) :=
  validationSummaryFromSteps_readsOf steps fun _ _ => trivial

theorem buildCompletionResult_reads (ex : Execution) (steps : List Step) :
    Reads (buildCompletionResult ex steps) :=
  buildCompletionResult_readsOf steps (fun _ _ => trivial) ex

theorem stepOutputByName_reads (steps : List Step) (name : String) : Reads
    (stepOutputByName steps name) :=
  stepOutputByName_readsOf steps (fun _ _ => trivial) name

/-- Where reading a step result changes nothing and does not fail, neither does `p`. -/
theorem Reads.wp {S : Semantics platform Exn} (ok : ∀ s id, S.ok s (.getStepResult id))
    (still : ∀ s id r t, S.step s (.getStepResult id) r t → t = s ∧ ∃ a, r = .ok a)
    {α : Type} {p : M α} (reads : Reads p) (s : S.State) :
    Interaction.wp S p (ends (· = s) (fun _ _ => False) (fun _ => True)) s := by
  refine Built.wp (M := S) (I := (· = s)) ?_ (fun _ _ impossible => impossible.elim) reads s rfl
  rintro β _ _ t ⟨stepId, _⟩ rfl
  refine wp_perform.mpr ⟨ok t stepId, fun r u step => ?_⟩
  obtain ⟨rfl, a, rfl⟩ := still t stepId r u step
  exact ⟨trivial, rfl⟩

/-- The planner only draws identifiers. -/
inductive DrawBlock : ∀ {β : Type}, M β → (β → Prop) → Prop
  | uuid4 : DrawBlock M.uuid4 (fun _ => True)

abbrev Draws {α : Type} (p : M α) (R : α → Prop) : Prop := Built DrawBlock (fun _ => False) p R

theorem draws_uuid4 : Draws M.uuid4 (fun _ => True) := .block .uuid4 fun _ h => h

theorem plannedStep_spec {workflowType key name kind agent : String}
    (validates : kind = "validation" → validatingName workflowType name) :
    PlannedSpec workflowType (plannedStep key name kind agent) := ⟨name, rfl, validates⟩

theorem planWorkflow_draws (plannerMeta : Dict) (execution : Execution)
    (planId : UUID) (ts : Time) :
    Draws (planWorkflow plannerMeta execution planId ts)
      (fun plan => Planned execution plan ∧ plan.planId = planId) := by
  refine .ite (fun incident => ?_) fun notIncident => .ite (fun cost => ?_) fun notCost => ?_
  · refine .bind draws_uuid4 fun a _ => .bind draws_uuid4 fun b _ => .bind draws_uuid4 fun c _ =>
      .ret _ ⟨sequentialPlan_planned _ _ _ _ _ ?_ (by simp [plannedStep]) (by simp), rfl⟩
    simp only [List.forall_mem_cons, List.not_mem_nil, false_imp_iff, implies_true,
      and_true, incident]
    exact ⟨plannedStep_spec (by decide), plannedStep_spec (by decide), plannedStep_spec (by decide)⟩
  · refine .bind draws_uuid4 fun a _ => .bind draws_uuid4 fun b _ => .bind draws_uuid4 fun c _ =>
      .bind draws_uuid4 fun d _ => .ret _ ⟨sequentialPlan_planned _ _ _ _ _ ?_
        (by simp [plannedStep]) (by simp), rfl⟩
    simp only [List.forall_mem_cons, List.not_mem_nil, false_imp_iff, implies_true, and_true, cost]
    exact ⟨plannedStep_spec (by decide), plannedStep_spec (by decide), plannedStep_spec (by decide),
      plannedStep_spec (by decide)⟩
  · refine .bind draws_uuid4 fun a _ => .bind draws_uuid4 fun b _ =>
      .ret _ ⟨sequentialPlan_planned _ _ _ _ _ ?_ (by simp [plannedStep]) (by simp), rfl⟩
    simp only [List.forall_mem_cons, List.not_mem_nil, false_imp_iff, implies_true, and_true]
    exact ⟨plannedStep_spec fun no => absurd no (by decide), plannedStep_spec fun _ =>
      ⟨fun incident => absurd incident notIncident, fun cost => absurd cost notCost⟩⟩

theorem keyToId_draws (specs : List StepSpec) :
    Draws (keyToId specs) (fun ids => ids.map Prod.fst = specs.map StepSpec.stepKey) := by
  induction specs with
  | nil => exact .ret _ rfl
  | cons spec rest ih =>
      exact .bind draws_uuid4 fun id _ => .bind ih fun ids keys => .ret _ (by simp [keys])

theorem idOfKey_of_mem {ids : List (String × UUID)} {key : String}
    (member : key ∈ ids.map Prod.fst) :
    ∃ id, idOfKey ids key = some id := by
  obtain ⟨⟨k, id⟩, mem, rfl⟩ := List.mem_map.mp member
  cases found : ids.reverse.find? (fun e => e.1 = k) with
  | none => exact absurd (List.find?_eq_none.mp found ⟨k, id⟩ (List.mem_reverse.mpr mem)) (by simp)
  | some e => exact ⟨e.2, by simp [idOfKey, found]⟩

theorem dependencyIds_of_mem {ids : List (String × UUID)} {edges : List PlanEdge}
    (known : ∀ edge ∈ edges, edge.fromStep ∈ ids.map Prod.fst) (key : String) :
    ∃ deps, dependencyIds ids edges key = some deps := by
  have each : ∀ es : List PlanEdge, (∀ e ∈ es, e.fromStep ∈ ids.map Prod.fst) →
      ∃ deps, es.mapM (fun e => idOfKey ids e.fromStep) = some deps := by
    intro es
    induction es with
    | nil => exact fun _ => ⟨[], rfl⟩
    | cons e rest ih =>
        intro all
        obtain ⟨id, hid⟩ := idOfKey_of_mem (all e List.mem_cons_self)
        obtain ⟨deps, hdeps⟩ := ih fun x hx => all x (List.mem_cons_of_mem e hx)
        exact ⟨id :: deps, by simp [hid, hdeps]⟩
  exact each _ fun e member => known e (List.mem_filter.mp member).1

/-- The step row is made from the specification, with the ids that the keys have been given. -/
def Made (engine : ExecutionEngine) (plan : ExecutionPlan) (execution : Execution) (now : Time)
    (ids : List (String × UUID)) (spec : StepSpec) (step : Step) : Prop :=
  ∃ id deps, idOfKey ids spec.stepKey = some id ∧ dependencyIds ids plan.dependencies
    spec.stepKey = some deps ∧
    step = engine.stepOfSpec plan execution now spec id deps

/-- With every key known, the step rows are built: one for each specification. -/
theorem buildSteps_eq (engine : ExecutionEngine) (plan : ExecutionPlan)
    (execution : Execution) (now : Time) (ids : List (String × UUID)) (specs : List StepSpec)
    (keys : ∀ spec ∈ specs, spec.stepKey ∈ ids.map Prod.fst)
    (edges : ∀ edge ∈ plan.dependencies, edge.fromStep ∈ ids.map Prod.fst) :
    ∃ steps, engine.buildSteps plan execution now ids specs = .ret steps ∧
      List.Forall₂ (Made engine plan execution now ids) specs steps := by
  induction specs with
  | nil => exact ⟨[], rfl, .nil⟩
  | cons spec rest ih =>
      obtain ⟨id, hid⟩ := idOfKey_of_mem (keys spec List.mem_cons_self)
      obtain ⟨deps, hdeps⟩ := dependencyIds_of_mem edges spec.stepKey
      obtain ⟨steps, built, related⟩ := ih fun x hx => keys x (List.mem_cons_of_mem spec hx)
      refine ⟨engine.stepOfSpec plan execution now spec id deps :: steps, ?_,
        .cons ⟨id, deps, hid, hdeps, rfl⟩ related⟩
      simp only [buildSteps, hid, hdeps, built]
      rfl

/-- The step rows of a plan of the planner. -/
theorem buildSteps_planned (engine : ExecutionEngine) {plan : ExecutionPlan} {execution : Execution}
    (planned : Planned execution plan) (now : Time) {ids : List (String × UUID)}
    (keys : ids.map Prod.fst = plan.steps.map StepSpec.stepKey) :
    ∃ steps, engine.buildSteps plan execution now ids plan.steps = .ret steps ∧
      List.Forall₂ (Made engine plan execution now ids) plan.steps steps := by
  refine buildSteps_eq engine plan execution now ids plan.steps ?_ ?_
  · exact fun spec member => keys ▸ List.mem_map_of_mem member
  · intro edge member
    obtain ⟨spec, hs, same⟩ := planned.edges edge member
    exact keys ▸ same ▸ List.mem_map_of_mem hs

/-- Entering the validation phase never fails: the row is unchanged or moves from EXECUTING. -/
theorem maybeEnterValidating_eq (ex : Execution) (steps : List Step) (now : Time) :
    ∃ next, maybeEnterValidating ex steps now = .ret next ∧
      (next = ex ∨ (ex.status = .executing ∧ next = enterStatus ex .validating [] now)) := by
  unfold maybeEnterValidating
  by_cases phase : startsValidating ex steps = true
  · have executing : ex.status = .executing := by
      simp only [startsValidating, Bool.and_eq_true, decide_eq_true_eq] at phase
      exact phase.1.1.1.1
    rw [if_pos phase]
    exact ⟨_, rfl, .inr ⟨executing, rfl⟩⟩
  · rw [if_neg phase]
    exact ⟨ex, rfl, .inl rfl⟩

theorem nextPendingReady_mem {steps : List Step} {plan : ExecutionPlan} {next : Step}
    (chosen : nextPendingReady (stepsInPlanOrder steps plan) steps = some next) :
    next ∈ steps ∧ next.status = .pending := by
  have member := List.mem_of_find?_eq_some chosen
  have ready := List.find?_some chosen
  simp only [decide_eq_true_eq] at ready
  obtain ⟨spec, _, found⟩ := List.mem_filterMap.mp member
  exact ⟨List.mem_reverse.mp (List.mem_of_find?_eq_some found), ready.1⟩

/-- The rows that governance may write; only a denial fails the execution. -/
theorem applyPolicyDecision_eq (ex : Execution) (proposal : ActionProposal) (evaluationId : UUID)
    (decision : PolicyDecision) (validationSummary baseResult : Dict) (now : Time) :
    ∃ proposalDone status result events,
      applyPolicyDecision ex proposal evaluationId decision validationSummary baseResult now =
        (M.saveActionProposal proposalDone >>= fun _ =>
          .ret (concludeExecution ex status validationSummary result events now)) ∧
      ((status = .failed ∧ decision = .deny) ∨ status = .completed ∨ status = .awaitingApproval) ∧
      (∀ event ∈ events, event.Working) ∧
      proposalDone.proposalId = proposal.proposalId ∧ proposalDone.executionId =
        proposal.executionId := by
  cases decision with
  | deny => exact ⟨_, .failed, _, _, rfl, .inl ⟨rfl, rfl⟩, working_one (by decide) rfl, rfl, rfl⟩
  | allow =>
      exact ⟨_, .completed, _, _, rfl, .inr (.inl rfl), working_one (by decide) rfl, rfl, rfl⟩
  | conditional =>
      exact ⟨_, .awaitingApproval, _, _, rfl, .inr (.inr rfl), working_one (by decide)
        rfl, rfl, rfl⟩

/-- The row that an approval writes. -/
theorem applyApprovalDecision_eq (ex : Execution) (proposal : ActionProposal)
    (decision : ApprovalDecision) (validationSummary baseResult : Dict) (ts : Time) :
    ∃ proposalDone status result events,
      applyApprovalDecision ex proposal decision validationSummary baseResult ts =
        (M.saveActionProposal proposalDone >>= fun _ =>
          M.updateExecution (concludeExecution ex status validationSummary result events ts) >>=
            fun _ =>
            .ret (concludeExecution ex status validationSummary result events ts)) ∧
      (status = .failed ∨ status = .completed) ∧ (∀ event ∈ events, event.Working) ∧
      proposalDone.proposalId = proposal.proposalId ∧ proposalDone.executionId =
        proposal.executionId := by
  unfold applyApprovalDecision
  by_cases reject : decision = .reject
  · simp only [reject, if_true]
    exact ⟨_, .failed, _, _, rfl, .inl rfl, working_one (by decide) rfl, rfl, rfl⟩
  · simp only [reject, if_false]
    exact ⟨_, .completed, _, _, rfl, .inr rfl, working_one (by decide) rfl, rfl, rfl⟩

end AgenticPlatform
