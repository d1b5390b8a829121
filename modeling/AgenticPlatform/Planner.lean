import AgenticPlatform.Repository

/-! The deterministic planner. It emits step specifications; the engine turns them
into step rows. -/
namespace AgenticPlatform

def plannedStep (key name kind agent : String) : StepSpec where
  stepKey := key
  stepName := some name
  kind := kind
  agent := some agent
  degradedAllowed := false

/-- First revision of a plan whose steps run one after another. -/
def sequentialPlan (execution : Execution) (planId : UUID) (ts : Time) (metadata : Dict)
    (steps : List StepSpec) : ExecutionPlan where
  planId := planId
  executionId := execution.executionId
  parentPlanId := none
  planVersion := 1
  revisionReason := some "initial_plan"
  goal := [("workflow_type", .str execution.workflowType),
    ("from_input_keys", .arr (execution.input.keys.map .str))]
  steps := steps
  dependencies := (steps.zip steps.tail).map fun (before, after) => ⟨before.stepKey, after.stepKey⟩
  ordering := [("sequential_groups", .arr [.arr (steps.map fun s => .str s.stepKey)])]
  metadata := metadata
  createdAt := ts

def planIncidentTriage (plannerMeta : Dict) (execution : Execution) (planId : UUID) (ts : Time) :
    M ExecutionPlan := do
  let analyzeK ← M.uuid4
  let gatherK ← M.uuid4
  let validateK ← M.uuid4
  pure (sequentialPlan execution planId ts
    (plannerMeta.set "planner" (.str "deterministic_incident_triage_v1"))
    [plannedStep analyzeK.str "analyze_incident" "reasoning" "incident_analysis_agent_v1",
      plannedStep gatherK.str "gather_evidence" "retrieval" "incident_retrieval_agent_v1",
      plannedStep validateK.str "validate_incident" "validation" "incident_validation_agent_v1"])

def planCostAttribution (plannerMeta : Dict) (execution : Execution) (planId : UUID) (ts : Time) :
    M ExecutionPlan := do
  let analyzeK ← M.uuid4
  let retrieveK ← M.uuid4
  let correlateK ← M.uuid4
  let validateK ← M.uuid4
  pure (sequentialPlan execution planId ts
    (plannerMeta.set "planner" (.str "deterministic_cost_attribution_v1"))
    [plannedStep analyzeK.str "analyze_cost_anomaly" "reasoning" "cost_analysis_agent_v1",
      plannedStep retrieveK.str "retrieve_cost_evidence" "retrieval" "cost_retrieval_agent_v1",
      plannedStep correlateK.str "correlate_usage_patterns" "tool" "cost_correlation_agent_v1",
      plannedStep validateK.str "validate_cost_attribution" "validation"
        "cost_validation_agent_v1"])

def planDefault (plannerMeta : Dict) (execution : Execution) (planId : UUID) (ts : Time) :
    M ExecutionPlan := do
  let reasoningId ← M.uuid4
  let validationId ← M.uuid4
  pure (sequentialPlan execution planId ts plannerMeta
    [plannedStep reasoningId.str "reasoning" "reasoning" "reasoning_agent_v1",
      plannedStep validationId.str "validation" "validation" "validation_agent_v1"])

def planWorkflow (plannerMeta : Dict) (execution : Execution) (planId : UUID) (ts : Time) :
    M ExecutionPlan :=
  if execution.workflowType = "incident_triage" then planIncidentTriage plannerMeta
    execution planId ts
  else if execution.workflowType = "cost_attribution" then
    planCostAttribution plannerMeta execution planId ts
  else planDefault plannerMeta execution planId ts

/-- Plan revision v1 for the workflow of the execution. -/
def createPlan (plannerMeta : Dict) (execution : Execution) (now : Time) : M ExecutionPlan := do
  let planId ← M.uuid4
  planWorkflow plannerMeta execution planId now

/-- The only specification that validates: its name fits the workflow. -/
def validatingName (workflowType name : String) : Prop :=
  (workflowType = "incident_triage" → name = "validate_incident") ∧
    (workflowType = "cost_attribution" → name = "validate_cost_attribution")

instance (workflowType name : String) : Decidable (validatingName workflowType name) :=
  inferInstanceAs (Decidable (_ ∧ _))

/-- What the engine relies on in a specification of a workflow. -/
structure PlannedSpec (workflowType : String) (spec : StepSpec) : Prop where
  named : ∃ name, spec.stepName = some name ∧
    (spec.kind = "validation" → validatingName workflowType name)

/-- A plan of the planner: of its execution, with an edge only between its own steps, and
with a validation step among its at most four. -/
structure Planned (execution : Execution) (plan : ExecutionPlan) : Prop where
  executionId : plan.executionId = execution.executionId
  specs : ∀ spec ∈ plan.steps, PlannedSpec execution.workflowType spec
  edges : ∀ edge ∈ plan.dependencies, ∃ spec ∈ plan.steps, spec.stepKey = edge.fromStep
  validates : "validation" ∈ plan.steps.map StepSpec.kind
  few : plan.steps.length ≤ 4

theorem sequentialPlan_planned (execution : Execution) (planId : UUID) (ts : Time) (metadata : Dict)
    (steps : List StepSpec) (specs : ∀ spec ∈ steps, PlannedSpec execution.workflowType spec)
    (validates : "validation" ∈ steps.map StepSpec.kind) (few : steps.length ≤ 4) :
    Planned execution (sequentialPlan execution planId ts metadata steps) := by
  refine ⟨rfl, specs, ?_, validates, few⟩
  intro edge member
  obtain ⟨⟨before, after⟩, paired, rfl⟩ := List.mem_map.mp member
  exact ⟨before, (List.of_mem_zip paired).1, rfl⟩

end AgenticPlatform
