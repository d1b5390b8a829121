import AgenticPlatform.Gateway

/-! The mapping between the shared schemas and the database rows. A row holds enumerations
as text, the items of a plan as JSON objects and counters as signed integers; reading it back
runs the checks of the schema. -/
namespace AgenticPlatform

/-- A string enumeration: its members, of which no two have the same value. -/
class StrEnum (α : Type) where
  name : String
  members : List α
  value : α → String
  complete : ∀ member, member ∈ members
  distinct : (members.map value).Nodup

/-- `E(s)`: the member with that value. -/
def ofValue {α : Type} [StrEnum α] (s : String) : Except Exn α :=
  match (StrEnum.members (α := α)).find? fun member => StrEnum.value member = s with
  | some member => .ok member
  | none => .error ⟨.valueError, "'" ++ s ++ "' is not a valid " ++ StrEnum.name α⟩

@[simp] theorem ofValue_value {α : Type} [StrEnum α] (member : α) :
    ofValue (StrEnum.value member) = .ok member := by
  unfold ofValue
  split
  · next found hit =>
      have same : StrEnum.value found = StrEnum.value member := by simpa using List.find?_some hit
      rw [List.inj_on_of_nodup_map StrEnum.distinct (StrEnum.complete found)
        (StrEnum.complete member) same]
  · next missed =>
      exact absurd (List.find?_eq_none.mp missed member (StrEnum.complete member)) (by simp)

def StepCompleteness.value : StepCompleteness → String
  | full => "full"
  | partialResult => "partial"
  | degraded => "degraded"

def ActionProposalStatus.value : ActionProposalStatus → String
  | proposed => "proposed"
  | policyDenied => "policy_denied"
  | awaitingApproval => "awaiting_approval"
  | approved => "approved"
  | rejected => "rejected"
  | executed => "executed"
  | failed => "failed"

def ToolSideEffectClass.value : ToolSideEffectClass → String
  | readOnly => "read_only"
  | stateChanging => "state_changing"

def ToolIdempotency.value : ToolIdempotency → String
  | idempotent => "idempotent"
  | nonIdempotent => "non_idempotent"

instance : StrEnum ExecutionStatus where
  name := "ExecutionStatus"
  members := [.created, .planning, .executing, .validating, .awaitingApproval, .completed,
    .failed, .cancelled]
  value := ExecutionStatus.value
  complete := by intro member; cases member <;> decide
  distinct := by decide

instance : StrEnum StepStatus where
  name := "StepStatus"
  members := [.pending, .running, .succeeded, .failed, .skipped, .cancelled]
  value := StepStatus.value
  complete := by intro member; cases member <;> decide
  distinct := by decide

instance : StrEnum StepType where
  name := "StepType"
  members := [.retrieval, .tool, .reasoning, .validation, .action]
  value := StepType.value
  complete := by intro member; cases member <;> decide
  distinct := by decide

instance : StrEnum StepCompleteness where
  name := "StepCompleteness"
  members := [.full, .partialResult, .degraded]
  value := StepCompleteness.value
  complete := by intro member; cases member <;> decide
  distinct := by decide

instance : StrEnum RiskLevel where
  name := "RiskLevel"
  members := [.low, .medium, .high]
  value := RiskLevel.value
  complete := by intro member; cases member <;> decide
  distinct := by decide

instance : StrEnum ActionProposalStatus where
  name := "ActionProposalStatus"
  members := [.proposed, .policyDenied, .awaitingApproval, .approved, .rejected, .executed, .failed]
  value := ActionProposalStatus.value
  complete := by intro member; cases member <;> decide
  distinct := by decide

instance : StrEnum PolicyDecision where
  name := "PolicyDecision"
  members := [.allow, .deny, .conditional]
  value := PolicyDecision.value
  complete := by intro member; cases member <;> decide
  distinct := by decide

instance : StrEnum ApprovalDecision where
  name := "ApprovalDecision"
  members := [.approve, .reject, .defer]
  value := ApprovalDecision.value
  complete := by intro member; cases member <;> decide
  distinct := by decide

instance : StrEnum ToolSideEffectClass where
  name := "ToolSideEffectClass"
  members := [.readOnly, .stateChanging]
  value := ToolSideEffectClass.value
  complete := by intro member; cases member <;> decide
  distinct := by decide

instance : StrEnum ToolIdempotency where
  name := "ToolIdempotency"
  members := [.idempotent, .nonIdempotent]
  value := ToolIdempotency.value
  complete := by intro member; cases member <;> decide
  distinct := by decide

instance : StrEnum ToolCallStatus where
  name := "ToolCallStatus"
  members := [.success, .failure, .timeout, .rejectedByPolicy]
  value := ToolCallStatus.value
  complete := by intro member; cases member <;> decide
  distinct := by decide

/-- `xs or []` and `d or {}`. -/
def orEmpty {α : Type} (xs : List α) : List α := if xs.isEmpty then [] else xs

@[simp] theorem orEmpty_eq {α : Type} (xs : List α) : orEmpty xs = xs := by
  cases xs with
  | nil => rfl
  | cons x rest => rfl

/-- `Field(ge=bound)` of an integer. -/
def checkGe (bound : Nat) (n : Int) : Except Exn Nat :=
  if (bound : Int) ≤ n then .ok n.toNat
  else .error ⟨.validationError, "Input should be greater than or equal to " ++ toString bound⟩

@[simp] theorem checkGe_of_le {bound n : Nat} (enough : bound ≤ n) : checkGe bound n = .ok n := by
  have above : (bound : Int) ≤ n := by omega
  simp [checkGe, above]

/-- `Field(ge=0.0, le=1.0)`. -/
def checkUnit (q : Rat) : Except Exn Confidence :=
  if fits : 0 ≤ q ∧ q ≤ 1 then .ok ⟨q, fits⟩
  else .error ⟨.validationError, "Input should be between 0 and 1"⟩

/-- A check of an optional field. -/
def optionally {α β : Type} (check : α → Except Exn β) : Option α → Except Exn (Option β)
  | none => .ok none
  | some a => (check a).map some

/-- A field that every present value passes comes back as it was. -/
theorem optionally_eq {α β : Type} {check : α → Except Exn β} {store : β → α} {field : Option β}
    (passes : ∀ b ∈ field, check (store b) = .ok b) : optionally check
      (field.map store) = .ok field := by
  cases field with
  | none => rfl
  | some b =>
      have passed := passes b rfl
      simp [optionally, passed, Except.map]

structure ExecutionContextRow where
  contextId : UUID
  tenantId : String
  principalId : Option String
  actor : Option String
  requestId : String
  environment : String
  permissionsScope : Dict
  policyScope : String
  featureFlags : Option Dict
  createdAt : Time
  updatedAt : Time

/-- There is no column for the execution mode. -/
structure ExecutionRow where
  executionId : UUID
  workflowType : String
  status : String
  executionContextId : UUID
  parentExecutionId : Option UUID
  currentPlanId : Option UUID
  input : Dict
  result : Option Dict
  traceTimeline : List Dict
  validationSummary : Option Dict
  createdAt : Time
  updatedAt : Time
  completedAt : Option Time
  cancelledAt : Option Time

structure ExecutionPlanRow where
  planId : UUID
  executionId : UUID
  parentPlanId : Option UUID
  planVersion : Int
  revisionReason : Option String
  goal : Dict
  steps : List Dict
  dependencies : List Dict
  ordering : Dict
  metadata : Dict
  createdAt : Time

structure ExecutionStepRow where
  stepId : UUID
  executionId : UUID
  planId : UUID
  type : String
  agent : String
  input : Dict
  status : String
  dependencies : List Json
  retryCount : Int
  degradedAllowed : Bool
  createdAt : Time
  updatedAt : Time

structure ToolCallRow where
  toolCallId : UUID
  executionId : UUID
  stepId : UUID
  executionContextId : UUID
  actionProposalId : Option UUID
  toolName : String
  sideEffectClass : String
  idempotency : String
  input : Dict
  output : Option Dict
  status : String
  latencyMs : Option Int
  error : Option Dict
  createdAt : Time
  updatedAt : Time

structure StepResultRow where
  stepResultId : UUID
  stepId : UUID
  output : Option Dict
  evidence : List Dict
  errors : List Dict
  latencyMs : Option Int
  latencyStartedAt : Option Time
  latencyEndedAt : Option Time
  confidenceScore : Option Rat
  confidenceDetail : Option Dict
  completeness : Option String
  validationOutcome : Option Dict
  createdAt : Time
  updatedAt : Time

structure ActionProposalRow where
  proposalId : UUID
  executionId : UUID
  stepId : Option UUID
  actionType : String
  payload : Dict
  riskLevel : String
  requiresApproval : Bool
  status : String
  createdAt : Time
  updatedAt : Time

structure PolicyEvaluationRow where
  evaluationId : UUID
  executionId : UUID
  executionContextId : UUID
  decision : String
  reason : String
  evaluatedRules : List Dict
  subjectRef : Dict
  createdAt : Time
  updatedAt : Time

structure ApprovalRow where
  approvalId : UUID
  executionId : UUID
  policyEvaluationId : Option UUID
  actionProposalId : Option UUID
  approver : String
  decision : String
  notes : Option String
  decidedAt : Time
  createdAt : Time
  updatedAt : Time

def contextToRow (ctx : ExecutionContext) : ExecutionContextRow where
  contextId := ctx.contextId
  tenantId := ctx.tenantId
  principalId := ctx.principalId
  actor := ctx.actor
  requestId := ctx.requestId
  environment := ctx.environment
  permissionsScope := ctx.permissionsScope
  policyScope := ctx.policyScope
  featureFlags := ctx.featureFlags
  createdAt := ctx.createdAt
  updatedAt := ctx.updatedAt

def rowToContext (row : ExecutionContextRow) : ExecutionContext where
  contextId := row.contextId
  tenantId := row.tenantId
  principalId := row.principalId
  actor := row.actor
  requestId := row.requestId
  environment := row.environment
  permissionsScope := orEmpty row.permissionsScope
  policyScope := row.policyScope
  featureFlags := row.featureFlags
  createdAt := row.createdAt
  updatedAt := row.updatedAt

theorem rowToContext_contextToRow (ctx : ExecutionContext) : rowToContext
    (contextToRow ctx) = ctx := by
  simp [rowToContext, contextToRow]

def executionToRow (execution : Execution) : ExecutionRow where
  executionId := execution.executionId
  workflowType := execution.workflowType
  status := StrEnum.value execution.status
  executionContextId := execution.executionContextId
  parentExecutionId := execution.parentExecutionId
  currentPlanId := execution.currentPlanId
  input := persistExecutionInput execution
  result := execution.result
  traceTimeline := execution.traceTimeline
  validationSummary := execution.validationSummary
  createdAt := execution.createdAt
  updatedAt := execution.updatedAt
  completedAt := execution.completedAt
  cancelledAt := execution.cancelledAt

def rowToExecution (text : Rendering) (row : ExecutionRow) : Except Exn Execution := do
  let (inputClean, mode) := restoreExecutionInputAndMode text (orEmpty row.input)
  let status ← ofValue row.status
  pure
    { executionId := row.executionId
      workflowType := row.workflowType
      status := status
      executionMode := mode
      executionContextId := row.executionContextId
      parentExecutionId := row.parentExecutionId
      currentPlanId := row.currentPlanId
      input := inputClean
      result := row.result
      traceTimeline := orEmpty row.traceTimeline
      validationSummary := row.validationSummary
      createdAt := row.createdAt
      updatedAt := row.updatedAt
      completedAt := row.completedAt
      cancelledAt := row.cancelledAt }

/-- The reserved key is taken out again, and everything else stays in its place. -/
theorem restore_persist (text : Rendering) (execution : Execution)
    (unused : execution.input.get? orchExecutionModeKey = none) :
    restoreExecutionInputAndMode text (persistExecutionInput execution) =
      (execution.input, execution.executionMode) := by
  have raw : (persistExecutionInput execution).get orchExecutionModeKey =
    .str execution.executionMode.value := by
    simp [persistExecutionInput, Dict.get, Dict.get?_set]
  have clean : (persistExecutionInput execution).pop orchExecutionModeKey = execution.input := by
    rw [persistExecutionInput, Dict.pop_set, Dict.pop_of_absent unused]
  simp only [restoreExecutionInputAndMode, raw, clean, Rendering.str, ExecutionMode.parse_value,
    Option.getD_some]

theorem rowToExecution_executionToRow (text : Rendering) (execution : Execution)
    (unused : execution.input.get? orchExecutionModeKey = none) :
    rowToExecution text (executionToRow execution) = .ok execution := by
  simp only [rowToExecution, executionToRow, orEmpty_eq, restore_persist text execution unused,
    ofValue_value]
  rfl

/-- A plan with its steps and dependencies as the objects that the schema has for them. -/
structure PlanRecord where
  planId : UUID
  executionId : UUID
  parentPlanId : Option UUID
  planVersion : Nat
  revisionReason : Option String
  goal : Dict
  steps : List Dict
  dependencies : List Dict
  ordering : Dict
  metadata : Dict
  createdAt : Time

/-- The bounds that the schema checks. -/
def PlanRecord.Valid (plan : PlanRecord) : Prop := 1 ≤ plan.planVersion

def planToRow (plan : PlanRecord) : ExecutionPlanRow where
  planId := plan.planId
  executionId := plan.executionId
  parentPlanId := plan.parentPlanId
  planVersion := plan.planVersion
  revisionReason := plan.revisionReason
  goal := plan.goal
  steps := plan.steps
  dependencies := plan.dependencies
  ordering := plan.ordering
  metadata := plan.metadata
  createdAt := plan.createdAt

def rowToPlan (row : ExecutionPlanRow) : Except Exn PlanRecord := do
  let planVersion ← checkGe 1 row.planVersion
  pure
    { planId := row.planId
      executionId := row.executionId
      parentPlanId := row.parentPlanId
      planVersion := planVersion
      revisionReason := row.revisionReason
      goal := orEmpty row.goal
      steps := orEmpty row.steps
      dependencies := orEmpty row.dependencies
      ordering := orEmpty row.ordering
      metadata := orEmpty row.metadata
      createdAt := row.createdAt }

theorem rowToPlan_planToRow (plan : PlanRecord) (valid : plan.Valid) :
    rowToPlan (planToRow plan) = .ok plan := by
  simp only [rowToPlan, planToRow, orEmpty_eq, checkGe_of_le valid]
  rfl

/-- The object of a planned step, which the engine reads by key. -/
def StepSpec.record (spec : StepSpec) : Dict :=
  [("step_key", .str spec.stepKey), ("step_name", .ofOption .str spec.stepName),
    ("kind", .str spec.kind), ("agent", .ofOption .str spec.agent),
      ("degraded_allowed", .bool spec.degradedAllowed)]

def PlanEdge.record (edge : PlanEdge) : Dict :=
  [("from_step", .str edge.fromStep), ("to_step", .str edge.toStep)]

def ExecutionPlan.record (plan : ExecutionPlan) : PlanRecord where
  planId := plan.planId
  executionId := plan.executionId
  parentPlanId := plan.parentPlanId
  planVersion := plan.planVersion
  revisionReason := plan.revisionReason
  goal := plan.goal
  steps := plan.steps.map StepSpec.record
  dependencies := plan.dependencies.map PlanEdge.record
  ordering := plan.ordering
  metadata := plan.metadata
  createdAt := plan.createdAt

/-- A specification as the engine reads it. -/
def StepSpec.read (spec : Dict) : Option StepSpec := do
  let stepKey ← (spec.get "step_key").str?
  let kind ← (spec.get "kind").str?
  pure ⟨stepKey, (spec.get "step_name").str?, kind, (spec.get "agent").str?,
    (spec.getOr "degraded_allowed" (.bool false)).truthy⟩

def PlanEdge.read (edge : Dict) : Option PlanEdge := do
  let fromStep ← (edge.get "from_step").str?
  let toStep ← (edge.get "to_step").str?
  pure ⟨fromStep, toStep⟩

/-- The plan of a stored record, where its objects are specifications and edges. -/
def PlanRecord.read (plan : PlanRecord) : Option ExecutionPlan := do
  let steps ← plan.steps.mapM StepSpec.read
  let dependencies ← plan.dependencies.mapM PlanEdge.read
  pure
    { planId := plan.planId
      executionId := plan.executionId
      parentPlanId := plan.parentPlanId
      planVersion := plan.planVersion
      revisionReason := plan.revisionReason
      goal := plan.goal
      steps := steps
      dependencies := dependencies
      ordering := plan.ordering
      metadata := plan.metadata
      createdAt := plan.createdAt }

@[simp] theorem Json.str?_ofOption (s : Option String) : (Json.ofOption .str s).str? = s := by
  cases s <;> rfl

@[simp] theorem Json.str?_str (s : String) : (Json.str s).str? = some s := rfl

theorem StepSpec.read_record (spec : StepSpec) : read spec.record = some spec := by
  simp [read, record, Dict.get, Dict.getOr, Json.truthy]

theorem PlanEdge.read_record (edge : PlanEdge) : read edge.record = some edge := rfl

theorem mapM_read_record {α : Type} {record : α → Dict} {read : Dict → Option α}
    (back : ∀ a, read (record a) = some a) (xs : List α) : (xs.map record).mapM read = some xs := by
  induction xs with
  | nil => rfl
  | cons x rest ih => simp [back, ih]

/-- A plan of the engine is read back from its record. -/
theorem ExecutionPlan.read_record (plan : ExecutionPlan) : plan.record.read = some plan := by
  simp only [record, PlanRecord.read, mapM_read_record StepSpec.read_record,
    mapM_read_record PlanEdge.read_record]
  rfl

/-- The engine's plans are valid records, so a stored plan is the plan that runs. -/
theorem sequentialPlan_stored (execution : Execution) (planId : UUID) (ts : Time) (metadata : Dict)
    (steps : List StepSpec) :
    (rowToPlan (planToRow (sequentialPlan execution planId ts metadata steps).record)).toOption.bind
      PlanRecord.read = some (sequentialPlan execution planId ts metadata steps) := by
  have valid : (sequentialPlan execution planId ts metadata steps).record.Valid := Nat.le_refl 1
  rw [rowToPlan_planToRow _ valid]
  exact ExecutionPlan.read_record _

def dependenciesToJson (dependencies : List UUID) : List Json :=
  dependencies.map fun d => .obj [("step_id", .str d.str)]

/-- `UUID(s)`. -/
def parseUUID (s : String) : Except Exn UUID :=
  match UUID.parse s with
  | some id => .ok id
  | none => .error ⟨.valueError, "badly formed hexadecimal UUID string"⟩

/-- Items that are no objects or name no step are left out. -/
def dependenciesFromJson (text : Rendering) : List Json → Except Exn (List UUID)
  | [] => .ok []
  | .obj item :: rest =>
      match Dict.get? item "step_id" with
      | some v => do
          let id ← parseUUID (text.str v)
          let later ← dependenciesFromJson text rest
          pure (id :: later)
      | none => dependenciesFromJson text rest
  | _ :: rest => dependenciesFromJson text rest

theorem dependenciesFromJson_toJson (text : Rendering) (dependencies : List UUID) :
    dependenciesFromJson text (dependenciesToJson dependencies) = .ok dependencies := by
  induction dependencies with
  | nil => rfl
  | cons d rest ih =>
      have head : parseUUID (text.str (.str d.str)) = .ok d := by simp [parseUUID, Rendering.str]
      have tail : dependenciesFromJson text (rest.map fun d => .obj [("step_id", .str d.str)]) =
        .ok rest := ih
      simp only [dependenciesToJson, List.map_cons, dependenciesFromJson, Dict.get?_cons,
        if_true, head, tail]
      rfl

def stepToRow (step : Step) : ExecutionStepRow where
  stepId := step.stepId
  executionId := step.executionId
  planId := step.planId
  type := step.stepType.text
  agent := step.agent
  input := step.input
  status := StrEnum.value step.status
  dependencies := dependenciesToJson step.dependencies
  retryCount := step.retryCount
  degradedAllowed := step.degradedAllowed
  createdAt := step.createdAt
  updatedAt := step.updatedAt

/-- `StepType(s)`, or the text itself where that raises. -/
def stepTypeFromStr (s : String) : StepKind :=
  match ofValue (α := StepType) s with
  | .ok type => .known type
  | .error _ => .other s

def rowToStep (text : Rendering) (row : ExecutionStepRow) : Except Exn Step := do
  let status ← ofValue row.status
  let dependencies ← dependenciesFromJson text row.dependencies
  let retryCount ← checkGe 0 row.retryCount
  pure
    { stepId := row.stepId
      executionId := row.executionId
      planId := row.planId
      stepType := stepTypeFromStr row.type
      agent := row.agent
      input := orEmpty row.input
      status := status
      dependencies := dependencies
      retryCount := retryCount
      degradedAllowed := row.degradedAllowed
      createdAt := row.createdAt
      updatedAt := row.updatedAt }

/-- The type read back has the same text, though a text that names a type becomes that type. -/
theorem stepTypeFromStr_text (kind : StepKind) : (stepTypeFromStr kind.text).text = kind.text := by
  cases kind with
  | known type =>
      have known : ofValue (StepType.value type) = .ok type := ofValue_value type
      simp [stepTypeFromStr, StepKind.text, known]
  | other s =>
      unfold stepTypeFromStr
      split
      · next type parsed =>
          unfold ofValue at parsed
          split at parsed
          · next found hit =>
              obtain rfl := Except.ok.inj parsed
              have same : StrEnum.value found = (StepKind.other s).text := by
                simpa using List.find?_some hit
              exact same
          · cases parsed
      · rfl

theorem rowToStep_stepToRow (text : Rendering) (step : Step) :
    rowToStep text (stepToRow step) = .ok
      { step with stepType := stepTypeFromStr step.stepType.text } := by
  simp only [rowToStep, stepToRow, orEmpty_eq, ofValue_value, dependenciesFromJson_toJson,
    checkGe_of_le (Nat.zero_le _)]
  rfl

/-- `ValidationOutcome.model_validate(raw)`: the status is required, and no other field is
allowed. -/
def ValidationOutcome.modelValidate (raw : Dict) : Except Exn ValidationOutcome :=
  match raw.get "status", raw.getOr "details" (.obj []) with
  | .str status, .obj details =>
      if ∀ key ∈ raw.keys, key ∈ ["status", "details"] then .ok ⟨status, details⟩
      else .error ⟨.validationError, "Extra inputs are not permitted"⟩
  | _, _ => .error ⟨.validationError, "Input should be a valid ValidationOutcome"⟩

@[simp] theorem ValidationOutcome.modelValidate_modelDump (outcome : ValidationOutcome) :
    modelValidate outcome.modelDump = .ok outcome := by
  simp [modelValidate, modelDump, Dict.get, Dict.getOr, Dict.keys]

/-- Every column of the row is assigned. -/
def applyStepResultToRow (row : StepResultRow) (result : StepResult) : StepResultRow :=
  { row with
    stepResultId := result.stepResultId
    stepId := result.stepId
    output := result.output
    evidence := result.evidence
    errors := result.errors
    latencyMs := result.latencyMs.map Nat.cast
    latencyStartedAt := result.latencyStartedAt
    latencyEndedAt := result.latencyEndedAt
    confidenceScore := result.confidenceScore.map Subtype.val
    confidenceDetail := result.confidenceDetail
    completeness := result.completeness.map StrEnum.value
    validationOutcome := result.validationOutcome.map ValidationOutcome.modelDump
    createdAt := result.createdAt
    updatedAt := result.updatedAt }

def rowToStepResult (row : StepResultRow) : Except Exn StepResult := do
  let latencyMs ← optionally (checkGe 0) row.latencyMs
  let confidenceScore ← optionally checkUnit row.confidenceScore
  let completeness ← optionally ofValue row.completeness
  let validationOutcome ← optionally ValidationOutcome.modelValidate row.validationOutcome
  pure
    { stepResultId := row.stepResultId
      stepId := row.stepId
      output := row.output
      evidence := orEmpty row.evidence
      errors := orEmpty row.errors
      latencyMs := latencyMs
      latencyStartedAt := row.latencyStartedAt
      latencyEndedAt := row.latencyEndedAt
      confidenceScore := confidenceScore
      confidenceDetail := row.confidenceDetail
      completeness := completeness
      validationOutcome := validationOutcome
      createdAt := row.createdAt
      updatedAt := row.updatedAt }

theorem latency_restored (latencyMs : Option Nat) :
    optionally (checkGe 0) (latencyMs.map Nat.cast) = .ok latencyMs :=
  optionally_eq fun _ _ => checkGe_of_le (Nat.zero_le _)

theorem rowToStepResult_apply (row : StepResultRow) (result : StepResult) :
    rowToStepResult (applyStepResultToRow row result) = .ok result := by
  have confidence : optionally checkUnit (result.confidenceScore.map Subtype.val) =
    .ok result.confidenceScore :=
    optionally_eq fun q _ => dif_pos q.2
  have completeness : optionally ofValue (result.completeness.map StrEnum.value) =
    .ok result.completeness :=
    optionally_eq fun member _ => ofValue_value member
  have outcome : optionally ValidationOutcome.modelValidate
      (result.validationOutcome.map ValidationOutcome.modelDump) = .ok result.validationOutcome :=
    optionally_eq fun outcome _ => outcome.modelValidate_modelDump
  simp only [rowToStepResult, applyStepResultToRow, orEmpty_eq, latency_restored, confidence,
    completeness, outcome]
  rfl

def proposalToRow (p : ActionProposal) : ActionProposalRow where
  proposalId := p.proposalId
  executionId := p.executionId
  stepId := p.stepId
  actionType := p.actionType
  payload := p.payload
  riskLevel := StrEnum.value p.riskLevel
  requiresApproval := p.requiresApproval
  status := StrEnum.value p.status
  createdAt := p.createdAt
  updatedAt := p.updatedAt

def rowToProposal (row : ActionProposalRow) : Except Exn ActionProposal := do
  let riskLevel ← ofValue row.riskLevel
  let status ← ofValue row.status
  pure
    { proposalId := row.proposalId
      executionId := row.executionId
      stepId := row.stepId
      actionType := row.actionType
      payload := orEmpty row.payload
      riskLevel := riskLevel
      requiresApproval := row.requiresApproval
      status := status
      createdAt := row.createdAt
      updatedAt := row.updatedAt }

theorem rowToProposal_proposalToRow (p : ActionProposal) : rowToProposal
    (proposalToRow p) = .ok p := by
  simp only [rowToProposal, proposalToRow, orEmpty_eq, ofValue_value]
  rfl

def evaluationToRow (e : PolicyEvaluation) : PolicyEvaluationRow where
  evaluationId := e.evaluationId
  executionId := e.executionId
  executionContextId := e.executionContextId
  decision := StrEnum.value e.decision
  reason := e.reason
  evaluatedRules := e.evaluatedRules
  subjectRef := e.subjectRef
  createdAt := e.createdAt
  updatedAt := e.updatedAt

def rowToEvaluation (row : PolicyEvaluationRow) : Except Exn PolicyEvaluation := do
  let decision ← ofValue row.decision
  pure
    { evaluationId := row.evaluationId
      executionId := row.executionId
      executionContextId := row.executionContextId
      decision := decision
      reason := row.reason
      evaluatedRules := orEmpty row.evaluatedRules
      subjectRef := orEmpty row.subjectRef
      createdAt := row.createdAt
      updatedAt := row.updatedAt }

theorem rowToEvaluation_evaluationToRow (e : PolicyEvaluation) :
    rowToEvaluation (evaluationToRow e) = .ok e := by
  simp only [rowToEvaluation, evaluationToRow, orEmpty_eq, ofValue_value]
  rfl

/-- `require_evaluation_or_proposal`. -/
def Approval.Valid (a : Approval) : Prop := a.policyEvaluationId ≠ none ∨ a.actionProposalId ≠ none

instance (a : Approval) : Decidable a.Valid := inferInstanceAs (Decidable (_ ∨ _))

def approvalToRow (a : Approval) : ApprovalRow where
  approvalId := a.approvalId
  executionId := a.executionId
  policyEvaluationId := a.policyEvaluationId
  actionProposalId := a.actionProposalId
  approver := a.approver
  decision := StrEnum.value a.decision
  notes := a.notes
  decidedAt := a.decidedAt
  createdAt := a.createdAt
  updatedAt := a.updatedAt

def rowToApproval (row : ApprovalRow) : Except Exn Approval := do
  let decision ← ofValue row.decision
  let a : Approval :=
    { approvalId := row.approvalId
      executionId := row.executionId
      policyEvaluationId := row.policyEvaluationId
      actionProposalId := row.actionProposalId
      approver := row.approver
      decision := decision
      notes := row.notes
      decidedAt := row.decidedAt
      createdAt := row.createdAt
      updatedAt := row.updatedAt }
  if a.Valid then pure a
  else throw ⟨.validationError, "approval requires policy_evaluation_id and/or action_proposal_id"⟩

theorem rowToApproval_approvalToRow (a : Approval) (valid : a.Valid) :
    rowToApproval (approvalToRow a) = .ok a := by
  simp only [rowToApproval, approvalToRow, ofValue_value]
  exact if_pos valid

def toolCallToRow (tc : ToolCall) : ToolCallRow where
  toolCallId := tc.toolCallId
  executionId := tc.executionId
  stepId := tc.stepId
  executionContextId := tc.executionContextId
  actionProposalId := tc.actionProposalId
  toolName := tc.toolName
  sideEffectClass := StrEnum.value tc.sideEffectClass
  idempotency := StrEnum.value tc.idempotency
  input := tc.input
  output := tc.output
  status := StrEnum.value tc.status
  latencyMs := tc.latencyMs.map Nat.cast
  error := tc.error
  createdAt := tc.createdAt
  updatedAt := tc.updatedAt

def rowToToolCall (row : ToolCallRow) : Except Exn ToolCall := do
  let sideEffectClass ← ofValue row.sideEffectClass
  let idempotency ← ofValue row.idempotency
  let status ← ofValue row.status
  let latencyMs ← optionally (checkGe 0) row.latencyMs
  pure
    { toolCallId := row.toolCallId
      executionId := row.executionId
      stepId := row.stepId
      executionContextId := row.executionContextId
      actionProposalId := row.actionProposalId
      toolName := row.toolName
      sideEffectClass := sideEffectClass
      idempotency := idempotency
      input := orEmpty row.input
      output := row.output
      status := status
      latencyMs := latencyMs
      error := row.error
      createdAt := row.createdAt
      updatedAt := row.updatedAt }

theorem rowToToolCall_toolCallToRow (tc : ToolCall) : rowToToolCall
    (toolCallToRow tc) = .ok tc := by
  simp only [rowToToolCall, toolCallToRow, orEmpty_eq, ofValue_value, latency_restored]
  rfl

/-- Every schema object that is stored and read back comes back as it was; of a step type, its
text. -/
theorem persistence_lossless (text : Rendering) :
    (∀ ctx : ExecutionContext, rowToContext (contextToRow ctx) = ctx) ∧
    (∀ execution : Execution, execution.input.get? orchExecutionModeKey = none →
      rowToExecution text (executionToRow execution) = .ok execution) ∧
    (∀ plan : PlanRecord, plan.Valid → rowToPlan (planToRow plan) = .ok plan) ∧
    (∀ step : Step, ∃ stepType, stepType.text = step.stepType.text ∧
      rowToStep text (stepToRow step) = .ok { step with stepType := stepType }) ∧
    (∀ (row : StepResultRow) (result : StepResult),
      rowToStepResult (applyStepResultToRow row result) = .ok result) ∧
    (∀ p : ActionProposal, rowToProposal (proposalToRow p) = .ok p) ∧
    (∀ e : PolicyEvaluation, rowToEvaluation (evaluationToRow e) = .ok e) ∧
    (∀ a : Approval, a.Valid → rowToApproval (approvalToRow a) = .ok a) ∧
    (∀ tc : ToolCall, rowToToolCall (toolCallToRow tc) = .ok tc) :=
  ⟨rowToContext_contextToRow, rowToExecution_executionToRow text, rowToPlan_planToRow,
    fun step => ⟨_, stepTypeFromStr_text step.stepType, rowToStep_stepToRow text step⟩,
    rowToStepResult_apply, rowToProposal_proposalToRow, rowToEvaluation_evaluationToRow,
    rowToApproval_approvalToRow, rowToToolCall_toolCallToRow⟩

/-- An execution of the service, a plan of the planner and an approval of the engine. -/
theorem persistence_lossless_generic :
    rowToExecution .flat (executionToRow (executionOf genericRequest ⟨1⟩ ⟨0⟩ 0)) =
      .ok (executionOf genericRequest ⟨1⟩ ⟨0⟩ 0) ∧
    rowToPlan (planToRow (sequentialPlan (executionOf genericRequest ⟨1⟩ ⟨0⟩ 0) ⟨2⟩ 0 []
      [plannedStep "3" "reasoning" "reasoning" "reasoning_agent_v1"]).record) =
      .ok (sequentialPlan (executionOf genericRequest ⟨1⟩ ⟨0⟩ 0) ⟨2⟩ 0 []
        [plannedStep "3" "reasoning" "reasoning" "reasoning_agent_v1"]).record ∧
    rowToApproval (approvalToRow (approvalOf ⟨1⟩ ⟨4⟩ ⟨5⟩ ⟨6⟩ "operator" .approve none 0)) =
      .ok (approvalOf ⟨1⟩ ⟨4⟩ ⟨5⟩ ⟨6⟩ "operator" .approve none 0) :=
  ⟨(persistence_lossless .flat).2.1 _ rfl, (persistence_lossless .flat).2.2.1 _ (Nat.le_refl 1),
    (persistence_lossless .flat).2.2.2.2.2.2.2.1 _ (by decide)⟩

end AgenticPlatform
