import AgenticPlatform.Json
import AgenticPlatform.Store.Table

/-! The shared schemas: execution lifecycle, plans and steps, tool calls, governance
records, and the requests and answers exchanged with the other services. -/
namespace AgenticPlatform
open Store (Keyed)

/-- Coarse execution lifecycle; terminal states do not transition further. -/
inductive ExecutionStatus where
  | created | planning | executing | validating | awaitingApproval | completed | failed | cancelled
  deriving DecidableEq, Repr

def ExecutionStatus.value : ExecutionStatus → String
  | created => "created"
  | planning => "planning"
  | executing => "executing"
  | validating => "validating"
  | awaitingApproval => "awaiting_approval"
  | completed => "completed"
  | failed => "failed"
  | cancelled => "cancelled"

theorem ExecutionStatus.value_injective : Function.Injective ExecutionStatus.value := by
  intro a b same
  cases a <;> cases b <;> first | rfl | exact absurd same (by decide)

inductive ExecutionMode where
  | interactive | background
  deriving DecidableEq, Repr

def ExecutionMode.value : ExecutionMode → String
  | interactive => "interactive"
  | background => "background"

/-- `ExecutionMode(s)`, where it does not raise. -/
def ExecutionMode.parse (s : String) : Option ExecutionMode :=
  if s = "interactive" then some .interactive
  else if s = "background" then some .background
  else none

@[simp] theorem ExecutionMode.parse_value (m : ExecutionMode) : parse m.value = some m := by
  cases m <;> rfl

structure ExecutionContext where
  contextId : UUID
  tenantId : String
  principalId : Option String
  actor : Option String
  requestId : String
  environment : String
  permissionsScope : Dict
  policyScope : String
  featureFlags : Option Dict
  createdAt : Time
  updatedAt : Time

structure Execution where
  executionId : UUID
  workflowType : String
  status : ExecutionStatus
  executionMode : ExecutionMode
  executionContextId : UUID
  parentExecutionId : Option UUID
  currentPlanId : Option UUID
  input : Dict
  result : Option Dict
  traceTimeline : List Dict
  validationSummary : Option Dict
  createdAt : Time
  updatedAt : Time
  completedAt : Option Time
  cancelledAt : Option Time
  deriving DecidableEq

inductive ReplayMode where
  | exact | investigative
  deriving DecidableEq, Repr

def ReplayMode.value : ReplayMode → String
  | exact => "exact"
  | investigative => "investigative"

/-- Reserved `Execution.input` key for replay lineage. -/
def replayProvenanceInputKey : String := "__replay_provenance__"

structure ReplayRequest where
  sourceExecutionId : UUID
  replayMode : ReplayMode
  environmentTarget : String
  anchorPlanId : Option UUID
  overridePlan : Option Dict
  inputOverrides : Option Dict
  reason : Option String
  requestedBy : Option String
  executionMode : Option ExecutionMode
  label : Option String
  startExecution : Bool

structure ReplayProvenance where
  sourceExecutionId : UUID
  replayMode : ReplayMode
  requestedBy : Option String
  reason : Option String
  label : Option String
  inputOverrides : Dict
  anchorPlanId : Option UUID
  environmentTarget : String
  createdExecutionId : UUID
  createdAt : Time

/-- `provenance.model_dump(mode="json")`. -/
def ReplayProvenance.modelDump (p : ReplayProvenance) : Dict :=
  [("source_execution_id", .str p.sourceExecutionId.str), ("replay_mode", .str p.replayMode.value),
    ("requested_by", .ofOption .str p.requestedBy), ("reason", .ofOption .str p.reason),
    ("label", .ofOption .str p.label), ("input_overrides", .obj p.inputOverrides),
    ("anchor_plan_id", .ofOption (fun u => .str u.str) p.anchorPlanId),
    ("environment_target", .str p.environmentTarget),
    ("created_execution_id", .str p.createdExecutionId.str),
      ("created_at", .str p.createdAt.jsonText)]

structure ReplayCreatedResponse where
  replayExecutionId : UUID
  sourceExecutionId : UUID
  status : String
  replayMode : ReplayMode
  provenance : ReplayProvenance

inductive StepStatus where
  | pending | running | succeeded | failed | skipped | cancelled
  deriving DecidableEq, Repr

def StepStatus.value : StepStatus → String
  | pending => "pending"
  | running => "running"
  | succeeded => "succeeded"
  | failed => "failed"
  | skipped => "skipped"
  | cancelled => "cancelled"

inductive StepType where
  | retrieval | tool | reasoning | validation | action
  deriving DecidableEq, Repr

def StepType.value : StepType → String
  | retrieval => "retrieval"
  | tool => "tool"
  | reasoning => "reasoning"
  | validation => "validation"
  | action => "action"

/-- `StepType | str`. -/
inductive StepKind where
  | known (type : StepType)
  | other (text : String)
  deriving DecidableEq, Repr

/-- One entry of `ExecutionPlan.steps`. -/
structure StepSpec where
  stepKey : String
  stepName : Option String
  kind : String
  agent : Option String
  degradedAllowed : Bool
  deriving DecidableEq, Repr

/-- One entry of `ExecutionPlan.dependencies`. -/
structure PlanEdge where
  fromStep : String
  toStep : String
  deriving DecidableEq, Repr

structure ExecutionPlan where
  planId : UUID
  executionId : UUID
  parentPlanId : Option UUID
  planVersion : Nat
  revisionReason : Option String
  goal : Dict
  steps : List StepSpec
  dependencies : List PlanEdge
  ordering : Dict
  metadata : Dict
  createdAt : Time

structure Step where
  stepId : UUID
  executionId : UUID
  planId : UUID
  stepType : StepKind
  agent : String
  input : Dict
  status : StepStatus
  /-- The step ids of the `StepDependency` entries. -/
  dependencies : List UUID
  retryCount : Nat
  degradedAllowed : Bool
  createdAt : Time
  updatedAt : Time

inductive StepCompleteness where
  | full | partialResult | degraded
  deriving DecidableEq, Repr

structure ValidationOutcome where
  status : String
  details : Dict

def ValidationOutcome.modelDump (vo : ValidationOutcome) : Dict :=
  [("status", .str vo.status), ("details", .obj vo.details)]

/-- `Field(ge=0.0, le=1.0)`. -/
abbrev Confidence : Type := {q : Rat // 0 ≤ q ∧ q ≤ 1}

structure StepResult where
  stepResultId : UUID
  stepId : UUID
  output : Option Dict
  evidence : List Dict
  errors : List Dict
  latencyMs : Option Nat
  latencyStartedAt : Option Time
  latencyEndedAt : Option Time
  confidenceScore : Option Confidence
  confidenceDetail : Option Dict
  completeness : Option StepCompleteness
  validationOutcome : Option ValidationOutcome
  createdAt : Time
  updatedAt : Time

inductive ToolSideEffectClass where
  | readOnly | stateChanging
  deriving DecidableEq, Repr

inductive ToolIdempotency where
  | idempotent | nonIdempotent
  deriving DecidableEq, Repr

inductive ToolCallStatus where
  | success | failure | timeout | rejectedByPolicy
  deriving DecidableEq, Repr

def ToolCallStatus.value : ToolCallStatus → String
  | success => "success"
  | failure => "failure"
  | timeout => "timeout"
  | rejectedByPolicy => "rejected_by_policy"

structure ToolInvokeRequest where
  executionId : UUID
  stepId : UUID
  executionContextId : UUID
  toolName : String
  input : Dict
  actionProposalId : Option UUID
  policyDenied : Bool

structure ToolCall where
  toolCallId : UUID
  executionId : UUID
  stepId : UUID
  executionContextId : UUID
  actionProposalId : Option UUID
  toolName : String
  sideEffectClass : ToolSideEffectClass
  idempotency : ToolIdempotency
  input : Dict
  output : Option Dict
  status : ToolCallStatus
  latencyMs : Option Nat
  error : Option Dict
  createdAt : Time
  updatedAt : Time

inductive PolicyDecision where
  | allow | deny | conditional
  deriving DecidableEq, Repr

def PolicyDecision.value : PolicyDecision → String
  | allow => "allow"
  | deny => "deny"
  | conditional => "conditional"

inductive RiskLevel where
  | low | medium | high
  deriving DecidableEq, Repr

def RiskLevel.value : RiskLevel → String
  | low => "low"
  | medium => "medium"
  | high => "high"

inductive ActionProposalStatus where
  | proposed | policyDenied | awaitingApproval | approved | rejected | executed | failed
  deriving DecidableEq, Repr

structure ActionProposal where
  proposalId : UUID
  executionId : UUID
  stepId : Option UUID
  actionType : String
  payload : Dict
  riskLevel : RiskLevel
  requiresApproval : Bool
  status : ActionProposalStatus
  createdAt : Time
  updatedAt : Time

structure PolicyEvaluation where
  evaluationId : UUID
  executionId : UUID
  executionContextId : UUID
  decision : PolicyDecision
  reason : String
  evaluatedRules : List Dict
  subjectRef : Dict
  createdAt : Time
  updatedAt : Time

/-- What the policy engine returns; the orchestrator assigns ids and stores the evaluation. -/
structure PolicyEvaluationDraft where
  decision : PolicyDecision
  reason : String
  evaluatedRules : List Dict

inductive ApprovalDecision where
  | approve | reject | defer
  deriving DecidableEq, Repr

def ApprovalDecision.value : ApprovalDecision → String
  | approve => "approve"
  | reject => "reject"
  | defer => "defer"

/-- `ApprovalDecision(s)`, where it does not raise. -/
def ApprovalDecision.parse (s : String) : Option ApprovalDecision :=
  if s = "approve" then some .approve
  else if s = "reject" then some .reject
  else if s = "defer" then some .defer
  else none

@[simp] theorem ApprovalDecision.parse_value (d : ApprovalDecision) : parse d.value = some d := by
  cases d <;> rfl

structure Approval where
  approvalId : UUID
  executionId : UUID
  policyEvaluationId : Option UUID
  actionProposalId : Option UUID
  approver : String
  decision : ApprovalDecision
  notes : Option String
  decidedAt : Time
  createdAt : Time
  updatedAt : Time

structure RetrievalRequest where
  tenantId : String
  workflowType : String
  query : String
  maxResults : Nat
  filters : Dict
  corpusVersion : Option String
  correlationRequestId : Option String

structure EvidenceChunk where
  chunkId : String
  documentId : Option String
  sourceUri : String
  title : Option String
  textExcerpt : String
  score : Option Rat
  corpusVersion : Option String
  metadata : Dict

structure RetrievalResponse where
  retrievalId : UUID
  query : String
  chunks : List EvidenceChunk
  corpusVersion : String
  metadata : Dict

structure ModelInvocationTelemetry where
  latencyMs : Nat
  retryCount : Nat
  providerType : String
  modelName : String
  inputTokens : Nat
  outputTokens : Nat
  totalTokens : Nat
  timedOut : Bool

def ModelInvocationTelemetry.modelDump (t : ModelInvocationTelemetry) : Dict :=
  [("latency_ms", .int t.latencyMs), ("retry_count", .int t.retryCount),
    ("provider_type", .str t.providerType), ("model_name", .str t.modelName),
    ("input_tokens", .int t.inputTokens), ("output_tokens", .int t.outputTokens),
    ("total_tokens", .int t.totalTokens), ("timed_out", .bool t.timedOut)]

structure IncidentAnalysisModelRequest where
  executionId : UUID
  stepId : UUID
  incidentId : String
  workflowType : String
  executionInputExcerpt : Dict

structure IncidentAnalysisReasoningOutput where
  incidentSummary : String
  possibleCauses : List String
  modelInvocationId : String
  providerLabel : String
  invocation : Option ModelInvocationTelemetry
  incidentSummary_le : incidentSummary.length ≤ 4000
  possibleCauses_le : possibleCauses.length ≤ 16
  modelInvocationId_le : modelInvocationId.length ≤ 128
  providerLabel_le : providerLabel.length ≤ 64

structure IncidentValidationModelRequest where
  executionId : UUID
  stepId : UUID
  incidentId : String
  priorPossibleCauses : List String
  priorIncidentSummaryExcerpt : String
  evidenceSummaryExcerpt : String

structure IncidentValidationReasoningOutput where
  likelyCause : String
  validationStatus : String
  confidenceScore : Confidence
  rationaleShort : String
  digest : String
  modelInvocationId : String
  providerLabel : String
  invocation : Option ModelInvocationTelemetry
  likelyCause_le : likelyCause.length ≤ 128
  validationStatus_le : validationStatus.length ≤ 32
  rationaleShort_le : rationaleShort.length ≤ 500
  digest_le : digest.length ≤ 64
  modelInvocationId_le : modelInvocationId.length ≤ 128
  providerLabel_le : providerLabel.length ≤ 64

structure CostAttributionAnalysisModelRequest where
  executionId : UUID
  stepId : UUID
  scopeId : String
  workflowType : String
  executionInputExcerpt : Dict

structure CostAttributionReasoningOutput where
  suspectedService : String
  suspectedTeam : String
  anomalyType : String
  estimatedCostImpactUsd : {q : Rat // 0 ≤ q}
  attributionSummary : String
  optimizationCandidates : List String
  evidenceReferences : List String
  modelInvocationId : String
  providerLabel : String
  invocation : Option ModelInvocationTelemetry
  suspectedService_le : suspectedService.length ≤ 128
  suspectedTeam_le : suspectedTeam.length ≤ 128
  anomalyType_le : anomalyType.length ≤ 64
  attributionSummary_le : attributionSummary.length ≤ 4000
  optimizationCandidates_le : optimizationCandidates.length ≤ 16
  evidenceReferences_le : evidenceReferences.length ≤ 32
  modelInvocationId_le : modelInvocationId.length ≤ 128
  providerLabel_le : providerLabel.length ≤ 64

structure CostAttributionValidationModelRequest where
  executionId : UUID
  stepId : UUID
  scopeId : String
  priorAttributionSummary : String
  priorEvidenceSummary : String
  priorOptimizationCandidates : List String

structure CostValidationOutput where
  validationStatus : String
  confidence : Confidence
  likelyService : String
  likelyTeam : String
  rationaleShort : String
  recommendedActions : List String
  digest : String
  modelInvocationId : String
  providerLabel : String
  invocation : Option ModelInvocationTelemetry
  validationStatus_le : validationStatus.length ≤ 32
  likelyService_le : likelyService.length ≤ 128
  likelyTeam_le : likelyTeam.length ≤ 128
  rationaleShort_le : rationaleShort.length ≤ 500
  recommendedActions_le : recommendedActions.length ≤ 16
  digest_le : digest.length ≤ 64
  modelInvocationId_le : modelInvocationId.length ≤ 128
  providerLabel_le : providerLabel.length ≤ 64

instance : Keyed UUID ExecutionContext := ⟨ExecutionContext.contextId⟩
instance : Keyed UUID Execution := ⟨Execution.executionId⟩
instance : Keyed UUID ExecutionPlan := ⟨ExecutionPlan.planId⟩
instance : Keyed UUID Step := ⟨Step.stepId⟩
instance : Keyed UUID StepResult := ⟨StepResult.stepId⟩
instance : Keyed UUID ActionProposal := ⟨ActionProposal.proposalId⟩
instance : Keyed UUID PolicyEvaluation := ⟨PolicyEvaluation.evaluationId⟩
instance : Keyed UUID Approval := ⟨Approval.approvalId⟩
instance : Keyed UUID ToolCall := ⟨ToolCall.toolCallId⟩

inductive ExceptionClass where
  | orchestrationError | invalidStatusTransitionError | keyError | valueError | assertionError
  | validationError | replayError | replayNotFoundError | replayValidationError
  | other (name : String)
  deriving DecidableEq, Repr

/-- `type(exc).__name__`. -/
def ExceptionClass.name : ExceptionClass → String
  | orchestrationError => "OrchestrationError"
  | invalidStatusTransitionError => "InvalidStatusTransitionError"
  | keyError => "KeyError"
  | valueError => "ValueError"
  | assertionError => "AssertionError"
  | validationError => "ValidationError"
  | replayError => "ReplayError"
  | replayNotFoundError => "ReplayNotFoundError"
  | replayValidationError => "ReplayValidationError"
  | other name => name

structure Exn where
  cls : ExceptionClass
  text : String
  deriving DecidableEq, Repr

end AgenticPlatform
