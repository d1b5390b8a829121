import AgenticPlatform.Engine

/-! Creating, queueing, starting and cancelling executions, the worker that takes them
from the queue, and replays. -/
namespace AgenticPlatform
open Interaction

structure NewExecution where
  workflowType : String
  inputPayload : Dict
  tenantId : String
  requestId : String
  environment : String
  policyScope : String
  principalId : Option String
  executionMode : ExecutionMode
  permissionsScope : Option Dict
  parentExecutionId : Option UUID
  featureFlags : Option Dict

def contextOf (request : NewExecution) (contextId : UUID) (ts : Time) : ExecutionContext where
  contextId := contextId
  tenantId := request.tenantId
  principalId := request.principalId
  actor := none
  requestId := request.requestId
  environment := request.environment
  permissionsScope := request.permissionsScope.getD []
  policyScope := request.policyScope
  featureFlags := request.featureFlags
  createdAt := ts
  updatedAt := ts

def executionOf (request : NewExecution) (executionId contextId : UUID) (ts : Time) :
    Execution where
  executionId := executionId
  workflowType := request.workflowType
  status := .created
  executionMode := request.executionMode
  executionContextId := contextId
  parentExecutionId := request.parentExecutionId
  currentPlanId := none
  input := request.inputPayload
  result := none
  traceTimeline := []
  validationSummary := none
  createdAt := ts
  updatedAt := ts
  completedAt := none
  cancelledAt := none

/-- Persist a new execution in CREATED with a fresh execution context. -/
def createExecution (request : NewExecution) (ts : Time) : M Execution := do
  let contextId ← M.uuid4
  let executionId ← M.uuid4
  M.saveContext (contextOf request contextId ts)
  let execution := executionOf request executionId contextId ts
  M.saveExecution execution
  pure execution

/-- A run of no registered workflow in particular. -/
def genericRequest : NewExecution where
  workflowType := "generic"
  inputPayload := []
  tenantId := "t1"
  requestId := "r1"
  environment := "dev"
  policyScope := "default"
  principalId := none
  executionMode := .background
  permissionsScope := none
  parentExecutionId := none
  featureFlags := none

/-- The world after one `create_execution`; the execution has the identifier 1. -/
def World.created (env : Env) (request : NewExecution) : World :=
  (run (handle env) (createExecution request 0) World.init).2

/-- Read the row or fail, change it and write it back. -/
def rewriteExecution (executionId : UUID) (change : Execution → Execution) : M Execution := do
  match ← M.getExecution executionId with
  | none => M.throw .keyError ("UUID('" ++ executionId.str ++ "')")
  | some ex =>
      M.updateExecution (change ex)
      pure (change ex)

/-- Queue execution for worker processing. -/
def enqueueExecution (executionId : UUID) : M Execution := do
  let ts ← M.now
  let ex ← rewriteExecution executionId (markQueued · ts)
  let _depth ← M.enqueue executionId ts
  pure ex

def recordWorkerStarted (executionId : UUID) (workerId : String) (now : Option Time) :
    M Execution := do
  let ts ← match now with
    | some t => pure t
    | none => M.now
  rewriteExecution executionId (markWorkerStarted · workerId ts)

/-- Request cancellation; a run stops at its next safe boundary. -/
def requestCancellation (executionId : UUID) (reason : String) : M Execution := do
  let ts ← M.now
  let ex ← rewriteExecution executionId (requestCancellationMeta · ts reason)
  if isExecutionTerminal ex.status then pure ex
  else cancelExecution executionId reason ts

namespace ExecutionEngine
variable (engine : ExecutionEngine)

/-- Run the loop; an orchestration error fails the execution. -/
def startExecution (fuel : Nat) (executionId : UUID) : M Execution :=
  (engine.runExecution fuel executionId).tryCatch fun e =>
    if e.cls = .orchestrationError then failExecution executionId e.text else .raise e

/-- Process one queued execution if present; `true` when work ran. -/
def runOnce (fuel : Nat) (workerId : String) : M Bool := do
  match ← M.dequeue with
  | none => pure false
  | some item =>
      let now ← M.now
      match ← M.getExecution item.executionId with
      | none => pure true
      | some _ =>
          let _ex ← recordWorkerStarted item.executionId workerId (some now)
          let _started ← M.now
          let _ex ← engine.startExecution fuel item.executionId
          let _ended ← M.now
          let _ex ← M.getExecution item.executionId
          pure true

end ExecutionEngine

def stripReplayMetadata (inputPayload : Dict) : Dict := inputPayload.pop replayProvenanceInputKey

def replayCreatedDetail (provenance : ReplayProvenance) : Dict :=
  let overridesSummary : Dict :=
    if provenance.inputOverrides.isEmpty then []
    else [("keys", .arr (provenance.inputOverrides.sortedKeys.map .str)),
      ("count", .int provenance.inputOverrides.length)]
  [("source_execution_id", .str provenance.sourceExecutionId.str),
    ("replay_mode", .str provenance.replayMode.value),
      ("requested_by", .ofOption .str provenance.requestedBy),
    ("reason", .ofOption .str provenance.reason), ("label", .ofOption .str provenance.label),
    ("environment_target", .str provenance.environmentTarget),
    ("input_overrides_summary", .obj overridesSummary)] ++
  (match provenance.anchorPlanId with
    | some planId => [("anchor_plan_id", .str planId.str)]
    | none => [])

/-- `s and s.strip()`. -/
def nonBlank (s : String) : Bool := s.toList.any fun c => !isSpace c

def validateReplayRequest (request : ReplayRequest) : Except Exn Unit :=
  if request.replayMode = .exact ∧ (request.inputOverrides.getD []) ≠ [] then
    .error ⟨.replayValidationError, "input_overrides are not allowed for exact replay"⟩
  else if request.replayMode = .exact ∧ request.overridePlan.isSome then
    .error ⟨.replayValidationError, "override_plan is not allowed for exact replay"⟩
  else if request.replayMode = .investigative ∧ ¬ (request.reason.any nonBlank) ∧
      ¬ (request.label.any nonBlank) then
    .error ⟨.replayValidationError, "investigative replay requires a non-empty reason or label"⟩
  else if ¬ nonBlank request.environmentTarget then
    .error ⟨.replayValidationError, "environment_target is required"⟩
  else .ok ()

/-- The input that a replay starts from, before the provenance is attached, with the
overrides that were applied. -/
def replayInput (request : ReplayRequest) (source : Execution) : Except Exn (Dict × Dict) :=
  let baseInput := stripReplayMetadata source.input
  match request.replayMode with
  | .exact => .ok (baseInput, [])
  | .investigative =>
      let overrides := request.inputOverrides.getD []
      if (overrides.get? replayProvenanceInputKey).isSome then
        .error ⟨.replayValidationError,
          "input_overrides must not include reserved key '" ++ replayProvenanceInputKey ++ "'"⟩
      else .ok (baseInput.merge overrides, overrides)

/-- `requested or default`, which takes the default also for the empty string. -/
def principalOr (requested default : Option String) : Option String :=
  match requested with
  | some s => if s = "" then default else some s
  | none => default

def replayExecution (request : ReplayRequest) (source : Execution) (ctx : ExecutionContext) :
    NewExecution where
  workflowType := source.workflowType
  inputPayload := []
  tenantId := ctx.tenantId
  requestId := "replay-" ++ request.sourceExecutionId.str
  environment := request.environmentTarget
  policyScope := ctx.policyScope
  principalId := principalOr request.requestedBy ctx.principalId
  executionMode := request.executionMode.getD source.executionMode
  permissionsScope := some ctx.permissionsScope
  parentExecutionId := some request.sourceExecutionId
  featureFlags := match ctx.featureFlags with
    | some flags => if flags.isEmpty then none else some flags
    | none => none

def replayProvenance (request : ReplayRequest) (source : Execution) (overrides : Dict)
    (childId : UUID) (ts : Time) : ReplayProvenance where
  sourceExecutionId := request.sourceExecutionId
  replayMode := request.replayMode
  requestedBy := request.requestedBy
  reason := request.reason
  label := request.label
  inputOverrides := overrides
  anchorPlanId := request.anchorPlanId.or source.currentPlanId
  environmentTarget := request.environmentTarget
  createdExecutionId := childId
  createdAt := ts

/-- The child row with the provenance in its input and the creation in its trace. -/
def replayChild (child : Execution) (input : Dict) (provenance : ReplayProvenance)
    (ts : Time) : Execution :=
  appendTimeline
    { child with input := input.set replayProvenanceInputKey (.obj provenance.modelDump) }
    "replay_created" (replayCreatedDetail provenance) ts

/-- Store the child of a replay; nothing is started yet. -/
def createReplayChild (request : ReplayRequest) (source : Execution)
    (ctx : ExecutionContext) (ts : Time) :
    M (Execution × ReplayProvenance) := do
  M.ofExcept (validateReplayRequest request)
  let (input, overrides) ← M.ofExcept (replayInput request source)
  let child ← createExecution (replayExecution request source ctx) ts
  let provenance := replayProvenance request source overrides child.executionId ts
  let child := replayChild child input provenance ts
  M.updateExecution child
  pure (child, provenance)

/-- The answer to a replay. The source must come out as it was; its two snapshots are compared
as stored. -/
def replayCreated (request : ReplayRequest) (source child : Execution)
    (provenance : ReplayProvenance) :
    M ReplayCreatedResponse := do
  let sourceAfter ← M.getExecution request.sourceExecutionId
  if sourceAfter ≠ some source then
    M.throw .replayError "source execution was mutated during replay creation"
  else
    pure
      { replayExecutionId := child.executionId
        sourceExecutionId := request.sourceExecutionId
        status := child.status.value
        replayMode := request.replayMode
        provenance := provenance }

/-- Create the child of a replay and start it if asked to. -/
def ExecutionEngine.createReplay (engine : ExecutionEngine) (fuel : Nat) (request : ReplayRequest) :
    M ReplayCreatedResponse := do
  let ts ← M.now
  match ← M.getExecution request.sourceExecutionId with
  | none =>
      M.throw .replayNotFoundError
        ("source execution " ++ request.sourceExecutionId.str ++ " not found")
  | some source =>
      match ← M.getContext source.executionContextId with
      | none =>
          M.throw .replayNotFoundError
            ("execution context for " ++ request.sourceExecutionId.str ++ " not found")
      | some ctx =>
          let (child, provenance) ← createReplayChild request source ctx ts
          let child ← if request.startExecution then engine.startExecution fuel child.executionId
            else pure child
          replayCreated request source child provenance

end AgenticPlatform
