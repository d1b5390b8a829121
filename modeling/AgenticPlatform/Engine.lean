import AgenticPlatform.Planner
import AgenticPlatform.RuntimeMeta
import AgenticPlatform.Work

/-! The execution loop, the governance of incident triage, approval, cancellation and
failure. -/
namespace AgenticPlatform
open Interaction

/-- Move execution to CANCELLED when the transition is allowed; the request is recorded
in any case. -/
def cancelExecution (executionId : UUID) (reason : String) (ts : Time) : M Execution := do
  match ← M.getExecution executionId with
  | none => M.throw .keyError ("UUID('" ++ executionId.str ++ "')")
  | some ex =>
      let ex := requestCancellationMeta ex ts reason
      if isExecutionTerminal ex.status then
        M.updateExecution ex
        pure ex
      else
        match validateExecutionTransition ex.status .cancelled with
        | .error _ =>
            M.updateExecution ex
            pure ex
        | .ok _ =>
            let updated := enterStatus { ex with
                cancelledAt := some ts
                result := some [("outcome", .str "cancelled"), ("reason", .str reason)] }
              .cancelled [("reason", .str reason)] ts
            M.updateExecution updated
            pure updated

/-- Move execution to FAILED with explicit reason. -/
def failExecution (executionId : UUID) (reason : String) : M Execution := do
  let ts ← M.now
  match ← M.getExecution executionId with
  | none => M.throw .keyError ("UUID('" ++ executionId.str ++ "')")
  | some ex =>
      if isExecutionTerminal ex.status then pure ex
      else
        match validateExecutionTransition ex.status .failed with
        | .error _ => pure ex
        | .ok _ =>
            let updated := enterStatus { ex with
                result := some [("outcome", .str "failed"), ("reason", .str reason)] }
              .failed [("reason", .str reason)] ts
            M.updateExecution updated
            pure updated

/-- Every step under its planner key; of two steps with one key, the later. -/
def stepsInPlanOrder (steps : List Step) (plan : ExecutionPlan) : List Step :=
  plan.steps.filterMap fun spec =>
    steps.reverse.find? fun s => (s.input.get "planner_step_key").isStr spec.stepKey

def isReady (step : Step) (allSteps : List Step) : Bool :=
  step.dependencies.all fun dep =>
    match allSteps.reverse.find? fun s => s.stepId = dep with
    | some parent => parent.status = .succeeded
    | none => false

def nextPendingReady (ordered allSteps : List Step) : Option Step :=
  ordered.find? fun s => s.status = .pending ∧ isReady s allSteps

/-- `key_to_id`: a fresh id for each specification; of two with one key, the later stays. -/
def keyToId : List StepSpec → M (List (String × UUID))
  | [] => pure []
  | spec :: rest => do
      let id ← M.uuid4
      let later ← keyToId rest
      pure ((spec.stepKey, id) :: later)

def idOfKey (ids : List (String × UUID)) (key : String) : Option UUID :=
  (ids.reverse.find? fun e => e.1 = key).map Prod.snd

def stepKindOf (kind : String) : StepKind :=
  if kind = "validation" then .known .validation
  else if kind = "reasoning" then .known .reasoning
  else if kind = "retrieval" then .known .retrieval
  else if kind = "tool" then .known .tool
  else .other kind

/-- `value or default`. -/
def agentOr (agent : Option String) (default : String) : String :=
  match agent with
  | some a => if a = "" then default else a
  | none => default

/-- The ids of the steps that edges into `key` come from; `none` where one is unknown. -/
def dependencyIds (ids : List (String × UUID)) (edges : List PlanEdge) (key : String) :
    Option (List UUID) :=
  (edges.filter fun e => e.toStep = key).mapM fun e => idOfKey ids e.fromStep

namespace ExecutionEngine
variable (engine : ExecutionEngine)

def defaultAgent (kind : String) : String :=
  if kind = "validation" then engine.settings.defaultAgentValidation
  else if kind = "retrieval" then engine.settings.defaultAgentRetrieval
  else engine.settings.defaultAgentReasoning

/-- The step row of a specification, with its id and its dependencies. -/
def stepOfSpec (plan : ExecutionPlan) (execution : Execution) (now : Time) (spec : StepSpec)
    (stepId : UUID) (dependencies : List UUID) : Step where
  stepId := stepId
  executionId := execution.executionId
  planId := plan.planId
  stepType := stepKindOf spec.kind
  agent := agentOr spec.agent (engine.defaultAgent spec.kind)
  input := [("planner_step_key", .str spec.stepKey), ("planner_step_name", .ofOption .str
    spec.stepName), ("workflow_type", .str execution.workflowType),
      ("execution_input", .obj execution.input)]
  status := .pending
  dependencies := dependencies
  retryCount := 0
  degradedAllowed := spec.degradedAllowed
  createdAt := now
  updatedAt := now

def buildSteps (plan : ExecutionPlan) (execution : Execution) (now : Time)
    (ids : List (String × UUID)) :
    List StepSpec → M (List Step)
  | [] => pure []
  | spec :: rest =>
      match idOfKey ids spec.stepKey, dependencyIds ids plan.dependencies spec.stepKey with
      | some stepId, some deps => do
          let later ← buildSteps plan execution now ids rest
          pure (engine.stepOfSpec plan execution now spec stepId deps :: later)
      | _, _ => M.throw .keyError spec.stepKey

def instantiateSteps (plan : ExecutionPlan) (execution : Execution) (now : Time) : M
    (List Step) := do
  let ids ← keyToId plan.steps
  engine.buildSteps plan execution now ids plan.steps

end ExecutionEngine

/-- Store each step. -/
def saveSteps : List Step → M Unit
  | [] => pure ()
  | s :: rest => do
      M.saveStep s
      saveSteps rest

namespace ExecutionEngine
variable (engine : ExecutionEngine)

def stepDetail (step : Step) : Dict :=
  [("step_id", .str step.stepId.str), ("planner_step_name", plannerStepName step),
    ("workflow_type", stepWorkflowType step)]

def completionEvents (done : Step) (result : StepResult) : List Event :=
  ("step_completed", stepDetail done) ::
    if isValidationStep done then
      [("validation_performed", [("step_id", .str done.stepId.str),
        ("planner_step_name", plannerStepName done),
        ("validation_status", (result.output.getD []).get "validation_status")])]
    else []

def runStep (step : Step) (now : Time) : M Unit := do
  match ← M.getStep step.stepId with
  | none => M.throw .orchestrationError ("missing step " ++ step.stepId.str)
  | some step =>
      M.ofExcept (validateStepTransition step.status .running)
      let running := { step with status := .running, updatedAt := now }
      M.updateStep running
      recordTrace step.executionId [("step_started", stepDetail step)] now
      let result ← engine.stepWork running now
      M.saveStepResult result
      M.ofExcept (validateStepTransition .running .succeeded)
      let done := { running with status := .succeeded, updatedAt := now }
      M.updateStep done
      recordTrace step.executionId (completionEvents done result) now

end ExecutionEngine

def validationSummaryFromSteps (steps : List Step) : M Dict :=
  match steps.find? isValidationStep with
  | none => pure [("recorded", .bool false), ("reason", .str "no_validation_step")]
  | some s => do
      match ← M.getStepResult s.stepId with
      | none => pure [("recorded", .bool false), ("reason", .str "missing_step_result")]
      | some res =>
          pure [("recorded", .bool true),
            ("validation_outcome", .ofOption (fun vo => .obj vo.modelDump) res.validationOutcome)]

/-- The stored outputs of the steps whose planner name is a string. -/
def namedOutputs : List Step → M (List (String × Dict))
  | [] => pure []
  | s :: rest =>
      match plannerStepName s with
      | .str name => do
          let res ← M.getStepResult s.stepId
          let later ← namedOutputs rest
          pure (match res.bind StepResult.output with
            | some out => (name, out) :: later
            | none => later)
      | _ => namedOutputs rest

/-- `by_name.get(name, {})`. -/
def namedOutput (outputs : List (String × Dict)) (name : String) : Dict :=
  ((outputs.reverse.find? fun o => o.1 = name).map Prod.snd).getD []

/-- `float(v) if isinstance(v, (int, float)) else None`, of an integer in the range of floats; no
step has a result with another one here. -/
def toFloat : Json → Json
  | .int n => .float n
  | .float q => .float q
  | .bool b => .float (if b then 1 else 0)
  | _ => .null

/-- Terminal result of a workflow; generic workflows keep a minimal success payload. -/
def buildCompletionResult (execution : Execution) (steps : List Step) : M Dict :=
  let count : Json := .int steps.length
  if execution.workflowType = "cost_attribution" then do
    let byName ← namedOutputs steps
    let analyze := namedOutput byName "analyze_cost_anomaly"
    let retrieve := namedOutput byName "retrieve_cost_evidence"
    let correlate := namedOutput byName "correlate_usage_patterns"
    let validate := namedOutput byName "validate_cost_attribution"
    pure [("outcome", .str "success"), ("workflow_type", .str "cost_attribution"),
      ("suspected_service", analyze.get "suspected_service"),
      ("suspected_team", analyze.get "suspected_team"),
        ("anomaly_type", analyze.get "anomaly_type"),
      ("estimated_cost_impact_usd", analyze.get "estimated_cost_impact_usd"),
      ("attribution_summary", analyze.get "attribution_summary"),
      ("evidence_summary", retrieve.get "evidence_summary"),
      ("correlation_summary", correlate.get "correlation_summary"),
      ("validation_status", validate.get "validation_status"),
      ("confidence", toFloat (validate.get "confidence")),
        ("likely_service", validate.get "likely_service"),
      ("recommended_actions", validate.get "recommended_actions"),
      ("optimization_candidates", analyze.get "optimization_candidates"), ("steps", count)]
  else if execution.workflowType = "incident_triage" then do
    let byName ← namedOutputs steps
    let analyze := namedOutput byName "analyze_incident"
    let gather := namedOutput byName "gather_evidence"
    let validate := namedOutput byName "validate_incident"
    pure [("outcome", .str "success"), ("workflow_type", .str "incident_triage"),
      ("incident_summary", analyze.get "incident_summary"),
        ("likely_cause", validate.get "likely_cause"),
      ("evidence_summary", gather.get "evidence_summary"),
      ("validation_status", validate.get "validation_status"),
      ("confidence_score", toFloat (validate.get "confidence_score")), ("steps", count)]
  else pure [("outcome", .str "success"), ("steps", count)]

def stepByPlannerName (steps : List Step) (name : String) : Option Step :=
  steps.find? fun s => (plannerStepName s).isStr name

def stepOutputByName (steps : List Step) (name : String) : M Dict :=
  match stepByPlannerName steps name with
  | none => pure []
  | some s => do
      let res ← M.getStepResult s.stepId
      pure ((res.bind StepResult.output).getD [])

def proposedAction (proposal : ActionProposal) : Json :=
  .obj [("type", .str proposal.actionType), ("proposal_id", .str proposal.proposalId.str)]

/-- `base_result` with the outcome of governance set over it. -/
def governedResult (base : Dict) (changes : Dict) (proposal : ActionProposal)
    (decision : PolicyDecision) (approvalStatus : String) : Dict :=
  base.merge (changes ++ [("proposed_action", proposedAction proposal),
    ("policy_decision", .str decision.value), ("approval_status", .str approvalStatus)])

def failedOutcome : Dict := [("outcome", .str "failed"), ("workflow_type", .str "incident_triage")]

def governanceBlock (proposalId evaluationId : UUID) : Dict :=
  [("phase", .str "awaiting_approval"), ("proposal_id", .str proposalId.str),
    ("evaluation_id", .str evaluationId.str),
      ("policy_decision", .str PolicyDecision.conditional.value)]

def governedOutcome (path : String) (proposalId : UUID) : Event :=
  ("governed_outcome", [("path", .str path), ("proposal_id", .str proposalId.str)])

/-- The policy decision applied: the proposal and then the row to write. -/
def applyPolicyDecision (ex : Execution) (proposal : ActionProposal) (evaluationId : UUID)
    (decision : PolicyDecision) (validationSummary baseResult : Dict) (now : Time) : M Execution :=
  match decision with
  | .deny => do
      M.saveActionProposal { proposal with status := .policyDenied, updatedAt := now }
      M.ofExcept (validateExecutionTransition .validating .failed)
      pure (concludeExecution ex .failed validationSummary
        (governedResult baseResult failedOutcome proposal .deny "not_applicable")
        [governedOutcome "policy_denied" proposal.proposalId] now)
  | .allow => do
      M.saveActionProposal { proposal with status := .approved, updatedAt := now }
      M.ofExcept (validateExecutionTransition .validating .completed)
      pure (concludeExecution ex .completed validationSummary
        (governedResult baseResult [] proposal .allow "not_required")
        [governedOutcome "policy_allow" proposal.proposalId] now)
  | .conditional => do
      M.saveActionProposal
        { proposal with status := .awaitingApproval, requiresApproval := true, updatedAt := now }
      M.ofExcept (validateExecutionTransition .validating .awaitingApproval)
      pure (concludeExecution ex .awaitingApproval validationSummary
        (governedResult baseResult
          [("outcome", .str "awaiting_approval"), ("workflow_type", .str "incident_triage"),
            ("governance", .obj (governanceBlock proposal.proposalId evaluationId))]
          proposal .conditional "pending")
        [("approval_required", [("proposal_id", .str proposal.proposalId.str),
          ("evaluation_id", .str evaluationId.str)])] now)

def escalationProposal (ex : Execution) (proposalId : UUID) (validateStep : Option Step)
    (validateOut : Dict) (now : Time) : ActionProposal where
  proposalId := proposalId
  executionId := ex.executionId
  stepId := validateStep.map Step.stepId
  actionType := "escalate_incident"
  payload := [("incident_id", ex.input.getOr "incident_id" (ex.input.get "id")),
    ("likely_cause", validateOut.get "likely_cause"), ("severity", ex.input.get "severity")]
  riskLevel := .high
  requiresApproval := false
  status := .proposed
  createdAt := now
  updatedAt := now

def policyEvaluationOf (ex : Execution) (ctx : ExecutionContext) (evaluationId : UUID)
    (draft : PolicyEvaluationDraft) (proposal : ActionProposal) (now : Time) :
    PolicyEvaluation where
  evaluationId := evaluationId
  executionId := ex.executionId
  executionContextId := ctx.contextId
  decision := draft.decision
  reason := draft.reason
  evaluatedRules := draft.evaluatedRules
  subjectRef :=
    [("proposal_id", .str proposal.proposalId.str), ("action_type", .str proposal.actionType)]
  createdAt := now
  updatedAt := now

def actionProposed (proposal : ActionProposal) : Dict :=
  [("proposal_id", .str proposal.proposalId.str), ("action_type", .str proposal.actionType),
    ("risk_level", .str proposal.riskLevel.value)]

def policyEvaluated (evaluationId : UUID) (draft : PolicyEvaluationDraft) : Dict :=
  [("evaluation_id", .str evaluationId.str), ("decision", .str draft.decision.value),
    ("reason", .str draft.reason)]

/-- After the validation steps succeeded: propose the escalation, evaluate policy, branch. -/
def finalizeIncidentTriageGovernance (ex : Execution) (steps : List Step) (now : Time) :
    M Execution := do
  match ← M.getContext ex.executionContextId with
  | none => M.throw .orchestrationError "missing execution context for governance"
  | some ctx =>
      let validationSummary ← validationSummaryFromSteps steps
      let baseResult ← buildCompletionResult ex steps
      let validateOut ← stepOutputByName steps "validate_incident"
      let proposalId ← M.uuid4
      let proposal := escalationProposal ex proposalId (stepByPlannerName steps "validate_incident")
        validateOut now
      M.saveActionProposal proposal
      let ex := appendTimeline ex "action_proposed" (actionProposed proposal) now
      let draft ← M.evaluateProposal ctx proposal
      let evaluationId ← M.uuid4
      M.savePolicyEvaluation (policyEvaluationOf ex ctx evaluationId draft proposal now)
      let ex := appendTimeline ex "policy_evaluated" (policyEvaluated evaluationId draft) now
      applyPolicyDecision ex proposal evaluationId draft.decision validationSummary baseResult now

/-- The validation phase starts when all other steps have succeeded. -/
def startsValidating (ex : Execution) (steps : List Step) : Bool :=
  let others := steps.filter fun s => !isValidationStep s
  let validations := steps.filter isValidationStep
  ex.status = .executing && !validations.isEmpty && !others.isEmpty &&
    others.all (fun s => s.status = .succeeded) && validations.any (fun s => s.status = .pending)

def maybeEnterValidating (ex : Execution) (steps : List Step) (now : Time) : M Execution := do
  if startsValidating ex steps then
    M.ofExcept (validateExecutionTransition .executing .validating)
    pure (enterStatus ex .validating [] now)
  else pure ex

/-- The error of a loop that can neither run a step nor end. -/
def stuck (steps : List Step) : M Execution :=
  if steps.any (fun s => s.status = .pending) then
    M.throw .orchestrationError "deadlock: pending steps but none are ready"
  else M.throw .orchestrationError "unexpected step set state"

/-- No step can run: complete the execution, or fail. -/
def completeRun (ex : Execution) (steps : List Step) : M Execution := do
  if steps.all (fun s => s.status = .succeeded) then
    let now ← M.now
    if ex.status = .validating then
      if ex.workflowType = "incident_triage" then
        let ex ← finalizeIncidentTriageGovernance ex steps now
        M.updateExecution ex
        pure ex
      else
        M.ofExcept (validateExecutionTransition .validating .completed)
        let validationSummary ← validationSummaryFromSteps steps
        let resultPayload ← buildCompletionResult ex steps
        let ex := concludeExecution ex .completed validationSummary resultPayload [] now
        M.updateExecution ex
        pure ex
    else if ex.status = .executing then
      M.throw .orchestrationError
        ("invariant violated: all steps succeeded but execution not in VALIDATING " ++
        "(validation phase required before completion per constitution §6.1)")
    else stuck steps
  else stuck steps

namespace ExecutionEngine
variable (engine : ExecutionEngine)

def enterPlanning (ex : Execution) (now : Time) : M Execution := do
  if ex.status = .created then
    M.ofExcept (validateExecutionTransition .created .planning)
    let ex := enterStatus ex .planning [] now
    M.updateExecution ex
    pure ex
  else pure ex

def enterExecuting (ex : Execution) (now : Time) : M Unit := do
  if ex.status = .planning then
    let plan ← createPlan engine.plannerMeta ex now
    M.savePlan plan
    let steps ← engine.instantiateSteps plan ex now
    saveSteps steps
    M.ofExcept (validateExecutionTransition .planning .executing)
    M.updateExecution (enterStatus { ex with currentPlanId := some plan.planId } .executing
      [("plan_id", .str plan.planId.str)] now)
  else pure ()

def resolvePlan (ex : Execution) : M (Option ExecutionPlan) :=
  match ex.currentPlanId with
  | some planId => M.getPlan planId
  | none => pure none

/-- The `while True` of the run; it halts when the fuel is used up. -/
def runLoop (executionId : UUID) : Nat → M Execution
  | 0 => .halt
  | fuel + 1 => do
      match ← M.getExecution executionId with
      | none => M.throw .assertionError ""
      | some ex =>
          if isCancellationRequested ex then
            let now ← M.now
            cancelExecution executionId "cancellation_requested" now
          else if ex.status = .awaitingApproval then pure ex
          else if isExecutionTerminal ex.status then pure ex
          else
            let steps ← M.listStepsForExecution executionId
            match ← resolvePlan ex with
            | none => M.throw .orchestrationError "execution has no resolvable plan"
            | some plan =>
                let now ← M.now
                let ex ← maybeEnterValidating ex steps now
                M.updateExecution ex
                match ← M.getExecution executionId with
                | none => M.throw .assertionError ""
                | some ex =>
                    if isExecutionTerminal ex.status then pure ex
                    else
                      let steps ← M.listStepsForExecution executionId
                      match nextPendingReady (stepsInPlanOrder steps plan) steps with
                      | some nextStep =>
                          engine.runStep nextStep now
                          runLoop executionId fuel
                      | none => completeRun ex steps

/-- Drive execution through planning, executing and validating to its end. -/
def runExecution (fuel : Nat) (executionId : UUID) : M Execution := do
  match ← M.getExecution executionId with
  | none => M.throw .keyError ("'execution not found: " ++ executionId.str ++ "'")
  | some ex =>
      let now ← M.now
      if isExecutionTerminal ex.status then pure ex
      else
        let ex ← enterPlanning ex now
        engine.enterExecuting ex now
        engine.runLoop executionId fuel

end ExecutionEngine

/-- The governance ids of a result that awaits approval; the errors are those of the source. -/
def governanceIds (ex : Execution) : Except Exn (UUID × UUID) :=
  match (ex.result.getD []).get "governance" with
  | .obj gov =>
      match Dict.get gov "proposal_id", Dict.get gov "evaluation_id" with
      | .str pid, .str eid =>
          match UUID.parse pid, UUID.parse eid with
          | some proposalId, some evaluationId => .ok (proposalId, evaluationId)
          | _, _ => .error ⟨.valueError, "badly formed hexadecimal UUID string"⟩
      | _, _ => .error ⟨.orchestrationError, "governance missing proposal_id or evaluation_id"⟩
  | _ => .error ⟨.orchestrationError, "missing governance block on execution result"⟩

/-- The decision applied: the proposal and then the row are written. -/
def applyApprovalDecision (ex : Execution) (proposal : ActionProposal) (decision : ApprovalDecision)
    (validationSummary baseResult : Dict) (ts : Time) : M Execution := do
  if decision = .reject then
    M.saveActionProposal { proposal with status := .rejected, updatedAt := ts }
    M.ofExcept (validateExecutionTransition .awaitingApproval .failed)
    let ex := concludeExecution ex .failed validationSummary
      (governedResult baseResult failedOutcome proposal .conditional "rejected")
      [governedOutcome "approval_rejected" proposal.proposalId] ts
    M.updateExecution ex
    pure ex
  else
    M.saveActionProposal { proposal with status := .approved, updatedAt := ts }
    M.ofExcept (validateExecutionTransition .awaitingApproval .completed)
    let ex := concludeExecution ex .completed validationSummary
      (governedResult baseResult [] proposal .conditional "approved")
      [governedOutcome "approval_granted" proposal.proposalId] ts
    M.updateExecution ex
    pure ex

def approvalOf (executionId approvalId proposalId evaluationId : UUID) (approver : String)
    (decision : ApprovalDecision) (notes : Option String) (ts : Time) : Approval where
  approvalId := approvalId
  executionId := executionId
  policyEvaluationId := some evaluationId
  actionProposalId := some proposalId
  approver := approver
  decision := decision
  notes := notes
  decidedAt := ts
  createdAt := ts
  updatedAt := ts

def approvalReceived (approvalId : UUID) (approver : String) (decision : ApprovalDecision) : Dict :=
  [("approval_id", .str approvalId.str), ("decision", .str decision.value),
    ("approver", .str approver)]

/-- Record a human decision for an execution that awaits approval; complete or fail it. -/
def submitApproval (executionId : UUID) (approver : String) (decision : ApprovalDecision)
    (notes : Option String) : M Execution := do
  let ts ← M.now
  match ← M.getExecution executionId with
  | none => M.throw .keyError ("UUID('" ++ executionId.str ++ "')")
  | some ex =>
      if ex.status ≠ .awaitingApproval then
        M.throw .orchestrationError ("execution " ++ executionId.str ++
          " not awaiting approval (status=" ++
          ex.status.value ++ ")")
      else
        let (proposalId, evaluationId) ← M.ofExcept (governanceIds ex)
        if decision = .defer then
          M.throw .orchestrationError "approval defer is not supported in Phase 3"
        else
          let approvalId ← M.uuid4
          M.saveApproval (approvalOf ex.executionId approvalId proposalId evaluationId
            approver decision
            notes ts)
          let ex := appendTimeline ex "approval_received"
            (approvalReceived approvalId approver decision) ts
          match ← M.getActionProposal proposalId with
          | none => M.throw .orchestrationError "action proposal not found"
          | some proposal =>
              let steps ← M.listStepsForExecution executionId
              let validationSummary ← validationSummaryFromSteps steps
              let baseResult ← buildCompletionResult ex steps
              applyApprovalDecision ex proposal decision validationSummary baseResult ts

end AgenticPlatform
