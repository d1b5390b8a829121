import AgenticPlatform.Repository
import AgenticPlatform.Gateway
import AgenticPlatform.Persistence
import AgenticPlatform.Reporting.Findings
import Mathlib.Data.List.Dedup

/-! The comparison of a replay with its source: the stored rows of two executions are read, and
every compared place where they differ becomes one item of a summary with bounded fields. -/
namespace AgenticPlatform
open Store
open Reporting (Findings)
open Reporting.Findings

namespace Json

/-- The value of a number; `True` and `False` are 1 and 0. -/
def number? : Json → Option Rat
  | bool b => some (if b then 1 else 0)
  | int n => some n
  | float q => some q
  | _ => none

mutual

def same : Json → Json → Bool
  | null, null => true
  | str s, str t => s = t
  | arr xs, arr ys => sameItems xs ys
  | obj kvs, obj jvs => kvs.length = jvs.length && sameFields kvs jvs
  | bool b, v => v.number? = (bool b).number?
  | int n, v => v.number? = (int n).number?
  | float q, v => v.number? = (float q).number?
  | _, _ => false

def sameItems : List Json → List Json → Bool
  | [], [] => true
  | x :: xs, y :: ys => same x y && sameItems xs ys
  | _, _ => false

def sameFields : List (String × Json) → Dict → Bool
  | [], _ => true
  | (k, x) :: rest, jvs =>
      (match jvs.get? k with
        | some y => same x y
        | none => false) && sameFields rest jvs

end

/-- `a != b`; a value equals itself. -/
def Differs (a b : Json) : Prop := a ≠ b ∧ same a b = false

instance (a b : Json) : Decidable (Differs a b) := inferInstanceAs (Decidable (_ ∧ _))

@[simp] theorem not_differs_self (a : Json) : ¬Differs a a := fun differs => differs.1 rfl

/-- `hash(v)` does not raise. -/
def Hashable : Json → Prop
  | arr _ | obj _ => False
  | _ => True

instance : DecidablePred Hashable := fun v => by
  cases v <;> unfold Hashable <;> infer_instance

end Json

inductive ReplayDiffSeverity where
  | info | warning | significant
  deriving DecidableEq, Repr

inductive ReplayDiffCategory where
  | lineage | executionStatus | input | plan | step | modelReasoning | toolCall | policy
  | validation | result
  deriving DecidableEq, Repr

/-- What `ReplayDiffItem` is made from. -/
structure ReplayDiffFields where
  category : ReplayDiffCategory
  severity : ReplayDiffSeverity
  title : String
  description : String
  sourceValue : Option String := none
  replayValue : Option String := none
  path : String
  relatedStepId : Option UUID := none
  relatedToolCallId : Option UUID := none
  deriving DecidableEq

structure ReplayDiffFields.Valid (f : ReplayDiffFields) : Prop where
  title : f.title.length ≤ 256
  description : f.description.length ≤ 2048
  sourceValue : ∀ v ∈ f.sourceValue, v.length ≤ 512
  replayValue : ∀ v ∈ f.replayValue, v.length ≤ 512
  path : f.path.length ≤ 256

theorem ReplayDiffFields.valid_iff {f : ReplayDiffFields} : f.Valid ↔ f.title.length ≤ 256 ∧
    f.description.length ≤ 2048 ∧ (∀ v ∈ f.sourceValue, v.length ≤ 512) ∧
      (∀ v ∈ f.replayValue, v.length ≤ 512) ∧
    f.path.length ≤ 256 :=
  ⟨fun ⟨a, b, c, d, e⟩ => ⟨a, b, c, d, e⟩, fun ⟨a, b, c, d, e⟩ => ⟨a, b, c, d, e⟩⟩

instance (f : ReplayDiffFields) : Decidable f.Valid :=
  decidable_of_iff _ ReplayDiffFields.valid_iff.symm

/-- One explainable difference between source and replay. -/
def ReplayDiffItem := {f : ReplayDiffFields // f.Valid}

def ReplayDiffFields.item (f : ReplayDiffFields) : Except Exn ReplayDiffItem :=
  if valid : f.Valid then .ok ⟨f, valid⟩
  else .error ⟨.validationError, "1 validation error for ReplayDiffItem"⟩

structure ReplayDiffSummary where
  sourceExecutionId : UUID
  replayExecutionId : UUID
  replayMode : Option ReplayMode
  linkedToSource : Bool
  totalDifferences : Nat
  significantDifferences : Nat
  items : List ReplayDiffItem
  bounded : items.length ≤ 500

def replayDiffSummary (source replay : Execution) (replayMode : Option ReplayMode) (linked : Bool)
    (items : List ReplayDiffItem) : Except Exn ReplayDiffSummary :=
  if bounded : items.length ≤ 500 then
    .ok ⟨source.executionId, replay.executionId, replayMode, linked, items.length,
      items.countP (fun i => i.1.severity = .significant), items, bounded⟩
  else .error ⟨.validationError, "1 validation error for ReplayDiffSummary"⟩

/-- The repository methods that the comparison calls. -/
structure RepositoryReads where
  getExecution : UUID → Option Execution
  listStepsForExecution : UUID → List Step
  getStepResult : UUID → Option StepResult
  listToolCallsForStep : UUID → List ToolCall
  listPolicyEvaluationsForExecution : UUID → List PolicyEvaluation
  listActionProposalsForExecution : UUID → List ActionProposal
  listApprovalsForExecution : UUID → List Approval

/-- The answers of `InMemoryRepository`. -/
def Repository.reads (repo : Repository) : RepositoryReads where
  getExecution := repo.executions.get
  listStepsForExecution := repo.listStepsForExecution
  getStepResult := repo.stepResults.get
  listToolCallsForStep id := repo.toolCalls.sortedBy (fun c => c.stepId = id) ToolCall.createdAt
  listPolicyEvaluationsForExecution id :=
    repo.policyEvaluations.sortedBy (fun e => e.executionId = id) PolicyEvaluation.createdAt
  listActionProposalsForExecution id :=
    repo.actionProposals.sortedBy (fun p => p.executionId = id) ActionProposal.createdAt
  listApprovalsForExecution := repo.listApprovalsForExecution

namespace ReplayDiffService

def resultKeysOfInterest : List String :=
  ["status", "outcome", "summary", "validation", "governance", "error", "message"]

def stepOutputKeysOfInterest : List String :=
  ["status", "outcome", "summary", "severity", "root_cause", "recommendation"]

/-- `_brief(value, max_len=...)`. -/
def brief (text : Rendering) (maxLen : Nat) (value : Json) : Option String :=
  match value with
  | .null => none
  | value =>
      let s := text.dumps value
      some (if maxLen < s.length then slice s 0 (maxLen - 3) ++ "..." else s)

/-- `str(u)` of an optional identifier. -/
def strId : Option UUID → String
  | none => "None"
  | some u => u.str

def presence (present : Bool) : String := if present then "present" else "absent"

def businessInput (execution : Execution) : Dict := execution.input.pop replayProvenanceInputKey

def stepLabel (step : Step) : Dict :=
  [("step_id", .str step.stepId.str), ("type", .str step.stepType.text),
    ("status", .str step.status.value), ("agent", .str step.agent)]

/-- `sorted(steps, key=created_at)`. -/
def byCreatedAt {α : Type} (createdAt : α → Time) (rows : List α) : List α :=
  rows.insertionSort fun a b => createdAt a ≤ createdAt b

abbrev Items := Findings Exn ReplayDiffItem

section
variable (text : Rendering) (repo : RepositoryReads) (source replay : Execution) (linked : Bool)
  (prov : Option ReplayProvenance)

/-- `prov.input_overrides`, none without a provenance. -/
def inputOverrides : Dict :=
  match prov with
  | some p => p.inputOverrides
  | none => []

def compareLineage : Items :=
  report (if linked then
      { category := .lineage, severity := .info, title := "linked_to_source",
        description :=
          "Replay is linked to source via parent_execution_id and/or replay provenance.",
        sourceValue := some source.executionId.str, replayValue :=
          some (strId replay.parentExecutionId),
        path := "lineage.parent_execution_id" : ReplayDiffFields }
    else
      { category := .lineage, severity := .significant, title := "not_linked_to_source",
        description :=
          "Replay parent_execution_id and provenance do not reference the given source execution.",
        sourceValue := some source.executionId.str, replayValue :=
          some (strId replay.parentExecutionId),
        path := "lineage" }).item ++
  reportIf (inputOverrides prov ≠ [])
    { category := .input, severity := .info, title := "investigative_input_overrides",
      description := "Replay provenance records investigative input overrides applied at creation.",
      replayValue := brief text 400 (.obj (inputOverrides prov)),
      path := "provenance.input_overrides" : ReplayDiffFields }.item

def compareExecutionHeader : Items :=
  reportIf (source.status ≠ replay.status)
    { category := .executionStatus, severity := .significant, title := "execution_status",
      description := "Terminal or lifecycle status differs between source and replay.",
      sourceValue := some source.status.value, replayValue := some replay.status.value,
      path := "execution.status" : ReplayDiffFields }.item ++
  reportIf (source.workflowType ≠ replay.workflowType)
    { category := .executionStatus, severity := .significant, title := "workflow_type",
      description := "Workflow type differs (unexpected for replay derived from source).",
      sourceValue := some source.workflowType, replayValue := some replay.workflowType,
      path := "execution.workflow_type" : ReplayDiffFields }.item

/-- `sorted(set(src_in) | set(rep_in))`. -/
def inputKeys : List String :=
  ((businessInput source).keys ++ (businessInput replay).keys).dedup.insertionSort (· ≤ ·)

def inputDiffers (key : String) : Prop := Json.Differs ((businessInput source).get key)
    ((businessInput replay).get key)

instance (key : String) : Decidable (inputDiffers source replay key) := inferInstanceAs
    (Decidable (Json.Differs _ _))

def compareInput : Items :=
  each (fun key => reportIf (inputDiffers source replay key)
    { category := .input,
      severity := if (inputOverrides prov).get? key = none then .warning else .info,
      title := "input." ++ key,
      description := "Business input field '" ++ key ++ "' differs.",
      sourceValue := brief text 400 ((businessInput source).get key),
      replayValue := brief text 400 ((businessInput replay).get key),
      path := "input." ++ key : ReplayDiffFields }.item) (inputKeys source replay)

def comparePlan : Items :=
  let srcSteps := repo.listStepsForExecution source.executionId
  let repSteps := repo.listStepsForExecution replay.executionId
  reportIf (source.currentPlanId ≠ replay.currentPlanId)
    { category := .plan, severity := .warning, title := "current_plan_id",
      description := "Current plan revision id differs (expected when replay re-plans).",
      sourceValue := source.currentPlanId.map UUID.str, replayValue :=
        replay.currentPlanId.map UUID.str,
      path := "execution.current_plan_id" : ReplayDiffFields }.item ++
  reportIf (srcSteps.length ≠ repSteps.length)
    { category := .plan, severity := .significant, title := "step_count",
      description := "Number of persisted steps differs between source and replay.",
      sourceValue := some (toString srcSteps.length), replayValue :=
        some (toString repSteps.length),
      path := "steps.count" : ReplayDiffFields }.item

/-- A key of one of two dictionaries at which they differ. -/
def fieldDiffers (source replay : Dict) (key : String) : Prop :=
  ¬(source.get? key = none ∧ replay.get? key = none) ∧ Json.Differs (source.get key)
    (replay.get key)

instance (source replay : Dict) (key : String) : Decidable (fieldDiffers source replay key) :=
  inferInstanceAs (Decidable (_ ∧ _))

def compareDictFields (source replay : Option Dict) (category : ReplayDiffCategory)
    (pathPrefix : String) (keys : List String) (relatedStepId : Option UUID)
    (severity : ReplayDiffSeverity) : Items :=
  match source, replay with
  | some source, some replay =>
      each (fun key => reportIf (fieldDiffers source replay key)
        { category, severity, title := key,
          description := "Field '" ++ key ++ "' differs under " ++ pathPrefix ++ ".",
          sourceValue := brief text 400 (source.get key), replayValue :=
            brief text 400 (replay.get key),
          path := pathPrefix ++ "." ++ key, relatedStepId : ReplayDiffFields }.item) keys
  | _, _ => nothing

def outcomeStatus (result : StepResult) : Option String :=
  result.validationOutcome.map ValidationOutcome.status

def compareStepResults (sourceStep replayStep : Step) (pathPrefix : String) : Items :=
  match repo.getStepResult sourceStep.stepId, repo.getStepResult replayStep.stepId with
  | none, none => nothing
  | some srcSr, some repSr =>
      reportIf (srcSr.completeness ≠ repSr.completeness)
        { category := .step, severity := .warning, title := "completeness",
          description := "Step result completeness differs.",
          sourceValue := srcSr.completeness.map StepCompleteness.value,
          replayValue := repSr.completeness.map StepCompleteness.value,
          path := pathPrefix ++ ".result.completeness", relatedStepId := replayStep.stepId :
            ReplayDiffFields }.item ++
      reportIf (srcSr.confidenceScore ≠ repSr.confidenceScore)
        { category := .step, severity := .info, title := "confidence_score",
          description := "Advisory confidence score differs.",
          sourceValue := some (text.str (.ofOption (fun q => .float q) srcSr.confidenceScore)),
          replayValue := some (text.str (.ofOption (fun q => .float q) repSr.confidenceScore)),
          path := pathPrefix ++ ".result.confidence_score", relatedStepId := replayStep.stepId :
            ReplayDiffFields }.item ++
      reportIf (outcomeStatus srcSr ≠ outcomeStatus repSr)
        { category := .validation, severity := .warning, title := "step_validation_outcome",
          description := "Step-level validation outcome status differs.",
          sourceValue := outcomeStatus srcSr, replayValue := outcomeStatus repSr,
          path := pathPrefix ++ ".result.validation_outcome.status",
          relatedStepId := replayStep.stepId : ReplayDiffFields }.item ++
      compareDictFields text srcSr.output repSr.output .step (pathPrefix ++ ".result.output")
        stepOutputKeysOfInterest replayStep.stepId .info
  | srcSr, repSr =>
      report { category := .step, severity := .warning, title := "step_result_presence",
               description := "Step result exists on one side only.",
               sourceValue := some (presence srcSr.isSome), replayValue :=
                 some (presence repSr.isSome),
               path := pathPrefix ++ ".result", relatedStepId := replayStep.stepId :
                 ReplayDiffFields }.item

def comparePairedSteps (idx : Nat) (ss rs : Step) (pathPrefix : String) : Items :=
  reportIf (ss.stepType.text ≠ rs.stepType.text)
    { category := .step, severity := .warning, title := "step_type",
      description := "Step type differs at index " ++ toString idx ++ " (ordered by created_at).",
      sourceValue := some ss.stepType.text, replayValue := some rs.stepType.text,
      path := pathPrefix ++ ".type", relatedStepId := rs.stepId : ReplayDiffFields }.item ++
  reportIf (ss.status ≠ rs.status)
    { category := .step, severity := .warning, title := "step_status",
      description := "Step status differs at index " ++ toString idx ++ ".",
      sourceValue := some ss.status.value, replayValue := some rs.status.value,
      path := pathPrefix ++ ".status", relatedStepId := rs.stepId : ReplayDiffFields }.item ++
  reportIf (ss.agent ≠ rs.agent)
    { category := .step, severity := .info, title := "step_agent",
      description := "Step agent binding differs at index " ++ toString idx ++ ".",
      sourceValue := some ss.agent, replayValue := some rs.agent,
      path := pathPrefix ++ ".agent", relatedStepId := rs.stepId : ReplayDiffFields }.item ++
  compareStepResults text repo ss rs pathPrefix

/-- What the loop reports of the steps at one position. -/
def compareStepsAt (srcSteps repSteps : List Step) (idx : Nat) : Items :=
  let pathPrefix := "steps[" ++ toString idx ++ "]"
  match srcSteps[idx]?, repSteps[idx]? with
  | none, none => nothing
  | none, some rs =>
      report { category := .step, severity := .significant, title := "extra_replay_step",
               description := "Replay has a step with no positional match in source ordering.",
               replayValue := brief text 400 (.obj (stepLabel rs)),
               path := pathPrefix, relatedStepId := rs.stepId : ReplayDiffFields }.item
  | some ss, none =>
      report { category := .step, severity := .significant, title := "missing_replay_step",
               description := "Source has a step with no positional match in replay ordering.",
               sourceValue := brief text 400 (.obj (stepLabel ss)),
               path := pathPrefix, relatedStepId := ss.stepId : ReplayDiffFields }.item
  | some ss, some rs => comparePairedSteps text repo idx ss rs pathPrefix

/-- The steps of an execution in the order in which they are paired. -/
def orderedSteps (executionId : UUID) : List Step := byCreatedAt Step.createdAt
    (repo.listStepsForExecution executionId)

def compareSteps : Items :=
  let srcSteps := orderedSteps repo source.executionId
  let repSteps := orderedSteps repo replay.executionId
  each (compareStepsAt text repo srcSteps repSteps)
    (List.range (max srcSteps.length repSteps.length))

def modelReasoningEvents (execution : Execution) : List Dict :=
  execution.traceTimeline.filter fun e => (e.get "event_type").isStr "model_reasoning"

/-- `{sp, rp} <= {"model_runtime", "deterministic_fallback"}`. -/
def isModelPath (path : Json) : Bool :=
  path.isStr "model_runtime" || path.isStr "deterministic_fallback"

/-- The item about two paths; a set cannot hold a list or a dictionary. -/
def modelPathItem (idx : Nat) (sp rp : Json) : Except Exn ReplayDiffItem :=
  if sp.Hashable ∧ rp.Hashable then
    { category := .modelReasoning,
      severity := if isModelPath sp && isModelPath rp then .warning else .significant,
      title := "model_path",
      description := "model_reasoning path differs at event index " ++ toString idx ++ ".",
      sourceValue := some (text.str sp), replayValue := some (text.str rp),
      path := "trace_timeline.model_reasoning[" ++ toString idx ++ "].path" :
        ReplayDiffFields }.item
  else .error ⟨.other "TypeError", "unhashable type"⟩

def compareModelEvents (idx : Nat) (se re : Dict) : Items :=
  reportIf (Json.Differs (se.get "path") (re.get "path")) (modelPathItem text idx (se.get "path")
    (re.get "path")) ++
  reportIf (Json.Differs (se.get "task") (re.get "task"))
    { category := .modelReasoning, severity := .info, title := "model_task",
      description := "model_reasoning task differs at event index " ++ toString idx ++ ".",
      sourceValue := some (text.str (se.get "task")), replayValue :=
        some (text.str (re.get "task")),
      path := "trace_timeline.model_reasoning[" ++ toString idx ++ "].task" :
        ReplayDiffFields }.item

def compareModelReasoning : Items :=
  let srcEvents := modelReasoningEvents source
  let repEvents := modelReasoningEvents replay
  reportIf (srcEvents.length ≠ repEvents.length)
    { category := .modelReasoning, severity := .warning, title := "model_reasoning_event_count",
      description := "Count of model_reasoning trace events differs.",
      sourceValue := some (toString srcEvents.length), replayValue :=
        some (toString repEvents.length),
      path := "trace_timeline.model_reasoning.count" : ReplayDiffFields }.item ++
  each (fun pair => compareModelEvents text pair.2 pair.1.1 pair.1.2)
    (srcEvents.zip repEvents).zipIdx

/-- `_all_tool_calls`. -/
def allToolCalls (executionId : UUID) : List ToolCall :=
  byCreatedAt ToolCall.createdAt
    ((orderedSteps repo executionId).flatMap fun step => repo.listToolCallsForStep step.stepId)

def comparePairedCalls (idx : Nat) (sc rc : ToolCall) : Items :=
  let pathPrefix := "tool_calls[" ++ toString idx ++ "]"
  reportIf (sc.toolName ≠ rc.toolName)
    { category := .toolCall, severity := .warning, title := "tool_name",
      description := "Tool name differs at index " ++ toString idx ++ ".",
      sourceValue := some sc.toolName, replayValue := some rc.toolName,
      path := pathPrefix ++ ".tool_name", relatedToolCallId := rc.toolCallId :
        ReplayDiffFields }.item ++
  reportIf (sc.status ≠ rc.status)
    { category := .toolCall, severity := .warning, title := "tool_call_status",
      description := "Tool call status differs at index " ++ toString idx ++ ".",
      sourceValue := some sc.status.value, replayValue := some rc.status.value,
      path := pathPrefix ++ ".status", relatedToolCallId := rc.toolCallId :
        ReplayDiffFields }.item ++
  reportIf (sc.sideEffectClass ≠ rc.sideEffectClass)
    { category := .toolCall, severity := .info, title := "side_effect_class",
      description := "Tool side-effect class differs.",
      sourceValue := some sc.sideEffectClass.value, replayValue := some rc.sideEffectClass.value,
      path := pathPrefix ++ ".side_effect_class", relatedToolCallId := rc.toolCallId :
        ReplayDiffFields }.item ++
  reportIf (sc.idempotency ≠ rc.idempotency)
    { category := .toolCall, severity := .info, title := "idempotency",
      description := "Tool idempotency declaration differs.",
      sourceValue := some sc.idempotency.value, replayValue := some rc.idempotency.value,
      path := pathPrefix ++ ".idempotency", relatedToolCallId := rc.toolCallId :
        ReplayDiffFields }.item

def compareToolCalls : Items :=
  let srcCalls := allToolCalls repo source.executionId
  let repCalls := allToolCalls repo replay.executionId
  reportIf (srcCalls.length ≠ repCalls.length)
    { category := .toolCall, severity := .warning, title := "tool_call_count",
      description := "Total tool call count differs (flattened across steps by created_at).",
      sourceValue := some (toString srcCalls.length), replayValue :=
        some (toString repCalls.length),
      path := "tool_calls.count" : ReplayDiffFields }.item ++
  each (fun pair => comparePairedCalls pair.2 pair.1.1 pair.1.2) (srcCalls.zip repCalls).zipIdx

def comparePairedEvaluations (idx : Nat) (se re : PolicyEvaluation) : Items :=
  let pathPrefix := "policy_evaluations[" ++ toString idx ++ "]"
  if se.decision ≠ re.decision then
    report { category := .policy, severity := .significant, title := "policy_decision",
             description := "Policy decision differs at evaluation index " ++ toString idx ++ ".",
             sourceValue := some se.decision.value, replayValue := some re.decision.value,
             path := pathPrefix ++ ".decision" : ReplayDiffFields }.item
  else
    reportIf (se.reason ≠ re.reason)
      { category := .policy, severity := .info, title := "policy_reason",
        description := "Policy reason text differs at evaluation index " ++ toString idx ++ ".",
        sourceValue := brief text 200 (.str se.reason), replayValue :=
          brief text 200 (.str re.reason),
        path := pathPrefix ++ ".reason" : ReplayDiffFields }.item

/-- Without evaluations on either side the proposals are not compared. -/
def comparePolicy : Items :=
  let srcEvals := repo.listPolicyEvaluationsForExecution source.executionId
  let repEvals := repo.listPolicyEvaluationsForExecution replay.executionId
  let srcProps := repo.listActionProposalsForExecution source.executionId
  let repProps := repo.listActionProposalsForExecution replay.executionId
  if srcEvals = [] ∧ repEvals = [] then nothing
  else
    reportIf (srcEvals.length ≠ repEvals.length)
      { category := .policy, severity := .warning, title := "policy_evaluation_count",
        description := "Number of policy evaluations differs.",
        sourceValue := some (toString srcEvals.length), replayValue :=
          some (toString repEvals.length),
        path := "policy_evaluations.count" : ReplayDiffFields }.item ++
    each (fun pair => comparePairedEvaluations text pair.2 pair.1.1 pair.1.2)
      (srcEvals.zip repEvals).zipIdx ++
    reportIf (srcProps.length ≠ repProps.length)
      { category := .policy, severity := .info, title := "action_proposal_count",
        description := "Action proposal count differs.",
        sourceValue := some (toString srcProps.length), replayValue :=
          some (toString repProps.length),
        path := "action_proposals.count" : ReplayDiffFields }.item

def comparePairedApprovals (idx : Nat) (sa ra : Approval) : Items :=
  reportIf (sa.decision ≠ ra.decision)
    { category := .policy, severity := .significant, title := "approval_decision",
      description := "Approval decision differs at index " ++ toString idx ++ ".",
      sourceValue := some sa.decision.value, replayValue := some ra.decision.value,
      path := "approvals[" ++ toString idx ++ "].decision" : ReplayDiffFields }.item

def compareApprovals : Items :=
  let srcAp := repo.listApprovalsForExecution source.executionId
  let repAp := repo.listApprovalsForExecution replay.executionId
  reportIf (srcAp.length ≠ repAp.length)
    { category := .policy, severity := .warning, title := "approval_count",
      description := "Number of approval records differs.",
      sourceValue := some (toString srcAp.length), replayValue := some (toString repAp.length),
      path := "approvals.count" : ReplayDiffFields }.item ++
  each (fun pair => comparePairedApprovals pair.2 pair.1.1 pair.1.2) (srcAp.zip repAp).zipIdx

def compareValidation : Items :=
  reportIf (Json.Differs (.ofOption .obj source.validationSummary)
    (.ofOption .obj replay.validationSummary))
    { category := .validation, severity := .warning, title := "validation_summary",
      description := "Execution-level validation_summary differs.",
      sourceValue := brief text 400 (.ofOption .obj source.validationSummary),
      replayValue := brief text 400 (.ofOption .obj replay.validationSummary),
      path := "execution.validation_summary" : ReplayDiffFields }.item

/-- A result that is an empty dictionary is reported as absent. -/
def resultPresence (result : Option Dict) : String := presence (Json.truthy (.ofOption .obj result))

def compareResult : Items :=
  match source.result, replay.result with
  | none, none => nothing
  | some src, some rep =>
      compareDictFields text (some src) (some rep) .result "execution.result"
        resultKeysOfInterest none .warning
  | src, rep =>
      report { category := .result, severity := .warning, title := "result_presence",
               description := "Top-level execution result present on one side only.",
               sourceValue := some (resultPresence src), replayValue := some (resultPresence rep),
               path := "execution.result" : ReplayDiffFields }.item

/-- All items, in the order in which they are collected. -/
def compareItems : Items :=
  compareLineage text source replay linked prov ++ compareExecutionHeader source replay ++
    compareInput text source replay prov ++ comparePlan repo source replay ++ compareSteps text repo
      source replay ++
    compareModelReasoning text source replay ++ compareToolCalls repo source replay ++
    comparePolicy text repo source replay ++ compareApprovals repo source replay ++
    compareValidation text source replay ++ compareResult text source replay

end

/-- `execution.model_dump(mode="json")`. -/
def modelDump (e : Execution) : Dict :=
  [("execution_id", .str e.executionId.str), ("workflow_type", .str e.workflowType),
    ("status", .str e.status.value), ("execution_mode", .str e.executionMode.value),
    ("execution_context_id", .str e.executionContextId.str),
    ("parent_execution_id", .ofOption (fun u => .str u.str) e.parentExecutionId),
    ("current_plan_id", .ofOption (fun u => .str u.str) e.currentPlanId), ("input", .obj e.input),
    ("result", .ofOption .obj e.result), ("trace_timeline", .arr (e.traceTimeline.map .obj)),
    ("validation_summary", .ofOption .obj e.validationSummary),
      ("created_at", .str e.createdAt.jsonText),
    ("updated_at", .str e.updatedAt.jsonText),
      ("completed_at", .ofOption (fun t => .str (Time.jsonText t)) e.completedAt),
    ("cancelled_at", .ofOption (fun t => .str (Time.jsonText t)) e.cancelledAt)]

/-- The second reading, which must find both rows as they were. -/
def unchanged (after : RepositoryReads) (sourceExecutionId replayExecutionId : UUID)
    (source replay : Execution) :
    Except Exn Unit :=
  match after.getExecution sourceExecutionId, after.getExecution replayExecutionId with
  | some srcAfter, some repAfter =>
      if Json.Differs (.obj (modelDump srcAfter)) (.obj (modelDump source)) then
        .error ⟨.other "ReplayDiffError", "source execution mutated during diff"⟩
      else if Json.Differs (.obj (modelDump repAfter)) (.obj (modelDump replay)) then
        .error ⟨.other "ReplayDiffError", "replay execution mutated during diff"⟩
      else .ok ()
  | _, _ => .error ⟨.other "ReplayDiffError", "execution disappeared during read-only diff"⟩

/-- `ReplayDiffService.compare`; `after` is what the repository holds at the second reading. -/
def compare (text : Rendering) (modelValidate : Dict → Option ReplayProvenance)
    (repo after : RepositoryReads) (sourceExecutionId replayExecutionId : UUID) :
    Except Exn ReplayDiffSummary :=
  match repo.getExecution sourceExecutionId, repo.getExecution replayExecutionId with
  | none, _ => .error ⟨.other "ReplayDiffNotFoundError", "source execution " ++
    sourceExecutionId.str ++ " not found"⟩
  | some _, none =>
      .error ⟨.other "ReplayDiffNotFoundError", "replay execution " ++
        replayExecutionId.str ++ " not found"⟩
  | some source, some replay => do
      let prov := provenance modelValidate replay
      let linked := isLinked modelValidate source replay
      let items ← compareItems text repo source replay linked prov
      let summary ← replayDiffSummary source replay (prov.map ReplayProvenance.replayMode) linked
        items
      unchanged after sourceExecutionId replayExecutionId source replay
      return summary

end ReplayDiffService
end AgenticPlatform
