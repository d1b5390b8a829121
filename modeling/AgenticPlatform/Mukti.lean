import AgenticPlatform.Counting.Distinct
import AgenticPlatform.Counting.Grouped
import AgenticPlatform.Counting.Tally
import AgenticPlatform.Insights
import AgenticPlatform.Interaction.Raising
import AgenticPlatform.Ranking.Stable
import Mathlib.Data.List.Infix
import Mathlib.Data.Prod.Lex
import Mathlib.Data.String.Basic

/-! The advisory analyses after an execution: one feedback row of one execution, and the signals
that many rows have in common. -/
namespace AgenticPlatform
open Counting Interaction Ranking

/-- The artifacts of an execution that has ended; of a step record the step. -/
structure MuktiAnalysisInput where
  execution : Execution
  steps : List Step
  operatorFeedback : List OperatorFeedback
  policyEvaluations : List PolicyEvaluation
  actionProposals : List ActionProposal

namespace MuktiAnalyzer

def isPolicyDeniedRow (row : Dict) : Bool :=
  (row.get "event_type").isStr "governed_outcome" && (row.get "path").isStr "policy_denied"

def isFallbackRow (row : Dict) : Bool :=
  (row.get "event_type").isStr "model_reasoning" && (row.get "path").isStr "deterministic_fallback"

/-- Only ASCII letters lower to those of the label. -/
def isDisputed (fb : OperatorFeedback) : Bool := fb.labels.any fun x => x.toLower = "false_positive"

def isDenied (ev : PolicyEvaluation) : Bool := ev.decision = .deny

def isPolicyDenied (prop : ActionProposal) : Bool := prop.status = .policyDenied

def deniedSummary : String := "Review policy rules that denied this execution path."

def proposalSummary : String :=
  "Action proposal reached policy_denied; align workflow intent with policy pack."

variable (inp : MuktiAnalysisInput)

/-- The failure types in the order in which they are found. -/
def foundFailures : List String :=
  (if inp.execution.status = .failed then ["terminal_failed"] else []) ++
  (if inp.execution.status = .cancelled then ["terminal_cancelled"] else []) ++
  (if inp.steps.any fun step => step.status = .failed then ["step_failure"] else []) ++
  ((inp.policyEvaluations.filter isDenied).map fun _ => "policy_evaluation_deny") ++
  ((inp.execution.traceTimeline.filter isPolicyDeniedRow).map fun _ => "trace_policy_denied") ++
  ((inp.actionProposals.filter isPolicyDenied).map fun _ => "action_proposal_policy_denied")

def patterns : List PatternDetection :=
  ((inp.execution.traceTimeline.filter isFallbackRow).map fun row =>
    ⟨"model_deterministic_fallback",
      some "Structured model path fell back to deterministic StepExecutor.",
        [("step_id", row.get "step_id"), ("task", row.get "task"),
        ("error_class", row.get "error_class")]⟩) ++
  ((inp.operatorFeedback.filter isDisputed).map fun fb =>
    ⟨"operator_disputed_outcome", some "Operator flagged possible false positive.",
      [("feedback_record_id", .str fb.feedbackRecordId.str)]⟩) ++
  (if inp.execution.status = .completed ∧ foundFailures inp = [] then
    [⟨"clean_success_path",
      some "Execution completed with no classified failure signals in this analyzer pass.",
      [("workflow_type", .str inp.execution.workflowType)]⟩]
  else [])

def suggestions : List ImprovementSuggestion :=
  ((inp.policyEvaluations.filter isDenied).map fun ev =>
    ⟨"policy_rule", deniedSummary, [("evaluation_id", .str ev.evaluationId.str)]⟩) ++
  ((inp.actionProposals.filter isPolicyDenied).map fun prop =>
    ⟨"policy_rule", proposalSummary,
      [("proposal_id", .str prop.proposalId.str), ("action_type", .str prop.actionType)]⟩)

/-- `MuktiAnalyzer.analyze`, given the fresh identifier. -/
def analyze (feedbackId : UUID) (now : Time) : ExecutionFeedback where
  feedbackId := feedbackId
  executionId := inp.execution.executionId
  sourceScope := some [("analyzer", .str "deterministic_rule_pack_v1")]
  failureTypes := distinct (foundFailures inp)
  patternsDetected := patterns inp
  improvementSuggestions := suggestions inp
  advisoryConfidence := some (84 / 100)
  createdAt := now
  updatedAt := none

end MuktiAnalyzer

inductive InsightSeverity where
  | info | warning | elevated
  deriving DecidableEq

inductive InsightCategory where
  | topFailureType | recurringPattern | policyFriction | modelFallback | unstableWorkflow
  | unstableStep
  deriving DecidableEq

def InsightCategory.value : InsightCategory → String
  | topFailureType => "top_failure_type"
  | recurringPattern => "recurring_pattern"
  | policyFriction => "policy_friction"
  | modelFallback => "model_fallback"
  | unstableWorkflow => "unstable_workflow"
  | unstableStep => "unstable_step"

/-- The fields of one explainable signal. -/
structure InsightFields where
  insightId : UUID
  category : InsightCategory
  severity : InsightSeverity
  title : String
  description : String
  evidenceCount : Nat
  affectedWorkflows : List String
  affectedSteps : List String
  suggestedAction : String
  relatedExecutionIds : List UUID
  rankScore : Nat
  evidence : Dict

/-- The bounds of the schema. -/
structure InsightFields.Fits (i : InsightFields) : Prop where
  title : i.title.length ≤ 256
  description : i.description.length ≤ 2048
  affectedWorkflows : i.affectedWorkflows.length ≤ 32
  affectedSteps : i.affectedSteps.length ≤ 64
  suggestedAction : i.suggestedAction.length ≤ 1024
  relatedExecutionIds : i.relatedExecutionIds.length ≤ 200

instance (i : InsightFields) : Decidable i.Fits :=
  decidable_of_iff (i.title.length ≤ 256 ∧ i.description.length ≤ 2048 ∧
    i.affectedWorkflows.length ≤ 32 ∧
      i.affectedSteps.length ≤ 64 ∧ i.suggestedAction.length ≤ 1024 ∧
        i.relatedExecutionIds.length ≤ 200)
    ⟨fun ⟨a, b, c, d, e, f⟩ => ⟨a, b, c, d, e, f⟩, fun ⟨a, b, c, d, e, f⟩ => ⟨a, b, c, d, e, f⟩⟩

/-- One explainable signal, within the bounds of its schema. -/
abbrev CrossExecutionInsight := { i : InsightFields // i.Fits }

def InsightFields.build (i : InsightFields) : Except Exn CrossExecutionInsight :=
  if fits : i.Fits then .ok ⟨i, fits⟩
    else .error ⟨.validationError, "validation error for CrossExecutionInsight"⟩

/-- The fields of an aggregated suggestion. -/
structure SuggestionFields where
  rank : Nat
  category : String
  summary : String
  evidenceCount : Nat
  affectedWorkflows : List String
  relatedExecutionIds : List UUID
  suggestedAction : String
  detail : Dict
  deriving DecidableEq

structure SuggestionFields.Fits (r : SuggestionFields) : Prop where
  rank : 1 ≤ r.rank
  category : r.category.length ≤ 128
  summary : r.summary.length ≤ 512
  evidenceCount : 1 ≤ r.evidenceCount
  affectedWorkflows : r.affectedWorkflows.length ≤ 32
  relatedExecutionIds : r.relatedExecutionIds.length ≤ 200
  suggestedAction : r.suggestedAction.length ≤ 1024

instance (r : SuggestionFields) : Decidable r.Fits :=
  decidable_of_iff (1 ≤ r.rank ∧ r.category.length ≤ 128 ∧ r.summary.length ≤ 512 ∧
    1 ≤ r.evidenceCount ∧
      r.affectedWorkflows.length ≤ 32 ∧ r.relatedExecutionIds.length ≤ 200 ∧
        r.suggestedAction.length ≤ 1024)
    ⟨fun ⟨a, b, c, d, e, f, g⟩ => ⟨a, b, c, d, e, f, g⟩, fun ⟨a, b, c, d, e, f, g⟩ =>
      ⟨a, b, c, d, e, f, g⟩⟩

/-- Aggregated advisory suggestion ranked across executions, within the bounds of its schema. -/
abbrev RankedImprovementSuggestion := { r : SuggestionFields // r.Fits }

def SuggestionFields.build (r : SuggestionFields) : Except Exn RankedImprovementSuggestion :=
  if fits : r.Fits then .ok ⟨r, fits⟩
    else .error ⟨.validationError, "validation error for RankedImprovementSuggestion"⟩

structure MuktiInsightsSummary where
  scopeDescription : String
  executionFeedbackSampleSize : Nat
  topFailureTypes : List CrossExecutionInsight
  recurringPatterns : List CrossExecutionInsight
  policyFrictionAreas : List CrossExecutionInsight
  modelFallbackConcentration : List CrossExecutionInsight
  unstableWorkflowsOrSteps : List CrossExecutionInsight
  rankedImprovementSuggestions : List RankedImprovementSuggestion
  insights : List CrossExecutionInsight

namespace CrossExecutionAnalyzer

/-- What the analysis takes from outside: name-based identifiers, the order in which a set is
listed, and the floating-point share `a / b` with `int(rate * 100)` and `f"{rate:.0%}"`. -/
structure Platform where
  uuid5 : String → UUID
  listed : List UUID → List UUID
  listed_perm : ∀ ids, (listed ids).Perm ids
  share : Nat → Nat → Rat
  percent : Rat → Nat
  percentText : Rat → String

def severityForCount (count : Nat) : InsightSeverity :=
  if 5 ≤ count then .elevated else if 2 ≤ count then .warning else .info

/-- `sorted(names)[:n]`. -/
def firstSorted (n : Nat) (names : List String) : List String :=
  (names.insertionSort (· ≤ ·)).take n

/-- The tally of the signals, with the executions and the workflows of each. -/
structure Rollup where
  tally : Tally String
  execs : String → List UUID
  workflows : String → List String

/-- A signal of a feedback row, whose workflow is known or not. -/
def Rollup.note (r : Rollup) (executionId : UUID) (wf : Option String) (key : String) : Rollup where
  tally := r.tally.add key 1
  execs k := if k = key then insertNew executionId (r.execs k) else r.execs k
  workflows k :=
    match wf with
    | some w => if k = key then insertNew w (r.workflows k) else r.workflows k
    | none => r.workflows k

/-- The loop over the rows and the signals of each. -/
def rollup (keys : ExecutionFeedback → List String) (workflowOf : UUID → Option String)
    (feedback : List ExecutionFeedback) :
    Rollup :=
  feedback.foldl (fun r fb => (keys fb).foldl (fun r key => r.note fb.executionId
    (workflowOf fb.executionId) key) r)
    ⟨[], fun _ => [], fun _ => []⟩

section
variable (py : Platform)

def insightUuid (category : InsightCategory) (key : String) : UUID :=
  py.uuid5 ("mukti-v2:" ++ category.value ++ ":" ++ key)

/-- What the insights of tallied signals have in common. -/
def insightOf (r : Rollup) (category : InsightCategory) (weight : Nat) (keyName : String)
    (entry : String × Nat) (title description suggestedAction : String) : InsightFields where
  insightId := insightUuid py category entry.1
  category := category
  severity := severityForCount entry.2
  title := title
  description := description
  evidenceCount := entry.2
  affectedWorkflows := firstSorted 32 (r.workflows entry.1)
  affectedSteps := []
  suggestedAction := suggestedAction
  relatedExecutionIds := (r.execs entry.1).take 200
  rankScore := entry.2 * weight
  evidence := [(keyName, .str entry.1), ("feedback_row_hits", .int entry.2)]

def failureInsight (r : Rollup) (entry : String × Nat) : InsightFields :=
  insightOf py r .topFailureType 10 "failure_type" entry entry.1
    ("Failure type '" ++ entry.1 ++ "' appears in " ++ toString entry.2 ++
      " execution_feedback row(s) across " ++
      toString (r.workflows entry.1).length ++ " workflow type(s).")
    ("Investigate root cause for failure type '" ++ entry.1 ++ "' in affected workflows.")

def patternInsight (r : Rollup) (entry : String × Nat) : InsightFields :=
  insightOf py r .recurringPattern 8 "pattern_type" entry entry.1
    ("Pattern '" ++ entry.1 ++ "' recurs in " ++ toString entry.2 ++
      " execution_feedback row(s) (minimum 2 required for cross-execution flag).")
    ("Review trace evidence for recurring pattern '" ++ entry.1 ++ "'.")

/-- `key.removeprefix("suggestion:")`. -/
def signalTitle (key : String) : String :=
  if "suggestion:".toList <+: key.toList then String.ofList (key.toList.drop "suggestion:".length)
    else key

def frictionInsight (r : Rollup) (entry : String × Nat) : InsightFields :=
  insightOf py r .policyFriction 12 "signal_key" entry (slice (signalTitle entry.1) 0 256)
    ("Policy friction signal '" ++ signalTitle entry.1 ++ "' observed in " ++ toString entry.2 ++
      " execution_feedback row(s).")
    "Align workflow intent with policy pack; review deny and conditional rules."

def patternTypes (fb : ExecutionFeedback) : List String :=
  fb.patternsDetected.map PatternDetection.patternType

/-- A failure type that tells of the policy; only ASCII letters lower to those of the word. -/
def isPolicyFailure (ft : String) : Bool :=
  (["policy_evaluation_deny", "trace_policy_denied", "action_proposal_policy_denied"].any fun m =>
      decide (m.toList <:+: ft.toList)) || decide ("policy".toList <:+: ft.toLower.toList)

/-- `f"suggestion:{sug.summary[:80]}"`. -/
def suggestionKey (sug : ImprovementSuggestion) : String := "suggestion:" ++ slice sug.summary 0 80

def policySignals (fb : ExecutionFeedback) : List String :=
  fb.failureTypes.filter isPolicyFailure ++
    (fb.improvementSuggestions.filter fun sug => sug.category = "policy_rule").map suggestionKey

variable (workflowOf : UUID → Option String) (feedback : List ExecutionFeedback)

def topFailureTypes : List InsightFields :=
  let r := rollup ExecutionFeedback.failureTypes workflowOf feedback
  (r.tally.mostCommon 10).map (failureInsight py r)

def recurringPatterns : List InsightFields :=
  let r := rollup patternTypes workflowOf feedback
  ((r.tally.mostCommon 10).filter fun entry => 2 ≤ entry.2).map (patternInsight py r)

def policyFriction : List InsightFields :=
  let r := rollup policySignals workflowOf feedback
  (r.tally.mostCommon 8).map (frictionInsight py r)

def isFallbackPattern (pat : PatternDetection) : Bool :=
  pat.patternType = "model_deterministic_fallback"

/-- The step of a pattern, where its evidence names one. -/
def stepOf (pat : PatternDetection) : Option String := (Dict.get pat.evidence "step_id").str?

structure FallbackRollup where
  wfCounts : Tally String
  execs : List UUID
  stepIds : List String

def FallbackRollup.note (r : FallbackRollup) (fb : ExecutionFeedback) : FallbackRollup :=
  if fb.patternsDetected.any isFallbackPattern then
    { wfCounts :=
        match workflowOf fb.executionId with
        | some wf => r.wfCounts.add wf 1
        | none => r.wfCounts
      execs := insertNew fb.executionId r.execs
      stepIds := ((fb.patternsDetected.filter isFallbackPattern).filterMap stepOf).foldl
        (fun seen sid => insertNew sid seen)
        r.stepIds }
  else r

def fallbackRollup : FallbackRollup := feedback.foldl (FallbackRollup.note workflowOf) ⟨[], [], []⟩

def fallbackInsight (r : FallbackRollup) (entry : String × Nat) : InsightFields where
  insightId := insightUuid py .modelFallback ("wf:" ++ entry.1)
  category := .modelFallback
  severity := severityForCount entry.2
  title := "model_fallback_in_" ++ entry.1
  description := "Workflow '" ++ entry.1 ++ "' has " ++ toString entry.2 ++
    " execution(s) with 'model_deterministic_fallback' in Mukti feedback."
  evidenceCount := entry.2
  affectedWorkflows := [entry.1]
  affectedSteps := firstSorted 64 r.stepIds
  suggestedAction :=
    "Review model-runtime availability and step tasks using deterministic fallback."
  relatedExecutionIds := (r.execs.filter fun e => workflowOf e = some entry.1).take 200
  rankScore := entry.2 * 9
  evidence := [("pattern_type", .str "model_deterministic_fallback"),
    ("workflow_type", .str entry.1), ("execution_hits", .int entry.2)]

def globalFallback (r : FallbackRollup) : InsightFields where
  insightId := insightUuid py .modelFallback "global"
  category := .modelFallback
  severity := severityForCount r.execs.length
  title := "model_fallback_spread"
  description := toString r.execs.length ++
    " execution(s) recorded model deterministic fallback without workflow projections."
  evidenceCount := r.execs.length
  affectedWorkflows := []
  affectedSteps := firstSorted 64 r.stepIds
  suggestedAction := "Inspect model-runtime errors in trace timeline events."
  relatedExecutionIds := r.execs.take 200
  rankScore := r.execs.length * 9
  evidence := [("pattern_type", .str "model_deterministic_fallback"),
    ("execution_hits", .int r.execs.length)]

def modelFallbackConcentration : List InsightFields :=
  let r := fallbackRollup workflowOf feedback
  (r.wfCounts.mostCommon 8).map (fallbackInsight py workflowOf r) ++
    if 2 ≤ r.execs.length ∧ r.wfCounts = [] then [globalFallback py r] else []

/-- The feedback rows of each workflow. -/
def wfFeedback : Grouped String (List ExecutionFeedback) :=
  feedback.foldl (fun g fb =>
    match workflowOf fb.executionId with
    | some wf => Grouped.update [] (fun rows => rows ++ [fb]) wf g
    | none => g) []

variable (statusOf : UUID → Option ExecutionStatus)

/-- A row of an execution that failed or was cancelled. -/
def failedOrCancelled (fb : ExecutionFeedback) : Bool :=
  statusOf fb.executionId = some .failed || statusOf fb.executionId = some .cancelled

def workflowInsight (entry : String × List ExecutionFeedback) : InsightFields :=
  let n := entry.2.length
  let failed := entry.2.countP (failedOrCancelled statusOf)
  let rate := py.share failed n
  { insightId := insightUuid py .unstableWorkflow entry.1
    category := .unstableWorkflow
    severity := severityForCount n
    title := "unstable_workflow:" ++ entry.1
    description := "Workflow '" ++ entry.1 ++ "' shows " ++ toString failed ++ "/" ++ toString n ++
      " failed/cancelled executions in feedback sample (rate " ++ py.percentText rate ++
        ", threshold 50%)."
    evidenceCount := n
    affectedWorkflows := [entry.1]
    affectedSteps := []
    suggestedAction := "Stabilize workflow validation and policy paths for this workflow type."
    relatedExecutionIds := (entry.2.map ExecutionFeedback.executionId).take 200
    rankScore := py.percent rate + n
    evidence := [("workflow_type", .str entry.1), ("failed_or_cancelled", .int failed),
      ("sample_size", .int n), ("failure_rate", .float rate)] }

/-- Enough rows, of which at least half failed. -/
def isUnstable (entry : String × List ExecutionFeedback) : Bool :=
  2 ≤ entry.2.length ∧ 1 / 2 ≤ py.share (entry.2.countP (failedOrCancelled statusOf)) entry.2.length

/-- The executions of each step that a pattern names. -/
def stepExecs : Grouped String (List UUID) :=
  feedback.foldl (fun g fb =>
    (fb.patternsDetected.filterMap stepOf).foldl (fun g sid => Grouped.update []
      (insertNew fb.executionId) sid g) g) []

/-- `wf_by_exec` has workflows without a name, too. -/
def stepInsight (wfByExec : UUID → Option String) (entry : String × List UUID) : InsightFields where
  insightId := insightUuid py .unstableStep entry.1
  category := .unstableStep
  severity := severityForCount entry.2.length
  title := "unstable_step:" ++ slice entry.1 0 48
  description := "Step id '" ++ entry.1 ++ "' appears in patterns across " ++ toString
    entry.2.length ++
    " execution(s) (threshold 2)."
  evidenceCount := entry.2.length
  affectedWorkflows := firstSorted 32 (distinct (entry.2.filterMap wfByExec))
  affectedSteps := [entry.1]
  suggestedAction := "Inspect step executor, tools, and validation for this step id."
  relatedExecutionIds := (py.listed entry.2).take 200
  rankScore := entry.2.length * 7
  evidence := [("step_id", .str entry.1), ("distinct_executions", .int entry.2.length)]

def unstableWorkflows : List InsightFields :=
  ((wfFeedback workflowOf feedback).filter (isUnstable py statusOf)).map
    (workflowInsight py statusOf)

/-- The steps of the most executions. -/
def topSteps : List (String × List UUID) :=
  ((sortOn (fun entry : String × List UUID => OrderDual.toDual entry.2.length)
    (stepExecs feedback)).take 8).filter fun entry =>
    2 ≤ entry.2.length

/-- The category and the summary of a suggestion. -/
abbrev SuggestionName := String × String

def suggestionNames (fb : ExecutionFeedback) : List SuggestionName :=
  fb.improvementSuggestions.map fun sug => (sug.category, sug.summary)

/-- The executions that make a suggestion, once for every time. -/
def bucket : Grouped SuggestionName (List UUID) :=
  feedback.foldl (fun g fb =>
    (suggestionNames fb).foldl (fun g key => Grouped.update [] (fun ids => ids ++ [fb.executionId])
      key g) g) []

def wfBucket : Grouped SuggestionName (List String) :=
  feedback.foldl (fun g fb =>
    match workflowOf fb.executionId with
    | some wf => (suggestionNames fb).foldl (fun g key => Grouped.update [] (insertNew wf) key g) g
    | none => g) []

/-- `(-len(bucket[k]), k[0], k[1])`. -/
def rankKey (groups : Grouped SuggestionName (List UUID)) (k : SuggestionName) : ℕᵒᵈ ×ₗ
    (String ×ₗ String) :=
  toLex (OrderDual.toDual ((groups.get? k).getD []).length, toLex k)

def rankedKeys : List SuggestionName :=
  let groups := bucket feedback
  (sortOn (rankKey groups) groups.keys).take 15

def suggestionAt (key : SuggestionName) (rank : Nat) : SuggestionFields :=
  let execs := distinct (((bucket feedback).get? key).getD [])
  { rank := rank
    category := key.1
    summary := key.2
    evidenceCount := execs.length
    affectedWorkflows := firstSorted 32 (((wfBucket workflowOf feedback).get? key).getD [])
    relatedExecutionIds := execs.take 200
    suggestedAction :=
      if key.1 = "policy_rule" then "Review policy pack and workflow alignment."
      else "Address advisory category '" ++ key.1 ++ "' via governed release."
    detail := [("aggregation", .str "identical category+summary across execution_feedback rows")] }

def rankedSuggestions : List SuggestionFields :=
  ((rankedKeys feedback).zipIdx 1).map fun entry => suggestionAt workflowOf feedback entry.1 entry.2

end

/-- The summary of an execution: of several the last counts. -/
def summaryFor (inp : MuktiCrossExecutionInput) (id : UUID) : Option ExecutionSummary :=
  inp.executionSummaries.reverse.find? fun s => s.executionId = id

def wfByExec (inp : MuktiCrossExecutionInput) (id : UUID) : Option String :=
  (summaryFor inp id).map ExecutionSummary.workflowType

/-- `wf_by_exec.get(id)`, where it is true of. -/
def workflowOf (inp : MuktiCrossExecutionInput) (id : UUID) : Option String :=
  (wfByExec inp id).filter fun wf => wf ≠ ""

def statusOf (inp : MuktiCrossExecutionInput) (id : UUID) : Option ExecutionStatus :=
  (summaryFor inp id).map ExecutionSummary.status

section
variable (py : Platform) (inp : MuktiCrossExecutionInput)

/-- `_unstable_workflows_and_steps` before it is cut. -/
def unstable : List InsightFields :=
  unstableWorkflows py (workflowOf inp) inp.executionFeedback (statusOf inp) ++
    (topSteps inp.executionFeedback).map (stepInsight py (wfByExec inp))

def scopeText : String :=
  "Cross-execution analysis over " ++ toString inp.executionFeedback.length ++
    " execution_feedback row(s) with " ++
    toString (distinct (inp.executionSummaries.map ExecutionSummary.executionId)).length ++
    " execution summary projection(s)."

/-- `CrossExecutionAnalyzer.analyze`. -/
def analyze : Except Exn MuktiInsightsSummary :=
  if inp.executionFeedback.isEmpty then .ok ⟨"No execution_feedback rows in scope.", 0, [], [], [],
    [], [], [], []⟩
  else do
    let top ← (topFailureTypes py (workflowOf inp) inp.executionFeedback).mapM InsightFields.build
    let recurring ← (recurringPatterns py (workflowOf inp) inp.executionFeedback).mapM
      InsightFields.build
    let policy ← (policyFriction py (workflowOf inp) inp.executionFeedback).mapM InsightFields.build
    let fallback ← (modelFallbackConcentration py (workflowOf inp) inp.executionFeedback).mapM
      InsightFields.build
    let unstable ← (unstable py inp).mapM InsightFields.build
    let ranked ← (rankedSuggestions (workflowOf inp) inp.executionFeedback).mapM
      SuggestionFields.build
    pure
      { scopeDescription := scopeText inp
        executionFeedbackSampleSize := inp.executionFeedback.length
        topFailureTypes := top
        recurringPatterns := recurring
        policyFrictionAreas := policy
        modelFallbackConcentration := fallback
        unstableWorkflowsOrSteps := unstable.take 8
        rankedImprovementSuggestions := ranked
        insights := top ++ recurring ++ policy ++ fallback ++ unstable.take 8 }

end

section
variable {py : Platform} {inp : MuktiCrossExecutionInput} {summary : MuktiInsightsSummary}

theorem build_ok_iff {i : InsightFields} {made : CrossExecutionInsight} : i.build = .ok made ↔
    made.val = i := by
  unfold InsightFields.build
  split
  · next fits =>
      constructor
      · rintro ⟨⟩
        rfl
      · rintro rfl
        rfl
  · next long => exact iff_of_false nofun fun same => long (same ▸ made.property)

theorem buildSuggestion_ok_iff {r : SuggestionFields} {made : RankedImprovementSuggestion} :
    r.build = .ok made ↔ made.val = r := by
  unfold SuggestionFields.build
  split
  · next fits =>
      constructor
      · rintro ⟨⟩
        rfl
      · rintro rfl
        rfl
  · next long => exact iff_of_false nofun fun same => long (same ▸ made.property)

/-- What is built from fields has these fields. -/
theorem map_val_of_mapM {α : Type} {P : α → Prop} {build : α → Except Exn { a // P a }}
    {drafts : List α} {made : List { a // P a }} (ok : ∀ a m, build a = .ok m → m.val = a)
    (built : drafts.mapM build = .ok made) :
    made.map Subtype.val = drafts := by
  rw [mapM_ok_iff] at built
  induction built with
  | nil => rfl
  | cons first _ ih => rw [List.map_cons, ok _ _ first, ih]

/-- The lists of a summary, with the fields that are shown. -/
structure Shows (py : Platform) (inp : MuktiCrossExecutionInput) (summary : MuktiInsightsSummary) :
    Prop where
  topFailureTypes : summary.topFailureTypes.map Subtype.val = topFailureTypes py (workflowOf inp)
    inp.executionFeedback
  recurringPatterns : summary.recurringPatterns.map Subtype.val = recurringPatterns py
    (workflowOf inp) inp.executionFeedback
  policyFrictionAreas : summary.policyFrictionAreas.map Subtype.val = policyFriction py
    (workflowOf inp) inp.executionFeedback
  modelFallbackConcentration :
    summary.modelFallbackConcentration.map Subtype.val = modelFallbackConcentration py
      (workflowOf inp) inp.executionFeedback
  unstableWorkflowsOrSteps : summary.unstableWorkflowsOrSteps.map Subtype.val =
    (unstable py inp).take 8
  rankedImprovementSuggestions :
    summary.rankedImprovementSuggestions.map Subtype.val = rankedSuggestions (workflowOf inp)
      inp.executionFeedback
  insights : summary.insights = summary.topFailureTypes ++ summary.recurringPatterns ++
    summary.policyFrictionAreas ++
    summary.modelFallbackConcentration ++ summary.unstableWorkflowsOrSteps

/-- Without feedback there is nothing to show. -/
theorem shows_nil {scope : String} (empty : inp.executionFeedback = []) : Shows py inp
    ⟨scope, 0, [], [], [], [], [], [], []⟩ := by
  obtain ⟨feedback, summaries⟩ := inp
  obtain rfl : feedback = [] := empty
  exact ⟨rfl, rfl, rfl, rfl, rfl, rfl, rfl⟩

theorem analyze_shows (answer : analyze py inp = .ok summary) : Shows py inp summary := by
  unfold analyze at answer
  split at answer
  · next empty =>
      obtain rfl := Except.ok.inj answer
      exact shows_nil (List.isEmpty_iff.mp empty)
  · simp only [bind_ok_iff] at answer
    obtain ⟨top, topMade, recurring, recurringMade, policy, policyMade, fallback, fallbackMade, cut,
      cutMade, ranked, rankedMade, result⟩ := answer
    obtain rfl := Except.ok.inj result
    have ofInsight : ∀ (i : InsightFields) (made : CrossExecutionInsight), i.build = .ok made →
      made.val = i :=
      fun _ _ => build_ok_iff.mp
    refine ⟨map_val_of_mapM ofInsight topMade, map_val_of_mapM ofInsight recurringMade,
      map_val_of_mapM ofInsight policyMade, map_val_of_mapM ofInsight fallbackMade, ?_,
      map_val_of_mapM (fun _ _ => buildSuggestion_ok_iff.mp) rankedMade, rfl⟩
    rw [List.map_take, map_val_of_mapM ofInsight cutMade]

theorem built_iff {drafts : List InsightFields} :
    (∃ made, drafts.mapM InsightFields.build = .ok made) ↔ ∀ i ∈ drafts, i.Fits := by
  rw [mapM_ok_exists]
  refine forall₂_congr fun i _ => ?_
  simp only [build_ok_iff]
  exact ⟨fun ⟨made, same⟩ => same ▸ made.property, fun fits => ⟨⟨i, fits⟩, rfl⟩⟩

theorem builtSuggestions_iff {drafts : List SuggestionFields} :
    (∃ made, drafts.mapM SuggestionFields.build = .ok made) ↔ ∀ r ∈ drafts, r.Fits := by
  rw [mapM_ok_exists]
  refine forall₂_congr fun r _ => ?_
  simp only [buildSuggestion_ok_iff]
  exact ⟨fun ⟨made, same⟩ => same ▸ made.property, fun fits => ⟨⟨r, fits⟩, rfl⟩⟩

/-- Everything that is built is within the bounds of its schema. -/
structure AllFit (py : Platform) (inp : MuktiCrossExecutionInput) : Prop where
  topFailureTypes : ∀ i ∈ topFailureTypes py (workflowOf inp) inp.executionFeedback, i.Fits
  recurringPatterns : ∀ i ∈ recurringPatterns py (workflowOf inp) inp.executionFeedback, i.Fits
  policyFriction : ∀ i ∈ policyFriction py (workflowOf inp) inp.executionFeedback, i.Fits
  modelFallback : ∀ i ∈ modelFallbackConcentration py (workflowOf inp) inp.executionFeedback, i.Fits
  unstable : ∀ i ∈ unstable py inp, i.Fits
  ranked : ∀ r ∈ rankedSuggestions (workflowOf inp) inp.executionFeedback, r.Fits

theorem analyze_returns_iff : (∃ summary, analyze py inp = .ok summary) ↔ AllFit py inp := by
  unfold analyze
  split
  · next empty =>
      refine iff_of_true ⟨_, rfl⟩ ?_
      obtain ⟨feedback, summaries⟩ := inp
      obtain rfl : feedback = [] := List.isEmpty_iff.mp empty
      exact ⟨nofun, nofun, nofun, nofun, nofun, nofun⟩
  · simp only [exists_ok_bind]
    constructor
    · rintro ⟨_, top, _, recurring, _, policy, _, fallback, _, cut, _, ranked, _⟩
      exact ⟨built_iff.mp ⟨_, top⟩, built_iff.mp ⟨_, recurring⟩, built_iff.mp ⟨_, policy⟩,
        built_iff.mp ⟨_, fallback⟩, built_iff.mp ⟨_, cut⟩, builtSuggestions_iff.mp ⟨_, ranked⟩⟩
    · intro fit
      obtain ⟨_, top⟩ := built_iff.mpr fit.topFailureTypes
      obtain ⟨_, recurring⟩ := built_iff.mpr fit.recurringPatterns
      obtain ⟨_, policy⟩ := built_iff.mpr fit.policyFriction
      obtain ⟨_, fallback⟩ := built_iff.mpr fit.modelFallback
      obtain ⟨_, cut⟩ := built_iff.mpr fit.unstable
      obtain ⟨_, ranked⟩ := builtSuggestions_iff.mpr fit.ranked
      exact ⟨_, top, _, recurring, _, policy, _, fallback, _, cut, _, ranked, _, rfl⟩

end
end CrossExecutionAnalyzer

/-- Sets that are listed as they were made, and exact shares without texts. -/
def plainPlatform : CrossExecutionAnalyzer.Platform where
  uuid5 _ := ⟨0⟩
  listed ids := ids
  listed_perm ids := .refl ids
  share a b := (a : Rat) / b
  percent rate := (rate * 100).floor.toNat
  percentText _ := ""

end AgenticPlatform
