import AgenticPlatform.Ranking.Stable
import AgenticPlatform.Rounding.HalfEven
import AgenticPlatform.ExecutionService
import Mathlib.Algebra.GroupWithZero.Nat
import Mathlib.Data.List.Infix
import Mathlib.Data.Rat.Defs

/-! The metrics of one execution, computed from its stored rows and its timeline. Rates are
exact. -/
namespace AgenticPlatform
namespace Evaluation
open Ranking

/-- The letters that lower to ASCII ones; other characters are kept. -/
def lowerChar (c : Char) : List Char :=
  if c = '\u212A' then ['k'] else if c = '\u0130' then ['i', '\u0307'] else [c.toLower]

/-- `s.lower()`, as far as ASCII text can be told from it. -/
def lowerText (s : String) : String := String.ofList (s.toList.flatMap lowerChar)

/-- `_step_type_key`. -/
def stepTypeKey (step : Step) : String := step.stepType.text

/-- `_planner_name`. -/
def plannerName (step : Step) : Option String := (step.input.get "planner_step_name").str?

/-- `_is_validation_like_step`. -/
def isValidationLikeStep (step : Step) : Bool :=
  step.stepType = .known .validation || lowerText (stepTypeKey step) = "validation" ||
    (plannerName step).any fun name => decide ("validate".toList <:+: (lowerText name).toList)

/-- The statuses of a validation that passed. -/
def passing (status : String) : Bool := ["passed", "success", "ok"].contains (lowerText status)

/-- What a validation-like step contributes. -/
def contribution (results : UUID → Option StepResult) (s : Step) : Option Bool :=
  match results s.stepId with
  | none => none
  | some sr =>
      match sr.validationOutcome with
      | some vo => some (passing vo.status)
      | none =>
          if s.status = .failed then some false
          else if s.status = .succeeded then
            match sr.output with
            | some output =>
                match output.get "validation_status" with
                | .str vs => some (passing vs)
                | _ => none
            | none => none
          else none

/-- `_validation_success_from_results`. -/
def validationSuccessFromResults (steps : List Step) (results : UUID → Option StepResult)
    (validationSummary : Option Dict) : Option Bool × String :=
  let vsteps := steps.filter isValidationLikeStep
  if vsteps.isEmpty then
    match validationSummary with
    | some (kv :: rest) =>
        let summary : Dict := kv :: rest
        match (summary.get "status").pyOr (summary.get "overall") with
        | .str status =>
            if ["passed", "success", "ok", "complete"].contains (lowerText status) then
              (some true, "validation_summary.status")
            else if ["failed", "fail", "error"].contains (lowerText status) then
              (some false, "validation_summary.status")
            else (none, "validation_summary present but no explicit status")
        | _ => (none, "validation_summary present but no explicit status")
    | _ => (none, "no validation-class step or validation_summary")
  else
    let outcomes := vsteps.filterMap (contribution results)
    if outcomes.isEmpty then (none, "validation steps present but no outcomes recorded")
    else (some (outcomes.all id), "aggregated validation step outcomes")

/-- Metrics computed from the trace, steps, results, tools and policy rows of one execution. -/
structure ExecutionMetrics where
  executionId : String
  workflowType : String
  executionStatus : String
  tenantId : Option String
  modelReasoningEventCount : Nat
  modelReasoningFallbackEventCount : Nat
  modelFallbackRate : Option Rat
  validationSuccess : Option Bool
  validationDetail : Option String
  policyDecisions : List String
  policyOutcome : Option String
  toolCallsTotal : Nat
  toolCallsSuccess : Nat
  toolSuccessRate : Option Rat
  stepLatencySumMs : Option Nat
  wallClockMs : Option Int
  totalLatencyMs : Option Int
  computationNotes : List String

def isReasoning (event : Dict) : Bool := (event.get "event_type").isStr "model_reasoning"

def isFallback (event : Dict) : Bool := (event.get "path").isStr "deterministic_fallback"

/-- `_model_reasoning_counts`. -/
def modelReasoningCounts (timeline : List Dict) : Nat × Nat :=
  let events := timeline.filter isReasoning
  (events.length, events.countP isFallback)

/-- `a / b` of two counts. -/
def ratio (a b : Nat) : Option Rat := if b = 0 then none else some ((a : Rat) / b)

/-- The double of a number. -/
def double (q : Rat) : Rat := Rounding.roundBinary 53 q

/-- `int(delta.total_seconds() * 1000)` of a difference in microseconds. -/
def wholeMs (delta : Int) : Int :=
  let ms := double (double (delta / 1000000) * 1000)
  ms.num.tdiv ms.den

-- 1.001 seconds are 1000.9999999999999 milliseconds
example : wholeMs 1001000 = 1000 := by decide +kernel

/-- `_wall_clock_ms`. -/
def wallClockMs (execution : Execution) : Option Int :=
  execution.completedAt.map fun completed => wholeMs ((completed : Int) - execution.createdAt)

/-- The sum of the latencies of the steps, if one has any. -/
def stepLatencySum (steps : List Step) (results : UUID → Option StepResult) : Option Nat :=
  let latencies := steps.filterMap fun s => (results s.stepId).bind StepResult.latencyMs
  if latencies.isEmpty then none else some latencies.sum

def computeExecutionMetrics (execution : Execution) (steps : List Step)
    (stepResults : UUID → Option StepResult) (toolCalls : List ToolCall)
    (policyEvaluations : List PolicyEvaluation) (tenantId : Option String) :
    ExecutionMetrics :=
  let (mrTotal, mrFb) := modelReasoningCounts execution.traceTimeline
  let (valOk, valDetail) := validationSuccessFromResults steps stepResults
    execution.validationSummary
  let evals := sortOn PolicyEvaluation.createdAt policyEvaluations
  let decisions := evals.map fun e => e.decision.value
  let tcTotal := toolCalls.length
  let tcOk := toolCalls.countP fun t => t.status = .success
  let stepSum := stepLatencySum steps stepResults
  let wc := wallClockMs execution
  { executionId := execution.executionId.str
    workflowType := execution.workflowType
    executionStatus := execution.status.value
    tenantId := tenantId
    modelReasoningEventCount := mrTotal
    modelReasoningFallbackEventCount := mrFb
    modelFallbackRate := ratio mrFb mrTotal
    validationSuccess := valOk
    validationDetail := some valDetail
    policyDecisions := decisions
    policyOutcome := decisions.getLast?
    toolCallsTotal := tcTotal
    toolCallsSuccess := tcOk
    toolSuccessRate := ratio tcOk tcTotal
    stepLatencySumMs := stepSum
    wallClockMs := wc
    totalLatencyMs := wc.or (stepSum.map Int.ofNat)
    computationNotes :=
      (if mrTotal = 0 then ["model_fallback_rate undefined: no model_reasoning timeline events"]
        else ["model_fallback_rate = count(model_reasoning with path=deterministic_fallback) / " ++
          "count(model_reasoning events)"]) ++
      ["validation_success: " ++ valDetail] ++
      (if evals.isEmpty then []
        else ["policy_decisions ordered by policy_evaluation.created_at"]) ++
      (if tcTotal = 0 then []
        else ["tool_success_rate uses ToolCallStatus.SUCCESS vs all tool_calls rows"]) ++
      (if wc.isSome then ["wall_clock_ms = completed_at - created_at"] else []) ++
      (if wc.isSome then
          ["total_latency_ms = wall_clock_ms (execution completed_at present; " ++
            "preferred over step sum)"]
        else if stepSum.isSome then
          ["total_latency_ms = step_latency_sum_ms (no completed_at wall clock; " ++
            "sum of StepResult.latency_ms)"]
        else ["total_latency_ms undefined: no wall clock and no step latencies"]) }

/-- The outcome that is stored for a step: the status of its validation, or without one what the
output of a succeeded step tells. -/
def recorded (results : UUID → Option StepResult) (s : Step) : Option String :=
  (results s.stepId).bind fun sr =>
    match sr.validationOutcome with
    | some vo => some vo.status
    | none => if s.status = .succeeded then sr.output.bind fun output =>
      (output.get "validation_status").str? else none

section
variable (results : UUID → Option StepResult) (s : Step)

def Passed : Prop := ∃ status, recorded results s = some status ∧ passing status = true

/-- The outcome is another one, or the step failed without an outcome. -/
def FailedValidation : Prop :=
  (∃ status, recorded results s = some status ∧ passing status = false) ∨
    recorded results s = none ∧ s.status = .failed ∧ (results s.stepId).isSome

end

section
variable {results : UUID → Option StepResult} {s : Step}

/-- A stored outcome is what a step contributes, and without one a failed step counts as failed. -/
theorem contribution_eq : contribution results s =
    match recorded results s with
    | some status => some (passing status)
    | none => if s.status = .failed ∧ (results s.stepId).isSome then some false else none := by
  unfold contribution recorded
  cases results s.stepId with
  | none => simp
  | some sr =>
      cases outcome : sr.validationOutcome with
      | some vo => simp [outcome]
      | none =>
          by_cases failed : s.status = .failed
          · simp [outcome, failed]
          · by_cases succeeded : s.status = .succeeded
            · cases out : sr.output with
              | none => simp [outcome, succeeded, out]
              | some output =>
                  cases vs : output.get "validation_status" with
                  | str text => simp [outcome, succeeded, out, vs, Json.str?]
                  | null | bool _ | int _ | float _ | arr _ | obj _ =>
                      simp [outcome, succeeded, out, vs, Json.str?]
            · simp [outcome, failed, succeeded]

theorem contribution_true : contribution results s = some true ↔ Passed results s := by
  rw [contribution_eq, Passed]
  cases recorded results s with
  | none => simp
  | some status => simp

theorem contribution_false : contribution results s = some false ↔ FailedValidation results s := by
  rw [contribution_eq, FailedValidation]
  cases recorded results s with
  | none => simp [Option.isSome_iff_ne_none]
  | some status => simp

end

section
variable {steps : List Step} {results : UUID → Option StepResult} {validationSummary : Option Dict}

/-- The value over validation-like steps. -/
theorem validationSuccess_eq (some_ : steps.filter isValidationLikeStep ≠ []) :
    (validationSuccessFromResults steps results validationSummary).1 =
      let outcomes := (steps.filter isValidationLikeStep).filterMap (contribution results)
      if outcomes = [] then none else some (outcomes.all id) := by
  have filled : ¬ (steps.filter isValidationLikeStep).isEmpty = true := by rwa [List.isEmpty_iff]
  unfold validationSuccessFromResults
  dsimp only
  rw [if_neg filled]
  by_cases empty : (steps.filter isValidationLikeStep).filterMap (contribution results) = []
  · rw [if_pos empty, empty]
    rfl
  · rw [if_neg empty, if_neg (by simpa [List.isEmpty_iff] using empty)]

/-- It is true exactly when some step passed and none failed. -/
theorem validationSuccess_true_iff (some_ : steps.filter isValidationLikeStep ≠ []) :
    (validationSuccessFromResults steps results validationSummary).1 = some true ↔
      (∃ s ∈ steps.filter isValidationLikeStep, Passed results s) ∧
      ∀ s ∈ steps.filter isValidationLikeStep, ¬ FailedValidation results s := by
  rw [validationSuccess_eq some_]
  -- What is folded are the contributions, of which a failed one is the only one that is not true.
  generalize steps.filter isValidationLikeStep = vsteps
  have known {b : Bool} : b ∈ vsteps.filterMap (contribution results) ↔
    ∃ s ∈ vsteps, contribution results s = some b :=
    List.mem_filterMap
  have noFalse : ((vsteps.filterMap (contribution results)).all id = true) ↔
      ∀ s ∈ vsteps, ¬ FailedValidation results s := by
    rw [List.all_eq_true]
    constructor
    · intro allTrue s member failed
      exact Bool.false_ne_true
        (allTrue false (known.mpr ⟨s, member, contribution_false.mpr failed⟩))
    · intro none b outcome
      cases b with
      | true => rfl
      | false =>
          obtain ⟨s, member, failed⟩ := known.mp outcome
          exact absurd (contribution_false.mp failed) (none s member)
  dsimp only
  split
  · next empty =>
      refine iff_of_false nofun fun ⟨⟨s, member, passed⟩, _⟩ => ?_
      have outcome := known.mpr ⟨s, member, contribution_true.mpr passed⟩
      rw [empty] at outcome
      cases outcome
  · next filled =>
      rw [Option.some_inj, noFalse]
      refine (and_iff_right_of_imp fun none => ?_).symm
      obtain ⟨b, outcome⟩ := List.exists_mem_of_ne_nil _ filled
      obtain ⟨s, member, contributes⟩ := known.mp outcome
      cases b with
      | true => exact ⟨s, member, contribution_true.mp contributes⟩
      | false => exact absurd (contribution_false.mp contributes) (none s member)

/-- It is false only when some step failed. -/
theorem failed_of_validationSuccess_false (some_ : steps.filter isValidationLikeStep ≠ [])
    (value : (validationSuccessFromResults steps results validationSummary).1 = some false) :
    ∃ s ∈ steps.filter isValidationLikeStep, FailedValidation results s := by
  rw [validationSuccess_eq some_] at value
  dsimp only at value
  split at value
  · cases value
  · obtain ⟨b, outcome, wrong⟩ := List.all_eq_false.mp (Option.some.inj value)
    obtain ⟨s, member, contributes⟩ := List.mem_filterMap.mp outcome
    obtain rfl : b = false := by simpa using wrong
    exact ⟨s, member, contribution_false.mp contributes⟩

/-- The value tells of no success that is not stored for every validation-like step. -/
def NotOverReported (steps : List Step) (results : UUID → Option StepResult)
    (value : Option Bool) : Prop :=
  steps.filter isValidationLikeStep ≠ [] →
    (value = some true → ∀ s ∈ steps.filter isValidationLikeStep, Passed results s) ∧
    ((∃ s ∈ steps.filter isValidationLikeStep, recorded results s = none) →
      (∀ s ∈ steps.filter isValidationLikeStep, ¬ FailedValidation results s) → value = none)

end

/-- Validation success is over-reported exactly when some validation-like step passed and none
failed, while another has no recorded outcome. -/
theorem validation_success_iff (execution : Execution) (steps : List Step)
    (stepResults : UUID → Option StepResult) (toolCalls : List ToolCall)
    (policyEvaluations : List PolicyEvaluation) (tenantId : Option String) :
    NotOverReported steps stepResults
      (computeExecutionMetrics execution steps stepResults toolCalls policyEvaluations
        tenantId).validationSuccess ↔
    ((∃ s ∈ steps.filter isValidationLikeStep, Passed stepResults s) →
      (∀ s ∈ steps.filter isValidationLikeStep, ¬ FailedValidation stepResults s) →
        ∀ s ∈ steps.filter isValidationLikeStep, Passed stepResults s) := by
  change NotOverReported steps stepResults (validationSuccessFromResults steps stepResults
    execution.validationSummary).1 ↔ _
  by_cases empty : steps.filter isValidationLikeStep = []
  · refine iff_of_true (fun filled => absurd empty filled) ?_
    rw [empty]
    exact fun _ _ => nofun
  · constructor
    · intro honest passed none
      exact (honest empty).1 ((validationSuccess_true_iff empty).mpr ⟨passed, none⟩)
    · intro complete _
      constructor
      · intro value
        obtain ⟨passed, none⟩ := (validationSuccess_true_iff empty).mp value
        exact complete passed none
      · rintro ⟨s, member, open_⟩ none
        match value :
          (validationSuccessFromResults steps stepResults execution.validationSummary).1 with
        | .none => rfl
        | some true =>
            obtain ⟨passed, _⟩ := (validationSuccess_true_iff empty).mp value
            obtain ⟨_, outcome, _⟩ := complete passed none s member
            rw [open_] at outcome
            cases outcome
        | some false =>
            obtain ⟨failing, member, failed⟩ := failed_of_validationSuccess_false empty value
            exact absurd failed (none failing member)

/-- A validation step of the generic execution. -/
def validationStep (stepId : UUID) : Step where
  stepId := stepId
  executionId := ⟨1⟩
  planId := ⟨9⟩
  stepType := .known .validation
  agent := "validator"
  input := []
  status := .succeeded
  dependencies := []
  retryCount := 0
  degradedAllowed := false
  createdAt := 0
  updatedAt := 0

/-- Only step 2 has a result, and it passed. -/
def onlyFirst (stepId : UUID) : Option StepResult :=
  if stepId = ⟨2⟩ then
    some
      { stepResultId := ⟨4⟩
        stepId := ⟨2⟩
        output := none
        evidence := []
        errors := []
        latencyMs := none
        latencyStartedAt := none
        latencyEndedAt := none
        confidenceScore := none
        confidenceDetail := none
        completeness := none
        validationOutcome := some ⟨"passed", []⟩
        createdAt := 0
        updatedAt := 0 }
  else none

/-- Two validation steps, of which one has no result. -/
theorem validation_success_over_reported : ¬ NotOverReported
    [validationStep ⟨2⟩, validationStep ⟨3⟩] onlyFirst
    (computeExecutionMetrics (executionOf genericRequest ⟨1⟩ ⟨0⟩ 0)
      [validationStep ⟨2⟩, validationStep ⟨3⟩] onlyFirst [] []
      none).validationSuccess := by
  intro honest
  have both : [validationStep ⟨2⟩, validationStep ⟨3⟩].filter isValidationLikeStep =
    [validationStep ⟨2⟩, validationStep ⟨3⟩] := rfl
  have value := (honest (by rw [both]; exact List.cons_ne_nil _ _)).1 (by decide)
  rw [both] at value
  obtain ⟨status, outcome, _⟩ := value (validationStep ⟨3⟩)
    (List.mem_cons_of_mem _ List.mem_cons_self)
  cases outcome

end Evaluation
end AgenticPlatform
