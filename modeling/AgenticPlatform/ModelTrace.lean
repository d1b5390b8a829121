import AgenticPlatform.ExecutionService
import AgenticPlatform.Work

/-! The trace of a step that may be done by the model runtime: which of the two paths its result
comes from, and what the one row of the timeline tells of it. -/
namespace AgenticPlatform
open Interaction ExecutionEngine

/-- The tasks of the model runtime. -/
inductive ModelTask where
  | analyzeIncident | validateIncident | analyzeCostAnomaly | validateCostAttribution

def ModelTask.name : ModelTask → String
  | analyzeIncident => "analyze_incident"
  | validateIncident => "validate_incident"
  | analyzeCostAnomaly => "analyze_cost_anomaly"
  | validateCostAttribution => "validate_cost_attribution"

/-- The output of a task. -/
inductive ModelAnswer where
  | analyzeIncident (out : IncidentAnalysisReasoningOutput)
  | validateIncident (out : IncidentValidationReasoningOutput)
  | analyzeCostAnomaly (out : CostAttributionReasoningOutput)
  | validateCostAttribution (out : CostValidationOutput)

namespace ModelAnswer

def providerLabel : ModelAnswer → String
  | analyzeIncident out => out.providerLabel
  | validateIncident out => out.providerLabel
  | analyzeCostAnomaly out => out.providerLabel
  | validateCostAttribution out => out.providerLabel

def invocation : ModelAnswer → Option ModelInvocationTelemetry
  | analyzeIncident out => out.invocation
  | validateIncident out => out.invocation
  | analyzeCostAnomaly out => out.invocation
  | validateCostAttribution out => out.invocation

/-- The result that the engine makes of an answer. -/
def stepResult (step : Step) (now : Time) : ModelAnswer → M StepResult
  | analyzeIncident out => stepResultFromAnalyzeModel step now out
  | validateIncident out => stepResultFromValidateModel step now out
  | analyzeCostAnomaly out => stepResultFromCostAnalyzeModel step now out
  | validateCostAttribution out => stepResultFromCostValidateModel step now out

end ModelAnswer

/-- The outputs of the steps of an execution, as they are stored. -/
def storedOutputs (w : World) (step : Step) : List (Json × Dict) :=
  (w.repo.listStepsForExecution step.executionId).map fun s =>
    (plannerStepName s, ((w.repo.stepResults.get s.stepId).bind StepResult.output).getD [])

section
variable (engine : ExecutionEngine) (env : Env) (w : World) (step : Step)

/-- What the model runtime answers to the request that a step makes of the stored outputs. -/
def modelAnswer : ModelTask → Except Exn ModelAnswer
  | .analyzeIncident =>
      let exIn := executionInput step
      (env.analyzeIncident w.asked ⟨step.executionId, step.stepId, incidentIdFromInput engine.text
        exIn, "incident_triage", inputExcerpt exIn⟩).map .analyzeIncident
  | .validateIncident =>
      let analyzeOut := outputOf (storedOutputs w step) "analyze_incident"
      let gatherOut := outputOf (storedOutputs w step) "gather_evidence"
      (env.validateIncident w.asked ⟨step.executionId, step.stepId,
        incidentIdFromInput engine.text (executionInput step), engine.textsOfField analyzeOut
          "possible_causes",
        engine.textOfField analyzeOut "incident_summary",
        engine.textOfField gatherOut "evidence_summary"⟩).map .validateIncident
  | .analyzeCostAnomaly =>
      let exIn := executionInput step
      (env.analyzeCostAnomaly w.asked ⟨step.executionId, step.stepId, scopeIdFromInput engine.text
        exIn, "cost_attribution", inputExcerpt exIn⟩).map .analyzeCostAnomaly
  | .validateCostAttribution =>
      let analyzeOut := outputOf (storedOutputs w step) "analyze_cost_anomaly"
      let retrieveOut := outputOf (storedOutputs w step) "retrieve_cost_evidence"
      (env.validateCostAttribution w.asked ⟨step.executionId, step.stepId,
        scopeIdFromInput engine.text (executionInput step), engine.textOfField analyzeOut
          "attribution_summary",
        engine.textOfField retrieveOut "evidence_summary",
        engine.textsOfField analyzeOut "optimization_candidates"⟩).map .validateCostAttribution

end

/-- The source that a result gives for its confidence. -/
def sourceOf (result : StepResult) : Json := Dict.get (result.confidenceDetail.getD []) "source"

/-- `row.get(key)` where it is a text, or the empty one. -/
def readText (row : Dict) (key : String) : String := (row.get key).str?.getD ""

/-- What the trace tells of a result: whose step it is, and which of the two paths it comes from. -/
structure Traces (engine : ExecutionEngine) (env : Env) (step : Step) (now : Time)
    (task : ModelTask) (answer : Except Exn ModelAnswer) (result : StepResult)
    (row : Dict) : Prop where
  type : row.get "event_type" = .str "model_reasoning"
  stepId : row.get "step_id" = .str step.stepId.str
  task : row.get "task" = .str task.name
  path : row.get "path" = .str "model_runtime" ∨ row.get "path" = .str "deterministic_fallback"
  model : row.get "path" = .str "model_runtime" ↔
    ∃ out t, answer = .ok out ∧ (run (handle env) (out.stepResult step now) t).1 = .ret result
  fallback : row.get "path" = .str "deterministic_fallback" ↔
    ∃ exc t, answer = .error exc ∧ (run (handle env) (executeStep engine.text step) t).1 =
      .ret result ∧
      readText row "error_class" = exc.cls.name
  source : row.get "path" = .str "model_runtime" ↔ sourceOf result = .str "model_runtime"

section
variable {step : Step} {now : Time} {path task : String}
  {provider errorClass errorMessage : Option String}
  {invocation : Option Dict}

/-- The fields of a trace row that are always there. -/
theorem reasoningRow_get {key : String} {v : Json}
    (known : (key, v) ∈ [("event_type", .str "model_reasoning"),
      ("step_id", .str step.stepId.str), ("path", .str path), ("task", .str task)]) :
    (timelineRow "model_reasoning" (modelReasoningDetail step path task provider errorClass
      errorMessage invocation) now).get
      key = v := by
  simp only [List.mem_cons, Prod.mk.injEq, List.not_mem_nil, or_false] at known
  simp only [timelineRow, modelReasoningDetail, List.append_assoc]
  rw [Dict.get, Dict.merge_append, Dict.get?_merge_of_absent]
  · rcases known with ⟨rfl, rfl⟩ | ⟨rfl, rfl⟩ | ⟨rfl, rfl⟩ | ⟨rfl, rfl⟩
    all_goals rfl
  · rcases known with ⟨rfl, _⟩ | ⟨rfl, _⟩ | ⟨rfl, _⟩ | ⟨rfl, _⟩
    all_goals cases invocation <;> simp [optionalField_get?]

/-- The row of a fallback names the exception. -/
theorem fallbackRow_error {exc : Exn} : readText (timelineRow "model_reasoning"
    (modelReasoningDetail step path task none (some exc.cls.name) (some exc.text) none) now)
      "error_class" =
      exc.cls.name := by
  simp only [timelineRow, modelReasoningDetail, List.append_assoc]
  rw [readText, Dict.get, Dict.merge_append, Dict.merge_append, Dict.merge_append,
    Dict.get?_merge_of_absent]
  · unfold optionalField
    by_cases empty : exc.cls.name = ""
    · simp only [empty, if_true]
      rfl
    · simp only [empty, if_false]
      rfl
  · simp [optionalField_get?]

end

section
variable {engine : ExecutionEngine} {env : Env} {w : World} {step : Step} {now : Time}
  {ex : Execution}

/-- A trace appends its rows to the stored execution. -/
theorem recordTrace_appends {id : UUID} {events : List Event} {Q : Outcome Exn Unit → World → Prop}
    (stored : w.execution id = some ex)
    (next : ∀ t, t.execution id = some (appendEvents ex events now) → Q (.ret ()) t) :
    wp (handle env).sem (recordTrace id events now) Q w := by
  have ident : (appendEvents ex events now).executionId = id := by
    rw [appendEvents_eq]
    exact (Store.Table.get_eq_some.mp stored).2
  refine wp_sem_ok (congrArg Except.ok stored) ?_
  have known : (w.repo.executions.get (appendEvents ex events now).executionId).isSome = true := by
    rw [ident]
    exact Option.isSome_iff_exists.mpr ⟨ex, stored⟩
  refine wp_perform.mpr ⟨trivial, fun r t answered => ?_⟩
  obtain ⟨rfl, rfl⟩ := Prod.mk.inj ((if_pos known).symm.trans answered)
  refine next _ ?_
  rw [← ident]
  exact Store.Table.get_put_self

/-- Reading the stored outputs changes nothing. -/
theorem priorOutputs_reads (steps : List Step) : wp (handle env).sem
    (priorOutputs steps) (fun o t =>
    t = w ∧ o = .ret (steps.map fun s =>
      (plannerStepName s, ((w.repo.stepResults.get s.stepId).bind StepResult.output).getD [])))
        w := by
  induction steps with
  | nil => exact ⟨rfl, rfl⟩
  | cons s rest ih =>
      refine wp_sem_ok rfl ?_
      rw [wp_bind]
      refine wp_mono ?_ ih
      rintro _ _ ⟨rfl, rfl⟩
      exact ⟨rfl, rfl⟩

/-- What the executor does: the repository is left alone, and the result does not name the model
runtime. -/
def Simulates (repo : Repository) (o : Outcome Exn StepResult) (t : World) : Prop :=
  t.repo = repo ∧ ∀ result, o = .ret result → sourceOf result ≠ .str "model_runtime"

theorem shortDigest_simulates {s : String} {n : Nat} {f : String → M StepResult}
    (next : ∀ digest, wp (handle env).sem (f digest) (Simulates w.repo) w) :
    wp (handle env).sem (shortDigest s n >>= f) (Simulates w.repo) w := by
  rw [wp_bind]
  cases answer : env.sha256 s with
  | ok digest => exact wp_sem_ok answer (next _)
  | error e => exact wp_sem_error answer ⟨rfl, nofun⟩

theorem result_simulates {output detail : Dict} {evidence : List Dict} {confidence : Confidence}
    {outcome : Option ValidationOutcome} {ts : Time}
    (source : detail.get "source" ≠ .str "model_runtime") : wp (handle env).sem (do
      let rid ← M.uuid4
      pure (fullResult rid step ts output evidence confidence detail outcome))
        (Simulates w.repo) w := by
  refine wp_sem_ok rfl ⟨rfl, ?_⟩
  rintro _ ⟨⟩
  exact source

theorem executeGenericStep_simulates {text : Rendering} {ts : Time} :
    wp (handle env).sem (executeGenericStep text step ts) (Simulates w.repo) w :=
  shortDigest_simulates fun _ => result_simulates (by simp [Dict.get])

theorem executeStep_simulates {text : Rendering} : wp (handle env).sem (executeStep text step)
    (Simulates w.repo) w := by
  refine wp_ite (fun _ => ⟨rfl, nofun⟩) fun _ => wp_sem_ok rfl ?_
  change wp (handle env).sem _ (Simulates (handle env w .now).2.repo) (handle env w .now).2
  split
  · exact wp_ite
      (fun _ => shortDigest_simulates fun _ => shortDigest_simulates fun _ => result_simulates
        (by simp [Dict.get]))
      fun _ => wp_ite
        (fun _ => shortDigest_simulates fun _ => shortDigest_simulates fun _ => result_simulates
          (by simp [Dict.get]))
        fun _ => executeGenericStep_simulates
  · exact executeGenericStep_simulates

/-- After the trace of an answer nothing raises, and the result names the model runtime. -/
theorem stepResult_returns {out : ModelAnswer} : wp (handle env).sem
    (out.stepResult step now) (fun o t =>
    t.repo = w.repo ∧ ∃ result, o = .ret result ∧ sourceOf result = .str "model_runtime") w := by
  cases out with
  | analyzeIncident | validateIncident | analyzeCostAnomaly | validateCostAttribution =>
      exact wp_sem_ok rfl ⟨rfl, _, rfl, rfl⟩

/-- The one row that a returned result leaves. -/
def LeavesRow (engine : ExecutionEngine) (env : Env) (step : Step) (now : Time) (task : ModelTask)
    (answer : Except Exn ModelAnswer) (ex : Execution) (o : Outcome Exn StepResult)
    (t : World) : Prop :=
  ∀ result, o = .ret result → ∃ row, (t.execution step.executionId).map Execution.traceTimeline =
    some (ex.traceTimeline ++ [row]) ∧ Traces engine env step now task answer result row

theorem appended_timeline {event : Event} {t u : World}
    (appended : t.execution step.executionId = some (appendEvents ex [event] now))
    (same : u.repo = t.repo) : (u.execution step.executionId).map Execution.traceTimeline =
      some (ex.traceTimeline ++ [timelineRow event.1 event.2 now]) := by
  have still : u.execution step.executionId = t.execution step.executionId :=
    congrArg (fun repo : Repository => repo.executions.get step.executionId) same
  rw [still, appended, appendEvents_eq]
  rfl

theorem model_traces {task : ModelTask} {out : ModelAnswer}
    (stored : w.execution step.executionId = some ex) :
    wp (handle env).sem
      (traceModelAnswer step task.name now out.providerLabel out.invocation >>= fun _ =>
        out.stepResult step now)
      (fun o t => o.isRet = true ∧ LeavesRow engine env step now task (.ok out) ex o t) w := by
  rw [wp_bind]
  refine recordTrace_appends stored fun t appended => ?_
  obtain ⟨same, result, returned, source⟩ := (wp_sem_iff (handle env) _ _ t).mp
    (@stepResult_returns env t step now out)
  refine (wp_sem_iff (handle env) _ _ t).mpr ⟨by rw [returned]; rfl, fun result' returned' => ?_⟩
  obtain rfl := Outcome.ret.inj (returned.symm.trans returned')
  have row := @reasoningRow_get step now "model_runtime" task.name
    (some out.providerLabel) none none
    (out.invocation.map ModelInvocationTelemetry.modelDump)
  have path := @row "path" (.str "model_runtime") (by simp)
  refine ⟨_, appended_timeline appended same, row (by simp), row (by simp), row (by simp),
    .inl path, ?_, ?_, ?_⟩
  · exact iff_of_true path ⟨out, t, rfl, returned⟩
  · refine iff_of_false ?_ nofun
    rw [path]
    simp
  · exact iff_of_true path source

theorem fallback_traces {task : ModelTask} {exc : Exn}
    (stored : w.execution step.executionId = some ex) :
    wp (handle env).sem
      (traceModelReasoning step "deterministic_fallback" task.name now none (some exc.cls.name)
        (some exc.text) none >>= fun _ => executeStep engine.text step)
      (LeavesRow engine env step now task (.error exc) ex) w := by
  rw [wp_bind]
  refine recordTrace_appends stored fun t appended => ?_
  obtain ⟨same, source⟩ := (wp_sem_iff (handle env) _ _ t).mp
    (@executeStep_simulates env t step engine.text)
  refine (wp_sem_iff (handle env) _ _ t).mpr fun result returned => ?_
  have row := @reasoningRow_get step now "deterministic_fallback" task.name none (some exc.cls.name)
    (some exc.text) none
  have path := @row "path" (.str "deterministic_fallback") (by simp)
  have other : (.str "deterministic_fallback" : Json) ≠ .str "model_runtime" := by simp
  refine ⟨_, appended_timeline appended same, row (by simp), row (by simp), row (by simp),
    .inr path, ?_, ?_, ?_⟩
  · exact iff_of_false (path ▸ other) nofun
  · exact iff_of_true path ⟨exc, t, rfl, returned, fallbackRow_error⟩
  · exact iff_of_false (path ▸ other) (source result returned)

/-- A request to the model runtime, with the executor behind it. -/
theorem asked_traces {op : Op} {answer : Except Exn op.Res} {answerOf : op.Res → ModelAnswer}
    {task : ModelTask} (asks : handle env w op = (answer, w.ask))
    (stored : w.execution step.executionId = some ex) :
    wp (handle env).sem (M.perform op >>= fun out =>
        traceModelAnswer step task.name now (answerOf out).providerLabel
          (answerOf out).invocation >>= fun _ =>
          (answerOf out).stepResult step now)
      (orElse (handle env).sem (fun exc => traceModelReasoning step "deterministic_fallback"
        task.name now none
          (some exc.cls.name) (some exc.text) none >>= fun _ => executeStep engine.text step)
        (LeavesRow engine env step now task (answer.map answerOf) ex)) w := by
  have asked : (handle env w op).2.execution step.executionId = some ex := by
    rw [asks]
    exact stored
  cases answer with
  | ok out =>
      refine wp_sem_ok (congrArg Prod.fst asks)
        (wp_mono ?_ (@model_traces engine env _ step now ex task (answerOf out) asked))
      rintro o t ⟨returned, traced⟩
      obtain ⟨result, rfl⟩ := Outcome.isRet_iff.mp returned
      exact traced
  | error exc => exact wp_sem_error (congrArg Prod.fst asks) (fallback_traces asked)

/-- The outputs of the prior steps are read before. -/
theorem prior_traces {α : Type} {rest : List (Json × Dict) → M α} {Q : Outcome Exn α → World → Prop}
    (next : wp (handle env).sem (rest (storedOutputs w step)) Q w) :
    wp (handle env).sem (M.listStepsForExecution step.executionId >>= fun steps => priorOutputs
      steps >>= rest) Q w := by
  refine wp_sem_ok rfl ?_
  rw [wp_bind]
  refine wp_mono ?_ (priorOutputs_reads (w.repo.listStepsForExecution step.executionId))
  rintro _ _ ⟨rfl, rfl⟩
  exact next

/-- The workflow of a task. -/
def ModelTask.workflow : ModelTask → String
  | analyzeIncident | validateIncident => "incident_triage"
  | analyzeCostAnomaly | validateCostAttribution => "cost_attribution"

/-- A step on the model path has one of the four tasks. -/
theorem model_task (model : engine.shouldUseModelForStep step = true) : ∃ task : ModelTask,
    stepWorkflowType step = .str task.workflow ∧ plannerStepName step = .str task.name := by
  unfold shouldUseModelForStep at model
  split at model
  · cases model
  · dsimp only at model
    split at model
    · next incident =>
        rw [Bool.or_eq_true, Json.isStr_iff, Json.isStr_iff] at model
        rcases model with analyze | validate
        · exact ⟨.analyzeIncident, Json.isStr_iff.mp incident, analyze⟩
        · exact ⟨.validateIncident, Json.isStr_iff.mp incident, validate⟩
    · split at model
      · next cost =>
          rw [Bool.or_eq_true, Json.isStr_iff, Json.isStr_iff] at model
          rcases model with analyze | validate
          · exact ⟨.analyzeCostAnomaly, Json.isStr_iff.mp cost, analyze⟩
          · exact ⟨.validateCostAttribution, Json.isStr_iff.mp cost, validate⟩
      · cases model

theorem model_not_tooling {task : ModelTask} (workflow : stepWorkflowType step = .str task.workflow)
    (name : plannerStepName step = .str task.name) :
    engine.shouldUseToolingForStep step = false := by
  unfold shouldUseToolingForStep
  split
  · rfl
  · rw [workflow, name]
    cases task
    all_goals simp [ModelTask.workflow, ModelTask.name]

theorem stepWork_traces {task : ModelTask} (model : engine.shouldUseModelForStep step = true)
    (workflow : stepWorkflowType step = .str task.workflow)
    (name : plannerStepName step = .str task.name)
    (stored : w.execution step.executionId = some ex) : wp (handle env).sem
      (engine.stepWork step now) (LeavesRow engine env step now task
        (modelAnswer engine env w step task) ex) w := by
  unfold stepWork
  simp only [model_not_tooling workflow name, model, if_true, Bool.false_eq_true, if_false]
  cases task with
  | analyzeIncident =>
      have incident : ¬ (stepWorkflowType step).isStr "cost_attribution" = true := by
        rw [workflow]; decide
      have own : (plannerStepName step).isStr "analyze_incident" = true := by rw [name]; decide
      rw [if_neg incident, incidentModelReasoningStep, if_pos own, orFallback, wp_tryCatch]
      exact @asked_traces engine env w step now ex (.analyzeIncident _) _ .analyzeIncident
        .analyzeIncident rfl stored
  | validateIncident =>
      have incident : ¬ (stepWorkflowType step).isStr "cost_attribution" = true := by
        rw [workflow]; decide
      have other : ¬ (plannerStepName step).isStr "analyze_incident" = true := by rw [name]; decide
      have own : (plannerStepName step).isStr "validate_incident" = true := by rw [name]; decide
      rw [if_neg incident, incidentModelReasoningStep, if_neg other, if_pos own,
        orFallback, wp_tryCatch]
      refine prior_traces ?_
      exact @asked_traces engine env w step now ex (.validateIncident _) _ .validateIncident
        .validateIncident rfl stored
  | analyzeCostAnomaly =>
      have cost : (stepWorkflowType step).isStr "cost_attribution" = true := by
        rw [workflow]; decide
      have own : (plannerStepName step).isStr "analyze_cost_anomaly" = true := by rw [name]; decide
      rw [if_pos cost, costModelReasoningStep, if_pos own, orFallback, wp_tryCatch]
      exact @asked_traces engine env w step now ex (.analyzeCostAnomaly _) _ .analyzeCostAnomaly
        .analyzeCostAnomaly rfl
        stored
  | validateCostAttribution =>
      have cost : (stepWorkflowType step).isStr "cost_attribution" = true := by
        rw [workflow]; decide
      have other : ¬ (plannerStepName step).isStr "analyze_cost_anomaly" = true := by
        rw [name]; decide
      have own : (plannerStepName step).isStr "validate_cost_attribution" = true := by
        rw [name]; decide
      rw [if_pos cost, costModelReasoningStep, if_neg other, if_pos own, orFallback, wp_tryCatch]
      refine prior_traces ?_
      exact @asked_traces engine env w step now ex (.validateCostAttribution _) _
        .validateCostAttribution
        .validateCostAttribution rfl stored

end

/-- A result on the model path leaves exactly one row, which tells what the result is made of. -/
theorem model_step_traced (engine : ExecutionEngine) (env : Env) (w : World) (step : Step)
    (now : Time) (ex : Execution) (result : StepResult)
    (model : engine.shouldUseModelForStep step = true)
    (stored : w.execution step.executionId = some ex)
    (returned : (run (handle env) (engine.stepWork step now) w).1 = .ret result) :
    ∃ task row, plannerStepName step = .str task.name ∧
      ((run (handle env) (engine.stepWork step now) w).2.execution step.executionId).map
        Execution.traceTimeline =
        some (ex.traceTimeline ++ [row]) ∧
      Traces engine env step now task (modelAnswer engine env w step task) result row := by
  obtain ⟨task, workflow, name⟩ := model_task model
  have traced := (wp_sem_iff (handle env) _ _ w).mp (@stepWork_traces engine env w step now ex task
    model workflow name stored)
  obtain ⟨row, timeline, traces⟩ := traced result returned
  exact ⟨task, row, name, timeline, traces⟩

/-- A model that answers every analysis. -/
def Env.analyzing : Env :=
  { Env.refusing with
    analyzeIncident := fun _ _ => .ok
      ⟨"latency spike", ["config_drift"], "inv-1", "fake",
        none, by decide, by decide, by decide, by decide⟩ }

/-- A running analysis. -/
def analyzingStep : Step where
  stepId := ⟨2⟩
  executionId := ⟨1⟩
  planId := ⟨3⟩
  stepType := .known .reasoning
  agent := "reasoning_agent_v1"
  input := [("workflow_type", .str "incident_triage"),
    ("planner_step_name", .str "analyze_incident")]
  status := .running
  dependencies := []
  retryCount := 0
  degradedAllowed := false
  createdAt := 0
  updatedAt := 0

/-- The execution of the analysis. -/
def analyzingWorld : World :=
  { World.init with
    repo :=
      { Repository.empty with
        executions := Store.Table.empty.put (executionOf genericRequest ⟨1⟩ ⟨0⟩ 0) }
    fresh := 4 }

/-- The result of the analysis by the model. -/
def analyzedResult : StepResult :=
  fullResult ⟨4⟩ analyzingStep 0
    [("incident_summary", .str "latency spike"), ("possible_causes", .arr [.str "config_drift"])]
    [[("type", .str "model_reasoning"), ("provider", .str "fake"), ("invocation_id", .str "inv-1"),
      ("task", .str "analyze_incident")]]
    analysisConfidence [("source", .str "model_runtime"), ("provider", .str "fake"),
      ("task", .str "analyze_incident")] none

theorem model_step_traced_analysis : ∃ task row, plannerStepName analyzingStep = .str task.name ∧
    ((run (handle .analyzing) ((ExecutionEngine.default .flat).stepWork analyzingStep 0)
      analyzingWorld).2.execution ⟨1⟩).map Execution.traceTimeline = some ([] ++ [row]) ∧
    Traces (.default .flat) .analyzing analyzingStep 0 task
      (modelAnswer (.default .flat) .analyzing analyzingWorld analyzingStep task)
        analyzedResult row :=
  model_step_traced (.default .flat) .analyzing analyzingWorld analyzingStep 0
    (executionOf genericRequest ⟨1⟩ ⟨0⟩ 0)
    analyzedResult rfl rfl rfl

end AgenticPlatform
