import AgenticPlatform.Work
import AgenticPlatform.Planner

/-! What the work of a step does to the stored rows, whichever path it takes: it reads,
it asks the other services, and it traces. The shape is proved once, here, and every
invariant of the platform is carried through the work by it. -/
namespace AgenticPlatform
open Interaction ExecutionEngine

/-- Calls that change no row but those of tool calls. Under a `try` the model runtime is asked;
outside of one, the services whose failure ends the step. -/
def Op.quiet (caught : Bool) : Op → Bool
  | .getContext _ | .getPlan _ | .getStep _ | .listStepsForExecution _ | .getStepResult _
  | .getActionProposal _ | .saveToolCall _ | .now | .uuid4 => true
  | .retrieve _ | .invoke _ _ | .sha256 _ | .evaluateProposal _ _ => !caught
  | .analyzeIncident _ | .validateIncident _ | .analyzeCostAnomaly _ | .validateCostAttribution _ =>
      caught
  | _ => false

/-- A quiet call changes no table but the one of tool calls. -/
theorem handle_quiet {env : Env} {caught : Bool} {op : Op} (quiet : op.quiet caught = true)
    (w : World) :
    ∃ calls, (handle env w op).2.repo = { w.repo with toolCalls := calls } ∧
      w.fresh ≤ (handle env w op).2.fresh := by
  cases op with
  | uuid4 => exact ⟨w.repo.toolCalls, rfl, Nat.le_succ _⟩
  | saveToolCall tc => exact ⟨w.repo.toolCalls.put tc, rfl, Nat.le_refl _⟩
  | saveContext _ | saveExecution _ | updateExecution _ | savePlan _ | saveStep _ | updateStep _
  | saveStepResult _ | saveActionProposal _ | savePolicyEvaluation _ | saveApproval _ | enqueue _ _
  | dequeue | getExecution _ => exact absurd quiet (by simp [Op.quiet])
  | _ => exact ⟨w.repo.toolCalls, rfl, Nat.le_refl _⟩

/-- The model answers every request to validate with a pass. -/
def Op.Passes : (op : Op) → Op.Res op → Prop
  | .validateIncident _, out => out.validationStatus = "passed"
  | .validateCostAttribution _, out => out.validationStatus = "passed"
  | _, _ => True

/-- The contexts and the steps that work may look into, the tool calls that it is answered, and
whether the row and its context are stored. -/
structure Scope where
  context : UUID → Prop
  step : UUID → Prop
  call : ToolCall → Prop
  stored : Prop

def Scope.any : Scope := ⟨fun _ => True, fun _ => True, fun _ => True, False⟩

def Scope.none : Scope := ⟨fun _ => False, fun _ => False, fun _ => False, False⟩

/-- What the work of a step may read, and which tool calls it may store. -/
def Op.Within (scope : Scope) (executionId : UUID) : Op → Prop
  | .saveToolCall tc => scope.call tc
  | .getContext contextId => scope.context contextId
  | .getStepResult stepId => scope.step stepId
  | .listStepsForExecution id => id = executionId
  | .getPlan _ | .getStep _ | .getActionProposal _ => False
  | _ => True

/-- What an answer brings into view. -/
def Op.Shows (scope : Scope) : (op : Op) → op.Res → Prop
  | .listStepsForExecution _, steps => ∀ s ∈ steps, scope.step s.stepId
  | .getContext _, ctx => scope.stored → ctx ≠ none
  | .invoke _ _, tc => scope.call tc
  | _, _ => True

theorem Op.shows_any (op : Op) (r : op.Res) : op.Shows .any r := by
  cases op with
  | listStepsForExecution _ => exact fun _ _ => trivial
  | getContext _ => exact False.elim
  | _ => trivial

/-- What the work of a step of `executionId` is made of. With `passing`, validation answers of
the model are taken to pass. -/
inductive WorkBlock (passing : Prop) (scope : Scope) (executionId : UUID) (caught : Bool) :
    ∀ {β : Type}, M β → (β → Prop) → Prop
  | quiet (op : Op) : op.quiet caught = true → op.Within scope executionId →
      WorkBlock passing scope executionId caught (M.perform op)
        (fun r => (passing → op.Passes r) ∧ op.Shows scope r)
  | row : WorkBlock passing scope executionId caught (M.getExecution executionId)
      (fun o => (∀ ex ∈ o, scope.context ex.executionContextId) ∧ (scope.stored → o ≠ none))
  | trace (events : List Event) (now : Time) : (∀ event ∈ events, event.Working) →
      WorkBlock passing scope executionId caught (recordTrace executionId events now)
        (fun _ => True)

def Orchestration (e : Exn) : Prop := e.cls = .orchestrationError

/-- The error of work that does not find the row or its context. -/
def Unserved (scope : Scope) (e : Exn) : Prop := Orchestration e ∧ ¬ scope.stored

/-- The step is as the planner describes it. -/
def Step.Planned (step : Step) : Prop :=
  ∃ workflowType name, stepWorkflowType step = .str workflowType ∧
    plannerStepName step = .str name ∧
    (isValidationStep step → step.stepType = .known .validation ∧ validatingName workflowType name)

def StepResult.Passed (result : StepResult) : Prop :=
  ∃ outcome, result.validationOutcome = some outcome ∧ outcome.status = "passed"

/-- A confidence that the result of a run reads is no integer, and so `float` takes it. -/
def FloatConfidence (output : Dict) : Prop :=
  ∀ n, output.get "confidence" ≠ .int n ∧ output.get "confidence_score" ≠ .int n

/-- A result of that step, which passes if the step validates. -/
structure ResultOf (passing : Prop) (step : Step) (result : StepResult) : Prop where
  stepId : result.stepId = step.stepId
  floats : ∀ output ∈ result.output, FloatConfidence output
  passed : passing → step.Planned → isValidationStep step → result.Passed

section
variable {passing : Prop} {scope : Scope} {executionId : UUID} {caught : Bool}
  {raises : Exn → Prop} {step : Step}
  {now : Time} {text : Rendering}

abbrev Work (passing : Prop) (scope : Scope) (executionId : UUID) (caught : Bool)
    (raises : Exn → Prop) {α : Type} (p : M α) (R : α → Prop) : Prop :=
  Built (WorkBlock passing scope executionId caught) raises p R

theorem work_read (op : Op) (quiet : op.quiet caught = true)
    (within : op.Within scope executionId) :
    Work passing scope executionId caught raises (M.perform op)
      (fun r => (passing → op.Passes r) ∧ op.Shows scope r) :=
  .block (.quiet op quiet within) fun _ h => h

/-- A call that reads nothing that is stored. -/
theorem work_quiet (op : Op) (quiet : op.quiet caught = true)
    (within : op.Within .none executionId) :
    Work passing scope executionId caught raises (M.perform op)
    (fun r => passing → op.Passes r) := by
  refine .block (.quiet op quiet ?_) fun _ h => h.1
  cases op <;> trivial

theorem work_trace (events : List Event) (working : ∀ event ∈ events, event.Working) :
    Work passing scope executionId caught raises (recordTrace executionId events now)
    (fun _ => True) :=
  .block (.trace events now working) fun _ h => h

theorem shortDigest_work (s : String) (n : Nat) :
    Work passing scope executionId false raises (shortDigest s n) (fun _ => True) :=
  .bind (work_quiet (.sha256 s) rfl trivial) fun _ _ => .ret _ trivial

/-- The end of every kind of work: a fresh id and the result. -/
theorem result_work {output : Dict} {evidence : List Dict} {confidence : Confidence} {detail : Dict}
    {outcome : Option ValidationOutcome} (floats : FloatConfidence output)
    (passed : passing → step.Planned → isValidationStep step → ∃ vo, outcome = some vo ∧
      vo.status = "passed") :
    Work passing scope executionId caught raises (do
      let rid ← M.uuid4
      pure (fullResult rid step now output evidence confidence detail outcome))
        (ResultOf passing step) :=
  .bind (work_quiet .uuid4 rfl trivial) fun _ _ => .ret _ ⟨rfl, fun _ same => Option.some.inj same ▸
    floats, passed⟩

theorem unknownStep_floats {name : String} : FloatConfidence (unknownStep name).output := by
  simp [FloatConfidence, unknownStep, Dict.get]

theorem simulateIncidentTriage_floats {name incidentKey seed digest : String} :
    FloatConfidence (simulateIncidentTriage name incidentKey seed digest).output := by
  unfold simulateIncidentTriage
  dsimp only
  split_ifs
  · simp [FloatConfidence, Dict.get]
  · simp [FloatConfidence, Dict.get]
  · simp [FloatConfidence, Dict.get]
  · exact unknownStep_floats

theorem simulateCostAttribution_floats {name scopeKey seed digest : String} :
    FloatConfidence (simulateCostAttribution name scopeKey seed digest).output := by
  unfold simulateCostAttribution
  dsimp only
  split_ifs
  · simp [FloatConfidence, Dict.get]
  · simp [FloatConfidence, Dict.get]
  · simp [FloatConfidence, Dict.get]
  · simp [FloatConfidence, Dict.get]
  · exact unknownStep_floats

theorem simulateGeneric_floats {kind digest : String} : FloatConfidence
    (simulateGeneric kind digest).output := by
  unfold simulateGeneric
  split_ifs
  · simp [FloatConfidence, Dict.get]
  · simp [FloatConfidence, Dict.get]

theorem executeIncidentTriageStep_work (name : String)
    (named : passing → step.Planned → isValidationStep step → name = "validate_incident") :
    Work passing scope executionId false raises (executeIncidentTriageStep text step name now)
      (ResultOf passing step) := by
  refine .bind (shortDigest_work _ _) fun seed _ => .bind (shortDigest_work _ _) fun digest _ =>
    result_work simulateIncidentTriage_floats fun pass planned validates => ?_
  obtain rfl := named pass planned validates
  exact ⟨_, rfl, rfl⟩

theorem executeCostAttributionStep_work (name : String)
    (named : passing → step.Planned → isValidationStep step → name = "validate_cost_attribution") :
    Work passing scope executionId false raises (executeCostAttributionStep text step name now)
      (ResultOf passing step) := by
  refine .bind (shortDigest_work _ _) fun seed _ => .bind (shortDigest_work _ _) fun digest _ =>
    result_work simulateCostAttribution_floats fun pass planned validates => ?_
  obtain rfl := named pass planned validates
  exact ⟨_, rfl, rfl⟩

theorem executeGenericStep_work :
    Work passing scope executionId false raises (executeGenericStep text step now)
    (ResultOf passing step) := by
  refine .bind (shortDigest_work _ _) fun digest _ => result_work simulateGeneric_floats
    fun pass planned validates => ?_
  obtain ⟨_, _, _, _, known⟩ := planned
  have kind : step.stepType.text = "validation" := by rw [(known validates).1]; rfl
  simp only [simulateGeneric, kind, if_true]
  exact ⟨_, rfl, rfl⟩

/-- A planned step has one workflow and one name. -/
theorem Step.Planned.names {workflowType name : String} (planned : step.Planned)
    (hw : stepWorkflowType step = .str workflowType) (hn : plannerStepName step = .str name)
    (validates : isValidationStep step = true) : validatingName workflowType name := by
  obtain ⟨w, n, sw, sn, known⟩ := planned
  obtain rfl : w = workflowType := by simpa [sw] using hw
  obtain rfl : n = name := by simpa [sn] using hn
  exact (known validates).2

theorem executeStep_work (running : step.status = .running) :
    Work passing scope executionId false raises (executeStep text step)
    (ResultOf passing step) := by
  have status : ¬ step.status ≠ .running := fun h => h running
  unfold executeStep
  rw [if_neg status]
  refine .bind (work_quiet .now rfl trivial) fun ts _ => ?_
  cases hn : plannerStepName step with
  | str name =>
      refine .ite (fun incident => ?_) fun _ => .ite (fun cost => ?_) fun _ =>
        executeGenericStep_work
      · exact executeIncidentTriageStep_work name fun _ planned validates =>
          (planned.names (Json.isStr_iff.mp incident) hn validates).1 rfl
      · exact executeCostAttributionStep_work name fun _ planned validates =>
          (planned.names (Json.isStr_iff.mp cost) hn validates).2 rfl
  | null => exact executeGenericStep_work
  | bool b => exact executeGenericStep_work
  | int n => exact executeGenericStep_work
  | float q => exact executeGenericStep_work
  | arr xs => exact executeGenericStep_work
  | obj kvs => exact executeGenericStep_work

theorem trace_work (path task : String) (provider errorClass errorMessage : Option String)
    (invocation : Option Dict) :
    Work passing scope step.executionId caught raises
      (traceModelReasoning step path task now provider errorClass errorMessage invocation)
      (fun _ => True) := by
  refine work_trace _ (working_one (by decide) ?_)
  cases invocation with
  | none => simp [modelReasoningDetail, optionalField_get?]
  | some d => simp [modelReasoningDetail, optionalField_get?]

/-- Work whose body is under a `try`, with the executor as its handler. -/
theorem orFallback_work {engine : ExecutionEngine} {task : String} {body : M StepResult}
    (running : step.status = .running)
    (built : Work passing scope step.executionId true (fun _ => True) body
      (ResultOf passing step)) :
    Guarded (WorkBlock passing scope step.executionId true)
    (WorkBlock passing scope step.executionId false) raises
      (engine.orFallback step now task body) (ResultOf passing step) :=
  .guarded built fun _ => .bind (trace_work _ _ _ _ _ _) fun _ _ => executeStep_work running

theorem priorOutputs_work (steps : List Step) (known : ∀ s ∈ steps, scope.step s.stepId) :
    Work passing scope executionId caught raises (priorOutputs steps) (fun _ => True) := by
  induction steps with
  | nil => exact .ret _ trivial
  | cons s rest ih =>
      have head := known s List.mem_cons_self
      have tail := ih fun x member => known x (List.mem_cons_of_mem s member)
      exact .bind (work_read (.getStepResult s.stepId) (by cases caught <;> rfl) head) fun _ _ =>
        .bind tail fun _ _ => .ret _ trivial

/-- A planned step that validates has no other name than the validating one. -/
theorem Step.Planned.not_validating {workflowType name : String}
    (hw : stepWorkflowType step = .str workflowType) (hn : plannerStepName step = .str name)
    (other : ¬ validatingName workflowType name) (planned : step.Planned)
    (validates : isValidationStep step = true) : False :=
  other (planned.names hw hn validates)

theorem incidentModelReasoningStep_work {engine : ExecutionEngine}
    (running : step.status = .running) (incident : stepWorkflowType step = .str "incident_triage") :
    Guarded (WorkBlock passing scope step.executionId true)
    (WorkBlock passing scope step.executionId false) raises
      (engine.incidentModelReasoningStep step now) (ResultOf passing step) := by
  unfold incidentModelReasoningStep
  by_cases analyze : (plannerStepName step).isStr "analyze_incident" = true
  · rw [if_pos analyze]
    refine orFallback_work running <| .bind (work_quiet (.analyzeIncident _) rfl trivial)
      fun out _ =>
      .bind (trace_work _ _ _ _ _ _) fun _ _ => result_work (by simp [FloatConfidence, Dict.get])
        fun _ planned validates => ?_
    exact (planned.not_validating incident (Json.isStr_iff.mp analyze) (by decide) validates).elim
  · rw [if_neg analyze]
    by_cases validate : (plannerStepName step).isStr "validate_incident" = true
    · rw [if_pos validate]
      exact orFallback_work running <| .bind (work_read (.listStepsForExecution _) rfl rfl)
        fun steps shown =>
        .bind (priorOutputs_work steps shown.2) fun _ _ =>
        .bind (work_quiet (.validateIncident _) rfl trivial) fun out passes =>
        .bind (trace_work _ _ _ _ _ _) fun _ _ =>
        result_work (by simp [FloatConfidence, Dict.get]) fun pass _ _ => ⟨_, rfl, passes pass⟩
    · rw [if_neg validate]
      exact .plain (executeStep_work running)

theorem costModelReasoningStep_work {engine : ExecutionEngine} (running : step.status = .running)
    (cost : stepWorkflowType step = .str "cost_attribution") :
    Guarded (WorkBlock passing scope step.executionId true)
    (WorkBlock passing scope step.executionId false) raises
      (engine.costModelReasoningStep step now) (ResultOf passing step) := by
  unfold costModelReasoningStep
  by_cases analyze : (plannerStepName step).isStr "analyze_cost_anomaly" = true
  · rw [if_pos analyze]
    refine orFallback_work running <| .bind (work_quiet (.analyzeCostAnomaly _) rfl trivial)
      fun out _ =>
      .bind (trace_work _ _ _ _ _ _) fun _ _ => result_work (by simp [FloatConfidence, Dict.get])
        fun _ planned validates => ?_
    exact (planned.not_validating cost (Json.isStr_iff.mp analyze) (by decide) validates).elim
  · rw [if_neg analyze]
    by_cases validate : (plannerStepName step).isStr "validate_cost_attribution" = true
    · rw [if_pos validate]
      exact orFallback_work running <| .bind (work_read (.listStepsForExecution _) rfl rfl)
        fun steps shown =>
        .bind (priorOutputs_work steps shown.2) fun _ _ =>
        .bind (work_quiet (.validateCostAttribution _) rfl trivial) fun out passes =>
        .bind (trace_work _ _ _ _ _ _) fun _ _ =>
        result_work (by simp [FloatConfidence, Dict.get]) fun pass _ _ => ⟨_, rfl, passes pass⟩
    · rw [if_neg validate]
      exact .plain (executeStep_work running)

theorem contextOfStep_work :
    Work passing scope step.executionId false (Unserved scope) (contextOfStep step)
    (fun _ => True) := by
  refine .bind (.block .row fun _ h => h) fun row shown => ?_
  cases row with
  | none => exact .raise _ ⟨rfl, fun stored => shown.2 stored rfl⟩
  | some ex =>
      refine .bind (work_read (.getContext _) rfl (shown.1 ex rfl)) fun ctx found => ?_
      cases ctx with
      | none => exact .raise _ ⟨rfl, fun stored => found.2 stored rfl⟩
      | some ctx => exact .ret _ trivial

theorem invokeTools_work (ctx : ExecutionContext) (input extra : Dict)
    (plain : extra.get? "event_type" = none) (names : List String) :
    Work passing scope step.executionId false raises (invokeTools step ctx input extra now names)
      (fun _ => True) := by
  induction names with
  | nil => exact .ret _ trivial
  | cons name rest ih =>
      refine .bind (work_read (.invoke _ _) rfl trivial) fun tc answered =>
        .bind (work_read (.saveToolCall tc) rfl answered.2) fun _ _ =>
        .bind (work_trace _ (working_one (by decide) ?_)) fun _ _ => .bind ih fun _ _ =>
          .ret _ trivial
      simpa [toolCallCompleted] using plain

theorem gatherEvidenceViaServices_work {engine : ExecutionEngine}
    (other : step.Planned → isValidationStep step = true → False) :
    Work passing scope step.executionId false (Unserved scope)
    (engine.gatherEvidenceViaServices step now)
      (ResultOf passing step) := by
  exact .bind contextOfStep_work fun ctx _ => .bind (work_quiet (.retrieve _) rfl trivial)
    fun retrieval _ =>
    .bind (work_trace _ (working_one (by decide) rfl)) fun _ _ =>
    .bind (invokeTools_work _ _ _ rfl _) fun _ _ =>
    result_work (by simp [FloatConfidence, Dict.get]) fun _ planned validates =>
      (other planned validates).elim

theorem retrieveCostEvidenceViaServices_work {engine : ExecutionEngine}
    (other : step.Planned → isValidationStep step = true → False) :
    Work passing scope step.executionId false (Unserved scope)
    (engine.retrieveCostEvidenceViaServices step now)
      (ResultOf passing step) := by
  exact .bind contextOfStep_work fun ctx _ => .bind (work_quiet (.retrieve _) rfl trivial)
    fun retrieval _ =>
    .bind (work_trace _ (working_one (by decide) rfl)) fun _ _ =>
    result_work (by simp [FloatConfidence, Dict.get]) fun _ planned validates =>
      (other planned validates).elim

theorem correlateUsageViaTools_work {engine : ExecutionEngine}
    (other : step.Planned → isValidationStep step = true → False) :
    Work passing scope step.executionId false (Unserved scope)
    (engine.correlateUsageViaTools step now)
      (ResultOf passing step) :=
  .bind contextOfStep_work fun _ _ => .bind (invokeTools_work _ _ _ rfl _) fun _ _ =>
    result_work (by simp [FloatConfidence, Dict.get]) fun _ planned validates =>
      (other planned validates).elim

theorem tooling_names {engine : ExecutionEngine}
    (tooling : engine.shouldUseToolingForStep step = true) :
    (stepWorkflowType step = .str "incident_triage" ∧ plannerStepName step =
      .str "gather_evidence") ∨
    (stepWorkflowType step = .str "cost_attribution" ∧
      (plannerStepName step = .str "retrieve_cost_evidence" ∨
        plannerStepName step = .str "correlate_usage_patterns")) := by
  unfold shouldUseToolingForStep at tooling
  split at tooling
  · exact absurd tooling (by simp)
  · simpa only [Bool.or_eq_true, Bool.and_eq_true, Json.isStr_iff] using tooling

theorem tooling_not_validating {engine : ExecutionEngine}
    (tooling : engine.shouldUseToolingForStep step = true) (planned : step.Planned)
    (validates : isValidationStep step = true) : False := by
  rcases tooling_names tooling with ⟨hw, hn⟩ | ⟨hw, hn | hn⟩
  · exact planned.not_validating hw hn (by decide) validates
  · exact planned.not_validating hw hn (by decide) validates
  · exact planned.not_validating hw hn (by decide) validates

theorem model_workflow {engine : ExecutionEngine} (model : engine.shouldUseModelForStep step = true)
    (notCost : ¬ (stepWorkflowType step).isStr "cost_attribution" = true) :
    stepWorkflowType step = .str "incident_triage" := by
  unfold shouldUseModelForStep at model
  split at model
  · exact absurd model (by simp)
  · by_cases incident : (stepWorkflowType step).isStr "incident_triage" = true
    · exact Json.isStr_iff.mp incident
    · simp [incident, notCost] at model

/-- The work of a running step: its blocks, its own errors and its result. -/
theorem stepWork_work {engine : ExecutionEngine} (running : step.status = .running) :
    Guarded (WorkBlock passing scope step.executionId true)
    (WorkBlock passing scope step.executionId false)
      (Unserved scope) (engine.stepWork step now) (ResultOf passing step) := by
  unfold stepWork
  by_cases tooling : engine.shouldUseToolingForStep step = true
  · rw [if_pos tooling]
    exact .plain <| .ite
      (fun _ => .ite (fun _ => retrieveCostEvidenceViaServices_work
        (tooling_not_validating tooling))
        fun _ => correlateUsageViaTools_work (tooling_not_validating tooling))
      fun _ => gatherEvidenceViaServices_work (tooling_not_validating tooling)
  · rw [if_neg tooling]
    by_cases model : engine.shouldUseModelForStep step = true
    · rw [if_pos model]
      by_cases cost : (stepWorkflowType step).isStr "cost_attribution" = true
      · rw [if_pos cost]
        exact costModelReasoningStep_work running (Json.isStr_iff.mp cost)
      · rw [if_neg cost]
        exact incidentModelReasoningStep_work running (model_workflow model cost)
    · rw [if_neg model]
      exact .plain (executeStep_work running)

end
end AgenticPlatform
