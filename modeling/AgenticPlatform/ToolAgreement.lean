import AgenticPlatform.EngineCalls
import AgenticPlatform.ToolRetries

/-! What the orchestrator sends to its tools against what the tool runtime accepts. The executor
wants an `incident_id` or an `id` in every input; the requests of `gather_evidence` carry one, those
of `correlate_usage_patterns` carry a scope and a service. -/
namespace AgenticPlatform
open Interaction ExecutionEngine

/-- A request that names a tool of the default registry and passes the validation of its input. -/
def Accepted (request : ToolInvokeRequest) : Prop :=
  (buildDefaultRegistry.get request.toolName).isSome ∧ validateInput request = .ok ()

instance (request : ToolInvokeRequest) : Decidable (Accepted request) := by
  unfold Accepted
  exact inferInstanceAs (Decidable (_ ∧ _))

/-- The codes of a request that the executor does not take. -/
def refusalCodes : List Json := [.str "unknown_tool", .str "validation_error"]

/-- The call has ended in a refusal before its handler was invoked. -/
def RefusedUnrun (r : Outcome ToolError ToolCall × ToolState) : Prop :=
  r.2.invocations = 0 ∧ ∃ tc error, r.1 = .ret tc ∧ tc.error = some error ∧
    Dict.get error "code" ∈ refusalCodes

/-- No executor over the default registry refuses the request. -/
def Unrefused (request : ToolInvokeRequest) : Prop :=
  ∀ (cancelCheck : Bool) (env : ToolEnv FixtureHandler) (now : Time),
    ¬ RefusedUnrun (env.execute ⟨buildDefaultRegistry, cancelCheck⟩ request now)

namespace ToolExecutor
variable {H : Type} {executor : ToolExecutor H} {env : ToolEnv H}
  {request : ToolInvokeRequest} {now : Time}
  {tool : RegisteredTool} {handler : H} {tcid : UUID} {started attempt remaining : Nat}
    {s : ToolState}
  {lastExc : Option ToolError}

/-- A loop that starts runs the handler, or is cancelled before it. -/
theorem attempts_unrefused (unrun : s.invocations = 0) : ¬ RefusedUnrun
    (run env.handle (executor.attempts tcid request now tool handler started attempt (remaining + 1)
      lastExc) s) := by
  rintro ⟨none_run, tc, error, row, detail, code⟩
  cases stop : env.stops executor s.checks with
  | error e =>
      rw [attempts_raised stop] at row
      cases row
  | ok stopped =>
      cases stopped with
      | true =>
          rw [attempts, run_bind, run_isCancelled, stop] at row
          obtain rfl := Outcome.ret.inj row
          obtain rfl := Option.some.inj detail
          exact absurd code (by decide)
      | false =>
          have := @attempts_runs _ executor env tool handler tcid request now started s attempt
            remaining lastExc stop
          omega

/-- The gates, one after another. -/
theorem execute_unrefused
    (registered : executor.registry.get request.toolName = some (tool, handler))
    (undenied : request.policyDenied = false) (valid : validateInput request = .ok ()) :
    ¬ RefusedUnrun (env.execute executor request now) := by
  cases stop : env.stops executor 0 with
  | ok stopped =>
      cases stopped with
      | false =>
          obtain ⟨s, started, first, eq⟩ :=
            @execute_passed _ executor env tool handler request now registered
              ⟨undenied, stop, valid⟩
          rw [eq]
          exact attempts_unrefused first.invocations
      | true =>
          rintro ⟨_, tc, error, row, detail, code⟩
          rw [ToolEnv.execute, execute, run_bind, run_perform] at row
          simp only [ToolEnv.handle, Outcome.ofExcept, resume, undenied, Bool.false_eq_true,
            if_false, registered] at row
          rw [run_bind, run_isCancelled, show env.stops executor 0 = _ from stop] at row
          obtain rfl := Outcome.ret.inj row
          obtain rfl := Option.some.inj detail
          exact absurd code (by decide)
  | error e =>
      rintro ⟨_, tc, error, row, _⟩
      rw [ToolEnv.execute, execute, run_bind, run_perform] at row
      simp only [ToolEnv.handle, Outcome.ofExcept, resume, undenied, Bool.false_eq_true, if_false,
        registered] at row
      rw [run_bind, run_isCancelled, show env.stops executor 0 = _ from stop] at row
      cases row

end ToolExecutor

theorem Accepted.unrefused {request : ToolInvokeRequest} (accepted : Accepted request)
    (undenied : request.policyDenied = false) : Unrefused request := by
  intro cancelCheck env now
  obtain ⟨entry, registered⟩ := Option.isSome_iff_exists.mp accepted.1
  exact @ToolExecutor.execute_unrefused _ ⟨buildDefaultRegistry, cancelCheck⟩ env request now _ _
    registered undenied accepted.2

/-- The execution of the step and its context are stored. -/
def Served (w : World) (step : Step) : Prop :=
  ∃ ex ctx, w.execution step.executionId = some ex ∧
    w.repo.contexts.get ex.executionContextId = some ctx

namespace ExecutionEngine
variable (engine : ExecutionEngine)

/-- A step that sends a scope to its tools. -/
def correlates (step : Step) : Bool :=
  engine.shouldUseToolingForStep step && (stepWorkflowType step).isStr "cost_attribution" &&
    !(plannerStepName step).isStr "retrieve_cost_evidence"

variable {engine} {step : Step} {ctx : ExecutionContext} {name : String} {now : Time}
  {w : World} {env : Env}

theorem gatherRequest_accepted (known : name ∈ gatherTools) : Accepted
    (engine.gatherRequest step ctx name) := by
  refine ⟨?_, rfl⟩
  rcases List.mem_pair.mp known with rfl | rfl
  · exact (by decide : (buildDefaultRegistry.get "incident_metadata_tool").isSome = true)
  · exact (by decide : (buildDefaultRegistry.get "signal_lookup_tool").isSome = true)

/-- Neither the scope nor the service is what the executor asks for. -/
theorem correlateRequest_invalid : ¬ Accepted (engine.correlateRequest step ctx name) := by
  rintro ⟨_, valid⟩
  have missing (key : String) (scope : "scope_id" ≠ key) (service : "service" ≠ key) :
      (engine.correlateRequest step ctx name).input.get? key = none := by
    simp only [correlateRequest, withService]
    split <;> simp [scope, service]
  rw [validateInput, if_pos
    ⟨by rw [missing _ (by decide) (by decide)]; rfl, by
        rw [missing _ (by decide) (by decide)]; rfl⟩] at valid
  cases valid

theorem stepWork_correlates (correlates : engine.correlates step = true) :
    engine.stepWork step now = engine.correlateUsageViaTools step now := by
  simp only [ExecutionEngine.correlates, Bool.and_eq_true, Bool.not_eq_true'] at correlates
  obtain ⟨⟨tooling, cost⟩, other⟩ := correlates
  rw [stepWork, if_pos tooling, if_pos cost, other]
  rfl

/-- The first call to a tool, once the context of the step is found. -/
theorem correlateUsage_invokes (served : Served w step) : ∃ ctx k, Visits (handle env).sem
    (engine.correlateUsageViaTools step now, w)
    (.call (.invoke (engine.correlateRequest step ctx "cloud_cost_tool") now) k, w) := by
  obtain ⟨ex, ctx, row, context⟩ := served
  refine ⟨ctx, ?_⟩
  apply Exists.intro
  rw [correlateUsageViaTools, contextOfStep, Prog.bind_assoc]
  refine Visits.performed (congrArg Except.ok row) ?_
  dsimp only
  rw [Prog.bind_assoc]
  refine Visits.performed (congrArg Except.ok context) ?_
  exact .refl

/-- Without a context no tool is called. -/
theorem correlateUsage_unserved (unserved : ¬ Served w step) {request : ToolInvokeRequest}
    {ts : Time} {t : World} {k : Except Exn ToolCall → M StepResult} : ¬ Visits (handle env).sem
      (engine.correlateUsageViaTools step now, w) (.call (.invoke request ts) k, t) := by
  intro visits
  rw [correlateUsageViaTools, contextOfStep, Prog.bind_assoc] at visits
  rcases visits.head with same | ⟨r, u, _, answer, visits⟩
  · cases same
  · obtain ⟨rfl, rfl⟩ := Prod.mk.inj answer
    cases row : w.execution step.executionId with
    | none =>
        rw [show (w.repo.executions.get step.executionId) = none from row] at visits
        cases visits.ended (by rintro _ _ ⟨⟩)
    | some ex =>
        rw [show (w.repo.executions.get step.executionId) = some ex from row] at visits
        rcases visits.head with same | ⟨r, u, _, answer, visits⟩
        · cases same
        · obtain ⟨rfl, rfl⟩ := Prod.mk.inj answer
          cases context : w.repo.contexts.get ex.executionContextId with
          | none =>
              rw [context] at visits
              cases visits.ended (by rintro _ _ ⟨⟩)
          | some ctx => exact unserved ⟨ex, ctx, row, context⟩

/-- A step that does not correlate makes no request but those of `gather_evidence`. -/
theorem stepWork_gathers (other : engine.correlates step = false) :
    Calls (fun op : Op => ∀ request ts, op = .invoke request ts → Accepted request ∧
      request.policyDenied = false) (fun _ _ => True) (engine.stepWork step now) := by
  have ordinary : ∀ op : Op, op.ordinary = true → ∀ request ts, op = .invoke request ts →
      Accepted request ∧ request.policyDenied = false := by
    rintro _ plain request ts rfl
    cases plain
  refine calls_ite (fun tooling => calls_ite (fun cost => calls_ite
      (fun _ => retrieveCostEvidenceViaServices_calls ordinary) fun late => ?_) fun _ =>
      gatherEvidenceViaServices_calls ordinary ?_ ?_)
    fun _ => calls_ite
      (fun _ => calls_ite (fun _ => costModelReasoningStep_calls ordinary)
        fun _ => incidentModelReasoningStep_calls ordinary)
      fun _ => executeStep_calls ordinary
  · rw [ExecutionEngine.correlates, tooling, cost, Bool.eq_false_iff.mpr late] at other
    cases other
  · rintro ctx name known request ts same
    obtain ⟨rfl, rfl⟩ := Op.invoke.inj same
    exact ⟨gatherRequest_accepted known, rfl⟩
  · rintro _ tc _ request ts ⟨⟩

/-- Every request of a step is taken by the executor exactly when the step does not send a scope. -/
theorem requests_accepted_iff (env : Env) (w : World) (engine : ExecutionEngine) (step : Step)
    (now : Time) :
    (∀ request ts k t, Visits (handle env).sem (engine.stepWork step now, w)
      (.call (.invoke request ts) k, t) →
      Accepted request ∧ Unrefused request) ↔ ¬ (engine.correlates step = true ∧
        Served w step) := by
  constructor
  · rintro accepted ⟨correlates, served⟩
    obtain ⟨ctx, k, visits⟩ := @correlateUsage_invokes engine step now w env served
    rw [← stepWork_correlates correlates] at visits
    exact correlateRequest_invalid (accepted _ _ k w visits).1
  · intro harmless request ts k t visits
    by_cases correlates : engine.correlates step = true
    · rw [stepWork_correlates correlates] at visits
      exact absurd visits (correlateUsage_unserved fun served => harmless ⟨correlates, served⟩)
    · obtain ⟨accepted, undenied⟩ := (stepWork_gathers (Bool.eq_false_iff.mpr correlates)).visited
        (fun _ _ _ _ _ _ _ => trivial) visits request ts rfl
      exact ⟨accepted, accepted.unrefused undenied⟩

/-- Throughout a run of the engine, the requests that are taken are those for the tools of
`gather_evidence`. -/
theorem engine_requests {id : UUID} {fuel : Nat} {request : ToolInvokeRequest} {ts : Time}
    {k : Except Exn ToolCall → M Execution} {t : World}
    (visits : Visits (handle env).sem (engine.startExecution fuel id, w)
      (.call (.invoke request ts) k, t)) :
    Accepted request ↔ request.toolName ∈ gatherTools := by
  have permits : Permits engine (fun op : Op => ∀ request ts, op = .invoke request ts →
      (Accepted request ↔ request.toolName ∈ gatherTools)) (fun _ _ => True) := by
    constructor
    case ordinary =>
      rintro _ plain request ts rfl
      cases plain
    case gather =>
      rintro step ctx name now known request ts same
      obtain ⟨rfl, rfl⟩ := Op.invoke.inj same
      exact iff_of_true (gatherRequest_accepted known) known
    case correlate =>
      rintro step ctx name now known request ts same
      obtain ⟨rfl, rfl⟩ := Op.invoke.inj same
      refine iff_of_false correlateRequest_invalid ?_
      have apart : ∀ other ∈ correlateTools, other ∉ gatherTools := by decide
      exact apart name known
    case saved =>
      rintro _ _ tc _ request ts ⟨⟩
  exact (startExecution_calls permits).visited (fun _ _ _ _ _ _ _ => trivial) visits request ts rfl

end ExecutionEngine

def costRequest : NewExecution := { genericRequest with workflowType := "cost_attribution" }

/-- The third step of a cost attribution. -/
def correlateStep : Step where
  stepId := ⟨2⟩
  executionId := ⟨1⟩
  planId := ⟨3⟩
  stepType := .known .tool
  agent := "tool_agent_v1"
  input := [("planner_step_name", .str "correlate_usage_patterns"),
    ("workflow_type", .str "cost_attribution"),
      ("execution_input", .obj [("service", .str "checkout")])]
  status := .running
  dependencies := []
  retryCount := 0
  degradedAllowed := false
  createdAt := 0
  updatedAt := 0

/-- A cost attribution asks its tools for what they do not take. -/
theorem cost_request_rejected : ∃ request k t,
    Visits (handle .refusing).sem
      ((ExecutionEngine.default .flat).stepWork correlateStep 0, .created .refusing costRequest)
        (.call (.invoke request 0) k, t) ∧ ¬ Accepted request := by
  have served : Served (.created .refusing costRequest) correlateStep :=
    ⟨executionOf costRequest ⟨1⟩ ⟨0⟩ 0, contextOf costRequest ⟨0⟩ 0, rfl, rfl⟩
  have correlates : (ExecutionEngine.default .flat).correlates correlateStep = true := by decide
  obtain ⟨ctx, k, visits⟩ := @correlateUsage_invokes (.default .flat) correlateStep 0 _
    .refusing served
  rw [← stepWork_correlates correlates] at visits
  exact ⟨_, k, _, visits, correlateRequest_invalid⟩

end AgenticPlatform
