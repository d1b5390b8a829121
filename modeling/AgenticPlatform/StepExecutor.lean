import AgenticPlatform.Repository
import Mathlib.Algebra.Group.Nat.Defs
import Mathlib.Algebra.Order.Field.Rat
import Mathlib.Tactic.NormNum
import Mathlib.Tactic.Positivity

/-! The deterministic executor that simulates the work of a step, also the fallback of
the model path. -/
namespace AgenticPlatform

/-- `digest.hexdigest()`. -/
def hexdigest (digest : BitVec 256) : String :=
  String.ofList ((List.range 64).map fun i => Nat.digitChar (digest.toNat / 16 ^ (63 - i) % 16))

/-- `int(s, 16)` on lower-case digits. -/
def intOfHex (s : String) : Nat :=
  s.toList.foldl (fun n c => 16 * n + (if c.isDigit then c.toNat - 48 else c.toNat - 87)) 0

def plannerStepName (step : Step) : Json := step.input.get "planner_step_name"

def stepWorkflowType (step : Step) : Json := step.input.get "workflow_type"

def executionInput (step : Step) : Dict := (step.input.get "execution_input").asDict

/-- `str(ex_in.get("incident_id", ex_in.get("id", "unknown")))`. -/
def incidentIdFromInput (text : Rendering) (exIn : Dict) : String :=
  text.str (exIn.getOr "incident_id" (exIn.getOr "id" (.str "unknown")))

def scopeIdFromInput (text : Rendering) (exIn : Dict) : String :=
  text.str (((exIn.get "scope_id").pyOr (exIn.get "billing_scope_id")).pyOr
    (exIn.getOr "id" (.str "unknown")))

/-- So many hundredths. -/
def percent (n : Nat) (fits : n ≤ 100 := by decide) : Confidence :=
  ⟨n / 100, by positivity, by rw [div_le_one (by norm_num)]; exact_mod_cast fits⟩

/-- A complete result that took `1` ms, without errors. -/
def fullResult (resultId : UUID) (step : Step) (ts : Time) (output : Dict) (evidence : List Dict)
    (confidence : Confidence) (detail : Dict) (outcome : Option ValidationOutcome) :
    StepResult where
  stepResultId := resultId
  stepId := step.stepId
  output := some output
  evidence := evidence
  errors := []
  latencyMs := some 1
  latencyStartedAt := some ts
  latencyEndedAt := some ts
  confidenceScore := some confidence
  confidenceDetail := some detail
  completeness := some .full
  validationOutcome := outcome
  createdAt := ts
  updatedAt := ts

/-- What the executor makes up for a step. -/
structure Simulated where
  output : Dict
  confidence : Confidence
  outcome : Option ValidationOutcome

def unknownStep (stepName : String) : Simulated where
  output := [("error", .str "unknown_planner_step_name"), ("step_name", .str stepName)]
  confidence := percent 0
  outcome := some ⟨"failed", [("reason", .str "unknown_step_name")]⟩

/-- `hexdigest()[:n]` of the UTF-8 text. -/
def shortDigest (text : String) (n : Nat) : M String := do
  let digest ← M.sha256 text
  pure (slice (hexdigest digest) 0 n)

def simulateIncidentTriage (stepName incidentKey seed digest : String) : Simulated :=
  let causesPool := ["config_drift", "dependency_failure", "capacity_saturation"]
  let likely := causesPool.getD (intOfHex (slice seed 0 2) % causesPool.length) ""
  if stepName = "analyze_incident" then
    { output := [("incident_summary", .str ("Incident " ++ incidentKey ++
          ": elevated error rate and latency correlated in window (deterministic triage digest " ++
          digest ++ ")")),
        ("possible_causes", .arr (causesPool.map .str))]
      confidence := percent 84
      outcome := none }
  else if stepName = "gather_evidence" then
    { output :=
      [("evidence_summary", .str
      ("Simulated correlation across metrics, logs, and deploy events for " ++
          incidentKey ++ " (seed " ++ seed ++ ")")),
        ("signals", .arr
          [.obj [("source", .str "metrics"), ("name", .str "error_rate"),
            ("detail", .str "spike vs baseline")], .obj [("source", .str "logs"),
              ("name", .str "timeout_pattern"), ("detail", .str ("ref:" ++ digest))],
            .obj [("source", .str "deploy"), ("name", .str "recent_change"),
              ("detail", .str "within lookback window")]])]
      confidence := percent 81
      outcome := none }
  else if stepName = "validate_incident" then
    { output := [("likely_cause", .str likely), ("validation_status", .str "passed"),
        ("confidence_score", .float (92 / 100)), ("digest", .str digest)]
      confidence := percent 92
      outcome := some ⟨"passed", [("likely_cause", .str likely), ("incident_key", .str incidentKey),
        ("simulated", .bool true)]⟩ }
  else unknownStep stepName

def executeIncidentTriageStep (text : Rendering) (step : Step) (stepName : String) (ts : Time) :
    M StepResult := do
  let incidentKey := incidentIdFromInput text (executionInput step)
  let seed ← shortDigest incidentKey 8
  let digest ← shortDigest (text.dumps (.obj
    [("step_name", .str stepName), ("incident_key", .str incidentKey), ("simulated", .bool true)]))
      16
  let simulated := simulateIncidentTriage stepName incidentKey seed digest
  let rid ← M.uuid4
  pure (fullResult rid step ts simulated.output
    [[("type", .str "simulated_incident_triage"), ("step_name", .str stepName),
      ("ref", .str ("incident_triage:" ++ digest))]]
    simulated.confidence
    [("source", .str "step_executor_incident_triage"), ("step_name", .str stepName)]
      simulated.outcome)

def simulateCostAttribution (stepName scopeKey seed digest : String) : Simulated :=
  let servicesPool := ["payments-api", "data-pipeline", "search-index"]
  let teamsPool := ["platform", "finops", "data"]
  let idx := intOfHex (slice seed 0 2) % servicesPool.length
  let service := servicesPool.getD idx ""
  let team := teamsPool.getD (idx % teamsPool.length) ""
  if stepName = "analyze_cost_anomaly" then
    { output := [("suspected_service", .str service), ("suspected_team", .str team),
        ("anomaly_type", .str "spend_spike"),
        ("estimated_cost_impact_usd", .float (50 + (intOfHex (slice seed 2 4) : Rat))),
        ("attribution_summary", .str ("Scope " ++ scopeKey ++
          ": spend anomaly vs trailing baseline (digest " ++ digest ++ ")")),
        ("optimization_candidates", .arr [.str "rightsizing", .str "reserved_capacity_review"]),
        ("evidence_references", .arr [.str ("sim-cost:" ++ digest)])]
      confidence := percent 83
      outcome := none }
  else if stepName = "retrieve_cost_evidence" then
    { output := [("scope_id", .str scopeKey),
        ("evidence_summary", .str
          ("Simulated billing and cost playbook retrieval for " ++ scopeKey ++
          " (seed " ++ seed ++ ")")),
        ("chunk_ids", .arr [.str ("cost-sim-" ++ seed)]),
        ("corpus_version", .str "phase5_local_v1")]
      confidence := percent 80
      outcome := none }
  else if stepName = "correlate_usage_patterns" then
    { output := [("scope_id", .str scopeKey),
        ("correlation_summary", .str
          ("Simulated cloud_cost and metrics correlation for " ++ scopeKey)),
        ("cost_snapshot", .obj
          [("daily_cost_usd", .float (40 + (intOfHex (slice seed 4 6) : Rat)))]),
        ("usage_signals", .arr [.obj [("source", .str "metrics"), ("name", .str "cpu_utilization"),
          ("detail", .str ("ref:" ++ digest))]])]
      confidence := percent 82
      outcome := none }
  else if stepName = "validate_cost_attribution" then
    { output := [("validation_status", .str "passed"), ("confidence", .float (90 / 100)),
        ("likely_service", .str service), ("likely_team", .str team),
        ("recommended_actions", .arr [.str "enable_budget_alerts"]), ("digest", .str digest)]
      confidence := percent 90
      outcome := some ⟨"passed", [("likely_service", .str service), ("scope_key", .str scopeKey),
        ("simulated", .bool true)]⟩ }
  else unknownStep stepName

def executeCostAttributionStep (text : Rendering) (step : Step) (stepName : String) (ts : Time) :
    M StepResult := do
  let scopeKey := scopeIdFromInput text (executionInput step)
  let seed ← shortDigest scopeKey 8
  let digest ← shortDigest (text.dumps (.obj
    [("step_name", .str stepName), ("scope_key", .str scopeKey), ("simulated", .bool true)])) 16
  let simulated := simulateCostAttribution stepName scopeKey seed digest
  let rid ← M.uuid4
  pure (fullResult rid step ts simulated.output
    [[("type", .str "simulated_cost_attribution"), ("step_name", .str stepName),
      ("ref", .str ("cost_attribution:" ++ digest))]]
    simulated.confidence
    [("source", .str "step_executor_cost_attribution"), ("step_name", .str stepName)]
      simulated.outcome)

def StepKind.text : StepKind → String
  | .known type => type.value
  | .other text => text

def simulateGeneric (kind digest : String) : Simulated :=
  if kind = "validation" then
    { output := [("validated", .bool true), ("digest", .str digest),
        ("summary", .str "validation passed (simulated)")]
      confidence := percent 95
      outcome := some ⟨"passed", [("simulated", .bool true), ("digest", .str digest)]⟩ }
  else
    { output :=
      [("reasoning_digest", .str digest), ("summary", .str "reasoning completed (simulated)")]
      confidence := percent 82
      outcome := none }

def executeGenericStep (text : Rendering) (step : Step) (ts : Time) : M StepResult := do
  let kind := step.stepType.text
  let digest ← shortDigest (text.dumps (.obj
    [("step_id", .str step.stepId.str), ("kind", .str kind), ("simulated", .bool true)])) 16
  let simulated := simulateGeneric kind digest
  let rid ← M.uuid4
  pure (fullResult rid step ts simulated.output
    [[("type", .str "simulated"), ("ref", .str ("sim:" ++ digest))]]
    simulated.confidence
    [("source", .str "step_executor_simulator"), ("kind", .str kind)] simulated.outcome)

/-- Simulate work from the workflow, the name and the type of a running step. -/
def executeStep (text : Rendering) (step : Step) : M StepResult := do
  if step.status ≠ .running then
    M.throw .valueError ("step " ++ step.stepId.str ++
      " must be RUNNING before execute_step(); got " ++
      step.status.value)
  else
    let ts ← M.now
    match plannerStepName step with
    | .str name =>
        if (stepWorkflowType step).isStr "incident_triage" then
          executeIncidentTriageStep text step name ts
        else if (stepWorkflowType step).isStr "cost_attribution" then
          executeCostAttributionStep text step name ts
        else executeGenericStep text step ts
    | _ => executeGenericStep text step ts

end AgenticPlatform
