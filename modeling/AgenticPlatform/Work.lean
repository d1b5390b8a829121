import AgenticPlatform.StepExecutor
import AgenticPlatform.Timeline

/-! The work of a running step: retrieval and tools through their services, reasoning
through the model runtime with the deterministic executor as fallback. -/
namespace AgenticPlatform
open Interaction

structure OrchestratorSettings where
  defaultAgentReasoning : String
  defaultAgentValidation : String
  defaultAgentRetrieval : String

def OrchestratorSettings.default : OrchestratorSettings :=
  ⟨"reasoning_agent_v1", "validation_agent_v1", "retrieval_agent_v1"⟩

/-- What the engine is constructed with; a capability may be missing. -/
structure ExecutionEngine where
  plannerMeta : Dict
  settings : OrchestratorSettings
  toolRuntime : Bool
  knowledge : Bool
  modelRuntime : Bool
  text : Rendering

/-- The engine as constructed without arguments. -/
def ExecutionEngine.default (text : Rendering) : ExecutionEngine where
  plannerMeta := [("planner", .str "deterministic_v1")]
  settings := .default
  toolRuntime := true
  knowledge := true
  modelRuntime := true
  text := text

def isValidationStep (step : Step) : Bool :=
  match step.stepType with
  | .known type => type = .validation
  | .other text => text.toLower = "validation"

namespace ExecutionEngine
variable (engine : ExecutionEngine)

def shouldUseToolingForStep (step : Step) : Bool :=
  if engine.toolRuntime = false ∨ engine.knowledge = false then false
  else
    let wt := stepWorkflowType step
    let name := plannerStepName step
    (wt.isStr "incident_triage" && name.isStr "gather_evidence") ||
      (wt.isStr "cost_attribution" &&
        (name.isStr "retrieve_cost_evidence" || name.isStr "correlate_usage_patterns"))

def shouldUseModelForStep (step : Step) : Bool :=
  if engine.modelRuntime = false then false
  else
    let wt := stepWorkflowType step
    let name := plannerStepName step
    if wt.isStr "incident_triage" then name.isStr "analyze_incident" || name.isStr
      "validate_incident"
    else if wt.isStr "cost_attribution" then
      name.isStr "analyze_cost_anomaly" || name.isStr "validate_cost_attribution"
    else false

/-- The planner name and the stored output of each step, in order. -/
def priorOutputs : List Step → M (List (Json × Dict))
  | [] => pure []
  | s :: rest => do
      let res ← M.getStepResult s.stepId
      let later ← priorOutputs rest
      pure ((plannerStepName s, (res.bind StepResult.output).getD []) :: later)

/-- The output of the last step of that name, or `{}`. -/
def outputOf (outputs : List (Json × Dict)) (name : String) : Dict :=
  outputs.foldl (fun found o => if o.1.isStr name then o.2 else found) []

def textOfField (out : Dict) (key : String) : String :=
  slice (engine.text.str (out.getOr key (.str ""))) 0 2000

/-- `[str(x) for x in v][:16] if isinstance(v, list) else []`. -/
def textsOfField (out : Dict) (key : String) : List String :=
  match out.get key with
  | .arr xs => (xs.map engine.text.str).take 16
  | _ => []

/-- At most twelve fields of the input, by sorted key. -/
def inputExcerpt (exIn : Dict) : Dict := (exIn.sortedKeys.take 12).map fun k => (k, exIn.get k)

/-- `if value: detail[key] = value`. -/
def optionalField (key : String) (value : Option String) : Dict :=
  match value with
  | some s => if s = "" then [] else [(key, .str s)]
  | none => []

theorem optionalField_get? {key other : String} (apart : key ≠ other) (value : Option String) :
    (optionalField key value).get? other = none := by
  unfold optionalField
  cases value with
  | none => rfl
  | some s => by_cases empty : s = "" <;> simp [empty, apart]

def modelReasoningDetail (step : Step) (path task : String)
    (provider errorClass errorMessage : Option String) (invocation : Option Dict) : Dict :=
  [("step_id", .str step.stepId.str), ("planner_step_name", plannerStepName step),
    ("path", .str path), ("task", .str task)] ++
  optionalField "provider" provider ++ optionalField "error_class" errorClass ++
  optionalField "error_message" (errorMessage.map (slice · 0 500)) ++
  (match invocation with
    | some d => [("invocation", .obj d)]
    | none => [])

def traceModelReasoning (step : Step) (path task : String) (now : Time)
    (provider errorClass errorMessage : Option String) (invocation : Option Dict) : M Unit :=
  recordTrace step.executionId
    [("model_reasoning", modelReasoningDetail step path task provider errorClass errorMessage
      invocation)] now

/-- The trace of an answer of the model runtime. -/
def traceModelAnswer (step : Step) (task : String) (now : Time) (provider : String)
    (invocation : Option ModelInvocationTelemetry) : M Unit :=
  traceModelReasoning step "model_runtime" task now (some provider) none none
    (invocation.map ModelInvocationTelemetry.modelDump)

/-- The stored result of a model answer. -/
def modelResult (step : Step) (now : Time) (task provider invocationId : String) (output : Dict)
    (confidence : Confidence) (outcome : Option ValidationOutcome) : M StepResult := do
  let rid ← M.uuid4
  pure (fullResult rid step now output
    [[("type", .str "model_reasoning"), ("provider", .str provider),
      ("invocation_id", .str invocationId), ("task", .str task)]]
    confidence
    [("source", .str "model_runtime"), ("provider", .str provider), ("task", .str task)] outcome)

/-- The confidence of an analysis by the model. -/
def analysisConfidence : Confidence := percent 86

def stepResultFromAnalyzeModel (step : Step) (now : Time) (out : IncidentAnalysisReasoningOutput) :
    M StepResult :=
  modelResult step now "analyze_incident" out.providerLabel out.modelInvocationId
    [("incident_summary", .str out.incidentSummary),
      ("possible_causes", .arr (out.possibleCauses.map .str))]
    analysisConfidence none

def stepResultFromValidateModel (step : Step) (now : Time)
    (out : IncidentValidationReasoningOutput) :
    M StepResult :=
  modelResult step now "validate_incident" out.providerLabel out.modelInvocationId
    [("likely_cause", .str out.likelyCause), ("validation_status", .str out.validationStatus),
      ("confidence_score", .float out.confidenceScore), ("digest", .str out.digest)]
    out.confidenceScore
    (some ⟨out.validationStatus,
      [("likely_cause", .str out.likelyCause), ("model_invocation_id", .str out.modelInvocationId),
        ("provider", .str out.providerLabel), ("rationale_short", .str out.rationaleShort)]⟩)

def stepResultFromCostAnalyzeModel (step : Step) (now : Time)
    (out : CostAttributionReasoningOutput) :
    M StepResult :=
  modelResult step now "analyze_cost_anomaly" out.providerLabel out.modelInvocationId
    [("suspected_service", .str out.suspectedService), ("suspected_team", .str out.suspectedTeam),
      ("anomaly_type", .str out.anomalyType),
      ("estimated_cost_impact_usd", .float out.estimatedCostImpactUsd),
      ("attribution_summary", .str out.attributionSummary),
      ("optimization_candidates", .arr (out.optimizationCandidates.map .str)),
      ("evidence_references", .arr (out.evidenceReferences.map .str))]
    (percent 85) none

def stepResultFromCostValidateModel (step : Step) (now : Time) (out : CostValidationOutput) :
    M StepResult :=
  modelResult step now "validate_cost_attribution" out.providerLabel out.modelInvocationId
    [("validation_status", .str out.validationStatus), ("confidence", .float out.confidence),
      ("likely_service", .str out.likelyService), ("likely_team", .str out.likelyTeam),
      ("recommended_actions", .arr (out.recommendedActions.map .str)), ("digest", .str out.digest)]
    out.confidence
    (some ⟨out.validationStatus,
      [("likely_service", .str out.likelyService), ("likely_team", .str out.likelyTeam),
        ("confidence", .float out.confidence), ("model_invocation_id", .str out.modelInvocationId),
        ("provider", .str out.providerLabel)]⟩)

/-- The body under `try`; any exception is traced and the executor does the step. -/
def orFallback (step : Step) (now : Time) (task : String) (body : M StepResult) : M StepResult :=
  body.tryCatch fun exc => do
    traceModelReasoning step "deterministic_fallback" task now none (some exc.cls.name)
      (some exc.text) none
    executeStep engine.text step

def incidentModelReasoningStep (step : Step) (now : Time) : M StepResult :=
  let exIn := executionInput step
  let incidentId := incidentIdFromInput engine.text exIn
  if (plannerStepName step).isStr "analyze_incident" then
    engine.orFallback step now "analyze_incident" do
      let out ← M.analyzeIncident
        ⟨step.executionId, step.stepId, incidentId, "incident_triage", inputExcerpt exIn⟩
      traceModelAnswer step "analyze_incident" now out.providerLabel out.invocation
      stepResultFromAnalyzeModel step now out
  else if (plannerStepName step).isStr "validate_incident" then
    engine.orFallback step now "validate_incident" do
      let outputs ← priorOutputs (← M.listStepsForExecution step.executionId)
      let analyzeOut := outputOf outputs "analyze_incident"
      let gatherOut := outputOf outputs "gather_evidence"
      let vout ← M.validateIncident
        ⟨step.executionId, step.stepId, incidentId, engine.textsOfField analyzeOut
          "possible_causes", engine.textOfField analyzeOut "incident_summary", engine.textOfField
            gatherOut "evidence_summary"⟩
      traceModelAnswer step "validate_incident" now vout.providerLabel vout.invocation
      stepResultFromValidateModel step now vout
  else executeStep engine.text step

def costModelReasoningStep (step : Step) (now : Time) : M StepResult :=
  let exIn := executionInput step
  let scopeId := scopeIdFromInput engine.text exIn
  if (plannerStepName step).isStr "analyze_cost_anomaly" then
    engine.orFallback step now "analyze_cost_anomaly" do
      let out ← M.analyzeCostAnomaly
        ⟨step.executionId, step.stepId, scopeId, "cost_attribution", inputExcerpt exIn⟩
      traceModelAnswer step "analyze_cost_anomaly" now out.providerLabel out.invocation
      stepResultFromCostAnalyzeModel step now out
  else if (plannerStepName step).isStr "validate_cost_attribution" then
    engine.orFallback step now "validate_cost_attribution" do
      let outputs ← priorOutputs (← M.listStepsForExecution step.executionId)
      let analyzeOut := outputOf outputs "analyze_cost_anomaly"
      let retrieveOut := outputOf outputs "retrieve_cost_evidence"
      let vout ← M.validateCostAttribution
        ⟨step.executionId, step.stepId, scopeId, engine.textOfField analyzeOut
          "attribution_summary", engine.textOfField retrieveOut "evidence_summary",
          engine.textsOfField analyzeOut "optimization_candidates"⟩
      traceModelAnswer step "validate_cost_attribution" now vout.providerLabel vout.invocation
      stepResultFromCostValidateModel step now vout
  else executeStep engine.text step

/-- The execution context of a step, or the failure of the step. -/
def contextOfStep (step : Step) : M ExecutionContext := do
  match ← M.getExecution step.executionId with
  | none => M.throw .orchestrationError ("missing execution " ++ step.executionId.str)
  | some ex =>
      match ← M.getContext ex.executionContextId with
      | none => M.throw .orchestrationError ("missing context " ++ ex.executionContextId.str)
      | some ctx => pure ctx

def knowledgeRetrieved (step : Step) (retrieval : RetrievalResponse) : Dict :=
  [("step_id", .str step.stepId.str), ("retrieval_id", .str retrieval.retrievalId.str),
    ("chunk_count", .int retrieval.chunks.length), ("corpus_version", .str retrieval.corpusVersion)]

def toolCallCompleted (step : Step) (tc : ToolCall) : Dict :=
  [("step_id", .str step.stepId.str), ("tool_call_id", .str tc.toolCallId.str),
    ("tool_name", .str tc.toolName), ("status", .str tc.status.value),
    ("latency_ms", .ofOption (fun n => .int (n : Nat)) tc.latencyMs)]

/-- Invoke the tools one after another, storing and tracing each call; `extra` ends the detail
of each trace row. -/
def invokeTools (step : Step) (ctx : ExecutionContext) (input extra : Dict) (now : Time) :
    List String → M (List ToolCall)
  | [] => pure []
  | toolName :: rest => do
      let tc ← M.invoke
        ⟨step.executionId, step.stepId, ctx.contextId, toolName, input, none, false⟩ now
      M.saveToolCall tc
      recordTrace step.executionId [("tool_call_completed", toolCallCompleted step tc ++ extra)] now
      let later ← invokeTools step ctx input extra now rest
      pure (tc :: later)

/-- The output of the last call of that tool, or `{}`. -/
def toolOutput (toolCalls : List ToolCall) (name : String) : Dict :=
  ((toolCalls.reverse.find? fun tc => tc.toolName = name).bind ToolCall.output).getD []

/-- `[dict(x) for x in out["signals"] if isinstance(x, dict)]`. -/
def signalsOf (out : Dict) : List Json :=
  match out.get "signals" with
  | .arr xs => xs.filter fun x => match x with
      | .obj _ => true
      | _ => false
  | _ => []

def toolEvidence (toolCalls : List ToolCall) : List Dict :=
  toolCalls.map fun tc =>
    [("type", .str "tool_invocation"), ("tool_call_id", .str tc.toolCallId.str),
      ("tool_name", .str tc.toolName), ("status", .str tc.status.value)]

def chunkIds (retrieval : RetrievalResponse) : Json :=
  .arr (retrieval.chunks.map fun c => .str c.chunkId)

def retrievalEvidence (retrieval : RetrievalResponse) : Dict :=
  [("type", .str "knowledge_retrieval"), ("retrieval_id", .str retrieval.retrievalId.str),
    ("corpus_version", .str retrieval.corpusVersion), ("chunk_ids", chunkIds retrieval)]

def toolCallIds (toolCalls : List ToolCall) : Json :=
  .arr (toolCalls.map fun tc => .str tc.toolCallId.str)

def toolNames (toolCalls : List ToolCall) : Json := .arr (toolCalls.map fun tc => .str tc.toolName)

def gatherEvidenceViaServices (step : Step) (now : Time) : M StepResult := do
  let ctx ← contextOfStep step
  let incidentId := incidentIdFromInput engine.text (executionInput step)
  let retrieval ← M.retrieve
    { tenantId := ctx.tenantId
      workflowType := "incident_triage"
      query := "incident triage evidence correlation latency error deploy for incident " ++
        incidentId
      maxResults := 5
      filters := [("incident_id", .str incidentId)]
      corpusVersion := none
      correlationRequestId := some ctx.requestId }
  recordTrace step.executionId [("knowledge_retrieved", knowledgeRetrieved step retrieval)] now
  let toolCalls ← invokeTools step ctx [("incident_id", .str incidentId)] [] now
    ["incident_metadata_tool", "signal_lookup_tool"]
  let metaOut := toolOutput toolCalls "incident_metadata_tool"
  let signals := signalsOf (toolOutput toolCalls "signal_lookup_tool")
  let chunkEvidence : List Dict := retrieval.chunks.map fun ch =>
    [("type", .str "knowledge_chunk"), ("chunk_id", .str ch.chunkId),
      ("source_uri", .str ch.sourceUri), ("title", .ofOption .str ch.title),
        ("excerpt", .str (slice ch.textExcerpt 0 280)),
      ("score", .ofOption .float ch.score)]
  let summaryBits :=
    ["Retrieved " ++ toString retrieval.chunks.length ++ " knowledge chunk(s) for " ++
      incidentId] ++
    (if (metaOut.get "service").truthy then
      ["metadata service=" ++ engine.text.str (metaOut.get "service")] else []) ++
    (if signals.isEmpty then []
      else [toString signals.length ++ " signal(s) from signal_lookup_tool"])
  let rid ← M.uuid4
  pure (fullResult rid step now
    [("evidence_summary", .str ("; ".intercalate summaryBits)), ("signals", .arr signals),
      ("retrieval_id", .str retrieval.retrievalId.str), ("tool_call_ids", toolCallIds toolCalls),
      ("incident_id", .str incidentId), ("metadata_snapshot", .obj metaOut)]
    (retrievalEvidence retrieval :: chunkEvidence ++ toolEvidence toolCalls)
    (percent 88)
    [("source", .str "gather_evidence_phase4"), ("tools", toolNames toolCalls),
      ("retrieval_id", .str retrieval.retrievalId.str)]
    none)

/-- `str(ex_in.get("service_id") or ex_in.get("service") or "")`. -/
def serviceFromInput (exIn : Dict) : String :=
  engine.text.str (((exIn.get "service_id").pyOr (exIn.get "service")).pyOr (.str ""))

def withService (d : Dict) (service : String) : Dict :=
  if service = "" then d else d ++ [("service", .str service)]

def retrieveCostEvidenceViaServices (step : Step) (now : Time) : M StepResult := do
  let ctx ← contextOfStep step
  let exIn := executionInput step
  let scopeId := scopeIdFromInput engine.text exIn
  let retrieval ← M.retrieve
    { tenantId := ctx.tenantId
      workflowType := "cost_attribution"
      query := "cost billing spend anomaly attribution usage metrics for scope " ++ scopeId
      maxResults := 5
      filters := withService [("workflow", .str "cost_attribution")] (engine.serviceFromInput exIn)
      corpusVersion := none
      correlationRequestId := some ctx.requestId }
  recordTrace step.executionId
    [("knowledge_retrieved",
      knowledgeRetrieved step retrieval ++ [("workflow_type", .str "cost_attribution")])] now
  let chunkEvidence : List Dict := retrieval.chunks.map fun ch =>
    [("type", .str "knowledge_chunk"), ("chunk_id", .str ch.chunkId),
      ("document_id", .ofOption .str ch.documentId), ("source_uri", .str ch.sourceUri),
      ("title", .ofOption .str ch.title), ("excerpt", .str (slice ch.textExcerpt 0 280)),
      ("score", .ofOption .float ch.score), ("metadata", .obj ch.metadata)]
  let rid ← M.uuid4
  pure (fullResult rid step now
    [("scope_id", .str scopeId),
      ("evidence_summary", .str ("Retrieved " ++ toString retrieval.chunks.length ++
        " cost/billing knowledge chunk(s) for " ++ scopeId)),
      ("chunk_ids", chunkIds retrieval), ("retrieval_id", .str retrieval.retrievalId.str),
      ("corpus_version", .str retrieval.corpusVersion)]
    (retrievalEvidence retrieval :: chunkEvidence)
    (percent 87)
    [("source", .str "retrieve_cost_evidence"), ("retrieval_id", .str retrieval.retrievalId.str)]
    none)

def correlateUsageViaTools (step : Step) (now : Time) : M StepResult := do
  let ctx ← contextOfStep step
  let exIn := executionInput step
  let scopeId := scopeIdFromInput engine.text exIn
  let toolCalls ← invokeTools step ctx
    (withService [("scope_id", .str scopeId)] (engine.serviceFromInput exIn))
    [("workflow_type", .str "cost_attribution")] now ["cloud_cost_tool", "metrics_lookup_tool"]
  let costOut := toolOutput toolCalls "cloud_cost_tool"
  let signals := signalsOf (toolOutput toolCalls "metrics_lookup_tool")
  let dailyCost := match costOut.get "daily_cost_usd" with
    | .null => []
    | v => ["daily_cost_usd=" ++ engine.text.str v]
  let summaryBits := ["Correlated cost and usage for scope " ++ scopeId] ++ dailyCost ++
    (if signals.isEmpty then [] else [toString signals.length ++ " usage signal(s)"])
  let rid ← M.uuid4
  pure (fullResult rid step now
    [("scope_id", .str scopeId), ("correlation_summary", .str ("; ".intercalate summaryBits)),
      ("tool_call_ids", toolCallIds toolCalls), ("cost_snapshot", .obj costOut),
      ("usage_signals", .arr signals)]
    (toolEvidence toolCalls)
    (percent 86)
    [("source", .str "correlate_usage_patterns"), ("tools", toolNames toolCalls)]
    none)

/-- The path that a running step takes. -/
def stepWork (running : Step) (now : Time) : M StepResult :=
  if engine.shouldUseToolingForStep running then
    if (stepWorkflowType running).isStr "cost_attribution" then
      if (plannerStepName running).isStr "retrieve_cost_evidence" then
        engine.retrieveCostEvidenceViaServices running now
      else engine.correlateUsageViaTools running now
    else engine.gatherEvidenceViaServices running now
  else if engine.shouldUseModelForStep running then
    if (stepWorkflowType running).isStr "cost_attribution"
      then engine.costModelReasoningStep running now
    else engine.incidentModelReasoningStep running now
  else executeStep engine.text running

end ExecutionEngine
end AgenticPlatform
