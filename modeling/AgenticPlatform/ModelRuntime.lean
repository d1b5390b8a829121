import AgenticPlatform.Interaction.Program
import AgenticPlatform.Metrics
import AgenticPlatform.Schema
import Mathlib.Data.List.Infix

/-! The model runtime: a provider wrapped with bounded retries and counters. The structured log
lines of the wrapper are left out. -/
namespace AgenticPlatform
open Interaction

/-- The error taxonomy of the model runtime, and everything else. -/
inductive ModelErrorKind where
  | schemaValidation | transient | nonRetryable
  | other (name : String)
  deriving DecidableEq

/-- `type(exc).__name__`. -/
def ModelErrorKind.name : ModelErrorKind → String
  | schemaValidation => "SchemaValidationModelError"
  | transient => "TransientModelError"
  | nonRetryable => "NonRetryableModelError"
  | other name => name

structure ModelError where
  kind : ModelErrorKind
  text : String
  deriving DecidableEq

def Transient {α : Type} : Except ModelError α → Prop
  | .ok _ => False
  | .error exc => exc.kind = .transient

instance {α : Type} (r : Except ModelError α) : Decidable (Transient r) := by
  cases r with
  | ok a => exact inferInstanceAs (Decidable False)
  | error exc => exact inferInstanceAs (Decidable (exc.kind = .transient))

/-- An output whose invocation can be replaced in a copy. -/
class StructuredOutput (Out : Type) where
  invocation : Out → Option ModelInvocationTelemetry
  withInvocation : Out → ModelInvocationTelemetry → Out
  invocation_with : ∀ out telemetry, invocation (withInvocation out telemetry) = some telemetry

instance : StructuredOutput IncidentAnalysisReasoningOutput :=
  ⟨(·.invocation), fun out telemetry => { out with invocation := some telemetry }, fun _ _ => rfl⟩

instance : StructuredOutput IncidentValidationReasoningOutput :=
  ⟨(·.invocation), fun out telemetry => { out with invocation := some telemetry }, fun _ _ => rfl⟩

instance : StructuredOutput CostAttributionReasoningOutput :=
  ⟨(·.invocation), fun out telemetry => { out with invocation := some telemetry }, fun _ _ => rfl⟩

instance : StructuredOutput CostValidationOutput :=
  ⟨(·.invocation), fun out telemetry => { out with invocation := some telemetry }, fun _ _ => rfl⟩

structure ReasoningCallResult (Out : Type) where
  output : Out
  telemetry : ModelInvocationTelemetry

/-- The result with the latency and the attempt of its invocation written into it. -/
def ReasoningCallResult.stamped {Out : Type} [StructuredOutput Out]
    (result : ReasoningCallResult Out) (attempt latencyMs : Nat) : ReasoningCallResult Out :=
  let updated := { result.telemetry with latencyMs := latencyMs, retryCount := attempt }
  ⟨StructuredOutput.withInvocation result.output updated, updated⟩

/-- What the wrapper reads of `ModelRuntimeConfig`. -/
structure ModelRetryConfig where
  maxRetries : Int
  retryBackoffSeconds : Rat

/-- `max(1, self._config.max_retries + 1)`. -/
def ModelRetryConfig.maxAttempts (config : ModelRetryConfig) : Nat :=
  (max 1 (config.maxRetries + 1)).toNat

/-- What the wrapper calls: `invoke` is the task on the inner provider. -/
inductive ModelOp where
  | perfCounter
  | invoke
  | observeLatencyMs (metricBase : String) (latencyMs : Nat) (labels : Labels)
  | inc (name : String) (labels : Labels)
  | sleep (seconds : Rat)

@[reducible] def ModelOp.Res (Out : Type) : ModelOp → Type
  | perfCounter => Rat
  | invoke => ReasoningCallResult Out
  | observeLatencyMs _ _ _ | inc _ _ | sleep _ => Unit

@[reducible] def modelRuntime (Out : Type) : Signature := ⟨ModelOp, ModelOp.Res Out⟩

abbrev ModelM (Out α : Type) := Prog (modelRuntime Out) ModelError α

namespace ResilientStructuredProvider
variable {Out : Type} [StructuredOutput Out]

@[reducible] def perform (op : ModelOp) : ModelM Out (op.Res Out) := @Prog.perform
    (modelRuntime Out) ModelError op

section
variable (config : ModelRetryConfig) (task : String)

/-- The body of the `try` of an attempt. -/
def invokeOnce (attempt : Nat) : ModelM Out (ReasoningCallResult Out) := do
  let started ← perform .perfCounter
  let result ← perform .invoke
  let finished ← perform .perfCounter
  let latencyMs := ((finished - started) * 1000).floor.toNat
  let stamped := result.stamped attempt latencyMs
  let provider := if stamped.telemetry.providerType = "" then "unknown"
    else stamped.telemetry.providerType
  perform (.observeLatencyMs "model_request" latencyMs [("provider", provider), ("task", task)])
  perform (.inc "model_requests_total" [("provider", provider), ("task", task)])
  pure stamped

/-- After the last attempt. -/
def exhausted (lastExc : Option ModelError) : ModelM Out (ReasoningCallResult Out) := do
  perform (.inc "model_failures_total" [("reason", "exhausted_retries"), ("task", task)])
  match lastExc with
  | some exc =>
      -- only ASCII letters lower to those of the phrase
      if exc.kind = .transient ∧ "timed out".toList <:+: exc.text.toLower.toList then
        perform (.inc "model_timeouts_total" [("task", task)])
        .raise exc
      else .raise exc
  | none => .raise ⟨.other "AssertionError", ""⟩

/-- The remaining iterations of `for attempt in range(max_attempts)`. -/
def attempts (attempt : Nat) : Nat → Option ModelError → ModelM Out (ReasoningCallResult Out)
  | 0, lastExc => exhausted task lastExc
  | remaining + 1, _ => do
      match ← (invokeOnce task attempt).attempt with
      | .ok result => pure result
      | .error exc =>
          match exc.kind with
          | .schemaValidation =>
              perform (.inc "model_failures_total" [("reason", "schema_validation"),
                ("task", task)])
              .raise exc
          | .transient =>
              perform (.inc "model_retries_total" [("task", task)])
              if remaining = 0 then exhausted task (some exc)
              else
                perform (.sleep (config.retryBackoffSeconds * (attempt + 1)))
                attempts (attempt + 1) remaining (some exc)
          | kind =>
              perform (.inc "model_failures_total" [("reason", kind.name), ("task", task)])
              .raise exc

/-- `_call_with_retries`. -/
def callWithRetries : ModelM Out (ReasoningCallResult Out) :=
  attempts config task 0 config.maxAttempts none

end

variable (config : ModelRetryConfig)

def analyzeIncident : ModelM IncidentAnalysisReasoningOutput
    (ReasoningCallResult IncidentAnalysisReasoningOutput) :=
  callWithRetries config "analyze_incident"

def validateIncident :
    ModelM IncidentValidationReasoningOutput
      (ReasoningCallResult IncidentValidationReasoningOutput) :=
  callWithRetries config "validate_incident"

def analyzeCostAnomaly : ModelM CostAttributionReasoningOutput
    (ReasoningCallResult CostAttributionReasoningOutput) :=
  callWithRetries config "analyze_cost_anomaly"

def validateCostAttribution : ModelM CostValidationOutput
    (ReasoningCallResult CostValidationOutput) :=
  callWithRetries config "validate_cost_attribution"

end ResilientStructuredProvider

/-- `time.sleep`, of which only the errors are seen. -/
def timeSleep (seconds : Rat) : Except ModelError Unit :=
  if seconds * 1000000000 < -9223372036854775808 ∨ 9223372036854775808 ≤ seconds * 1000000000 then
    .error ⟨.other "OverflowError", "timestamp too large to convert to C _PyTime_t"⟩
  else if seconds < 0 then .error ⟨.other "ValueError", "sleep length must be non-negative"⟩
  else .ok ()

/-- What the `n`-th invocation of the provider and the `n`-th reading of the counter give. -/
structure ModelEnv (Out : Type) where
  provider : Nat → Except ModelError (ReasoningCallResult Out)
  counter : Nat → Rat

structure ModelState where
  invocations : Nat
  readings : Nat
  metrics : MetricsRegistry

namespace ModelEnv
variable {Out : Type} (env : ModelEnv Out)

def handle : Handler (modelRuntime Out) ModelError ModelState := fun s op =>
  match op with
  | .perfCounter => (.ok (env.counter s.readings), { s with readings := s.readings + 1 })
  | .invoke => (env.provider s.invocations, { s with invocations := s.invocations + 1 })
  | .observeLatencyMs base ms labels =>
      (.ok (), { s with metrics := s.metrics.observeLatencyMs base ms labels })
  | .inc name labels => (.ok (), { s with metrics := s.metrics.inc name labels })
  | .sleep seconds => (timeSleep seconds, s)

/-- One call of the wrapper. -/
def call [StructuredOutput Out] (config : ModelRetryConfig) (task : String)
    (metrics : MetricsRegistry) :
    Outcome ModelError (ReasoningCallResult Out) × ModelState :=
  run env.handle (ResilientStructuredProvider.callWithRetries config task) ⟨0, 0, metrics⟩

end ModelEnv
end AgenticPlatform
