import AgenticPlatform.Interaction.System
import AgenticPlatform.Schema

/-! The tool runtime: the registry of tools, and the executor that gates a request, runs the
handler with bounded retries and returns one audit row. -/
namespace AgenticPlatform
open Interaction

/-- Bounded retry policy for transient tool failures. -/
structure ToolRetryPolicy where
  maxRetries : Nat
  backoffMs : Nat
  maxRetries_le : maxRetries ≤ 8
  backoffMs_le : backoffMs ≤ 60000

/-- The policy of a tool that is registered without one. -/
def ToolRetryPolicy.default : ToolRetryPolicy := ⟨2, 200, by decide, by decide⟩

/-- Registration metadata for a tool. -/
structure RegisteredTool where
  toolName : String
  sideEffectClass : ToolSideEffectClass
  idempotency : ToolIdempotency
  timeoutBoundsMs : Nat
  description : String
  providerId : String
  retryPolicy : ToolRetryPolicy
  timeoutBoundsMs_pos : 1 ≤ timeoutBoundsMs

/-- The registered tools with their handlers, by name. -/
abbrev ToolRegistry (Handler : Type) := List (RegisteredTool × Handler)

section
variable {Handler : Type}

/-- A name that is registered again replaces the entry. -/
def ToolRegistry.register (registry : ToolRegistry Handler) (tool : RegisteredTool)
    (handler : Handler) :
    ToolRegistry Handler :=
  if registry.any fun entry => entry.1.toolName = tool.toolName then
    registry.map fun entry => if entry.1.toolName = tool.toolName then (tool, handler) else entry
  else registry ++ [(tool, handler)]

def ToolRegistry.get (registry : ToolRegistry Handler) (toolName : String) : Option
    (RegisteredTool × Handler) :=
  registry.find? fun entry => entry.1.toolName = toolName

end

/-- The handlers of the default registry. -/
inductive FixtureHandler where
  | fetchIncidentMetadata | updateIncidentStatus | lookupMetricsSnapshot | fetchCostSnapshot
  deriving DecidableEq, Repr

def readPolicy : ToolRetryPolicy := ⟨2, 100, by decide, by decide⟩

def mutatePolicy : ToolRetryPolicy := ⟨0, 0, by decide, by decide⟩

/-- A tool of the default registry that only reads. -/
def readTool (toolName : String) (timeoutMs : Nat) (providerId description : String)
    (pos : 1 ≤ timeoutMs) :
    RegisteredTool where
  toolName := toolName
  sideEffectClass := .readOnly
  idempotency := .idempotent
  timeoutBoundsMs := timeoutMs
  description := description
  providerId := providerId
  retryPolicy := readPolicy
  timeoutBoundsMs_pos := pos

def incidentSystemUpdateTool : RegisteredTool where
  toolName := "incident_system_update_tool"
  sideEffectClass := .stateChanging
  idempotency := .nonIdempotent
  timeoutBoundsMs := 5000
  description := "Update incident status (requires approved=true; governed mutating example)."
  providerId := "incident_system_v1"
  retryPolicy := mutatePolicy
  timeoutBoundsMs_pos := by decide

def buildDefaultRegistry : ToolRegistry FixtureHandler :=
  let registered : List (RegisteredTool × FixtureHandler) :=
    [(readTool "incident_system_tool" 3000 "incident_system_v1"
        "Fetch incident metadata from incident system (local fixture)." (by decide),
          .fetchIncidentMetadata),
      (incidentSystemUpdateTool, .updateIncidentStatus),
      (readTool "metrics_lookup_tool" 4000 "metrics_lookup_v1"
        "Synthetic metrics/log snapshot for an incident."
        (by decide), .lookupMetricsSnapshot),
      (readTool "cloud_cost_tool" 4000 "cloud_cost_v1"
        "Cloud cost attribution snapshot with anomaly flag."
        (by decide), .fetchCostSnapshot),
      (readTool "incident_metadata_tool" 3000 "incident_system_v1"
        "Alias for incident_system_tool (Phase 4 compatibility)." (by decide),
          .fetchIncidentMetadata),
      (readTool "signal_lookup_tool" 4000 "metrics_lookup_v1"
        "Alias for metrics_lookup_tool (Phase 4 compatibility)." (by decide),
          .lookupMetricsSnapshot)]
  registered.foldl (fun registry entry => registry.register entry.1 entry.2) []

/-- What `exc.errno` holds. -/
inductive Errno where
  | code (errno : Int)
  | other
  /-- A value that cannot be looked for in a set. -/
  | unhashable
  deriving DecidableEq

/-- What the executor tells apart in an exception. -/
inductive ToolErrorKind where
  | transient | validation | timeout | connection | url | http
  | os (errno : Errno)
  | other (name : String)
  deriving DecidableEq

/-- `text` is what a row says of the exception, `none` where its `__str__` gives no string. -/
structure ToolError where
  kind : ToolErrorKind
  text : Option String
  deriving DecidableEq

def typeError (text : String) : ToolError := ⟨.other "TypeError", some text⟩

/-- `str(exc)`. -/
def ToolError.str (exc : ToolError) : Except ToolError String :=
  match exc.text with
  | some text => .ok text
  | none => .error (typeError "__str__ returned non-string")

def isTransient (exc : ToolError) : Except ToolError Bool :=
  match exc.kind with
  | .transient | .timeout | .connection | .url | .http => .ok true
  | .os (.code errno) => .ok (errno = 110 || errno = 111)
  -- `errno in {110, 111}` asks for a hash
  | .os .unhashable => .error (typeError "unhashable type")
  | _ => .ok false

/-- What a handler returns. A key of a dict is given as the text that the schema of the audit row
reads it as, `none` where it is no text. -/
inductive Returned where
  | dict (entries : List (Option String × Json))
  | other

/-- The dict, if the schema takes it. -/
def Returned.output : Returned → Option Dict
  | dict entries => entries.mapM fun entry => entry.1.map fun key => (key, entry.2)
  | other => none

/-- What the executor calls: `run` is a handler on a payload, `none` if it never ends. One that ends
after the timeout raises a timeout. -/
inductive ToolOp (Handler : Type) where
  | uuid4
  | cancelCheck
  | perfCounterNs
  | sleep (ms : Nat)
  | run (handler : Handler) (payload : Dict) (timeoutMs : Nat)

@[reducible] def ToolOp.Res {Handler : Type} : ToolOp Handler → Type
  | .uuid4 => UUID
  | .cancelCheck => Bool
  | .perfCounterNs => Nat
  | .sleep _ => Unit
  | .run _ _ _ => Option Returned

@[reducible] def toolRuntime (Handler : Type) : Signature := ⟨ToolOp Handler, ToolOp.Res⟩

abbrev ToolM (Handler α : Type) := Prog (toolRuntime Handler) ToolError α

structure ToolExecutor (Handler : Type) where
  registry : ToolRegistry Handler
  cancelCheck : Bool

def buildCall (tcid : UUID) (request : ToolInvokeRequest) (now : Time)
    (sideEffectClass : ToolSideEffectClass) (idempotency : ToolIdempotency)
    (status : ToolCallStatus) (output : Option Dict) (latencyMs : Nat) (error : Option Dict) :
    ToolCall where
  toolCallId := tcid
  executionId := request.executionId
  stepId := request.stepId
  executionContextId := request.executionContextId
  actionProposalId := request.actionProposalId
  toolName := request.toolName
  sideEffectClass := sideEffectClass
  idempotency := idempotency
  input := request.input
  output := output
  status := status
  latencyMs := some latencyMs
  error := error
  createdAt := now
  updatedAt := now

/-- The detail of an error: its code and its message. -/
def toolError (code message : String) : Dict := [("code", .str code), ("message", .str message)]

def validateInput (request : ToolInvokeRequest) : Except ToolError Unit :=
  if (request.input.get? "incident_id").isNone ∧ (request.input.get? "id").isNone then
    .error ⟨.validation, some "incident_id or id is required in tool input"⟩
  else .ok ()

namespace ToolExecutor
variable {Handler : Type} (executor : ToolExecutor Handler)

@[reducible] def perform (op : ToolOp Handler) : ToolM Handler op.Res :=
  @Prog.perform (toolRuntime Handler) ToolError op

def isCancelled : ToolM Handler Bool := if executor.cancelCheck then perform .cancelCheck
    else pure false

def elapsedMs (started : Nat) : ToolM Handler Nat := do
  let counter ← perform .perfCounterNs
  pure ((counter - started) / 1000000)

def ofExcept {α : Type} : Except ToolError α → ToolM Handler α
  | .ok a => pure a
  | .error exc => .raise exc

/-- The handler, whose own timeout reads like that of the future. The pool is not left before the
handler has ended. -/
def runWithTimeout (handler : Handler) (payload : Dict) (timeoutMs : Nat) :
    ToolM Handler Returned := do
  let ended ← (perform (.run handler payload (max 1 timeoutMs))).tryCatch fun exc =>
    if exc.kind = .timeout then
      .raise ⟨.timeout, some ("tool exceeded timeout_bounds_ms=" ++ toString timeoutMs)⟩
    else .raise exc
  match ended with
  | some returned => pure returned
  | none => .halt

section
variable (tcid : UUID) (request : ToolInvokeRequest) (now : Time) (tool : RegisteredTool)
  (handler : Handler)
  (started : Nat)

/-- The audit row of a tool that was found. -/
def callOf (status : ToolCallStatus) (output : Option Dict) (latencyMs : Nat)
    (error : Option Dict) : ToolCall :=
  buildCall tcid request now tool.sideEffectClass tool.idempotency status output latencyMs error

@[simp] theorem callOf_status {status : ToolCallStatus} {output : Option Dict} {latencyMs : Nat}
    {error : Option Dict} :
    (callOf tcid request now tool status output latencyMs error).status = status := rfl

/-- The row after the last attempt. -/
def exhausted (lastExc : Option ToolError) : ToolM Handler ToolCall := do
  let latencyMs ← elapsedMs started
  let timedOut := lastExc.any fun exc => exc.kind = .timeout
  let message ← ofExcept (match lastExc with
    | some exc => exc.str
    | none => .ok "unknown")
  pure (callOf tcid request now tool (if timedOut then .timeout else .failure) none latencyMs
    (some (toolError (if timedOut then "timeout" else "tool_execution_error") message ++
      [("retry_count", .int tool.retryPolicy.maxRetries), ("provider_id", .str tool.providerId)])))

/-- The row of an attempt that ended in a validation error. -/
def invalidAttempt (attempt : Nat) (exc : ToolError) : ToolM Handler ToolCall := do
  let latencyMs ← elapsedMs started
  let message ← ofExcept exc.str
  pure (callOf tcid request now tool .failure none latencyMs
    (some (toolError "validation_error" message ++ [("retry_count", .int attempt)])))

/-- The remaining iterations of `for attempt in range(max_attempts)`. -/
def attempts (attempt : Nat) : Nat → Option ToolError → ToolM Handler ToolCall
  | 0, lastExc => exhausted tcid request now tool started lastExc
  | remaining + 1, _ => do
      if ← executor.isCancelled then
        let latencyMs ← elapsedMs started
        pure (callOf tcid request now tool .failure none latencyMs
          (some (toolError "cancelled" "execution cancellation requested")))
      else
        match ← (runWithTimeout handler request.input tool.timeoutBoundsMs).attempt with
        | .ok (.dict entries) =>
            let latencyMs ← elapsedMs started
            match (Returned.dict entries).output with
            | some out =>
                pure (callOf tcid request now tool .success
                  (some (Dict.set out "_tool_runtime" (.obj [("provider_id", .str tool.providerId),
                    ("retry_count", .int attempt), ("timed_out", .bool false)]))) latencyMs none)
            -- the row is made under the `try` of the attempt
            | none =>
                exhausted tcid request now tool started
                  (some ⟨.other "ValidationError", some "1 validation error for ToolCall"⟩)
        | .ok .other =>
            invalidAttempt tcid request now tool started attempt
              ⟨.validation, some "tool handler must return dict"⟩
        | .error exc =>
            if exc.kind = .validation then invalidAttempt tcid request now tool started attempt exc
            else
              let transient ← ofExcept (isTransient exc)
              if ¬ transient ∨ remaining = 0 then exhausted tcid request now tool started (some exc)
              else
                perform (.sleep (tool.retryPolicy.backoffMs * (attempt + 1)))
                attempts (attempt + 1) remaining (some exc)

end

/-- Gate a request, run its handler with bounded retries and return the audit row. -/
def execute (request : ToolInvokeRequest) (now : Time) : ToolM Handler ToolCall := do
  let tcid ← perform .uuid4
  if request.policyDenied then
    pure (buildCall tcid request now .stateChanging .nonIdempotent .rejectedByPolicy none 0
      (some (toolError "rejected_by_policy" "policy denied before tool invoke")))
  else
    match executor.registry.get request.toolName with
    | none =>
        pure (buildCall tcid request now .readOnly .idempotent .failure none 0
          (some (toolError "unknown_tool" ("tool not registered: " ++ request.toolName))))
    | some (tool, handler) =>
        if ← executor.isCancelled then
          pure (callOf tcid request now tool .failure none 0
            (some (toolError "cancelled" "execution cancellation requested")))
        else
          match validateInput request with
          | .error exc => do
              let message ← ofExcept exc.str
              pure (callOf tcid request now tool .failure none 0
                (some (toolError "validation_error" message)))
          | .ok _ =>
              let started ← perform .perfCounterNs
              executor.attempts tcid request now tool handler started 0
                (tool.retryPolicy.maxRetries + 1) none

end ToolExecutor
end AgenticPlatform
