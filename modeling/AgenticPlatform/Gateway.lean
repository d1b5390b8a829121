import AgenticPlatform.ExecutionService

/-! The gateway's `create_execution`, the storage form of an execution row, and the control
data that the platform reads back from the input of a row. -/
namespace AgenticPlatform
open Interaction

def orchExecutionModeKey : String := "__orch_execution_mode__"

/-- The execution table has no column for the mode, which travels under a reserved key of the
input. -/
def persistExecutionInput (execution : Execution) : Dict :=
  execution.input.set orchExecutionModeKey (.str execution.executionMode.value)

def restoreExecutionInputAndMode (text : Rendering) (data : Dict) : Dict × ExecutionMode :=
  let raw := data.pop orchExecutionModeKey
  match data.get orchExecutionModeKey with
  | .null => (raw, .background)
  | modeRaw => (raw, (ExecutionMode.parse (text.str modeRaw)).getD .background)

/-- The provenance of a row; `modelValidate` is the schema check of `ReplayProvenance`, which
answers `none` where it raises. -/
def provenance (modelValidate : Dict → Option ReplayProvenance) (execution : Execution) :
    Option ReplayProvenance :=
  match execution.input.get replayProvenanceInputKey with
  | .obj raw => modelValidate raw
  | _ => none

def isLinked (modelValidate : Dict → Option ReplayProvenance) (source replay : Execution) : Bool :=
  replay.parentExecutionId = some source.executionId ||
    (match provenance modelValidate replay with
      | some prov => prov.sourceExecutionId = source.executionId
      | none => false)

def registeredWorkflowTypes : List String := ["incident_triage", "cost_attribution", "generic"]

structure GatewaySettings where
  scheduleExecutionStart : Bool
  useExecutionWorkerQueue : Bool

/-- What `create_execution` takes; `startCallback` says that the caller starts the run itself. -/
structure CreateExecutionCall where
  workflowType : String
  inputPayload : Dict
  context : Dict
  idempotencyKey : Option String
  scheduleStart : Option Bool
  startCallback : Bool

/-- `dict or None` of a context field. -/
def dictOrNone (v : Json) : Option Dict :=
  match v with
  | .obj d => some d
  | _ => none

/-- The mode that the context asks for; anything but a mode is refused. -/
def contextMode (text : Rendering) (context : Dict) : Except Exn ExecutionMode :=
  match context.get "execution_mode" with
  | .null => .ok .background
  | v =>
      match ExecutionMode.parse (text.str v) with
      | some mode => .ok mode
      | none => .error ⟨.valueError, "execution_mode must be interactive or background"⟩

def newExecutionOf (text : Rendering) (call : CreateExecutionCall) (mode : ExecutionMode) :
    NewExecution where
  workflowType := call.workflowType
  inputPayload := call.inputPayload
  tenantId := text.str (call.context.get "tenant_id")
  requestId := text.str ((call.context.get "request_id").pyOr (.str "gateway"))
  environment := text.str ((call.context.get "environment").pyOr (.str "dev"))
  policyScope := text.str (call.context.get "policy_scope")
  principalId :=
    if (call.context.get "principal_id").truthy then some
      (text.str (call.context.get "principal_id"))
    else none
  executionMode := mode
  permissionsScope := dictOrNone (call.context.get "permissions_scope")
  parentExecutionId := none
  featureFlags := dictOrNone (call.context.get "feature_flags")

/-- Which execution an idempotency key stands for, by tenant and workflow. -/
abbrev IdempotencyStore := List ((String × String × String) × UUID)

def IdempotencyStore.find (idem : IdempotencyStore) (key : String × String × String) :
    Option UUID :=
  (idem.find? fun e => e.1 = key).map Prod.snd

/-- Start the run as configured: through the queue, by the caller, or here. -/
def scheduleRun (engine : ExecutionEngine) (settings : GatewaySettings) (fuel : Nat)
    (call : CreateExecutionCall) (mode : ExecutionMode) (executionId : UUID) : M Unit := do
  if call.scheduleStart.getD settings.scheduleExecutionStart then
    if settings.useExecutionWorkerQueue ∧ mode = .background then
      let _ex ← enqueueExecution executionId
      pure ()
    else if call.startCallback then pure ()
    else
      let _ex ← engine.startExecution fuel executionId
      pure ()
  else pure ()

/-- A key of `idem` that still names a stored execution. -/
def knownExecution (idem : IdempotencyStore) (key : Option (String × String × String)) :
    M (Option Execution) :=
  match key.bind idem.find with
  | some executionId => M.getExecution executionId
  | none => pure none

/-- `ExecutionFacade.create_execution`, with the idempotency store that it leaves. -/
def facadeCreateExecution (engine : ExecutionEngine) (settings : GatewaySettings) (fuel : Nat)
    (idem : IdempotencyStore) (call : CreateExecutionCall) : M (Execution × IdempotencyStore) := do
  if call.workflowType ∉ registeredWorkflowTypes then
    M.throw .valueError
      "unsupported workflow_type (registered: ['cost_attribution', 'generic', 'incident_triage'])"
  else if ¬ (call.context.get "tenant_id").truthy ∨ ¬ (call.context.get "policy_scope").truthy then
    M.throw .valueError "context.tenant_id and context.policy_scope are required"
  else
    let mode ← M.ofExcept (contextMode engine.text call.context)
    let key := (call.idempotencyKey.filter (· ≠ "")).map fun k =>
      (engine.text.str (call.context.get "tenant_id"), call.workflowType, k)
    match ← knownExecution idem key with
    | some existing => pure (existing, idem)
    | none =>
        let ts ← M.now
        let ex ← createExecution (newExecutionOf engine.text call mode) ts
        let idem := match key with
          | some k => (k, ex.executionId) :: idem
          | none => idem
        scheduleRun engine settings fuel call mode ex.executionId
        pure (ex, idem)

end AgenticPlatform
