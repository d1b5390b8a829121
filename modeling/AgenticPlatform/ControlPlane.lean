import AgenticPlatform.Gateway
import AgenticPlatform.Parties

/-! What a payload submitted through the gateway decides about the control data of the new
execution: mode, runtime metadata and replay lineage share one JSON object with it. -/
namespace AgenticPlatform
open Interaction ExecutionEngine Store

section
variable {text : Rendering} {modelValidate : Dict → Option ReplayProvenance} {execution : Execution}
  {payload : Dict} {mode : ExecutionMode}

end

section
variable {env : Env} {engine : ExecutionEngine} {settings : GatewaySettings} {fuel : Nat}
  {idem : IdempotencyStore} {call : CreateExecutionCall} {allowed : Execution → Prop} {w : World}

end

end AgenticPlatform
