import AgenticPlatform.Parties

/-! Sessions: calls of the service one after another, from the empty store on. -/
namespace AgenticPlatform
open Interaction ExecutionEngine

/-- One call of the service or one delivery to a worker. -/
inductive Call where
  | createExecution (request : NewExecution) (ts : Time)
  | createReplay (request : ReplayRequest)
  | runOnce (workerId : String)
  | party (party : Party)

def Call.program (engine : ExecutionEngine) (fuel : Nat) : Call → M Unit
  | .createExecution request ts => (AgenticPlatform.createExecution request ts).discard
  | .createReplay request => (engine.createReplay fuel request).discard
  | .runOnce workerId => (engine.runOnce fuel workerId).discard
  | .party p => p.program engine fuel

/-- The calls in turn; an error ends its own call only. -/
def session (engine : ExecutionEngine) (fuel : Nat) (calls : List Call) : M Unit :=
  inTurn (calls.map fun call => call.program engine fuel)

/-- Surroundings in which every service answers; the policy decides `decision` and the model
finds `validation`. -/
def Env.answering (decision : PolicyDecision) (validation : String)
    (short : validation.length ≤ 32 := by decide) : Env where
  now := fun _ => 0
  retrieve := fun _ request => .ok ⟨⟨0⟩, request.query, [], "v1", []⟩
  invoke := fun _ request now => .ok
    { toolCallId := ⟨0⟩
      executionId := request.executionId
      stepId := request.stepId
      executionContextId := request.executionContextId
      actionProposalId := request.actionProposalId
      toolName := request.toolName
      sideEffectClass := .readOnly
      idempotency := .idempotent
      input := request.input
      output := some []
      status := .success
      latencyMs := some 1
      error := none
      createdAt := now
      updatedAt := now }
  analyzeIncident := fun _ _ =>
    .ok ⟨"summary", ["cause"], "m1", "model", none, by decide, by decide, by decide, by decide⟩
  validateIncident := fun _ _ =>
    .ok ⟨"cause", validation, percent 100, "rationale", "digest", "m1", "model", none, by decide,
      short, by decide, by decide, by decide, by decide⟩
  analyzeCostAnomaly := fun _ _ =>
    .ok ⟨"service", "team", "spike", ⟨0, le_rfl⟩, "summary", [], [], "m1", "model",
      none, by decide, by decide, by decide, by decide, by decide, by decide, by decide, by decide⟩
  validateCostAttribution := fun _ _ =>
    .ok ⟨validation, percent 100, "service", "team", "rationale", [], "digest", "m1", "model", none,
      short, by decide, by decide, by decide, by decide, by decide, by decide, by decide⟩
  evaluateProposal := fun _ _ _ => .ok ⟨decision, "rule", []⟩
  sha256 := fun _ => .ok 0

theorem passed_short : "passed".length ≤ 32 := by decide

/-- The world after a session. -/
def World.after (env : Env) (engine : ExecutionEngine) (fuel : Nat) (calls : List Call) : World :=
  (run (handle env) (session engine fuel calls) .init).2

/-- The worlds that a session passes through. -/
def Passed (env : Env) (engine : ExecutionEngine) (fuel : Nat) (calls : List Call)
    (w : World) : Prop :=
  ∃ rest, Visits (handle env).sem (session engine fuel calls, .init) (rest, w)

theorem passed_after (env : Env) (engine : ExecutionEngine) (fuel : Nat) (calls : List Call) :
    Passed env engine fuel calls (.after env engine fuel calls) := by
  obtain ⟨rest, visits, _⟩ := visits_run (handle env) (session engine fuel calls) .init
  exact ⟨rest, visits⟩

def incidentRequest : NewExecution := { genericRequest with workflowType := "incident_triage" }

theorem wp_discard {S : Semantics platform Exn} {α : Type} {p : M α}
    {I : S.State → Prop} {s : S.State} (spec : wp S p (fun _ t => I t) s) : wp S p.discard
      (fun _ t => I t) s := by
  unfold M.discard
  exact wp_keeping spec fun _ _ ht => ht

/-- What every call keeps, a session keeps. -/
theorem wp_session {S : Semantics platform Exn} {I : S.State → Prop}
    {engine : ExecutionEngine} {fuel : Nat}
    (each : ∀ (call : Call) (s : S.State), I s → wp S (call.program engine fuel) (fun _ t => I t) s)
    (calls : List Call) {s : S.State} (hs : I s) : wp S (session engine fuel calls)
    (fun o t => o = .halt ∨ I t) s := by
  refine wp_inTurn _ (fun p member s hs => ?_) s hs
  obtain ⟨call, _, rfl⟩ := List.mem_map.mp member
  exact wp_mono (fun _ _ ht => .inr ht) (each call s hs)

end AgenticPlatform
