import AgenticPlatform.Concurrency
import AgenticPlatform.Sessions
import AgenticPlatform.ToolAgreement

/-! What a step may report of its evidence when its tools have failed. The result of a step is FULL
and the step ends SUCCEEDED whatever the audit rows say, so a run reports its failures exactly as
long as it has none. -/
namespace AgenticPlatform
open Interaction ExecutionEngine Store

/-- `type(exc).__name__`. -/
def ToolErrorKind.name : ToolErrorKind → String
  | .transient => "TransientToolError"
  | .validation => "ToolValidationError"
  | .timeout => "TimeoutError"
  | .connection => "ConnectionError"
  | .url => "URLError"
  | .http => "HTTPError"
  | .os _ => "OSError"
  | .other name => name

/-- An executor, and what surrounds the `n`-th call of a service. -/
structure ToolService (H : Type) where
  executor : ToolExecutor H
  surroundings : Nat → ToolEnv H

namespace ToolService
variable {H : Type} (service : ToolService H)

/-- `ToolRuntimeService.invoke`: what the executor returns or raises. A call that never ends leaves
its caller without an answer, as a run does that never schedules the caller again; the last branch
only adds runs to those. -/
def invoke (n : Nat) (request : ToolInvokeRequest) (now : Time) : Except Exn ToolCall :=
  match ((service.surroundings n).execute service.executor request now).1 with
  | .ret tc => .ok tc
  | .raise e => .error ⟨.other e.kind.name, e.text.getD ""⟩
  | .halt => .error ⟨.other "RuntimeError", ""⟩

/-- The tool is registered, the gates let the request pass, and one of the attempts delivers. -/
def Delivers (n : Nat) (request : ToolInvokeRequest) : Prop :=
  ∃ tool handler, service.executor.registry.get request.toolName = some (tool, handler) ∧
    service.executor.Passes (service.surroundings n) request ∧
    ∃ k ≤ tool.retryPolicy.maxRetries,
      service.executor.DeliversAt (service.surroundings n) tool handler request.input 0 k

variable {service} {n : Nat} {request : ToolInvokeRequest} {now : Time}

theorem invoke_eq_ok {tc : ToolCall} : service.invoke n request now = .ok tc ↔
    ((service.surroundings n).execute service.executor request now).1 = .ret tc := by
  unfold invoke
  cases ((service.surroundings n).execute service.executor request now).1 with
  | ret a => simp
  | raise e => simp
  | halt => simp

/-- The audit row of a tool that is not registered. -/
theorem execute_unregistered {executor : ToolExecutor H} {env : ToolEnv H}
    (unknown : executor.registry.get request.toolName = none) {tc : ToolCall}
    (row : (env.execute executor request now).1 = .ret tc) : tc.status ≠ .success := by
  rw [ToolEnv.execute, ToolExecutor.execute, run_bind, run_perform] at row
  simp only [ToolEnv.handle, Outcome.ofExcept, resume, unknown] at row
  split at row
  · obtain rfl := Outcome.ret.inj row
    simp [buildCall]
  · obtain rfl := Outcome.ret.inj row
    simp [buildCall]

/-- The row of a call reports success exactly when the call delivers. -/
theorem delivers_iff : service.Delivers n request ↔ ∃ tc, service.invoke n request now = .ok tc ∧
    tc.status = .success := by
  simp only [invoke_eq_ok]
  cases registered : service.executor.registry.get request.toolName with
  | none =>
      refine iff_of_false ?_ ?_
      · rintro ⟨tool, handler, known, _⟩
        rw [registered] at known
        cases known
      · rintro ⟨tc, row, success⟩
        exact execute_unregistered registered row success
  | some entry =>
      obtain ⟨tool, handler⟩ := entry
      rw [ToolExecutor.execute_success registered]
      constructor
      · rintro ⟨_, _, known, delivers⟩
        obtain ⟨rfl, rfl⟩ := Prod.mk.inj (Option.some.inj (registered.symm.trans known))
        exact delivers
      · exact fun delivers => ⟨tool, handler, registered, delivers⟩

theorem Delivers.success (delivers : service.Delivers n request) {tc : ToolCall}
    (answer : service.invoke n request now = .ok tc) : tc.status = .success := by
  obtain ⟨tc', answer', success⟩ := (@delivers_iff H service n request now).mp delivers
  rw [answer] at answer'
  exact Except.ok.inj answer' ▸ success

end ToolService

/-- The surroundings with the tools of a service. -/
def Env.withTools {H : Type} (env : Env) (service : ToolService H) : Env :=
  { env with invoke := service.invoke }

/-- A stored audit row of the step. -/
def Repository.Called (repo : Repository) (step : Step) (tc : ToolCall) : Prop :=
  repo.toolCalls.get tc.toolCallId = some tc ∧ tc.stepId = step.stepId

/-- No step claims more than its audit rows say. -/
structure FailuresReported (repo : Repository) : Prop where
  /-- Full evidence rests on tools that have all succeeded. -/
  full : ∀ step res tc, repo.steps.get step.stepId = some step → step.degradedAllowed = false →
    step.status = .succeeded → repo.stepResults.get step.stepId = some res →
      res.completeness = some .full →
    repo.Called step tc → tc.status = .success
  /-- A step with a failed call is FAILED, or says what it lacks. -/
  failed : ∀ step, repo.steps.get step.stepId = some step → (∃ tc, repo.Called step tc ∧
    tc.status ≠ .success) →
    step.status = .failed ∨ ∃ res, repo.stepResults.get step.stepId = some res ∧
      (res.completeness = some .partialResult ∨ res.completeness = some .degraded) ∧
      ∀ tc, repo.Called step tc → tc.status ≠ .success → ∃ error ∈ res.errors, tc.error = some error

/-- Every stored audit row reports success. -/
def Unfailing (w : World) : Prop := ∀ id tc, w.repo.toolCalls.get id = some tc →
    tc.status = .success

theorem Unfailing.reported {w : World} (unfailing : Unfailing w) : FailuresReported w.repo where
  full := fun _ _ _ _ _ _ _ _ called => unfailing _ _ called.1
  failed := by
    rintro step _ ⟨tc, called, failed⟩
    exact absurd (unfailing _ _ called.1) failed

section
variable {H : Type} {service : ToolService H} {env : Env} {engine : ExecutionEngine} {fuel : Nat}

/-- Audit rows are stored only if they report success. -/
def storesSuccess : Op → Prop
  | .saveToolCall tc => tc.status = .success
  | _ => True

/-- Tools are answered with success. -/
def answersSuccess : (op : Op) → op.Res → Prop
  | .invoke _ _, tc => tc.status = .success
  | _, _ => True

theorem stores_ordinary (op : Op) (plain : op.ordinary = true) : storesSuccess op := by
  cases op with
  | saveToolCall tc => cases plain
  | _ => trivial

theorem permits_success : Permits engine storesSuccess answersSuccess where
  ordinary := stores_ordinary
  gather := fun _ _ _ _ _ => trivial
  correlate := fun _ _ _ _ _ => trivial
  saved := fun _ _ _ success => success

theorem Party.calls_success (party : Party) : Calls storesSuccess answersSuccess
    (party.program engine fuel) := by
  cases party with
  | startExecution id =>
      exact calls_bind (startExecution_calls permits_success) fun _ => calls_ret _
  | enqueueExecution id =>
      exact calls_bind (enqueueExecution_calls stores_ordinary fun _ => trivial)
        fun _ => calls_ret _
  | recordWorkerStarted id workerId now =>
      exact calls_bind (recordWorkerStarted_calls stores_ordinary) fun _ => calls_ret _
  | requestCancellation id reason =>
      exact calls_bind (requestCancellation_calls stores_ordinary) fun _ => calls_ret _
  | submitApproval id approver decision notes =>
      exact calls_bind (submitApproval_calls stores_ordinary) fun _ => calls_ret _
  | failExecution id reason =>
      exact calls_bind (failExecution_calls stores_ordinary) fun _ => calls_ret _

theorem handle_unfailing {w : World} {op : Op} (stores : storesSuccess op)
    (unfailing : Unfailing w) :
    Unfailing (handle env w op).2 := by
  intro id tc stored
  cases op with
  | saveToolCall saved =>
      by_cases same : id = key saved
      · subst same
        rw [show (handle env w (.saveToolCall saved)).2.repo.toolCalls = w.repo.toolCalls.put
          saved from rfl, Table.get_put_self] at stored
        obtain rfl := Option.some.inj stored
        exact stores
      · rw [show (handle env w (.saveToolCall saved)).2.repo.toolCalls = w.repo.toolCalls.put
          saved from rfl, Table.get_put_of_ne same] at stored
        exact unfailing id tc stored
  | updateExecution ex =>
      simp only [handle] at stored
      split at stored <;> exact unfailing id tc stored
  | updateStep s =>
      simp only [handle] at stored
      split at stored <;> exact unfailing id tc stored
  | _ => exact unfailing id tc stored

variable {ι : Type}

/-- Every tool that is invoked delivers. -/
def ToolService.Delivering (service : ToolService H) (c : Platform ι) (_ : ι) (op : Op) : Prop :=
  ∀ request now, op = .invoke request now → service.Delivers c.shared.asked request

/-- In every interleaving whose tools all deliver, every step reports its evidence as its audit rows
have it. -/
theorem failures_reported [DecidableEq ι] (env : Env) (service : ToolService H)
    (engine : ExecutionEngine) (fuel : Nat) (parties : ι → Party) {w : World}
    (unfailing : Unfailing w) {d : Platform ι}
    (reach : Interleaves (env.withTools service) service.Delivering
      (launch engine fuel parties w) d) :
    FailuresReported d.shared.repo := by
  have answered (c : Platform ι) (i : ι) (op : Op) (a : op.Res)
    (delivering : service.Delivering c i op)
      (answer : (handle (env.withTools service) c.shared op).1 = .ok a) : answersSuccess op a := by
    cases op with
    | invoke request now => exact (delivering request now rfl).success answer
    | _ => trivial
  have kept : Unfailing d.shared :=
    Calls.reaches (fun i => (parties i).calls_success) answered (fun _ _ => handle_unfailing)
      unfailing reach
  exact kept.reported

end

/-- The tools of the default registry, whose handlers all return. -/
def workingTools : ToolService FixtureHandler where
  executor := ⟨buildDefaultRegistry, true⟩
  surroundings := fun n =>
    { fresh := ⟨1000 + n⟩
      cancelled := fun _ => .ok false
      counterNs := fun reading => reading
      run := fun _ _ _ _ => .ok (some (.dict [])) }

def toolEnv : Env := (Env.answering .allow "passed" passed_short).withTools workingTools

/-- A worker that runs an execution of the request, after so many calls. -/
def toolRun (request : NewExecution) (calls : Nat) : Platform Unit :=
  (launch (.default .flat) 10 (fun _ => .startExecution ⟨1⟩) (.created toolEnv request)).fires
    (handle toolEnv) observeRows
    (List.replicate calls ())

theorem created_unfailing {request : NewExecution} : Unfailing (.created toolEnv request) := by
  rintro id tc ⟨⟩

/-- The request of an invocation is one that the executor takes. -/
def Op.accepted : Op → Prop
  | .invoke request _ => Accepted request ∧ request.policyDenied = false
  | _ => True

instance (op : Op) : Decidable op.accepted := by
  unfold Op.accepted
  split
  · exact inferInstanceAs (Decidable (_ ∧ _))
  · exact inferInstanceAs (Decidable True)

/-- Tools that work deliver whatever is accepted. -/
theorem accepted_delivers {n : Nat} {request : ToolInvokeRequest} (accepted : Accepted request)
    (undenied : request.policyDenied = false) : workingTools.Delivers n request := by
  obtain ⟨⟨tool, handler⟩, registered⟩ := Option.isSome_iff_exists.mp accepted.1
  refine ⟨tool, handler, registered, ⟨undenied, rfl, accepted.2⟩, 0, Nat.zero_le _, ⟨?_, ?_⟩, rfl⟩
  · intro i _ _
    rfl
  · intro i _ before
    exact absurd before (Nat.not_lt_zero i)

/-- An incident triage from its creation to its end, with two calls of tools. -/
theorem failures_reported_incident :
    (toolRun incidentRequest 107).shared.repo.toolCalls.rows.length = 2 ∧
    FailuresReported (toolRun incidentRequest 107).shared.repo := by
  refine ⟨by decide +kernel, ?_⟩
  apply failures_reported (Env.answering .allow "passed") workingTools (.default .flat) 10
    (fun _ => .startExecution ⟨1⟩)
    created_unfailing
  have accepted : Interleaves toolEnv (fun _ _ op => op.accepted)
      (launch (.default .flat) 10 (fun _ : Unit => .startExecution ⟨1⟩)
        (.created toolEnv incidentRequest))
      (toolRun incidentRequest 107) := Sys.Reaches.refl.legally (by decide +kernel)
  apply accepted.mono
  rintro c i _ delivered request now rfl
  exact accepted_delivers delivered.1 delivered.2

/-- A cost attribution with the same tools: both calls of its third step fail, and the step ends
SUCCEEDED with a full result. -/
theorem failures_unreported : ¬ ∀ (H ι : Type) [DecidableEq ι] (env : Env) (service : ToolService H)
    (engine : ExecutionEngine) (fuel : Nat) (parties : ι → Party) (w : World)
    (d : Platform ι), Unfailing w →
    Interleaves (env.withTools service) (fun _ _ _ => True) (launch engine fuel parties w) d →
    FailuresReported d.shared.repo := by
  intro reported
  have report := reported _ Unit _ workingTools _ 10 _ _ (toolRun costRequest 122) created_unfailing
    (Sys.Reaches.refl.fires _)
  have step : ((toolRun costRequest 122).shared.repo.steps.get ⟨9⟩).map
    (fun s => (s.degradedAllowed, s.status)) =
      some (false, .succeeded) := by decide +kernel
  have result : ((toolRun costRequest 122).shared.repo.stepResults.get ⟨9⟩).map
    StepResult.completeness =
      some (some .full) := by decide +kernel
  have call : ((toolRun costRequest 122).shared.repo.toolCalls.get ⟨1002⟩).map
    (fun tc => (tc.stepId, tc.status)) =
      some (⟨9⟩, .failure) := by decide +kernel
  obtain ⟨s, storedStep, stepFields⟩ := Option.map_eq_some_iff.mp step
  obtain ⟨res, storedResult, complete⟩ := Option.map_eq_some_iff.mp result
  obtain ⟨tc, storedCall, callFields⟩ := Option.map_eq_some_iff.mp call
  obtain ⟨undegraded, succeeded⟩ := Prod.mk.inj stepFields
  obtain ⟨owner, failure⟩ := Prod.mk.inj callFields
  have stepKey : s.stepId = ⟨9⟩ := (Table.get_eq_some.mp storedStep).2
  have callKey : tc.toolCallId = ⟨1002⟩ := (Table.get_eq_some.mp storedCall).2
  have success := report.full s res tc (stepKey ▸ storedStep) undegraded succeeded
    (stepKey ▸ storedResult) complete
    ⟨callKey ▸ storedCall, owner.trans stepKey.symm⟩
  rw [failure] at success
  cases success

end AgenticPlatform
