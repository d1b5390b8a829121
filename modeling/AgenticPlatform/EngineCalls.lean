import AgenticPlatform.ExecutionService
import AgenticPlatform.EngineSpec
import AgenticPlatform.Interaction.Calls

/-! Which calls the engine makes. Beside the ordinary ones it invokes tools, with the requests that
its two tooling steps build, and stores the audit rows that it is answered; it stores no execution
and no context of its own, and leaves the queue alone. -/
namespace AgenticPlatform
open Interaction ExecutionEngine

/-- Calls that every part of the engine may make. -/
def Op.ordinary : Op → Bool
  | .invoke _ _ | .saveToolCall _ | .saveContext _ | .saveExecution _ | .enqueue _ _ | .dequeue =>
      false
  | _ => true

namespace ExecutionEngine
variable (engine : ExecutionEngine)

/-- The requests of `gather_evidence`. -/
def gatherRequest (step : Step) (ctx : ExecutionContext) (toolName : String) : ToolInvokeRequest :=
  ⟨step.executionId, step.stepId, ctx.contextId, toolName,
    [("incident_id", .str (incidentIdFromInput engine.text (executionInput step)))], none, false⟩

/-- The requests of `correlate_usage_patterns`. -/
def correlateRequest (step : Step) (ctx : ExecutionContext) (toolName : String) :
    ToolInvokeRequest :=
  ⟨step.executionId, step.stepId, ctx.contextId, toolName,
    withService [("scope_id", .str (scopeIdFromInput engine.text (executionInput step)))]
      (engine.serviceFromInput (executionInput step)), none, false⟩

end ExecutionEngine

def gatherTools : List String := ["incident_metadata_tool", "signal_lookup_tool"]

def correlateTools : List String := ["cloud_cost_tool", "metrics_lookup_tool"]

/-- What must be allowed for the engine to run: audit rows are stored as they were answered. -/
structure Permits (engine : ExecutionEngine) (allowed : Op → Prop)
    (answers : (op : Op) → op.Res → Prop) : Prop where
  ordinary : ∀ op, op.ordinary = true → allowed op
  gather : ∀ step ctx name now, name ∈ gatherTools →
    allowed (.invoke (engine.gatherRequest step ctx name) now)
  correlate : ∀ step ctx name now, name ∈ correlateTools →
    allowed (.invoke (engine.correlateRequest step ctx name) now)
  saved : ∀ request now tc, answers (.invoke request now) tc → allowed (.saveToolCall tc)

section
variable {allowed : Op → Prop} {answers : (op : Op) → op.Res → Prop} {α : Type}

theorem calls_ofExcept {x : Except Exn α} : Calls allowed answers (M.ofExcept x) := by
  cases x with
  | ok a => exact calls_ret a
  | error e => exact calls_raise e

theorem Reads.calls {p : M α} (reads : Reads p)
    (results : ∀ stepId, allowed (.getStepResult stepId)) :
    Calls allowed answers p := by
  refine CallsFor.calls (Built.callsFor ?_ reads)
  rintro β p R ⟨stepId, _⟩
  exact (calls_perform (results stepId)).for_all

theorem applyApprovalDecision_calls {ex : Execution} {proposal : ActionProposal}
    {decision : ApprovalDecision} {validationSummary baseResult : Dict} {ts : Time}
    (proposals : ∀ proposal, allowed (.saveActionProposal proposal))
    (rows : ∀ ex, allowed (.updateExecution ex)) :
    Calls allowed answers
      (applyApprovalDecision ex proposal decision validationSummary baseResult ts) :=
  have decided (proposal : ActionProposal) (status : ExecutionStatus) (ex : Execution) :
    Calls allowed answers (do
      M.saveActionProposal proposal
      M.ofExcept (validateExecutionTransition .awaitingApproval status)
      M.updateExecution ex
      pure ex) :=
    calls_bind (calls_perform (proposals proposal)) fun _ => calls_bind calls_ofExcept fun _ =>
      calls_bind (calls_perform (rows ex)) fun _ => calls_ret _
  calls_ite (fun _ => decided _ _ _) fun _ => decided _ _ _

variable (ordinary : ∀ op : Op, op.ordinary = true → allowed op)
include ordinary

theorem reads_calls {p : M α} (reads : Reads p) : Calls allowed answers p :=
  reads.calls fun stepId => ordinary (.getStepResult stepId) rfl

theorem recordTrace_calls {id : UUID} {events : List Event} {now : Time} :
    Calls allowed answers (recordTrace id events now) := by
  refine calls_bind (calls_perform (ordinary (.getExecution id) rfl)) fun o => ?_
  cases o with
  | none => exact calls_ret _
  | some ex => exact calls_perform (ordinary (.updateExecution _) rfl)

section
variable {text : Rendering} {step : Step} {now : Time}

theorem shortDigest_calls {s : String} {n : Nat} : Calls allowed answers (shortDigest s n) :=
  calls_bind (calls_perform (ordinary (.sha256 s) rfl)) fun _ => calls_ret _

theorem executeGenericStep_calls : Calls allowed answers (executeGenericStep text step now) :=
  calls_bind (shortDigest_calls ordinary) fun _ => calls_bind (calls_perform (ordinary .uuid4 rfl))
    fun _ => calls_ret _

theorem executeStep_calls : Calls allowed answers (executeStep text step) := by
  refine calls_ite (fun _ => calls_raise _) fun _ => calls_bind (calls_perform (ordinary .now rfl))
    fun ts => ?_
  split
  · exact calls_ite
      (fun _ => calls_bind (shortDigest_calls ordinary) fun _ => calls_bind
        (shortDigest_calls ordinary) fun _ =>
        calls_bind (calls_perform (ordinary .uuid4 rfl)) fun _ => calls_ret _)
      fun _ => calls_ite
        (fun _ => calls_bind (shortDigest_calls ordinary) fun _ => calls_bind
          (shortDigest_calls ordinary) fun _ =>
          calls_bind (calls_perform (ordinary .uuid4 rfl)) fun _ => calls_ret _)
        fun _ => executeGenericStep_calls ordinary
  · exact executeGenericStep_calls ordinary

theorem priorOutputs_calls {steps : List Step} : Calls allowed answers (priorOutputs steps) := by
  induction steps with
  | nil => exact calls_ret _
  | cons s rest ih =>
      exact calls_bind (calls_perform (ordinary (.getStepResult s.stepId) rfl)) fun _ =>
        calls_bind ih fun _ => calls_ret _

variable {engine : ExecutionEngine}

theorem orFallback_calls {task : String} {body : M StepResult} (made : Calls allowed answers body) :
    Calls allowed answers (engine.orFallback step now task body) :=
  calls_tryCatch made fun _ => calls_bind (recordTrace_calls ordinary) fun _ =>
    executeStep_calls ordinary

theorem modelResult_calls {task provider invocationId : String} {output : Dict}
    {confidence : Confidence} {outcome : Option ValidationOutcome} :
    Calls allowed answers
      (modelResult step now task provider invocationId output confidence outcome) :=
  calls_bind (calls_perform (ordinary .uuid4 rfl)) fun _ => calls_ret _

theorem incidentModelReasoningStep_calls : Calls allowed answers
    (engine.incidentModelReasoningStep step now) := by
  refine calls_ite (fun _ => orFallback_calls ordinary ?_) fun _ => calls_ite
    (fun _ => orFallback_calls ordinary ?_)
    fun _ => executeStep_calls ordinary
  · exact calls_bind (calls_perform (ordinary (.analyzeIncident _) rfl)) fun _ =>
      calls_bind (recordTrace_calls ordinary) fun _ => modelResult_calls ordinary
  · exact calls_bind (calls_perform (ordinary (.listStepsForExecution _) rfl)) fun _ =>
      calls_bind (priorOutputs_calls ordinary) fun _ =>
      calls_bind (calls_perform (ordinary (.validateIncident _) rfl)) fun _ =>
      calls_bind (recordTrace_calls ordinary) fun _ => modelResult_calls ordinary

theorem costModelReasoningStep_calls : Calls allowed answers
    (engine.costModelReasoningStep step now) := by
  refine calls_ite (fun _ => orFallback_calls ordinary ?_) fun _ => calls_ite
    (fun _ => orFallback_calls ordinary ?_)
    fun _ => executeStep_calls ordinary
  · exact calls_bind (calls_perform (ordinary (.analyzeCostAnomaly _) rfl)) fun _ =>
      calls_bind (recordTrace_calls ordinary) fun _ => modelResult_calls ordinary
  · exact calls_bind (calls_perform (ordinary (.listStepsForExecution _) rfl)) fun _ =>
      calls_bind (priorOutputs_calls ordinary) fun _ =>
      calls_bind (calls_perform (ordinary (.validateCostAttribution _) rfl)) fun _ =>
      calls_bind (recordTrace_calls ordinary) fun _ => modelResult_calls ordinary

theorem contextOfStep_calls : Calls allowed answers (contextOfStep step) := by
  refine calls_bind (calls_perform (ordinary (.getExecution _) rfl)) fun o => ?_
  cases o with
  | none => exact calls_raise _
  | some ex =>
      refine calls_bind (calls_perform (ordinary (.getContext _) rfl)) fun c => ?_
      cases c with
      | none => exact calls_raise _
      | some ctx => exact calls_ret _

/-- The tools are invoked in turn, and each audit row is stored as it was answered. -/
theorem invokeTools_calls {ctx : ExecutionContext} {input extra : Dict} {names : List String}
    (invoked : ∀ name ∈ names, allowed
      (.invoke ⟨step.executionId, step.stepId, ctx.contextId, name, input, none, false⟩ now))
    (saved : ∀ name ∈ names, ∀ tc, answers
      (.invoke ⟨step.executionId, step.stepId, ctx.contextId, name, input, none, false⟩ now) tc →
        allowed (.saveToolCall tc)) :
    Calls allowed answers (invokeTools step ctx input extra now names) := by
  induction names with
  | nil => exact calls_ret _
  | cons name rest ih =>
      refine calls_then (callsFor_perform (invoked name List.mem_cons_self)) fun tc answered => ?_
      refine calls_bind (calls_perform (saved name List.mem_cons_self tc answered)) fun _ => ?_
      refine calls_bind (recordTrace_calls ordinary) fun _ => ?_
      exact calls_bind (ih (fun n member => invoked n (List.mem_cons_of_mem _ member))
        fun n member => saved n (List.mem_cons_of_mem _ member)) fun _ => calls_ret _

theorem gatherEvidenceViaServices_calls
    (invoked : ∀ ctx, ∀ name ∈ gatherTools, allowed
      (.invoke (engine.gatherRequest step ctx name) now))
    (saved : ∀ request tc, answers (.invoke request now) tc → allowed (.saveToolCall tc)) :
    Calls allowed answers (engine.gatherEvidenceViaServices step now) :=
  calls_bind (contextOfStep_calls ordinary) fun ctx => calls_bind
    (calls_perform (ordinary (.retrieve _) rfl)) fun _ =>
    calls_bind (recordTrace_calls ordinary) fun _ =>
    calls_bind (invokeTools_calls ordinary (invoked ctx) fun _ _ tc => saved _ tc) fun _ =>
    calls_bind (calls_perform (ordinary .uuid4 rfl)) fun _ => calls_ret _

theorem retrieveCostEvidenceViaServices_calls :
    Calls allowed answers (engine.retrieveCostEvidenceViaServices step now) :=
  calls_bind (contextOfStep_calls ordinary) fun _ => calls_bind
    (calls_perform (ordinary (.retrieve _) rfl)) fun _ =>
    calls_bind (recordTrace_calls ordinary) fun _ => calls_bind
      (calls_perform (ordinary .uuid4 rfl)) fun _ => calls_ret _

theorem correlateUsageViaTools_calls
    (invoked : ∀ ctx, ∀ name ∈ correlateTools, allowed
      (.invoke (engine.correlateRequest step ctx name) now))
    (saved : ∀ request tc, answers (.invoke request now) tc → allowed (.saveToolCall tc)) :
    Calls allowed answers (engine.correlateUsageViaTools step now) :=
  calls_bind (contextOfStep_calls ordinary) fun ctx =>
    calls_bind (invokeTools_calls ordinary (invoked ctx) fun _ _ tc => saved _ tc) fun _ =>
    calls_bind (calls_perform (ordinary .uuid4 rfl)) fun _ => calls_ret _

end

theorem cancelExecution_calls {id : UUID} {reason : String} {ts : Time} :
    Calls allowed answers (cancelExecution id reason ts) := by
  refine calls_bind (calls_perform (ordinary (.getExecution id) rfl)) fun o => ?_
  have written (ex : Execution) : Calls allowed answers (do
      M.updateExecution ex
      pure ex) := calls_bind (calls_perform (ordinary (.updateExecution ex) rfl))
        fun _ => calls_ret _
  cases o with
  | none => exact calls_raise _
  | some ex =>
      refine calls_ite (fun _ => written _) fun _ => ?_
      dsimp only
      split
      · exact written _
      · exact written _

theorem failExecution_calls {id : UUID} {reason : String} : Calls allowed answers
    (failExecution id reason) := by
  refine calls_bind (calls_perform (ordinary .now rfl)) fun ts =>
    calls_bind (calls_perform (ordinary (.getExecution id) rfl)) fun o => ?_
  cases o with
  | none => exact calls_raise _
  | some ex =>
      refine calls_ite (fun _ => calls_ret _) fun _ => ?_
      dsimp only
      split
      · exact calls_ret _
      · exact calls_bind (calls_perform (ordinary (.updateExecution _) rfl)) fun _ => calls_ret _

theorem draws_calls {p : M α} {R : α → Prop} (draws : Draws p R) : Calls allowed answers p := by
  refine CallsFor.calls (Built.callsFor ?_ draws)
  rintro β p R ⟨⟩
  exact (calls_perform (ordinary .uuid4 rfl)).for_all

omit ordinary in
theorem buildSteps_calls {engine : ExecutionEngine} {plan : ExecutionPlan}
    {ex : Execution} {now : Time} {ids : List (String × UUID)} {specs : List StepSpec} :
    Calls allowed answers (engine.buildSteps plan ex now ids specs) := by
  induction specs with
  | nil => exact calls_ret _
  | cons spec rest ih =>
      unfold buildSteps
      split
      · exact calls_bind ih fun _ => calls_ret _
      · exact calls_raise _

theorem saveSteps_calls {steps : List Step} : Calls allowed answers (saveSteps steps) := by
  induction steps with
  | nil => exact calls_ret _
  | cons s rest ih => exact calls_bind (calls_perform (ordinary (.saveStep s) rfl)) fun _ => ih

theorem finalize_calls {ex : Execution} {steps : List Step} {now : Time} :
    Calls allowed answers (finalizeIncidentTriageGovernance ex steps now) := by
  refine calls_bind (calls_perform (ordinary (.getContext _) rfl)) fun c => ?_
  cases c with
  | none => exact calls_raise _
  | some ctx =>
      refine calls_bind (reads_calls ordinary (validationSummaryFromSteps_reads steps))
        fun summary =>
        calls_bind (reads_calls ordinary (buildCompletionResult_reads ex steps)) fun base =>
        calls_bind (reads_calls ordinary (stepOutputByName_reads steps _)) fun out =>
        calls_bind (calls_perform (ordinary .uuid4 rfl)) fun proposalId =>
        calls_bind (calls_perform (ordinary (.saveActionProposal _) rfl)) fun _ =>
        calls_bind (calls_perform (ordinary (.evaluateProposal _ _) rfl)) fun draft =>
        calls_bind (calls_perform (ordinary .uuid4 rfl)) fun evaluationId =>
        calls_bind (calls_perform (ordinary (.savePolicyEvaluation _) rfl)) fun _ => ?_
      cases draft.decision with
      | deny | allow | conditional =>
          exact calls_bind (calls_perform (ordinary (.saveActionProposal _) rfl)) fun _ =>
            calls_bind calls_ofExcept fun _ => calls_ret _

omit ordinary in
theorem stuck_calls {steps : List Step} : Calls allowed answers (stuck steps) :=
  calls_ite (fun _ => calls_raise _) fun _ => calls_raise _

theorem completeRun_calls {ex : Execution} {steps : List Step} : Calls allowed answers
    (completeRun ex steps) := by
  refine calls_ite (fun _ => calls_bind (calls_perform (ordinary .now rfl)) fun now => ?_)
    fun _ => stuck_calls
  refine calls_ite (fun _ => calls_ite (fun _ => ?_) fun _ => ?_) fun _ => calls_ite
    (fun _ => calls_raise _)
    fun _ => stuck_calls
  · exact calls_bind (finalize_calls ordinary) fun _ =>
      calls_bind (calls_perform (ordinary (.updateExecution _) rfl)) fun _ => calls_ret _
  · exact calls_bind calls_ofExcept fun _ =>
      calls_bind (reads_calls ordinary (validationSummaryFromSteps_reads steps)) fun _ =>
      calls_bind (reads_calls ordinary (buildCompletionResult_reads ex steps)) fun _ =>
      calls_bind (calls_perform (ordinary (.updateExecution _) rfl)) fun _ => calls_ret _

omit ordinary in
theorem maybeEnterValidating_calls {ex : Execution} {steps : List Step} {now : Time} :
    Calls allowed answers (maybeEnterValidating ex steps now) :=
  calls_ite (fun _ => calls_bind calls_ofExcept fun _ => calls_ret _) fun _ => calls_ret _

theorem resolvePlan_calls {ex : Execution} : Calls allowed answers (resolvePlan ex) := by
  unfold resolvePlan
  cases ex.currentPlanId with
  | none => exact calls_ret _
  | some planId => exact calls_perform (ordinary (.getPlan planId) rfl)

theorem rewriteExecution_calls {id : UUID} {change : Execution → Execution} :
    Calls allowed answers (rewriteExecution id change) := by
  refine calls_bind (calls_perform (ordinary (.getExecution id) rfl)) fun o => ?_
  cases o with
  | none => exact calls_raise _
  | some ex =>
      exact calls_bind (calls_perform (ordinary (.updateExecution _) rfl)) fun _ => calls_ret _

end

section
variable {engine : ExecutionEngine} {allowed : Op → Prop} {answers : (op : Op) → op.Res → Prop}

theorem stepWork_calls (permits : Permits engine allowed answers) {step : Step} {now : Time} :
    Calls allowed answers (engine.stepWork step now) :=
  have ordinary := permits.ordinary
  calls_ite
    (fun _ => calls_ite
      (fun _ => calls_ite (fun _ => retrieveCostEvidenceViaServices_calls ordinary)
        fun _ => correlateUsageViaTools_calls ordinary (fun ctx name member => permits.correlate
          step ctx name now member)
          fun request => permits.saved request now)
      fun _ => gatherEvidenceViaServices_calls ordinary (fun ctx name member => permits.gather step
        ctx name now member)
        fun request => permits.saved request now)
    fun _ => calls_ite
      (fun _ => calls_ite (fun _ => costModelReasoningStep_calls ordinary)
        fun _ => incidentModelReasoningStep_calls ordinary)
      fun _ => executeStep_calls ordinary

theorem runStep_calls (permits : Permits engine allowed answers) {step : Step} {now : Time} :
    Calls allowed answers (engine.runStep step now) := by
  have ordinary := permits.ordinary
  refine calls_bind (calls_perform (ordinary (.getStep _) rfl)) fun o => ?_
  cases o with
  | none => exact calls_raise _
  | some step =>
      exact calls_bind calls_ofExcept fun _ =>
        calls_bind (calls_perform (ordinary (.updateStep _) rfl)) fun _ =>
        calls_bind (recordTrace_calls ordinary) fun _ => calls_bind
          (stepWork_calls permits) fun result =>
        calls_bind (calls_perform (ordinary (.saveStepResult _) rfl)) fun _ => calls_bind
          calls_ofExcept fun _ =>
        calls_bind (calls_perform (ordinary (.updateStep _) rfl)) fun _ =>
          recordTrace_calls ordinary

theorem runLoop_calls (permits : Permits engine allowed answers) {id : UUID} (fuel : Nat) :
    Calls allowed answers (engine.runLoop id fuel) := by
  have ordinary := permits.ordinary
  induction fuel with
  | zero => exact calls_halt
  | succ fuel ih =>
      refine calls_bind (calls_perform (ordinary (.getExecution id) rfl)) fun o => ?_
      cases o with
      | none => exact calls_raise _
      | some ex =>
          refine calls_ite (fun _ => calls_bind (calls_perform (ordinary .now rfl)) fun _ =>
            cancelExecution_calls ordinary)
            fun _ => calls_ite (fun _ => calls_ret _) fun _ => calls_ite
              (fun _ => calls_ret _) fun _ => ?_
          refine calls_bind (calls_perform (ordinary (.listStepsForExecution id) rfl)) fun steps =>
            calls_bind (resolvePlan_calls ordinary) fun plan => ?_
          cases plan with
          | none => exact calls_raise _
          | some plan =>
              refine calls_bind (calls_perform (ordinary .now rfl)) fun now =>
                calls_bind (maybeEnterValidating_calls) fun ex =>
                calls_bind (calls_perform (ordinary (.updateExecution ex) rfl)) fun _ =>
                calls_bind (calls_perform (ordinary (.getExecution id) rfl)) fun o => ?_
              cases o with
              | none => exact calls_raise _
              | some ex =>
                  refine calls_ite (fun _ => calls_ret _) fun _ =>
                    calls_bind (calls_perform (ordinary (.listStepsForExecution id) rfl))
                      fun steps => ?_
                  cases nextPendingReady (stepsInPlanOrder steps plan) steps with
                  | some next => exact calls_bind (runStep_calls permits) fun _ => ih
                  | none => exact completeRun_calls ordinary

theorem enterPlanning_calls (permits : Permits engine allowed answers) {ex : Execution}
    {now : Time} :
    Calls allowed answers (enterPlanning ex now) :=
  calls_ite
    (fun _ => calls_bind calls_ofExcept fun _ =>
      calls_bind (calls_perform (permits.ordinary (.updateExecution _) rfl)) fun _ => calls_ret _)
    fun _ => calls_ret _

theorem enterExecuting_calls (permits : Permits engine allowed answers) {ex : Execution}
    {now : Time} :
    Calls allowed answers (engine.enterExecuting ex now) := by
  have ordinary := permits.ordinary
  refine calls_ite (fun _ => ?_) fun _ => calls_ret _
  have plans : Draws (createPlan engine.plannerMeta ex now) (fun _ => True) :=
    .bind draws_uuid4 fun _ _ => (planWorkflow_draws _ _ _ _).mono fun _ _ => trivial
  exact calls_bind (draws_calls ordinary plans) fun plan =>
    calls_bind (calls_perform (ordinary (.savePlan plan) rfl)) fun _ =>
    calls_bind (calls_bind (draws_calls ordinary (keyToId_draws plan.steps)) fun _ =>
      buildSteps_calls) fun steps =>
    calls_bind (saveSteps_calls ordinary) fun _ =>
    calls_bind calls_ofExcept fun _ => calls_perform (ordinary (.updateExecution _) rfl)

theorem runExecution_calls (permits : Permits engine allowed answers) {id : UUID} {fuel : Nat} :
    Calls allowed answers (engine.runExecution fuel id) := by
  refine calls_bind (calls_perform (permits.ordinary (.getExecution id) rfl)) fun o => ?_
  cases o with
  | none => exact calls_raise _
  | some ex =>
      exact calls_bind (calls_perform (permits.ordinary .now rfl)) fun now => calls_ite
        (fun _ => calls_ret _) fun _ =>
        calls_bind (enterPlanning_calls permits) fun ex => calls_bind
          (enterExecuting_calls permits) fun _ =>
        runLoop_calls permits fuel

theorem startExecution_calls (permits : Permits engine allowed answers) {id : UUID} {fuel : Nat} :
    Calls allowed answers (engine.startExecution fuel id) :=
  calls_tryCatch (runExecution_calls permits) fun _ =>
    calls_ite (fun _ => failExecution_calls permits.ordinary) fun _ => calls_raise _

end

section
variable {allowed : Op → Prop} {answers : (op : Op) → op.Res → Prop}
  (ordinary : ∀ op : Op, op.ordinary = true → allowed op)
include ordinary

theorem enqueueExecution_calls {id : UUID} (queued : ∀ ts, allowed (.enqueue id ts)) :
    Calls allowed answers (enqueueExecution id) :=
  calls_bind (calls_perform (ordinary .now rfl)) fun ts => calls_bind
    (rewriteExecution_calls ordinary) fun _ =>
    calls_bind (calls_perform (queued ts)) fun _ => calls_ret _

theorem recordWorkerStarted_calls {id : UUID} {workerId : String} {now : Option Time} :
    Calls allowed answers (recordWorkerStarted id workerId now) := by
  unfold recordWorkerStarted
  cases now with
  | none => exact calls_bind (calls_perform (ordinary .now rfl)) fun _ =>
    rewriteExecution_calls ordinary
  | some t => exact calls_bind (calls_ret t) fun _ => rewriteExecution_calls ordinary

theorem requestCancellation_calls {id : UUID} {reason : String} : Calls allowed answers
    (requestCancellation id reason) :=
  calls_bind (calls_perform (ordinary .now rfl)) fun _ => calls_bind
    (rewriteExecution_calls ordinary) fun _ =>
    calls_ite (fun _ => calls_ret _) fun _ => cancelExecution_calls ordinary

theorem submitApproval_calls {id : UUID} {approver : String} {decision : ApprovalDecision}
    {notes : Option String} :
    Calls allowed answers (submitApproval id approver decision notes) := by
  refine calls_bind (calls_perform (ordinary .now rfl)) fun ts =>
    calls_bind (calls_perform (ordinary (.getExecution id) rfl)) fun o => ?_
  cases o with
  | none => exact calls_raise _
  | some ex =>
      refine calls_ite (fun _ => calls_raise _) fun _ => calls_bind calls_ofExcept fun ids =>
        calls_ite (fun _ => calls_raise _) fun _ => calls_bind (calls_perform (ordinary .uuid4 rfl))
          fun approvalId =>
        calls_bind (calls_perform (ordinary (.saveApproval _) rfl)) fun _ =>
        calls_bind (calls_perform (ordinary (.getActionProposal _) rfl)) fun o => ?_
      cases o with
      | none => exact calls_raise _
      | some proposal =>
          exact calls_bind (calls_perform (ordinary (.listStepsForExecution id) rfl)) fun steps =>
            calls_bind (reads_calls ordinary (validationSummaryFromSteps_reads steps)) fun _ =>
            calls_bind (reads_calls ordinary (buildCompletionResult_reads _ steps)) fun _ =>
            applyApprovalDecision_calls (fun proposal => ordinary
              (.saveActionProposal proposal) rfl)
              fun ex => ordinary (.updateExecution ex) rfl

end
end AgenticPlatform
