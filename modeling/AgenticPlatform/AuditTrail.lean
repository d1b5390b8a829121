import AgenticPlatform.ReferencesKept

/-! The audit trail of governance. A client reads the ruling on an incident in the result of its
row, and the rulings are made by several parties at once: runs, approvers, cancellations. The row of
an execution tells in its own timeline how every ruling came about that it shows, whoever wrote it
last. -/
namespace AgenticPlatform
open Interaction ExecutionEngine Store

/-- What governance can rule on an incident. -/
inductive Ruling where
  | allowed | denied | pending | approved | rejected
  deriving DecidableEq

/-- The status that it leaves the execution in. -/
def Ruling.status : Ruling → ExecutionStatus
  | .allowed | .approved => .completed
  | .denied | .rejected => .failed
  | .pending => .awaitingApproval

def Ruling.decision : Ruling → PolicyDecision
  | .allowed => .allow
  | .denied => .deny
  | .pending | .approved | .rejected => .conditional

/-- The decision of the approver, where one was asked. -/
def Ruling.answer : Ruling → Option ApprovalDecision
  | .approved => some .approve
  | .rejected => some .reject
  | .allowed | .denied | .pending => none

/-- The `approval_status` of the result. -/
def Ruling.approvalStatus : Ruling → String
  | .allowed => "not_required"
  | .denied => "not_applicable"
  | .pending => "pending"
  | .approved => "approved"
  | .rejected => "rejected"

/-- The timeline has an event of that type with that decision. -/
def Execution.Told (ex : Execution) (eventType decision : String) : Prop :=
  ∃ row ∈ ex.traceTimeline, row.get "event_type" = .str eventType ∧
    row.get "decision" = .str decision

/-- A field of the result. -/
def Execution.shown (ex : Execution) (field : String) : Option Json :=
  (ex.result.getD []).get? field

/-- The row shows the ruling, and its timeline tells how it came about. -/
structure Ruling.Backed (ruling : Ruling) (ex : Execution) : Prop where
  status : ex.status = ruling.status
  approvalStatus : ex.shown "approval_status" = some (.str ruling.approvalStatus)
  policyDecision : ex.shown "policy_decision" = some (.str ruling.decision.value)
  evaluated : ex.Told "policy_evaluated" ruling.decision.value
  answered : ∀ answer, ruling.answer = some answer → ex.Told "approval_received" answer.value

/-- Every ruling that the row shows is backed, and the statuses that take a ruling show one. -/
structure Execution.Audited (ex : Execution) : Prop where
  shows : ∀ text, ex.shown "approval_status" = some text → ∃ ruling : Ruling, ruling.Backed ex
  completed : ex.workflowType = "incident_triage" → ex.status = .completed →
    ∃ ruling : Ruling, ruling.Backed ex
  waits : ex.status = .awaitingApproval → Ruling.pending.Backed ex

section
variable {ex row next : Execution} {eventType decision : String} {events : List Event}
  {detail : Dict} {now : Time}
  {ruling : Ruling}

theorem Execution.Told.mono (told : ex.Told eventType decision)
    (kept : ex.traceTimeline <+: next.traceTimeline) :
    next.Told eventType decision := by
  obtain ⟨row, member, is, decided⟩ := told
  exact ⟨row, kept.subset member, is, decided⟩

/-- A write that leaves the status, the result and the workflow alone and only adds to the
timeline. -/
theorem Ruling.Backed.keep (backed : ruling.Backed ex) (status : next.status = ex.status)
    (result : next.result = ex.result) (kept : ex.traceTimeline <+: next.traceTimeline) :
    ruling.Backed next where
  status := status.trans backed.status
  approvalStatus := by rw [Execution.shown, result]; exact backed.approvalStatus
  policyDecision := by rw [Execution.shown, result]; exact backed.policyDecision
  evaluated := backed.evaluated.mono kept
  answered answer given := (backed.answered answer given).mono kept

theorem Execution.Audited.keep (audited : ex.Audited) (status : next.status = ex.status)
    (result : next.result = ex.result) (workflow : next.workflowType = ex.workflowType)
    (kept : ex.traceTimeline <+: next.traceTimeline) : next.Audited where
  shows text shown := by
    rw [Execution.shown, result] at shown
    obtain ⟨ruling, backed⟩ := audited.shows text shown
    exact ⟨ruling, backed.keep status result kept⟩
  completed incident done := by
    obtain ⟨ruling, backed⟩ := audited.completed (workflow ▸ incident) (status ▸ done)
    exact ⟨ruling, backed.keep status result kept⟩
  waits waiting := (audited.waits (status ▸ waiting)).keep status result kept

theorem Execution.Audited.trace (audited : ex.Audited) : (appendEvents ex events now).Audited := by
  rw [appendEvents_eq]
  exact audited.keep rfl rfl rfl (List.prefix_append _ _)

/-- A row that shows no ruling and has a status without one. -/
theorem audited_open (unshown : ex.shown "approval_status" = none)
    (unfinished : ex.status ≠ .completed) (settled : ex.status ≠ .awaitingApproval) :
    ex.Audited where
  shows text shown := by
    rw [unshown] at shown
    cases shown
  completed _ done := absurd done unfinished
  waits waiting := absurd waiting settled

/-- A row that is still underway shows no ruling. -/
theorem Execution.Audited.unshown (audited : ex.Audited)
    (underway : ex.status ∉ [.completed, .failed, .awaitingApproval]) :
    ex.shown "approval_status" = none := by
  cases shown : ex.shown "approval_status" with
  | none => rfl
  | some text =>
      obtain ⟨ruling, backed⟩ := audited.shows text shown
      refine absurd ?_ underway
      rw [backed.status]
      cases ruling <;> simp [Ruling.status]

/-- A row that moves on while it is underway. -/
theorem Execution.Audited.enter (audited : ex.Audited)
    (underway : ex.status ∉ [.completed, .failed, .awaitingApproval])
    (result : next.result = ex.result) (unfinished : next.status ≠ .completed)
    (settled : next.status ≠ .awaitingApproval) :
    next.Audited := by
  refine audited_open ?_ unfinished settled
  rw [Execution.shown, result]
  exact audited.unshown underway

/-- A run that ends without a ruling. -/
theorem audited_ended {outcome reason : String}
    (result : ex.result = some [("outcome", .str outcome), ("reason", .str reason)])
    (unfinished : ex.status ≠ .completed) (settled : ex.status ≠ .awaitingApproval) :
    ex.Audited := by
  refine audited_open ?_ unfinished settled
  simp [Execution.shown, result]

theorem Ruling.Backed.audited (backed : ruling.Backed ex) : ex.Audited where
  shows _ _ := ⟨ruling, backed⟩
  completed _ _ := ⟨ruling, backed⟩
  waits waiting := by
    have status := backed.status
    rw [waiting] at status
    cases ruling with
    | pending => exact backed
    | allowed | denied | approved | rejected => cases status

theorem concludeExecution_prefix {status : ExecutionStatus} {summary result : Dict} :
    ex.traceTimeline <+: (concludeExecution ex status summary result events now).traceTimeline := by
  simp [concludeExecution, appendEvents_eq, appendTimeline]

/-- A row that is concluded with a ruling, of which its timeline tells already. -/
theorem backed_conclude {summary base changes : Dict} {proposal : ActionProposal} (ruling : Ruling)
    (evaluated : ex.Told "policy_evaluated" ruling.decision.value)
    (answered : ∀ answer, ruling.answer = some answer → ex.Told "approval_received" answer.value) :
    ruling.Backed (concludeExecution ex ruling.status summary
      (governedResult base changes proposal ruling.decision ruling.approvalStatus) events now) where
  status := concludeExecution_status
  approvalStatus := by
    simp [Execution.shown, governedResult, Dict.merge, Dict.get?_set]
  policyDecision := by
    simp [Execution.shown, governedResult, Dict.merge, Dict.get?_set]
  evaluated := evaluated.mono concludeExecution_prefix
  answered answer given := (answered answer given).mono concludeExecution_prefix

theorem told_evaluated {evaluationId : UUID} {draft : PolicyEvaluationDraft} :
    (appendTimeline ex "policy_evaluated" (policyEvaluated evaluationId draft) now).Told
      "policy_evaluated"
      draft.decision.value := by
  refine ⟨_, List.mem_append_right _ List.mem_cons_self, timelineRow_type ?_, ?_⟩
  · simp [policyEvaluated]
  · simp [timelineRow, Dict.merge, Dict.get, Dict.get?_set, policyEvaluated]

theorem told_received {approvalId : UUID} {approver : String} {answer : ApprovalDecision} :
    (appendTimeline ex "approval_received" (approvalReceived approvalId approver answer) now).Told
      "approval_received"
      answer.value := by
  refine ⟨_, List.mem_append_right _ List.mem_cons_self, timelineRow_type ?_, ?_⟩
  · simp [approvalReceived]
  · simp [timelineRow, Dict.merge, Dict.get, Dict.get?_set, approvalReceived]

end

/-- The rows that are written are audited. -/
def Op.WritesAudited : Op → Prop
  | .saveExecution ex | .updateExecution ex => ex.Audited
  | _ => True

/-- The rows that are read are audited. -/
def Op.ReadsAudited : (op : Op) → op.Res → Prop
  | .getExecution _, found => ∀ ex, found = some ex → ex.Audited
  | _, _ => True

abbrev Audits {α : Type} (p : M α) : Prop := Interaction.Calls Op.WritesAudited Op.ReadsAudited p

abbrev AuditsFor {α : Type} (p : M α) (R : α → Prop) : Prop :=
  Interaction.CallsFor Op.WritesAudited Op.ReadsAudited p R

section
variable {α : Type} {engine : ExecutionEngine} {ex next : Execution} {step : Step}
  {steps : List Step} {id : UUID} {now : Time}

theorem quiet_audited {caught : Bool} {op : Op} (quiet : op.quiet caught = true) :
    op.WritesAudited := by
  cases op with
  | saveExecution _ | updateExecution _ => cases quiet
  | _ => trivial

theorem finds_audited : AuditsFor (M.getExecution id)
    (fun found => ∀ ex, found = some ex → ex.Audited) :=
  callsFor_perform trivial

theorem writes_audited (audited : ex.Audited) : AuditsFor (do
    M.updateExecution ex
    pure ex : M Execution) Execution.Audited :=
  callsFor_bind (calls_perform audited).for_all fun _ _ => callsFor_ret audited

theorem draws_audited {p : M α} {R : α → Prop} (drawn : Draws p R) : AuditsFor p R := by
  refine Built.callsFor ?_ drawn
  rintro β p R ⟨⟩
  exact (calls_perform trivial).for_all

theorem Reads.audits {p : M α} (reads : Reads p) : Audits p := reads.calls fun _ => trivial

theorem recordTrace_audits {events : List Event} : Audits (recordTrace id events now) := by
  refine calls_then finds_audited fun found audited => ?_
  cases found with
  | none => exact calls_ret _
  | some ex => exact calls_perform (audited ex rfl).trace

theorem work_audits {caught : Bool} {β : Type} {p : M β} {R : β → Prop}
    (block : WorkBlock False .any id caught p R) :
    AuditsFor p R := by
  cases block with
  | quiet op quiet _ =>
      exact (callsFor_perform (quiet_audited quiet)).mono fun r _ => ⟨False.elim, op.shows_any r⟩
  | row => exact (callsFor_perform trivial).mono fun o _ => ⟨fun _ _ => trivial, False.elim⟩
  | trace events now _ => exact recordTrace_audits.for_all

theorem stepWork_audits (running : step.status = .running) : Audits (engine.stepWork step now) :=
  CallsFor.calls (Guarded.callsFor (fun _ _ block => work_audits block)
    (fun _ _ block => work_audits block)
    (@stepWork_work False .any step now engine running))

theorem runStep_audits : Audits (engine.runStep step now) := by
  refine calls_bind (calls_perform trivial) fun found => ?_
  cases found with
  | none => exact calls_raise _
  | some step =>
      exact calls_bind calls_ofExcept fun _ => calls_bind (calls_perform trivial) fun _ =>
        calls_bind recordTrace_audits fun _ => calls_bind (stepWork_audits rfl) fun result =>
        calls_bind (calls_perform trivial) fun _ => calls_bind calls_ofExcept fun _ =>
        calls_bind (calls_perform trivial) fun _ => recordTrace_audits

theorem cancelExecution_audits {reason : String} : Audits (cancelExecution id reason now) := by
  refine calls_then finds_audited fun found audited => ?_
  cases found with
  | none => exact calls_raise _
  | some ex =>
      obtain ⟨input, same⟩ := requestCancellationMeta_eq ex now reason
      have asked : (requestCancellationMeta ex now reason).Audited :=
        same ▸ (audited ex rfl).keep rfl rfl rfl List.prefix_rfl
      refine calls_ite (fun _ => (writes_audited asked).calls) fun _ => ?_
      dsimp only
      split
      · exact (writes_audited asked).calls
      · exact (writes_audited (audited_ended rfl (by simp) (by simp))).calls

theorem failExecution_audits {reason : String} : Audits (failExecution id reason) := by
  refine calls_bind (calls_perform trivial) fun ts => calls_then finds_audited
    fun found audited => ?_
  cases found with
  | none => exact calls_raise _
  | some ex =>
      refine calls_ite (fun _ => calls_ret _) fun _ => ?_
      dsimp only
      split
      · exact calls_ret _
      · exact (writes_audited (audited_ended rfl (by simp) (by simp))).calls

theorem rewriteExecution_audits {change : Execution → Execution}
    (input : ∀ ex, ∃ d, change ex = { ex with input := d }) :
    Audits (rewriteExecution id change) := by
  refine calls_then finds_audited fun found audited => ?_
  cases found with
  | none => exact calls_raise _
  | some ex =>
      obtain ⟨d, same⟩ := input ex
      have changed : (change ex).Audited := same ▸ (audited ex rfl).keep rfl rfl rfl List.prefix_rfl
      exact (writes_audited changed).calls

theorem keyToId_audits {specs : List StepSpec} : Audits (keyToId specs) :=
  (draws_audited (keyToId_draws specs)).calls

theorem buildSteps_audits {plan : ExecutionPlan} {ids : List (String × UUID)}
    {specs : List StepSpec} :
    Audits (engine.buildSteps plan ex now ids specs) := by
  induction specs with
  | nil => exact calls_ret _
  | cons spec rest ih =>
      unfold buildSteps
      split
      · exact calls_bind ih fun _ => calls_ret _
      · exact calls_raise _

theorem saveSteps_audits : Audits (saveSteps steps) := by
  induction steps with
  | nil => exact calls_ret _
  | cons s rest ih => exact calls_bind (calls_perform trivial) fun _ => ih

theorem enterPlanning_audits (audited : ex.Audited) : AuditsFor
    (enterPlanning ex now) Execution.Audited := by
  refine wp_ite (fun created => ?_) fun _ => callsFor_ret audited
  refine callsFor_bind calls_ofExcept.for_all fun _ _ => writes_audited ?_
  exact audited.enter (by simp [created]) rfl (by simp [enterStatus, appendTimeline])
    (by simp [enterStatus, appendTimeline])

theorem enterExecuting_audits (audited : ex.Audited) : Audits (engine.enterExecuting ex now) := by
  refine calls_ite (fun planning => ?_) fun _ => calls_ret _
  have created : Draws (createPlan engine.plannerMeta ex now) (fun _ => True) :=
    .bind draws_uuid4 fun planId _ => (planWorkflow_draws _ _ planId now).mono fun _ _ => trivial
  refine calls_bind (draws_audited created).calls fun plan => calls_bind
    (calls_perform trivial) fun _ =>
    calls_bind (calls_bind keyToId_audits fun _ => buildSteps_audits) fun steps => calls_bind
      saveSteps_audits fun _ =>
    calls_bind calls_ofExcept fun _ => calls_perform ?_
  exact audited.enter (by simp [planning]) rfl (by simp [enterStatus, appendTimeline])
    (by simp [enterStatus, appendTimeline])

theorem maybeEnterValidating_audits (audited : ex.Audited) :
    AuditsFor (maybeEnterValidating ex steps now) Execution.Audited := by
  refine wp_ite (fun starts => ?_) fun _ => callsFor_ret audited
  refine callsFor_bind calls_ofExcept.for_all fun _ _ => callsFor_ret ?_
  have executing : ex.status = .executing := by
    simp only [startsValidating, Bool.and_eq_true, decide_eq_true_eq] at starts
    exact starts.1.1.1.1
  exact audited.enter (by simp [executing]) rfl (by simp [enterStatus, appendTimeline])
    (by simp [enterStatus, appendTimeline])

theorem applyPolicyDecision_audits {proposal : ActionProposal} {evaluationId : UUID}
    {decision : PolicyDecision} {summary base : Dict}
    (evaluated : ex.Told "policy_evaluated" decision.value) :
    AuditsFor (applyPolicyDecision ex proposal evaluationId decision summary base now)
      Execution.Audited := by
  have concludes {p : ActionProposal} {status : ExecutionStatus} {next : Execution}
    (audited : next.Audited) :
      AuditsFor (do
        M.saveActionProposal p
        M.ofExcept (validateExecutionTransition .validating status)
        pure next : M Execution) Execution.Audited :=
    callsFor_bind (calls_perform trivial).for_all fun _ _ => callsFor_bind
      calls_ofExcept.for_all fun _ _ =>
      callsFor_ret audited
  cases decision with
  | deny => exact concludes (backed_conclude .denied evaluated fun _ no => by cases no).audited
  | allow => exact concludes (backed_conclude .allowed evaluated fun _ no => by cases no).audited
  | conditional =>
      exact concludes (backed_conclude .pending evaluated fun _ no => by cases no).audited

theorem finalize_audits : AuditsFor
    (finalizeIncidentTriageGovernance ex steps now) Execution.Audited := by
  refine callsFor_bind (calls_perform trivial).for_all fun found _ => ?_
  cases found with
  | none => exact callsFor_raise _
  | some ctx =>
      exact callsFor_bind (validationSummaryFromSteps_reads steps).audits.for_all fun _ _ =>
        callsFor_bind (buildCompletionResult_reads ex steps).audits.for_all fun _ _ =>
        callsFor_bind (stepOutputByName_reads steps _).audits.for_all fun _ _ =>
        callsFor_bind (calls_perform trivial).for_all fun _ _ => callsFor_bind
          (calls_perform trivial).for_all fun _ _ =>
        callsFor_bind (calls_perform trivial).for_all fun _ _ => callsFor_bind
          (calls_perform trivial).for_all fun _ _ =>
        callsFor_bind (calls_perform trivial).for_all fun _ _ => applyPolicyDecision_audits
          told_evaluated

/-- The summary of the steps shows no ruling. -/
theorem buildCompletionResult_audits :
    AuditsFor (buildCompletionResult ex steps)
    (fun base => base.get? "approval_status" = none) := by
  have named : AuditsFor (namedOutputs steps) (fun _ => True) :=
    (Reads.audits (@namedOutputs_readsOf (fun _ => True) steps fun _ _ => trivial)).for_all
  refine wp_ite (fun _ => ?_) fun _ => wp_ite (fun _ => ?_) fun _ => ?_
  · exact callsFor_bind named fun _ _ => callsFor_ret (by simp)
  · exact callsFor_bind named fun _ _ => callsFor_ret (by simp)
  · exact callsFor_ret (by simp)

theorem stuck_audits : Audits (stuck steps) :=
  calls_ite (fun _ => calls_raise _) fun _ => calls_raise _

theorem completeRun_audits : Audits (completeRun ex steps) := by
  refine calls_ite (fun _ => calls_bind (calls_perform trivial) fun now => ?_) fun _ => stuck_audits
  refine calls_ite (fun _ => calls_ite (fun _ => ?_) fun other => ?_) fun _ => calls_ite
    (fun _ => calls_raise _) fun _ =>
    stuck_audits
  · exact calls_then finalize_audits fun next audited => (writes_audited audited).calls
  · refine calls_bind calls_ofExcept fun _ => calls_bind (validationSummaryFromSteps_reads
      steps).audits fun _ =>
      calls_then buildCompletionResult_audits fun base unshown =>
        (writes_audited ⟨?_, ?_, ?_⟩).calls
    · intro text shown
      rw [Execution.shown, concludeExecution_result, Option.getD_some, unshown] at shown
      cases shown
    · intro incident
      rw [concludeExecution_workflowType] at incident
      exact absurd incident other
    · intro waiting
      rw [concludeExecution_status] at waiting
      cases waiting

theorem runLoop_audits (fuel : Nat) : Audits (engine.runLoop id fuel) := by
  induction fuel with
  | zero => exact calls_halt
  | succ fuel ih =>
      refine calls_then finds_audited fun found audited => ?_
      cases found with
      | none => exact calls_raise _
      | some ex =>
          refine calls_ite (fun _ => calls_bind (calls_perform trivial) fun _ =>
            cancelExecution_audits) fun _ =>
            calls_ite (fun _ => calls_ret _) fun _ => calls_ite (fun _ => calls_ret _) fun _ =>
            calls_bind (calls_perform trivial) fun steps => calls_bind ?_ fun plan => ?_
          · unfold resolvePlan
            cases ex.currentPlanId with
            | none => exact calls_ret _
            | some planId => exact calls_perform trivial
          · cases plan with
            | none => exact calls_raise _
            | some plan =>
                refine calls_bind (calls_perform trivial) fun now => calls_then
                  (maybeEnterValidating_audits (audited ex rfl))
                  fun ex audited => calls_bind (calls_perform audited) fun _ => calls_bind
                    (calls_perform trivial) fun found => ?_
                cases found with
                | none => exact calls_raise _
                | some ex =>
                    refine calls_ite (fun _ => calls_ret _) fun _ => calls_bind
                      (calls_perform trivial) fun steps => ?_
                    cases nextPendingReady (stepsInPlanOrder steps plan) steps with
                    | some step => exact calls_bind runStep_audits fun _ => ih
                    | none => exact completeRun_audits

theorem startExecution_audits {fuel : Nat} : Audits (engine.startExecution fuel id) := by
  refine calls_tryCatch ?_ fun _ => calls_ite (fun _ => failExecution_audits) fun _ => calls_raise _
  refine calls_then finds_audited fun found audited => ?_
  cases found with
  | none => exact calls_raise _
  | some ex =>
      exact calls_bind (calls_perform trivial) fun now => calls_ite (fun _ => calls_ret _) fun _ =>
        calls_then (enterPlanning_audits (audited ex rfl)) fun ex audited => calls_bind
          (enterExecuting_audits audited) fun _ =>
        runLoop_audits fuel

theorem enqueueExecution_audits : Audits (enqueueExecution id) :=
  calls_bind (calls_perform trivial) fun _ => calls_bind (rewriteExecution_audits fun row =>
    applyRuntimeMeta_eq row _) fun _ =>
    calls_bind (calls_perform trivial) fun _ => calls_ret _

theorem recordWorkerStarted_audits {workerId : String} {given : Option Time} : Audits
    (recordWorkerStarted id workerId given) := by
  unfold recordWorkerStarted
  cases given with
  | some ts => exact rewriteExecution_audits fun row => applyRuntimeMeta_eq row _
  | none => exact calls_bind (calls_perform trivial) fun ts => rewriteExecution_audits fun row =>
    applyRuntimeMeta_eq row _

theorem requestCancellation_audits {reason : String} : Audits (requestCancellation id reason) :=
  calls_bind (calls_perform trivial) fun ts =>
    calls_bind (rewriteExecution_audits fun row => requestCancellationMeta_eq row ts reason)
      fun _ =>
    calls_ite (fun _ => calls_ret _) fun _ => cancelExecution_audits

/-- The answer of the approver is told before the row shows it. -/
theorem applyApprovalDecision_audits {proposal : ActionProposal} {answer : ApprovalDecision}
    {summary base : Dict} (evaluated : ex.Told "policy_evaluated" PolicyDecision.conditional.value)
    (answered : ex.Told "approval_received" answer.value) (decided : answer ≠ .defer) :
    Audits (applyApprovalDecision ex proposal answer summary base now) := by
  have concludes {p : ActionProposal} {status : ExecutionStatus} {next : Execution}
    (audited : next.Audited) :
      Audits (do
        M.saveActionProposal p
        M.ofExcept (validateExecutionTransition .awaitingApproval status)
        M.updateExecution next
        pure next : M Execution) :=
    calls_bind (calls_perform trivial) fun _ => calls_bind calls_ofExcept fun _ =>
      (writes_audited audited).calls
  cases answer with
  | defer => exact absurd rfl decided
  | reject =>
      refine concludes (backed_conclude .rejected evaluated ?_).audited
      rintro _ ⟨⟩
      exact answered
  | approve =>
      refine concludes (backed_conclude .approved evaluated ?_).audited
      rintro _ ⟨⟩
      exact answered

theorem submitApproval_audits {approver : String} {answer : ApprovalDecision}
    {notes : Option String} :
    Audits (submitApproval id approver answer notes) := by
  refine calls_bind (calls_perform trivial) fun ts => calls_then finds_audited
    fun found audited => ?_
  cases found with
  | none => exact calls_raise _
  | some ex =>
      refine calls_ite (fun _ => calls_raise _) fun waits => calls_bind calls_ofExcept fun ids => ?_
      refine calls_ite (fun _ => calls_raise _) fun decided => calls_bind
        (calls_perform trivial) fun _ =>
        calls_bind (calls_perform trivial) fun _ => calls_bind (calls_perform trivial)
          fun found => ?_
      cases found with
      | none => exact calls_raise _
      | some proposal =>
          have evaluated := ((audited ex rfl).waits (by simpa using waits)).evaluated
          refine calls_bind (calls_perform trivial) fun steps => calls_bind
            (validationSummaryFromSteps_reads steps).audits
            fun _ => calls_bind (buildCompletionResult_reads _ steps).audits fun _ => ?_
          exact applyApprovalDecision_audits (evaluated.mono (List.prefix_append _ _))
            told_received decided

theorem createExecution_audits {request : NewExecution} :
    AuditsFor (createExecution request now) (fun ex => ex.status = .created ∧ ex.result = none) :=
  callsFor_bind (calls_perform trivial).for_all fun _ _ => callsFor_bind
    (calls_perform trivial).for_all fun _ _ =>
    callsFor_bind (calls_perform trivial).for_all fun _ _ =>
    callsFor_bind (calls_perform (audited_open rfl (by simp [executionOf])
      (by simp [executionOf]))).for_all fun _ _ =>
    callsFor_ret ⟨rfl, rfl⟩

theorem createReplay_audits {request : ReplayRequest} {fuel : Nat} : Audits
    (engine.createReplay fuel request) := by
  refine calls_bind (calls_perform trivial) fun ts => calls_bind (calls_perform trivial)
    fun found => ?_
  cases found with
  | none => exact calls_raise _
  | some source =>
      refine calls_bind (calls_perform trivial) fun found => ?_
      cases found with
      | none => exact calls_raise _
      | some ctx =>
          have made : Audits (createReplayChild request source ctx ts) := by
            refine calls_bind calls_ofExcept fun _ => calls_bind calls_ofExcept fun input =>
              calls_then createExecution_audits fun child created => calls_bind (calls_perform ?_)
                fun _ => calls_ret _
            obtain ⟨status, result⟩ := created
            refine audited_open ?_ ?_ ?_
            · simp [Execution.shown, replayChild, appendTimeline, result]
            · simp [replayChild, appendTimeline, status]
            · simp [replayChild, appendTimeline, status]
          have answered (child : Execution) (provenance : ReplayProvenance) :
              Audits (replayCreated request source child provenance) :=
            calls_bind (calls_perform trivial) fun _ => calls_ite (fun _ => calls_raise _)
              fun _ => calls_ret _
          exact calls_bind made fun pair => calls_ite
            (fun _ => calls_bind startExecution_audits fun _ => answered _ _) fun _ => answered _ _

theorem runOnce_audits {fuel : Nat} {workerId : String} : Audits
    (engine.runOnce fuel workerId) := by
  refine calls_bind (calls_perform trivial) fun item => ?_
  cases item with
  | none => exact calls_ret _
  | some item =>
      refine calls_bind (calls_perform trivial) fun now => calls_bind (calls_perform trivial)
        fun found => ?_
      cases found with
      | none => exact calls_ret _
      | some _ =>
          exact calls_bind recordWorkerStarted_audits fun _ => calls_bind
            (calls_perform trivial) fun _ =>
            calls_bind startExecution_audits fun _ => calls_bind (calls_perform trivial) fun _ =>
            calls_bind (calls_perform trivial) fun _ => calls_ret _

theorem Call.audits {fuel : Nat} (call : Call) : Audits (call.program engine fuel) := by
  have discarded {β : Type} {p : M β} (made : Audits p) : Audits p.discard :=
    calls_bind made fun _ => calls_ret _
  cases call with
  | createExecution request ts => exact discarded createExecution_audits.calls
  | createReplay request => exact discarded createReplay_audits
  | runOnce workerId => exact discarded runOnce_audits
  | party party =>
      cases party with
      | startExecution id => exact discarded startExecution_audits
      | enqueueExecution id => exact discarded enqueueExecution_audits
      | recordWorkerStarted id workerId given => exact discarded recordWorkerStarted_audits
      | requestCancellation id reason => exact discarded requestCancellation_audits
      | submitApproval id approver answer notes => exact discarded submitApproval_audits
      | failExecution id reason => exact discarded failExecution_audits

end

/-- All execution rows are audited. -/
def World.Audited (w : World) : Prop := ∀ ex ∈ w.repo.executions, ex.Audited

/-- The rows of a store of audited rows are read and written as such. -/
theorem audited_rules {env : Env} : Learning (handle env) World.known World.Audited
    (fun _ op => op.WritesAudited) (fun _ (op : Op) a => op.ReadsAudited a) where
  grows _ _ _ _ := known_grows
  keeps w op audited writes := by
    cases op with
    | saveExecution ex => exact Table.forall_put audited writes
    | updateExecution ex =>
        simp only [handle]
        split
        · exact Table.forall_put audited writes
        · exact audited
    | updateStep step =>
        simp only [handle]
        split
        · exact audited
        · exact audited
    | _ => exact audited
  tells w op a _ audited _ _ answer := by
    cases op with
    | getExecution id =>
        rintro ex rfl
        exact audited ex (Table.get_eq_some.mp (Except.ok.inj answer)).1
    | _ => trivial

/-- However the calls of any number of clients interleave, every row shows only rulings that its own
timeline tells of, and no incident is completed or waits for an approver without one. -/
theorem rulings_backed {ι : Type} [DecidableEq ι] (env : Env) (engine : ExecutionEngine)
    (fuel : Nat) (calls : ι → List Call) {w : World} (audited : w.Audited)
    {d : Sys platform Exn World Unit ι}
    (reach : Sys.Reaches (handle env) (fun _ _ _ => ()) (fun _ _ _ => True)
      (serving engine fuel calls w) d) :
    d.shared.Audited := by
  have informed (i : ι) : Informed World.known (fun (_ : Known) (op : Op) => op.WritesAudited)
      (fun _ (op : Op) a => op.ReadsAudited a) w (session engine fuel (calls i)) := by
    intro _ _
    refine calls_inTurn fun p member => ?_
    obtain ⟨call, _, rfl⟩ := List.mem_map.mp member
    exact call.audits
  exact (Sys.Reaches.informed audited_rules informed audited reach).1

/-- Two approvers decide the same incident, one of them against it, while a client cancels it. -/
def disputedCalls : Fin 4 → List Call
  | 0 => [.createExecution incidentRequest 0, .party (.startExecution ⟨1⟩)]
  | 1 => [.party (.submitApproval ⟨1⟩ "first" .approve none)]
  | 2 => [.party (.submitApproval ⟨1⟩ "second" .reject none)]
  | 3 => [.party (.requestCancellation ⟨1⟩ "operator")]

theorem rulings_backed_disputed :
    let d := (serving (.default .flat) 6 disputedCalls .init).fires
      (handle (.answering .conditional "passed")) (fun _ _ _ => ())
      (List.replicate 120 0 ++ [1, 1, 2, 2, 3, 3] ++ List.replicate 20 2 ++ List.replicate 20 1)
    d.shared.Audited ∧ (d.shared.execution ⟨1⟩).map Execution.status = some .completed :=
  ⟨rulings_backed _ _ _ _ (fun _ no => absurd no List.not_mem_nil)
    (Sys.Reaches.refl.fires _), by decide +kernel⟩

end AgenticPlatform
