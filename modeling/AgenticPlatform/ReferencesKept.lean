import AgenticPlatform.CoursePlanning
import AgenticPlatform.Governance
import AgenticPlatform.References
import AgenticPlatform.Replay

/-! Every program of the platform names only rows that it has written or been shown. -/
namespace AgenticPlatform
open Interaction ExecutionEngine Store

section
variable {K : Known} {α : Type} {ex next : Execution} {step : Step} {now : Time}

theorem governed_congr (result : next.result = ex.result) : next.governed = ex.governed := by
  simp only [Execution.governed, governanceIds, result]

/-- A result without a governance block names nothing. -/
theorem covers_ungoverned (plain : (ex.result.getD []).get? "governance" = none) :
    K.Covers ex.governed := by
  simp only [Execution.governed, governanceIds, Dict.get, plain, Option.getD_none, Known.covers_nil]

theorem Known.Row.rewrite (row : K.Row ex) (executionId : next.executionId = ex.executionId)
    (references : next.references = ex.references) (governed : K.Covers next.governed) :
    K.Row next where
  stored := executionId ▸ row.stored
  slot := executionId ▸ row.slot
  visible := executionId ▸ row.visible
  named := by
    rw [references]
    exact Known.covers_append.mpr ⟨(Known.covers_append.mp row.named).1, governed⟩

/-- A write that leaves the references and the result alone. -/
theorem Known.Row.keep (row : K.Row ex) (executionId : next.executionId = ex.executionId)
    (references : next.references = ex.references) (result : next.result = ex.result) :
    K.Row next :=
  row.rewrite executionId references (governed_congr result ▸ (Known.covers_append.mp row.named).2)

theorem Known.Row.trace (row : K.Row ex) {events : List Event} : K.Row
    (appendEvents ex events now) := by
  rw [appendEvents_eq]
  exact row.keep rfl rfl rfl

/-- A row that was concluded with a result without governance. -/
theorem Known.Row.conclude (row : K.Row ex) {status : ExecutionStatus} {summary result : Dict}
    {events : List Event} (governed : ∀ next : Execution, next.result = some result →
      K.Covers next.governed) :
    K.Row (concludeExecution ex status summary result events now) := by
  obtain ⟨timeline, t, same⟩ := @concludeExecution_eq ex events now status summary result
  rw [same]
  exact row.rewrite rfl rfl (governed _ rfl)

/-- A call that names what is known. -/
theorem perform_callsFor (op : Op) (named : K.Covers op.requires) : K.CallsFor (M.perform op)
    (K.Tells op) := callsFor_perform named

theorem perform_calls (op : Op) (named : K.Covers op.requires) : K.Calls (M.perform op) :=
  calls_perform named

theorem updateExecution_calls (row : K.Row ex) : K.Calls (M.updateExecution ex) := calls_perform
    (Known.covers_cons.mpr ⟨row.slot, row.named⟩)

/-- The row of an execution that may be acted on. -/
theorem getExecution_callsFor {id : UUID} (visible : K (.visible id)) :
    K.CallsFor (M.getExecution id)
    (fun found => ∀ ex, found = some ex → ex.executionId = id ∧ K.Row ex) :=
  perform_callsFor (.getExecution id) (Known.covers_one visible)

theorem listSteps_callsFor {id : UUID} (visible : K (.visible id)) :
    K.CallsFor (M.listStepsForExecution id) (fun steps => ∀ step ∈ steps, K.StepRow step) :=
  perform_callsFor (.listStepsForExecution id) (Known.covers_one visible)

/-- Reading the results of known steps. -/
theorem readsOf_calls {known : UUID → Prop} {p : M α} (stored : ∀ id, known id → K (.row .step id))
    (reads : ReadsOf known p) :
    K.Calls p := by
  refine CallsFor.calls (Built.callsFor ?_ reads)
  rintro β p R ⟨id, member⟩
  exact (perform_calls (.getStepResult id) (Known.covers_one (stored id member))).for_all

theorem recordTrace_covers {id : UUID} {events : List Event} (visible : K (.visible id)) :
    K.Calls (recordTrace id events now) := by
  refine calls_then (getExecution_callsFor visible) fun found tells => ?_
  cases found with
  | none => exact calls_ret _
  | some ex => exact updateExecution_calls (tells ex rfl).2.trace

theorem shortDigest_covers {s : String} {n : Nat} : K.Calls (shortDigest s n) :=
  calls_bind (perform_calls (.sha256 s) Known.covers_nil) fun _ => calls_ret _

section
variable {text : Rendering} {engine : ExecutionEngine}

theorem executeGenericStep_covers : K.Calls (executeGenericStep text step now) :=
  calls_bind shortDigest_covers fun _ => calls_bind (perform_calls .uuid4 Known.covers_nil)
    fun _ => calls_ret _

theorem executeStep_covers : K.Calls (executeStep text step) := by
  refine calls_ite (fun _ => calls_raise _) fun _ => calls_bind
    (perform_calls .now Known.covers_nil) fun ts => ?_
  split
  · exact calls_ite
      (fun _ => calls_bind shortDigest_covers fun _ => calls_bind shortDigest_covers fun _ =>
        calls_bind (perform_calls .uuid4 Known.covers_nil) fun _ => calls_ret _)
      fun _ => calls_ite
        (fun _ => calls_bind shortDigest_covers fun _ => calls_bind shortDigest_covers fun _ =>
          calls_bind (perform_calls .uuid4 Known.covers_nil) fun _ => calls_ret _)
        fun _ => executeGenericStep_covers
  · exact executeGenericStep_covers

theorem priorOutputs_covers {steps : List Step} (known : ∀ s ∈ steps, K.StepRow s) : K.Calls
    (priorOutputs steps) := by
  induction steps with
  | nil => exact calls_ret _
  | cons s rest ih =>
      obtain ⟨first, others⟩ := List.forall_mem_cons.mp known
      exact calls_bind (perform_calls (.getStepResult s.stepId) (Known.covers_one first.stored))
        fun _ =>
        calls_bind (ih others) fun _ => calls_ret _

theorem modelResult_covers {task provider invocationId : String} {output : Dict}
    {confidence : Confidence} {outcome : Option ValidationOutcome} :
    K.Calls (modelResult step now task provider invocationId output confidence outcome) :=
  calls_bind (perform_calls .uuid4 Known.covers_nil) fun _ => calls_ret _

theorem orFallback_covers {task : String} {body : M StepResult}
    (visible : K (.visible step.executionId)) (made : K.Calls body) : K.Calls
      (engine.orFallback step now task body) :=
  calls_tryCatch made fun _ => calls_bind (recordTrace_covers visible) fun _ => executeStep_covers

theorem incidentModelReasoningStep_covers (visible : K (.visible step.executionId)) :
    K.Calls (engine.incidentModelReasoningStep step now) := by
  refine calls_ite (fun _ => orFallback_covers visible ?_) fun _ => calls_ite
    (fun _ => orFallback_covers visible ?_)
    fun _ => executeStep_covers
  · exact calls_bind (perform_calls (.analyzeIncident _) Known.covers_nil) fun _ => calls_bind
      (recordTrace_covers visible) fun _ => modelResult_covers
  · exact calls_then (listSteps_callsFor visible) fun _ known => calls_bind
      (priorOutputs_covers known) fun _ =>
      calls_bind (perform_calls (.validateIncident _) Known.covers_nil) fun _ => calls_bind
        (recordTrace_covers visible) fun _ => modelResult_covers

theorem costModelReasoningStep_covers (visible : K (.visible step.executionId)) :
    K.Calls (engine.costModelReasoningStep step now) := by
  refine calls_ite (fun _ => orFallback_covers visible ?_) fun _ => calls_ite
    (fun _ => orFallback_covers visible ?_)
    fun _ => executeStep_covers
  · exact calls_bind (perform_calls (.analyzeCostAnomaly _) Known.covers_nil) fun _ => calls_bind
      (recordTrace_covers visible) fun _ => modelResult_covers
  · exact calls_then (listSteps_callsFor visible) fun _ known => calls_bind
      (priorOutputs_covers known) fun _ =>
      calls_bind (perform_calls (.validateCostAttribution _) Known.covers_nil) fun _ => calls_bind
        (recordTrace_covers visible) fun _ =>
        modelResult_covers

theorem contextOfStep_covers (visible : K (.visible step.executionId)) :
    K.CallsFor (contextOfStep step) (fun ctx => K (.row .context ctx.contextId)) := by
  refine callsFor_bind (getExecution_callsFor visible) fun found tells => ?_
  cases found with
  | none => exact callsFor_raise _
  | some ex =>
      have stored := (Known.covers_cons.mp (tells ex rfl).2.named).1
      refine callsFor_bind (perform_callsFor (.getContext _) (Known.covers_one stored))
        fun found tells => ?_
      cases found with
      | none => exact callsFor_raise _
      | some ctx => exact callsFor_ret ((tells ctx rfl).1 ▸ stored)

/-- The audit rows name the step for which the tools were asked. -/
theorem invokeTools_covers {ctx : ExecutionContext} {input extra : Dict} {names : List String}
    (known : K.StepRow step) (stored : K (.row .context ctx.contextId)) : K.Calls
      (invokeTools step ctx input extra now names) := by
  induction names with
  | nil => exact calls_ret _
  | cons name rest ih =>
      refine calls_then (perform_callsFor (.invoke _ now) Known.covers_nil) fun tc answered => ?_
      obtain ⟨echoes, slot⟩ := answered
      have named : K.Covers (Op.saveToolCall tc).requires := by
        have own := (Known.covers_cons.mp known.named).1
        simp only [Op.requires, ToolCall.references, echoes.executionId, echoes.stepId,
          echoes.executionContextId, echoes.actionProposalId, Known.covers_append,
            Known.covers_cons, Known.covers_nil, Known.covers_nullable, and_true]
        exact ⟨slot, ⟨own, known.stored, stored⟩, fun _ no => by cases no⟩
      exact calls_bind (perform_calls (.saveToolCall tc) named) fun _ => calls_bind
        (recordTrace_covers known.visible) fun _ =>
        calls_bind ih fun _ => calls_ret _

theorem stepWork_covers (known : K.StepRow step) : K.Calls (engine.stepWork step now) :=
  calls_ite
    (fun _ => calls_ite
      (fun _ => calls_ite
        (fun _ => calls_then (contextOfStep_covers known.visible) fun _ _ => calls_bind
          (perform_calls (.retrieve _) Known.covers_nil) fun _ =>
          calls_bind (recordTrace_covers known.visible) fun _ => calls_bind
            (perform_calls .uuid4 Known.covers_nil) fun _ => calls_ret _)
        fun _ => calls_then (contextOfStep_covers known.visible) fun _ stored => calls_bind
          (invokeTools_covers known stored) fun _ =>
          calls_bind (perform_calls .uuid4 Known.covers_nil) fun _ => calls_ret _)
      fun _ => calls_then (contextOfStep_covers known.visible) fun _ stored => calls_bind
        (perform_calls (.retrieve _) Known.covers_nil) fun _ =>
        calls_bind (recordTrace_covers known.visible) fun _ => calls_bind
          (invokeTools_covers known stored) fun _ =>
        calls_bind (perform_calls .uuid4 Known.covers_nil) fun _ => calls_ret _)
    fun _ => calls_ite
      (fun _ => calls_ite (fun _ => costModelReasoningStep_covers known.visible) fun _ =>
        incidentModelReasoningStep_covers known.visible)
      fun _ => executeStep_covers

/-- The result of the work of a step is one of that step. -/
theorem stepWork_result (known : K.StepRow step) (running : step.status = .running) :
    K.CallsFor (engine.stepWork step now) (fun result => result.stepId = step.stepId) := by
  have block {caught : Bool} {β : Type} (p : M β) (R : β → Prop)
      (made : WorkBlock False .any step.executionId caught p R) : CallsFor (fun _ => True)
        (fun _ _ => True) p R := by
    cases made with
    | quiet op _ _ =>
        exact (callsFor_perform trivial).mono fun r _ => ⟨False.elim, op.shows_any r⟩
    | row => exact (callsFor_perform trivial).mono fun o _ => ⟨fun _ _ => trivial, False.elim⟩
    | trace events now _ =>
        refine CallsFor.mono (Calls.for_all (calls_bind (calls_perform trivial) fun found => ?_))
          fun _ h => h
        cases found with
        | none => exact calls_ret _
        | some ex => exact calls_perform trivial
  refine (stepWork_covers known).returns ?_
  exact (Guarded.callsFor block block (@stepWork_work False .any step now engine running)).mono
    fun result made => made.stepId

theorem updatesStep (known : K.StepRow step) : K.Calls (M.updateStep step) :=
  calls_perform (Known.covers_cons.mpr ⟨known.slot, known.named⟩)

theorem runStep_covers (known : K.StepRow step) : K.Calls (engine.runStep step now) := by
  refine calls_then (perform_callsFor (.getStep _) (Known.covers_one known.stored))
    fun found tells => ?_
  cases found with
  | none => exact calls_raise _
  | some step =>
      obtain ⟨stored, slot, visible, own⟩ := tells step rfl
      have running : K.StepRow { step with status := .running, updatedAt := now } :=
        ⟨stored, slot, visible, own⟩
      refine calls_bind calls_ofExcept fun _ => calls_bind (updatesStep running) fun _ =>
        calls_bind (recordTrace_covers visible) fun _ => calls_then (stepWork_result running rfl)
          fun result same => ?_
      have named : K.Covers result.references := by
        rw [StepResult.references, same]
        exact Known.covers_one stored
      refine calls_bind (perform_calls (.saveStepResult result) named) fun _ => calls_bind
        calls_ofExcept fun _ =>
        calls_bind (updatesStep ?_) fun _ => recordTrace_covers visible
      exact ⟨stored, slot, visible, own⟩

end

/-- The write of a row that is then returned. -/
theorem writes_back (row : K.Row ex) : K.CallsFor (do
    M.updateExecution ex
    pure ex : M Execution) K.Row :=
  callsFor_bind (updateExecution_calls row).for_all fun _ _ => callsFor_ret row

theorem Known.Row.ended (row : K.Row ex) {status : ExecutionStatus} {cancelledAt : Option Time}
    {outcome reason : String} :
    K.Row (enterStatus
      { ex with
        cancelledAt := cancelledAt
        result := some [("outcome", .str outcome), ("reason", .str reason)] }
      status [("reason", .str reason)] now) := by
  refine row.rewrite rfl rfl (covers_ungoverned ?_)
  simp [enterStatus, appendTimeline]

theorem cancelExecution_covers {id : UUID} {reason : String} (visible : K (.visible id)) :
    K.Calls (cancelExecution id reason now) := by
  refine calls_then (getExecution_callsFor visible) fun found tells => ?_
  cases found with
  | none => exact calls_raise _
  | some ex =>
      obtain ⟨_, row⟩ := tells ex rfl
      obtain ⟨input, same⟩ := requestCancellationMeta_eq ex now reason
      have asked : K.Row (requestCancellationMeta ex now reason) := same ▸ row.keep rfl rfl rfl
      refine calls_ite (fun _ => (writes_back asked).calls) fun _ => ?_
      dsimp only
      split
      · exact (writes_back asked).calls
      · exact (writes_back asked.ended).calls

theorem failExecution_covers {id : UUID} {reason : String} (visible : K (.visible id)) :
    K.Calls (failExecution id reason) := by
  refine calls_bind (perform_calls .now Known.covers_nil) fun ts => calls_then
    (getExecution_callsFor visible) fun found tells => ?_
  cases found with
  | none => exact calls_raise _
  | some ex =>
      obtain ⟨_, row⟩ := tells ex rfl
      refine calls_ite (fun _ => calls_ret _) fun _ => ?_
      dsimp only
      split
      · exact calls_ret _
      · exact (writes_back row.ended).calls

theorem rewriteExecution_covers {id : UUID} {change : Execution → Execution}
    (visible : K (.visible id)) (input : ∀ ex, ∃ d, change ex = { ex with input := d }) :
    K.CallsFor (rewriteExecution id change) (fun ex => ex.executionId = id ∧ K.Row ex) := by
  refine callsFor_bind (getExecution_callsFor visible) fun found tells => ?_
  cases found with
  | none => exact callsFor_raise _
  | some ex =>
      obtain ⟨d, same⟩ := input ex
      obtain ⟨own, row⟩ := tells ex rfl
      have changed : K.Row (change ex) := same ▸ row.keep rfl rfl rfl
      exact callsFor_bind (updateExecution_calls changed).for_all fun _ _ => callsFor_ret
        ⟨(congrArg Execution.executionId same).trans own, changed⟩

section
variable {engine : ExecutionEngine} {plan : ExecutionPlan}

theorem drawsId : K.CallsFor M.uuid4 (fun id => ∀ kind, kind ≠ .toolCall → K (.slot kind id)) :=
  perform_callsFor .uuid4 Known.covers_nil

theorem createPlan_covers {plannerMeta : Dict} : K.CallsFor (createPlan plannerMeta ex now)
    (fun plan => K (.slot .plan plan.planId) ∧ plan.references =
      [.row .execution ex.executionId]) := by
  unfold createPlan planWorkflow
  refine callsFor_bind drawsId fun planId slot => wp_ite (fun _ => ?_) fun _ => wp_ite
    (fun _ => ?_) fun _ => ?_
  · exact callsFor_bind drawsId fun _ _ => callsFor_bind drawsId fun _ _ =>
      callsFor_bind drawsId fun _ _ => callsFor_ret ⟨slot _ (by decide), rfl⟩
  · exact callsFor_bind drawsId fun _ _ => callsFor_bind drawsId fun _ _ =>
      callsFor_bind drawsId fun _ _ => callsFor_bind drawsId fun _ _ => callsFor_ret
        ⟨slot _ (by decide), rfl⟩
  · exact callsFor_bind drawsId fun _ _ => callsFor_bind drawsId fun _ _ => callsFor_ret
      ⟨slot _ (by decide), rfl⟩

theorem keyToId_covers {specs : List StepSpec} : K.CallsFor (keyToId specs)
    (fun ids => ∀ e ∈ ids, K (.slot .step e.2)) := by
  induction specs with
  | nil => exact callsFor_ret fun _ no => absurd no List.not_mem_nil
  | cons spec rest ih =>
      exact callsFor_bind drawsId fun _ slot => callsFor_bind ih fun _ slots =>
        callsFor_ret (List.forall_mem_cons.mpr ⟨slot _ (by decide), slots⟩)

theorem buildSteps_covers {ids : List (String × UUID)} {specs : List StepSpec}
    (slots : ∀ e ∈ ids, K (.slot .step e.2)) :
    K.CallsFor (engine.buildSteps plan ex now ids specs)
    (fun steps => ∀ s ∈ steps, K (.slot .step s.stepId) ∧
      s.references = [.row .execution ex.executionId, .row .plan plan.planId]) := by
  induction specs with
  | nil => exact callsFor_ret fun _ no => absurd no List.not_mem_nil
  | cons spec rest ih =>
      unfold buildSteps
      split
      · next chosen _ =>
          exact callsFor_bind ih fun steps named =>
            callsFor_ret (List.forall_mem_cons.mpr
              ⟨⟨slots _ (Course.idOfKey_mem chosen), rfl⟩, named⟩)
      · exact callsFor_raise _

theorem saveSteps_covers {steps : List Step}
    (named : ∀ s ∈ steps, K.Covers (Op.saveStep s).requires) :
    K.Calls (saveSteps steps) := by
  induction steps with
  | nil => exact calls_ret _
  | cons s rest ih =>
      obtain ⟨first, others⟩ := List.forall_mem_cons.mp named
      exact calls_bind (perform_calls (.saveStep s) first) fun _ => ih others

theorem enterPlanning_covers (row : K.Row ex) : K.CallsFor (enterPlanning ex now) K.Row := by
  refine wp_ite (fun _ => ?_) fun _ => callsFor_ret row
  exact callsFor_bind calls_ofExcept.for_all fun _ _ => writes_back (row.keep rfl rfl rfl)

/-- The plan is stored before the steps that name it, and both before the row that does. -/
theorem enterExecuting_covers (row : K.Row ex) : K.Calls (engine.enterExecuting ex now) := by
  refine calls_ite (fun _ => ?_) fun _ => calls_ret _
  refine calls_then createPlan_covers fun plan created => ?_
  obtain ⟨slot, own⟩ := created
  have planned : K.Covers (Op.savePlan plan).requires :=
    Known.covers_cons.mpr ⟨slot, own.symm ▸ Known.covers_one row.stored⟩
  refine calls_then (perform_callsFor (.savePlan plan) planned) fun _ stored => ?_
  refine calls_then (callsFor_bind keyToId_covers fun _ slots => buildSteps_covers slots)
    fun steps own => ?_
  have stepped (s : Step) (member : s ∈ steps) : K.Covers (Op.saveStep s).requires := by
    obtain ⟨slot, same⟩ := own s member
    refine Known.covers_cons.mpr ⟨slot, ?_⟩
    rw [same]
    exact Known.covers_cons.mpr ⟨row.stored, Known.covers_one stored⟩
  refine calls_bind (saveSteps_covers stepped) fun _ =>
    calls_bind calls_ofExcept fun _ => updateExecution_calls ⟨row.stored, row.slot, row.visible, ?_⟩
  have named := row.named
  simp only [Execution.references, Known.covers_append, Known.covers_cons,
    Known.covers_nullable] at named ⊢
  refine ⟨⟨named.1.1, ?_⟩, named.2⟩
  rintro _ same
  exact Option.some.inj same ▸ stored

theorem governedResult_plain {base changes : Dict} {proposal : ActionProposal}
    {decision : PolicyDecision} {status : String} (plain : base.get? "governance" = none)
    (kept : changes.get? "governance" = none) :
    (governedResult base changes proposal decision status).get? "governance" = none := by
  unfold governedResult
  rw [Dict.get?_merge_of_absent (by simp [kept]), plain]

/-- The summary of the steps has no governance block. -/
theorem buildCompletionResult_covers {steps : List Step} (known : ∀ s ∈ steps, K.StepRow s) :
    K.CallsFor (buildCompletionResult ex steps) (fun base => base.get? "governance" = none) := by
  have named : Interaction.CallsFor (fun _ : Op => True) (fun _ _ => True) (namedOutputs steps)
    (fun _ => True) := by
    refine Built.callsFor ?_ (@namedOutputs_readsOf (fun _ => True) steps fun _ _ => trivial)
    rintro β p R ⟨_, _⟩
    exact (calls_perform trivial).for_all
  refine (readsOf_calls (fun _ => id) (buildCompletionResult_readsOf steps
    (fun s member => (known s member).stored) ex)).returns ?_
  refine wp_ite (fun _ => ?_) fun _ => wp_ite (fun _ => ?_) fun _ => ?_
  · exact callsFor_bind named fun _ _ => callsFor_ret (by simp)
  · exact callsFor_bind named fun _ _ => callsFor_ret (by simp)
  · exact callsFor_ret (by simp)

theorem validationSummary_covers {steps : List Step} (known : ∀ s ∈ steps, K.StepRow s) :
    K.Calls (validationSummaryFromSteps steps) :=
  readsOf_calls (fun _ => id) (validationSummaryFromSteps_readsOf steps fun s member =>
    (known s member).stored)

theorem applyPolicyDecision_covers {proposal : ActionProposal} {evaluationId : UUID}
    {decision : PolicyDecision} {summary base : Dict} (row : K.Row ex)
    (plain : base.get? "governance" = none)
    (named : K.Covers (Op.saveActionProposal proposal).requires)
    (proposed : K (.row .proposal proposal.proposalId))
    (evaluated : K (.row .evaluation evaluationId)) :
    K.CallsFor (applyPolicyDecision ex proposal evaluationId decision summary base now) K.Row := by
  cases decision with
  | deny =>
      refine callsFor_bind (calls_perform named).for_all fun _ _ => callsFor_bind
        calls_ofExcept.for_all fun _ _ =>
        callsFor_ret (row.conclude fun next result => covers_ungoverned ?_)
      rw [result]
      exact governedResult_plain plain (by simp [failedOutcome])
  | allow =>
      refine callsFor_bind (calls_perform named).for_all fun _ _ => callsFor_bind
        calls_ofExcept.for_all fun _ _ =>
        callsFor_ret (row.conclude fun next result => covers_ungoverned ?_)
      rw [result]
      exact governedResult_plain plain (by simp)
  | conditional =>
      refine callsFor_bind (calls_perform named).for_all fun _ _ => callsFor_bind
        calls_ofExcept.for_all fun _ _ =>
        callsFor_ret (row.conclude fun next result => ?_)
      simp only [Execution.governed, governanceIds_governed result, Known.covers_cons,
        Known.covers_nil, and_true]
      exact ⟨proposed, evaluated⟩

theorem stepByPlannerName_known {steps : List Step} {name : String}
    (known : ∀ s ∈ steps, K.StepRow s) :
    ∀ i, (stepByPlannerName steps name).map Step.stepId = some i → K (.row .step i) := by
  intro i found
  obtain ⟨s, chosen, rfl⟩ := Option.map_eq_some_iff.mp found
  exact (known s (List.mem_of_find?_eq_some chosen)).stored

/-- The proposal and the evaluation are stored before the row that names them in its result. -/
theorem finalize_covers {steps : List Step} (row : K.Row ex) (known : ∀ s ∈ steps, K.StepRow s) :
    K.CallsFor (finalizeIncidentTriageGovernance ex steps now) K.Row := by
  have context : K (.row .context ex.executionContextId) := (Known.covers_cons.mp row.named).1
  refine callsFor_bind (perform_callsFor (.getContext _) (Known.covers_one context))
    fun found tells => ?_
  cases found with
  | none => exact callsFor_raise _
  | some ctx =>
      obtain ⟨same, _⟩ := tells ctx rfl
      refine callsFor_bind (validationSummary_covers known).for_all fun summary _ =>
        callsFor_bind (buildCompletionResult_covers known) fun base plain =>
        callsFor_bind (readsOf_calls (fun _ => id) (stepOutputByName_readsOf steps
          (fun s member => (known s member).stored) _)).for_all
          fun out _ => callsFor_bind drawsId fun proposalId slot => ?_
      have named : K.Covers (Op.saveActionProposal (escalationProposal ex proposalId
        (stepByPlannerName steps "validate_incident")
          out now)).requires := by
        simp only [Op.requires, ActionProposal.references, escalationProposal, Known.covers_cons,
          Known.covers_nullable]
        exact ⟨slot _ (by decide), row.stored, stepByPlannerName_known known⟩
      refine callsFor_bind (perform_callsFor (.saveActionProposal _) named) fun _ proposed =>
        callsFor_bind (perform_callsFor (.evaluateProposal _ _) Known.covers_nil) fun draft _ =>
        callsFor_bind drawsId fun evaluationId free => ?_
      have evaluated :
        K.Covers (Op.savePolicyEvaluation (policyEvaluationOf ex ctx evaluationId draft
          (escalationProposal ex proposalId (stepByPlannerName steps "validate_incident") out now)
            now)).requires := by
        simp only [Op.requires, PolicyEvaluation.references, policyEvaluationOf, Known.covers_cons,
          Known.covers_nil, and_true]
        exact ⟨free _ (by decide), row.stored, same ▸ context⟩
      refine callsFor_bind (perform_callsFor (.savePolicyEvaluation _) evaluated) fun _ stored => ?_
      exact applyPolicyDecision_covers (row.keep rfl rfl rfl) plain named proposed stored

theorem stuck_covers {steps : List Step} : K.Calls (stuck steps) :=
  calls_ite (fun _ => calls_raise _) fun _ => calls_raise _

theorem completeRun_covers {steps : List Step} (row : K.Row ex) (known : ∀ s ∈ steps, K.StepRow s) :
    K.Calls (completeRun ex steps) := by
  refine calls_ite (fun _ => calls_bind (perform_calls .now Known.covers_nil) fun now => ?_)
    fun _ => stuck_covers
  refine calls_ite (fun _ => calls_ite (fun _ => ?_) fun _ => ?_) fun _ => calls_ite
    (fun _ => calls_raise _) fun _ =>
    stuck_covers
  · exact calls_then (finalize_covers row known) fun next row => (writes_back row).calls
  · refine calls_bind calls_ofExcept fun _ => calls_bind (validationSummary_covers known) fun _ =>
      calls_then (buildCompletionResult_covers known) fun base plain =>
        (writes_back (row.conclude fun next result => ?_)).calls
    exact covers_ungoverned (result ▸ plain)

theorem resolvePlan_covers (row : K.Row ex) : K.Calls (resolvePlan ex) := by
  unfold resolvePlan
  cases same : ex.currentPlanId with
  | none => exact calls_ret _
  | some planId =>
      refine perform_calls (.getPlan planId) (Known.covers_one ?_)
      have named := row.named
      simp only [Execution.references, Known.covers_append, Known.covers_cons,
        Known.covers_nullable] at named
      exact named.1.2 planId same

theorem maybeEnterValidating_covers {steps : List Step} (row : K.Row ex) :
    K.CallsFor (maybeEnterValidating ex steps now) K.Row :=
  wp_ite (fun _ => callsFor_bind calls_ofExcept.for_all fun _ _ => callsFor_ret
    (row.keep rfl rfl rfl))
    fun _ => callsFor_ret row

theorem runLoop_covers {id : UUID} (visible : K (.visible id)) (fuel : Nat) : K.Calls
    (engine.runLoop id fuel) := by
  induction fuel with
  | zero => exact calls_halt
  | succ fuel ih =>
      refine calls_then (getExecution_callsFor visible) fun found tells => ?_
      cases found with
      | none => exact calls_raise _
      | some ex =>
          obtain ⟨_, row⟩ := tells ex rfl
          refine calls_ite (fun _ => calls_bind (perform_calls .now Known.covers_nil) fun _ =>
            cancelExecution_covers visible) fun _ =>
            calls_ite (fun _ => calls_ret _) fun _ => calls_ite (fun _ => calls_ret _) fun _ =>
            calls_bind (listSteps_callsFor visible).calls fun steps => calls_bind
              (resolvePlan_covers row) fun plan => ?_
          cases plan with
          | none => exact calls_raise _
          | some plan =>
              refine calls_bind (perform_calls .now Known.covers_nil) fun now => calls_then
                (maybeEnterValidating_covers row)
                fun ex row => calls_bind (updateExecution_calls row) fun _ => calls_then
                  (getExecution_callsFor visible) fun found tells => ?_
              cases found with
              | none => exact calls_raise _
              | some ex =>
                  obtain ⟨_, row⟩ := tells ex rfl
                  refine calls_ite (fun _ => calls_ret _) fun _ => calls_then
                    (listSteps_callsFor visible) fun steps known => ?_
                  cases chosen : nextPendingReady (stepsInPlanOrder steps plan) steps with
                  | some step =>
                      exact calls_bind (runStep_covers (known step (nextPendingReady_mem chosen).1))
                        fun _ => ih
                  | none => exact completeRun_covers row known

theorem startExecution_covers {id : UUID} {fuel : Nat} (visible : K (.visible id)) :
    K.Calls (engine.startExecution fuel id) := by
  refine calls_tryCatch ?_ fun _ => calls_ite (fun _ => failExecution_covers visible)
    fun _ => calls_raise _
  refine calls_then (getExecution_callsFor visible) fun found tells => ?_
  cases found with
  | none => exact calls_raise _
  | some ex =>
      obtain ⟨_, row⟩ := tells ex rfl
      exact calls_bind (perform_calls .now Known.covers_nil) fun now => calls_ite
        (fun _ => calls_ret _) fun _ =>
        calls_then (enterPlanning_covers row) fun ex row => calls_bind
          (enterExecuting_covers row) fun _ =>
        runLoop_covers visible fuel

end

theorem enqueueExecution_covers {id : UUID} (visible : K (.visible id)) : K.Calls
    (enqueueExecution id) := by
  refine calls_bind (perform_calls .now Known.covers_nil) fun ts => calls_then
    (rewriteExecution_covers visible fun row => applyRuntimeMeta_eq row _) fun ex rewritten => ?_
  obtain ⟨same, row⟩ := rewritten
  have queued : K.Covers (Op.enqueue id ts).requires :=
    Known.covers_cons.mpr ⟨same ▸ row.stored, Known.covers_one visible⟩
  exact calls_bind (perform_calls (.enqueue id ts) queued) fun _ => calls_ret _

theorem recordWorkerStarted_covers {id : UUID} {workerId : String} {given : Option Time}
    (visible : K (.visible id)) :
    K.Calls (recordWorkerStarted id workerId given) := by
  unfold recordWorkerStarted
  cases given with
  | some ts => exact (rewriteExecution_covers visible fun row => applyRuntimeMeta_eq row _).calls
  | none =>
      exact calls_bind (perform_calls .now Known.covers_nil) fun ts =>
        (rewriteExecution_covers visible fun row => applyRuntimeMeta_eq row _).calls

theorem requestCancellation_covers {id : UUID} {reason : String} (visible : K (.visible id)) :
    K.Calls (requestCancellation id reason) :=
  calls_bind (perform_calls .now Known.covers_nil) fun ts =>
    calls_bind (rewriteExecution_covers visible fun row => requestCancellationMeta_eq row ts
      reason).calls fun _ =>
    calls_ite (fun _ => calls_ret _) fun _ => cancelExecution_covers visible

theorem applyApprovalDecision_covers {proposal : ActionProposal} {decision : ApprovalDecision}
    {summary base : Dict} (row : K.Row ex) (plain : base.get? "governance" = none)
    (named : K.Covers (Op.saveActionProposal proposal).requires) :
    K.Calls (applyApprovalDecision ex proposal decision summary base now) := by
  refine calls_ite (fun _ => ?_) fun _ => ?_
  · refine calls_bind (perform_calls (.saveActionProposal _) named) fun _ => calls_bind
      calls_ofExcept fun _ =>
      (writes_back (row.conclude fun next result => covers_ungoverned ?_)).calls
    rw [result]
    exact governedResult_plain plain (by simp [failedOutcome])
  · refine calls_bind (perform_calls (.saveActionProposal _) named) fun _ => calls_bind
      calls_ofExcept fun _ =>
      (writes_back (row.conclude fun next result => covers_ungoverned ?_)).calls
    rw [result]
    exact governedResult_plain plain (by simp)

/-- The approval names what the governance block of its execution names. -/
theorem submitApproval_covers {id : UUID} {approver : String} {decision : ApprovalDecision}
    {notes : Option String} (visible : K (.visible id)) : K.Calls
      (submitApproval id approver decision notes) := by
  refine calls_bind (perform_calls .now Known.covers_nil) fun ts => calls_then
    (getExecution_callsFor visible) fun found tells => ?_
  cases found with
  | none => exact calls_raise _
  | some ex =>
      obtain ⟨_, row⟩ := tells ex rfl
      refine calls_ite (fun _ => calls_raise _) fun _ => ?_
      cases ids : governanceIds ex with
      | error e => exact calls_raise _
      | ok pair =>
          obtain ⟨proposalId, evaluationId⟩ := pair
          have governed : K.Covers [.row .proposal proposalId, .row .evaluation evaluationId] := by
            have governed := (Known.covers_append.mp row.named).2
            rwa [Execution.governed, ids] at governed
          simp only [Known.covers_cons, Known.covers_nil, and_true] at governed
          refine calls_ite (fun _ => calls_raise _) fun _ => calls_then drawsId
            fun approvalId slot => ?_
          have named : K.Covers (Op.saveApproval (approvalOf ex.executionId approvalId proposalId
            evaluationId approver
              decision notes ts)).requires := by
            simp only [Op.requires, Approval.references, approvalOf, Known.covers_append,
              Known.covers_cons, Known.covers_nullable]
            exact ⟨slot _ (by decide), ⟨row.stored, fun _ same => Option.some.inj
              same ▸ governed.2⟩, fun _ same => Option.some.inj same ▸ governed.1⟩
          refine calls_bind (perform_calls (.saveApproval _) named) fun _ =>
            calls_then (perform_callsFor (.getActionProposal proposalId)
              (Known.covers_one governed.1)) fun found tells => ?_
          cases found with
          | none => exact calls_raise _
          | some proposal =>
              obtain ⟨same, written, referring⟩ := tells proposal rfl
              exact calls_then (listSteps_callsFor visible) fun steps known => calls_bind
                (validationSummary_covers known) fun _ =>
                calls_then (buildCompletionResult_covers known) fun base plain =>
                applyApprovalDecision_covers (row.keep rfl rfl rfl) plain
                  (Known.covers_cons.mpr ⟨same ▸ written, referring⟩)

/-- The tenant of a new execution may have one, and its parent is known, if it has one. -/
structure Known.Creates (K : Known) (request : NewExecution) : Prop where
  tenant : K (.tenant request.tenantId)
  parent : ∀ parent, request.parentExecutionId = some parent → K (.row .execution parent)

/-- The context is stored before the execution that names it. -/
theorem createExecution_covers {request : NewExecution} (creates : K.Creates request) :
    K.CallsFor (createExecution request now) (fun ex => K.Row ex ∧ ex.result = none) := by
  refine callsFor_bind drawsId fun contextId free => callsFor_bind drawsId fun executionId slot =>
    callsFor_bind (perform_callsFor (.saveContext _) (Known.covers_cons.mpr
      ⟨free _ (by decide), Known.covers_one creates.tenant⟩)) fun _ stored => ?_
  have named : K.Covers ((executionOf request executionId contextId now).references ++
      (executionOf request executionId contextId now).governed) := by
    refine Known.covers_append.mpr ⟨?_, covers_ungoverned rfl⟩
    simp only [Execution.references, executionOf, Known.covers_append, Known.covers_cons,
      Known.covers_nullable]
    exact ⟨⟨stored, creates.parent⟩, fun _ no => by cases no⟩
  refine callsFor_bind (perform_callsFor (.saveExecution _)
    (Known.covers_cons.mpr ⟨slot _ (by decide), named⟩)) fun _ saved => ?_
  obtain ⟨stored, visible⟩ := saved
  exact callsFor_ret ⟨⟨stored, slot _ (by decide), visible, named⟩, rfl⟩

section
variable {engine : ExecutionEngine} {fuel : Nat}

theorem createReplay_covers {request : ReplayRequest}
    (visible : K (.visible request.sourceExecutionId)) :
    K.Calls (engine.createReplay fuel request) := by
  refine calls_bind (perform_calls .now Known.covers_nil) fun ts => calls_then
    (getExecution_callsFor visible) fun found tells => ?_
  cases found with
  | none => exact calls_raise _
  | some source =>
      obtain ⟨same, row⟩ := tells source rfl
      have context : K (.row .context source.executionContextId) :=
        (Known.covers_cons.mp row.named).1
      refine calls_then (perform_callsFor (.getContext _) (Known.covers_one context))
        fun found tells => ?_
      cases found with
      | none => exact calls_raise _
      | some ctx =>
          have made : K.CallsFor (createReplayChild request source ctx ts)
            (fun pair => K (.visible pair.1.executionId)) := by
            refine callsFor_bind calls_ofExcept.for_all fun _ _ => callsFor_bind
              calls_ofExcept.for_all fun input _ =>
              callsFor_bind (createExecution_covers ⟨(tells ctx rfl).2, ?_⟩) fun child created =>
              callsFor_bind (updateExecution_calls ?_).for_all fun _ _ => callsFor_ret
                created.1.visible
            · rintro parent known
              exact Option.some.inj known ▸ same ▸ row.stored
            · exact created.1.keep rfl rfl rfl
          have answered (child : Execution) (provenance : ReplayProvenance) :
              K.Calls (replayCreated request source child provenance) :=
            calls_bind (getExecution_callsFor visible).calls fun _ => calls_ite
              (fun _ => calls_raise _) fun _ => calls_ret _
          refine calls_then made fun pair started => ?_
          exact calls_ite (fun _ => calls_bind (startExecution_covers started) fun _ => answered _
            _) fun _ => answered _ _

theorem runOnce_covers {workerId : String} : K.Calls (engine.runOnce fuel workerId) := by
  refine calls_then (perform_callsFor .dequeue Known.covers_nil) fun item tells => ?_
  cases item with
  | none => exact calls_ret _
  | some item =>
      have visible := tells item rfl
      refine calls_bind (perform_calls .now Known.covers_nil) fun now => calls_bind
        (getExecution_callsFor visible).calls fun found => ?_
      cases found with
      | none => exact calls_ret _
      | some _ =>
          exact calls_bind (recordWorkerStarted_covers visible) fun _ => calls_bind
            (perform_calls .now Known.covers_nil) fun _ =>
            calls_bind (startExecution_covers visible) fun _ => calls_bind
              (perform_calls .now Known.covers_nil) fun _ =>
            calls_bind (getExecution_callsFor visible).calls fun _ => calls_ret _

/-- The execution that a party acts on. -/
def Party.executionId : Party → UUID
  | .startExecution id | .enqueueExecution id | .recordWorkerStarted id _ _
  | .requestCancellation id _
  | .submitApproval id _ _ _ | .failExecution id _ => id

theorem Party.covers {party : Party} (visible : K (.visible party.executionId)) : K.Calls
    (party.program engine fuel) := by
  have discarded {β : Type} {p : M β} (made : K.Calls p) : K.Calls p.discard :=
    calls_bind made fun _ => calls_ret _
  cases party with
  | startExecution id => exact discarded (startExecution_covers visible)
  | enqueueExecution id => exact discarded (enqueueExecution_covers visible)
  | recordWorkerStarted id workerId given => exact discarded (recordWorkerStarted_covers visible)
  | requestCancellation id reason => exact discarded (requestCancellation_covers visible)
  | submitApproval id approver decision notes => exact discarded (submitApproval_covers visible)
  | failExecution id reason => exact discarded (failExecution_covers visible)

/-- The call may be made with what is known. -/
def Call.Permitted (K : Known) : Call → Prop
  | .createExecution request _ => K.Creates request
  | .createReplay request => K (.visible request.sourceExecutionId)
  | .runOnce _ => True
  | .party p => K (.visible p.executionId)

theorem Call.covers {call : Call} (permitted : call.Permitted K) : K.Calls
    (call.program engine fuel) := by
  cases call with
  | createExecution request ts =>
      exact calls_bind (createExecution_covers permitted).calls fun _ => calls_ret _
  | createReplay request => exact calls_bind (createReplay_covers permitted) fun _ => calls_ret _
  | runOnce workerId => exact calls_bind runOnce_covers fun _ => calls_ret _
  | party party => exact Party.covers permitted

theorem session_covers {calls : List Call} (permitted : ∀ call ∈ calls, call.Permitted K) :
    K.Calls (session engine fuel calls) := by
  refine calls_inTurn fun p member => ?_
  obtain ⟨call, made, rfl⟩ := List.mem_map.mp member
  exact Call.covers (permitted call made)

end
end

namespace ToolExecutor
variable {H : Type} {executor : ToolExecutor H} {request : ToolInvokeRequest} {now : Time}

theorem buildCall_echoes {tcid : UUID} {sideEffectClass : ToolSideEffectClass}
    {idempotency : ToolIdempotency} {status : ToolCallStatus} {output error : Option Dict}
    {latencyMs : Nat} :
    (buildCall tcid request now sideEffectClass idempotency status output latencyMs error).Echoes
      request :=
  ⟨rfl, rfl, rfl, rfl⟩

/-- What the executor asks of its surroundings says nothing of the row. -/
abbrev RowsFor (request : ToolInvokeRequest) (p : ToolM H ToolCall) : Prop :=
  Interaction.CallsFor (fun _ => True) (fun _ _ => True) p (fun tc => tc.Echoes request)

theorem tool_callsFor {β : Type} {p : ToolM H β} : Interaction.CallsFor (fun _ => True)
    (fun _ _ => True) p (fun _ => True) := by
  refine Calls.for_all ?_
  unfold Calls
  induction p with
  | ret a => trivial
  | raise e => trivial
  | halt => trivial
  | call op k ih => exact ⟨trivial, fun r t _ => ih r⟩

section
variable {tcid : UUID} {tool : RegisteredTool} {handler : H} {started : Nat}

theorem exhausted_echoes {lastExc : Option ToolError} :
    RowsFor (H := H) request (exhausted tcid request now tool started lastExc) :=
  callsFor_bind tool_callsFor fun _ _ => callsFor_bind tool_callsFor fun _ _ => callsFor_ret
    buildCall_echoes

theorem invalidAttempt_echoes {attempt : Nat} {exc : ToolError} :
    RowsFor (H := H) request (invalidAttempt tcid request now tool started attempt exc) :=
  callsFor_bind tool_callsFor fun _ _ => callsFor_bind tool_callsFor fun _ _ => callsFor_ret
    buildCall_echoes

theorem attempts_echoes (remaining : Nat) {attempt : Nat} {lastExc : Option ToolError} :
    RowsFor request
      (executor.attempts tcid request now tool handler started attempt remaining lastExc) := by
  induction remaining generalizing attempt lastExc with
  | zero => exact exhausted_echoes
  | succ remaining ih =>
      refine callsFor_bind tool_callsFor fun stop _ => wp_ite
        (fun _ => callsFor_bind tool_callsFor fun _ _ => callsFor_ret buildCall_echoes)
        fun _ => callsFor_bind tool_callsFor fun answer _ => ?_
      cases answer with
      | error exc =>
          exact wp_ite (fun _ => invalidAttempt_echoes) fun _ => callsFor_bind
            tool_callsFor fun _ _ =>
            wp_ite (fun _ => exhausted_echoes) fun _ => callsFor_bind tool_callsFor fun _ _ => ih
      | ok returned =>
          cases returned with
          | other => exact invalidAttempt_echoes
          | dict entries =>
              refine callsFor_bind tool_callsFor fun _ _ => ?_
              cases (Returned.dict entries).output with
              | some out => exact callsFor_ret buildCall_echoes
              | none => exact exhausted_echoes

end

theorem execute_echoes : RowsFor request (executor.execute request now) := by
  refine callsFor_bind tool_callsFor fun tcid _ => wp_ite (fun _ => callsFor_ret buildCall_echoes)
    fun _ => ?_
  cases executor.registry.get request.toolName with
  | none => exact callsFor_ret buildCall_echoes
  | some entry =>
      refine callsFor_bind tool_callsFor fun stop _ => wp_ite
        (fun _ => callsFor_ret buildCall_echoes) fun _ => ?_
      cases validateInput request with
      | error exc => exact callsFor_bind tool_callsFor fun _ _ => callsFor_ret buildCall_echoes
      | ok _ => exact callsFor_bind tool_callsFor fun _ _ => attempts_echoes _

end ToolExecutor

/-- The rows of a tool service are about what it was asked. -/
theorem ToolService.echoes {H : Type} (service : ToolService H) {n : Nat}
    {request : ToolInvokeRequest} {now : Time} {tc : ToolCall}
    (answer : service.invoke n request now = .ok tc) : tc.Echoes request := by
  have returned := ToolService.invoke_eq_ok.mp answer
  obtain ⟨_, _, echoes⟩ := run_of_wp (R := fun _ _ => True) (h := (service.surroundings n).handle)
    (fun _ _ _ _ _ _ _ _ _ => ⟨(), fun _ _ => trivial, trivial⟩) trivial
      (ToolExecutor.execute_echoes)
  exact echoes tc returned

/-- Any number of clients with calls of their own over one platform. -/
def serving {ι : Type} (engine : ExecutionEngine) (fuel : Nat) (calls : ι → List Call) (w : World) :
    Sys platform Exn World Unit ι where
  shared := w
  threads := fun i => session engine fuel (calls i)
  ghost := fun _ => ()

/-- A new execution names a parent that exists, if it names one. -/
def Call.Rooted (w : World) : Call → Prop
  | .createExecution request _ => ∀ parent, request.parentExecutionId = some parent →
    (w.execution parent).isSome = true
  | _ => True

theorem Call.Rooted.permitted {w : World} {call : Call} (rooted : call.Rooted w) :
    call.Permitted w.known := by
  cases call with
  | createExecution request ts => exact ⟨trivial, rooted⟩
  | createReplay request => trivial
  | runOnce workerId => trivial
  | party party => trivial

theorem Call.Permitted.mono {K L : Known} {call : Call} (permitted : call.Permitted K)
    (le : K ≤ L) : call.Permitted L := by
  cases call with
  | createExecution request ts =>
      exact ⟨le _ permitted.tenant, fun parent same => le _ (permitted.parent parent same)⟩
  | createReplay request => exact le _ permitted
  | runOnce workerId => trivial
  | party party => exact le _ permitted

/-- However the calls of any number of clients interleave, every row of the store and every item of
the queue names rows of the store, an execution in the governance block of its result too, and so
does every row that is about to be written. -/
theorem references_resolve {H ι : Type} [DecidableEq ι] (env : Env) (service : ToolService H)
    (engine : ExecutionEngine) (fuel : Nat) (calls : ι → List Call) {w : World}
    (within : w.Within w.known) (rooted : ∀ i, ∀ call ∈ calls i, call.Rooted w)
    {d : Sys platform Exn World Unit ι}
    (reach : Sys.Reaches (handle (env.withTools service)) (fun _ _ _ => ()) (fun _ _ _ => True)
      (serving engine fuel calls w) d) :
    d.shared.Within d.shared.known ∧ ∀ i op, d.pending i = some op →
      d.shared.known.Covers op.requires := by
  have informed (i : ι) : Informed World.known (fun (K : Known) (op : Op) => K.Covers op.requires)
    Known.Tells w
      (session engine fuel (calls i)) :=
    fun K above => session_covers fun call member => (rooted i call member).permitted.mono above
  obtain ⟨within, informed⟩ := Sys.Reaches.informed (known_rules fun _ _ _ _ => service.echoes)
    informed within reach
  exact ⟨within, fun i op next => (informed i).pending next⟩

theorem init_within : World.init.Within World.init.known := by
  constructor <;> exact fun _ no => absurd no List.not_mem_nil

/-- A client that creates an execution, a worker, and one that replays it. -/
def replayedCalls : Fin 3 → List Call
  | 0 => [.createExecution costRequest 0, .party (.enqueueExecution ⟨1⟩)]
  | 1 => [.runOnce "w1"]
  | 2 => [.createReplay exactReplay]

theorem references_resolve_replayed :
    let d := (serving (.default .flat) 10 replayedCalls .init).fires (handle toolEnv)
      (fun _ _ _ => ()) (List.replicate 8 0 ++ List.replicate 60 1 ++ List.replicate 9 2)
    d.shared.Within d.shared.known ∧
      ∀ i op, d.pending i = some op → d.shared.known.Covers op.requires := by
  refine references_resolve (.answering .allow "passed") workingTools _ _ _ init_within ?_
    (Sys.Reaches.refl.fires _)
  intro i call member
  match i with
  | 0 =>
      rcases List.mem_cons.mp member with rfl | member
      · exact fun _ no => by cases no
      · obtain rfl := List.mem_singleton.mp member
        trivial
  | 1 =>
      obtain rfl := List.mem_singleton.mp member
      trivial
  | 2 =>
      obtain rfl := List.mem_singleton.mp member
      trivial

end AgenticPlatform
