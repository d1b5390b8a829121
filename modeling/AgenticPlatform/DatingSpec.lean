import AgenticPlatform.Dating
import AgenticPlatform.Sessions

/-! Every program of the platform dates the rows that it appends by one of its own readings of the
clock: those of a step by the reading of its iteration. -/
namespace AgenticPlatform
open Interaction ExecutionEngine

section
variable {text : Rendering} {step : Step} {now ts : Time}

theorem shortDigest_dates {s : String} {n : Nat} : Dates now (shortDigest s n) :=
  dates_bind (dates_other rfl) fun _ => dates_ret _

theorem result_dates {output : Dict} {evidence : List Dict} {confidence : Confidence}
    {detail : Dict} {outcome : Option ValidationOutcome} : Dates now (do
      let rid ← M.uuid4
      pure (fullResult rid step ts output evidence confidence detail outcome)) :=
  dates_bind (dates_other rfl) fun _ => dates_ret _

theorem executeGenericStep_dates : Dates now (executeGenericStep text step ts) :=
  dates_bind shortDigest_dates fun _ => result_dates

theorem executeStep_dates : Dates now (executeStep text step) := by
  refine dates_ite (fun _ => dates_raise _) fun _ => dates_bind dates_now fun ts => ?_
  split
  · exact dates_ite (fun _ => dates_bind shortDigest_dates fun _ => dates_bind shortDigest_dates
      fun _ => result_dates)
      fun _ => dates_ite (fun _ => dates_bind shortDigest_dates fun _ => dates_bind
        shortDigest_dates fun _ => result_dates)
        fun _ => executeGenericStep_dates
  · exact executeGenericStep_dates

theorem modelReasoning_dates {path task : String} {provider errorClass errorMessage : Option String}
    {invocation : Option Dict} :
    Dates now
      (traceModelReasoning step path task now provider errorClass errorMessage invocation) := by
  refine dates_trace (dateable_one (by decide) ?_ ?_)
  all_goals cases invocation <;> simp [modelReasoningDetail, optionalField_get?]

theorem priorOutputs_dates {steps : List Step} : Dates now (priorOutputs steps) := by
  induction steps with
  | nil => exact dates_ret _
  | cons s rest ih => exact dates_bind (dates_other rfl) fun _ => dates_bind ih fun _ => dates_ret _

variable {engine : ExecutionEngine}

theorem orFallback_dates {task : String} {body : M StepResult} (dates : Dates now body) :
    Dates now (engine.orFallback step now task body) :=
  dates_tryCatch dates fun _ => dates_bind modelReasoning_dates fun _ => executeStep_dates

theorem incidentModelReasoningStep_dates : Dates now
    (engine.incidentModelReasoningStep step now) := by
  refine dates_ite (fun _ => orFallback_dates ?_) fun _ => dates_ite (fun _ => orFallback_dates ?_)
    fun _ => executeStep_dates
  · exact dates_bind (dates_other rfl) fun _ => dates_bind modelReasoning_dates
      fun _ => result_dates
  · exact dates_bind (dates_other rfl) fun _ => dates_bind priorOutputs_dates fun _ => dates_bind
      (dates_other rfl) fun _ =>
      dates_bind modelReasoning_dates fun _ => result_dates

theorem costModelReasoningStep_dates : Dates now (engine.costModelReasoningStep step now) := by
  refine dates_ite (fun _ => orFallback_dates ?_) fun _ => dates_ite (fun _ => orFallback_dates ?_)
    fun _ => executeStep_dates
  · exact dates_bind (dates_other rfl) fun _ => dates_bind modelReasoning_dates
      fun _ => result_dates
  · exact dates_bind (dates_other rfl) fun _ => dates_bind priorOutputs_dates fun _ => dates_bind
      (dates_other rfl) fun _ =>
      dates_bind modelReasoning_dates fun _ => result_dates

theorem contextOfStep_dates : Dates now (contextOfStep step) := by
  refine dates_bind dates_get fun o => ?_
  cases o with
  | none => exact dates_raise _
  | some ex =>
      refine dates_bind (dates_other rfl) fun c => ?_
      cases c with
      | none => exact dates_raise _
      | some ctx => exact dates_ret _

theorem invokeTools_dates {ctx : ExecutionContext} {input extra : Dict} {names : List String}
    (absent : extra.get? "event_type" = none) (undated : extra.get? "at" = none) :
    Dates now (invokeTools step ctx input extra now names) := by
  induction names with
  | nil => exact dates_ret _
  | cons name rest ih =>
      refine dates_bind (dates_other rfl) fun tc => dates_bind (dates_other rfl) fun _ =>
        dates_bind (dates_trace (dateable_one (by decide) ?_ ?_)) fun _ => dates_bind ih
          fun _ => dates_ret _
      · simpa [toolCallCompleted] using absent
      · simpa [toolCallCompleted] using undated

theorem gatherEvidenceViaServices_dates : Dates now (engine.gatherEvidenceViaServices step now) :=
  dates_bind contextOfStep_dates fun _ => dates_bind (dates_other rfl) fun _ =>
    dates_bind (dates_trace (dateable_one (by decide) rfl rfl)) fun _ =>
    dates_bind (invokeTools_dates rfl rfl) fun _ => result_dates

theorem retrieveCostEvidenceViaServices_dates : Dates now
    (engine.retrieveCostEvidenceViaServices step now) :=
  dates_bind contextOfStep_dates fun _ => dates_bind (dates_other rfl) fun _ =>
    dates_bind (dates_trace (dateable_one (by decide) rfl rfl)) fun _ => result_dates

theorem correlateUsageViaTools_dates : Dates now (engine.correlateUsageViaTools step now) :=
  dates_bind contextOfStep_dates fun _ => dates_bind (invokeTools_dates rfl rfl)
    fun _ => result_dates

theorem stepWork_dates : Dates now (engine.stepWork step now) :=
  dates_ite
    (fun _ => dates_ite
      (fun _ => dates_ite (fun _ => retrieveCostEvidenceViaServices_dates) fun _ =>
        correlateUsageViaTools_dates)
      fun _ => gatherEvidenceViaServices_dates)
    fun _ => dates_ite
      (fun _ => dates_ite (fun _ => costModelReasoningStep_dates) fun _ =>
        incidentModelReasoningStep_dates)
      fun _ => executeStep_dates

theorem completionEvents_dateable {done : Step} {result : StepResult} :
    ∀ event ∈ completionEvents done result, event.Dateable := by
  intro event member
  rcases List.mem_cons.mp member with rfl | later
  · exact dateable_one (by decide) rfl rfl _ List.mem_cons_self
  · split at later
    · exact dateable_one (by decide) rfl rfl event later
    · cases later

/-- A whole step is dated by the reading of its iteration. -/
theorem runStep_dates : Dates now (engine.runStep step now) := by
  refine dates_bind (dates_other rfl) fun o => ?_
  cases o with
  | none => exact dates_raise _
  | some step =>
      exact dates_bind dates_ofExcept fun _ => dates_bind (dates_other rfl) fun _ =>
        dates_bind (dates_trace (dateable_one (by decide) rfl rfl)) fun _ => dates_bind
          stepWork_dates fun _ =>
        dates_bind (dates_other rfl) fun _ => dates_bind dates_ofExcept fun _ => dates_bind
          (dates_other rfl) fun _ =>
        dates_trace completionEvents_dateable

end

section
variable {α : Type} {p : M α} {R : α → Prop} {I : Pen → Prop} {s : Pen} {now : Time}

theorem Reads.pen (reads : Reads p) (hs : I s) : Interaction.wp penSem p
    (ends I (fun _ => I) (fun _ => True)) s := by
  refine Built.wp (M := penSem) ?_ (fun _ _ impossible => impossible.elim) reads s hs
  rintro β _ _ t ⟨stepId, _⟩ ht
  exact pen_other rfl ht

theorem Draws.pen (draws : Draws p R) (hs : I s) : Interaction.wp penSem p
    (ends I (fun _ => I) R) s := by
  refine Built.wp (M := penSem) ?_ (fun _ _ impossible => impossible.elim) draws s hs
  rintro β _ _ t ⟨⟩ ht
  exact pen_other rfl ht

theorem saveSteps_pen {steps : List Step} (hs : I s) :
    Interaction.wp penSem (saveSteps steps) (ends I (fun _ => I) (fun _ => True)) s := by
  induction steps generalizing s with
  | nil => exact ⟨trivial, hs⟩
  | cons st rest ih => exact wp_then (pen_other rfl hs) (fun _ _ _ ht => ih ht) fun _ _ ht => ht

theorem buildSteps_pen {engine : ExecutionEngine} {plan : ExecutionPlan} {ex : Execution}
    {ids : List (String × UUID)} {specs : List StepSpec} (hs : I s) :
    Interaction.wp penSem (engine.buildSteps plan ex now ids specs)
    (ends I (fun _ => I) (fun _ => True)) s := by
  induction specs generalizing s with
  | nil => exact ⟨trivial, hs⟩
  | cons spec rest ih =>
      unfold buildSteps
      split
      · exact wp_then (ih hs) (fun _ _ _ ht => ⟨trivial, ht⟩) fun _ _ ht => ht
      · exact hs

theorem resolvePlan_pen {ex : Execution} (hs : I s) :
    Interaction.wp penSem (resolvePlan ex) (ends I (fun _ => I) (fun _ => True)) s := by
  unfold resolvePlan
  cases ex.currentPlanId with
  | none => exact ⟨trivial, hs⟩
  | some planId => exact pen_other rfl hs

end

/-- The row that is to be written next is the one last seen, and rows may be dated by `now`. -/
structure Pen.Holds (s : Pen) (row : Execution) (now : Time) : Prop where
  seen : s.rows row.executionId = some row
  may : s.May now

section
variable {s : Pen} {row ex : Execution} {now ts : Time} {id : UUID} {engine : ExecutionEngine}
  {steps : List Step}

/-- A row that is held moves to a status. -/
theorem Pen.Holds.update (holds : s.Holds row now) (appended : Appended row ex)
    (stamped : ex.updatedAt = now) :
    wp penSem (M.updateExecution ex)
    (ends (fun t => t.Holds ex now) (fun _ t => t.May now) (fun _ => True)) s := by
  subst stamped
  refine wp_mono ?_ (pen_append (appended.executionId ▸ holds.seen) appended holds.may)
  intro o t ht
  cases o with
  | ret u => exact ⟨trivial, ht.2.2, ht.2.1⟩
  | raise e => exact ht
  | halt => exact ht

theorem enterStatus_appended {changed : Execution} {status : ExecutionStatus} {detail : Dict}
    (drafted : Drafted row changed now)
    (absent : detail.get? "event_type" = none ∧ detail.get? "status" = none ∧
      detail.get? "at" = none) :
    Appended row (enterStatus changed status detail now) :=
  drafted.announced absent rfl rfl rfl

theorem concludeExecution_appended {status : ExecutionStatus} {summary result : Dict}
    {events : List Event} (drafted : Drafted row ex now)
    (dateable : ∀ event ∈ events, event.Dateable) :
    Appended row (concludeExecution ex status summary result events now) ∧
      (concludeExecution ex status summary result events now).updatedAt = now := by
  have written : Drafted row (appendEvents ex events now) now := drafted.write dateable
  have absent : Dict.get? [] "event_type" = none ∧ Dict.get? [] "status" = none ∧
    Dict.get? [] "at" = none := ⟨rfl, rfl, rfl⟩
  refine ⟨written.announced absent ?_ rfl ?_, rfl⟩
  · simp [appendEvents_eq]
  · simp [concludeExecution, appendTimeline, appendEvents_eq]

theorem cancelExecution_pen {reason : String} (may : s.May ts) :
    wp penSem (cancelExecution id reason ts) (fun _ t => t.May ts) s := by
  unfold cancelExecution
  rw [wp_bind]
  refine wp_mono ?_ pen_get
  rintro _ t ⟨found, rfl, seen, keyed, _, still⟩
  have may := still ts may
  cases found with
  | none => exact may
  | some row =>
      obtain rfl := keyed row rfl
      obtain ⟨input, requested⟩ := requestCancellationMeta_eq row ts reason
      simp only [andThen_ret, requested]
      have rewritten : wp penSem (M.updateExecution { row with input := input } >>= fun _ =>
          pure { row with input := input }) (fun _ t => t.May ts) t :=
        wp_keeping (M := penSem) (I := fun t => Pen.May t ts)
          (wp_mono (fun _ _ kept => kept.2 ts may) (pen_input seen input)) fun _ _ ht => ht
      refine wp_ite (fun _ => rewritten) fun live => ?_
      split
      · exact rewritten
      · have drafted : Drafted row { row with
            input := input
            cancelledAt := some ts
            result := some [("outcome", .str "cancelled"), ("reason", .str reason)] } ts :=
          ⟨rfl, rfl, [], (List.append_nil _).symm, fun _ no => absurd no List.not_mem_nil⟩
        exact wp_then (Pen.Holds.update ⟨seen, may⟩ (enterStatus_appended drafted ⟨rfl, rfl, rfl⟩)
          rfl)
          (fun _ _ _ holds => holds.may) fun _ _ ht => ht

theorem failExecution_pen {reason : String} (current : s.Current) :
    wp penSem (failExecution id reason) (fun _ t => t.Current) s := by
  unfold failExecution
  rw [wp_bind]
  refine wp_mono ?_ pen_now
  rintro _ t ⟨ts, rfl, dated, _, _⟩
  rw [andThen_ret, wp_bind]
  refine wp_mono ?_ pen_get
  rintro _ u ⟨found, rfl, seen, keyed, _, still⟩
  have may := still ts (dated current)
  cases found with
  | none => exact may.current
  | some row =>
      obtain rfl := keyed row rfl
      refine wp_ite (fun _ => may.current) fun live => ?_
      split
      · exact may.current
      · have drafted : Drafted row { row with
            result := some [("outcome", .str "failed"), ("reason", .str reason)] } ts :=
          ⟨rfl, rfl, [], (List.append_nil _).symm, fun _ no => nomatch no⟩
        exact wp_then (Pen.Holds.update ⟨seen, may⟩ (enterStatus_appended drafted ⟨rfl, rfl, rfl⟩)
          rfl)
          (fun _ _ _ holds => holds.may.current) fun _ _ ht => ht.current

theorem ofExcept_pen {α : Type} {x : Except Exn α} {I : Pen → Prop} (hs : I s) :
    wp penSem (M.ofExcept x) (ends I (fun _ => I) (fun _ => True)) s := by
  cases x with
  | ok a => exact ⟨trivial, hs⟩
  | error e => exact hs

/-- A copy that has no rows of its own yet. -/
theorem Drafted.of_timeline (executionId : ex.executionId = row.executionId)
    (status : ex.status = row.status) (timeline : ex.traceTimeline = row.traceTimeline) :
    Drafted row ex now :=
  ⟨executionId, status, [], by rw [timeline, List.append_nil], fun _ no => nomatch no⟩

theorem enterPlanning_pen (holds : s.Holds row now) : wp penSem (enterPlanning row now)
    (fun o t => t.May now ∧ ∀ ex, o = .ret ex → t.Holds ex now) s := by
  unfold enterPlanning
  refine wp_ite (fun _ => ?_) fun _ => ?_
  · refine wp_then (ofExcept_pen (I := fun t => t.Holds row now) holds) (fun _ t _ holds => ?_) ?_
    · refine wp_then (holds.update (enterStatus_appended .refl ⟨rfl, rfl, rfl⟩) rfl) ?_ ?_
      · rintro _ u _ holds
        refine ⟨holds.may, ?_⟩
        rintro _ ⟨⟩
        exact holds
      · exact fun e u may => ⟨may, fun _ no => nomatch no⟩
    · exact fun e t holds => ⟨holds.may, fun _ no => nomatch no⟩
  · refine ⟨holds.may, ?_⟩
    rintro _ ⟨⟩
    exact holds

theorem enterExecuting_pen (holds : s.Holds row now) :
    wp penSem (engine.enterExecuting row now) (fun _ t => t.May now) s := by
  have may : ∀ (e : Exn) (t : Pen), t.Holds row now → t.May now := fun _ _ holds => holds.may
  unfold enterExecuting
  refine wp_ite (fun _ => ?_) fun _ => holds.may
  have created : Draws (createPlan engine.plannerMeta row now) (fun _ => True) :=
    .bind draws_uuid4 fun planId _ => (planWorkflow_draws _ _ planId now).mono fun _ _ => trivial
  refine wp_then (created.pen (I := fun t => t.Holds row now) holds) (fun plan t _ holds => ?_) may
  refine wp_then (pen_other rfl holds) (fun _ t _ holds => ?_) may
  refine wp_then (I := fun t => Pen.Holds t row now) (wp_then ((keyToId_draws plan.steps).pen holds)
    (fun _ _ _ holds => buildSteps_pen holds) fun _ _ holds => holds)
      (fun steps t _ holds => ?_) may
  refine wp_then (saveSteps_pen holds) (fun _ t _ holds => ?_) may
  refine wp_then (ofExcept_pen holds) (fun _ t _ holds => ?_) may
  refine wp_mono ?_ (holds.update (enterStatus_appended (.of_timeline rfl rfl rfl) ⟨rfl, rfl, rfl⟩)
    rfl)
  intro o u hu
  cases o with
  | ret a => exact hu.2.may
  | raise e => exact hu
  | halt => exact hu.elim

/-- Each decision concludes the row that governance has drafted. -/
theorem applyPolicyDecision_pen {proposal : ActionProposal} {evaluationId : UUID}
    {decision : PolicyDecision} {summary result : Dict} (holds : s.Holds row now)
    (drafted : Drafted row ex now) :
    wp penSem (applyPolicyDecision ex proposal evaluationId decision summary result now)
      (ends (fun t => t.Holds row now) (fun _ t => t.Holds row now)
        (fun after => Appended row after ∧ after.updatedAt = now)) s := by
  cases decision with
  | deny | allow | conditional =>
      refine wp_then (pen_other rfl holds) (fun _ t _ holds => ?_) fun _ _ holds => holds
      refine wp_then (ofExcept_pen holds) (fun _ t _ holds => ?_) fun _ _ holds => holds
      exact ⟨concludeExecution_appended drafted (dateable_one (by decide) rfl rfl), holds⟩

theorem finalize_pen (holds : s.Holds row now) : wp penSem
    (finalizeIncidentTriageGovernance row steps now)
    (ends (fun t => t.Holds row now) (fun _ t => t.Holds row now)
      (fun after => Appended row after ∧ after.updatedAt = now)) s := by
  have same : ∀ (e : Exn) (t : Pen), t.Holds row now → t.Holds row now := fun _ _ holds => holds
  unfold finalizeIncidentTriageGovernance
  refine wp_then (pen_other rfl holds) (fun ctx t _ holds => ?_) same
  cases ctx with
  | none => exact holds
  | some ctx =>
      refine wp_then ((validationSummaryFromSteps_reads steps).pen holds)
        (fun _ t _ holds => ?_) same
      refine wp_then ((buildCompletionResult_reads row steps).pen holds)
        (fun _ t _ holds => ?_) same
      refine wp_then ((stepOutputByName_reads steps _).pen holds) (fun _ t _ holds => ?_) same
      refine wp_then (pen_other rfl holds) (fun _ t _ holds => ?_) same
      refine wp_then (pen_other rfl holds) (fun _ t _ holds => ?_) same
      refine wp_then (pen_other rfl holds) (fun _ t _ holds => ?_) same
      refine wp_then (pen_other rfl holds) (fun _ t _ holds => ?_) same
      refine wp_then (pen_other rfl holds) (fun _ t _ holds => ?_) same
      exact applyPolicyDecision_pen holds ((Drafted.refl.event (by decide) rfl rfl).event
        (by decide) rfl rfl)

/-- The run ends the row that it has just read, dated by a reading of its own. -/
theorem completeRun_pen (seen : s.rows row.executionId = some row) (current : s.Current) :
    wp penSem (completeRun row steps) (fun _ t => t.Current) s := by
  have stuck_pen : ∀ t : Pen, t.Current → wp penSem (stuck steps) (fun _ t => t.Current) t :=
    fun _ current => wp_ite (fun _ => current) fun _ => current
  unfold completeRun
  refine wp_ite (fun _ => ?_) fun _ => stuck_pen s current
  rw [wp_bind]
  refine wp_mono ?_ pen_now
  rintro _ t ⟨now, rfl, dated, rows, _⟩
  have holds : t.Holds row now := ⟨rows ▸ seen, dated current⟩
  have ends_ : ∀ (e : Exn) (t : Pen), t.Holds row now → t.Current :=
    fun _ _ holds => holds.may.current
  refine wp_ite (fun _ => wp_ite (fun _ => ?_) fun _ => ?_) fun _ =>
    wp_ite (fun _ => holds.may.current) fun _ => stuck_pen t holds.may.current
  · refine wp_then (finalize_pen holds) ?_ ends_
    rintro after u ⟨appended, stamped⟩ holds
    exact wp_then (holds.update appended stamped) (fun _ _ _ holds => holds.may.current)
      fun _ _ may => may.current
  · refine wp_then (ofExcept_pen holds) (fun _ _ _ holds => ?_) ends_
    refine wp_then ((validationSummaryFromSteps_reads steps).pen holds)
      (fun _ _ _ holds => ?_) ends_
    refine wp_then ((buildCompletionResult_reads row steps).pen holds) (fun _ _ _ holds => ?_) ends_
    obtain ⟨appended, stamped⟩ := @concludeExecution_appended row row now .completed _ _ [] .refl
      (fun _ no => nomatch no)
    exact wp_then (holds.update appended stamped) (fun _ _ _ holds => holds.may.current)
      fun _ _ may => may.current

/-- The loop, from any number of iterations that may remain: each is dated by its own reading. -/
theorem runLoop_pen (fuel : Nat) (current : s.Current) :
    wp penSem (engine.runLoop id fuel) (fun _ t => t.Current) s := by
  induction fuel generalizing s with
  | zero => exact current
  | succ fuel ih =>
      unfold runLoop
      rw [wp_bind]
      refine wp_mono ?_ pen_get
      rintro _ t ⟨found, rfl, seen, keyed, stays, _⟩
      have current : t.Current := stays current
      cases found with
      | none => exact current
      | some row =>
          refine wp_ite (fun _ => ?_) fun _ => wp_ite (fun _ => current) fun _ => wp_ite
            (fun _ => current) fun _ => ?_
          · rw [wp_bind]
            refine wp_mono ?_ pen_now
            rintro _ u ⟨now, rfl, dated, _, _⟩
            exact wp_mono (fun _ _ may => may.current) (cancelExecution_pen (dated current))
          · have known : t.rows id = some row ∧ t.Current := ⟨seen, current⟩
            have ends_ : ∀ (e : Exn) (t : Pen), t.rows id = some row ∧ t.Current → t.Current :=
              fun _ _ known => known.2
            refine wp_then (pen_other rfl known) (fun steps t _ known => ?_) ends_
            refine wp_then (resolvePlan_pen known) (fun plan t _ known => ?_) ends_
            cases plan with
            | none => exact known.2
            | some plan =>
                rw [wp_bind]
                refine wp_mono ?_ pen_now
                rintro _ u ⟨now, rfl, dated, rows, _⟩
                have holds : u.Holds row now := ⟨keyed row rfl ▸ rows ▸ known.1, dated known.2⟩
                obtain ⟨next, entered, change⟩ := maybeEnterValidating_eq row steps now
                have written : wp penSem (M.updateExecution next) (fun _ t => t.May now) u := by
                  rcases change with rfl | ⟨_, rfl⟩
                  · exact wp_mono (fun _ _ kept => kept.2 now holds.may)
                      (pen_input holds.seen next.input)
                  · refine wp_mono ?_
                      (holds.update (enterStatus_appended .refl ⟨rfl, rfl, rfl⟩) rfl)
                    intro o v hv
                    cases o with
                    | ret a => exact hv.2.may
                    | raise e => exact hv
                    | halt => exact hv.elim
                rw [andThen_ret, entered, wp_bind, wp_ret, andThen_ret, wp_bind]
                refine wp_mono ?_ written
                intro o v may
                cases o with
                | raise e => exact may.current
                | halt => exact may.current
                | ret a =>
                    rw [andThen_ret, wp_bind]
                    refine wp_mono ?_ pen_get
                    rintro _ x ⟨found, rfl, seen, keyed, _, still⟩
                    have may : x.May now := still now may
                    cases found with
                    | none => exact may.current
                    | some row =>
                        refine wp_ite (fun _ => may.current) fun _ => ?_
                        have known : x.rows id = some row ∧ x.May now := ⟨seen, may⟩
                        have ends_ : ∀ (e : Exn) (t : Pen), t.rows id = some row ∧
                          t.May now → t.Current :=
                          fun _ _ known => known.2.current
                        refine wp_then (pen_other rfl known) (fun steps y _ known => ?_) ends_
                        split
                        · rw [wp_bind]
                          refine wp_mono ?_ (runStep_dates y known.2)
                          intro o z may
                          cases o with
                          | ret a => exact ih may.current
                          | raise e => exact may.current
                          | halt => exact may.current
                        · exact completeRun_pen (keyed row rfl ▸ known.1) known.2.current

theorem runExecution_pen {fuel : Nat} (current : s.Current) :
    wp penSem (engine.runExecution fuel id) (fun _ t => t.Current) s := by
  unfold runExecution
  rw [wp_bind]
  refine wp_mono ?_ pen_get
  rintro _ t ⟨found, rfl, seen, keyed, stays, _⟩
  have current : t.Current := stays current
  cases found with
  | none => exact current
  | some row =>
      rw [andThen_ret, wp_bind]
      refine wp_mono ?_ pen_now
      rintro _ u ⟨now, rfl, dated, rows, _⟩
      have holds : u.Holds row now := ⟨keyed row rfl ▸ rows ▸ seen, dated current⟩
      refine wp_ite (fun _ => holds.may.current) fun _ => ?_
      rw [wp_bind]
      refine wp_mono ?_ (enterPlanning_pen holds)
      rintro o v ⟨may, planned⟩
      cases o with
      | raise e => exact may.current
      | halt => exact may.current
      | ret ex =>
          rw [andThen_ret, wp_bind]
          refine wp_mono ?_ (enterExecuting_pen (planned ex rfl))
          intro o x may
          cases o with
          | ret a => exact runLoop_pen fuel may.current
          | raise e => exact may.current
          | halt => exact may.current

theorem startExecution_pen {fuel : Nat} (current : s.Current) :
    wp penSem (engine.startExecution fuel id) (fun _ t => t.Current) s := by
  unfold startExecution
  rw [wp_tryCatch]
  refine wp_mono ?_ (runExecution_pen current)
  intro o t current
  cases o with
  | ret ex => exact current
  | raise e => exact wp_ite (fun _ => failExecution_pen current) fun _ => current
  | halt => exact current

/-- The decision of an approver concludes the row that the request has drafted. -/
theorem applyApprovalDecision_pen {proposal : ActionProposal} {decision : ApprovalDecision}
    {summary result : Dict} (holds : s.Holds row now) (drafted : Drafted row ex now) :
    wp penSem (applyApprovalDecision ex proposal decision summary result now)
    (fun _ t => t.Current) s := by
  have ends_ : ∀ (e : Exn) (t : Pen), t.Holds row now → t.Current :=
    fun _ _ holds => holds.may.current
  have concluded (proposal : ActionProposal) (status : ExecutionStatus) (result : Dict)
    (events : List Event)
      (dateable : ∀ event ∈ events, event.Dateable) : wp penSem (do
        M.saveActionProposal proposal
        M.ofExcept (validateExecutionTransition .awaitingApproval status)
        M.updateExecution (concludeExecution ex status summary result events now)
        pure (concludeExecution ex status summary result events now)) (fun _ t => t.Current) s := by
    refine wp_then (pen_other rfl holds) (fun _ t _ holds => ?_) ends_
    refine wp_then (ofExcept_pen holds) (fun _ t _ holds => ?_) ends_
    obtain ⟨appended, stamped⟩ := @concludeExecution_appended row ex now status summary result
      events drafted dateable
    exact wp_then (holds.update appended stamped) (fun _ _ _ holds => holds.may.current)
      fun _ _ may => may.current
  unfold applyApprovalDecision
  exact wp_ite (fun _ => concluded _ _ _ _ (dateable_one (by decide) rfl rfl))
    fun _ => concluded _ _ _ _ (dateable_one (by decide) rfl rfl)

theorem submitApproval_pen {approver : String} {decision : ApprovalDecision} {notes : Option String}
    (current : s.Current) :
    wp penSem (submitApproval id approver decision notes) (fun _ t => t.Current) s := by
  unfold submitApproval
  rw [wp_bind]
  refine wp_mono ?_ pen_now
  rintro _ t ⟨ts, rfl, dated, _, _⟩
  rw [andThen_ret, wp_bind]
  refine wp_mono ?_ pen_get
  rintro _ u ⟨found, rfl, seen, keyed, _, still⟩
  have may : u.May ts := still ts (dated current)
  cases found with
  | none => exact may.current
  | some row =>
      obtain rfl := keyed row rfl
      have holds : u.Holds row ts := ⟨seen, may⟩
      have ends_ : ∀ (e : Exn) (t : Pen), t.Holds row ts → t.Current :=
        fun _ _ holds => holds.may.current
      refine wp_ite (fun _ => may.current) fun _ => ?_
      refine wp_then (ofExcept_pen holds) (fun ids u _ holds => ?_) ends_
      refine wp_ite (fun _ => holds.may.current) fun _ => ?_
      refine wp_then (pen_other rfl holds) (fun approvalId u _ holds => ?_) ends_
      refine wp_then (pen_other rfl holds) (fun _ u _ holds => ?_) ends_
      refine wp_then (pen_other rfl holds) (fun proposal u _ holds => ?_) ends_
      cases proposal with
      | none => exact holds.may.current
      | some proposal =>
          refine wp_then (pen_other rfl holds) (fun steps u _ holds => ?_) ends_
          refine wp_then ((validationSummaryFromSteps_reads steps).pen holds)
            (fun _ u _ holds => ?_) ends_
          refine wp_then ((buildCompletionResult_reads _ steps).pen holds)
            (fun _ u _ holds => ?_) ends_
          exact applyApprovalDecision_pen holds (Drafted.refl.event (by decide) rfl rfl)

/-- Rewriting the input dates nothing. -/
theorem rewriteExecution_pen {change : Execution → Execution}
    (input : ∀ row, ∃ d, change row = { row with input := d }) :
    wp penSem (rewriteExecution id change) (fun _ t => (s.Current → t.Current) ∧ ∀ now, s.May now →
      t.May now) s := by
  unfold rewriteExecution
  rw [wp_bind]
  refine wp_mono ?_ pen_get
  rintro _ t ⟨found, rfl, seen, keyed, stays, still⟩
  cases found with
  | none => exact ⟨stays, still⟩
  | some row =>
      obtain ⟨d, changed⟩ := input row
      obtain rfl := keyed row rfl
      rw [andThen_ret]
      dsimp only
      rw [changed, wp_bind]
      refine wp_mono ?_ (pen_input seen d)
      rintro o u ⟨stays', still'⟩
      have kept : (s.Current → u.Current) ∧ ∀ now, s.May now → u.May now :=
        ⟨fun current => stays' (stays current), fun now may => still' now (still now may)⟩
      cases o <;> exact kept

theorem requestCancellation_pen {reason : String} (current : s.Current) :
    wp penSem (requestCancellation id reason) (fun _ t => t.Current) s := by
  unfold requestCancellation
  rw [wp_bind]
  refine wp_mono ?_ pen_now
  rintro _ t ⟨ts, rfl, dated, _, _⟩
  rw [andThen_ret, wp_bind]
  refine wp_mono ?_ (rewriteExecution_pen fun row => requestCancellationMeta_eq row ts reason)
  rintro o u ⟨_, still⟩
  have may : u.May ts := still ts (dated current)
  cases o with
  | ret ex =>
      exact wp_ite (fun _ => may.current) fun _ =>
        wp_mono (fun _ _ may => may.current) (cancelExecution_pen may)
  | raise e => exact may.current
  | halt => exact may.current

theorem enqueueExecution_pen (current : s.Current) : wp penSem (enqueueExecution id)
    (fun _ t => t.Current) s := by
  unfold enqueueExecution
  rw [wp_bind]
  refine wp_mono ?_ pen_now
  rintro _ t ⟨ts, rfl, dated, _, _⟩
  rw [andThen_ret, wp_bind]
  refine wp_mono ?_ (rewriteExecution_pen fun row => applyRuntimeMeta_eq row _)
  rintro o u ⟨_, still⟩
  have may : u.May ts := still ts (dated current)
  cases o with
  | ret ex =>
      exact wp_then (pen_other (I := Pen.Current) rfl may.current) (fun _ _ _ current => current)
        fun _ _ current => current
  | raise e => exact may.current
  | halt => exact may.current

theorem recordWorkerStarted_pen {workerId : String} {given : Option Time} (current : s.Current) :
    wp penSem (recordWorkerStarted id workerId given) (fun _ t => t.Current) s := by
  have marked (ts : Time) (t : Pen) (current : t.Current) :
      wp penSem (rewriteExecution id (markWorkerStarted · workerId ts)) (fun _ u => u.Current) t :=
    wp_mono (fun _ _ kept => kept.1 current)
      (rewriteExecution_pen fun row => applyRuntimeMeta_eq row _)
  unfold recordWorkerStarted
  cases given with
  | some ts => exact marked ts s current
  | none =>
      rw [wp_bind]
      refine wp_mono ?_ pen_now
      rintro _ t ⟨ts, rfl, dated, _, _⟩
      exact marked ts t (dated current).current

/-- Whatever a party does, it dates by its own readings. -/
theorem Party.pens (engine : ExecutionEngine) (fuel : Nat) (party : Party) :
    wp penSem (party.program engine fuel) (fun _ t => t.Current) .unused := by
  have current : Pen.unused.Current := fun _ _ no => nomatch no
  cases party with
  | startExecution id =>
      exact wp_discard (S := penSem) (I := Pen.Current) (startExecution_pen current)
  | enqueueExecution id =>
      exact wp_discard (S := penSem) (I := Pen.Current) (enqueueExecution_pen current)
  | recordWorkerStarted id workerId now =>
      exact wp_discard (S := penSem) (I := Pen.Current) (recordWorkerStarted_pen current)
  | requestCancellation id reason =>
      exact wp_discard (S := penSem) (I := Pen.Current) (requestCancellation_pen current)
  | submitApproval id approver decision notes =>
      exact wp_discard (S := penSem) (I := Pen.Current) (submitApproval_pen current)
  | failExecution id reason =>
      exact wp_discard (S := penSem) (I := Pen.Current) (failExecution_pen current)

end
end AgenticPlatform
