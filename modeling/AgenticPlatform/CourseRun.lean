import AgenticPlatform.CoursePlanning

/-! The course of a whole run: the loop and its ends. -/
namespace AgenticPlatform
open Interaction ExecutionEngine Store
namespace Course

section
variable {c : Course} {known N : Execution → Prop} {view : Repository} {drawn : Nat} {w t : World}
  {row ex : Execution} {now : Time} {engine : ExecutionEngine} {plan : ExecutionPlan} {n : Nat}

/-- The row has kept its status or has taken this one; no step was started. -/
def Kept (known : Execution → Prop) (status : ExecutionStatus) (next : Execution) : Prop :=
  ∃ row, known row ∧ (next.status = row.status ∨ next.status = status) ∧
    startedRows next.traceTimeline = startedRows row.traceTimeline

theorem Kept.begun {status : ExecutionStatus} (kept : Kept Begun status row)
    (later : status = .cancelled ∨ status = .failed) : Begun row := by
  obtain ⟨old, begun, same | moved, _⟩ := kept
  · exact ⟨same ▸ begun.1, same ▸ begun.2⟩
  · rcases later with rfl | rfl <;> exact ⟨by simp [moved], by simp [moved]⟩

theorem cancelExecution_held {reason : String} (held : Held c known view drawn w) :
    wp c.sem (cancelExecution c.executionId reason now)
      (ends (Held c (Kept known .cancelled) view drawn) (fun _ _ => False) (fun _ => True)) w := by
  unfold cancelExecution
  rw [wp_bind]
  refine wp_mono ?_ (held_get held)
  rintro _ t ⟨row, rfl, ident, pinned, held⟩
  obtain ⟨input, requested⟩ := requestCancellationMeta_eq row now reason
  simp only [andThen_ret, requested]
  refine wp_ite (fun terminal => ?_) fun live => ?_
  · refine wp_then (held_update held ⟨rfl, .inl rfl, .inl rfl, fun a b => ?_, fun _ => .inl rfl⟩) ?_
      fun _ _ no => no.elim
    · exact absurd (a.symm.trans b) (by simp)
    · exact fun _ _ _ held => ⟨trivial, held.mono fun _ same =>
        ⟨row, pinned, same ▸ ⟨.inl rfl, rfl⟩⟩⟩
  · have allowed := (abort_allowed (by simpa using live)).2
    simp only [validateExecutionTransition_ok.mpr allowed]
    refine wp_then (held_update held (entered_rewrite rfl allowed rfl (by simp) (by simp))) ?_
      fun _ _ no => no.elim
    exact fun _ _ _ held => ⟨trivial, held.mono fun _ same =>
      ⟨row, pinned, same ▸ ⟨.inr rfl, enterStatus_startedRows rfl⟩⟩⟩

theorem failExecution_held {reason : String} (held : Held c known view drawn w) :
    wp c.sem (failExecution c.executionId reason)
      (ends (Held c (Kept known .failed) view drawn) (fun _ _ => False) (fun _ => True)) w := by
  unfold failExecution
  refine wp_then (held_now held) ?_ fun _ _ no => no.elim
  intro now t _ held
  rw [wp_bind]
  refine wp_mono ?_ (held_get held)
  rintro _ t ⟨row, rfl, ident, pinned, held⟩
  refine wp_ite (fun terminal => ⟨trivial, held.mono fun _ same =>
    ⟨row, pinned, same ▸ ⟨.inl rfl, rfl⟩⟩⟩) fun live => ?_
  have allowed := (abort_allowed (by simpa using live)).1
  rw [validateExecutionTransition_ok.mpr allowed]
  refine wp_then (held_update held (entered_rewrite rfl allowed rfl (by simp) (by simp))) ?_
    fun _ _ no => no.elim
  exact fun _ _ _ held => ⟨trivial, held.mono fun _ same =>
    ⟨row, pinned, same ▸ ⟨.inr rfl, enterStatus_startedRows rfl⟩⟩⟩

/-- A step of this execution that is in view. -/
def Own (c : Course) (view : Repository) (stepId : UUID) : Prop :=
  ∃ s ∈ view.steps, s.stepId = stepId ∧ s.executionId = c.executionId

theorem own_listed : ∀ s ∈ view.listStepsForExecution c.executionId, Own c view s.stepId :=
  fun s listed => by
  obtain ⟨member, own⟩ := Table.mem_sortedBy.mp listed
  exact ⟨s, member, rfl, by simpa using own⟩

theorem readsOf_held {α : Type} {p : M α} (reads : ReadsOf (Own c view) p)
    (held : Held c known view drawn w) :
    wp c.sem p (ends (Held c known view drawn) (fun _ _ => False) (fun _ => True)) w := by
  refine Built.wp (M := c.sem) (I := Held c known view drawn) ?_
    (fun _ _ no => no.elim) reads w held
  rintro β _ _ t ⟨stepId, s, member, same, own⟩ held
  refine wp_mono ?_ (held_still (.getStepResult stepId) trivial ⟨s, held.steps ▸ member, same, own⟩
    trivial rfl rfl
    (Nat.le_refl _) held)
  intro o u hu
  cases o with
  | ret a => exact ⟨trivial, hu.2⟩
  | raise e => exact hu
  | halt => exact hu

def putProposal (proposal : ActionProposal) (view : Repository) : Repository :=
  { view with actionProposals := view.actionProposals.put proposal }

def putEvaluation (evaluation : PolicyEvaluation) (view : Repository) : Repository :=
  { view with policyEvaluations := view.policyEvaluations.put evaluation }

/-- A proposal is stored under its new identifier, or over itself. -/
theorem held_saveProposal {proposal : ActionProposal} (held : Held c known view drawn w)
    (below : proposal.proposalId.n < w.fresh) (own : proposal.executionId = c.executionId)
    (held_by : ∀ q ∈ view.actionProposals, q.proposalId = proposal.proposalId → q.executionId =
      c.executionId) :
    wp c.sem (M.saveActionProposal proposal)
      (ends (Held c known (putProposal proposal view) drawn) (fun _ _ => False) (fun _ => True))
        w :=
  held_write (.saveActionProposal proposal) (a := ()) (putProposal proposal) (fun _ _ _ => rfl) held
    ⟨below, own ▸ held.row.elim fun _ stored => bounded_execution held.bounded stored.1⟩
      ⟨own, fun q member => held_by q (held.proposals ▸ member)⟩ trivial rfl

theorem held_saveEvaluation {evaluation : PolicyEvaluation} (held : Held c known view drawn w)
    (below : evaluation.evaluationId.n < w.fresh) (own : evaluation.executionId = c.executionId)
    (new : ∀ e ∈ view.policyEvaluations, e.evaluationId ≠ evaluation.evaluationId) :
    wp c.sem (M.savePolicyEvaluation evaluation)
      (ends (Held c known (putEvaluation evaluation view) drawn) (fun _ _ => False) (fun _ => True))
        w :=
  held_write (.savePolicyEvaluation evaluation) (a := ()) (putEvaluation evaluation)
    (fun _ _ _ => rfl) held below
    ⟨own, fun e member => new e (held.evaluations ▸ member)⟩ trivial rfl

theorem Held.relax (held : Held c known view n w) (le : drawn ≤ n) : Held c known view drawn w :=
  ⟨held.bounded, held.orderly, held.row, held.view, le.trans held.drawn⟩

/-- How a run ends that all steps have served: only a denial fails it. -/
structure Concluded (c : Course) (row next : Execution) (view : Repository) : Prop where
  executionId : next.executionId = row.executionId
  currentPlanId : next.currentPlanId = row.currentPlanId
  started : startedRows next.traceTimeline = startedRows row.traceTimeline
  status : (next.status = .failed ∧ ∃ e ∈ view.policyEvaluations, e.executionId = c.executionId ∧
    e.decision = .deny) ∨
    next.status = .completed ∨ next.status = .awaitingApproval

theorem finalize_held (held : Held c (· = row) view drawn w) :
    wp c.sem (finalizeIncidentTriageGovernance row (view.listStepsForExecution c.executionId) now)
      (fun o t => ∃ changed, changed.steps = view.steps ∧ Held c (· = row) changed drawn t ∧
        ((∃ next, o = .ret next ∧ Concluded c row next changed) ∨
          ((∃ e, o = .raise e) ∧ ¬ Served c row view))) w := by
  have ident : row.executionId = c.executionId := (Table.get_eq_some.mp held.stored).2
  unfold finalizeIncidentTriageGovernance
  refine wp_then (held_still (.getContext row.executionContextId) trivial ⟨row, held.stored, rfl⟩
    trivial rfl rfl
    (Nat.le_refl _) held) ?_ fun _ _ no => no.elim
  rintro _ t rfl held'
  rw [held.contexts]
  cases found : view.contexts.get row.executionContextId with
  | none => exact ⟨view, rfl, held', .inr ⟨⟨_, rfl⟩, fun served => served.2 found⟩⟩
  | some ctx =>
      refine wp_then (readsOf_held (validationSummaryFromSteps_readsOf _ own_listed) held') ?_
        fun _ _ no => no.elim
      intro summary t _ held
      refine wp_then (readsOf_held (buildCompletionResult_readsOf _ own_listed row) held) ?_
        fun _ _ no => no.elim
      intro result t _ held
      refine wp_then (readsOf_held (stepOutputByName_readsOf _ own_listed _) held) ?_
        fun _ _ no => no.elim
      intro validateOut t _ held
      have proposals : ∀ q ∈ view.actionProposals, q.proposalId.n < t.fresh := fun q member =>
        (held.bounded.proposals q (held.proposals ▸ member)).1
      have since := held.drawn
      refine draw held.exact fun proposalId u above held => ?_
      generalize made : escalationProposal row proposalId
        (stepByPlannerName (view.listStepsForExecution c.executionId)
        "validate_incident") validateOut now = proposal
      have named : proposal.proposalId = proposalId := by rw [← made]; rfl
      have owned : proposal.executionId = c.executionId := by rw [← made]; exact ident
      have below : proposal.proposalId.n < proposalId.n + 1 := named ▸ Nat.lt_succ_self _
      refine wp_then (held_saveProposal held (below.trans_le held.drawn) owned
        fun q member same => ?_) ?_
        fun _ _ no => no.elim
      · have old := proposals q member
        rw [same, named] at old
        omega
      intro _ v _ held
      refine wp_then (held_asked (.evaluateProposal ctx proposal) trivial trivial rfl rfl
        (Nat.le_refl _) held) ?_ ?_
      · intro draft v _ held
        have given := held.drawn
        have evaluations : ∀ e ∈ view.policyEvaluations, e.evaluationId.n <
          v.fresh := fun e member =>
          held.bounded.evaluations e (held.evaluations ▸ member)
        refine draw held.exact fun evaluationId x above' held => ?_
        generalize filed : policyEvaluationOf _ ctx evaluationId draft proposal now = evaluation
        have labelled : evaluation.evaluationId = evaluationId := by rw [← filed]; rfl
        have mine : evaluation.executionId = c.executionId := by rw [← filed]; exact ident
        have decided : evaluation.decision = draft.decision := by rw [← filed]; rfl
        refine wp_then (held_saveEvaluation held (labelled ▸ held.drawn) mine
          fun e member same => ?_) ?_
          fun _ _ no => no.elim
        · have old := evaluations e member
          rw [same, labelled] at old
          omega
        intro _ y _ held
        generalize traced : appendTimeline (appendTimeline row "action_proposed"
          (actionProposed proposal) now)
          "policy_evaluated" (policyEvaluated evaluationId draft) now = prepared
        obtain ⟨proposalDone, status, payload, events, applied, outcome, working,
          sameId, sameOwner⟩ :=
          applyPolicyDecision_eq prepared proposal evaluationId draft.decision summary result now
        rw [applied]
        have drawn' := held.drawn
        refine wp_then (held_saveProposal held (by rw [sameId]; omega) (sameOwner.trans owned)
          fun q member same => ?_) ?_
          fun _ _ no => no.elim
        · rcases Table.mem_put.mp member with rfl | ⟨_, apart⟩
          · exact owned
          · exact absurd (same.trans sameId) apart
        intro _ z _ held
        refine ⟨_, ?_, held.relax (by omega), .inl ⟨_, rfl, ?_⟩⟩
        · rfl
        · have silent : startedRows prepared.traceTimeline = startedRows row.traceTimeline := by
            rw [← traced, appendTimeline_startedRows (by decide) rfl, appendTimeline_startedRows
              (by decide) rfl]
          have started := (@concludeExecution_startedRows prepared events now status summary payload
            working).trans silent
          obtain ⟨timeline, t, concluded⟩ := @concludeExecution_eq prepared events now status
            summary payload
          rw [concluded] at started ⊢
          rw [← traced] at started ⊢
          refine ⟨rfl, rfl, started, ?_⟩
          rcases outcome with ⟨failed, denied⟩ | completed | awaiting
          · exact .inl ⟨failed, evaluation, Table.mem_put.mpr (.inl rfl), mine,
              decided.trans denied⟩
          · exact .inr (.inl completed)
          · exact .inr (.inr awaiting)
      · rintro e v ⟨held, unanswered⟩
        refine ⟨_, ?_, held.relax (by omega), .inr ⟨⟨e, rfl⟩, fun served => unanswered served.1⟩⟩
        rfl

/-- All steps have succeeded in the validation phase, and the services serve. -/
structure Completable (c : Course) (row : Execution) (view : Repository) : Prop where
  served : Served c row view
  validating : row.status = .validating
  all : ∀ s ∈ view.listStepsForExecution c.executionId, s.status = .succeeded

theorem all_succeeded (held : Held c (· = row) view drawn w)
    (all : (view.listStepsForExecution c.executionId).all (fun s => s.status = .succeeded) = true) :
    ∀ s ∈ w.repo.steps, s.executionId = row.executionId → s.status = .succeeded := by
  intro s member own
  have ident : row.executionId = c.executionId := (Table.get_eq_some.mp held.stored).2
  have listed : s ∈ view.listStepsForExecution c.executionId :=
    Table.mem_sortedBy.mpr ⟨held.steps ▸ member, by simpa using own.trans ident⟩
  simpa using List.all_eq_true.mp all s listed

/-- All steps have succeeded, and the row is concluded. -/
def Completed (c : Course) (row : Execution) (view : Repository) (drawn : Nat) (next : Execution)
    (w : World) : Prop :=
  ∃ changed, Concluded c row next changed ∧ changed.steps = view.steps ∧
    (∀ s ∈ view.listStepsForExecution c.executionId, s.status = .succeeded) ∧
      Held c (· = next) changed drawn w

/-- The row is as it was, because something is missing. -/
def Incomplete (c : Course) (row : Execution) (view : Repository) (drawn : Nat)
    (w : World) : Prop :=
  (∃ changed, changed.steps = view.steps ∧ Held c (· = row) changed drawn w) ∧
    ¬ Completable c row view

/-- How the completion of a run ends. -/
def Finishes (c : Course) (row : Execution) (view : Repository) (drawn : Nat) :
    Outcome Exn Execution → World → Prop
  | .ret next, t => Completed c row view drawn next t
  | .raise _, t => Incomplete c row view drawn t
  | .halt, _ => False

/-- Completing the run ends it, unless something is missing. -/
theorem completeRun_held (held : Held c (· = row) view drawn w) :
    wp c.sem (completeRun row (view.listStepsForExecution c.executionId))
    (Finishes c row view drawn) w := by
  have halts : ∀ t, Held c (· = row) view drawn t → ¬ Completable c row view →
      wp c.sem (stuck (view.listStepsForExecution c.executionId)) (Finishes c row view drawn) t :=
    fun t held no => wp_ite (fun _ => ⟨⟨view, rfl, held⟩, no⟩) fun _ => ⟨⟨view, rfl, held⟩, no⟩
  unfold completeRun
  refine wp_ite (fun all => ?_) fun other => halts w held fun complete => other ?_
  swap
  · simpa using complete.all
  have succeeded : ∀ s ∈ view.listStepsForExecution c.executionId, s.status = .succeeded := by
    simpa using all
  refine wp_then (held_now held) ?_ fun _ _ no => no.elim
  intro now t _ held
  refine wp_ite (fun validating => wp_ite (fun _ => ?_) fun _ => ?_) fun other =>
    wp_ite (fun _ => ⟨⟨view, rfl, held⟩, fun complete => other complete.validating⟩)
      fun _ => halts t held fun complete => other complete.validating
  · rw [wp_bind]
    refine wp_mono ?_ (finalize_held held)
    rintro o u ⟨changed, steps, held, ⟨next, rfl, concluded⟩ | ⟨⟨e, rfl⟩, unserved⟩⟩
    · have all' : (changed.listStepsForExecution c.executionId).all
        (fun s => s.status = .succeeded) = true := by
        rw [Repository.listStepsForExecution, steps]
        exact all
      have allowed : (row.status, next.status) ∈ executionAllowed := by
        rw [validating]
        rcases concluded.status with ⟨failed, _⟩ | completed | awaiting
        · simp [failed, executionAllowed]
        · simp [completed, executionAllowed]
        · simp [awaiting, executionAllowed]
      have elsewhere : next.status ≠ .executing := fun executing => by
        rw [validating, executing] at allowed
        rcases concluded.status with ⟨failed, _⟩ | completed | awaiting
        · simp [failed] at executing
        · simp [completed] at executing
        · simp [awaiting] at executing
      refine wp_then (held_update held (entered_rewrite concluded.executionId allowed
        concluded.currentPlanId elsewhere
        fun _ => .inr (all_succeeded held all'))) ?_ fun _ _ no => no.elim
      exact fun _ _ _ held => ⟨changed, concluded, steps, succeeded, held⟩
    · exact ⟨⟨changed, steps, held⟩, fun complete => unserved complete.served⟩
  · refine wp_then (wp_ofExcept_ok rfl) ?_ fun _ _ no => no.elim
    rintro _ _ rfl rfl
    refine wp_then (readsOf_held (validationSummaryFromSteps_readsOf _ own_listed) held) ?_
      fun _ _ no => no.elim
    intro summary u _ held
    refine wp_then (readsOf_held (buildCompletionResult_readsOf _ own_listed row) held) ?_
      fun _ _ no => no.elim
    intro result u _ held
    have started := @concludeExecution_startedRows row [] now .completed summary result fun _ no =>
      absurd no List.not_mem_nil
    obtain ⟨timeline, at_, concluded⟩ := @concludeExecution_eq row [] now .completed summary result
    rw [concluded] at started
    simp only [concluded]
    refine wp_then
      (held_update held (entered_rewrite rfl (by simp [validating, executionAllowed]) rfl (by simp)
      fun _ => .inr (all_succeeded held all))) ?_ fun _ _ no => no.elim
    intro _ v _ held
    exact ⟨_, ⟨rfl, rfl, started, .inr (.inl rfl)⟩, rfl, succeeded, held⟩

/-- The row as a round of the loop goes on with it. -/
def entered (row : Execution) (steps : List Step) (now : Time) : Execution :=
  if startsValidating row steps then enterStatus row .validating [] now else row

theorem entered_begun {steps : List Step} (begun : Begun row) : Begun (entered row steps now) := by
  unfold entered
  split
  · exact ⟨by simp, by simp⟩
  · exact begun

/-- One round of the loop over a live row with its plan: the next step runs, or the run is
completed. -/
theorem runLoop_round {fuel : Nat} {Q : Outcome Exn Execution → World → Prop}
    (held : Held c (· = row) view drawn w) (calm : isCancellationRequested row = false)
    (live : isExecutionTerminal row.status = false) (unasked : row.status ≠ .awaitingApproval)
    (current : row.currentPlanId = some plan.planId) (stored : plan ∈ view.plans)
    (own : plan.executionId = c.executionId)
    (go : ∀ now t, Held c (· = entered row (view.listStepsForExecution c.executionId) now)
      view drawn t →
      wp c.sem (match nextPendingReady
        (stepsInPlanOrder (view.listStepsForExecution c.executionId) plan)
          (view.listStepsForExecution c.executionId) with
        | some nextStep => engine.runStep nextStep now >>= fun _ => engine.runLoop
          c.executionId fuel
        | none => completeRun (entered row (view.listStepsForExecution c.executionId) now)
            (view.listStepsForExecution c.executionId)) Q t) :
    wp c.sem (engine.runLoop c.executionId (fuel + 1)) Q w := by
  unfold runLoop
  rw [wp_bind]
  refine wp_mono ?_ (held_get held)
  rintro _ t ⟨found, rfl, _, same, held'⟩
  obtain rfl := same.symm
  simp only [andThen_ret, calm, Bool.false_eq_true, if_false]
  rw [if_neg unasked, if_neg (by simp [live])]
  refine wp_then (held_list held') ?_ fun _ _ no => no.elim
  rintro _ u rfl held
  have found : view.plans.get plan.planId = some plan := Table.get_of_mem stored
  have resolved : wp c.sem (resolvePlan row) (ends (Held c (· = row) view drawn) (fun _ _ => False)
    (· = some plan)) u := by
    unfold resolvePlan
    rw [current]
    exact held_still (.getPlan plan.planId) trivial ⟨plan, held.plans ▸ stored, rfl, own⟩ trivial
      (congrArg Except.ok (held.plans ▸ found)) rfl (Nat.le_refl _) held
  refine wp_then resolved ?_ fun _ _ no => no.elim
  rintro _ v rfl held
  refine wp_then (held_now held) ?_ fun _ _ no => no.elim
  intro now v _ held
  have moves : maybeEnterValidating row (view.listStepsForExecution c.executionId) now =
      .ret (entered row (view.listStepsForExecution c.executionId) now) := by
    unfold maybeEnterValidating entered
    split
    · rfl
    · rfl
  have status : (entered row (view.listStepsForExecution c.executionId) now).status = row.status ∨
      (row.status = .executing ∧ (entered row (view.listStepsForExecution c.executionId)
        now).status = .validating) := by
    unfold entered
    split
    · next starts =>
        simp only [startsValidating, Bool.and_eq_true, decide_eq_true_eq] at starts
        exact .inr ⟨starts.1.1.1.1, rfl⟩
    · exact .inl rfl
  have rewrite : ∀ w, Rewrite w row
    (entered row (view.listStepsForExecution c.executionId) now) := by
    intro w
    unfold entered
    split
    · next starts =>
        simp only [startsValidating, Bool.and_eq_true, decide_eq_true_eq] at starts
        exact entered_rewrite rfl (by simp [starts.1.1.1.1, executionAllowed]) rfl
          (by simp) (by simp)
    · exact traced_rewrite .refl
  rw [moves, wp_bind, wp_ret, andThen_ret]
  refine wp_then (held_update held (rewrite v)) ?_ fun _ _ no => no.elim
  intro _ x _ held
  rw [wp_bind]
  refine wp_mono ?_ (held_get held)
  rintro _ y ⟨_, rfl, _, rfl, last⟩
  refine wp_ite (fun terminal => ?_) fun _ => ?_
  · rcases status with same | ⟨_, validating⟩
    · simp [same, live] at terminal
    · simp [validating, isExecutionTerminal] at terminal
  · refine wp_then (held_list last) ?_ fun _ _ no => no.elim
    rintro _ z rfl held
    exact go now z held

/-- The row after a round of the loop over the steps in view. -/
abbrev reached (c : Course) (row : Execution) (view : Repository) (now : Time) : Execution :=
  entered row (view.listStepsForExecution c.executionId) now

/-- The steps that the scheduler finds ready in the current plan. -/
def Chosen (c : Course) (row : Execution) (view : Repository) (next : Option Step) : Prop :=
  ∃ p ∈ view.plans, row.currentPlanId = some p.planId ∧
    nextPendingReady (stepsInPlanOrder (view.listStepsForExecution c.executionId) p)
      (view.listStepsForExecution c.executionId) = next

/-- What is kept by each round of the loop, with the rounds that are left, and what holds when the
loop is left in any of the ways that there are. -/
structure LoopRule (c : Course) (I : Nat → Execution → Repository → Prop)
    (Q : Outcome Exn Execution → World → Prop) :
    Prop where
  starts : ∀ {n row view drawn t step now}, I (n + 1) row view →
    Next c (reached c row view now) view step →
    Held c (· = reached c row view now) view drawn t → c.starts t (runningStep step now)
  next : ∀ {n row view step now ex results}, I (n + 1) row view → Next c (reached c row view
    now) view step →
    Logged (reached c row view now) [.str step.stepId.str] ex →
    I n ex { view with steps := afterStep step now view.steps, stepResults := results }
  out : ∀ {row view drawn t}, I 0 row view → Held c (· = row) view drawn t → Q .halt t
  cancelled : ∀ {n row view drawn t ex}, I (n + 1) row view → isCancellationRequested row = true →
    Held c (Kept (· = row) .cancelled) view drawn t → Q (.ret ex) t
  rests : ∀ {n row view drawn t}, I (n + 1) row view → row.status = .awaitingApproval ∨
    isExecutionTerminal row.status = true →
    Held c (· = row) view drawn t → Q (.ret row) t
  unplanned : ∀ {n row view drawn t e}, I (n + 1) row view →
    isExecutionTerminal row.status = false →
    row.currentPlanId = none → Held c (· = row) view drawn t → Q (.raise e) t
  broken : ∀ {n row view drawn t step now e}, I (n + 1) row view →
    Next c (reached c row view now) view step →
    Held c (Logged (reached c row view now) [.str step.stepId.str])
      (putStep (runningStep step now) view) drawn t →
    ¬ Served c (reached c row view now) view → Q (.raise e) t
  completed : ∀ {n row view drawn t now next}, I (n + 1) row view →
    Completed c (reached c row view now) view drawn next t → Q (.ret next) t
  stuck : ∀ {n row view drawn t now e}, I (n + 1) row view →
    isExecutionTerminal row.status = false →
    Chosen c row view none → Incomplete c (reached c row view now) view drawn t → Q (.raise e) t

theorem reached_live (live : isExecutionTerminal row.status = false) :
    isExecutionTerminal (reached c row view now).status = false := by
  unfold reached entered
  split
  · rfl
  · exact live

theorem reached_plan : (reached c row view now).currentPlanId = row.currentPlanId := by
  unfold reached entered
  split <;> rfl

theorem reached_flag : isCancellationRequested
    (reached c row view now) = isCancellationRequested row := by
  unfold reached entered
  split <;> rfl

theorem reached_context : (reached c row view now).executionContextId = row.executionContextId := by
  unfold reached entered
  split <;> rfl

theorem reached_started : startedRows (reached c row view now).traceTimeline = startedRows
    row.traceTimeline := by
  unfold reached entered
  split
  · exact enterStatus_startedRows rfl
  · rfl

/-- The loop keeps to a rule for any number of rounds. -/
theorem LoopRule.loop {I : Nat → Execution → Repository → Prop}
    {Q : Outcome Exn Execution → World → Prop} (rule : LoopRule c I Q) {fuel : Nat}
    (kept : I fuel row view) (held : Held c (· = row) view drawn w) :
    wp c.sem (engine.runLoop c.executionId fuel) Q w := by
  induction fuel generalizing row view w with
  | zero => exact rule.out kept held
  | succ fuel ih =>
      by_cases going : isCancellationRequested row = false ∧
        isExecutionTerminal row.status = false ∧
          row.status ≠ .awaitingApproval
      · obtain ⟨calm, live, unasked⟩ := going
        cases current : row.currentPlanId with
        | some planId =>
            obtain ⟨plan, member, own, rfl, _⟩ := (held.orderly.row row held.stored).current
              planId current
            have ident : row.executionId = c.executionId := (Table.get_eq_some.mp held.stored).2
            rw [held.plans] at member
            refine runLoop_round held calm live unasked current member (own.trans ident)
              fun now t held => ?_
            split
            · next step chosen =>
                have next : Next c (reached c row view now) view step :=
                  ⟨reached_live live, plan, member, reached_plan.trans current, chosen⟩
                refine wp_then
                  (runStep_held next (fun t held => rule.starts kept next held) held) ?_ ?_
                · rintro _ u _ ⟨results, held⟩
                  obtain ⟨last, stored, logged⟩ := held.row
                  exact ih (rule.next kept next logged) ⟨held.bounded, held.orderly,
                    ⟨last, stored, rfl⟩, held.view, held.drawn⟩
                · rintro e u ⟨held, unserved⟩
                  exact rule.broken kept next held unserved
            · next chosen =>
                refine wp_mono ?_ (completeRun_held held)
                intro o u hu
                cases o with
                | ret a => exact rule.completed kept hu
                | raise e => exact rule.stuck kept live ⟨plan, member, current, chosen⟩ hu
                | halt => exact hu.elim
        | none =>
            unfold runLoop
            rw [wp_bind]
            refine wp_mono ?_ (held_get held)
            rintro _ t ⟨found, rfl, _, same, held'⟩
            obtain rfl := same.symm
            simp only [andThen_ret, calm, Bool.false_eq_true, if_false]
            rw [if_neg unasked, if_neg (by simp [live])]
            refine wp_then (held_list held') ?_ fun _ _ no => no.elim
            rintro _ u rfl held
            rw [show resolvePlan row = .ret none by simp [resolvePlan, current]; rfl]
            exact rule.unplanned kept live current held
      · unfold runLoop
        rw [wp_bind]
        refine wp_mono ?_ (held_get held)
        rintro _ t ⟨found, rfl, _, same, held'⟩
        obtain rfl := same.symm
        refine wp_ite (fun asked => ?_) fun calm => wp_ite (fun waits => rule.rests kept
          (.inl waits) held') fun unasked =>
          wp_ite (fun ended => rule.rests kept (.inr ended) held') fun other =>
            absurd ⟨by simpa using calm, by simpa using other, unasked⟩ going
        refine wp_then (held_now held') ?_ fun _ _ no => no.elim
        intro now u _ held
        refine wp_mono ?_ (cancelExecution_held held)
        intro o v hv
        cases o with
        | ret a => exact rule.cancelled kept asked hv.2
        | raise e => exact hv.elim
        | halt => exact hv.elim

/-- However the loop is left, all is in order. -/
theorem underwayRule (free : ∀ t s, c.starts t s) :
    LoopRule c (fun _ row _ => Begun row) (fun _ t => Underway c t) where
  starts _ _ _ := free _ _
  next begun _ logged := by
    obtain ⟨⟨_, _, _, rfl⟩, _⟩ := logged
    exact entered_begun begun
  out begun held := held.underway fun _ same => same ▸ begun
  cancelled begun _ held := held.underway fun _ kept => Kept.begun (by
    obtain ⟨_, rfl, rest⟩ := kept
    exact ⟨_, begun, rest⟩) (.inl rfl)
  rests begun _ held := held.underway fun _ same => same ▸ begun
  unplanned begun _ _ held := held.underway fun _ same => same ▸ begun
  broken begun _ held _ := held.underway fun _ logged => by
    obtain ⟨⟨_, _, _, rfl⟩, _⟩ := logged
    exact entered_begun begun
  completed begun done := by
    obtain ⟨changed, concluded, _, _, held⟩ := done
    refine held.underway fun _ same => same ▸ ?_
    rcases concluded.status with ⟨failed, _⟩ | completed | awaiting
    · exact ⟨by simp [failed], by simp [failed]⟩
    · exact ⟨by simp [completed], by simp [completed]⟩
    · exact ⟨by simp [awaiting], by simp [awaiting]⟩
  stuck begun _ _ left := by
    obtain ⟨⟨changed, _, held⟩, _⟩ := left
    exact held.underway fun _ same => same ▸ entered_begun begun

theorem runLoop_held {fuel : Nat} (free : ∀ t s, c.starts t s) (underway : Underway c w) :
    wp c.sem (engine.runLoop c.executionId fuel) (fun _ t => Underway c t) w := by
  obtain ⟨row, stored, begun⟩ := underway.row
  exact (underwayRule free).loop begun
    (⟨underway.bounded, underway.orderly, ⟨row, stored, rfl⟩, rfl, Nat.le_refl _⟩ : Held c (· = row)
      w.repo w.fresh w)

/-- A live run goes on to its loop, once it has been planned. -/
theorem runExecution_go {fuel : Nat} {Q : Outcome Exn Execution → World → Prop}
    (held : Held c (· = row) view drawn w) (live : isExecutionTerminal row.status = false)
    (unplanned : row.status = .planning → ∀ p ∈ view.plans, p.executionId ≠ c.executionId)
    (resumed : Begun row → ∀ t, Held c (· = row) view drawn t →
      wp c.sem (engine.runLoop c.executionId fuel) Q t)
    (launched : ∀ before next changed above t, ¬ Begun row →
      (before = row ∨ ∃ now, before = enterStatus row .planning [] now) →
        Launched c engine before next changed →
      changed.contexts = view.contexts → Held c (· = next) changed above t →
      wp c.sem (engine.runLoop c.executionId fuel) Q t) :
    wp c.sem (engine.runExecution fuel c.executionId) Q w := by
  unfold runExecution
  rw [wp_bind]
  refine wp_mono ?_ (held_get held)
  rintro _ t ⟨found, rfl, _, same, held'⟩
  obtain rfl := same.symm
  refine wp_then (held_now held') ?_ fun _ _ no => no.elim
  intro now t _ held
  rw [if_neg (by simp [live]), wp_bind]
  refine wp_mono ?_ (enterPlanning_held held)
  rintro _ u ⟨next, rfl, held, started, change⟩
  have unplanned' : next.status = .planning → ∀ p ∈ view.plans, p.executionId ≠ c.executionId := by
    intro planning p member own
    rcases change with ⟨_, rfl⟩ | ⟨created, _⟩
    · exact unplanned planning p member own
    · have ident : row.executionId = c.executionId := (Table.get_eq_some.mp held'.stored).2
      exact ((held'.orderly.row row held'.stored).created created).2 p (held'.plans ▸ member)
        (own.trans ident.symm)
  rw [andThen_ret, wp_bind]
  refine wp_mono ?_ (enterExecuting_held started unplanned' held)
  rintro _ v ⟨rfl, ⟨begun, last⟩ | ⟨planning, last, changed, above, launch, contexts, done⟩⟩
  · rcases change with ⟨_, rfl⟩ | ⟨_, rfl⟩
    · exact resumed begun v last
    · exact absurd rfl begun.2
  · rcases change with ⟨_, rfl⟩ | ⟨created, rfl⟩
    · exact launched next last changed above v (fun begun => begun.2 planning) (.inl rfl)
        launch contexts done
    · exact launched _ last changed above v (fun begun => begun.1 created) (.inr ⟨now, rfl⟩)
        launch contexts done

theorem Launched.begun {next : Execution} (launched : Launched c engine row next view) :
    Begun next := by
  obtain ⟨planId, now, rfl⟩ := launched.entered
  exact ⟨by simp, by simp⟩

/-- All is in order, and the row, where there is one, has left its planning phase. -/
structure Rested (c : Course) (w : World) : Prop where
  bounded : Bounded w
  orderly : Orderly c.passing c.executionId w
  begun : ∀ row, w.execution c.executionId = some row → Begun row

theorem Underway.rested (underway : Underway c w) : Rested c w := by
  obtain ⟨row, stored, begun⟩ := underway.row
  refine ⟨underway.bounded, underway.orderly, fun other found => ?_⟩
  obtain rfl := Option.some.inj (stored.symm.trans found)
  exact begun

theorem absent_get {Q : Outcome Exn (Option Execution) → World → Prop}
    (absent : w.execution c.executionId = none) (post : Q (.ret none) w) : wp c.sem
      (M.getExecution c.executionId) Q w := by
  refine course_call (.getExecution c.executionId) trivial rfl trivial fun _ => ?_
  have answer : (handle c.env w (.getExecution c.executionId)).1 = .ok none :=
    congrArg Except.ok absent
  rw [answer]
  exact post

/-- A run that was not cut short while planning keeps to its course. -/
theorem runExecution_held {fuel : Nat} (free : ∀ t s, c.starts t s) (bounded : Bounded w)
    (orderly : Orderly c.passing c.executionId w) (restartable : Restartable c.executionId w) :
    wp c.sem (engine.runExecution fuel c.executionId) (fun _ t => Rested c t) w := by
  cases stored : w.execution c.executionId with
  | none =>
      unfold runExecution
      rw [wp_bind]
      refine absent_get stored ⟨bounded, orderly, fun row found => ?_⟩
      exact absurd (stored.symm.trans found) (by simp)
  | some row =>
      have held : Held c (· = row) w.repo w.fresh w :=
        ⟨bounded, orderly, ⟨row, stored, rfl⟩, rfl, Nat.le_refl _⟩
      by_cases terminal : isExecutionTerminal row.status = true
      · have begun : Begun row := by
          constructor
          · intro created
            simp [created, isExecutionTerminal] at terminal
          · intro planning
            simp [planning, isExecutionTerminal] at terminal
        have still : ∀ {t}, Held c (· = row) w.repo w.fresh t → Rested c t := fun held =>
          (held.underway fun _ same => same ▸ begun).rested
        unfold runExecution
        rw [wp_bind]
        refine wp_mono ?_ (held_get held)
        rintro _ t ⟨found, rfl, _, same, held'⟩
        obtain rfl := same.symm
        refine wp_then (held_now held') ?_ fun _ _ no => no.elim
        intro now u _ held
        rw [if_pos terminal]
        exact still held
      · refine runExecution_go held (by simpa using terminal) (restartable row stored)
          (fun begun t held => ?_)
          fun before next changed above t _ _ launched _ held => ?_
        · exact wp_mono (fun _ _ ht => ht.rested)
            (runLoop_held free (held.underway fun _ same => same ▸ begun))
        · exact wp_mono (fun _ _ ht => ht.rested)
            (runLoop_held free (held.underway fun _ same => same ▸ launched.begun))

theorem failExecution_rested {reason : String} (rested : Rested c w) :
    wp c.sem (failExecution c.executionId reason) (fun _ t => Rested c t) w := by
  cases stored : w.execution c.executionId with
  | none =>
      unfold failExecution
      refine wp_then (M := c.sem) (I := fun t => Rested c t ∧ t.execution c.executionId = none)
        (R := fun _ => True)
        (J := fun _ _ => False) ?_ ?_ fun _ _ no => no.elim
      · refine course_call .now trivial trivial trivial fun _ =>
          ⟨trivial, ⟨?_, ?_, rested.begun⟩, stored⟩
        · exact bounded_handle rested.bounded trivial
        · exact Lawful.orderly (show Lawful c.passing c.executionId w .now from trivial)
            rested.orderly
      · rintro now t _ ⟨rested, absent⟩
        rw [wp_bind]
        exact absent_get absent rested
  | some row =>
      have held : Held c Begun w.repo w.fresh w :=
        ⟨rested.bounded, rested.orderly, ⟨row, stored, rested.begun row stored⟩, rfl, Nat.le_refl _⟩
      refine wp_mono ?_ (failExecution_held held)
      intro o t ht
      cases o with
      | ret a => exact (ht.2.underway fun _ kept => kept.begun (.inr rfl)).rested
      | raise e => exact ht.elim
      | halt => exact ht.elim

/-- So does a start, which may fail the execution. -/
theorem startExecution_held {fuel : Nat} (free : ∀ t s, c.starts t s) (bounded : Bounded w)
    (orderly : Orderly c.passing c.executionId w) (restartable : Restartable c.executionId w) :
    wp c.sem (engine.startExecution fuel c.executionId) (fun _ t => Rested c t) w := by
  unfold startExecution
  rw [wp_tryCatch]
  refine wp_mono ?_ (runExecution_held free bounded orderly restartable)
  intro o t rested
  cases o with
  | ret ex => exact rested
  | raise e => exact wp_ite (fun _ => failExecution_rested rested) fun _ => rested
  | halt => exact rested

end
end Course

theorem bounded_init : Bounded .init :=
  ⟨fun _ no => (Table.not_mem_empty no).elim, fun _ no => (Table.not_mem_empty no).elim,
    fun _ no => (Table.not_mem_empty no).elim, fun _ no => (Table.not_mem_empty no).elim,
    fun _ no => (Table.not_mem_empty no).elim, fun _ no => (Table.not_mem_empty no).elim,
    fun _ no => (Table.not_mem_empty no).elim, fun _ no => (Table.not_mem_empty no).elim⟩

theorem bounded_created (env : Env) (request : NewExecution) : Bounded (.created env request) := by
  have first := @bounded_handle env _ .uuid4 bounded_init trivial
  have second := @bounded_handle env _ .uuid4 first trivial
  have third := @bounded_handle env _ (.saveContext (contextOf request ⟨0⟩ 0)) second
    (Nat.succ_pos 1)
  exact @bounded_handle env _ (.saveExecution (executionOf request ⟨1⟩ ⟨0⟩ 0)) third
    (Nat.lt_succ_self 1)

end AgenticPlatform
