import AgenticPlatform.CourseRun
import AgenticPlatform.Sessions

/-! Sessions keep everything in order: every call of the service ends with all executions in order
and none left in its planning phase. Where the model finds that every validation passes, what is
completed has been validated. -/
namespace AgenticPlatform
open Interaction ExecutionEngine Store Course

/-- All that is stored is in order. -/
structure InOrder (passing : Prop) (w : World) : Prop where
  bounded : Bounded w
  orderly : ∀ id, Orderly passing id w

/-- Between two calls no row is in its planning phase. -/
structure AtRest (passing : Prop) (w : World) : Prop where
  order : InOrder passing w
  rest : ∀ id row, w.execution id = some row → row.status ≠ .planning

/-- The store, where every call must leave all in order. With `passing`, the model finds that every
validation passes. -/
abbrev ordered (env : Env) (passing : Prop) : Semantics platform Exn where
  State := World
  step w op r t := handle env w op = (r, t) ∧ (passing → ∀ a, r = .ok a → op.Passes a)
  ok w op := InOrder passing (handle env w op).2

/-- The course of a run in a session. -/
def sessionCourse (env : Env) (passing : Prop) (id : UUID) : Course where
  env := env
  executionId := id
  passing := passing
  answering := False
  calls := fun _ => True
  starts := fun _ _ => True

/-- All is in order, and the rows that the run of `id` does not concern are at rest. -/
structure RestElsewhere (passing : Prop) (id : UUID) (w : World) : Prop where
  order : InOrder passing w
  rest : ∀ j row, j ≠ id → w.execution j = some row → row.status ≠ .planning

section
variable {env : Env} {passing : Prop} {w t : World} {id j : UUID} {op : Op}
  {row ex : Execution} {ts : Time}
  {engine : ExecutionEngine} {fuel : Nat} {α : Type}

theorem InOrder.next (order : InOrder passing w) (lawful : Lawful passing id w op) :
    InOrder passing (handle env w op).2 :=
  ⟨bounded_handle order.bounded (lawful.drawn order.bounded), fun j => lawful.orderly
    (order.orderly j)⟩

theorem ordered_call (op : Op) {Q : Outcome Exn op.Res → World → Prop}
    (order : InOrder passing (handle env w op).2)
    (post : (passing → ∀ a, (handle env w op).1 = .ok a → op.Passes a) →
      answered (M := ordered env passing) Q (handle env w op).1 (handle env w op).2) :
    wp (ordered env passing) (M.perform op) Q w := by
  refine wp_perform.mpr ⟨order, ?_⟩
  rintro r t ⟨step, passes⟩
  obtain ⟨rfl, rfl⟩ := Prod.mk.inj step
  exact post passes

/-- A call that leaves the rows alone. -/
theorem rest_call (op : Op) (lawful : Lawful passing ⟨0⟩ w op)
    (rows : (handle env w op).2.repo.executions = w.repo.executions) (rest : AtRest passing w) :
    wp (ordered env passing) (M.perform op)
      (ends (AtRest passing) (fun _ => AtRest passing) (fun a => (handle env w op).1 = .ok a))
        w := by
  have next : AtRest passing (handle env w op).2 := by
    refine ⟨rest.order.next lawful, fun id row stored => rest.rest id row ?_⟩
    simpa only [World.execution, rows] using stored
  refine ordered_call op next.order fun _ => ?_
  cases answer : (handle env w op).1 with
  | ok a => exact ⟨rfl, next⟩
  | error e => exact next

/-- A call that leaves the rows alone and is answered. -/
theorem rest_ok (op : Op) {a : op.Res} {f : op.Res → M α} {Q : Outcome Exn α → World → Prop}
    (lawful : Lawful passing ⟨0⟩ w op)
    (rows : (handle env w op).2.repo.executions = w.repo.executions)
    (answer : (handle env w op).1 = .ok a) (rest : AtRest passing w)
    (next : AtRest passing (handle env w op).2 → wp (ordered env passing) (f a) Q
      (handle env w op).2) :
    wp (ordered env passing) (M.perform op >>= f) Q w := by
  rw [wp_bind]
  refine ordered_call op (rest.order.next lawful) fun _ => ?_
  rw [answer]
  refine next ⟨rest.order.next lawful, fun id row stored => rest.rest id row ?_⟩
  simpa only [World.execution, rows] using stored

/-- Reading a row. -/
theorem rest_get (rest : AtRest passing w) : wp (ordered env passing) (M.getExecution id)
    (ends (· = w) (fun _ _ => False) (· = w.execution id)) w :=
  ordered_call (.getExecution id)
    (rest.order.next (show Lawful passing id w (.getExecution id) from trivial)) fun _ => ⟨rfl, rfl⟩

/-- Writing a row over the stored one. -/
theorem rest_update (stored : w.execution id = some row) (rewrite : Rewrite w row ex)
    (left : ex.status ≠ .planning) (rest : AtRest passing w) : wp (ordered env passing)
    (M.updateExecution ex)
      (ends (fun t => AtRest passing t ∧ t.execution id = some ex) (fun _ _ => False)
        (fun _ => True)) w := by
  have keyed : ex.executionId = id := rewrite.executionId.trans (Table.get_eq_some.mp stored).2
  have present : (w.repo.executions.get ex.executionId).isSome = true := by
    rw [keyed, show w.repo.executions.get id = some row from stored]
    rfl
  have next : InOrder passing (handle env w (.updateExecution ex)).2 :=
    rest.order.next (show Lawful passing id w (.updateExecution ex) from ⟨row, stored, rewrite⟩)
  refine ordered_call (.updateExecution ex) next fun _ => ?_
  simp only [handle, present, if_true] at next ⊢
  refine ⟨trivial, ⟨next, fun j other found => ?_⟩, keyed ▸ Table.get_put_self⟩
  by_cases same : j = ex.executionId
  · subst same
    obtain rfl := Option.some.inj (Table.get_put_self.symm.trans found)
    exact left
  · exact rest.rest j other ((Table.get_put_of_ne same).symm.trans found)

theorem rest_reads {p : M α} (reads : Reads p) (rest : AtRest passing w) :
    wp (ordered env passing) p (ends (· = w) (fun _ _ => False) (fun _ => True)) w := by
  refine Built.wp (M := ordered env passing) (I := (· = w)) ?_ (fun _ _ no => no.elim) reads w rfl
  rintro β _ _ t ⟨stepId, _⟩ rfl
  exact ordered_call (.getStepResult stepId)
    (rest.order.next (show Lawful passing stepId t (.getStepResult stepId) from trivial)) fun _ =>
      ⟨trivial, rfl⟩

theorem rewriteExecution_rest {change : Execution → Execution}
    (input : ∀ row, ∃ d, change row = { row with input := d }) (rest : AtRest passing w) : wp
      (ordered env passing) (rewriteExecution id change) (fun _ t => AtRest passing t) w := by
  unfold rewriteExecution
  refine wp_then (rest_get rest) ?_ fun _ _ no => no.elim
  rintro _ _ rfl rfl
  cases stored : World.execution _ id with
  | none => exact rest
  | some row =>
      obtain ⟨d, changed⟩ := input row
      have rewrite : ∀ w : World, Rewrite w row (change row) := fun w => by
        rw [changed]
        exact ⟨rfl, .inl rfl, .inl rfl, fun a b => absurd (a.symm.trans b) (by simp),
          fun _ => .inl rfl⟩
      have left : (change row).status ≠ .planning := by
        rw [changed]
        exact rest.rest id row stored
      exact wp_then (rest_update stored (rewrite _) left rest) (fun _ _ _ after => after.1)
        fun _ _ no => no.elim

theorem enqueueExecution_rest (rest : AtRest passing w) :
    wp (ordered env passing) (enqueueExecution id) (fun _ t => AtRest passing t) w := by
  unfold enqueueExecution
  refine wp_then (rest_call .now trivial rfl rest) (fun ts t _ rest => ?_) fun _ _ rest => rest
  refine wp_keeping (rewriteExecution_rest (fun row => applyRuntimeMeta_eq row _) rest)
    fun ex t rest => ?_
  exact wp_then (rest_call (.enqueue id ts) trivial rfl rest) (fun _ _ _ rest => rest)
    fun _ _ rest => rest

theorem recordWorkerStarted_rest {workerId : String} {at_ : Option Time} (rest : AtRest passing w) :
    wp (ordered env passing) (recordWorkerStarted id workerId at_)
    (fun _ t => AtRest passing t) w := by
  unfold recordWorkerStarted
  cases at_ with
  | some ts => exact rewriteExecution_rest (fun row => applyRuntimeMeta_eq row _) rest
  | none =>
      refine wp_then (rest_call .now trivial rfl rest) (fun ts t _ rest => ?_) fun _ _ rest => rest
      exact rewriteExecution_rest (fun row => applyRuntimeMeta_eq row _) rest

theorem cancelExecution_rest {reason : String} (rest : AtRest passing w) :
    wp (ordered env passing) (cancelExecution id reason ts) (fun _ t => AtRest passing t) w := by
  unfold cancelExecution
  refine wp_then (rest_get rest) ?_ fun _ _ no => no.elim
  rintro _ _ rfl rfl
  cases stored : World.execution _ id with
  | none => exact rest
  | some row =>
      obtain ⟨input, requested⟩ := requestCancellationMeta_eq row ts reason
      simp only [requested]
      have begun := rest.rest id row stored
      refine wp_ite (fun terminal => ?_) fun live => ?_
      · refine wp_then (rest_update stored ⟨rfl, .inl rfl, .inl rfl, fun _ b => absurd b begun,
          fun _ => .inl rfl⟩ begun
          rest) (fun _ _ _ after => after.1) fun _ _ no => no.elim
      · have allowed := (abort_allowed (by simpa using live)).2
        simp only [validateExecutionTransition_ok.mpr allowed]
        exact wp_then (rest_update stored (entered_rewrite rfl allowed rfl (by simp) (by simp))
          (by simp) rest)
          (fun _ _ _ after => after.1) fun _ _ no => no.elim

theorem failExecution_rest {reason : String} (rest : AtRest passing w) :
    wp (ordered env passing) (failExecution id reason) (fun _ t => AtRest passing t) w := by
  unfold failExecution
  refine wp_then (rest_call .now trivial rfl rest) (fun ts t _ rest => ?_) fun _ _ rest => rest
  refine wp_then (rest_get rest) ?_ fun _ _ no => no.elim
  rintro _ _ rfl rfl
  cases stored : World.execution _ id with
  | none => exact rest
  | some row =>
      refine wp_ite (fun _ => rest) fun live => ?_
      have allowed := (abort_allowed (by simpa using live)).1
      simp only [validateExecutionTransition_ok.mpr allowed]
      exact wp_then (rest_update stored (entered_rewrite rfl allowed rfl (by simp) (by simp))
        (by simp) rest)
        (fun _ _ _ after => after.1) fun _ _ no => no.elim

theorem requestCancellation_rest {reason : String} (rest : AtRest passing w) :
    wp (ordered env passing) (requestCancellation id reason) (fun _ t => AtRest passing t) w := by
  unfold requestCancellation
  refine wp_then (rest_call .now trivial rfl rest) (fun ts t _ rest => ?_) fun _ _ rest => rest
  refine wp_keeping (rewriteExecution_rest (fun row => requestCancellationMeta_eq row ts reason)
    rest) fun ex t rest => ?_
  exact wp_ite (fun _ => rest) fun _ => cancelExecution_rest rest

/-- A start, where the executions that it does not concern are left alone. -/
theorem startExecution_rest (rest : AtRest passing w) :
    wp (ordered env passing) (engine.startExecution fuel id) (fun _ t => AtRest passing t) w := by
  have views : ∀ (a b : World) (op : Op), a = b ∧ RestElsewhere passing id a →
    (sessionCourse env passing id).sem.ok b op →
      (ordered env passing).ok a op ∧ ∀ r t, (ordered env passing).step a op r t →
        ∃ g, (sessionCourse env passing id).sem.step b op r g ∧ t = g ∧
          RestElsewhere passing id t := by
    rintro a _ op ⟨rfl, elsewhere⟩ ⟨lawful, _⟩
    refine ⟨elsewhere.order.next lawful, ?_⟩
    rintro r t ⟨step, passes⟩
    refine ⟨t, ⟨step, passes, False.elim, op.calls_any r⟩, rfl, ?_⟩
    obtain ⟨rfl, rfl⟩ := Prod.mk.inj step
    refine ⟨elsewhere.order.next lawful, fun j row other stored => elsewhere.rest j row other ?_⟩
    rw [← (Lawful.elsewhere lawful other).execution]
    exact stored
  have run := @startExecution_held (sessionCourse env passing id) w engine fuel (fun _ _ => trivial)
    rest.order.bounded
    (rest.order.orderly id) fun row stored planning => absurd planning (rest.rest id row stored)
  have start : w = w ∧ RestElsewhere passing id w :=
    ⟨rfl, rest.order, fun j row _ => rest.rest j row⟩
  refine wp_mono ?_ (wp_of_view views start run)
  rintro o t ⟨_, ⟨rfl, elsewhere⟩, rested⟩
  refine ⟨elsewhere.order, fun j row stored => ?_⟩
  by_cases same : j = id
  · subst same
    exact (rested.begun row stored).2
  · exact elsewhere.rest j row same stored

/-- The decision closes a row that awaits it. -/
theorem applyApprovalDecision_rest {proposal : ActionProposal} {decision : ApprovalDecision}
    {summary base : Dict} (stored : w.execution id = some row)
    (waits : row.status = .awaitingApproval) (traced : Traced row ex)
    (known : proposal ∈ w.repo.actionProposals) (rest : AtRest passing w) :
    wp (ordered env passing) (applyApprovalDecision ex proposal decision summary base ts)
      (fun _ t => AtRest passing t) w := by
  obtain ⟨proposalDone, status, result, events, applied, outcome, _, sameId, sameOwner⟩ :=
    applyApprovalDecision_eq ex proposal decision summary base ts
  rw [applied]
  obtain ⟨below, owned⟩ := rest.order.bounded.proposals proposal known
  refine rest_ok (.saveActionProposal proposalDone) ⟨sameId ▸ below, sameOwner ▸ owned⟩ rfl rfl rest
    fun rest => ?_
  obtain ⟨timeline, at_, concluded⟩ := @concludeExecution_eq ex events ts status summary result
  obtain ⟨rows, updated, _, rfl⟩ := traced
  rw [concluded]
  refine wp_then (rest_update stored (entered_rewrite rfl ?_ rfl ?_ fun _ => .inl waits) ?_ rest)
    (fun _ _ _ after => after.1) fun _ _ no => no.elim
  · rcases outcome with rfl | rfl <;> simp [waits, executionAllowed]
  · rcases outcome with rfl | rfl <;> simp
  · rcases outcome with rfl | rfl <;> simp

/-- An approval is recorded under its new identifier, and the waiting row is closed. -/
theorem submitApproval_rest {approver : String} {decision : ApprovalDecision}
    {notes : Option String} (rest : AtRest passing w) :
    wp (ordered env passing) (submitApproval id approver decision notes)
    (fun _ t => AtRest passing t) w := by
  unfold submitApproval
  refine wp_then (rest_call .now trivial rfl rest) (fun ts t _ rest => ?_) fun _ _ rest => rest
  refine wp_then (rest_get rest) ?_ fun _ _ no => no.elim
  rintro _ _ rfl rfl
  cases stored : World.execution _ id with
  | none => exact rest
  | some row =>
      refine wp_ite (fun _ => rest) fun waits => ?_
      have waits : row.status = .awaitingApproval := by simpa using waits
      refine wp_then wp_ofExcept ?_ ?_
      swap
      · rintro e _ ⟨_, rfl⟩
        exact rest
      rintro ⟨proposalId, evaluationId⟩ u _ rfl
      refine wp_ite (fun _ => rest) fun _ => ?_
      refine rest_ok .uuid4 trivial rfl rfl rest fun rest => ?_
      have stored : (handle env u .uuid4).2.execution id = some row := stored
      refine rest_ok (.saveApproval (approvalOf row.executionId ⟨u.fresh⟩ proposalId evaluationId
        approver decision notes ts))
        (Nat.lt_succ_self _) rfl rfl rest fun rest => ?_
      generalize approved : (handle env (handle env u .uuid4).2 (.saveApproval _)).2 = v at rest ⊢
      replace stored : v.execution id = some row := approved ▸ stored
      refine rest_ok (.getActionProposal proposalId) trivial rfl rfl rest fun rest => ?_
      change AtRest passing v at rest
      cases found : v.repo.actionProposals.get proposalId with
      | none => exact rest
      | some proposal =>
          refine rest_ok (.listStepsForExecution id) trivial rfl rfl rest fun rest => ?_
          change AtRest passing v at rest
          refine wp_then (rest_reads (validationSummaryFromSteps_reads _) rest) ?_
            fun _ _ no => no.elim
          rintro summary _ _ rfl
          refine wp_then (rest_reads (buildCompletionResult_reads _ _) rest) ?_
            fun _ _ no => no.elim
          rintro base _ _ rfl
          exact applyApprovalDecision_rest stored waits (Traced.refl.append ⟨by simp, rfl⟩)
            (Table.get_eq_some.mp found).1 rest

/-- A new row is stored; nothing belongs to it yet. -/
theorem AtRest.save (rest : AtRest passing w) (created : row.status = .created)
    (unplanned : row.currentPlanId = none) (drawn : row.executionId.n < w.fresh)
    (plans : ∀ p ∈ w.repo.plans, p.executionId ≠ row.executionId)
    (steps : ∀ s ∈ w.repo.steps, s.executionId ≠ row.executionId) :
    AtRest passing { w with repo.executions := w.repo.executions.put row } := by
  refine ⟨⟨@bounded_handle .refusing w (.saveExecution row) rest.order.bounded drawn, fun j => ?_⟩,
    fun j other stored => ?_⟩
  · by_cases same : j = row.executionId
    · subst same
      exact orderly_created plans steps Table.get_put_self created unplanned
    · refine (rest.order.orderly j).same ⟨Table.get_put_of_ne same, fun p _ => Iff.rfl, fun s _ =>
        Iff.rfl, fun s _ _ => rfl⟩
  · by_cases same : j = row.executionId
    · subst same
      obtain rfl := Option.some.inj (Table.get_put_self.symm.trans stored)
      simp [created]
    · exact rest.rest j other ((Table.get_put_of_ne same).symm.trans stored)

/-- A new execution is in order, under an identifier that was not in use. -/
theorem createExecution_rest {new : NewExecution} (rest : AtRest passing w) :
    wp (ordered env passing) (createExecution new ts)
    (fun o t => ∃ child, o = .ret child ∧ child.status = .created ∧
      t.execution child.executionId = some child ∧ AtRest passing t) w := by
  have before := rest.order.bounded
  refine rest_ok .uuid4 trivial rfl rfl rest fun rest => ?_
  refine rest_ok .uuid4 trivial rfl rfl rest fun rest => ?_
  have filed : AtRest passing (handle env (handle env (handle env w .uuid4).2 .uuid4).2
      (.saveContext (contextOf new ⟨w.fresh⟩ ts))).2 :=
    ⟨⟨bounded_handle rest.order.bounded (Nat.lt_succ_of_le (Nat.le_succ _)),
      fun j => (rest.order.orderly j).same (.of_tables rfl rfl rfl rfl)⟩, rest.rest⟩
  rw [wp_bind]
  refine ordered_call (.saveContext _) filed.order fun _ => ?_
  change wp _ (M.saveExecution (executionOf new ⟨w.fresh + 1⟩ ⟨w.fresh⟩ ts) >>= fun _ =>
    pure (executionOf new ⟨w.fresh + 1⟩ ⟨w.fresh⟩ ts)) _ _
  generalize made : executionOf new ⟨w.fresh + 1⟩ ⟨w.fresh⟩ ts = child
  have ident : child.executionId = ⟨w.fresh + 1⟩ := by rw [← made]; rfl
  have created : child.status = .created := by rw [← made]; rfl
  have unplanned : child.currentPlanId = none := by rw [← made]; rfl
  have apart : ∀ other : UUID, other.n < w.fresh → other ≠ child.executionId := by
    intro other below same
    rw [same, ident] at below
    exact absurd below (by simp)
  have next := filed.save created unplanned (by rw [ident]; exact Nat.lt_succ_self _)
    (fun p member => apart _ (before.plans p member).2)
      (fun s member => apart _ (before.steps s member).2)
  rw [wp_bind]
  refine ordered_call (.saveExecution child) next.order fun _ => ?_
  exact ⟨child, rfl, created, Table.get_put_self, next⟩

theorem createReplayChild_rest {request : ReplayRequest} {source : Execution}
    {ctx : ExecutionContext} (rest : AtRest passing w) :
    wp (ordered env passing) (createReplayChild request source ctx ts)
    (fun _ t => AtRest passing t) w := by
  unfold createReplayChild
  refine wp_then wp_ofExcept ?_ fun _ _ raised => raised.2 ▸ rest
  rintro _ _ _ rfl
  refine wp_then wp_ofExcept ?_ fun _ _ raised => raised.2 ▸ rest
  rintro ⟨input, overrides⟩ _ _ rfl
  rw [wp_bind]
  refine wp_mono ?_ (createExecution_rest rest)
  rintro _ t ⟨child, rfl, created, stored, rest⟩
  refine wp_then (rest_update stored ⟨rfl, .inl rfl, .inl rfl, fun _ planning => ?_, fun _ =>
    .inl rfl⟩ ?_ rest)
    (fun _ _ _ after => after.1) fun _ _ no => no.elim
  · simp [created] at planning
  · exact fun planning => absurd (created.symm.trans planning) (by simp)

theorem createReplay_rest {request : ReplayRequest} (rest : AtRest passing w) :
    wp (ordered env passing) (engine.createReplay fuel request)
    (fun _ t => AtRest passing t) w := by
  unfold ExecutionEngine.createReplay
  refine wp_then (rest_call .now trivial rfl rest) (fun ts t _ rest => ?_) fun _ _ rest => rest
  refine wp_then (rest_call (.getExecution _) trivial rfl rest) (fun source t _ rest => ?_)
    fun _ _ rest => rest
  cases source with
  | none => exact rest
  | some source =>
      refine wp_then (rest_call (.getContext _) trivial rfl rest) (fun ctx t _ rest => ?_)
        fun _ _ rest => rest
      cases ctx with
      | none => exact rest
      | some ctx =>
          have answered : ∀ child provenance v, AtRest passing v →
              wp (ordered env passing) (replayCreated request source child provenance)
                (fun _ t => AtRest passing t) v := by
            intro child provenance v rest
            refine wp_then (rest_call (.getExecution _) trivial rfl rest) ?_ fun _ _ rest => rest
            exact fun _ _ _ rest => wp_ite (fun _ => rest) fun _ => rest
          refine wp_keeping (createReplayChild_rest rest) ?_
          rintro ⟨child, provenance⟩ t rest
          refine wp_ite (fun _ => ?_) fun _ => answered child provenance t rest
          exact wp_keeping (startExecution_rest rest) fun child t rest => answered child
            provenance t rest

theorem runOnce_rest {workerId : String} (rest : AtRest passing w) :
    wp (ordered env passing) (engine.runOnce fuel workerId) (fun _ t => AtRest passing t) w := by
  unfold runOnce
  refine wp_then (rest_call .dequeue trivial rfl rest) (fun item t _ rest => ?_)
    fun _ _ rest => rest
  cases item with
  | none => exact rest
  | some item =>
      refine wp_then (rest_call .now trivial rfl rest) (fun now t _ rest => ?_) fun _ _ rest => rest
      refine wp_then (rest_call (.getExecution _) trivial rfl rest) (fun found t _ rest => ?_)
        fun _ _ rest => rest
      cases found with
      | none => exact rest
      | some _ =>
          refine wp_keeping (recordWorkerStarted_rest rest) fun _ t rest => ?_
          refine wp_then (rest_call .now trivial rfl rest) (fun _ t _ rest => ?_)
            fun _ _ rest => rest
          refine wp_keeping (startExecution_rest rest) fun _ t rest => ?_
          refine wp_then (rest_call .now trivial rfl rest) (fun _ t _ rest => ?_)
            fun _ _ rest => rest
          exact wp_then (rest_call (.getExecution _) trivial rfl rest) (fun _ _ _ rest => rest)
            fun _ _ rest => rest

theorem Call.rest (call : Call) (rest : AtRest passing w) :
    wp (ordered env passing) (call.program engine fuel) (fun _ t => AtRest passing t) w := by
  cases call with
  | createExecution request ts =>
      refine wp_discard (wp_mono ?_ (createExecution_rest rest))
      rintro _ _ ⟨_, _, _, _, rest⟩
      exact rest
  | createReplay request => exact wp_discard (createReplay_rest rest)
  | runOnce workerId => exact wp_discard (runOnce_rest rest)
  | party party =>
      cases party with
      | startExecution id => exact wp_discard (startExecution_rest rest)
      | enqueueExecution id => exact wp_discard (enqueueExecution_rest rest)
      | recordWorkerStarted id workerId at_ => exact wp_discard (recordWorkerStarted_rest rest)
      | requestCancellation id reason => exact wp_discard (requestCancellation_rest rest)
      | submitApproval id approver decision notes => exact wp_discard (submitApproval_rest rest)
      | failExecution id reason => exact wp_discard (failExecution_rest rest)

theorem rest_init : AtRest passing .init where
  order := ⟨bounded_init, fun _ => ⟨fun _ no => (Table.not_mem_empty no).elim, fun _ no =>
    (Table.not_mem_empty no).elim, fun _ no => (Table.not_mem_empty no).elim, fun _ no => by
      cases no⟩⟩
  rest _ _ no := by cases no

/-- The store, where the model finds that every validation passes. -/
abbrev passingSem (env : Env) : Semantics platform Exn where
  State := World
  step w op r t := handle env w op = (r, t) ∧ ∀ a, r = .ok a → op.Passes a
  ok _ _ := True

/-- The plan of the row is stored with a row for each of its steps. All these have succeeded, the
validation steps with a result that passed. -/
def Validated (w : World) (row : Execution) : Prop :=
  (∃ p ∈ w.repo.plans, row.currentPlanId = some p.planId ∧ p.executionId = row.executionId ∧
    Instantiated w p) ∧
    ∀ s ∈ w.repo.steps, s.executionId = row.executionId → s.status = .succeeded ∧
      (isValidationStep s = true → ∃ r, w.repo.stepResults.get s.stepId = some r ∧ r.Passed)

theorem Orderly.validated (orderly : Orderly True id w) (stored : w.execution id = some row)
    (completed : row.status = .completed) : Validated w row := by
  obtain ⟨_, _, planned, current, done⟩ := orderly.row row stored
  have keyed : row.executionId = id := (Table.get_eq_some.mp stored).2
  constructor
  · obtain ⟨planId, set⟩ := Option.ne_none_iff_exists'.mp (planned (.inr (.inr (.inr completed))))
    obtain ⟨p, member, own, rfl, instantiated⟩ := current planId set
    exact ⟨p, member, set, own, instantiated⟩
  · intro s member own
    have succeeded := done (.inr completed) s member own
    refine ⟨succeeded, fun validates => ?_⟩
    obtain ⟨r, result, passed⟩ := (orderly.steps s member (own.trans keyed)).finished succeeded
    exact ⟨r, result, passed trivial validates⟩

/-- In every world of every session in which the model finds that each validation passes, what is
completed has been validated. -/
theorem validation_gates_completion (env : Env) (engine : ExecutionEngine) (fuel : Nat)
    (calls : List Call) {rest : M Unit}
    (visits : Visits (passingSem env) (session engine fuel calls, .init) (rest, w))
    (stored : w.execution id = some row) (completed : row.status = .completed) :
    Validated w row := by
  have spec : wp (ordered env True) (session engine fuel calls) (fun o t => o = .halt ∨
    AtRest True t) .init :=
    wp_session (fun call _ rest => call.rest rest) calls rest_init
  have views : Views (passingSem env) (ordered env True) Eq := by
    rintro s g op r t rfl _ _ ⟨step, passes⟩
    exact ⟨t, ⟨step, fun _ => passes⟩, rfl⟩
  have order : InOrder True w := by
    refine visits.keeps views (I := InOrder True) ?_ rfl spec rest_init.order
    rintro s g op r t _ rfl _ order ⟨step, _⟩
    obtain rfl : (handle env s op).2 = t := congrArg Prod.snd step
    exact order
  exact (order.orderly id).validated stored completed

end

/-- An incident triage that is run to its end. -/
def triageSession : List Call := [.createExecution incidentRequest 0, .party (.startExecution ⟨1⟩)]

/-- A run whose surroundings never fail a validation. -/
theorem passing_visits {env : Env} {α : Type} {a b : M α × (handle env).sem.State}
    (passes : ∀ w (op : Op) r, (handle env w op).1 = .ok r → op.Passes r)
    (visits : Visits (handle env).sem a b) : @Visits platform Exn α (passingSem env) a b := by
  induction visits with
  | refl => exact .refl
  | call _ _ step ih =>
      refine ih.call trivial ⟨step, ?_⟩
      obtain ⟨rfl, rfl⟩ := Prod.mk.inj step
      exact passes _ _

theorem answering_passes (decision : PolicyDecision) (w : World) (op : Op) (r : op.Res)
    (answer : (handle (.answering decision "passed") w op).1 = .ok r) : op.Passes r := by
  cases op with
  | validateIncident request =>
      obtain rfl := Except.ok.inj answer
      rfl
  | validateCostAttribution request =>
      obtain rfl := Except.ok.inj answer
      rfl
  | _ => trivial

theorem validation_gates_completion_triage :
    ∃ row, (World.after (.answering .allow "passed") (.default .flat) 6 triageSession).execution
      ⟨1⟩ = some row ∧
      Validated (.after (.answering .allow "passed") (.default .flat) 6 triageSession) row := by
  have done : ((World.after (.answering .allow "passed") (.default .flat) 6 triageSession).execution
    ⟨1⟩).map
      (fun row => row.status) = some .completed := by decide +kernel
  obtain ⟨row, stored, completed⟩ := Option.map_eq_some_iff.mp done
  obtain ⟨_, visits⟩ := passed_after (.answering .allow "passed") (.default .flat) 6 triageSession
  exact ⟨row, stored, validation_gates_completion _ _ 6 triageSession
    (passing_visits (answering_passes .allow) visits) stored completed⟩

/-- The validation fails, and the execution is completed. -/
theorem completed_unvalidated : ¬ ∀ (env : Env) (engine : ExecutionEngine) (fuel : Nat)
    (calls : List Call) (w : World) (id : UUID) (row : Execution), Passed env engine fuel calls w →
      w.execution id = some row →
      row.status = .completed → Validated w row := by
  intro gated
  generalize ended : World.after (.answering .allow "failed") (.default .flat) 6 triageSession = w
  have done : (w.execution ⟨1⟩).map (fun row => (row.executionId, row.status)) =
    some (⟨1⟩, .completed) := by
    rw [← ended]
    decide +kernel
  have failed : (w.repo.steps.rows.find? isValidationStep).map (fun s => (s.executionId,
      ((w.repo.stepResults.get s.stepId).bind StepResult.validationOutcome).map
        ValidationOutcome.status)) =
      some (⟨1⟩, some "failed") := by
    rw [← ended]
    decide +kernel
  obtain ⟨row, stored, known⟩ := Option.map_eq_some_iff.mp done
  obtain ⟨ident, completed⟩ := Prod.mk.inj known
  obtain ⟨s, found, known⟩ := Option.map_eq_some_iff.mp failed
  obtain ⟨own, outcome⟩ := Prod.mk.inj known
  have passed : Passed (.answering .allow "failed") (.default .flat) 6 triageSession w :=
    ended ▸ passed_after ..
  have validated := gated _ _ 6 triageSession w _ row passed stored completed
  obtain ⟨r, result, vo, given, status⟩ :=
    (validated.2 s (List.mem_of_find?_eq_some found) (own.trans ident.symm)).2
      (List.find?_some found)
  simp [result, given, status] at outcome

end AgenticPlatform
