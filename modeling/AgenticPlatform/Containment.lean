import AgenticPlatform.ExecutionService
import AgenticPlatform.EngineSpec
import AgenticPlatform.Rows

/-! Which failures `start_execution` contains: all but those of an exposed collaborator whose
error is no orchestration error. The loop ends because every round runs a pending step. -/
namespace AgenticPlatform
open Interaction ExecutionEngine Store

/-- Calls to collaborators that no `try` surrounds. -/
def Op.exposed : Op → Bool
  | .retrieve _ | .invoke _ _ | .evaluateProposal _ _ | .sha256 _ => true
  | _ => false

/-- An exposed call answers with an error that `start_execution` does not handle. -/
def escapes (op : Op) : Except Exn op.Res → Bool
  | .error e => op.exposed && decide (e.cls ≠ .orchestrationError)
  | .ok _ => false

/-- The steps of an execution that are yet to run. -/
def pendingSteps (executionId : UUID) (steps : Table UUID Step) : Nat :=
  steps.count fun s => decide (s.executionId = executionId) && decide (s.status = .pending)

/-- The run has come to an end that it may be left in. -/
def Settled (row : Execution) : Prop :=
  isExecutionTerminal row.status = true ∨ row.status = .awaitingApproval

/-- The store with a note of the errors that escape. -/
abbrev watched (env : Env) : Semantics platform Exn := (watch escapes (handle env)).sem

/-- Nothing has escaped; the row is stored and satisfies `P`, the steps satisfy `T`. -/
structure Holds (id : UUID) (P : Execution → Prop) (T : Table UUID Step → Prop)
    (s : World × Bool) : Prop where
  served : s.2 = false
  stored : ∃ row, s.1.execution id = some row ∧ P row
  steps : T s.1.repo.steps

/-- An error leaves the row in place, and is noted if it escapes. -/
structure Failed (id : UUID) (e : Exn) (s : World × Bool) : Prop where
  stored : ∃ row, s.1.execution id = some row
  escaped : s.2 = true ↔ ¬ Orchestration e

/-- After an error of the work: under a `try` all is still well. -/
abbrev AfterError (id : UUID) (P : Execution → Prop) (T : Table UUID Step → Prop)
    (caught : Bool) (e : Exn) :
    World × Bool → Prop :=
  match caught with
  | true => Holds id P T
  | false => Failed id e

section
variable {env : Env} {id : UUID} {P N : Execution → Prop} {T T' : Table UUID Step → Prop}
  {s : World × Bool}
  {engine : ExecutionEngine}

theorem Holds.mono (holds : Holds id P T s) (weaker : ∀ row, P row → N row)
    (steps : ∀ t, T t → T' t) :
    Holds id N T' s := by
  obtain ⟨row, stored, known⟩ := holds.stored
  exact ⟨holds.served, ⟨row, stored, weaker row known⟩, steps _ holds.steps⟩

/-- An orchestration error is contained. -/
theorem Holds.failed (holds : Holds id P T s) {e : Exn} (orchestration : Orchestration e) :
    Failed id e s := by
  obtain ⟨row, stored, _⟩ := holds.stored
  exact ⟨⟨row, stored⟩, by simp [holds.served, orchestration]⟩

theorem watched_call {op : Op} {Q : Outcome Exn op.Res → World × Bool → Prop}
    (post : answered (M := watched env) Q (handle env s.1 op).1
      ((handle env s.1 op).2, s.2 || escapes op (handle env s.1 op).1)) :
    wp (watched env) (M.perform op) Q s := by
  refine wp_perform.mpr ⟨trivial, ?_⟩
  rintro r t step
  obtain ⟨rfl, rfl⟩ := Prod.mk.inj step
  exact post

/-- A call that succeeds and leaves rows and steps alone. -/
theorem holds_call {op : Op} {a : op.Res} (answer : (handle env s.1 op).1 = .ok a)
    (executions : (handle env s.1 op).2.repo.executions = s.1.repo.executions)
    (steps : (handle env s.1 op).2.repo.steps = s.1.repo.steps) (holds : Holds id P T s) :
    wp (watched env) (M.perform op) (ends (Holds id P T) (fun _ _ => False) (· = a)) s := by
  refine watched_call ?_
  rw [answer]
  refine ⟨rfl, by simp [escapes, holds.served], ?_, steps ▸ holds.steps⟩
  simp only [World.execution, executions]
  exact holds.stored

/-- Only the exposed calls among the quiet ones outside of a `try` can fail. -/
theorem exposed_of_error {op : Op} (quiet : op.quiet false = true) {w : World} {e : Exn}
    (error : (handle env w op).1 = .error e) : op.exposed = true := by
  cases op <;>
    first
      | rfl
      | (simp [handle] at error; done)
      | exact absurd quiet (by simp [Op.quiet])

theorem not_exposed {op : Op} (quiet : op.quiet true = true) : op.exposed = false := by
  cases op <;> first | rfl | exact absurd quiet (by simp [Op.quiet])

theorem holds_quiet (caught : Bool) {op : Op} (quiet : op.quiet caught = true)
    (holds : Holds id P T s) :
    wp (watched env) (M.perform op)
    (ends (Holds id P T) (AfterError id P T caught) (fun _ => True)) s := by
  obtain ⟨calls, repo, _⟩ := @handle_quiet env caught op quiet s.1
  have stored : ∃ row, (handle env s.1 op).2.execution id = some row ∧ P row := by
    simp only [World.execution, repo]
    exact holds.stored
  have steps : T (handle env s.1 op).2.repo.steps := by
    rw [repo]
    exact holds.steps
  refine watched_call ?_
  cases answer : (handle env s.1 op).1 with
  | ok a => exact ⟨trivial, by simp [escapes, holds.served], stored, steps⟩
  | error e =>
      cases caught with
      | true => exact ⟨by simp [escapes, holds.served, not_exposed quiet], stored, steps⟩
      | false =>
          obtain ⟨row, known, _⟩ := stored
          refine ⟨⟨row, known⟩, ?_⟩
          simp [escapes, holds.served, exposed_of_error quiet answer, Orchestration]

theorem holds_get (holds : Holds id P T s) : wp (watched env) (M.getExecution id)
    (fun o t => ∃ row, o = .ret (some row) ∧ row.executionId = id ∧ P row ∧
      Holds id (· = row) T t) s := by
  obtain ⟨row, stored, known⟩ := holds.stored
  refine watched_call ?_
  have answer : (handle env s.1 (.getExecution id)).1 = .ok (some row) := congrArg Except.ok stored
  rw [answer]
  exact ⟨row, rfl, (Table.get_eq_some.mp stored).2, known, by simp [escapes, holds.served],
    ⟨row, stored, rfl⟩, holds.steps⟩

/-- The row that is written stands for the one that was stored. -/
theorem holds_update {ex : Execution} (ident : ex.executionId = id) (known : N ex)
    (holds : Holds id P T s) :
    wp (watched env) (M.updateExecution ex)
    (ends (Holds id N T) (fun _ _ => False) (fun _ => True)) s := by
  obtain ⟨row, stored, _⟩ := holds.stored
  have present : (s.1.repo.executions.get ex.executionId).isSome = true := by
    rw [ident, show s.1.repo.executions.get id = some row from stored]
    rfl
  refine watched_call ?_
  simp only [handle, present, if_true]
  refine ⟨trivial, by simp [escapes, holds.served], ⟨ex, ?_, known⟩, holds.steps⟩
  simp only [World.execution, ← ident]
  exact Table.get_put_self

theorem holds_ofExcept {α : Type} {x : Except Exn α} {a : α} (ok : x = .ok a)
    (holds : Holds id P T s) :
    wp (watched env) (M.ofExcept x) (ends (Holds id P T) (fun _ _ => False) (· = a)) s := by
  rw [ok]
  exact ⟨rfl, holds⟩

/-- The table after a step has run. -/
def afterStep (step : Step) (now : Time) (table : Table UUID Step) : Table UUID Step :=
  let running := { step with status := .running, updatedAt := now }
  (table.put running).put { running with status := .succeeded, updatedAt := now }

/-- A step that has run is no longer pending. -/
theorem pendingSteps_afterStep {step : Step} {now : Time} {table : Table UUID Step}
    (stored : table.get step.stepId = some step) (pending : step.status = .pending) :
    pendingSteps step.executionId
      (afterStep step now table) < pendingSteps step.executionId table := by
  refine Nat.lt_of_le_of_lt (Table.count_put_of_not (by simp))
    (Table.count_put_lt (by simp) stored ?_)
  simp [pending]

/-- Reading results changes nothing and does not fail. -/
theorem Reads.holds {α : Type} {p : M α} (reads : Reads p) (holds : Holds id P T s) :
    Interaction.wp (watched env) p (ends (Holds id P T) (fun _ _ => False) (fun _ => True)) s := by
  refine Built.wp (M := watched env) (I := Holds id P T) ?_ (fun _ _ no => no.elim) reads s holds
  rintro β _ _ t ⟨stepId, _⟩ holds
  refine wp_mono ?_ (holds_call rfl rfl rfl holds)
  intro o u hu
  cases o with
  | ret a => exact ⟨trivial, hu.2⟩
  | raise e => exact hu
  | halt => exact hu

theorem Draws.holds {α : Type} {p : M α} {R : α → Prop} (draws : Draws p R)
    (holds : Holds id P T s) :
    Interaction.wp (watched env) p (ends (Holds id P T) (fun _ _ => False) R) s := by
  refine Built.wp (M := watched env) (I := Holds id P T) ?_ (fun _ _ no => no.elim) draws s holds
  rintro β _ _ t ⟨⟩ holds
  refine wp_mono ?_ (holds_call rfl rfl rfl holds)
  intro o u hu
  cases o with
  | ret a => exact ⟨trivial, hu.2⟩
  | raise e => exact hu
  | halt => exact hu

theorem saveSteps_holds {n : Nat} (steps : List Step)
    (holds : Holds id P (pendingSteps id · ≤ n) s) :
    wp (watched env) (saveSteps steps)
      (ends (Holds id P (pendingSteps id · ≤ n + steps.length)) (fun _ _ => False) (fun _ => True))
        s := by
  induction steps generalizing s n with
  | nil => exact ⟨trivial, holds⟩
  | cons st rest ih =>
      have saved : wp (watched env) (M.saveStep st)
          (ends (Holds id P (pendingSteps id · ≤ n + 1)) (fun _ _ => False) (fun _ => True)) s := by
        refine watched_call ⟨trivial, by simp [escapes, handle, holds.served], holds.stored, ?_⟩
        exact Table.count_put_le.trans (Nat.succ_le_succ holds.steps)
      refine wp_then saved (fun _ t _ holds => ?_) fun _ _ no => no.elim
      refine wp_mono ?_ (ih holds)
      intro o u hu
      cases o with
      | ret a =>
          exact ⟨trivial, hu.2.mono (fun _ h => h)
            fun _ h => by simp only [List.length_cons]; omega⟩
      | raise e => exact hu
      | halt => exact hu

variable {row : Execution} {now : Time}

theorem enterPlanning_holds (ident : row.executionId = id) (holds : Holds id (· = row) T s) :
    wp (watched env) (enterPlanning row now)
    (fun o t => ∃ next, o = .ret next ∧ next.executionId = id ∧
      Holds id (· = next) T t ∧
      (next = row ∨ (row.status = .created ∧ next = enterStatus row .planning [] now))) s := by
  unfold enterPlanning
  refine wp_ite (fun created => ?_) fun _ => ⟨row, rfl, ident, holds, .inl rfl⟩
  refine wp_then (holds_ofExcept rfl holds) ?_ fun _ _ no => no.elim
  intro _ t _ holds
  refine wp_then (holds_update (N := (· = enterStatus row .planning [] now)) ident rfl holds) ?_
    fun _ _ no => no.elim
  exact fun _ t _ holds => ⟨_, rfl, ident, holds, .inr ⟨created, rfl⟩⟩

/-- Where planning leaves the row. -/
def Entered (row next : Execution) : Prop :=
  (row.status ≠ .planning ∧ next = row) ∨
    (row.status = .planning ∧ next.status = .executing ∧ next.input = row.input)

theorem enterExecuting_holds {n : Nat} (ident : row.executionId = id)
    (holds : Holds id (· = row) (pendingSteps id · ≤ n) s) :
    wp (watched env) (engine.enterExecuting row now)
      (ends (Holds id (Entered row) (pendingSteps id · ≤ n + 4)) (fun _ _ => False) (fun _ => True))
        s := by
  unfold enterExecuting
  refine wp_ite (fun planning => ?_) fun other =>
    ⟨trivial, holds.mono (fun _ same => .inl ⟨other, same⟩) fun _ h => Nat.le_add_right_of_le h⟩
  have created : Draws (createPlan engine.plannerMeta row now) (fun plan => Planned row plan) :=
    .bind draws_uuid4 fun planId _ => (planWorkflow_draws _ _ planId now).mono fun _ h => h.1
  refine wp_then (created.holds holds) ?_ fun _ _ no => no.elim
  intro plan t planned holds
  refine wp_then (holds_call (a := ()) rfl rfl rfl holds) ?_ fun _ _ no => no.elim
  intro _ t _ holds
  have instantiated : Draws (engine.instantiateSteps plan row now)
    (fun steps => steps.length ≤ 4) := by
    refine .bind (keyToId_draws plan.steps) fun ids keys => ?_
    obtain ⟨steps, built, related⟩ := buildSteps_planned engine planned now keys
    rw [built]
    exact .ret _ (related.length_eq ▸ planned.few)
  refine wp_then (instantiated.holds holds) ?_ fun _ _ no => no.elim
  intro steps t few holds
  refine wp_then (saveSteps_holds steps holds) ?_ fun _ _ no => no.elim
  intro _ t _ holds
  refine wp_then (holds_ofExcept rfl holds) ?_ fun _ _ no => no.elim
  intro _ t _ holds
  have entered : Entered row (enterStatus { row with currentPlanId := some plan.planId } .executing
      [("plan_id", .str plan.planId.str)] now) := .inr ⟨planning, rfl, rfl⟩
  refine wp_mono ?_ (holds_update ident entered holds)
  intro o u hu
  cases o with
  | ret a =>
      exact ⟨trivial, hu.2.mono (fun _ h => h) fun _ h => h.trans (Nat.add_le_add_left few n)⟩
  | raise e => exact hu
  | halt => exact hu

/-- Cancelling a stored row does not fail. -/
theorem cancelExecution_holds {reason : String} (holds : Holds id P T s) :
    wp (watched env) (cancelExecution id reason now)
      (ends (Holds id (fun next => ∃ row, P row ∧
          if isExecutionTerminal row.status then next.status = row.status
            else next.status = .cancelled) T)
        (fun _ _ => False) (fun _ => True)) s := by
  unfold cancelExecution
  rw [wp_bind]
  refine wp_mono ?_ (holds_get holds)
  rintro _ t ⟨row, rfl, ident, known, holds⟩
  obtain ⟨input, requested⟩ := requestCancellationMeta_eq row now reason
  simp only [andThen_ret, requested]
  refine wp_ite (fun terminal => ?_) fun live => ?_
  · exact wp_then (holds_update ident ⟨row, known, by rw [if_pos terminal]⟩ holds)
      (fun _ _ _ holds => ⟨trivial, holds⟩) fun _ _ no => no.elim
  · have allowed := validateExecutionTransition_ok.mpr (abort_allowed (by simpa using live)).2
    rw [allowed]
    exact wp_then (holds_update ident ⟨row, known, by rw [if_neg live]; rfl⟩ holds)
      (fun _ _ _ holds => ⟨trivial, holds⟩) fun _ _ no => no.elim

theorem failExecution_holds {reason : String} (holds : Holds id P T s) :
    wp (watched env) (failExecution id reason)
      (ends (Holds id Settled T) (fun _ _ => False) (fun _ => True)) s := by
  unfold failExecution
  refine wp_then (holds_call rfl rfl rfl holds) ?_ fun _ _ no => no.elim
  intro ts t _ holds
  rw [wp_bind]
  refine wp_mono ?_ (holds_get holds)
  rintro _ t ⟨row, rfl, ident, _, holds⟩
  refine wp_ite (fun terminal => ⟨trivial, holds.mono (fun _ same => same ▸ .inl terminal)
    fun _ h => h⟩)
    fun live => ?_
  rw [validateExecutionTransition_ok.mpr (abort_allowed (by simpa using live)).1]
  exact wp_then (holds_update (N := Settled) ident (.inl rfl) holds)
    (fun _ _ _ holds => ⟨trivial, holds⟩) fun _ _ no => no.elim

theorem stuck_holds (steps : List Step) (holds : Holds id P T s) :
    wp (watched env) (stuck steps) (ends (Holds id Settled T) (Failed id) (fun _ => True)) s :=
  wp_ite (fun _ => holds.failed rfl) fun _ => holds.failed rfl

/-- Governance prepares a row of this execution in which the run may be left. -/
theorem finalize_holds {steps : List Step} (ident : row.executionId = id) (holds : Holds id P T s) :
    wp (watched env) (finalizeIncidentTriageGovernance row steps now)
      (ends (Holds id P T) (Failed id) (fun ex => ex.executionId = id ∧ Settled ex)) s := by
  unfold finalizeIncidentTriageGovernance
  refine wp_then (holds_quiet false rfl holds) ?_ fun _ _ failed => failed
  intro ctx t _ holds
  cases ctx with
  | none => exact holds.failed rfl
  | some ctx =>
      refine wp_then ((validationSummaryFromSteps_reads steps).holds holds) ?_ fun _ _ no => no.elim
      intro summary t _ holds
      refine wp_then ((buildCompletionResult_reads row steps).holds holds) ?_ fun _ _ no => no.elim
      intro result t _ holds
      refine wp_then ((stepOutputByName_reads steps _).holds holds) ?_ fun _ _ no => no.elim
      intro validateOut t _ holds
      refine wp_then (holds_call rfl rfl rfl holds) ?_ fun _ _ no => no.elim
      intro proposalId t _ holds
      refine wp_then (holds_call (a := ()) rfl rfl rfl holds) ?_ fun _ _ no => no.elim
      intro _ t _ holds
      refine wp_then (holds_quiet false rfl holds) ?_ fun _ _ failed => failed
      intro draft t _ holds
      refine wp_then (holds_call rfl rfl rfl holds) ?_ fun _ _ no => no.elim
      intro evaluationId t _ holds
      refine wp_then (holds_call (a := ()) rfl rfl rfl holds) ?_ fun _ _ no => no.elim
      intro _ t _ holds
      obtain ⟨proposalDone, status, payload, events, applied, outcome, _⟩ :=
        applyPolicyDecision_eq _
        (escalationProposal row proposalId (stepByPlannerName steps "validate_incident")
          validateOut now)
        evaluationId draft.decision summary result now
      rw [applied]
      refine wp_then (holds_call (a := ()) rfl rfl rfl holds) ?_ fun _ _ no => no.elim
      intro _ t _ holds
      refine ⟨⟨concludeExecution_executionId.trans ident, ?_⟩, holds⟩
      rcases outcome with ⟨rfl, _⟩ | rfl | rfl <;> simp [Settled, isExecutionTerminal]

theorem completeRun_holds {steps : List Step} (ident : row.executionId = id)
    (holds : Holds id P T s) :
    wp (watched env) (completeRun row steps)
    (ends (Holds id Settled T) (Failed id) (fun _ => True)) s := by
  unfold completeRun
  refine wp_ite (fun _ => ?_) fun _ => stuck_holds steps holds
  refine wp_then (holds_call rfl rfl rfl holds) ?_ fun _ _ no => no.elim
  intro now t _ holds
  refine wp_ite (fun _ => wp_ite (fun _ => ?_) fun _ => ?_) fun _ =>
    wp_ite (fun _ => holds.failed rfl) fun _ => stuck_holds steps holds
  · refine wp_then (finalize_holds ident holds) ?_ fun _ _ failed => failed
    rintro ex t ⟨ident, settled⟩ holds
    exact wp_then (holds_update ident settled holds) (fun _ _ _ holds => ⟨trivial, holds⟩)
      fun _ _ no => no.elim
  · refine wp_then (holds_ofExcept rfl holds) ?_ fun _ _ no => no.elim
    intro _ t _ holds
    refine wp_then ((validationSummaryFromSteps_reads steps).holds holds) ?_ fun _ _ no => no.elim
    intro summary t _ holds
    refine wp_then ((buildCompletionResult_reads row steps).holds holds) ?_ fun _ _ no => no.elim
    intro result t _ holds
    exact wp_then (holds_update (N := Settled) ident (.inl rfl) holds)
      (fun _ _ _ holds => ⟨trivial, holds⟩) fun _ _ no => no.elim

theorem Holds.exact (holds : Holds id P T s) : Holds id P (· = s.1.repo.steps) s :=
  ⟨holds.served, holds.stored, rfl⟩

end

end AgenticPlatform
