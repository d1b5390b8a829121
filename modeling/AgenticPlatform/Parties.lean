import AgenticPlatform.RowSpec

/-! The parties that act on executions that exist, and how the stored rows answer them. -/
namespace AgenticPlatform
open Interaction ExecutionEngine Store

/-- One call of the service, by a worker or by a request handler. -/
inductive Party where
  | startExecution (executionId : UUID)
  | enqueueExecution (executionId : UUID)
  | recordWorkerStarted (executionId : UUID) (workerId : String) (now : Option Time)
  | requestCancellation (executionId : UUID) (reason : String)
  | submitApproval (executionId : UUID) (approver : String) (decision : ApprovalDecision)
      (notes : Option String)
  | failExecution (executionId : UUID) (reason : String)

/-- The call without its result. -/
def M.discard {α : Type} (p : M α) : M Unit := p >>= fun _ => pure ()

def Party.program (engine : ExecutionEngine) (fuel : Nat) : Party → M Unit
  | .startExecution id => (engine.startExecution fuel id).discard
  | .enqueueExecution id => (AgenticPlatform.enqueueExecution id).discard
  | .recordWorkerStarted id workerId now =>
      (AgenticPlatform.recordWorkerStarted id workerId now).discard
  | .requestCancellation id reason => (AgenticPlatform.requestCancellation id reason).discard
  | .submitApproval id approver decision notes =>
      (AgenticPlatform.submitApproval id approver decision notes).discard
  | .failExecution id reason => (AgenticPlatform.failExecution id reason).discard

section
variable {alone : Prop} {s : RowView} {w : World} {env : Env}

theorem discard_rows {calm : Prop} {α : Type} {p : M α}
    (spec : wp (rowSem alone calm) p (fun _ _ => True) s) :
    wp (rowSem alone calm) p.discard (fun _ _ => True) s := by
  unfold M.discard
  rw [wp_bind]
  refine wp_mono ?_ spec
  intro o t _
  cases o <;> trivial

/-- Every party keeps the row discipline. -/
theorem Party.rows (engine : ExecutionEngine) (fuel : Nat) (party : Party) :
    wp (rowSem alone False) (party.program engine fuel) (fun _ _ => True) s := by
  cases party with
  | startExecution id => exact discard_rows (startExecution_rows False.elim)
  | enqueueExecution id => exact discard_rows enqueueExecution_rows
  | recordWorkerStarted id workerId now => exact discard_rows recordWorkerStarted_rows
  | requestCancellation id reason => exact discard_rows requestCancellation_rows
  | submitApproval id approver decision notes => exact discard_rows submitApproval_rows
  | failExecution id reason => exact discard_rows failExecution_rows

theorem World.execution_id {id : UUID} {row : Execution} (stored : w.execution id = some row) :
    row.executionId = id := (Table.get_eq_some.mp stored).2

/-- A call that stores no new execution leaves a stored row alone, or is the update of that row. -/
theorem handle_execution_updates {op : Op} (unsaved : ∀ ex, op ≠ .saveExecution ex) (id : UUID) :
    (handle env w op).2.execution id = w.execution id ∨
      ∃ ex, op = .updateExecution ex ∧ ex.executionId = id ∧ (w.execution id).isSome = true ∧
        (handle env w op).2.execution id = some ex := by
  cases op with
  | updateExecution ex =>
      by_cases stored : (w.repo.executions.get ex.executionId).isSome = true
      · by_cases same : id = ex.executionId
        · subst same
          exact .inr ⟨ex, rfl, rfl, stored, by
            simp only [handle, stored, if_true, World.execution]
            exact Table.get_put_self⟩
        · refine .inl ?_
          simp only [handle, stored, if_true, World.execution]
          exact Table.get_put_of_ne same
      · exact .inl (by simp [handle, stored])
  | saveExecution ex => exact absurd rfl (unsaved ex)
  | updateStep st =>
      refine .inl ?_
      simp only [handle]
      split <;> rfl
  | _ => exact .inl rfl

/-- An allowed call leaves a stored row alone, or is the update of that row. -/
theorem handle_execution {calm : Prop} {op : Op} (allowed : rowAllowed alone calm s op)
    (id : UUID) :
    (handle env w op).2.execution id = w.execution id ∨
      ∃ ex, op = .updateExecution ex ∧ ex.executionId = id ∧ (w.execution id).isSome = true ∧
        (handle env w op).2.execution id = some ex := by
  apply handle_execution_updates
  rintro ex rfl
  exact allowed

/-- The view holds no row and no step that the store has otherwise. -/
structure Agrees (w : World) (s : RowView) : Prop where
  rows : ∀ id row, s.rows id = some row → w.execution id = some row
  listed : ∀ step ∈ s.listed, w.repo.steps.get step.stepId = some step

theorem agrees_unseen : Agrees w .unseen where
  rows := fun _ _ no => by cases no
  listed := fun _ no => absurd no List.not_mem_nil

/-- The store answers as the view expects: always without `alone`, and with it as long as the
view agrees with the store. -/
theorem handle_answer (agrees : alone → Agrees w s) (op : Op) : rowAnswer alone s op
    (handle env w op).1 := by
  cases op with
  | getExecution id =>
      refine ⟨w.execution id, rfl, fun ex stored => World.execution_id stored,
        fun onAlone row seen => ?_⟩
      exact (agrees onAlone).rows id row seen
  | listStepsForExecution id =>
      refine ⟨_, rfl, fun step member => ?_⟩
      simpa using (Table.mem_sortedBy.mp member).2
  | getStep id =>
      refine ⟨_, rfl, fun onAlone step member same => ?_⟩
      exact same ▸ (agrees onAlone).listed step member
  | getStepResult id => exact ⟨_, rfl⟩
  | _ => trivial

/-- A call that concerns neither rows nor steps. -/
theorem Agrees.other {op : Op} (agrees : Agrees w s) (same : ∀ r, observeRows s op r = s)
    (execution : ∀ id, (handle env w op).2.execution id = w.execution id)
    (steps : (handle env w op).2.repo.steps = w.repo.steps) :
    Agrees (handle env w op).2 (observeRows s op (handle env w op).1) := by
  rw [same]
  exact ⟨fun id row seen => (execution id).trans (agrees.rows id row seen),
    fun step member => steps ▸ agrees.listed step member⟩

theorem handle_agrees {calm : Prop} {op : Op} (agrees : Agrees w s)
    (allowed : rowAllowed alone calm s op) :
    Agrees (handle env w op).2 (observeRows s op (handle env w op).1) := by
  cases op with
  | getExecution id =>
      refine ⟨fun j row seen => ?_, agrees.listed⟩
      change (s.see id (w.execution id)).rows j = some row at seen
      rw [RowView.see_rows] at seen
      split at seen
      · next same => exact same ▸ seen
      · exact agrees.rows j row seen
  | updateExecution ex =>
      by_cases stored : (w.repo.executions.get ex.executionId).isSome = true
      · simp only [handle, stored, if_true]
        refine ⟨fun j row seen => ?_, agrees.listed⟩
        change (s.see ex.executionId (some ex)).rows j = some row at seen
        rw [RowView.see_rows] at seen
        split at seen
        · next same =>
            obtain rfl := Option.some.inj seen
            exact same ▸ Table.get_put_self
        · next other => exact (Table.get_put_of_ne other).trans (agrees.rows j row seen)
      · simpa [handle, stored, observeRows] using agrees
  | saveExecution ex => exact allowed.elim
  | listStepsForExecution id =>
      refine ⟨agrees.rows, fun step member => ?_⟩
      exact Table.get_of_mem (Table.mem_sortedBy.mp member).1
  | saveStep st => exact ⟨agrees.rows, fun _ no => absurd no List.not_mem_nil⟩
  | updateStep st =>
      simp only [handle]
      split <;> exact ⟨agrees.rows, fun _ no => absurd no List.not_mem_nil⟩
  | _ => exact agrees.other (fun r => by cases r <;> rfl) (fun _ => rfl) rfl

end
end AgenticPlatform
