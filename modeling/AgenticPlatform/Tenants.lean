import AgenticPlatform.ApprovalBinding
import AgenticPlatform.References
import AgenticPlatform.Store.Slice

/-! The rows of some tenants and the rest of the store. A call that names only rows of the rest does
the same there as in the whole store, and changes none of the rows of those tenants. -/
namespace AgenticPlatform
open Interaction Store

/-- A choice of identifiers, by table. -/
abbrev Rows := RowKind → UUID → Bool

/-- The rows under the identifiers; the result of a step goes with the step. -/
def Repository.only (repo : Repository) (rows : Rows) : Repository where
  contexts := repo.contexts.only (rows .context)
  executions := repo.executions.only (rows .execution)
  plans := repo.plans.only (rows .plan)
  steps := repo.steps.only (rows .step)
  stepResults := repo.stepResults.only (rows .step)
  actionProposals := repo.actionProposals.only (rows .proposal)
  policyEvaluations := repo.policyEvaluations.only (rows .evaluation)
  approvals := repo.approvals.only (rows .approval)
  toolCalls := repo.toolCalls.only (rows .toolCall)

/-- The world without the rows. -/
def World.without (w : World) (rows : Rows) : World :=
  { w with repo := w.repo.only fun kind id => !rows kind id }

/-- Whether the context is that of a tenant in `T`. -/
def World.ownsContext (w : World) (T : String → Bool) (contextId : UUID) : Bool :=
  (w.repo.contexts.get contextId).any fun context => T context.tenantId

/-- An execution belongs to the tenant of its context. -/
def World.ownsExecution (w : World) (T : String → Bool) (executionId : UUID) : Bool :=
  (w.execution executionId).any fun ex => w.ownsContext T ex.executionContextId

/-- What belongs to the tenants in `T`: any other row belongs to the tenant of its execution. -/
def World.owned (w : World) (T : String → Bool) : Rows
  | .context, id => w.ownsContext T id
  | .execution, id => w.ownsExecution T id
  | .plan, id => (w.repo.plans.get id).any fun plan => w.ownsExecution T plan.executionId
  | .step, id => (w.repo.steps.get id).any fun step => w.ownsExecution T step.executionId
  | .proposal, id => (w.repo.actionProposals.get id).any fun p => w.ownsExecution T p.executionId
  | .evaluation, id => (w.repo.policyEvaluations.get id).any fun e => w.ownsExecution
    T e.executionId
  | .approval, id => (w.repo.approvals.get id).any fun a => w.ownsExecution T a.executionId
  | .toolCall, id => (w.repo.toolCalls.get id).any fun tc => w.ownsExecution T tc.executionId

/-- What is known to those who see none of the rows in `G` and act for no tenant in `T`. -/
def World.beyond (w : World) (G : Rows) (T : String → Bool) : Known
  | .row kind id => (w.without G).has kind id = true
  | .slot kind id => G kind id = false
  | .visible id => G .execution id = false
  | .tenant name => T name = false

section
variable {env : Env} {w s : World} {G : Rows} {T : String → Bool} {op : Op}
  {kind : RowKind} {id : UUID}

theorem has_without : (s.without G).has kind id = (!G kind id && s.has kind id) := by
  cases kind with
  | context | execution | plan | step | proposal | evaluation | approval | toolCall =>
      simp only [World.has, World.without, Repository.only, Table.get_only]
      split <;> simp_all

theorem beyond_slot (known : s.beyond G T (.row kind id)) : G kind id = false := by
  have has : (s.without G).has kind id = true := known
  rw [has_without, Bool.and_eq_true, Bool.not_eq_true'] at has
  exact has.1

theorem slot_of {facts : List Fact} (covers : (s.beyond G T).Covers (.slot kind id :: facts)) :
    G kind id = false :=
  (Known.covers_cons.mp covers).1

theorem row_of {facts : List Fact} (covers : (s.beyond G T).Covers (.row kind id :: facts)) :
    G kind id = false :=
  beyond_slot (Known.covers_cons.mp covers).1

theorem visible_of {facts : List Fact} (covers : (s.beyond G T).Covers (.visible id :: facts)) :
    G .execution id = false :=
  (Known.covers_cons.mp covers).1

/-- The steps of an execution outside are outside. -/
def Coherent (G : Rows) (s : World) : Prop := ∀ step ∈ s.repo.steps, G .step step.stepId = true →
    G .execution step.executionId = true

/-- A call that names only what is known beyond the rows is answered as if they were not there, and
does the same. -/
theorem handle_without (coherent : Coherent G s) (covers : (s.beyond G T).Covers op.requires) :
    handle env (s.without G) op = ((handle env s op).1, (handle env s op).2.without G) := by
  have put {α : Type} [Keyed UUID α] {t : Table UUID α} (kind : RowKind) (r : α)
    (slot : G kind (key r) = false) :
      (t.put r).only (fun id => !G kind id) = (t.only fun id => !G kind id).put r :=
        Table.only_put (by rw [slot]; rfl)
  have get {α : Type} [Keyed UUID α] {t : Table UUID α} {kind : RowKind} {id : UUID}
    (slot : G kind id = false) :
      (t.only fun id => !G kind id).get id = t.get id := Table.get_only_of (by rw [slot]; rfl)
  cases op with
  | saveContext c =>
      simp only [handle, World.without, Repository.only, put .context c (slot_of covers)]
  | getContext id => simp only [handle, World.without, Repository.only, get (row_of covers)]
  | saveExecution ex =>
      simp only [handle, World.without, Repository.only, put .execution ex (slot_of covers)]
  | getExecution id => simp only [handle, World.without, Repository.only, get (visible_of covers)]
  | updateExecution ex =>
      simp only [handle, World.without, Repository.only, get (slot_of covers)]
      split
      · rw [put .execution ex (slot_of covers)]
      · rfl
  | savePlan plan =>
      simp only [handle, World.without, Repository.only, put .plan plan (slot_of covers)]
  | getPlan id => simp only [handle, World.without, Repository.only, get (row_of covers)]
  | saveStep step =>
      simp only [handle, World.without, Repository.only, put .step step (slot_of covers)]
  | getStep id => simp only [handle, World.without, Repository.only, get (row_of covers)]
  | updateStep step =>
      simp only [handle, World.without, Repository.only, get (slot_of covers)]
      split
      · rw [put .step step (slot_of covers)]
      · rfl
  | listStepsForExecution id =>
      have outside : G .execution id = false := visible_of covers
      have listed : (s.repo.steps.only fun id => !G .step id).sortedBy (fun x => x.executionId = id)
        Step.createdAt =
          s.repo.listStepsForExecution id := by
        refine Table.sortedBy_only fun step member own => ?_
        cases guarded : G .step step.stepId with
        | false => rfl
        | true =>
            have inside := coherent step member guarded
            rw [of_decide_eq_true own, outside] at inside
            cases inside
      simp only [handle, World.without, Repository.only, Repository.listStepsForExecution, listed]
  | saveStepResult result =>
      simp only [handle, World.without, Repository.only, put .step result (row_of covers)]
  | getStepResult id => simp only [handle, World.without, Repository.only, get (row_of covers)]
  | saveActionProposal p =>
      simp only [handle, World.without, Repository.only, put .proposal p (slot_of covers)]
  | getActionProposal id => simp only [handle, World.without, Repository.only, get (row_of covers)]
  | savePolicyEvaluation e =>
      simp only [handle, World.without, Repository.only, put .evaluation e (slot_of covers)]
  | saveApproval a =>
      simp only [handle, World.without, Repository.only, put .approval a (slot_of covers)]
  | saveToolCall tc =>
      simp only [handle, World.without, Repository.only, put .toolCall tc (slot_of covers)]
  | _ => rfl

/-- It leaves the rows as they were. -/
theorem handle_only (covers : (s.beyond G T).Covers op.requires) :
    (handle env s op).2.repo.only G = s.repo.only G := by
  have put {α : Type} [Keyed UUID α] {t : Table UUID α} (kind : RowKind) (r : α)
    (slot : G kind (key r) = false) :
      (t.put r).only (G kind) = t.only (G kind) := Table.only_put_of_not slot
  cases op with
  | saveContext c => simp only [handle, Repository.only, put .context c (slot_of covers)]
  | saveExecution ex => simp only [handle, Repository.only, put .execution ex (slot_of covers)]
  | updateExecution ex =>
      simp only [handle]
      split
      · simp only [Repository.only, put .execution ex (slot_of covers)]
      · rfl
  | savePlan plan => simp only [handle, Repository.only, put .plan plan (slot_of covers)]
  | saveStep step => simp only [handle, Repository.only, put .step step (slot_of covers)]
  | updateStep step =>
      simp only [handle]
      split
      · simp only [Repository.only, put .step step (slot_of covers)]
      · rfl
  | saveStepResult result => simp only [handle, Repository.only, put .step result (row_of covers)]
  | saveActionProposal p => simp only [handle, Repository.only, put .proposal p (slot_of covers)]
  | savePolicyEvaluation e =>
      simp only [handle, Repository.only, put .evaluation e (slot_of covers)]
  | saveApproval a => simp only [handle, Repository.only, put .approval a (slot_of covers)]
  | saveToolCall tc => simp only [handle, Repository.only, put .toolCall tc (slot_of covers)]
  | _ => rfl

end
end AgenticPlatform
