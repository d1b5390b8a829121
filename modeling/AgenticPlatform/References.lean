import AgenticPlatform.ToolEvidence
import AgenticPlatform.Interaction.Knowledge

/-! The foreign keys of the schema. The rows of the platform name each other, and the schema asks of
every written row that the rows it names exist. The engine writes a row only after the rows it
names, so no interleaving of callers leaves a row that names nothing. -/
namespace AgenticPlatform
open Interaction ExecutionEngine Store

/-- The tables whose rows have an identifier of their own. -/
inductive RowKind where
  | context | execution | plan | step | proposal | evaluation | approval | toolCall
  deriving DecidableEq

/-- What can be known of an identifier or a name. -/
inductive Fact where
  /-- It is that of a row, which other rows may name. -/
  | row (kind : RowKind) (id : UUID)
  /-- A row may be written under it. -/
  | slot (kind : RowKind) (id : UUID)
  /-- The execution may be acted on. -/
  | visible (executionId : UUID)
  /-- A context may be made for the tenant. -/
  | tenant (name : String)
  deriving DecidableEq

/-- A column that may be null. -/
def ofNullable (kind : RowKind) (id : Option UUID) : List Fact := (id.map (Fact.row kind)).toList

def ExecutionContext.references (context : ExecutionContext) : List Fact :=
  [.tenant context.tenantId]

def Execution.references (ex : Execution) : List Fact :=
  .row .context ex.executionContextId :: ofNullable .execution ex.parentExecutionId ++ ofNullable
    .plan ex.currentPlanId

def ExecutionPlan.references (plan : ExecutionPlan) : List Fact :=
  .row .execution plan.executionId :: ofNullable .plan plan.parentPlanId

def Step.references (step : Step) : List Fact :=
  [.row .execution step.executionId, .row .plan step.planId]

def StepResult.references (result : StepResult) : List Fact := [.row .step result.stepId]

def ActionProposal.references (proposal : ActionProposal) : List Fact :=
  .row .execution proposal.executionId :: ofNullable .step proposal.stepId

def PolicyEvaluation.references (evaluation : PolicyEvaluation) : List Fact :=
  [.row .execution evaluation.executionId, .row .context evaluation.executionContextId]

def Approval.references (approval : Approval) : List Fact :=
  .row .execution approval.executionId :: ofNullable .evaluation approval.policyEvaluationId ++
    ofNullable .proposal approval.actionProposalId

def ToolCall.references (tc : ToolCall) : List Fact :=
  [.row .execution tc.executionId, .row .step tc.stepId, .row .context tc.executionContextId] ++
    ofNullable .proposal tc.actionProposalId

def ExecutionWorkItem.references (item : ExecutionWorkItem) : List Fact :=
  [.row .execution item.executionId, .visible item.executionId]

/-- What the governance block in the result of an execution names. The schema does not know of it,
but the approval that follows takes its references from there. -/
def Execution.governed (ex : Execution) : List Fact :=
  match governanceIds ex with
  | .ok (proposalId, evaluationId) => [.row .proposal proposalId, .row .evaluation evaluationId]
  | .error _ => []

/-- What must be known where a call is made: the identifier that it reads or writes under, and what
the row of a write names. -/
def Op.requires : Op → List Fact
  | .saveContext context => .slot .context context.contextId :: context.references
  | .getContext id => [.row .context id]
  | .saveExecution ex | .updateExecution ex =>
      .slot .execution ex.executionId :: (ex.references ++ ex.governed)
  | .getExecution id | .listStepsForExecution id => [.visible id]
  | .savePlan plan => .slot .plan plan.planId :: plan.references
  | .getPlan id => [.row .plan id]
  | .saveStep step | .updateStep step => .slot .step step.stepId :: step.references
  | .getStep id | .getStepResult id => [.row .step id]
  | .saveStepResult result => result.references
  | .saveActionProposal proposal => .slot .proposal proposal.proposalId :: proposal.references
  | .getActionProposal id => [.row .proposal id]
  | .savePolicyEvaluation evaluation =>
      .slot .evaluation evaluation.evaluationId :: evaluation.references
  | .saveApproval approval => .slot .approval approval.approvalId :: approval.references
  | .saveToolCall tc => .slot .toolCall tc.toolCallId :: tc.references
  | .enqueue id _ => [.row .execution id, .visible id]
  | _ => []

abbrev Known := Fact → Prop

def Known.Covers (K : Known) (facts : List Fact) : Prop := ∀ fact ∈ facts, K fact

/-- An execution row that was read or written. -/
structure Known.Row (K : Known) (ex : Execution) : Prop where
  stored : K (.row .execution ex.executionId)
  slot : K (.slot .execution ex.executionId)
  visible : K (.visible ex.executionId)
  named : K.Covers (ex.references ++ ex.governed)

/-- A step row that was read or written. -/
structure Known.StepRow (K : Known) (step : Step) : Prop where
  stored : K (.row .step step.stepId)
  slot : K (.slot .step step.stepId)
  visible : K (.visible step.executionId)
  named : K.Covers step.references

/-- The row of a tool call is about what was asked. -/
structure ToolCall.Echoes (tc : ToolCall) (request : ToolInvokeRequest) : Prop where
  executionId : tc.executionId = request.executionId
  stepId : tc.stepId = request.stepId
  executionContextId : tc.executionContextId = request.executionContextId
  actionProposalId : tc.actionProposalId = request.actionProposalId

/-- What an answer tells where the call was allowed. -/
def Known.Tells (K : Known) : (op : Op) → op.Res → Prop
  | .saveContext context, _ => K (.row .context context.contextId)
  | .saveExecution ex, _ => K (.row .execution ex.executionId) ∧ K (.visible ex.executionId)
  | .savePlan plan, _ => K (.row .plan plan.planId)
  | .saveActionProposal proposal, _ => K (.row .proposal proposal.proposalId)
  | .savePolicyEvaluation evaluation, _ => K (.row .evaluation evaluation.evaluationId)
  | .getContext id, found => ∀ ctx, found = some ctx → ctx.contextId = id ∧ K (.tenant ctx.tenantId)
  | .getExecution id, found => ∀ ex, found = some ex → ex.executionId = id ∧ K.Row ex
  | .getStep _, found => ∀ step, found = some step → K.StepRow step
  | .listStepsForExecution _, steps => ∀ step ∈ steps, K.StepRow step
  | .getActionProposal id, found => ∀ proposal, found = some proposal →
      proposal.proposalId = id ∧ K (.slot .proposal id) ∧ K.Covers proposal.references
  | .dequeue, found => ∀ item, found = some item → K (.visible item.executionId)
  | .uuid4, id => ∀ kind, kind ≠ .toolCall → K (.slot kind id)
  | .invoke request _, tc => tc.Echoes request ∧ K (.slot .toolCall tc.toolCallId)
  | _, _ => True

/-- The calls of a program name only what is known. -/
abbrev Known.Calls (K : Known) {α : Type} (p : M α) : Prop :=
  Interaction.Calls (fun op : Op => K.Covers op.requires) K.Tells p

abbrev Known.CallsFor (K : Known) {α : Type} (p : M α) (R : α → Prop) : Prop :=
  Interaction.CallsFor (fun op : Op => K.Covers op.requires) K.Tells p R

/-- The tools answer for what they were asked, under identifiers that may be used. -/
def Env.Echoes (env : Env) (K : Known) : Prop :=
  ∀ n request now tc, env.invoke n request now = .ok tc →
  tc.Echoes request ∧ K (.slot .toolCall tc.toolCallId)

section
variable {K L : Known} {a b : List Fact}

theorem Known.Covers.mono (covers : K.Covers a) (le : K ≤ L) : L.Covers a := fun fact member => le _
    (covers fact member)

@[simp] theorem Known.covers_nil : K.Covers [] := fun _ no => absurd no List.not_mem_nil

@[simp] theorem Known.covers_cons {fact : Fact} : K.Covers (fact :: a) ↔ K fact ∧ K.Covers a :=
  List.forall_mem_cons

@[simp] theorem Known.covers_append : K.Covers (a ++ b) ↔ K.Covers a ∧ K.Covers b :=
  List.forall_mem_append

@[simp] theorem Known.covers_nullable {kind : RowKind} {id : Option UUID} :
    K.Covers (ofNullable kind id) ↔ ∀ i, id = some i → K (.row kind i) := by
  cases id with
  | none => simp [ofNullable]
  | some i => simp [ofNullable]

theorem Known.covers_one {fact : Fact} (known : K fact) : K.Covers [fact] := Known.covers_cons.mpr
    ⟨known, covers_nil⟩

theorem Known.Row.mono {ex : Execution} (row : K.Row ex) (le : K ≤ L) : L.Row ex :=
  ⟨le _ row.stored, le _ row.slot, le _ row.visible, row.named.mono le⟩

theorem Known.StepRow.mono {step : Step} (row : K.StepRow step) (le : K ≤ L) : L.StepRow step :=
  ⟨le _ row.stored, le _ row.slot, le _ row.visible, row.named.mono le⟩

/-- What is told stays true of more. -/
theorem Known.Tells.mono {op : Op} {answer : op.Res} (tells : K.Tells op answer) (le : K ≤ L) :
    L.Tells op answer := by
  cases op with
  | saveContext _ | savePlan _ | saveActionProposal _ | savePolicyEvaluation _ => exact le _ tells
  | saveExecution ex => exact ⟨le _ tells.1, le _ tells.2⟩
  | getContext id =>
      intro ctx found
      exact ⟨(tells ctx found).1, le _ (tells ctx found).2⟩
  | getExecution id =>
      intro ex found
      exact ⟨(tells ex found).1, (tells ex found).2.mono le⟩
  | getStep id => exact fun step found => (tells step found).mono le
  | listStepsForExecution id => exact fun step member => (tells step member).mono le
  | getActionProposal id =>
      intro proposal found
      obtain ⟨same, slot, named⟩ := tells proposal found
      exact ⟨same, le _ slot, named.mono le⟩
  | dequeue => exact fun item found => le _ (tells item found)
  | uuid4 => exact fun kind other => le _ (tells kind other)
  | invoke request now => exact ⟨tells.1, le _ tells.2⟩
  | _ => trivial

end

/-- The rows of the store name what is known, in their governance blocks too. -/
structure World.Within (w : World) (K : Known) : Prop where
  contexts : ∀ row ∈ w.repo.contexts, K.Covers row.references
  executions : ∀ row ∈ w.repo.executions, K.Covers (row.references ++ row.governed)
  plans : ∀ row ∈ w.repo.plans, K.Covers row.references
  steps : ∀ row ∈ w.repo.steps, K.Covers row.references
  stepResults : ∀ row ∈ w.repo.stepResults, K.Covers row.references
  actionProposals : ∀ row ∈ w.repo.actionProposals, K.Covers row.references
  policyEvaluations : ∀ row ∈ w.repo.policyEvaluations, K.Covers row.references
  approvals : ∀ row ∈ w.repo.approvals, K.Covers row.references
  toolCalls : ∀ row ∈ w.repo.toolCalls, K.Covers row.references
  queue : ∀ item ∈ w.queue, K.Covers item.references

theorem World.Within.mono {w : World} {K L : Known} (within : w.Within K) (le : K ≤ L) :
    w.Within L where
  contexts row member := (within.contexts row member).mono le
  executions row member := (within.executions row member).mono le
  plans row member := (within.plans row member).mono le
  steps row member := (within.steps row member).mono le
  stepResults row member := (within.stepResults row member).mono le
  actionProposals row member := (within.actionProposals row member).mono le
  policyEvaluations row member := (within.policyEvaluations row member).mono le
  approvals row member := (within.approvals row member).mono le
  toolCalls row member := (within.toolCalls row member).mono le
  queue item member := (within.queue item member).mono le

section
variable {env : Env} {w : World} {op : Op}

/-- A call that writes what may be written. -/
theorem World.Within.handle {K : Known} (within : w.Within K) (covers : K.Covers op.requires) :
    (handle env w op).2.Within K := by
  have named {fact : Fact} {facts : List Fact} (covers : K.Covers (fact :: facts)) :
    K.Covers facts :=
    (Known.covers_cons.mp covers).2
  cases op with
  | saveContext c =>
      exact { within with contexts := Table.forall_put within.contexts (named covers) }
  | saveExecution ex =>
      exact { within with executions := Table.forall_put within.executions (named covers) }
  | updateExecution ex =>
      simp only [AgenticPlatform.handle]
      split
      · exact { within with executions := Table.forall_put within.executions (named covers) }
      · exact within
  | savePlan plan => exact { within with plans := Table.forall_put within.plans (named covers) }
  | saveStep step => exact { within with steps := Table.forall_put within.steps (named covers) }
  | updateStep step =>
      simp only [AgenticPlatform.handle]
      split
      · exact { within with steps := Table.forall_put within.steps (named covers) }
      · exact within
  | saveStepResult result =>
      exact { within with stepResults := Table.forall_put within.stepResults covers }
  | saveActionProposal p =>
      exact
        { within with
          actionProposals := Table.forall_put within.actionProposals (named covers) }
  | savePolicyEvaluation e =>
      exact
        { within with
          policyEvaluations := Table.forall_put within.policyEvaluations (named covers) }
  | saveApproval a =>
      exact { within with approvals := Table.forall_put within.approvals (named covers) }
  | saveToolCall tc =>
      exact { within with toolCalls := Table.forall_put within.toolCalls (named covers) }
  | enqueue id now =>
      refine { within with queue := List.forall_mem_append.mpr ⟨within.queue, ?_⟩ }
      exact List.forall_mem_singleton.mpr covers
  | dequeue =>
      exact
        { within with queue := fun item member => within.queue item (List.mem_of_mem_tail member) }
  | _ => exact { within with }

theorem isSome_put {α : Type} [Keyed UUID α] {t : Table UUID α} {r : α} {id : UUID}
    (stored : (t.get id).isSome = true) :
    ((t.put r).get id).isSome = true := by
  rw [Table.get_put]
  split
  · rfl
  · exact stored

theorem put_self {α : Type} [Keyed UUID α] {t : Table UUID α} {r : α} :
    ((t.put r).get (key r)).isSome = true := by
  rw [Table.get_put_self]
  rfl

/-- The rows that exist. -/
def World.has (w : World) : RowKind → UUID → Bool
  | .context, id => (w.repo.contexts.get id).isSome
  | .execution, id => (w.repo.executions.get id).isSome
  | .plan, id => (w.repo.plans.get id).isSome
  | .step, id => (w.repo.steps.get id).isSome
  | .proposal, id => (w.repo.actionProposals.get id).isSome
  | .evaluation, id => (w.repo.policyEvaluations.get id).isSome
  | .approval, id => (w.repo.approvals.get id).isSome
  | .toolCall, id => (w.repo.toolCalls.get id).isSome

/-- No call takes a row away. -/
theorem has_grows {kind : RowKind} {id : UUID} (has : w.has kind id = true) :
    (handle env w op).2.has kind id = true := by
  cases op with
  | saveContext _ | saveExecution _ | savePlan _ | saveStep _ | saveActionProposal _
  | savePolicyEvaluation _
  | saveApproval _ | saveToolCall _ =>
      cases kind with
      | context | execution | plan | step | proposal | evaluation | approval | toolCall =>
          first
          | exact isSome_put has
          | exact has
  | updateExecution ex =>
      simp only [handle]
      split
      · cases kind with
        | execution => exact isSome_put has
        | context | plan | step | proposal | evaluation | approval | toolCall => exact has
      · exact has
  | updateStep step =>
      simp only [handle]
      split
      · cases kind with
        | step => exact isSome_put has
        | context | execution | plan | proposal | evaluation | approval | toolCall => exact has
      · exact has
  | _ => exact has

/-- Knowledge of a store: its rows, which may be written and seen, and new identifiers. -/
structure Known.Of (K : Known) (w : World) : Prop where
  rows : ∀ kind id, w.has kind id = true → K (.row kind id)
  slots : ∀ kind id, K (.row kind id) → K (.slot kind id)
  sees : ∀ id, K (.slot .execution id) → K (.visible id)
  fresh : ∀ kind, kind ≠ .toolCall → K (.slot kind ⟨w.fresh⟩)

/-- The answers of the store tell what is known of it. -/
theorem tells_handle {K : Known} (echoes : env.Echoes K) (within : w.Within K) (of : K.Of w)
    (written : ∀ kind id, (handle env w op).2.has kind id = true → K (.row kind id)) {a : op.Res}
    (answer : (handle env w op).1 = .ok a) : K.Tells op a := by
  have row (ex : Execution) (member : ex ∈ w.repo.executions) : K.Row ex := by
    have stored := of.rows .execution ex.executionId
      (congrArg Option.isSome (Table.get_of_mem member))
    exact ⟨stored, of.slots _ _ stored, of.sees _ (of.slots _ _ stored),
      within.executions ex member⟩
  have stepRow (step : Step) (member : step ∈ w.repo.steps) : K.StepRow step := by
    have stored := of.rows .step step.stepId (congrArg Option.isSome (Table.get_of_mem member))
    have named := within.steps step member
    exact ⟨stored, of.slots _ _ stored, of.sees _ (of.slots _ _ (Known.covers_cons.mp named).1),
      named⟩
  cases op with
  | saveContext c => exact written .context _ put_self
  | saveExecution ex =>
      have stored := written .execution _ (put_self (t := w.repo.executions) (r := ex))
      exact ⟨stored, of.sees _ (of.slots _ _ stored)⟩
  | savePlan plan => exact written .plan _ put_self
  | saveActionProposal p => exact written .proposal _ put_self
  | savePolicyEvaluation e => exact written .evaluation _ put_self
  | getContext id =>
      rintro ctx rfl
      obtain ⟨member, same⟩ := Table.get_eq_some.mp (Except.ok.inj answer)
      exact ⟨same, (Known.covers_cons.mp (within.contexts ctx member)).1⟩
  | getExecution id =>
      rintro ex rfl
      obtain ⟨member, same⟩ := Table.get_eq_some.mp (Except.ok.inj answer)
      exact ⟨same, row ex member⟩
  | getStep id =>
      rintro step rfl
      exact stepRow step (Table.get_eq_some.mp (Except.ok.inj answer)).1
  | listStepsForExecution id =>
      obtain rfl := Except.ok.inj answer
      exact fun step member => stepRow step (Table.mem_sortedBy.mp member).1
  | getActionProposal id =>
      rintro p rfl
      have stored : w.repo.actionProposals.get id = some p := Except.ok.inj answer
      obtain ⟨member, same⟩ := Table.get_eq_some.mp stored
      exact ⟨same, of.slots _ _ (of.rows .proposal id (congrArg Option.isSome stored)),
        within.actionProposals p member⟩
  | dequeue =>
      rintro item rfl
      have member := List.mem_of_head? (Except.ok.inj answer)
      exact (Known.covers_cons.mp (Known.covers_cons.mp (within.queue item member)).2).1
  | uuid4 =>
      obtain rfl := Except.ok.inj answer
      exact of.fresh
  | invoke request now => exact echoes _ _ _ _ answer
  | _ => trivial

/-- What is known to those who may see everything. -/
def World.known (w : World) : Known
  | .row kind id => w.has kind id = true
  | _ => True

theorem known_grows : w.known ≤ (handle env w op).2.known := by
  intro fact known
  cases fact with
  | row kind id => exact has_grows known
  | slot kind id => trivial
  | visible id => trivial
  | tenant name => trivial

/-- What the callers know grows with the store. -/
theorem known_rules (echoing : ∀ n request now tc, env.invoke n request now = .ok tc →
      tc.Echoes request) :
    Learning (AgenticPlatform.handle env) World.known (fun w => w.Within w.known)
    (fun K op => K.Covers op.requires)
      Known.Tells where
  grows _ _ _ _ := known_grows
  keeps _ _ within covers := (within.handle covers).mono known_grows
  tells w op a k within _ le answer := by
    refine Known.Tells.mono ?_ le
    refine tells_handle (fun n request now tc given => ⟨echoing n request now tc given, trivial⟩)
      (within.mono known_grows)
      ⟨fun kind id has => has_grows has, fun _ _ _ => trivial, fun _ _ => trivial, fun _ _ =>
        trivial⟩ (fun _ _ => id) answer

end
end AgenticPlatform
