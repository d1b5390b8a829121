import AgenticPlatform.Parties
import Mathlib.Data.Set.Basic

/-! The governance of an execution: what is stored about it, what each status says about that,
and how the calls that store it change it. -/
namespace AgenticPlatform
open Interaction ExecutionEngine Store

/-- What is stored about the governance of one execution. -/
structure GovernanceFile where
  proposals : Set ActionProposal
  evaluations : Set PolicyEvaluation
  approvals : Set Approval

/-- The evaluation is about the proposal. -/
def PolicyEvaluation.Concerns (evaluation : PolicyEvaluation) (proposal : ActionProposal) : Prop :=
  evaluation.subjectRef.get "proposal_id" = .str proposal.proposalId.str

/-- The approval is a decision about exactly this evaluation and proposal. -/
structure Approval.References (approval : Approval) (evaluation : PolicyEvaluation)
    (proposal : ActionProposal) :
    Prop where
  evaluation : approval.policyEvaluationId = some evaluation.evaluationId
  proposal : approval.actionProposalId = some proposal.proposalId

namespace GovernanceFile
variable (file : GovernanceFile)

/-- Nothing has been evaluated yet. -/
structure Undecided : Prop where
  evaluations : file.evaluations = ∅
  approvals : file.approvals = ∅
  proposals : ∀ p ∈ file.proposals, p.status = .proposed

/-- The one evaluation, the proposal it is about and the approval given so far. -/
structure Evaluated (evaluation : PolicyEvaluation) (proposal : ActionProposal)
    (approval : Option Approval) :
    Prop where
  evaluations : file.evaluations = {evaluation}
  approvals : file.approvals = {a | approval = some a}
  held : proposal ∈ file.proposals
  others : ∀ p ∈ file.proposals, p.proposalId ≠ proposal.proposalId → p.status = .proposed
  keyed : ∀ p ∈ file.proposals, p.proposalId = proposal.proposalId → p = proposal
  concerns : evaluation.Concerns proposal

/-- An evaluation allows the approved proposal, by itself or together with an approval. -/
def Granted : Prop :=
  ∃ evaluation ∈ file.evaluations, ∃ proposal ∈ file.proposals, evaluation.Concerns proposal ∧
    proposal.status = .approved ∧ (evaluation.decision = .allow ∨
      (evaluation.decision = .conditional ∧
      ∃ approval ∈ file.approvals, approval.decision = .approve ∧
        approval.References evaluation proposal))

/-- An evaluation denies, or an approval rejects. -/
def Refused : Prop :=
  (∃ evaluation ∈ file.evaluations, evaluation.decision = .deny) ∨
    ∃ approval ∈ file.approvals, approval.decision = .reject

def Unapproved : Prop := ∀ p ∈ file.proposals, p.status ≠ .approved

end GovernanceFile

/-- What a row promises about its file, by its status. -/
def Standing (file : GovernanceFile) (row : Execution) : Prop :=
  match row.status with
  | .created | .planning | .executing | .validating => file.Undecided
  | .awaitingApproval => ∃ evaluation proposal,
      governanceIds row = .ok (proposal.proposalId, evaluation.evaluationId) ∧
        file.Evaluated evaluation proposal none ∧ evaluation.decision = .conditional ∧
        proposal.status = .awaitingApproval
  | .completed => (row.workflowType = "incident_triage" → file.Granted) ∧ ¬ file.Refused
  | .failed | .cancelled => file.Unapproved

/-- A completed incident triage was granted; what was refused is neither completed nor approved. -/
structure GovernanceSafe (file : GovernanceFile) (row : Execution) : Prop where
  granted : row.workflowType = "incident_triage" → row.status = .completed → file.Granted
  refused : file.Refused → row.status ≠ .completed ∧ file.Unapproved

section
variable {file : GovernanceFile} {row before after : Execution} {evaluation : PolicyEvaluation}
  {proposal : ActionProposal} {approval : Option Approval}

theorem GovernanceFile.Undecided.unapproved (undecided : file.Undecided) : file.Unapproved :=
  fun p member => by
  simp [undecided.proposals p member]

theorem GovernanceFile.Undecided.not_refused (undecided : file.Undecided) : ¬ file.Refused := by
  rintro (⟨E, member, _⟩ | ⟨A, member, _⟩)
  · simp [undecided.evaluations] at member
  · simp [undecided.approvals] at member

theorem GovernanceFile.Evaluated.unapproved
    (evaluated : file.Evaluated evaluation proposal approval)
    (other : proposal.status ≠ .approved) : file.Unapproved := by
  intro p member
  by_cases same : p.proposalId = proposal.proposalId
  · exact evaluated.keyed p member same ▸ other
  · simp [evaluated.others p member same]

theorem GovernanceFile.Evaluated.refused (evaluated : file.Evaluated evaluation proposal approval)
    (refused : file.Refused) : evaluation.decision = .deny ∨ ∃ A, approval = some A ∧
      A.decision = .reject := by
  rcases refused with ⟨E, member, deny⟩ | ⟨A, member, reject⟩
  · rw [evaluated.evaluations, Set.mem_singleton_iff] at member
    exact .inl (member ▸ deny)
  · rw [evaluated.approvals] at member
    exact .inr ⟨A, member, reject⟩

/-- A row whose evaluation still waits for its effect. -/
theorem GovernanceFile.Evaluated.safe (evaluated : file.Evaluated evaluation proposal approval)
    (live : row.status ≠ .completed)
    (effect : (evaluation.decision = .deny ∨ ∃ A, approval = some A ∧ A.decision = .reject) →
      proposal.status ≠ .approved) : GovernanceSafe file row where
  granted := fun _ done => absurd done live
  refused := fun refused => ⟨live, evaluated.unapproved (effect (evaluated.refused refused))⟩

theorem Standing.undecided (standing : Standing file row)
    (status : row.status = .created ∨ row.status = .planning ∨ row.status = .executing ∨
      row.status = .validating) :
    file.Undecided := by
  rcases status with status | status | status | status <;> simpa only [Standing, status]
    using standing

theorem Standing.awaiting (standing : Standing file row) (status : row.status = .awaitingApproval) :
    ∃ evaluation proposal, governanceIds row = .ok (proposal.proposalId, evaluation.evaluationId) ∧
      file.Evaluated evaluation proposal none ∧ evaluation.decision = .conditional ∧
      proposal.status = .awaitingApproval := by
  simpa only [Standing, status] using standing

theorem Standing.safe (standing : Standing file row) : GovernanceSafe file row := by
  cases status : row.status with
  | completed =>
      simp only [Standing, status] at standing
      exact ⟨fun incident _ => standing.1 incident, fun refused => absurd refused standing.2⟩
  | awaitingApproval =>
      obtain ⟨E, P, _, evaluated, conditional, waiting⟩ := standing.awaiting status
      exact evaluated.safe (by simp [status]) fun _ => by simp [waiting]
  | failed =>
      simp only [Standing, status] at standing
      exact ⟨fun _ no => by simp [status] at no, fun _ => ⟨by simp [status], standing⟩⟩
  | cancelled =>
      simp only [Standing, status] at standing
      exact ⟨fun _ no => by simp [status] at no, fun _ => ⟨by simp [status], standing⟩⟩
  | created | planning | executing | validating =>
      have undecided := standing.undecided (by simp [status])
      exact ⟨fun _ no => by simp [status] at no, fun refused => absurd refused
        undecided.not_refused⟩

/-- A row that moves on without a decision, or is given up. -/
theorem Standing.move (standing : Standing file before)
    (allowed : (before.status, after.status) ∈ executionAllowed)
    (undone : after.status ≠ .completed) (unasked : after.status ≠ .awaitingApproval) :
    Standing file after := by
  have unapproved : file.Unapproved ∨ before.status = .completed := by
    cases status : before.status with
    | completed => exact .inr rfl
    | awaitingApproval =>
        obtain ⟨E, P, _, evaluated, _, waiting⟩ := standing.awaiting status
        exact .inl (evaluated.unapproved (by simp [waiting]))
    | failed | cancelled =>
        simp only [Standing, status] at standing
        exact .inl standing
    | created | planning | executing | validating =>
        exact .inl (standing.undecided (by simp [status])).unapproved
  have live : before.status ≠ .completed := fun done => terminal_no_exit (by rw [done]; rfl) allowed
  have unapproved := unapproved.resolve_right live
  cases status : after.status with
  | completed => exact absurd status undone
  | awaitingApproval => exact absurd status unasked
  | failed | cancelled => simpa only [Standing, status] using unapproved
  | created | planning | executing | validating =>
      have early : before.status = .created ∨ before.status = .planning ∨
        before.status = .executing ∨
          before.status = .validating := by
        rw [status] at allowed
        revert allowed
        cases before.status <;> simp [executionAllowed]
      simpa only [Standing, status] using standing.undecided early

theorem Standing.same (standing : Standing file before) (status : after.status = before.status)
    (result : after.result = before.result)
    (workflowType : after.workflowType = before.workflowType) :
    Standing file after := by
  simp only [Standing, status, workflowType] at standing ⊢
  have ids : governanceIds after = governanceIds before := by simp only [governanceIds, result]
  rw [ids]
  exact standing

/-- Every step of a row that decides nothing. -/
theorem Standing.rowStep (standing : Standing file before) (step : RowStep before after)
    (undone : after.status = .completed → before.status = .completed)
    (unasked : after.status = .awaitingApproval → before.status = .awaitingApproval) :
    Standing file after := by
  cases step with
  | input d => exact standing.same rfl rfl rfl
  | trace traced =>
      obtain ⟨rows, t, _, rfl⟩ := traced
      exact standing.same rfl rfl rfl
  | status moved =>
      refine standing.move moved.allowed (fun done => ?_) fun asked => ?_
      · exact terminal_no_exit (by rw [undone done]; rfl) moved.allowed
      · have waiting := moved.allowed
        rw [asked, unasked asked] at waiting
        exact absurd waiting (by decide)

end

def World.file (w : World) (id : UUID) : GovernanceFile where
  proposals := {p | p ∈ w.repo.actionProposals ∧ p.executionId = id}
  evaluations := {e | e ∈ w.repo.policyEvaluations ∧ e.executionId = id}
  approvals := {a | a ∈ w.repo.approvals ∧ a.executionId = id}

/-- Every identifier below `n` and no other has been given out. -/
structure Issued (w : World) (n : Nat) : Prop where
  executions : ∀ row ∈ w.repo.executions, row.executionId.n < n
  proposals : ∀ p ∈ w.repo.actionProposals, p.proposalId.n < n ∧ p.executionId.n < n
  evaluations : ∀ e ∈ w.repo.policyEvaluations, e.evaluationId.n < n ∧ e.executionId.n < n
  approvals : ∀ a ∈ w.repo.approvals, a.approvalId.n < n ∧ a.executionId.n < n

/-- Every row but the one of `id` keeps what it promises. -/
structure Apart (id : UUID) (w : World) : Prop where
  issued : Issued w w.fresh
  standing : ∀ j row, j ≠ id → w.execution j = some row → Standing (w.file j) row

/-- Every row keeps what it promises. -/
structure Sound (w : World) : Prop where
  issued : Issued w w.fresh
  standing : ∀ id row, w.execution id = some row → Standing (w.file id) row

/-- What holds of every stored row. -/
def AllSafe (w : World) : Prop := ∀ id row, w.execution id = some row → GovernanceSafe
    (w.file id) row

/-- The rows and the files of two worlds are the same. -/
structure SameBooks (w t : World) : Prop where
  executions : t.repo.executions = w.repo.executions
  proposals : t.repo.actionProposals = w.repo.actionProposals
  evaluations : t.repo.policyEvaluations = w.repo.policyEvaluations
  approvals : t.repo.approvals = w.repo.approvals
  fresh : w.fresh ≤ t.fresh

section
variable {w t u : World} {id : UUID} {n : Nat} {row : Execution}

theorem Sound.safe (sound : Sound w) : AllSafe w :=
  fun id row stored => (sound.standing id row stored).safe

theorem Sound.apart (sound : Sound w) : Apart id w :=
  ⟨sound.issued, fun j row _ => sound.standing j row⟩

theorem Apart.sound (apart : Apart id w)
    (own : ∀ row, w.execution id = some row → Standing (w.file id) row) :
    Sound w := by
  refine ⟨apart.issued, fun j row stored => ?_⟩
  by_cases same : j = id
  · subst same
    exact own row stored
  · exact apart.standing j row same stored

theorem Apart.safe (apart : Apart id w) (stored : w.execution id = some row)
    (own : GovernanceSafe (w.file id) row) : AllSafe w := by
  intro j other found
  by_cases same : j = id
  · subst same
    obtain rfl := Option.some.inj (stored.symm.trans found)
    exact own
  · exact (apart.standing j other same found).safe

theorem SameBooks.refl : SameBooks w w := ⟨rfl, rfl, rfl, rfl, Nat.le_refl _⟩

theorem SameBooks.trans (first : SameBooks w t) (second : SameBooks t u) : SameBooks w u :=
  ⟨second.executions.trans first.executions, second.proposals.trans first.proposals,
    second.evaluations.trans first.evaluations, second.approvals.trans first.approvals,
    first.fresh.trans second.fresh⟩

theorem SameBooks.execution (same : SameBooks w t) : t.execution id = w.execution id := by
  simp only [World.execution, same.executions]

theorem SameBooks.file (same : SameBooks w t) : t.file id = w.file id := by
  simp only [World.file, same.proposals, same.evaluations, same.approvals]

theorem Issued.mono (issued : Issued w n) {m : Nat} (le : n ≤ m) : Issued w m where
  executions row member := (issued.executions row member).trans_le le
  proposals p member :=
    ⟨(issued.proposals p member).1.trans_le le, (issued.proposals p member).2.trans_le le⟩
  evaluations e member :=
    ⟨(issued.evaluations e member).1.trans_le le, (issued.evaluations e member).2.trans_le le⟩
  approvals a member :=
    ⟨(issued.approvals a member).1.trans_le le, (issued.approvals a member).2.trans_le le⟩

theorem SameBooks.issued (same : SameBooks w t) (issued : Issued w n) : Issued t n where
  executions := same.executions ▸ issued.executions
  proposals := same.proposals ▸ issued.proposals
  evaluations := same.evaluations ▸ issued.evaluations
  approvals := same.approvals ▸ issued.approvals

theorem Apart.same (apart : Apart id w) (same : SameBooks w t) : Apart id t := by
  refine ⟨(same.issued apart.issued).mono same.fresh, fun j row ne stored => ?_⟩
  rw [same.file]
  exact apart.standing j row ne (same.execution ▸ stored)

theorem Sound.same (sound : Sound w) (same : SameBooks w t) : Sound t := by
  refine ⟨(same.issued sound.issued).mono same.fresh, fun id row stored => ?_⟩
  rw [same.file]
  exact sound.standing id row (same.execution ▸ stored)

end

/-- Calls that concern neither rows nor files. -/
def Op.offBooks : Op → Bool
  | .saveExecution _ | .updateExecution _ | .saveActionProposal _ | .savePolicyEvaluation _
  | .saveApproval _ => false
  | _ => true

/-- The store, where every call must leave all rows safe. -/
abbrev governed (env : Env) : Semantics platform Exn where
  State := World
  step := fun w op r t => handle env w op = (r, t)
  ok := fun w op => AllSafe (handle env w op).2

section
variable {env : Env} {w : World} {id : UUID} {row ex : Execution} {op : Op}

theorem handle_offBooks (off : op.offBooks = true) (w : World) : SameBooks w
    (handle env w op).2 := by
  cases op with
  | uuid4 => exact ⟨rfl, rfl, rfl, rfl, Nat.le_succ _⟩
  | updateStep st =>
      simp only [handle]
      split <;> exact ⟨rfl, rfl, rfl, rfl, Nat.le_refl _⟩
  | saveExecution _ | updateExecution _ | saveActionProposal _ | savePolicyEvaluation _
  | saveApproval _ =>
      exact absurd off (by simp [Op.offBooks])
  | _ => exact ⟨rfl, rfl, rfl, rfl, Nat.le_refl _⟩

theorem quiet_offBooks {caught : Bool} (quiet : op.quiet caught = true) : op.offBooks = true := by
  cases op <;> first | rfl | exact quiet

theorem governed_call {Q : Outcome Exn op.Res → World → Prop} (safe : AllSafe (handle env w op).2)
    (post : answered (M := governed env) Q (handle env w op).1 (handle env w op).2) :
    wp (governed env) (M.perform op) Q w := by
  refine wp_perform.mpr ⟨safe, ?_⟩
  intro r t step
  obtain rfl : (handle env w op).1 = r := congrArg Prod.fst step
  obtain rfl : (handle env w op).2 = t := congrArg Prod.snd step
  exact post

theorem governed_off (off : op.offBooks = true) (safe : AllSafe w) :
    wp (governed env) (M.perform op)
    (ends (SameBooks w) (fun _ => SameBooks w) (fun _ => True)) w := by
  have same := @handle_offBooks env op off w
  refine governed_call (fun j row stored => same.file ▸ safe j row (same.execution ▸ stored)) ?_
  cases (handle env w op).1 with
  | ok a => exact ⟨trivial, same⟩
  | error e => exact same

theorem governed_get (safe : AllSafe w) : wp (governed env) (M.getExecution id)
    (fun o t => o = .ret (w.execution id) ∧ t = w) w := governed_call safe ⟨rfl, rfl⟩

/-- Drawing an identifier that nothing has. -/
theorem governed_uuid4 (safe : AllSafe w) : wp (governed env) M.uuid4
    (fun o t => o = .ret ⟨w.fresh⟩ ∧ SameBooks w t ∧ w.fresh < t.fresh) w :=
  governed_call safe ⟨rfl, ⟨rfl, rfl, rfl, rfl, Nat.le_succ _⟩, Nat.lt_succ_self _⟩

/-- The row that is written has to keep what it promises; the others are as they were. -/
theorem governed_update (apart : Apart id w) (stored : w.execution id = some row)
    (ident : ex.executionId = id) (standing : Standing (w.file id) ex) :
    wp (governed env) (M.updateExecution ex)
      (ends (fun t => Sound t ∧ t.execution id = some ex) (fun _ _ => False) (fun _ => True))
        w := by
  subst ident
  have present : (w.repo.executions.get ex.executionId).isSome = true := by
    rw [show w.repo.executions.get ex.executionId = some row from stored]
    rfl
  have step : handle env w (.updateExecution ex) =
      (.ok (), { w with repo := { w.repo with executions := w.repo.executions.put ex } }) := by
    simp only [handle, present, if_true]
  have written : ({ w with repo := { w.repo with executions := w.repo.executions.put ex } } :
    World).execution
      ex.executionId = some ex := Table.get_put_self (r := ex)
  have sound : Sound { w with repo := { w.repo with executions := w.repo.executions.put ex } } := by
    refine ⟨⟨?_, apart.issued.proposals, apart.issued.evaluations, apart.issued.approvals⟩,
      fun j other found => ?_⟩
    · intro other member
      rcases Table.mem_put.mp member with rfl | ⟨old, _⟩
      · obtain ⟨member, same⟩ := Table.get_eq_some.mp stored
        exact same ▸ apart.issued.executions row member
      · exact apart.issued.executions other old
    · by_cases same : j = ex.executionId
      · subst same
        obtain rfl := Option.some.inj (written.symm.trans found)
        exact standing
      · exact apart.standing j other same ((Table.get_put_of_ne same).symm.trans found)
  refine governed_call (by rw [step]; exact sound.safe) ?_
  rw [step]
  exact ⟨trivial, sound, written⟩

/-- A change that concerns the file of `id` alone. -/
structure FiledFor (id : UUID) (w t : World) : Prop where
  executions : t.repo.executions = w.repo.executions
  elsewhere : ∀ j, j ≠ id → t.file j = w.file j

theorem FiledFor.execution {t : World} {j : UUID} (filed : FiledFor id w t) :
    t.execution j = w.execution j := by
  simp only [World.execution, filed.executions]

theorem Apart.filed {t : World} (apart : Apart id w) (filed : FiledFor id w t)
    (issued : Issued t t.fresh) :
    Apart id t := by
  refine ⟨issued, fun j row ne stored => ?_⟩
  rw [filed.elsewhere j ne]
  exact apart.standing j row ne (filed.execution ▸ stored)

/-- The file after a proposal was saved. -/
def GovernanceFile.propose (file : GovernanceFile) (p : ActionProposal) : GovernanceFile :=
  { file with proposals := {x | x = p ∨ (x ∈ file.proposals ∧ x.proposalId ≠ p.proposalId)} }

def World.saveProposal (w : World) (p : ActionProposal) : World :=
  { w with repo := { w.repo with actionProposals := w.repo.actionProposals.put p } }

def World.saveEvaluation (w : World) (e : PolicyEvaluation) : World :=
  { w with repo := { w.repo with policyEvaluations := w.repo.policyEvaluations.put e } }

def World.saveApproval (w : World) (a : Approval) : World :=
  { w with repo := { w.repo with approvals := w.repo.approvals.put a } }

theorem saveProposal_file (p : ActionProposal) : (w.saveProposal p).file p.executionId =
    (w.file p.executionId).propose p := by
  simp only [World.file, World.saveProposal, GovernanceFile.propose, GovernanceFile.mk.injEq,
    and_self, and_true]
  ext x
  simp only [Set.mem_ofPred_eq, Table.mem_put]
  constructor
  · rintro ⟨rfl | ⟨old, ne⟩, same⟩
    · exact .inl rfl
    · exact .inr ⟨⟨old, same⟩, ne⟩
  · rintro (rfl | ⟨⟨old, same⟩, ne⟩)
    · exact ⟨.inl rfl, rfl⟩
    · exact ⟨.inr ⟨old, ne⟩, same⟩

theorem saveProposal_filed {p : ActionProposal}
    (own : ∀ x ∈ w.repo.actionProposals, x.proposalId = p.proposalId → x.executionId =
      p.executionId) :
    FiledFor p.executionId w (w.saveProposal p) := by
  refine ⟨rfl, fun j ne => ?_⟩
  simp only [World.file, World.saveProposal, GovernanceFile.mk.injEq, and_self, and_true]
  ext x
  exact Table.mem_put_elsewhere own ne.symm

theorem saveProposal_issued {p : ActionProposal} {n : Nat} (issued : Issued w n)
    (given : p.proposalId.n < n ∧ p.executionId.n < n) : Issued (w.saveProposal p) n := by
  refine ⟨issued.executions, fun x member => ?_, issued.evaluations, issued.approvals⟩
  rcases Table.mem_put.mp member with rfl | ⟨old, _⟩
  · exact given
  · exact issued.proposals x old

/-- A new evaluation of an execution that has none. -/
theorem saveEvaluation_file {e : PolicyEvaluation}
    (first : (w.file e.executionId).evaluations = ∅) :
    (w.saveEvaluation e).file e.executionId = { w.file e.executionId with evaluations := {e} } := by
  simp only [World.file, World.saveEvaluation, GovernanceFile.mk.injEq, and_true, true_and]
  ext x
  simp only [Set.mem_ofPred_eq, Table.mem_put, Set.mem_singleton_iff]
  constructor
  · rintro ⟨rfl | ⟨old, _⟩, same⟩
    · rfl
    · have none_old : x ∈ (w.file e.executionId).evaluations := ⟨old, same⟩
      simp [first] at none_old
  · rintro rfl
    exact ⟨.inl rfl, rfl⟩

theorem saveEvaluation_filed {e : PolicyEvaluation}
    (new : ∀ x ∈ w.repo.policyEvaluations, x.evaluationId ≠ e.evaluationId) :
    FiledFor e.executionId w (w.saveEvaluation e) := by
  refine ⟨rfl, fun j ne => ?_⟩
  simp only [World.file, World.saveEvaluation, GovernanceFile.mk.injEq, and_true, true_and]
  ext x
  exact Table.mem_put_elsewhere (fun y member same => absurd same (new y member)) ne.symm

theorem saveEvaluation_issued {e : PolicyEvaluation} {n : Nat} (issued : Issued w n)
    (given : e.evaluationId.n < n ∧ e.executionId.n < n) : Issued (w.saveEvaluation e) n := by
  refine ⟨issued.executions, issued.proposals, fun x member => ?_, issued.approvals⟩
  rcases Table.mem_put.mp member with rfl | ⟨old, _⟩
  · exact given
  · exact issued.evaluations x old

/-- A new approval of an execution that has none. -/
theorem saveApproval_file {a : Approval} (first : (w.file a.executionId).approvals = ∅) :
    (w.saveApproval a).file a.executionId = { w.file a.executionId with approvals := {a} } := by
  simp only [World.file, World.saveApproval, GovernanceFile.mk.injEq, true_and]
  ext x
  simp only [Set.mem_ofPred_eq, Table.mem_put, Set.mem_singleton_iff]
  constructor
  · rintro ⟨rfl | ⟨old, _⟩, same⟩
    · rfl
    · have none_old : x ∈ (w.file a.executionId).approvals := ⟨old, same⟩
      simp [first] at none_old
  · rintro rfl
    exact ⟨.inl rfl, rfl⟩

theorem saveApproval_filed {a : Approval}
    (new : ∀ x ∈ w.repo.approvals, x.approvalId ≠ a.approvalId) :
    FiledFor a.executionId w (w.saveApproval a) := by
  refine ⟨rfl, fun j ne => ?_⟩
  simp only [World.file, World.saveApproval, GovernanceFile.mk.injEq, true_and]
  ext x
  exact Table.mem_put_elsewhere (fun y member same => absurd same (new y member)) ne.symm

theorem saveApproval_issued {a : Approval} {n : Nat} (issued : Issued w n)
    (given : a.approvalId.n < n ∧ a.executionId.n < n) : Issued (w.saveApproval a) n := by
  refine ⟨issued.executions, issued.proposals, issued.evaluations, fun x member => ?_⟩
  rcases Table.mem_put.mp member with rfl | ⟨old, _⟩
  · exact given
  · exact issued.approvals x old

end
end AgenticPlatform
