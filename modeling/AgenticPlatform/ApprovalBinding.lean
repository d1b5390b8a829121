import AgenticPlatform.GatewayPort
import AgenticPlatform.EngineSpec

/-! The gateway's `submit_approval`: which ids a request names, what the engine records of it and
which approval the caller gets back. -/
namespace AgenticPlatform
open Interaction

structure ApprovalRequest where
  executionId : UUID
  actionProposalId : Option UUID
  policyEvaluationId : Option UUID
  decision : String
  approver : String
  notes : Option String

/-- The ids of a waiting row against those of the request, which are compared when both are
there. -/
def snapshotMismatch (text : Rendering) (ex : Execution) (request : ApprovalRequest) :
    Option String :=
  if ex.status = .awaitingApproval then
    match (ex.result.getD []).get "governance", request.actionProposalId,
      request.policyEvaluationId with
    | .obj gov, some proposalId, some evaluationId =>
        if proposalId.str ≠ text.str (Dict.get gov "proposal_id") then
          some "action_proposal_id does not match execution governance snapshot"
        else if evaluationId.str ≠ text.str (Dict.get gov "evaluation_id") then
          some "policy_evaluation_id does not match execution governance snapshot"
        else none
    | _, _, _ => none
  else none

/-- `ExecutionFacade.submit_approval`. -/
def facadeSubmitApproval (text : Rendering) (request : ApprovalRequest) : GatewayM Approval :=
  if request.actionProposalId = none ∧ request.policyEvaluationId = none then
    GatewayM.throw .valueError
      "at least one of action_proposal_id or policy_evaluation_id is required"
  else
    match ApprovalDecision.parse request.decision with
    | none => GatewayM.throw .valueError ("invalid decision: " ++ request.decision)
    | some decision => do
        match ← (M.getExecution request.executionId).lift with
        | none => GatewayM.throw .keyError ("UUID('" ++ request.executionId.str ++ "')")
        | some ex =>
            match snapshotMismatch text ex request with
            | some message => GatewayM.throw .valueError message
            | none =>
                let _ex ← (submitApproval request.executionId request.approver decision
                  request.notes).lift
                match (← GatewayM.listApprovalsForExecution request.executionId).getLast? with
                | none => GatewayM.throw (.other "RuntimeError") "approval not persisted"
                | some approval => pure approval

/-- The engine files an approval: the row waits, and its result names a proposal and an
evaluation. -/
structure Files (w : World) (executionId : UUID) (decision : ApprovalDecision) (row : Execution)
    (proposalId evaluationId : UUID) : Prop where
  stored : w.execution executionId = some row
  awaiting : row.status = .awaitingApproval
  ids : governanceIds row = .ok (proposalId, evaluationId)
  decided : decision ≠ .defer

section
variable {env : Env} {w : World} {row : Execution} {executionId proposalId evaluationId : UUID}
  {decision : ApprovalDecision} {approver : String} {notes : Option String}

theorem updateExecution_answer {ex : Execution}
    (stored : (w.repo.executions.get ex.executionId).isSome) :
    (handle env w (.updateExecution ex)).1 = .ok () :=
  congrArg Prod.fst (if_pos stored)

theorem updateExecution_approvals {ex : Execution} :
    (handle env w (.updateExecution ex)).2.repo.approvals = w.repo.approvals := by
  simp only [handle]
  split <;> rfl

/-- The proposal and the row are written, and no approval. -/
theorem applyApprovalDecision_ends {ex : Execution} {proposal : ActionProposal}
    {summary base : Dict} {ts : Time} (stored : (w.repo.executions.get ex.executionId).isSome)
    (decided : decision ≠ .defer) :
    wp (handle env).sem (applyApprovalDecision ex proposal decision summary base ts)
      (fun o t => o.isRet = true ∧ t.repo.approvals = w.repo.approvals) w := by
  unfold applyApprovalDecision
  cases decision with
  | defer => exact absurd rfl decided
  | reject =>
      refine wp_sem_ok rfl (wp_then (wp_ofExcept_ok rfl) ?_ fun _ _ no => no.elim)
      rintro _ _ rfl rfl
      exact wp_sem_ok (updateExecution_answer stored) ⟨rfl, updateExecution_approvals⟩
  | approve =>
      refine wp_sem_ok rfl (wp_then (wp_ofExcept_ok rfl) ?_ fun _ _ no => no.elim)
      rintro _ _ rfl rfl
      exact wp_sem_ok (updateExecution_answer stored) ⟨rfl, updateExecution_approvals⟩

theorem reads_still {α : Type} {p : M α} (reads : Reads p) {t : World} :
    wp (handle env).sem p (ends (· = t) (fun _ _ => False) (fun _ => True)) t := by
  refine Reads.wp (S := (handle env).sem) (fun _ _ => trivial) ?_ reads t
  intro s id r u step
  obtain ⟨rfl, rfl⟩ := Prod.mk.inj step
  exact ⟨rfl, _, rfl⟩

/-- The engine records the decision before it looks for the proposal, without which it raises. -/
theorem submitApproval_ends (files : Files w executionId decision row proposalId evaluationId) :
    let r := run (handle env) (submitApproval executionId approver decision notes) w
    r.2.repo.approvals = w.repo.approvals.put
      (approvalOf executionId ⟨w.fresh⟩ proposalId evaluationId approver decision notes
        (env.now w.readings)) ∧
    (w.repo.actionProposals.get proposalId = none ∧ (∃ e, r.1 = .raise e) ∨
      (w.repo.actionProposals.get proposalId).isSome = true ∧ r.1.isRet = true) := by
  obtain ⟨stored, awaiting, ids, decided⟩ := files
  have ident : row.executionId = executionId := (Store.Table.get_eq_some.mp stored).2
  refine (wp_sem_iff (handle env) _ (fun o t => t.repo.approvals = _ ∧
    (_ ∧ (∃ e, o = .raise e) ∨ _ ∧ o.isRet = true)) w).mp ?_
  unfold submitApproval
  refine wp_sem_ok rfl (wp_sem_ok (congrArg Except.ok stored) ?_)
  simp only [awaiting, ne_eq, not_true_eq_false, if_false, ids]
  refine wp_then (wp_ofExcept_ok rfl) ?_ fun _ _ no => no.elim
  rintro _ _ rfl rfl
  rw [if_neg decided, ident]
  refine wp_sem_ok rfl (wp_sem_ok rfl ?_)
  cases found : w.repo.actionProposals.get proposalId with
  | none => exact wp_sem_ok (congrArg Except.ok found) ⟨rfl, .inl ⟨rfl, _, rfl⟩⟩
  | some proposal =>
      refine wp_sem_ok (congrArg Except.ok found) (wp_sem_ok rfl ?_)
      refine wp_then (reads_still (validationSummaryFromSteps_reads _)) ?_ fun _ _ no => no.elim
      rintro summary _ _ rfl
      refine wp_then (reads_still (buildCompletionResult_reads _ _)) ?_ fun _ _ no => no.elim
      rintro base _ _ rfl
      refine wp_mono ?_ (applyApprovalDecision_ends ?_ decided)
      · rintro o t ⟨returned, same⟩
        exact ⟨same, .inr ⟨rfl, returned⟩⟩
      · exact Option.isSome_iff_exists.mpr ⟨row, ident ▸ stored⟩

theorem submitApproval_files (files : Files w executionId decision row proposalId evaluationId) :
    let r := run (handle env) (submitApproval executionId approver decision notes) w
    r.2.repo.approvals = w.repo.approvals.put
      (approvalOf executionId ⟨w.fresh⟩ proposalId evaluationId approver decision notes
        (env.now w.readings)) ∧
    (r.1.isRet = true ↔ (w.repo.actionProposals.get proposalId).isSome) := by
  intro r
  obtain ⟨recorded, ⟨missing, e, raised⟩ | ⟨found, returned⟩⟩ :=
    @submitApproval_ends env w row executionId proposalId
    evaluationId decision approver notes files
  · refine ⟨recorded, iff_of_false ?_ (by simp [missing])⟩
    rw [raised]
    exact Bool.false_ne_true
  · exact ⟨recorded, iff_of_true returned found⟩

/-- Otherwise it raises and stores nothing. -/
theorem submitApproval_refused (refused : ∀ row proposalId evaluationId,
    ¬ Files w executionId decision row proposalId evaluationId) :
    let r := run (handle env) (submitApproval executionId approver decision notes) w
    (∃ e, r.1 = .raise e) ∧ r.2.repo = w.repo ∧ r.2.queue = w.queue := by
  refine (wp_sem_iff (handle env) _ (fun o t => (∃ e, o = .raise e) ∧ t.repo = w.repo ∧
    t.queue = w.queue) w).mp ?_
  unfold submitApproval
  refine wp_sem_ok rfl ?_
  cases stored : w.execution executionId with
  | none => exact wp_sem_ok (congrArg Except.ok stored) ⟨⟨_, rfl⟩, rfl, rfl⟩
  | some row =>
      refine wp_sem_ok (congrArg Except.ok stored) (wp_ite (fun _ => ⟨⟨_, rfl⟩, rfl, rfl⟩)
        fun awaiting => ?_)
      cases ids : governanceIds row with
      | error e => exact ⟨⟨e, rfl⟩, rfl, rfl⟩
      | ok named =>
          refine wp_ite (fun _ => ⟨⟨_, rfl⟩, rfl, rfl⟩) fun decided => ?_
          exact (refused row named.1 named.2 ⟨stored, not_not.mp awaiting, ids, decided⟩).elim

end

/-- A call that raises leaves every table as it was. -/
def LeavesNoTrace (env : Env) (w : World) (executionId : UUID) (approver : String)
    (decision : ApprovalDecision) (notes : Option String) : Prop :=
  let r := run (handle env) (submitApproval executionId approver decision notes) w
  ∀ e, r.1 = .raise e → r.2.repo = w.repo

/-- A failing approval leaves no trace exactly when the proposal is stored wherever all other checks
pass. -/
theorem submit_approval_traceless_iff (env : Env) (w : World) (executionId : UUID)
    (approver : String) (decision : ApprovalDecision) (notes : Option String)
    (fresh : w.repo.approvals.get ⟨w.fresh⟩ = none) :
    LeavesNoTrace env w executionId approver decision notes ↔
      ∀ row proposalId evaluationId, Files w executionId decision row proposalId evaluationId →
        (w.repo.actionProposals.get proposalId).isSome = true := by
  constructor
  · intro traceless row proposalId evaluationId files
    obtain ⟨recorded, ⟨missing, e, raised⟩ | ⟨found, _⟩⟩ :=
      @submitApproval_ends env w row executionId proposalId
      evaluationId decision approver notes files
    · have unchanged := traceless e raised
      rw [unchanged] at recorded
      have stored := (congrArg (fun table => table.get ⟨w.fresh⟩) recorded).trans
        Store.Table.get_put_self
      rw [fresh] at stored
      cases stored
    · exact found
  · intro proposed e raised
    by_cases files : ∃ row proposalId evaluationId, Files w executionId decision row
      proposalId evaluationId
    · obtain ⟨row, proposalId, evaluationId, files⟩ := files
      have returned := (@submitApproval_files env w row executionId proposalId evaluationId decision
        approver notes
        files).2.mpr (proposed row proposalId evaluationId files)
      rw [raised] at returned
      cases returned
    · simp only [not_exists] at files
      exact (submitApproval_refused files).2.1

namespace ApprovalRequest

/-- At least one id is supplied. -/
def Supplies (request : ApprovalRequest) : Prop :=
  ¬ (request.actionProposalId = none ∧ request.policyEvaluationId = none)

/-- Each supplied id is that of the snapshot. -/
def Names (request : ApprovalRequest) (proposalId evaluationId : UUID) : Prop :=
  (∀ id, request.actionProposalId = some id → id = proposalId) ∧
    ∀ id, request.policyEvaluationId = some id → id = evaluationId

/-- The request is handed to the engine. -/
structure Passes (text : Rendering) (request : ApprovalRequest) (row : Execution)
    (decision : ApprovalDecision) : Prop where
  supplies : request.Supplies
  parsed : ApprovalDecision.parse request.decision = some decision
  matches_ : snapshotMismatch text row request = none

end ApprovalRequest

section
variable {env : Env} {text : Rendering} {w : World} {s : GatewayState} {request : ApprovalRequest}
  {row : Execution}
  {decision : ApprovalDecision}

/-- A request that does not reach the engine changes nothing. -/
theorem facadeSubmitApproval_stops
    (stops : ∀ row decision, w.execution request.executionId = some row →
    ¬ request.Passes text row decision) :
    let r := run (gatewayHandle env) (facadeSubmitApproval text request) (w, s)
    (∃ e, r.1 = .raise e) ∧ r.2 = (w, s) := by
  unfold facadeSubmitApproval
  by_cases supplies : request.Supplies
  · rw [if_neg supplies]
    cases parsed : ApprovalDecision.parse request.decision with
    | none => exact ⟨⟨_, rfl⟩, rfl⟩
    | some decision =>
        dsimp only
        rw [run_bind, gatewayHandle, run_lift]
        cases stored : w.execution request.executionId with
        | none =>
            rw [show run (handle env) (M.getExecution request.executionId) w = (.ret none, w) from
              congrArg (fun o => (Outcome.ret o, w)) stored]
            exact ⟨⟨_, rfl⟩, rfl⟩
        | some row =>
            rw [show run (handle env) (M.getExecution request.executionId) w =
              (.ret (some row), w) from
              congrArg (fun o => (Outcome.ret o, w)) stored]
            cases mismatch : snapshotMismatch text row request with
            | none => exact (stops row decision stored ⟨supplies, parsed, mismatch⟩).elim
            | some message =>
                simp only [resume, mismatch]
                exact ⟨⟨_, rfl⟩, rfl⟩
  · rw [if_pos (not_not.mp supplies)]
    exact ⟨⟨_, rfl⟩, rfl⟩

/-- A request that does leaves what the engine leaves; an approval is returned if the engine
returns. -/
theorem facadeSubmitApproval_passes (stored : w.execution request.executionId = some row)
    (passes : request.Passes text row decision) :
    let r := run (gatewayHandle env) (facadeSubmitApproval text request) (w, s)
    let engine := run (handle env) (submitApproval request.executionId request.approver decision
      request.notes) w
    r.2 = (engine.2, s) ∧ ∀ a, r.1 = .ret a ↔
      engine.1.isRet = true ∧
        (engine.2.repo.listApprovalsForExecution request.executionId).getLast? = some a := by
  unfold facadeSubmitApproval
  rw [if_neg passes.supplies, passes.parsed]
  dsimp only
  rw [run_bind, gatewayHandle, run_lift, show run (handle env) (M.getExecution request.executionId)
    w = (.ret (some row), w)
    from congrArg (fun o => (Outcome.ret o, w)) stored]
  simp only [resume, passes.matches_]
  rw [run_bind, run_lift]
  generalize run (handle env) (submitApproval request.executionId request.approver decision
    request.notes) w = engine
  obtain ⟨outcome, t⟩ := engine
  cases outcome with
  | raise e => exact ⟨rfl, fun a => by simp [resume, Outcome.isRet]⟩
  | halt => exact ⟨rfl, fun a => by simp [resume, Outcome.isRet]⟩
  | ret ex =>
      simp only [resume]
      rw [run_bind, GatewayM.listApprovalsForExecution, GatewayM.perform, run_extra]
      simp only [gatewayAnswer, Outcome.ofExcept, resume]
      cases (t.repo.listApprovalsForExecution request.executionId).getLast? with
      | none => exact ⟨rfl, fun a => by simp [run, Outcome.isRet, GatewayM.throw]⟩
      | some last => exact ⟨rfl, fun a => by simp [run, Outcome.isRet, pure]⟩

/-- Both ids of a request that passes are those of the row. -/
theorem passes_both (passes : request.Passes text row decision)
    (awaiting : row.status = .awaitingApproval) {proposalId evaluationId p e : UUID}
    (ids : governanceIds row = .ok (proposalId, evaluationId))
    (named : request.actionProposalId = some p) (named' : request.policyEvaluationId = some e) :
    p = proposalId ∧ e = evaluationId := by
  have same := passes.matches_
  unfold snapshotMismatch at same
  unfold governanceIds at ids
  rw [if_pos awaiting, named, named'] at same
  split at ids
  case h_2 => cases ids
  case h_1 gov block =>
      rw [block] at same
      dsimp only at same
      split at ids
      case h_2 => cases ids
      case h_1 pid eid first second =>
          rw [first, second] at same
          have texts : p.str = pid ∧ e.str = eid := by
            by_cases proposal : p.str = pid
            · by_cases evaluation : e.str = eid
              · exact ⟨proposal, evaluation⟩
              · simp [Rendering.str, proposal, evaluation] at same
            · simp [Rendering.str, proposal] at same
          obtain ⟨rfl, rfl⟩ := texts
          rw [UUID.parse_str, UUID.parse_str] at ids
          obtain ⟨rfl, rfl⟩ := Prod.mk.inj (Except.ok.inj ids)
          exact ⟨rfl, rfl⟩

end

/-- An approval that has been added. -/
def Recorded (before after : World) (a : Approval) : Prop :=
  a ∈ after.repo.approvals ∧ a ∉ before.repo.approvals

namespace ApprovalRequest

/-- A recorded approval is one that the caller named and gets back; a request that names another one
changes nothing. -/
structure Bound (request : ApprovalRequest) (env : Env) (text : Rendering) (w : World)
    (s : GatewayState) : Prop where
  named : ∀ a, Recorded w (run (gatewayHandle env) (facadeSubmitApproval text request) (w, s)).2.1
    a →
    request.Supplies ∧ ∃ row proposalId evaluationId, w.execution request.executionId = some row ∧
      governanceIds row = .ok (proposalId, evaluationId) ∧ request.Names proposalId evaluationId
  returned : ∀ a b, Recorded w (run (gatewayHandle env) (facadeSubmitApproval text request)
    (w, s)).2.1 a →
    (run (gatewayHandle env) (facadeSubmitApproval text request) (w, s)).1 = .ret b → b = a
  unchanged : ∀ row proposalId evaluationId, w.execution request.executionId = some row →
    governanceIds row = .ok (proposalId, evaluationId) → ¬ request.Names proposalId evaluationId →
    let after := (run (gatewayHandle env) (facadeSubmitApproval text request) (w, s)).2.1
    after.repo = w.repo ∧ after.queue = w.queue

/-- Of a request that the engine will record: an id that comes alone is that of the snapshot, and no
approval of the execution was decided later than the clock says, if the proposal is there to be
settled. -/
def Anchored (request : ApprovalRequest) (env : Env) (text : Rendering) (w : World) : Prop :=
  ∀ row decision proposalId evaluationId, Files w request.executionId decision row proposalId
    evaluationId →
    request.Passes text row decision →
    (request.policyEvaluationId = none → request.actionProposalId = some proposalId) ∧
    (request.actionProposalId = none → request.policyEvaluationId = some evaluationId) ∧
    ((w.repo.actionProposals.get proposalId).isSome → ∀ a ∈ w.repo.approvals, a.executionId =
      request.executionId →
      a.decidedAt ≤ env.now w.readings)

/-- What an unchanged store says of the binding. -/
theorem Bound.of_unchanged {request : ApprovalRequest} {env : Env} {text : Rendering} {w : World}
    {s : GatewayState}
    (same : let after := (run (gatewayHandle env) (facadeSubmitApproval text request) (w, s)).2.1
      after.repo = w.repo ∧ after.queue = w.queue) : request.Bound env text w s where
  named _ recorded := absurd (same.1 ▸ recorded.1) recorded.2
  returned _ _ recorded := absurd (same.1 ▸ recorded.1) recorded.2
  unchanged _ _ _ _ _ _ := same

end ApprovalRequest

section
variable {env : Env} {text : Rendering} {w : World} {s : GatewayState} {request : ApprovalRequest}
  {row : Execution}
  {decision : ApprovalDecision} {proposalId evaluationId : UUID}

/-- The engine's approval is the only one that is added. -/
theorem recorded_iff {after : World} {approval a : Approval}
    (fresh : w.repo.approvals.get approval.approvalId = none)
    (approvals : after.repo.approvals = w.repo.approvals.put approval) : Recorded w after a ↔
      a = approval := by
  have unused := Store.Table.get_eq_none.mp fresh
  unfold Recorded
  rw [approvals, Store.Table.mem_put]
  constructor
  · rintro ⟨rfl | ⟨old, _⟩, new⟩
    · rfl
    · exact absurd old new
  · rintro rfl
    exact ⟨.inl rfl, fun member => unused a member rfl⟩

/-- A request that the engine records binds as it is anchored. -/
theorem approval_bound_files (fresh : w.repo.approvals.get ⟨w.fresh⟩ = none)
    (stored : w.execution request.executionId = some row)
    (passes : request.Passes text row decision)
    (files : Files w request.executionId decision row proposalId evaluationId) :
    request.Bound env text w s ↔ request.Anchored env text w := by
  obtain ⟨final, answer⟩ := @facadeSubmitApproval_passes env text w s request row
    decision stored passes
  obtain ⟨approvals, returns⟩ := @submitApproval_files env w row request.executionId proposalId
    evaluationId decision
    request.approver request.notes files
  obtain ⟨approval, ident, own, timed, added⟩ : ∃ approval : Approval,
    approval.approvalId = ⟨w.fresh⟩ ∧
      approval.executionId = request.executionId ∧ approval.decidedAt = env.now w.readings ∧
      (run (handle env) (submitApproval request.executionId request.approver decision request.notes)
        w).2.repo.approvals =
        w.repo.approvals.put approval := ⟨_, rfl, rfl, rfl, approvals⟩
  rw [← ident] at fresh
  have recorded := fun a => @recorded_iff w _ approval a fresh added
  have last :
    (((w.repo.approvals.put approval).sortedBy (fun a => a.executionId = request.executionId)
      Approval.decidedAt).getLast? = some approval) ↔ _ :=
    Store.Table.getLast?_sortedBy_put fresh (decide_eq_true own)
  rw [← added, timed] at last
  constructor
  · intro bound row' decision' proposalId' evaluationId' files' passes'
    obtain rfl := Option.some.inj (stored.symm.trans files'.stored)
    obtain ⟨rfl, rfl⟩ := Prod.mk.inj (Except.ok.inj (files.ids.symm.trans files'.ids))
    obtain ⟨_, row', pid, eid, stored', ids', named⟩ := bound.named approval
      (by rw [final]; exact (recorded approval).mpr rfl)
    obtain rfl := Option.some.inj (stored.symm.trans stored')
    obtain ⟨rfl, rfl⟩ := Prod.mk.inj (Except.ok.inj (files.ids.symm.trans ids'))
    refine ⟨fun lone => ?_, fun lone => ?_, fun settled a member owned => ?_⟩
    · cases supplied : request.actionProposalId with
      | none => exact (passes.supplies ⟨supplied, lone⟩).elim
      | some p => rw [named.1 p supplied]
    · cases supplied : request.policyEvaluationId with
      | none => exact (passes.supplies ⟨lone, supplied⟩).elim
      | some e => rw [named.2 e supplied]
    · have listed :
        approval ∈ (run (handle env) (submitApproval request.executionId request.approver decision
          request.notes) w).2.repo.listApprovalsForExecution request.executionId := by
        refine Store.Table.mem_sortedBy.mpr ⟨?_, decide_eq_true own⟩
        rw [added]
        exact Store.Table.mem_put.mpr (.inl rfl)
      cases ended : ((run (handle env) (submitApproval request.executionId request.approver decision
          request.notes) w).2.repo.listApprovalsForExecution request.executionId).getLast? with
      | none =>
          rw [List.getLast?_eq_none_iff.mp ended] at listed
          cases listed
      | some b =>
          have back : b = approval :=
            bound.returned approval b (by rw [final]; exact (recorded approval).mpr rfl)
            ((answer b).mpr ⟨returns.mpr settled, ended⟩)
          rw [back] at ended
          exact last.mp ended a member (decide_eq_true owned)
  · intro anchored
    obtain ⟨first, second, latest⟩ := anchored row decision proposalId evaluationId files passes
    have named : request.Names proposalId evaluationId := by
      constructor
      · intro p supplied
        cases other : request.policyEvaluationId with
        | none => exact Option.some.inj (supplied.symm.trans (first other))
        | some e => exact (passes_both passes files.awaiting files.ids supplied other).1
      · intro e supplied
        cases other : request.actionProposalId with
        | none => exact Option.some.inj (supplied.symm.trans (second other))
        | some p => exact (passes_both passes files.awaiting files.ids other supplied).2
    refine ⟨fun a _ => ⟨passes.supplies, row, proposalId, evaluationId, stored, files.ids,
      named⟩, ?_, ?_⟩
    · intro a b new back
      rw [final] at new
      rw [(recorded a).mp new]
      obtain ⟨settled, ended⟩ := (answer b).mp back
      have own := last.mpr fun x member owned => latest (returns.mp settled) x member
        (of_decide_eq_true owned)
      exact Option.some.inj (ended.symm.trans own)
    · intro row' proposalId' evaluationId' stored' ids' misnamed
      obtain rfl := Option.some.inj (stored.symm.trans stored')
      obtain ⟨rfl, rfl⟩ := Prod.mk.inj (Except.ok.inj (files.ids.symm.trans ids'))
      exact absurd named misnamed

end

/-- An approval binds to what the approver named exactly when a lone id is that of the snapshot and
no approval of the execution is later than the clock. -/
theorem approval_bound_iff (env : Env) (text : Rendering) (w : World) (s : GatewayState)
    (request : ApprovalRequest) (fresh : w.repo.approvals.get ⟨w.fresh⟩ = none) :
    request.Bound env text w s ↔ request.Anchored env text w := by
  by_cases reaches : ∃ row decision, w.execution request.executionId = some row ∧
    request.Passes text row decision
  · obtain ⟨row, decision, stored, passes⟩ := reaches
    obtain ⟨final, _⟩ := @facadeSubmitApproval_passes env text w s request row
      decision stored passes
    by_cases files : ∃ proposalId evaluationId, Files w request.executionId decision row
      proposalId evaluationId
    · obtain ⟨proposalId, evaluationId, files⟩ := files
      exact approval_bound_files fresh stored passes files
    · have refused : ∀ row proposalId evaluationId, ¬ Files w request.executionId decision row
        proposalId evaluationId := by
        intro row' proposalId evaluationId files'
        obtain rfl := Option.some.inj (stored.symm.trans files'.stored)
        exact files ⟨proposalId, evaluationId, files'⟩
      refine iff_of_true (.of_unchanged ?_)
        fun row' decision' proposalId evaluationId files' passes' => ?_
      · rw [final]
        exact (submitApproval_refused refused).2
      · obtain rfl := Option.some.inj (passes.parsed.symm.trans passes'.parsed)
        exact (refused row' proposalId evaluationId files').elim
  · refine iff_of_true (.of_unchanged ?_) fun row decision _ _ files passes =>
      (reaches ⟨row, decision, files.stored, passes⟩).elim
    obtain ⟨_, same⟩ := @facadeSubmitApproval_stops env text w s request
      fun row decision stored passes =>
      reaches ⟨row, decision, stored, passes⟩
    rw [same]
    exact ⟨rfl, rfl⟩

/-- A row that awaits the approval of proposal 5, evaluated as 6. -/
def waitingRow : Execution :=
  { executionOf genericRequest ⟨1⟩ ⟨0⟩ 0 with
    status := .awaitingApproval
    result := some [("governance", .obj (governanceBlock ⟨5⟩ ⟨6⟩))] }

/-- The row and its proposal. -/
def waitingWorld : World where
  repo := { Repository.empty with
    executions := Store.Table.empty.put waitingRow
    actionProposals := Store.Table.empty.put (escalationProposal waitingRow ⟨5⟩ none [] 0) }
  queue := []
  fresh := 7
  readings := 0
  asked := 0

def approving (actionProposalId policyEvaluationId : Option UUID) : ApprovalRequest :=
  ⟨⟨1⟩, actionProposalId, policyEvaluationId, "approve", "operator", none⟩

theorem approval_bound_proposal : (approving (some ⟨5⟩) none).Bound .refusing .flat
    waitingWorld .init := by
  refine (approval_bound_iff .refusing .flat waitingWorld .init
    (approving (some ⟨5⟩) none) rfl).mpr ?_
  intro row decision proposalId evaluationId files _
  obtain rfl : waitingRow = row := Option.some.inj files.stored
  obtain ⟨rfl, rfl⟩ : (⟨5⟩ : UUID) = proposalId ∧ (⟨6⟩ : UUID) = evaluationId := by
    have ids : governanceIds waitingRow = .ok (⟨5⟩, ⟨6⟩) := by decide
    exact Prod.mk.inj (Except.ok.inj (ids.symm.trans files.ids))
  constructor
  · exact fun _ => rfl
  · constructor
    · rintro ⟨⟩
    · exact fun _ a member => absurd member Store.Table.not_mem_empty

/-- The decision on the waiting row is approved. -/
theorem submit_approval_traceless_waiting : LeavesNoTrace .refusing waitingWorld
    ⟨1⟩ "operator" .approve none := by
  refine (submit_approval_traceless_iff .refusing waitingWorld ⟨1⟩ "operator" .approve
    none rfl).mpr ?_
  intro row proposalId evaluationId files
  obtain rfl : waitingRow = row := Option.some.inj files.stored
  have ids : governanceIds waitingRow = .ok (⟨5⟩, ⟨6⟩) := by decide
  obtain ⟨rfl, rfl⟩ := Prod.mk.inj (Except.ok.inj (ids.symm.trans files.ids))
  rfl

/-- The row without its proposal. -/
def orphanWorld : World :=
  { waitingWorld with repo := { waitingWorld.repo with actionProposals := .empty } }

/-- The engine answers that there is no such proposal, and has stored the approval. -/
theorem approval_of_orphan : ¬ LeavesNoTrace .refusing orphanWorld
    ⟨1⟩ "operator" .approve none := by
  intro traceless
  have raised : (run (handle .refusing) (submitApproval ⟨1⟩ "operator" .approve none)
    orphanWorld).1 =
      .raise ⟨.orchestrationError, "action proposal not found"⟩ := rfl
  have stored : (run (handle .refusing) (submitApproval ⟨1⟩ "operator" .approve none)
    orphanWorld).2.repo.approvals.get
      ⟨7⟩ = none := by rw [traceless _ raised]; rfl
  cases stored

/-- A request that names another proposal, and no evaluation, is recorded. -/
theorem approval_misnamed : ¬ (approving (some ⟨9⟩) none).Bound .refusing .flat
    waitingWorld .init := by
  intro bound
  obtain ⟨_, row, proposalId, evaluationId, stored, ids, named⟩ := bound.named
    (approvalOf ⟨1⟩ ⟨7⟩ ⟨5⟩ ⟨6⟩ "operator" .approve none 0) ⟨List.mem_singleton_self _,
      Store.Table.not_mem_empty⟩
  obtain rfl : waitingRow = row := Option.some.inj stored
  have five : governanceIds waitingRow = .ok (⟨5⟩, ⟨6⟩) := by decide
  obtain ⟨rfl, rfl⟩ := Prod.mk.inj (Except.ok.inj (five.symm.trans ids))
  exact absurd (named.1 ⟨9⟩ rfl) (by decide)

end AgenticPlatform
