import AgenticPlatform.GovernedSessions
import AgenticPlatform.OrderlySessions

/-! Any number of people decide about one execution at the same time. While a call that has read
the waiting row keeps the others from reading it, one decision is recorded and takes effect. -/
namespace AgenticPlatform
open Interaction Store

/-- How far a call has got with the row that it has read. -/
inductive Stage where
  | waiting
  | turnedAway
  | entered
  | recorded
  | proposed
  | closed
deriving DecidableEq

/-- One call: its decision and how far it has got. -/
structure Clerk where
  decision : ApprovalDecision
  stage : Stage

/-- The call has read the waiting row and has not written it yet. -/
def Clerk.Busy (clerk : Clerk) : Prop :=
  clerk.stage = .entered ∨ clerk.stage = .recorded ∨ clerk.stage = .proposed

def ApprovalDecision.closes : ApprovalDecision → ExecutionStatus
  | .reject => .failed
  | _ => .completed

def ApprovalDecision.settles : ApprovalDecision → ActionProposalStatus
  | .reject => .rejected
  | _ => .approved

def Stage.next : Stage → (op : Op) → Except Exn op.Res → Stage
  | .waiting, .getExecution _, .ok (some row) => if row.status = .awaitingApproval then .entered
    else .turnedAway
  | .waiting, .getExecution _, _ => .turnedAway
  | .entered, .saveApproval _, _ => .recorded
  | .recorded, .saveActionProposal _, _ => .proposed
  | .proposed, .updateExecution _, _ => .closed
  | stage, _, _ => stage

/-- What a call has observed of its own progress. -/
def observeStage : Observer platform Exn Clerk :=
  fun clerk op r => { clerk with stage := clerk.stage.next op r }

/-- What a call may do at each stage about the execution and the proposal. -/
def Clerk.Allowed (id proposalId : UUID) (clerk : Clerk) : Op → Prop
  | .now => clerk.stage = .waiting
  | .getExecution j => clerk.stage = .waiting ∧ j = id
  | .uuid4 => clerk.stage = .entered
  | .saveApproval a => clerk.stage = .entered ∧ a.executionId = id ∧ a.decision = clerk.decision ∧
      a.actionProposalId = some proposalId
  | .getActionProposal j => clerk.stage = .recorded ∧ j = proposalId
  | .listStepsForExecution _ | .getStepResult _ => clerk.stage = .recorded
  | .saveActionProposal p => clerk.stage = .recorded ∧ p.executionId = id ∧
    p.proposalId = proposalId ∧
      p.status = clerk.decision.settles
  | .updateExecution ex => clerk.stage = .proposed ∧ ex.executionId = id ∧
    ex.status = clerk.decision.closes
  | _ => False

/-- What the store answers: a waiting row is `row`, and its proposal is there. -/
def Clerk.Answered (row : Execution) (clerk : Clerk) : (op : Op) → Except Exn op.Res → Prop
  | .getExecution _, r => (∃ o, r = .ok o) ∧ ∀ found, r = .ok (some found) →
    found.status = .awaitingApproval → found = row
  | .getActionProposal j, r => clerk.stage = .recorded → ∃ p, r = .ok (some p) ∧ p.proposalId = j ∧
      p.executionId = row.executionId
  | _, r => ∃ a, r = .ok a

/-- A call alone, over the answers of the store. -/
abbrev clerkSem (row : Execution) (proposalId : UUID) : Semantics platform Exn where
  State := Clerk
  step clerk op r t := clerk.Answered row op r ∧ t = observeStage clerk op r
  ok clerk op := clerk.Allowed row.executionId proposalId op

/-- A call ends by closing the row or because it was not waiting. -/
def Clerk.Ended (clerk : Clerk) : Prop := clerk.stage = .closed ∨ clerk.stage = .turnedAway

section
variable {row : Execution} {id proposalId evaluationId : UUID} {clerk : Clerk}
  {decision : ApprovalDecision} {α : Type}
  {summary base : Dict} {ts : Time} {approver : String} {notes : Option String} {w : World}

theorem clerk_call (op : Op) {f : op.Res → M α} {Q : Outcome Exn α → Clerk → Prop}
    (allowed : clerk.Allowed row.executionId proposalId op)
    (answers : ∀ r, clerk.Answered row op r → ∃ a, r = .ok a)
    (next : ∀ a, clerk.Answered row op (.ok a) → wp (clerkSem row proposalId) (f a) Q
      (observeStage clerk op (.ok a))) :
    wp (clerkSem row proposalId) (M.perform op >>= f) Q clerk := by
  rw [wp_bind]
  refine wp_perform.mpr ⟨allowed, ?_⟩
  rintro r t ⟨answered, rfl⟩
  obtain ⟨a, rfl⟩ := answers r answered
  exact next a answered

theorem clerk_reads {p : M α} (reads : Reads p) :
    wp (clerkSem row proposalId) p
      (ends (· = ⟨decision, .recorded⟩) (fun _ _ => False) (fun _ => True))
      ⟨decision, .recorded⟩ := by
  refine Built.wp (M := clerkSem row proposalId) (I := (· = ⟨decision, .recorded⟩)) ?_
    (fun _ _ no => no.elim) reads _ rfl
  rintro β _ _ t ⟨stepId, _⟩ rfl
  refine wp_perform.mpr ⟨rfl, ?_⟩
  rintro r t ⟨⟨a, rfl⟩, rfl⟩
  exact ⟨trivial, rfl⟩

/-- The decision is written to the proposal and then to the row. -/
theorem applyApprovalDecision_clerk {ex : Execution} {proposal : ActionProposal}
    (decided : decision ≠ .defer) (ident : ex.executionId = row.executionId)
    (own : proposal.executionId = row.executionId) (named : proposal.proposalId = proposalId) :
    wp (clerkSem row proposalId) (applyApprovalDecision ex proposal decision summary base ts)
      (fun _ t => t.Ended) ⟨decision, .recorded⟩ := by
  unfold applyApprovalDecision
  cases decision with
  | defer => exact absurd rfl decided
  | reject =>
      refine clerk_call (.saveActionProposal _) ⟨rfl, own, named, rfl⟩ (fun _ h => h) fun _ _ => ?_
      refine wp_then (wp_ofExcept_ok rfl) ?_ fun _ _ no => no.elim
      rintro _ _ rfl rfl
      exact clerk_call (.updateExecution _) ⟨rfl, ident, concludeExecution_status⟩ (fun _ h => h)
        fun _ _ => .inl rfl
  | approve =>
      refine clerk_call (.saveActionProposal _) ⟨rfl, own, named, rfl⟩ (fun _ h => h) fun _ _ => ?_
      refine wp_then (wp_ofExcept_ok rfl) ?_ fun _ _ no => no.elim
      rintro _ _ rfl rfl
      exact clerk_call (.updateExecution _) ⟨rfl, ident, concludeExecution_status⟩ (fun _ h => h)
        fun _ _ => .inl rfl

theorem submitApproval_clerk (ids : governanceIds row = .ok (proposalId, evaluationId))
    (decided : decision ≠ .defer) :
    wp (clerkSem row proposalId) (submitApproval row.executionId approver decision notes).discard
      (fun _ t => t.Ended) ⟨decision, .waiting⟩ := by
  unfold submitApproval
  refine wp_discard (clerk_call .now rfl (fun _ h => h) fun ts _ => ?_)
  refine clerk_call (.getExecution row.executionId) ⟨rfl, rfl⟩ (fun _ h => h.1)
    fun found known => ?_
  cases found with
  | none => exact .inr rfl
  | some found =>
      by_cases waits : found.status = .awaitingApproval
      swap
      · simp only [waits, ne_eq, not_false_eq_true, if_true]
        exact .inr (by simp [observeStage, Stage.next, waits])
      · obtain rfl := known.2 found rfl waits
        simp only [waits, ne_eq, not_true_eq_false, if_false, ids]
        have entered : observeStage (observeStage ⟨decision, .waiting⟩ .now (.ok ts))
            (.getExecution found.executionId) (.ok (some found)) = ⟨decision, .entered⟩ := by
          simp [observeStage, Stage.next, waits]
        rw [entered]
        refine wp_then (wp_ofExcept_ok rfl) ?_ fun _ _ no => no.elim
        rintro _ _ rfl rfl
        refine wp_ite (fun defer => absurd defer decided) fun _ => ?_
        refine clerk_call .uuid4 rfl (fun _ h => h) fun approvalId _ => ?_
        refine clerk_call (.saveApproval _) ⟨rfl, rfl, rfl, rfl⟩ (fun _ h => h) fun _ _ => ?_
        refine clerk_call (.getActionProposal proposalId) ⟨rfl, rfl⟩ ?_ fun answer known => ?_
        · intro r answered
          obtain ⟨p, rfl, _⟩ := answered rfl
          exact ⟨_, rfl⟩
        obtain ⟨p, answer, named, own⟩ := known rfl
        obtain rfl := Except.ok.inj answer
        refine clerk_call (.listStepsForExecution _) rfl (fun _ h => h) fun steps _ => ?_
        refine wp_then (clerk_reads (validationSummaryFromSteps_reads steps)) ?_
          fun _ _ no => no.elim
        rintro summary _ _ rfl
        refine wp_then (clerk_reads (buildCompletionResult_reads _ steps)) ?_ fun _ _ no => no.elim
        rintro base _ _ rfl
        exact applyApprovalDecision_clerk decided rfl own named

/-- The proposal under decision is stored. -/
def Filed (row : Execution) (proposalId : UUID) (status : ActionProposalStatus → Prop)
    (w : World) : Prop :=
  ∃ p, w.repo.actionProposals.get proposalId = some p ∧ p.executionId = row.executionId ∧
    status p.status

/-- The execution has one approval, with this decision about the proposal. -/
def Sole (row : Execution) (proposalId : UUID) (decision : ApprovalDecision) (w : World) : Prop :=
  ∃ a, a.decision = decision ∧ a.actionProposalId = some proposalId ∧ ∀ b, (b ∈ w.repo.approvals ∧
    b.executionId = row.executionId) ↔ b = a

/-- What the store holds while the call that has entered is at this stage. -/
def Books (row : Execution) (proposalId : UUID) (clerk : Clerk) (w : World) : Prop :=
  match clerk.stage with
  | .waiting | .turnedAway => False
  | .entered => w.execution row.executionId = some row ∧
    (∀ a ∈ w.repo.approvals, a.executionId ≠ row.executionId) ∧
      Filed row proposalId (fun _ => True) w
  | .recorded => w.execution row.executionId = some row ∧ Sole row proposalId clerk.decision w ∧
    Filed row proposalId (fun _ => True) w
  | .proposed => w.execution row.executionId = some row ∧ Sole row proposalId clerk.decision w ∧
      Filed row proposalId (· = clerk.decision.settles) w
  | .closed =>
      (∃ last, w.execution row.executionId = some last ∧ last.status = clerk.decision.closes) ∧
      Sole row proposalId clerk.decision w ∧ Filed row proposalId (· = clerk.decision.settles) w

theorem closes_closed : decision.closes ≠ .awaitingApproval := by cases decision <;> decide

/-- A waiting row is still the first one, and the proposal is there. -/
structure Desk (row : Execution) (proposalId : UUID) (w : World) : Prop where
  stored : ∃ current, w.execution row.executionId = some current ∧
    (current.status = .awaitingApproval → current = row)
  filed : Filed row proposalId (fun _ => True) w

theorem Books.desk (books : Books row proposalId clerk w) : Desk row proposalId w := by
  obtain ⟨decision, stage⟩ := clerk
  cases stage with
  | waiting => exact books.elim
  | turnedAway => exact books.elim
  | entered => exact ⟨⟨row, books.1, fun _ => rfl⟩, books.2.2⟩
  | recorded => exact ⟨⟨row, books.1, fun _ => rfl⟩, books.2.2⟩
  | proposed =>
      obtain ⟨stored, _, p, found, own, _⟩ := books
      exact ⟨⟨row, stored, fun _ => rfl⟩, p, found, own, trivial⟩
  | closed =>
      obtain ⟨⟨last, stored, status⟩, _, p, found, own, _⟩ := books
      exact ⟨⟨last, stored, fun waits => absurd (status.symm.trans waits) closes_closed⟩, p,
        found, own, trivial⟩

variable {env : Env} {op : Op}

/-- What the store answers to any of the calls. -/
theorem Desk.answers (desk : Desk row proposalId w)
    (allowed : clerk.Allowed row.executionId proposalId op) :
    clerk.Answered row op (handle env w op).1 := by
  cases op with
  | getExecution j =>
      obtain ⟨_, rfl⟩ := allowed
      obtain ⟨current, stored, same⟩ := desk.stored
      refine ⟨⟨_, rfl⟩, fun found answer waits => ?_⟩
      obtain rfl := Option.some.inj (stored.symm.trans (Except.ok.inj answer))
      exact same waits
  | getActionProposal j =>
      obtain ⟨_, rfl⟩ := allowed
      obtain ⟨p, found, own, _⟩ := desk.filed
      exact fun _ => ⟨p, congrArg Except.ok found, (Table.get_eq_some.mp found).2, own⟩
  | updateExecution ex =>
      obtain ⟨_, ident, _⟩ := allowed
      obtain ⟨current, stored, _⟩ := desk.stored
      have present : (w.repo.executions.get ex.executionId).isSome = true := by
        rw [ident, show w.repo.executions.get row.executionId = some current from stored]
        rfl
      exact ⟨(), by simp only [handle, present, if_true]⟩
  | now | uuid4 | saveApproval _ | saveActionProposal _ | listStepsForExecution _
  | getStepResult _ => exact ⟨_, rfl⟩
  | _ => exact allowed.elim

/-- The books move on with the call that has entered. -/
theorem Books.next (books : Books row proposalId clerk w)
    (allowed : clerk.Allowed row.executionId proposalId op) :
    Books row proposalId (observeStage clerk op (handle env w op).1) (handle env w op).2 := by
  obtain ⟨decision, stage⟩ := clerk
  cases op with
  | now =>
      obtain rfl : stage = .waiting := allowed
      exact books
  | getExecution j =>
      obtain ⟨rfl, _⟩ : stage = .waiting ∧ _ := allowed
      exact books.elim
  | uuid4 =>
      obtain rfl : stage = .entered := allowed
      exact books
  | listStepsForExecution j =>
      obtain rfl : stage = .recorded := allowed
      exact books
  | getStepResult j =>
      obtain rfl : stage = .recorded := allowed
      exact books
  | getActionProposal j =>
      obtain ⟨rfl, _⟩ : stage = .recorded ∧ _ := allowed
      exact books
  | saveApproval a =>
      obtain ⟨rfl, own, decides, about⟩ : stage = .entered ∧ _ := allowed
      obtain ⟨stored, none, filed⟩ := books
      refine ⟨stored, ⟨a, decides, about, fun b => ?_⟩, filed⟩
      change (b ∈ w.repo.approvals.put a ∧ _) ↔ _
      rw [Table.mem_put]
      constructor
      · rintro ⟨rfl | ⟨old, _⟩, owned⟩
        · rfl
        · exact absurd owned (none b old)
      · rintro rfl
        exact ⟨.inl rfl, own⟩
  | saveActionProposal p =>
      obtain ⟨rfl, own, named, status⟩ : stage = .recorded ∧ _ := allowed
      obtain ⟨stored, sole, _⟩ := books
      refine ⟨stored, sole, p, ?_, own, status⟩
      exact named ▸ Table.get_put_self
  | updateExecution ex =>
      obtain ⟨rfl, ident, status⟩ : stage = .proposed ∧ _ := allowed
      obtain ⟨stored, sole, filed⟩ := books
      have present : (w.repo.executions.get ex.executionId).isSome = true := by
        rw [ident, show w.repo.executions.get row.executionId = some row from stored]
        rfl
      simp only [handle, present, if_true]
      exact ⟨⟨ex, ident ▸ Table.get_put_self, status⟩, sole, filed⟩
  | _ => exact allowed.elim

variable {ι : Type}

/-- Calls that decide at the same time about one execution. -/
abbrev Office (ι : Type) := Sys platform Exn World Clerk ι

/-- One submission of a decision. -/
structure Submission where
  approver : String
  decision : ApprovalDecision
  notes : Option String

def submit (id : UUID) (submissions : ι → Submission) (w : World) : Office ι where
  shared := w
  threads := fun i => (submitApproval id (submissions i).approver (submissions i).decision
    (submissions i).notes).discard
  ghost := fun i => ⟨(submissions i).decision, .waiting⟩

def Op.readsRow : Op → Bool
  | .getExecution _ => true
  | _ => false

/-- The row is read only while no other call has read it waiting and is still to write it. -/
def OneAtATime (c : Office ι) (i : ι) (op : Op) : Prop :=
  op.readsRow = true → ∀ other, other ≠ i → ¬ (c.ghost other).Busy

/-- Nobody has entered, or the books are those of the one call that has. -/
def InTurn (row : Execution) (proposalId : UUID) (c : Office ι) : Prop :=
  (Books row proposalId ⟨.approve, .entered⟩ c.shared ∧ ∀ i, (c.ghost i).stage = .waiting) ∨
    ∃ i, Books row proposalId (c.ghost i) c.shared ∧ ∀ other, other ≠ i →
      (c.ghost other).stage = .waiting ∨
      ((c.ghost other).stage = .turnedAway ∧ (c.ghost i).stage = .closed)

theorem InTurn.desk {c : Office ι} (orderly : InTurn row proposalId c) :
    Desk row proposalId c.shared := by
  rcases orderly with ⟨books, _⟩ | ⟨_, books, _⟩
  · exact books.desk
  · exact books.desk

theorem Clerk.Allowed.waiting (allowed : clerk.Allowed id proposalId op)
    (waiting : clerk.stage = .waiting) :
    op = .now ∨ op = .getExecution id := by
  cases op with
  | now => exact .inl rfl
  | getExecution j => exact .inr (allowed.2 ▸ rfl)
  | uuid4 | listStepsForExecution _ | getStepResult _ =>
      exact absurd (waiting.symm.trans allowed) (by decide)
  | saveApproval _ | getActionProposal _ | saveActionProposal _ | updateExecution _ =>
      exact absurd (waiting.symm.trans allowed.1) (by decide)
  | _ => exact allowed.elim

theorem Clerk.Allowed.not_ended (allowed : clerk.Allowed id proposalId op) : ¬ clerk.Ended := by
  have apart : ∀ stage, clerk.stage = stage → stage ≠ .closed → stage ≠ .turnedAway →
    ¬ clerk.Ended := by
    rintro stage rfl open_ inside (closed | turned)
    · exact open_ closed
    · exact inside turned
  cases op with
  | now | uuid4 | listStepsForExecution _ | getStepResult _ =>
      exact apart _ allowed (by decide) (by decide)
  | getExecution _ | saveApproval _ | getActionProposal _ | saveActionProposal _
  | updateExecution _ =>
      exact apart _ allowed.1 (by decide) (by decide)
  | _ => exact allowed.elim

/-- Once a call has entered and is not busy, it has closed the row. -/
theorem Books.closed (books : Books row proposalId clerk w) (idle : ¬ clerk.Busy) :
    clerk.stage = .closed := by
  obtain ⟨decision, stage⟩ := clerk
  cases stage with
  | waiting => exact books.elim
  | turnedAway => exact books.elim
  | entered => exact absurd (.inl rfl) idle
  | recorded => exact absurd (.inr (.inl rfl)) idle
  | proposed => exact absurd (.inr (.inr rfl)) idle
  | closed => rfl

variable {c : Office ι} {i : ι}

/-- A call that has ended has closed the row or was turned away. -/
theorem ended_of_idle (follows : Follows (clerkSem row proposalId) (fun _ _ t => t.Ended) c)
    (idle : c.pending i = none) :
    (c.ghost i).Ended := by
  have spec := follows i
  cases thread : c.threads i with
  | ret a => exact (thread ▸ spec : wp _ (Prog.ret a) _ _)
  | raise e => exact (thread ▸ spec : wp _ (Prog.raise e) _ _)
  | halt => exact (thread ▸ spec : wp _ Prog.halt _ _)
  | call op k => simp [Sys.pending, thread] at idle

/-- The office in which all calls are made of a row that awaits its approval. -/
theorem submit_inTurn {submissions : ι → Submission} (stored : w.execution id = some row)
    (awaits : row.status = .awaitingApproval) (standing : Standing (w.file id) row)
    (decides : ∀ i, (submissions i).decision ≠ .defer) : ∃ proposalId,
      Follows (clerkSem row proposalId) (fun _ _ t => t.Ended) (submit id submissions w) ∧
        InTurn row proposalId (submit id submissions w) := by
  obtain rfl : row.executionId = id := World.execution_id stored
  obtain ⟨e, p, ids, evaluated, _, _⟩ := standing.awaiting awaits
  refine ⟨p.proposalId, fun i => submitApproval_clerk ids (decides i), .inl
    ⟨⟨stored, fun a member own => ?_, ?_⟩, fun _ => rfl⟩⟩
  · have filed : a ∈ (w.file row.executionId).approvals := ⟨member, own⟩
    rw [evaluated.approvals] at filed
    cases filed
  · exact ⟨p, Table.get_of_mem evaluated.held.1, evaluated.held.2, trivial⟩

variable [DecidableEq ι]

theorem fire_inTurn {op : Op} (follows : Follows (clerkSem row proposalId) (fun _ _ t => t.Ended) c)
    (awaits : row.status = .awaitingApproval) (inTurn : InTurn row proposalId c)
    (next : c.pending i = some op) (legal : OneAtATime c i op) : InTurn row proposalId
      (c.fire (handle env) observeStage i) := by
  have allowed : (c.ghost i).Allowed row.executionId proposalId op := follows.ok next
  unfold InTurn
  rw [Sys.fire_shared next, Sys.fire_ghost next]
  rcases inTurn with ⟨books, all⟩ | ⟨first, books, others⟩
  · rcases allowed.waiting (all i) with rfl | rfl
    · refine .inl ⟨books, fun j => ?_⟩
      by_cases same : j = i
      · subst same
        simp [observeStage, Stage.next, all j]
      · simpa [same] using all j
    · have enters : observeStage (c.ghost i) (.getExecution row.executionId)
          (handle env c.shared (.getExecution row.executionId)).1 =
            ⟨(c.ghost i).decision, .entered⟩ := by
        simp [observeStage, Stage.next, all i, handle, show c.shared.repo.executions.get
          row.executionId = _ from books.1, awaits]
      refine .inr ⟨i, ?_, fun j other => .inl ?_⟩
      · rw [Function.update_self, enters]
        exact books
      · simpa [other] using all j
  · by_cases same : i = first
    · subst same
      refine .inr ⟨i, ?_, fun j other => .inl ?_⟩
      · rw [Function.update_self]
        exact books.next allowed
      · rw [Function.update_of_ne other]
        exact (others j other).resolve_right fun turned => allowed.not_ended (.inl turned.2)
    · have waiting : (c.ghost i).stage = .waiting :=
        (others i same).resolve_right fun turned => allowed.not_ended (.inr turned.1)
      have apart : first ≠ i := fun eq => same eq.symm
      rcases allowed.waiting waiting with rfl | rfl
      · refine .inr ⟨first, ?_, fun j other => ?_⟩
        · rw [Function.update_of_ne apart]
          exact books
        · rw [Function.update_of_ne apart]
          by_cases mine : j = i
          · subst mine
            exact .inl (by simp [observeStage, Stage.next, waiting])
          · rw [Function.update_of_ne mine]
            exact others j other
      · have closed := books.closed (legal rfl first apart)
        have turned : (observeStage (c.ghost i) (.getExecution row.executionId)
            (handle env c.shared (.getExecution row.executionId)).1).stage = .turnedAway := by
          have ended := books
          simp only [Books, closed] at ended
          obtain ⟨⟨last, stored, status⟩, _, _⟩ := ended
          simp [observeStage, Stage.next, waiting, handle,
            show c.shared.repo.executions.get row.executionId = _ from stored, status,
              closes_closed]
        refine .inr ⟨first, ?_, fun j other => ?_⟩
        · rw [Function.update_of_ne apart]
          exact books
        · rw [Function.update_of_ne apart]
          by_cases mine : j = i
          · subst mine
            rw [Function.update_self]
            exact .inr ⟨turned, closed⟩
          · rw [Function.update_of_ne mine]
            exact others j other

def AtMostOneApproval (id : UUID) (w : World) : Prop :=
  ∀ a ∈ w.repo.approvals, ∀ b ∈ w.repo.approvals, a.executionId = id → b.executionId = id → a = b

/-- The row and the proposal are as the recorded approval decides. -/
def Agreed (id : UUID) (w : World) : Prop :=
  ∃ a ∈ w.repo.approvals, a.executionId = id ∧ ∃ row, w.execution id = some row ∧
    row.status = a.decision.closes ∧
    ∃ p ∈ w.repo.actionProposals, a.actionProposalId = some p.proposalId ∧ p.executionId = id ∧
      p.status = a.decision.settles

theorem Books.atMostOne (books : Books row proposalId clerk w) :
    AtMostOneApproval row.executionId w := by
  intro a ha b hb own own'
  have sole : ∀ decision, Sole row proposalId decision w → a = b := by
    rintro decision ⟨x, _, _, only⟩
    exact ((only a).mp ⟨ha, own⟩).trans ((only b).mp ⟨hb, own'⟩).symm
  obtain ⟨decision, stage⟩ := clerk
  cases stage with
  | waiting => exact books.elim
  | turnedAway => exact books.elim
  | entered => exact absurd own (books.2.1 a ha)
  | recorded => exact sole _ books.2.1
  | proposed => exact sole _ books.2.1
  | closed => exact sole _ books.2.1

theorem Books.agreed (books : Books row proposalId clerk w) (closed : clerk.stage = .closed) :
    Agreed row.executionId w := by
  simp only [Books, closed] at books
  obtain ⟨⟨last, stored, status⟩, ⟨a, decides, about, only⟩, p, found, own, settled⟩ := books
  obtain ⟨member, owner⟩ := (only a).mpr rfl
  obtain ⟨filed, named⟩ := Table.get_eq_some.mp found
  exact ⟨a, member, owner, last, stored, decides ▸ status, p, filed, about.trans
    (congrArg some named.symm), own, decides ▸ settled⟩

/-- Where the row is read by one deciding call at a time, at most one decision is recorded, and once
all calls have ended, the row and the proposal agree with it. -/
theorem one_decision {submissions : ι → Submission} (stored : w.execution id = some row)
    (awaits : row.status = .awaitingApproval) (standing : Standing (w.file id) row)
    (decides : ∀ i, (submissions i).decision ≠ .defer)
    (reaches : Sys.Reaches (handle env) observeStage OneAtATime (submit id submissions w) c) :
    AtMostOneApproval id c.shared ∧ ((∀ i, c.pending i = none) → ∀ _ : ι, Agreed id c.shared) := by
  obtain ⟨proposalId, follows, inTurn⟩ := submit_inTurn stored awaits standing decides
  obtain rfl : row.executionId = id := World.execution_id stored
  have kept : Follows (clerkSem row proposalId) (fun _ _ t => t.Ended) c ∧
    InTurn row proposalId c := by
    refine reaches.invariant (I := fun d => Follows (clerkSem row proposalId)
      (fun _ _ t => t.Ended) d ∧
      InTurn row proposalId d) ?_ ⟨follows, inTurn⟩
    rintro d i op ⟨follows, inTurn⟩ next legal
    exact ⟨follows.fire next ⟨inTurn.desk.answers (follows.ok next), rfl⟩, fire_inTurn follows
      awaits inTurn next legal⟩
  obtain ⟨follows, ⟨books, all⟩ | ⟨first, books, _⟩⟩ := kept
  · refine ⟨books.atMostOne, fun ended i => ?_⟩
    rcases ended_of_idle follows (ended i) with closed | turned
    · exact absurd ((all i).symm.trans closed) (by decide)
    · exact absurd ((all i).symm.trans turned) (by decide)
  · refine ⟨books.atMostOne, fun ended _ => books.agreed (books.closed fun busy => ?_)⟩
    have done := ended_of_idle follows (ended first)
    rcases done with closed | turned
    · rcases busy with busy | busy | busy <;> exact absurd (closed.symm.trans busy) (by decide)
    · rcases busy with busy | busy | busy <;> exact absurd (turned.symm.trans busy) (by decide)

end

/-- After a session that has ended, every row has kept its promise. -/
theorem sound_after (env : Env) (engine : ExecutionEngine) (fuel : Nat) (calls : List Call)
    (ended : (run (handle env) (session engine fuel calls) .init).1.isRet = true) :
    Sound (.after env engine fuel calls) := by
  have spec : wp (governed env) (session engine fuel calls) (fun o t => o = .halt ∨
    Sound t) .init :=
    wp_session (fun call _ sound => call.sound sound) calls sound_init
  have views : Views (handle env).sem (governed env) Eq := by
    rintro s g op r t rfl _ _ step
    exact ⟨t, step, rfl⟩
  obtain ⟨_, rfl, halted | sound⟩ := run_of_wp views rfl spec
  · rw [halted] at ended
    cases ended
  · exact sound

/-- Surroundings in which the policy asks for an approval. -/
def asking : Env := .answering .conditional "passed" passed_short

/-- The incident triage 1 when it awaits its approval. -/
def awaitingTriage : World := .after asking (.default .flat) 6 triageSession

theorem awaitingTriage_row : ∃ row, awaitingTriage.execution
    ⟨1⟩ = some row ∧ row.status = .awaitingApproval ∧
    Standing (awaitingTriage.file ⟨1⟩) row := by
  have waits : (awaitingTriage.execution ⟨1⟩).map Execution.status = some .awaitingApproval := by
    decide +kernel
  obtain ⟨row, stored, awaits⟩ := Option.map_eq_some_iff.mp waits
  exact ⟨row, stored, awaits, (sound_after asking (.default .flat) 6 triageSession
    (by decide +kernel)).standing _ row stored⟩

/-- One person approves and another rejects. -/
def split (first : Bool) : Submission :=
  if first then ⟨"alice", .approve, none⟩ else ⟨"bob", .reject, none⟩

theorem split_decides (first : Bool) : (split first).decision ≠ .defer := by cases first <;> decide

/-- The rejection comes after the approval. -/
def inSequence : List Bool := List.replicate 12 true ++ List.replicate 2 false

/-- Both read the row before either writes it. -/
def atOnce : List Bool := [true, true, false, false] ++ List.replicate 10 true ++
    List.replicate 10 false

def afterSubmissions (schedule : List Bool) : Office Bool :=
  (submit ⟨1⟩ split awaitingTriage).fires (handle asking) observeStage schedule

instance (clerk : Clerk) : Decidable clerk.Busy := inferInstanceAs (Decidable (_ ∨ _))

instance (c : Office Bool) (i : Bool) (op : Op) : Decidable (OneAtATime c i op) :=
  inferInstanceAs (Decidable (_ → ∀ other, other ≠ i → ¬ (c.ghost other).Busy))

theorem one_decision_in_sequence : AtMostOneApproval ⟨1⟩ (afterSubmissions inSequence).shared ∧
    Agreed ⟨1⟩ (afterSubmissions inSequence).shared := by
  obtain ⟨row, stored, awaits, standing⟩ := awaitingTriage_row
  have legal : (submit ⟨1⟩ split awaitingTriage).Legally (handle asking) observeStage OneAtATime
    inSequence := by
    decide +kernel
  obtain ⟨sole, agreed⟩ := one_decision stored awaits standing split_decides
    (Sys.Reaches.refl.legally legal)
  refine ⟨sole, agreed (fun i => ?_) true⟩
  have ended : ((afterSubmissions inSequence).pending true).isNone ∧
    ((afterSubmissions inSequence).pending false).isNone := by
    decide +kernel
  cases i with
  | true => exact Option.isNone_iff_eq_none.mp ended.1
  | false => exact Option.isNone_iff_eq_none.mp ended.2

/-- Both decisions are recorded when both calls find the row waiting. -/
theorem two_decisions : ¬ ∀ (ι : Type) [DecidableEq ι] (env : Env) (w : World) (id : UUID)
    (row : Execution) (submissions : ι → Submission) (c : Office ι), w.execution id = some row →
      row.status = .awaitingApproval →
      Standing (w.file id) row → (∀ i, (submissions i).decision ≠ .defer) →
      Sys.Reaches (handle env) observeStage (fun _ _ _ => True) (submit id submissions w) c →
      AtMostOneApproval id c.shared ∧ ((∀ i, c.pending i = none) →
        ∀ _ : ι, Agreed id c.shared) := by
  intro once
  obtain ⟨row, stored, awaits, standing⟩ := awaitingTriage_row
  obtain ⟨sole, _⟩ := once Bool asking awaitingTriage ⟨1⟩ row split _ stored awaits
    standing split_decides
    (Sys.Reaches.refl.fires atOnce)
  have both : ((afterSubmissions atOnce).shared.repo.approvals.rows.map fun a =>
    (a.executionId, a.decision)) =
      [(⟨1⟩, .approve), (⟨1⟩, .reject)] := by decide +kernel
  obtain ⟨a, b, rows⟩ : ∃ a b, (afterSubmissions atOnce).shared.repo.approvals.rows = [a, b] :=
    List.length_eq_two.mp (by simpa using congrArg List.length both)
  simp only [rows, List.map_cons, List.map_nil, List.cons.injEq, Prod.mk.injEq, and_true] at both
  obtain ⟨⟨own, approve⟩, own', reject⟩ := both
  have member : a ∈ (afterSubmissions atOnce).shared.repo.approvals.rows ∧
      b ∈ (afterSubmissions atOnce).shared.repo.approvals.rows := by simp [rows]
  have same := sole a member.1 b member.2 own own'
  rw [same, reject] at approve
  cases approve

end AgenticPlatform
