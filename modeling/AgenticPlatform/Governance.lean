import AgenticPlatform.Ledger
import AgenticPlatform.Sessions

/-! Governance of incident triage over whole sessions: every call leaves every row with the file
that its status promises, and no store in between is unsafe. -/
namespace AgenticPlatform
open Interaction ExecutionEngine Store

section
variable {env : Env} {engine : ExecutionEngine} {w t : World} {id : UUID}
  {row ex : Execution} {now : Time}
  {steps : List Step}

theorem SameBooks.safe (same : SameBooks w t) (safe : AllSafe w) : AllSafe t :=
  fun _ _ stored => same.file ▸ safe _ _ (same.execution ▸ stored)

/-- Storing or reading what is not in the books. -/
theorem off_sound {op : Op} (off : op.offBooks = true) (sound : Sound w) :
    wp (governed env) (M.perform op) (ends Sound (fun _ => Sound) (fun _ => True)) w := by
  refine wp_mono ?_ (governed_off off sound.safe)
  intro o t ht
  cases o with
  | ret a => exact ⟨trivial, sound.same ht.2⟩
  | raise e => exact sound.same ht
  | halt => exact ht

/-- Reading results changes nothing and does not fail. -/
theorem Reads.still {α : Type} {p : M α} (reads : Reads p) (safe : AllSafe w) :
    Interaction.wp (governed env) p (ends (· = w) (fun _ _ => False) (fun _ => True)) w := by
  refine Built.wp (M := governed env) (I := (· = w)) ?_ (fun _ _ no => no.elim) reads w rfl
  rintro β _ _ _ ⟨stepId, _⟩ rfl
  exact governed_call safe ⟨trivial, rfl⟩

theorem Draws.books {α : Type} {p : M α} {R : α → Prop} (draws : Draws p R) (safe : AllSafe w) :
    Interaction.wp (governed env) p (ends (SameBooks w) (fun _ => SameBooks w) R) w := by
  refine Built.wp (M := governed env) (I := SameBooks w) ?_ (fun _ _ no => no.elim) draws w .refl
  rintro β _ _ t ⟨⟩ same
  refine wp_mono ?_ (governed_off rfl (same.safe safe))
  intro o u hu
  cases o with
  | ret a => exact ⟨trivial, same.trans hu.2⟩
  | raise e => exact same.trans hu
  | halt => exact hu

theorem saveSteps_books (steps : List Step) (safe : AllSafe w) :
    wp (governed env) (saveSteps steps)
    (ends (SameBooks w) (fun _ => SameBooks w) (fun _ => True)) w := by
  induction steps generalizing w with
  | nil => exact ⟨trivial, .refl⟩
  | cons st rest ih =>
      refine wp_then (governed_off rfl safe) ?_ fun _ _ same => same
      intro _ t _ same
      refine wp_mono ?_ (ih (same.safe safe))
      intro o u hu
      cases o with
      | ret a => exact ⟨trivial, same.trans hu.2⟩
      | raise e => exact same.trans hu
      | halt => exact hu

/-- Writing a row that is one step further without a decision. -/
theorem update_sound (sound : Sound w) (stored : w.execution id = some row) (step : RowStep row ex)
    (undone : ex.status = .completed → row.status = .completed)
    (unasked : ex.status = .awaitingApproval → row.status = .awaitingApproval) :
    wp (governed env) (M.updateExecution ex)
      (ends (fun t => Sound t ∧ t.execution id = some ex) (fun _ _ => False) (fun _ => True)) w :=
  governed_update sound.apart stored (step.executionId.trans (World.execution_id stored))
    ((sound.standing id row stored).rowStep step undone unasked)

theorem recordTrace_sound {events : List Event} (plain : ∀ event ∈ events, event.Plain)
    (sound : Sound w) :
    wp (governed env) (recordTrace id events now)
    (ends Sound (fun _ => Sound) (fun _ => True)) w := by
  unfold recordTrace
  rw [wp_bind]
  refine wp_mono ?_ (governed_get sound.safe)
  rintro _ _ ⟨rfl, rfl⟩
  cases stored : World.execution _ id with
  | none => exact ⟨trivial, sound⟩
  | some row =>
      have traced : Traced row (appendEvents row events now) := Traced.refl.events plain
      refine wp_mono ?_ (update_sound sound stored (.trace traced)
        (fun done => traced.status ▸ done)
        fun asked => traced.status ▸ asked)
      intro o t ht
      cases o with
      | ret u => exact ⟨trivial, ht.2.1⟩
      | raise e => exact ht.elim
      | halt => exact ht

theorem work_sound {caught : Bool} {β : Type} {p : M β} {R : β → Prop}
    (block : WorkBlock False .any id caught p R) (sound : Sound w) : wp (governed env) p
      (ends Sound (fun _ => Sound) R) w := by
  cases block with
  | quiet op quiet within =>
      refine wp_mono ?_ (off_sound (quiet_offBooks quiet) sound)
      intro o t ht
      cases o with
      | ret a => exact ⟨⟨fun no => no.elim, op.shows_any a⟩, ht.2⟩
      | raise e => exact ht
      | halt => exact ht
  | row =>
      refine wp_mono ?_ (governed_get sound.safe)
      rintro _ _ ⟨rfl, rfl⟩
      exact ⟨⟨fun _ _ => trivial, False.elim⟩, sound⟩
  | trace events now working => exact recordTrace_sound (fun e member => (working e member).1) sound

theorem stepWork_sound {step : Step} (running : step.status = .running) (sound : Sound w) :
    wp (governed env) (engine.stepWork step now)
    (ends Sound (fun _ => Sound) (ResultOf False step)) w :=
  Guarded.wp (M := governed env) (I := Sound) (fun _ _ _ block sound => work_sound block sound)
    (fun _ _ _ block sound => work_sound block sound) (fun _ _ _ sound => sound)
      (stepWork_work running) w sound

theorem runStep_sound {step : Step} (sound : Sound w) :
    wp (governed env) (engine.runStep step now)
    (ends Sound (fun _ => Sound) (fun _ => True)) w := by
  unfold runStep
  refine wp_then (off_sound rfl sound) ?_ fun _ _ sound => sound
  intro o t _ sound
  cases o with
  | none => exact sound
  | some step =>
      refine wp_then wp_ofExcept ?_ ?_
      · rintro _ _ _ rfl
        refine wp_then (off_sound rfl sound) ?_ fun _ _ sound => sound
        intro _ t _ sound
        refine wp_then (recordTrace_sound (plain_one (by decide) rfl) sound) ?_
          fun _ _ sound => sound
        intro _ t _ sound
        refine wp_then (stepWork_sound rfl sound) ?_ fun _ _ sound => sound
        intro result t _ sound
        refine wp_then (off_sound rfl sound) ?_ fun _ _ sound => sound
        intro _ t _ sound
        refine wp_then wp_ofExcept ?_ fun e u raised => raised.2 ▸ sound
        rintro _ _ _ rfl
        refine wp_then (off_sound rfl sound) ?_ fun _ _ sound => sound
        intro _ t _ sound
        exact recordTrace_sound completionEvents_plain sound
      · rintro e u ⟨_, rfl⟩
        exact sound

theorem enterPlanning_sound (sound : Sound w) (stored : w.execution id = some row) :
    wp (governed env) (enterPlanning row now)
      (fun o t => Sound t ∧ ∀ next, o = .ret next → t.execution id = some next) w := by
  unfold enterPlanning
  refine wp_ite (fun created => ?_) fun _ => ⟨sound, by rintro _ ⟨⟩; exact stored⟩
  refine wp_then wp_ofExcept ?_ fun e u raised => ⟨raised.2 ▸ sound, by rintro _ ⟨⟩⟩
  rintro _ _ _ rfl
  have moved : StatusStep row (enterStatus row .planning [] now) :=
    enterStatus_step (by simp [created, executionAllowed]) ⟨rfl, rfl⟩ (by decide)
      ⟨rfl, rfl, rfl, rfl, fun _ => rfl⟩
  refine wp_then (update_sound sound stored (.status moved) (by simp) (by simp)) ?_
    fun _ _ no => no.elim
  rintro _ t _ ⟨sound, written⟩
  exact ⟨sound, by rintro _ ⟨⟩; exact written⟩

theorem enterExecuting_sound (sound : Sound w) (stored : w.execution id = some row) :
    wp (governed env) (engine.enterExecuting row now)
    (ends Sound (fun _ => Sound) (fun _ => True)) w := by
  unfold enterExecuting
  refine wp_ite (fun planning => ?_) fun _ => ⟨trivial, sound⟩
  have created : Draws (createPlan engine.plannerMeta row now) (fun plan => Planned row plan) :=
    .bind draws_uuid4 fun planId _ => (planWorkflow_draws _ _ planId now).mono fun _ h => h.1
  refine wp_then (created.books sound.safe) ?_ fun _ _ same => sound.same same
  intro plan t planned same₁
  refine wp_then (governed_off rfl (same₁.safe sound.safe)) ?_ fun _ _ same => sound.same
    (same₁.trans same)
  intro _ t _ same
  have same₂ := same₁.trans same
  have instantiated : Draws (engine.instantiateSteps plan row now) (fun _ => True) := by
    refine .bind (keyToId_draws plan.steps) fun ids keys => ?_
    obtain ⟨steps, built, _⟩ := buildSteps_planned engine planned now keys
    rw [built]
    exact .ret _ trivial
  refine wp_then (instantiated.books (same₂.safe sound.safe)) ?_ fun _ _ same => sound.same
    (same₂.trans same)
  intro steps t _ same
  have same₃ := same₂.trans same
  refine wp_then (saveSteps_books steps (same₃.safe sound.safe)) ?_ fun _ _ same => sound.same
    (same₃.trans same)
  intro _ t _ same
  have same₄ := same₃.trans same
  refine wp_then wp_ofExcept ?_ fun e u raised => raised.2 ▸ sound.same same₄
  rintro _ _ _ rfl
  have moved : StatusStep row (enterStatus { row with currentPlanId := some plan.planId } .executing
      [("plan_id", .str plan.planId.str)] now) :=
    enterStatus_step (by simp [planning, executionAllowed]) ⟨rfl, rfl⟩ (by decide)
      ⟨rfl, rfl, rfl, rfl, fun _ => rfl⟩
  refine wp_mono ?_ (update_sound (sound.same same₄) (same₄.execution.trans stored) (.status moved)
    (by simp) (by simp))
  intro o u hu
  cases o with
  | ret a => exact ⟨trivial, hu.2.1⟩
  | raise e => exact hu.elim
  | halt => exact hu

theorem cancelExecution_sound {reason : String} (sound : Sound w) :
    wp (governed env) (cancelExecution id reason now) (fun _ t => Sound t) w := by
  unfold cancelExecution
  rw [wp_bind]
  refine wp_mono ?_ (governed_get sound.safe)
  rintro _ _ ⟨rfl, rfl⟩
  cases stored : World.execution _ id with
  | none => exact sound
  | some row =>
      obtain ⟨input, requested⟩ := requestCancellationMeta_eq row now reason
      simp only [andThen_ret, requested]
      have rewritten : wp (governed env)
          (M.updateExecution { row with input := input } >>= fun _ =>
            pure { row with input := input })
          (fun _ t => Sound t) _ :=
        wp_then (update_sound sound stored (.input input) (fun done => done) fun asked => asked)
          (fun _ _ _ known => known.1) fun _ _ no => no.elim
      refine wp_ite (fun _ => rewritten) fun live => ?_
      split
      · exact rewritten
      · have live : isExecutionTerminal row.status = false := by simpa using live
        refine wp_then (update_sound sound stored ?_ (by simp) (by simp))
          (fun _ _ _ known => known.1)
          fun _ _ no => no.elim
        exact .status <| enterStatus_step (abort_allowed live).2 ⟨rfl, rfl⟩ (by decide)
          ⟨rfl, rfl, rfl, rfl, fun no => absurd rfl no⟩

theorem failExecution_sound {reason : String} (sound : Sound w) :
    wp (governed env) (failExecution id reason) (fun _ t => Sound t) w := by
  unfold failExecution
  refine wp_then (off_sound rfl sound) ?_ fun _ _ sound => sound
  intro ts t _ sound
  rw [wp_bind]
  refine wp_mono ?_ (governed_get sound.safe)
  rintro _ _ ⟨rfl, rfl⟩
  cases stored : World.execution _ id with
  | none => exact sound
  | some row =>
      refine wp_ite (fun _ => sound) fun live => ?_
      split
      · exact sound
      · have live : isExecutionTerminal row.status = false := by simpa using live
        refine wp_then (update_sound sound stored ?_ (by simp) (by simp))
          (fun _ _ _ known => known.1)
          fun _ _ no => no.elim
        exact .status <| enterStatus_step (abort_allowed live).1 ⟨rfl, rfl⟩ (by decide)
          ⟨rfl, rfl, rfl, rfl, fun _ => rfl⟩

/-- A row prepared for `id`, to be stored over `row`. -/
structure Ready (id : UUID) (row ex : Execution) (t : World) : Prop where
  apart : Apart id t
  stored : t.execution id = some row
  ident : ex.executionId = id
  standing : Standing (t.file id) ex

theorem Ready.update (ready : Ready id row ex w) : wp (governed env) (M.updateExecution ex)
    (ends (fun t => Sound t ∧ t.execution id = some ex) (fun _ _ => False) (fun _ => True)) w :=
  governed_update ready.apart ready.stored ready.ident ready.standing

/-- A new proposal leaves its execution undecided. -/
theorem propose_sound {p : ActionProposal} (sound : Sound w)
    (undecided : (w.file p.executionId).Undecided) (proposed : p.status = .proposed)
    (new : Issued w p.proposalId.n) (given : p.proposalId.n < w.fresh)
    (known : p.executionId.n < w.fresh) (open_ : ∀ row, w.execution p.executionId = some row →
      row.status = .validating) :
    Sound (w.saveProposal p) ∧ ((w.saveProposal p).file p.executionId).Undecided ∧
      p ∈ ((w.saveProposal p).file p.executionId).proposals := by
  have filed := saveProposal_filed (w := w) (p := p) fun x member same =>
    absurd (congrArg UUID.n same) (new.proposals x member).1.ne
  have file := saveProposal_file (w := w) p
  have still : ((w.saveProposal p).file p.executionId).Undecided := by
    rw [file]
    refine ⟨undecided.evaluations, undecided.approvals, ?_⟩
    rintro x (rfl | ⟨old, _⟩)
    · exact proposed
    · exact undecided.proposals x old
  refine ⟨(sound.apart.filed filed (saveProposal_issued sound.issued ⟨given, known⟩)).sound ?_,
    still, ?_⟩
  · intro row stored
    have status := open_ row (filed.execution ▸ stored)
    simpa only [Standing, status] using still
  · rw [file]
    exact .inl rfl

/-- The first evaluation, of a proposal that has been filed. -/
theorem evaluate_apart {p : ActionProposal} {e : PolicyEvaluation} (apart : Apart e.executionId w)
    (undecided : (w.file e.executionId).Undecided) (filed : p ∈ (w.file e.executionId).proposals)
    (concerns : e.Concerns p) (new : Issued w e.evaluationId.n) (given : e.evaluationId.n < w.fresh)
    (known : e.executionId.n < w.fresh) :
    Apart e.executionId (w.saveEvaluation e) ∧ ((w.saveEvaluation e).file e.executionId).Evaluated
      e p none := by
  refine ⟨apart.filed (saveEvaluation_filed fun x member same =>
    absurd (congrArg UUID.n same) (new.evaluations x member).1.ne)
      (saveEvaluation_issued apart.issued ⟨given, known⟩), ?_⟩
  rw [saveEvaluation_file undecided.evaluations]
  refine ⟨rfl, ?_, filed, fun x member _ => undecided.proposals x member,
    fun x member same => ?_, concerns⟩
  · rw [undecided.approvals]
    ext a
    simp
  · exact Table.eq_of_key member.1 filed.1 same

/-- The proposal is saved again with the effect of the decision. -/
theorem settle_apart {p done : ActionProposal} {e : PolicyEvaluation} {a : Option Approval}
    (apart : Apart done.executionId w) (evaluated : (w.file done.executionId).Evaluated e p a)
    (same : done.proposalId = p.proposalId) :
    Apart done.executionId (w.saveProposal done) ∧
      ((w.saveProposal done).file done.executionId).Evaluated e done a := by
  have own : ∀ x ∈ w.repo.actionProposals, x.proposalId = done.proposalId → x.executionId =
    done.executionId := by
    intro x member key
    rw [Table.eq_of_key member evaluated.held.1 (key.trans same)]
    exact evaluated.held.2
  have issued : Issued (w.saveProposal done) w.fresh := by
    have given := apart.issued.proposals p evaluated.held.1
    exact saveProposal_issued apart.issued ⟨same ▸ given.1, evaluated.held.2 ▸ given.2⟩
  refine ⟨apart.filed (saveProposal_filed own) issued, ?_⟩
  rw [saveProposal_file]
  refine ⟨evaluated.evaluations, evaluated.approvals, .inl rfl, ?_, ?_, ?_⟩
  · rintro x (rfl | ⟨old, ne⟩) apart
    · exact absurd rfl apart
    · exact evaluated.others x old fun eq => ne (eq.trans same.symm)
  · rintro x (rfl | ⟨old, ne⟩) key
    · rfl
    · exact absurd key ne
  · simpa only [PolicyEvaluation.Concerns, same] using evaluated.concerns

theorem settle_saved {p : ActionProposal} {e : PolicyEvaluation} {a : Option Approval}
    (done : ActionProposal) (apart : Apart id w) (stored : w.execution id = some row)
    (live : row.status ≠ .completed) (evaluated : (w.file id).Evaluated e p a)
    (owner : done.executionId = id) (same : done.proposalId = p.proposalId)
    (effect : (e.decision = .deny ∨ ∃ A, a = some A ∧ A.decision = .reject) →
      done.status ≠ .approved) :
    wp (governed env) (M.saveActionProposal done)
    (ends (fun t => Apart id t ∧ t.execution id = some row ∧
      (t.file id).Evaluated e done a) (fun _ _ => False) (fun _ => True)) w := by
  subst owner
  obtain ⟨apart, evaluated⟩ := settle_apart apart evaluated same
  exact governed_call (apart.safe stored (evaluated.safe live effect))
    ⟨trivial, apart, stored, evaluated⟩

/-- The governance block of a governed result names the two rows. -/
theorem governanceIds_governed {base : Dict} {p : ActionProposal} {decision : PolicyDecision}
    {approvalStatus : String} {evaluationId : UUID}
    (result : ex.result = some (governedResult base [("outcome", .str "awaiting_approval"),
      ("workflow_type", .str "incident_triage"),
        ("governance", .obj (governanceBlock p.proposalId evaluationId))]
      p decision approvalStatus)) : governanceIds ex = .ok (p.proposalId, evaluationId) := by
  have block : (ex.result.getD []).get "governance" =
    .obj (governanceBlock p.proposalId evaluationId) := by
    rw [result]
    simp [governedResult, Dict.merge, Dict.get, Dict.get?_set]
  rw [governanceIds, block]
  simp [governanceBlock, Dict.get]

/-- The decision of the policy takes effect: the row that is returned keeps what it promises. -/
theorem applyPolicyDecision_ready {p : ActionProposal} {e : PolicyEvaluation} {summary base : Dict}
    (apart : Apart id w) (stored : w.execution id = some row) (live : row.status ≠ .completed)
    (ident : ex.executionId = id) (owner : p.executionId = id)
    (evaluated : (w.file id).Evaluated e p none) :
    wp (governed env) (applyPolicyDecision ex p e.evaluationId e.decision summary base now)
      (fun o t => ∃ next, o = .ret next ∧ Ready id row next t) w := by
  have denied : (e.decision = .deny ∨ ∃ A : Approval, none = some A ∧ A.decision = .reject) →
    e.decision = .deny := by
    rintro (deny | ⟨_, no, _⟩)
    · exact deny
    · cases no
  cases decision : e.decision with
  | deny =>
      refine wp_then (settle_saved { p with status := .policyDenied, updatedAt := now }
        apart stored live
        evaluated owner rfl (by simp)) ?_ fun _ _ no => no.elim
      rintro _ t _ ⟨apart, stored, evaluated⟩
      refine wp_then (wp_ofExcept_ok rfl) ?_ fun _ _ no => no.elim
      rintro _ _ _ rfl
      refine ⟨_, rfl, apart, stored, by simp [ident], ?_⟩
      simp only [Standing, concludeExecution_status]
      exact evaluated.unapproved (by simp)
  | allow =>
      refine wp_then (settle_saved { p with status := .approved, updatedAt := now }
        apart stored live
        evaluated owner rfl fun refused => absurd (denied refused) (by simp [decision])) ?_
          fun _ _ no => no.elim
      rintro _ t _ ⟨apart, stored, evaluated⟩
      refine wp_then (wp_ofExcept_ok rfl) ?_ fun _ _ no => no.elim
      rintro _ _ _ rfl
      refine ⟨_, rfl, apart, stored, by simp [ident], ?_⟩
      simp only [Standing, concludeExecution_status]
      refine ⟨fun _ => ⟨e, by simp [evaluated.evaluations], _, evaluated.held, evaluated.concerns,
        rfl, .inl decision⟩, fun refused => ?_⟩
      rcases evaluated.refused refused with deny | ⟨_, no, _⟩
      · simp [decision] at deny
      · cases no
  | conditional =>
      refine wp_then (settle_saved
        { p with status := .awaitingApproval, requiresApproval := true, updatedAt := now }
        apart stored live evaluated owner rfl (by simp)) ?_ fun _ _ no => no.elim
      rintro _ t _ ⟨apart, stored, evaluated⟩
      refine wp_then (wp_ofExcept_ok rfl) ?_ fun _ _ no => no.elim
      rintro _ _ _ rfl
      refine ⟨_, rfl, apart, stored, by simp [ident], ?_⟩
      simp only [Standing, concludeExecution_status]
      exact ⟨e, { p with status := .awaitingApproval, requiresApproval := true, updatedAt := now },
        governanceIds_governed (p := p) concludeExecution_result, evaluated, decision, rfl⟩

/-- Governance raises before anything was evaluated, or prepares a row that keeps what it
promises. -/
theorem finalize_ready (sound : Sound w) (stored : w.execution id = some row)
    (validating : row.status = .validating) :
    wp (governed env) (finalizeIncidentTriageGovernance row steps now) (fun o t =>
      (∃ next, o = .ret next ∧ Ready id row next t) ∨ (∃ e, o = .raise e ∧ Sound t)) w := by
  obtain rfl : row.executionId = id := World.execution_id stored
  unfold finalizeIncidentTriageGovernance
  refine wp_then (governed_off rfl sound.safe) ?_ fun e _ same => .inr ⟨e, rfl, sound.same same⟩
  intro ctx t _ same
  cases ctx with
  | none => exact .inr ⟨_, rfl, sound.same same⟩
  | some ctx =>
      have sound := sound.same same
      refine wp_then ((validationSummaryFromSteps_reads steps).still sound.safe) ?_
        fun _ _ no => no.elim
      rintro summary _ _ rfl
      refine wp_then ((buildCompletionResult_reads row steps).still sound.safe) ?_
        fun _ _ no => no.elim
      rintro base _ _ rfl
      refine wp_then ((stepOutputByName_reads steps _).still sound.safe) ?_ fun _ _ no => no.elim
      rintro validateOut t _ rfl
      have stored := same.execution.trans stored
      rw [wp_bind]
      refine wp_mono ?_ (governed_uuid4 sound.safe)
      rintro _ u ⟨rfl, same, given⟩
      simp only [andThen_ret]
      have issued := same.issued sound.issued
      have sound := sound.same same
      have stored := same.execution.trans stored
      have known : row.executionId.n < u.fresh := sound.issued.executions row
        (Table.get_eq_some.mp stored).1
      generalize proposed : escalationProposal row ⟨t.fresh⟩
        (stepByPlannerName steps "validate_incident")
        validateOut now = p
      have owner : p.executionId = row.executionId := by rw [← proposed]; rfl
      have fresh : p.proposalId = ⟨t.fresh⟩ := by rw [← proposed]; rfl
      have status : p.status = .proposed := by rw [← proposed]; rfl
      obtain ⟨sound, undecided, held⟩ := propose_sound (p := p) sound
        (owner ▸ (sound.standing _ row stored).undecided (by simp [validating])) status
          (fresh ▸ issued)
        (fresh ▸ given) (owner ▸ known) (by
          intro other found
          rw [owner, stored] at found
          exact Option.some.inj found ▸ validating)
      have saved : wp (governed env) (M.saveActionProposal p)
          (ends (· = u.saveProposal p) (fun _ _ => False) (fun _ => True)) u :=
        governed_call sound.safe ⟨trivial, rfl⟩
      refine wp_then saved ?_ fun _ _ no => no.elim
      rintro _ _ _ rfl
      refine wp_then (governed_off rfl sound.safe) ?_ fun e _ same => .inr ⟨e, rfl, sound.same same⟩
      intro draft v _ same₁
      rw [wp_bind]
      refine wp_mono ?_ (governed_uuid4 (same₁.safe sound.safe))
      rintro _ x ⟨rfl, same₂, given⟩
      simp only [andThen_ret]
      have issued := same₂.issued (sound.same same₁).issued
      have same := same₁.trans same₂
      let e := policyEvaluationOf (appendTimeline row "action_proposed" (actionProposed p) now) ctx
        ⟨v.fresh⟩
        draft p now
      have file : x.file row.executionId = (u.saveProposal p).file row.executionId := same.file
      have stored : x.execution row.executionId = some row := same.execution.trans stored
      obtain ⟨apart, evaluated⟩ := evaluate_apart (p := p) (e := e) (sound.same same).apart
        (file ▸ owner ▸ undecided) (file ▸ owner ▸ held) rfl issued given
          (known.trans_le same.fresh)
      have saved : wp (governed env) (M.savePolicyEvaluation e)
          (ends (· = x.saveEvaluation e) (fun _ _ => False) (fun _ => True)) x := by
        refine governed_call (apart.safe stored (evaluated.safe (by simp [validating]) ?_))
          ⟨trivial, rfl⟩
        simp [status]
      refine wp_then saved ?_ fun _ _ no => no.elim
      rintro _ _ _ rfl
      have ident : (appendTimeline (appendTimeline row "action_proposed" (actionProposed p) now)
        "policy_evaluated"
        (policyEvaluated ⟨v.fresh⟩ draft) now).executionId = row.executionId := rfl
      exact wp_mono (fun _ _ ready => .inl ready)
        (applyPolicyDecision_ready apart stored (by simp [validating]) ident owner evaluated)

theorem stuck_sound (sound : Sound w) : wp (governed env) (stuck steps) (fun _ t => Sound t) w :=
  wp_ite (fun _ => sound) fun _ => sound

theorem completeRun_sound (sound : Sound w) (stored : w.execution id = some row) :
    wp (governed env) (completeRun row steps) (fun _ t => Sound t) w := by
  have ident : row.executionId = id := World.execution_id stored
  unfold completeRun
  refine wp_ite (fun _ => ?_) fun _ => stuck_sound sound
  refine wp_then (governed_off rfl sound.safe) ?_ fun _ _ same => sound.same same
  intro now t _ same
  have sound := sound.same same
  have stored := same.execution.trans stored
  refine wp_ite (fun validating => wp_ite (fun _ => ?_) fun other => ?_) fun _ =>
    wp_ite (fun _ => sound) fun _ => stuck_sound sound
  · rw [wp_bind]
    refine wp_mono ?_ (finalize_ready sound stored validating)
    rintro _ u (⟨next, rfl, ready⟩ | ⟨e, rfl, sound⟩)
    · exact wp_then ready.update (fun _ _ _ known => known.1) fun _ _ no => no.elim
    · exact sound
  · refine wp_then (wp_ofExcept_ok rfl) ?_ fun _ _ no => no.elim
    rintro _ _ _ rfl
    refine wp_then ((validationSummaryFromSteps_reads steps).still sound.safe) ?_
      fun _ _ no => no.elim
    rintro summary _ _ rfl
    refine wp_then ((buildCompletionResult_reads row steps).still sound.safe) ?_
      fun _ _ no => no.elim
    rintro result _ _ rfl
    have undecided := (sound.standing _ row stored).undecided (by simp [validating])
    refine wp_then (governed_update sound.apart stored (by simp [ident]) ?_)
      (fun _ _ _ known => known.1)
      fun _ _ no => no.elim
    simp only [Standing, concludeExecution_status, concludeExecution_workflowType]
    exact ⟨fun incident => absurd incident other, undecided.not_refused⟩

theorem resolvePlan_books (safe : AllSafe w) :
    wp (governed env) (resolvePlan row)
    (ends (SameBooks w) (fun _ => SameBooks w) (fun _ => True)) w := by
  unfold resolvePlan
  cases row.currentPlanId with
  | none => exact ⟨trivial, .refl⟩
  | some planId => exact governed_off rfl safe

theorem runLoop_sound (fuel : Nat) (sound : Sound w) :
    wp (governed env) (engine.runLoop id fuel) (fun _ t => Sound t) w := by
  induction fuel generalizing w with
  | zero => exact sound
  | succ fuel ih =>
      unfold runLoop
      rw [wp_bind]
      refine wp_mono ?_ (governed_get sound.safe)
      rintro _ _ ⟨rfl, rfl⟩
      cases stored : World.execution _ id with
      | none => exact sound
      | some row =>
          refine wp_ite (fun requested => ?_) fun _ => wp_ite (fun _ => sound) fun _ =>
            wp_ite (fun _ => sound) fun live => ?_
          · refine wp_then (off_sound rfl sound) ?_ fun _ _ sound => sound
            exact fun _ _ _ sound => cancelExecution_sound sound
          · refine wp_then (governed_off rfl sound.safe) ?_ fun _ _ same => sound.same same
            intro steps t _ same₁
            refine wp_then (resolvePlan_books (same₁.safe sound.safe)) ?_
              fun _ _ same => sound.same (same₁.trans same)
            intro plan t _ same
            have same₂ := same₁.trans same
            cases plan with
            | none => exact sound.same same₂
            | some plan =>
                refine wp_then (governed_off rfl (same₂.safe sound.safe)) ?_
                  fun _ _ same => sound.same (same₂.trans same)
                intro now t _ same
                have same₃ := same₂.trans same
                obtain ⟨next, entered, change⟩ := maybeEnterValidating_eq row steps now
                rw [entered, wp_bind, wp_ret, andThen_ret]
                have moved : RowStep row next ∧
                  (next.status = row.status ∨ next.status = .validating) := by
                  rcases change with rfl | ⟨executing, rfl⟩
                  · exact ⟨.input next.input, .inl rfl⟩
                  · exact ⟨.status <| enterStatus_step (by simp [executing, executionAllowed])
                      ⟨rfl, rfl⟩
                      (by decide) ⟨rfl, rfl, rfl, rfl, fun _ => rfl⟩, .inr rfl⟩
                refine wp_then (update_sound (sound.same same₃) (same₃.execution.trans stored)
                  moved.1 ?_ ?_) ?_
                  fun _ _ no => no.elim
                · rintro done
                  rcases moved.2 with same | other
                  · exact same ▸ done
                  · simp [done] at other
                · rintro asked
                  rcases moved.2 with same | other
                  · exact same ▸ asked
                  · simp [asked] at other
                rintro _ t _ ⟨sound, _⟩
                rw [wp_bind]
                refine wp_mono ?_ (governed_get sound.safe)
                rintro _ _ ⟨rfl, rfl⟩
                cases stored : World.execution _ id with
                | none => exact sound
                | some row =>
                    refine wp_ite (fun _ => sound) fun _ => ?_
                    refine wp_then (governed_off rfl sound.safe) ?_ fun _ _ same => sound.same same
                    intro steps t _ same
                    split
                    · refine wp_then (runStep_sound (sound.same same)) ?_ fun _ _ sound => sound
                      exact fun _ t _ sound => ih sound
                    · exact completeRun_sound (sound.same same) (same.execution.trans stored)

theorem startExecution_sound {fuel : Nat} (sound : Sound w) :
    wp (governed env) (engine.startExecution fuel id) (fun _ t => Sound t) w := by
  have ran : wp (governed env) (engine.runExecution fuel id) (fun _ t => Sound t) w := by
    unfold runExecution
    rw [wp_bind]
    refine wp_mono ?_ (governed_get sound.safe)
    rintro _ _ ⟨rfl, rfl⟩
    cases stored : World.execution _ id with
    | none => exact sound
    | some row =>
        refine wp_then (governed_off rfl sound.safe) ?_ fun _ _ same => sound.same same
        intro now t _ same
        refine wp_ite (fun _ => sound.same same) fun _ => ?_
        rw [wp_bind]
        refine wp_mono ?_ (enterPlanning_sound (sound.same same) (same.execution.trans stored))
        intro o t ht
        cases o with
        | ret next =>
            refine wp_then (enterExecuting_sound ht.1 (ht.2 next rfl)) ?_ fun _ _ sound => sound
            exact fun _ _ _ sound => runLoop_sound fuel sound
        | raise e => exact ht.1
        | halt => exact ht.1
  unfold startExecution
  rw [wp_tryCatch]
  refine wp_mono ?_ ran
  intro o t sound
  cases o with
  | ret ex => exact sound
  | raise e => exact wp_ite (fun _ => failExecution_sound sound) fun _ => sound
  | halt => exact sound

end
end AgenticPlatform
