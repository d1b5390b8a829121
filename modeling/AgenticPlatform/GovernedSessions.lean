import AgenticPlatform.Governance

/-! Approvals and the calls of the service: with them, governance over whole sessions. -/
namespace AgenticPlatform
open Interaction ExecutionEngine Store

section
variable {env : Env} {engine : ExecutionEngine} {fuel : Nat} {w : World} {id : UUID}
  {row ex : Execution} {now : Time}

/-- The first approval of an evaluation. -/
theorem approve_apart {p : ActionProposal} {e : PolicyEvaluation} {a : Approval}
    (apart : Apart a.executionId w) (evaluated : (w.file a.executionId).Evaluated e p none)
    (new : Issued w a.approvalId.n) (given : a.approvalId.n < w.fresh)
    (known : a.executionId.n < w.fresh) :
    Apart a.executionId (w.saveApproval a) ∧
      ((w.saveApproval a).file a.executionId).Evaluated e p (some a) := by
  refine ⟨apart.filed (saveApproval_filed fun x member same =>
    absurd (congrArg UUID.n same) (new.approvals x member).1.ne) (saveApproval_issued apart.issued
      ⟨given, known⟩), ?_⟩
  rw [saveApproval_file (by rw [evaluated.approvals]; simp)]
  refine ⟨evaluated.evaluations, ?_, evaluated.held, evaluated.others, evaluated.keyed,
    evaluated.concerns⟩
  ext x
  simp [eq_comm]

/-- The decision of the approver takes effect. -/
theorem applyApprovalDecision_sound {p : ActionProposal} {e : PolicyEvaluation} {a : Approval}
    {summary base : Dict} (apart : Apart id w) (stored : w.execution id = some row)
    (live : row.status ≠ .completed) (ident : ex.executionId = id) (owner : p.executionId = id)
    (evaluated : (w.file id).Evaluated e p (some a)) (conditional : e.decision = .conditional)
    (decided : a.decision ≠ .defer) (references : a.References e p) :
    wp (governed env) (applyApprovalDecision ex p a.decision summary base now)
    (fun _ t => Sound t) w := by
  unfold applyApprovalDecision
  refine wp_ite (fun reject => ?_) fun other => ?_
  · refine wp_then (settle_saved { p with status := .rejected, updatedAt := now } apart stored live
      evaluated owner
      rfl (by simp)) ?_ fun _ _ no => no.elim
    rintro _ t _ ⟨apart, stored, evaluated⟩
    refine wp_then (wp_ofExcept_ok rfl) ?_ fun _ _ no => no.elim
    rintro _ _ _ rfl
    refine wp_then (governed_update apart stored (by simp [ident]) ?_) (fun _ _ _ known => known.1)
      fun _ _ no => no.elim
    simp only [Standing, concludeExecution_status]
    exact evaluated.unapproved (by simp)
  · have approve : a.decision = .approve := by
      cases decision : a.decision with
      | approve => rfl
      | reject => exact absurd decision other
      | defer => exact absurd decision decided
    have granted : ¬ (e.decision = .deny ∨ ∃ A, some a = some A ∧ A.decision = .reject) := by
      rintro (deny | ⟨_, ⟨⟩, reject⟩)
      · simp [conditional] at deny
      · exact other reject
    refine wp_then (settle_saved { p with status := .approved, updatedAt := now } apart stored live
      evaluated owner
      rfl fun refused => absurd refused granted) ?_ fun _ _ no => no.elim
    rintro _ t _ ⟨apart, stored, evaluated⟩
    refine wp_then (wp_ofExcept_ok rfl) ?_ fun _ _ no => no.elim
    rintro _ _ _ rfl
    refine wp_then (governed_update apart stored (by simp [ident]) ?_) (fun _ _ _ known => known.1)
      fun _ _ no => no.elim
    simp only [Standing, concludeExecution_status]
    exact ⟨fun _ => ⟨e, by simp [evaluated.evaluations], _, evaluated.held, evaluated.concerns, rfl,
      .inr ⟨conditional, a, by simp [evaluated.approvals], approve, references.evaluation,
        references.proposal⟩⟩,
      fun refused => granted (evaluated.refused refused)⟩

theorem submitApproval_sound {approver : String} {decision : ApprovalDecision}
    {notes : Option String} (sound : Sound w) : wp (governed env)
    (submitApproval id approver decision notes) (fun _ t => Sound t) w := by
  unfold submitApproval
  refine wp_then (off_sound rfl sound) ?_ fun _ _ sound => sound
  intro ts t _ sound
  rw [wp_bind]
  refine wp_mono ?_ (governed_get sound.safe)
  rintro _ _ ⟨rfl, rfl⟩
  cases stored : World.execution _ id with
  | none => exact sound
  | some row =>
      obtain rfl : row.executionId = id := World.execution_id stored
      refine wp_ite (fun _ => sound) fun waits => ?_
      have waits : row.status = .awaitingApproval := by simpa using waits
      have live : row.status ≠ .completed := by simp [waits]
      obtain ⟨e, p, ids, evaluated, conditional, waiting⟩ :=
        (sound.standing _ row stored).awaiting waits
      refine wp_then (wp_ofExcept_ok ids) ?_ fun _ _ no => no.elim
      rintro _ v rfl rfl
      refine wp_ite (fun _ => sound) fun decided => ?_
      rw [wp_bind]
      refine wp_mono ?_ (governed_uuid4 sound.safe)
      rintro _ u ⟨rfl, same, given⟩
      simp only [andThen_ret]
      have issued := same.issued sound.issued
      have stored := same.execution.trans stored
      have known := (sound.same same).issued.executions row (Table.get_eq_some.mp stored).1
      generalize made : approvalOf row.executionId _ p.proposalId e.evaluationId approver
        decision notes ts = a
      have owner : a.executionId = row.executionId := by rw [← made]; rfl
      have drawn : a.approvalId = ⟨v.fresh⟩ := by rw [← made]; rfl
      have decides : a.decision = decision := by rw [← made]; rfl
      have references : a.References e p := by rw [← made]; exact ⟨rfl, rfl⟩
      obtain ⟨apart, evaluated⟩ := approve_apart (p := p) (e := e) (a := a) (sound.same same).apart
        (by rw [owner, same.file]; exact evaluated) (drawn ▸ issued) (drawn ▸ given) (owner ▸ known)
      rw [owner] at apart evaluated
      have safe : AllSafe (u.saveApproval a) :=
        apart.safe stored (evaluated.safe live (by simp [waiting]))
      have saved : wp (governed env) (M.saveApproval a)
          (ends (· = u.saveApproval a) (fun _ _ => False) (fun _ => True)) u :=
            governed_call safe ⟨trivial, rfl⟩
      refine wp_then saved ?_ fun _ _ no => no.elim
      rintro _ _ _ rfl
      have found : (u.saveApproval a).repo.actionProposals.get p.proposalId = some p :=
        Table.get_of_mem evaluated.held.1
      have read : wp (governed env) (M.getActionProposal p.proposalId)
          (ends (· = u.saveApproval a) (fun _ _ => False) (· = some p)) (u.saveApproval a) :=
        governed_call safe ⟨found, rfl⟩
      refine wp_then read ?_ fun _ _ no => no.elim
      rintro _ _ rfl rfl
      have listed : wp (governed env) (M.listStepsForExecution row.executionId)
          (ends (· = u.saveApproval a) (fun _ _ => False) (fun _ => True)) (u.saveApproval a) :=
        governed_call safe ⟨trivial, rfl⟩
      refine wp_then listed ?_ fun _ _ no => no.elim
      rintro steps _ _ rfl
      refine wp_then ((validationSummaryFromSteps_reads steps).still safe) ?_ fun _ _ no => no.elim
      rintro summary _ _ rfl
      refine wp_then ((buildCompletionResult_reads _ steps).still safe) ?_ fun _ _ no => no.elim
      rintro base _ _ rfl
      rw [← decides]
      exact applyApprovalDecision_sound apart stored live rfl evaluated.held.2 evaluated conditional
        (decides ▸ decided) references

theorem rewriteExecution_sound {change : Execution → Execution}
    (input : ∀ row, ∃ d, change row = { row with input := d }) (sound : Sound w) :
    wp (governed env) (rewriteExecution id change) (fun _ t => Sound t) w := by
  unfold rewriteExecution
  rw [wp_bind]
  refine wp_mono ?_ (governed_get sound.safe)
  rintro _ _ ⟨rfl, rfl⟩
  cases stored : World.execution _ id with
  | none => exact sound
  | some row =>
      obtain ⟨d, changed⟩ := input row
      simp only [andThen_ret, changed]
      exact wp_then (update_sound sound stored (.input d) (fun done => done) fun asked => asked)
        (fun _ _ _ known => known.1) fun _ _ no => no.elim

theorem enqueueExecution_sound (sound : Sound w) :
    wp (governed env) (enqueueExecution id) (fun _ t => Sound t) w := by
  refine wp_then (off_sound rfl sound) (fun ts t _ sound => ?_) fun _ _ sound => sound
  refine wp_keeping (rewriteExecution_sound (fun row => applyRuntimeMeta_eq row _) sound)
    fun ex t sound => ?_
  exact wp_then (off_sound rfl sound) (fun _ _ _ sound => sound) fun _ _ sound => sound

theorem recordWorkerStarted_sound {workerId : String} {at_ : Option Time} (sound : Sound w) :
    wp (governed env) (recordWorkerStarted id workerId at_) (fun _ t => Sound t) w := by
  unfold recordWorkerStarted
  cases at_ with
  | some ts => exact rewriteExecution_sound (fun row => applyRuntimeMeta_eq row _) sound
  | none =>
      refine wp_then (off_sound rfl sound) (fun ts t _ sound => ?_) fun _ _ sound => sound
      exact rewriteExecution_sound (fun row => applyRuntimeMeta_eq row _) sound

theorem requestCancellation_sound {reason : String} (sound : Sound w) :
    wp (governed env) (requestCancellation id reason) (fun _ t => Sound t) w := by
  refine wp_then (off_sound rfl sound) (fun ts t _ sound => ?_) fun _ _ sound => sound
  refine wp_keeping (rewriteExecution_sound (fun row => requestCancellationMeta_eq row ts reason)
    sound)
    fun ex t sound => ?_
  exact wp_ite (fun _ => sound) fun _ => cancelExecution_sound sound

/-- Nothing is filed yet for an identifier that has just been drawn. -/
theorem Issued.undecided (issued : Issued w id.n) : (w.file id).Undecided where
  evaluations := by
    refine Set.eq_empty_of_forall_notMem fun e member => ?_
    exact (member.2 ▸ (issued.evaluations e member.1).2).ne rfl
  approvals := by
    refine Set.eq_empty_of_forall_notMem fun a member => ?_
    exact (member.2 ▸ (issued.approvals a member.1).2).ne rfl
  proposals p member := ((member.2 ▸ (issued.proposals p member.1).2).ne rfl).elim

theorem createExecution_sound {new : NewExecution} {ts : Time} (sound : Sound w) :
    wp (governed env) (createExecution new ts)
      (fun o t => Sound t ∧ ∀ ex, o = .ret ex → t.execution ex.executionId = some ex) w := by
  unfold createExecution
  refine wp_then (off_sound rfl sound) ?_ fun _ _ sound => ⟨sound, by rintro _ ⟨⟩⟩
  intro contextId t _ sound
  rw [wp_bind]
  refine wp_mono ?_ (governed_uuid4 sound.safe)
  rintro _ u ⟨rfl, same, given⟩
  simp only [andThen_ret]
  have issued := same.issued sound.issued
  refine wp_then (governed_off rfl (sound.same same).safe) ?_
    fun _ _ kept => ⟨(sound.same same).same kept, by rintro _ ⟨⟩⟩
  intro _ v _ kept
  have sound := (sound.same same).same kept
  have issued := kept.issued issued
  have given := given.trans_le kept.fresh
  generalize made : executionOf new _ contextId ts = ex
  have drawn : ex.executionId = ⟨t.fresh⟩ := by rw [← made]; rfl
  have created : ex.status = .created := by rw [← made]; rfl
  have stored : ({ v with repo := { v.repo with executions := v.repo.executions.put ex } } :
    World).execution
      ex.executionId = some ex := Table.get_put_self (r := ex)
  have after : Sound { v with repo := { v.repo with executions := v.repo.executions.put ex } } := by
    refine ⟨⟨fun other member => ?_, sound.issued.proposals, sound.issued.evaluations,
      sound.issued.approvals⟩, fun j other found => ?_⟩
    · rcases Table.mem_put.mp member with rfl | ⟨old, _⟩
      · exact drawn ▸ given
      · exact sound.issued.executions other old
    · by_cases own : j = ex.executionId
      · subst own
        obtain rfl := Option.some.inj (stored.symm.trans found)
        have undecided : (v.file ex.executionId).Undecided :=
          (drawn ▸ issued : Issued v ex.executionId.n).undecided
        simp only [Standing, created]
        exact undecided
      · exact sound.standing j other ((Table.get_put_of_ne own).symm.trans found)
  have saved : wp (governed env) (M.saveExecution ex) (ends
      (· = { v with repo := { v.repo with executions := v.repo.executions.put ex } })
        (fun _ _ => False)
      (fun _ => True)) v := governed_call after.safe ⟨trivial, rfl⟩
  refine wp_then saved ?_ fun _ _ no => no.elim
  rintro _ _ _ rfl
  refine ⟨after, ?_⟩
  rintro _ ⟨⟩
  exact stored

theorem createReplayChild_sound {request : ReplayRequest} {source : Execution}
    {ctx : ExecutionContext} {ts : Time} (sound : Sound w) : wp (governed env)
    (createReplayChild request source ctx ts) (fun _ t => Sound t) w := by
  unfold createReplayChild
  refine wp_then wp_ofExcept ?_ fun _ _ raised => raised.2 ▸ sound
  rintro _ _ _ rfl
  refine wp_then wp_ofExcept ?_ fun _ _ raised => raised.2 ▸ sound
  rintro ⟨input, overrides⟩ _ _ rfl
  rw [wp_bind]
  refine wp_mono ?_ (createExecution_sound sound)
  rintro o t ⟨sound, made⟩
  cases o with
  | raise e => exact sound
  | halt => exact sound
  | ret child =>
      have stored := made child rfl
      refine wp_then (governed_update sound.apart stored ?_ ?_) (fun _ _ _ known => known.1)
        fun _ _ no => no.elim
      · rfl
      · exact (sound.standing _ child stored).same rfl rfl rfl

theorem createReplay_sound {request : ReplayRequest} (sound : Sound w) :
    wp (governed env) (engine.createReplay fuel request) (fun _ t => Sound t) w := by
  unfold ExecutionEngine.createReplay
  refine wp_then (off_sound rfl sound) ?_ fun _ _ sound => sound
  intro ts t _ sound
  refine wp_then (off_sound rfl sound) ?_ fun _ _ sound => sound
  intro source t _ sound
  cases source with
  | none => exact sound
  | some source =>
      refine wp_then (off_sound rfl sound) ?_ fun _ _ sound => sound
      intro ctx t _ sound
      cases ctx with
      | none => exact sound
      | some ctx =>
          have answered : ∀ child provenance v, Sound v →
              wp (governed env) (replayCreated request source child provenance)
                (fun _ t => Sound t) v := by
            intro child provenance v sound
            refine wp_then (off_sound rfl sound) ?_ fun _ _ sound => sound
            exact fun _ _ _ sound => wp_ite (fun _ => sound) fun _ => sound
          refine wp_keeping (createReplayChild_sound sound) ?_
          rintro ⟨child, provenance⟩ t sound
          refine wp_ite (fun _ => ?_) fun _ => answered child provenance t sound
          exact wp_keeping (startExecution_sound sound) fun child t sound => answered child
            provenance t sound

theorem runOnce_sound {workerId : String} (sound : Sound w) :
    wp (governed env) (engine.runOnce fuel workerId) (fun _ t => Sound t) w := by
  unfold runOnce
  refine wp_then (off_sound rfl sound) ?_ fun _ _ sound => sound
  intro item t _ sound
  cases item with
  | none => exact sound
  | some item =>
      refine wp_then (off_sound rfl sound) ?_ fun _ _ sound => sound
      intro now t _ sound
      refine wp_then (off_sound rfl sound) ?_ fun _ _ sound => sound
      intro found t _ sound
      cases found with
      | none => exact sound
      | some _ =>
          refine wp_keeping (recordWorkerStarted_sound sound) fun _ t sound => ?_
          refine wp_then (off_sound rfl sound) ?_ fun _ _ sound => sound
          intro _ t _ sound
          refine wp_keeping (startExecution_sound sound) fun _ t sound => ?_
          refine wp_then (off_sound rfl sound) ?_ fun _ _ sound => sound
          intro _ t _ sound
          exact wp_then (off_sound rfl sound) (fun _ _ _ sound => sound) fun _ _ sound => sound

theorem Call.sound (call : Call) (sound : Sound w) :
    wp (governed env) (call.program engine fuel) (fun _ t => Sound t) w := by
  cases call with
  | createExecution request ts =>
      exact wp_discard (wp_mono (fun _ _ made => made.1) (createExecution_sound sound))
  | createReplay request => exact wp_discard (createReplay_sound sound)
  | runOnce workerId => exact wp_discard (runOnce_sound sound)
  | party party =>
      cases party with
      | startExecution id => exact wp_discard (startExecution_sound sound)
      | enqueueExecution id => exact wp_discard (enqueueExecution_sound sound)
      | recordWorkerStarted id workerId at_ => exact wp_discard (recordWorkerStarted_sound sound)
      | requestCancellation id reason => exact wp_discard (requestCancellation_sound sound)
      | submitApproval id approver decision notes => exact wp_discard (submitApproval_sound sound)
      | failExecution id reason => exact wp_discard (failExecution_sound sound)

theorem sound_init : Sound .init where
  issued := ⟨fun _ no => (Table.not_mem_empty no).elim, fun _ no => (Table.not_mem_empty no).elim,
    fun _ no => (Table.not_mem_empty no).elim, fun _ no => (Table.not_mem_empty no).elim⟩
  standing := fun _ _ no => by cases no

/-- In every world that any session passes through, every incident triage is governed: what is
completed was granted, and what was refused is neither completed nor approved. -/
theorem incident_governance_safe (env : Env) (engine : ExecutionEngine) (fuel : Nat)
    (calls : List Call) (passed : Passed env engine fuel calls w)
    (stored : w.execution id = some row) :
    GovernanceSafe (w.file id) row := by
  obtain ⟨rest, visits⟩ := passed
  have spec : wp (governed env) (session engine fuel calls) (fun o t => o = .halt ∨
    Sound t) .init :=
    wp_session (fun call _ sound => call.sound sound) calls sound_init
  have views : Views (handle env).sem (governed env) Eq := by
    rintro s g op r t rfl _ _ step
    exact ⟨t, step, rfl⟩
  have safe : AllSafe w := by
    refine visits.keeps views (I := AllSafe) ?_ rfl spec sound_init.safe
    rintro s g op r t _ rfl _ safe step
    obtain rfl : (handle env s op).2 = t := congrArg Prod.snd step
    exact safe
  exact safe id row stored

end

/-- An incident triage that was approved. -/
def approvedSession : List Call :=
  [.createExecution incidentRequest 0, .party (.startExecution ⟨1⟩),
    .party (.submitApproval ⟨1⟩ "operator" .approve none)]

theorem incident_governance_safe_approved :
    ∃ row, (World.after (.answering .conditional "passed") (.default .flat) 6
      approvedSession).execution ⟨1⟩ = some row ∧
      row.status = .completed ∧
      ((World.after (.answering .conditional "passed") (.default .flat) 6 approvedSession).file
        ⟨1⟩).Granted := by
  have done : ((World.after (.answering .conditional "passed") (.default .flat) 6
    approvedSession).execution ⟨1⟩).map
      (fun row => (row.workflowType, row.status)) = some ("incident_triage", .completed) := by
        decide +kernel
  obtain ⟨row, stored, known⟩ := Option.map_eq_some_iff.mp done
  obtain ⟨incident, completed⟩ := Prod.mk.inj known
  have safe := incident_governance_safe (.answering .conditional "passed") (.default .flat) 6
    approvedSession
    (passed_after ..) stored
  exact ⟨row, stored, completed, safe.granted incident completed⟩

end AgenticPlatform
