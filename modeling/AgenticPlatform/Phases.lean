import AgenticPlatform.Restarts
import AgenticPlatform.Sessions
import AgenticPlatform.Scheduler

/-! The plans of the planner and the phases of the engine fit together: the steps run one after
another, the last of them validates, and it is the one that the validation phase is entered for. -/
namespace AgenticPlatform
open Interaction ExecutionEngine Store

namespace Course

section
variable {plan : ExecutionPlan}

theorem mem_zip_tail {α : Type} {l : List α} {a b : α} (member : (a, b) ∈ l.zip l.tail) :
    ∃ before after, l = before ++ a :: b :: after := by
  induction l with
  | nil => simp at member
  | cons x rest ih =>
      cases rest with
      | nil => simp at member
      | cons y rest =>
          rcases List.mem_cons.mp member with same | later
          · obtain ⟨rfl, rfl⟩ := Prod.mk.inj same
            exact ⟨[], rest, rfl⟩
          · obtain ⟨before, after, split⟩ := ih later
            exact ⟨x :: before, after, by rw [split, List.cons_append]⟩

theorem Chain.chained (chain : Chain plan) : plan.graph.Chained := by
  intro task need waits
  obtain ⟨edge, into, rfl⟩ := List.mem_map.mp waits
  obtain ⟨into, target⟩ := List.mem_filter.mp into
  rw [chain.edges] at into
  obtain ⟨⟨x, y⟩, member, rfl⟩ := List.mem_map.mp into
  obtain ⟨before, after, split⟩ := mem_zip_tail member
  obtain rfl : y.stepKey = task := of_decide_eq_true target
  exact ⟨before.map StepSpec.stepKey, after.map
    StepSpec.stepKey, by simp [ExecutionPlan.graph, split]⟩

/-- The key of the validation step comes last, after others. -/
theorem Chain.tasks (chain : Chain plan) : ∃ first rest last, plan.graph.tasks = first ::
    rest ++ [last] ∧
    ∀ spec ∈ plan.steps, (spec.kind = "validation" ↔ spec.stepKey = last) ∧
      spec.kind ∈ ["reasoning", "retrieval", "tool", "validation"] := by
  obtain ⟨first, rest, last, steps, validation, others⟩ := chain.shape
  refine ⟨first.stepKey, rest.map StepSpec.stepKey,
    last.stepKey, by simp [ExecutionPlan.graph, steps], ?_⟩
  have keys := chain.keys
  rw [steps, List.map_append, List.nodup_append] at keys
  intro spec member
  rw [steps] at member
  rcases List.mem_append.mp member with early | final
  · have kind := others spec early
    have apart : spec.stepKey ≠ last.stepKey := keys.2.2 _ (List.mem_map_of_mem early) _
      (List.mem_singleton_self _)
    simp only [List.mem_cons, List.not_mem_nil, or_false] at kind
    refine ⟨iff_of_false (fun no => ?_) apart, by simp only [List.mem_cons]; tauto⟩
    rcases kind with kind | kind | kind <;> simp [kind] at no
  · obtain rfl := List.mem_singleton.mp final
    exact ⟨iff_of_true validation rfl, by simp [validation]⟩

end
end Course

namespace Blueprint

/-- Between two rounds of the loop, with at most this many rounds to go: the keys are done in the
order of the plan, and the phase is that of validation when all are. -/
structure Phase (b : Blueprint) (last : String) (rounds : Nat) (row : Execution)
    (view : Repository) : Prop where
  calm : isCancellationRequested row = false
  context : view.contexts.get row.executionContextId ≠ none
  current : row.currentPlanId = some b.plan.planId
  stored : b.plan ∈ view.plans
  idle : Idle b.executionId view.steps
  kinds : ∀ s ∈ view.steps, ∀ key, b.Row key s → (isValidationStep s = true ↔ key = last)
  progress : ∃ done rest, b.plan.graph.tasks = done ++ rest ∧ b.Progress view.steps done ∧
    rest.length < rounds ∧
    row.status = if rest = [] then .validating else .executing

section
variable {b : Blueprint} {last : String} {rounds : Nat} {row ex : Execution}
  {view : Repository} {s : Step}
  {done rest : List String} {key : String} {now : Time} {c : Course}

/-- The steps that the plan has are in one of two kinds. -/
structure Ends (b : Blueprint) (last : String) : Prop where
  chained : b.plan.graph.Chained
  nodup : b.plan.graph.tasks.Nodup
  tasks : ∃ first before, b.plan.graph.tasks = first :: before ++ [last]

/-- The row of a key that is listed. -/
theorem Progress.listed (progress : b.Progress view.steps done) (known : key ∈ b.plan.graph.tasks) :
    ∃ s ∈ view.listStepsForExecution b.executionId, s ∈ view.steps ∧ b.Row key s := by
  obtain ⟨s, member, row⟩ := progress.laid.each key known
  exact ⟨s, (lists_own view s).mpr ⟨member, row.owner⟩, member, row⟩

/-- Nothing comes after the last key. -/
theorem Ends.split_last (ends : b.Ends last) (split : b.plan.graph.tasks = done ++ last :: rest) :
    rest = [] := by
  obtain ⟨first, before, tasks⟩ := ends.tasks
  have nodup := ends.nodup
  rw [split, List.nodup_middle, List.nodup_cons, List.mem_append, not_or] at nodup
  exact ((List.append_cons_inj_of_notMem nodup.1.1 nodup.1.2).mp (split.symm.trans tasks)).2.2

/-- With all but the last key done, all steps but those that validate have succeeded. -/
theorem Progress.others (progress : b.Progress view.steps done)
    (idle : Idle b.executionId view.steps)
    (kinds : ∀ s ∈ view.steps, ∀ key, b.Row key s → (isValidationStep s = true ↔ key = last))
    (split : b.plan.graph.tasks = done ++ [last]) (member : s ∈ view.steps)
    (own : s.executionId = b.executionId) (plain : isValidationStep s = false) :
    s.status = .succeeded := by
  obtain ⟨k, among, row⟩ := progress.laid.only s member own
  refine (progress.succeeded idle member row).mpr ?_
  rw [split, List.mem_append, List.mem_singleton] at among
  refine among.resolve_right fun same => ?_
  rw [(kinds s member k row).mpr same] at plain
  cases plain

/-- The validation phase starts with the last key. -/
theorem startsValidating_eq (ends : b.Ends last) (split : b.plan.graph.tasks = done ++ key :: rest)
    (progress : b.Progress view.steps done) (idle : Idle b.executionId view.steps)
    (kinds : ∀ s ∈ view.steps, ∀ key, b.Row key s → (isValidationStep s = true ↔ key = last))
    (executing : row.status = .executing) :
    startsValidating row (view.listStepsForExecution b.executionId) = true ↔ rest = [] := by
  have known : key ∈ b.plan.graph.tasks := by simp [split]
  have apart : key ∉ done ∧ key ∉ rest := by
    have nodup := ends.nodup
    rw [split, List.nodup_middle, List.nodup_cons, List.mem_append, not_or] at nodup
    exact nodup.1
  obtain ⟨first, before, tasks⟩ := ends.tasks
  simp only [startsValidating, executing, decide_true, Bool.true_and, Bool.and_eq_true,
    Bool.not_eq_true', List.isEmpty_eq_false_iff, List.all_eq_true, List.any_eq_true,
      List.mem_filter, decide_eq_true_eq]
  constructor
  · rintro ⟨⟨_, others⟩, _⟩
    by_contra more
    obtain ⟨s, listed, member, row⟩ := progress.listed known
    have plain : isValidationStep s = false := by
      rw [← Bool.not_eq_true, kinds s member key row]
      rintro rfl
      exact more (ends.split_last split)
    have succeeded := others s ⟨listed, by simp [plain]⟩
    exact absurd (succeeded.symm.trans (progress.waiting s member key apart.1 row)) (by decide)
  · rintro rfl
    have same : done = first :: before ∧ key = last := by
      obtain ⟨left, right⟩ := List.append_inj' (split.symm.trans tasks) rfl
      exact ⟨left, (List.cons.inj right).1⟩
    obtain ⟨rfl, rfl⟩ := same
    obtain ⟨s, listed, member, row⟩ := progress.listed known
    have validates : isValidationStep s = true := (kinds s member key row).mpr rfl
    obtain ⟨f, listed', member', row'⟩ :=
      progress.listed (show first ∈ b.plan.graph.tasks by simp [tasks])
    have plain : isValidationStep f = false := by
      rw [← Bool.not_eq_true, kinds f member' first row']
      rintro rfl
      exact apart.1 List.mem_cons_self
    refine ⟨⟨⟨?_, ?_⟩, fun x hx => ?_⟩, s, ⟨listed, validates⟩, progress.waiting s member
      key apart.1 row⟩
    · exact List.ne_nil_of_mem (List.mem_filter.mpr ⟨listed, validates⟩)
    · exact List.ne_nil_of_mem (List.mem_filter.mpr ⟨listed', by simp [plain]⟩)
    · obtain ⟨stored, own⟩ := (lists_own view x).mp hx.1
      exact progress.others idle kinds split stored own (by simpa using hx.2)

/-- What a round of the loop does: the next key's step, in its phase. -/
theorem Phase.chosen (phase : b.Phase last rounds row view) (ends : b.Ends last)
    (owner : c.executionId = b.executionId) (next : c.Next (c.reached row view now) view s) :
    ∃ done key rest, b.plan.graph.tasks = done ++ key :: rest ∧
      b.Progress view.steps done ∧ b.Row key s ∧ s ∈ view.steps ∧ rest.length + 1 < rounds ∧
      (c.reached row view now).status = if rest = [] then .validating else .executing := by
  obtain ⟨done, rest, split, progress, within, status⟩ := phase.progress
  obtain ⟨p, member, current, chosen⟩ := next.chosen
  rw [Course.reached_plan, phase.current, Option.some.injEq] at current
  obtain rfl : b.plan = p := Table.eq_of_key phase.stored member current
  rw [owner] at chosen
  obtain ⟨key, next, row', stored⟩ := progress.chosen phase.idle (lists_own view) chosen
  cases rest with
  | nil =>
      rw [List.append_nil] at split
      rw [Greedy.next_of_all split] at next
      cases next
  | cons k rest =>
      obtain rfl :=
        Option.some.inj ((Greedy.next_of_chain ends.nodup ends.chained split).symm.trans next)
      refine ⟨done, k, rest, split, progress, row', stored, within, ?_⟩
      rw [if_neg (by simp)] at status
      have starts := startsValidating_eq ends split progress phase.idle phase.kinds status
      unfold Course.reached Course.entered
      rw [owner]
      by_cases final : rest = []
      · rw [if_pos (starts.mpr final), if_pos final]
        rfl
      · rw [if_neg (fun no => final (starts.mp no)), if_neg final]
        exact status

theorem Phase.more {n : Nat} (phase : b.Phase last rounds row view) (le : rounds ≤ n) :
    b.Phase last n row view := by
  obtain ⟨done, rest, split, progress, within, status⟩ := phase.progress
  exact { phase with progress := ⟨done, rest, split, progress, within.trans_le le, status⟩ }

/-- A round that has run its step. -/
theorem Phase.next {results : Table UUID StepResult} (phase : b.Phase last (rounds + 1) row view)
    (ends : b.Ends last) (owner : c.executionId = b.executionId)
    (next : c.Next (c.reached row view now) view s)
    (logged : Course.Logged (c.reached row view now) [.str s.stepId.str] ex) :
    b.Phase last rounds ex { view with steps := afterStep s now view.steps, stepResults :=
      results } := by
  obtain ⟨done, key, rest, split, progress, named, member, within, status⟩ :=
    phase.chosen ends owner next
  obtain ⟨_, _, _, rfl⟩ := logged.1
  have running : Course.runningStep s now ∈ view.steps.put (Course.runningStep s now) :=
    Table.mem_put.mpr (.inl rfl)
  have moved := @Progress.start _ _ _ _ _ _ now progress member named (.inl rfl)
  have old : ∀ x ∈ afterStep s now view.steps, x = (Course.runningStep s now).moved .succeeded now ∨
    x ∈ view.steps := by
    intro x stored
    rcases Table.mem_put.mp stored with rfl | ⟨old, apart⟩
    · exact .inl rfl
    · rcases Table.mem_put.mp old with rfl | ⟨older, _⟩
      · exact absurd rfl apart
      · exact .inr older
  refine ⟨?_, ?_, Course.reached_plan.trans phase.current, phase.stored, fun x stored own => ?_,
    fun x stored k row' => ?_, done ++ [key], rest, ?_, moved.finish running rfl, by omega, status⟩
  · exact (Course.reached_flag (c := c)).trans phase.calm
  · rw [show (c.reached row view now).executionContextId = row.executionContextId
      from Course.reached_context]
    exact phase.context
  · rcases old x stored with rfl | older
    · simp [Step.moved]
    · exact phase.idle x older own
  · rcases old x stored with rfl | older
    · exact phase.kinds s member k ⟨row'.owner, row'.named, row'.ident, row'.dependencies⟩
    · exact phase.kinds x older k row'
  · rw [split, List.append_assoc]
    rfl

end
end Blueprint

/-- A validation step may start in the validation phase, when all other steps have succeeded. -/
def InPhase (id : UUID) (w : World) (s : Step) : Prop :=
  isValidationStep s = true → ∃ row, w.execution id = some row ∧ row.status = .validating ∧
    ∀ x ∈ w.repo.steps, x.executionId = id → isValidationStep x = false → x.status = .succeeded

/-- The run has done all that was planned. -/
structure Fulfilled (id : UUID) (ex : Execution) (w : World) : Prop where
  stored : w.execution id = some ex
  status : ex.status = .completed ∨ ex.status = .awaitingApproval ∨
    (ex.status = .failed ∧ ∃ e ∈ w.repo.policyEvaluations, e.executionId = id ∧ e.decision = .deny)
  plan : ∃ p ∈ w.repo.plans, p.executionId = id ∧ ex.currentPlanId = some p.planId ∧
    Instantiated w p
  steps : ∀ s ∈ w.repo.steps, s.executionId = id → s.status = .succeeded

/-- A run with services that answer. -/
def fittingCourse (env : Env) (id : UUID) : Course :=
  { Course.free env id with answering := True, starts := InPhase id }

section
variable {b : Blueprint} {last : String} {env : Env} {engine : ExecutionEngine} {id : UUID}
  {w : World} {fuel : Nat}
  {row : Execution} {view : Repository}
open Blueprint

/-- The loop over the steps of a chain with enough rounds does all that was planned. -/
theorem Blueprint.phaseRule (ends : b.Ends last) (env : Env) : Course.LoopRule
    (fittingCourse env b.executionId) (fun n row view => b.Phase last n row view)
    (fun o t => ∃ ex, o = .ret ex ∧ Fulfilled b.executionId ex t) where
  starts {_ _ _ _ _ step _} phase next held := by
    intro validates
    obtain ⟨done, key, rest, split, progress, named, member, _, status⟩ :=
      phase.chosen ends rfl next
    obtain rfl : key = last := (phase.kinds step member key named).mp validates
    obtain rfl := ends.split_last split
    refine ⟨_, held.stored, status.trans (if_pos rfl), fun x stored own plain => ?_⟩
    rw [held.steps] at stored
    exact progress.others phase.idle phase.kinds split stored own plain
  next phase next logged := phase.next ends rfl next logged
  out phase _ := by
    obtain ⟨_, _, _, _, within, _⟩ := phase.progress
    exact absurd within (Nat.not_lt_zero _)
  cancelled phase asked _ := by
    rw [phase.calm] at asked
    cases asked
  rests phase rests _ := by
    obtain ⟨_, rest, _, _, _, status⟩ := phase.progress
    split at status <;> simp [status, isExecutionTerminal] at rests
  unplanned phase _ unset _ := absurd (unset.symm.trans phase.current) (by simp)
  broken phase _ _ unserved := by
    refine absurd ⟨trivial, ?_⟩ unserved
    rw [Course.reached_context]
    exact phase.context
  completed {_ _ _ _ t _ next} phase completed := by
    obtain ⟨changed, concluded, steps, all, held⟩ := completed
    obtain ⟨done, rest, split, progress, _, _⟩ := phase.progress
    have current : next.currentPlanId = some b.plan.planId :=
      concluded.currentPlanId.trans (Course.reached_plan.trans phase.current)
    have keyed : next.executionId = b.executionId := (Table.get_eq_some.mp held.stored).2
    obtain ⟨p, stored, own, same, instantiated⟩ :=
      (held.orderly.row next held.stored).current _ current
    refine ⟨next, rfl, held.stored, ?_, ⟨p, stored, own.trans keyed, current.trans
      (congrArg some same.symm), instantiated⟩, fun s member own => ?_⟩
    · rcases concluded.status with ⟨failed, denied⟩ | completed | awaiting
      · rw [held.evaluations]
        exact .inr (.inr ⟨failed, denied⟩)
      · exact .inl completed
      · exact .inr (.inl awaiting)
    · rw [held.steps, steps] at member
      exact all s ((lists_own _ s).mpr ⟨member, own⟩)
  stuck {_ row view _ _ _ _} phase _ chosen incomplete := by
    obtain ⟨done, rest, split, progress, _, status⟩ := phase.progress
    obtain ⟨p, member, current, unchosen⟩ := chosen
    obtain rfl : b.plan = p := Table.eq_of_key phase.stored member
      (Option.some.inj (phase.current.symm.trans current))
    have none := progress.unchosen phase.idle (lists_own view) unchosen
    cases rest with
    | cons k rest =>
        rw [Greedy.next_of_chain ends.nodup ends.chained split] at none
        cases none
    | nil =>
        refine absurd ⟨⟨trivial, ?_⟩, ?_, fun s listed => ?_⟩ incomplete.2
        · rw [Course.reached_context]
          exact phase.context
        · unfold Course.reached Course.entered
          split
          · rfl
          · exact status
        · obtain ⟨stored, own⟩ := (lists_own view s).mp listed
          obtain ⟨k, among, row⟩ := progress.laid.only s stored own
          exact (progress.succeeded phase.idle stored row).mpr (by simpa [split] using among)

/-- What planning has launched is at the start of its first phase. -/
theorem Course.Launched.phase {c : Course} {before next : Execution}
    (launched : c.Launched engine before next view) (calm : isCancellationRequested before = false)
    (context : view.contexts.get before.executionContextId ≠ none) :
    ∃ (b : Blueprint) (last : String), b.executionId = c.executionId ∧ b.Ends last ∧
      b.Phase last 5 next view := by
  obtain ⟨p, stored, current, owner, chain, now, ids, steps, drawn, above, made, assigned, own⟩ :=
    launched.plan
  obtain ⟨first, rest, last, tasks, kinds⟩ := chain.tasks
  obtain ⟨planId, at_, rfl⟩ := launched.entered
  let b : Blueprint := ⟨c.executionId, p, ids, assigned.keys⟩
  have progress : b.Progress view.steps [] := progress_of_made made own
  refine ⟨b, last, rfl, ⟨chain.chained, chain.keys, first, rest, tasks⟩, calm, context, current,
    stored, ?_, ?_, [], _, rfl, progress, ?_, ?_⟩
  · intro s member mine running
    obtain ⟨spec, _, _, _, _, _, rfl⟩ := forall₂_right made s ((own s).mp ⟨member, mine⟩)
    cases running
  · intro s member key row
    obtain ⟨spec, listed, _, _, _, _, rfl⟩ := forall₂_right made s
      ((own s).mp ⟨member, row.owner⟩)
    obtain ⟨validates, kind⟩ := kinds spec listed
    have same : spec.stepKey = key := by
      have named := row.named
      injection named
    rw [← same, ← validates]
    simp only [List.mem_cons, List.not_mem_nil, or_false] at kind
    rcases kind with kind | kind | kind | kind <;> simp [isValidationStep, stepOfSpec,
      stepKindOf, kind]
  · exact Nat.lt_succ_of_le ((List.length_map _).trans_le chain.few)
  · have some : p.graph.tasks ≠ [] := by rw [tasks]; exact List.cons_ne_nil _ _
    exact (if_neg some).symm

/-- The services that no `try` surrounds answer every call. -/
def Env.Answers (env : Env) : Prop :=
  ∀ w (op : Op), op.exposed = true → ∃ a, (handle env w op).1 = .ok a

/-- An execution as it was created, with its context stored and no cancellation requested, runs to a
deliberate end in five rounds: nothing is raised, all that was planned has succeeded, and each
validation step is started in the validation phase when all other steps have succeeded. -/
theorem planner_fits (engine : ExecutionEngine) (answers : env.Answers) (unplanned : Unplanned id w)
    (stored : w.execution id = some row) (calm : isCancellationRequested row = false)
    (context : w.repo.contexts.get row.executionContextId ≠ none) (enough : 5 ≤ fuel) :
    (∃ ex, (run (handle env) (engine.runExecution fuel id) w).1 = .ret ex ∧
      Fulfilled id ex (run (handle env) (engine.runExecution fuel id) w).2) ∧
    ∀ s k t, Visits (handle env).sem (engine.runExecution fuel id, w) (.call (.updateStep s) k, t) →
      s.status = .running → InPhase id t s := by
  have views : Views (handle env).sem (fittingCourse env id).sem Eq := by
    rintro u _ op r v rfl _ _ step
    refine ⟨v, ⟨step, False.elim, fun _ exposed => ?_, op.calls_any r⟩, rfl⟩
    obtain ⟨a, answer⟩ := answers u op exposed
    exact ⟨a, (congrArg Prod.fst step).symm.trans answer⟩
  have spec : wp (fittingCourse env id).sem (engine.runExecution fuel id)
      (fun o t => ∃ ex, o = .ret ex ∧ Fulfilled id ex t) w := by
    obtain ⟨found, stored', created, _⟩ := unplanned.row
    obtain rfl := Option.some.inj (stored.symm.trans stored')
    have held : (fittingCourse env id).Held (· = row) w.repo w.fresh w :=
      ⟨unplanned.bounded, unplanned.orderly, ⟨row, stored, rfl⟩, rfl, Nat.le_refl _⟩
    refine Course.runExecution_go held (by simp [created, isExecutionTerminal])
      (fun _ => unplanned.plans)
      (fun begun _ _ => absurd created begun.1)
        fun before next changed above t _ from_ launched contexts held => ?_
    have same : isCancellationRequested before = false ∧ before.executionContextId =
      row.executionContextId := by
      rcases from_ with rfl | ⟨now, rfl⟩
      · exact ⟨calm, rfl⟩
      · exact ⟨calm, rfl⟩
    obtain ⟨b, last, rfl, ends, phase⟩ :=
      launched.phase same.1 (by rw [same.2, contexts]; exact context)
    exact (phaseRule ends env).loop (I := fun n row view => b.Phase last n row view)
      (phase.more enough) held
  refine ⟨?_, fun s k t visits running => ?_⟩
  · obtain ⟨_, rfl, fulfilled⟩ := run_of_wp views rfl spec
    exact fulfilled
  · obtain ⟨_, rfl, ok, _⟩ := visits.wp views rfl spec
    exact ok.2.2 running

end
theorem answering_answers (decision : PolicyDecision) (validation : String)
    (short : validation.length ≤ 32 := by decide) :
    (Env.answering decision validation short).Answers := by
  intro w op exposed
  cases op with
  | retrieve _ | invoke _ _ | evaluateProposal _ _ | sha256 _ => exact ⟨_, rfl⟩
  | _ => exact absurd exposed (by simp [Op.exposed])

/-- The first execution of the triage of an incident, with a policy that denies. -/
theorem planner_fits_triage :
    let w := World.created (.answering .deny "passed") incidentRequest
    (∃ ex, (run (handle (.answering .deny "passed")) ((ExecutionEngine.default .flat).runExecution 5
      ⟨1⟩) w).1 = .ret ex ∧
      Fulfilled ⟨1⟩ ex (run (handle (.answering .deny "passed"))
        ((ExecutionEngine.default .flat).runExecution 5 ⟨1⟩) w).2) ∧
    ∀ s k t, Visits (handle (.answering .deny "passed")).sem
      ((ExecutionEngine.default .flat).runExecution 5 ⟨1⟩, w)
      (.call (.updateStep s) k, t) → s.status = .running → InPhase ⟨1⟩ t s :=
  planner_fits (.default .flat) (answering_answers .deny "passed")
    (unplanned_created _ incidentRequest)
    (show (World.created _ incidentRequest).execution ⟨1⟩ = some (executionOf incidentRequest ⟨1⟩
      ⟨0⟩ 0) from rfl) rfl
    (by decide) (Nat.le_refl 5)

end AgenticPlatform
