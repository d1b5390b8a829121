import AgenticPlatform.CourseRun
import AgenticPlatform.Scheduler

/-! Runs over the steps of any plan: the steps are started one at a time, in the greedy order of the
plan's graph. -/
namespace AgenticPlatform
open Interaction ExecutionEngine Store

/-- The step that a call starts. -/
def Op.starting : Op → Option Step
  | .updateStep s => if s.status = .running then some s else none
  | _ => none

/-- An execution that is to execute a plan: the steps are those that the engine has built from it,
whatever its graph. -/
structure Installed (engine : ExecutionEngine) (plan : ExecutionPlan) (id : UUID)
    (w : World) : Prop where
  bounded : Bounded w
  row : ∃ row, w.execution id = some row ∧ row.status = .executing ∧ row.currentPlanId =
    some plan.planId ∧
    startedRows row.traceTimeline = []
  stored : plan ∈ w.repo.plans ∧ plan.executionId = id
  single : ∀ p ∈ w.repo.plans, p.executionId = id → p = plan
  keys : (plan.steps.map StepSpec.stepKey).Nodup
  edges : ∀ edge ∈ plan.dependencies, edge.fromStep ∈ plan.steps.map StepSpec.stepKey ∧
    edge.toStep ∈ plan.steps.map StepSpec.stepKey
  steps : ∃ env origin row now steps, row.executionId = id ∧
    (run (handle env) (engine.instantiateSteps plan row now) origin).1 = .ret steps ∧
    ∀ s, (s ∈ w.repo.steps ∧ s.executionId = id) ↔ s ∈ steps

/-- The step is pending, and all steps that it depends on in the plan have succeeded. -/
structure StepReady (plan : ExecutionPlan) (id : UUID) (w : World) (s : Step) : Prop where
  stored : s ∈ w.repo.steps ∧ s.executionId = id
  pending : s.status = .pending
  parents : ∀ edge ∈ plan.dependencies, plannerKey s = .str edge.toStep → ∃ parent ∈ w.repo.steps,
    parent.executionId = id ∧ plannerKey parent = .str edge.fromStep ∧ parent.status = .succeeded

/-- Of the steps that are ready, this one comes first in the plan. -/
def FirstReady (plan : ExecutionPlan) (id : UUID) (w : World) (s : Step) : Prop :=
  StepReady plan id w s ∧ ∃ before spec after, plan.steps = before ++ spec :: after ∧
    plannerKey s = .str spec.stepKey ∧
    ∀ earlier ∈ before, ∀ t, plannerKey t = .str earlier.stepKey → ¬ StepReady plan id w t

/-- Cancellation of the execution has been requested. -/
def Flagged (id : UUID) (w : World) : Prop :=
  ∃ row, w.execution id = some row ∧ isCancellationRequested row = true

/-- What a run over the steps of a plan has started, at any moment of it. A run that is not cut
short starts the whole order. -/
structure StartedGreedily (plan : ExecutionPlan) (id : UUID) (flagged : Prop)
    (rest : M Execution) (w : World) (started : List Step) : Prop where
  next : ∀ s k, rest = .call (.updateStep
    s) k → s.status = .running → ∃ old, FirstReady plan id w old ∧
    old.stepId = s.stepId ∧ Idle id w.repo.steps
  once : (started.map Step.stepId).Nodup
  order : started.map plannerKey <+: plan.graph.order.map Json.str
  rows : (∀ op k, rest ≠ .call op k) → ∃ row, w.execution id = some row ∧
    startedRows row.traceTimeline = started.map fun s => .str s.stepId.str
  whole : (∀ op k, rest ≠ .call op k) → started.map plannerKey = plan.graph.order.map Json.str ∨
    rest = .halt ∨ flagged ∨ ∃ s ∈ w.repo.steps, s.executionId = id ∧ s.status = .running

namespace Blueprint

/-- The course of a run over the steps of a plan: a step starts while no other is running. -/
def course (env : Env) (executionId : UUID) : Course :=
  { Course.free env executionId with starts := fun w _ => Idle executionId w.repo.steps }

/-- The starts of these keys, as the timeline shows them. -/
def announced (b : Blueprint) (done : List String) : List Json :=
  done.map fun key => .ofOption (fun id : UUID => .str id.str) (idOfKey b.ids key)

/-- Between two rounds of the loop. -/
structure Round (b : Blueprint) (flagged : Prop) (row : Execution) (view : Repository) : Prop where
  flag : isCancellationRequested row = true → flagged
  status : row.status = .executing ∨ row.status = .validating
  current : row.currentPlanId = some b.plan.planId
  stored : b.plan ∈ view.plans
  idle : Idle b.executionId view.steps
  progress : ∃ done, b.Progress view.steps done ∧ Greedy.Done b.plan.graph done ∧
    startedRows row.traceTimeline = b.announced done

/-- After the loop: the timeline shows what has been started. -/
def Announced (b : Blueprint) (flagged : Prop) (o : Outcome Exn Execution) (w : World) : Prop :=
  ∃ row done, w.execution b.executionId = some row ∧ b.Progress w.repo.steps done ∧
    Greedy.Done b.plan.graph done ∧ startedRows row.traceTimeline = b.announced done ∧
    (b.plan.graph.next done = none ∨ o = .halt ∨ flagged ∨ ∃ s ∈ w.repo.steps, s.executionId =
      b.executionId ∧ s.status = .running)

/-- At any call of the run: these steps have been started. -/
structure Going (b : Blueprint) (w : World) (started : List Step) : Prop where
  row : ∃ row, w.execution b.executionId = some row ∧ Course.Begun row ∧ row.currentPlanId =
    some b.plan.planId
  stored : b.plan ∈ w.repo.plans
  progress : ∃ done, b.Progress w.repo.steps done ∧ Greedy.Done b.plan.graph done ∧
    List.Forall₂ b.Row done started

section
variable {b : Blueprint} {env : Env} {w t : World} {row ex : Execution}
  {view : Repository} {s : Step}
  {started : List Step} {done : List String} {key : String} {now : Time} {op : Op} {drawn : Nat}
    {flagged : Prop}
  {o : Outcome Exn Execution}

/-- The key of the step that a round has chosen. -/
theorem Round.chosen (round : b.Round flagged row view)
    (next : (course env b.executionId).Next (Course.reached (course env b.executionId) row view now)
      view s) :
    ∃ done key, b.Progress view.steps done ∧ Greedy.Done b.plan.graph done ∧
      startedRows row.traceTimeline = b.announced done ∧ b.plan.graph.next done =
        some key ∧ b.Row key s ∧
      s ∈ view.steps := by
  obtain ⟨done, progress, greedy, rows⟩ := round.progress
  obtain ⟨p, member, current, chosen⟩ := next.chosen
  rw [Course.reached_plan, round.current, Option.some.injEq] at current
  obtain rfl : b.plan = p := Table.eq_of_key round.stored member current
  obtain ⟨key, next, row', stored⟩ := progress.chosen round.idle (lists_own view) chosen
  exact ⟨done, key, progress, greedy, rows, next, row', stored⟩

theorem announced_snoc (row : b.Row key s) : b.announced
    (done ++ [key]) = b.announced done ++ [.str s.stepId.str] := by
  simp [announced, row.ident, Json.ofOption]

theorem reached_status {c : Course} (status : row.status = .executing ∨ row.status = .validating) :
    (c.reached row view now).status = .executing ∨ (c.reached row view now).status =
      .validating := by
  unfold Course.reached Course.entered
  split
  · exact .inr rfl
  · exact status

/-- A round that has run its step. -/
theorem Round.next {results : Table UUID StepResult} (round : b.Round flagged row view)
    (next : (course env b.executionId).Next (Course.reached (course env b.executionId) row view now)
      view s)
    (logged : Course.Logged (Course.reached (course env b.executionId) row view now)
      [.str s.stepId.str] ex) :
    b.Round flagged ex { view with steps := afterStep s now view.steps, stepResults :=
      results } := by
  obtain ⟨done, key, progress, greedy, rows, choice, named, member⟩ := round.chosen next
  obtain ⟨traced, started⟩ := logged
  have running : Course.runningStep s now ∈ view.steps.put (Course.runningStep s now) :=
    Table.mem_put.mpr (.inl rfl)
  have moved := @Progress.start _ _ _ _ _ _ now progress member named (.inl rfl)
  refine ⟨?_, ?_, ?_, round.stored, ?_, done ++ [key], ?_, greedy.snoc choice, ?_⟩
  · obtain ⟨_, _, _, rfl⟩ := traced
    exact fun asked => round.flag (Course.reached_flag.symm.trans asked)
  · rw [traced.status]
    exact reached_status round.status
  · obtain ⟨_, _, _, rfl⟩ := traced
    exact Course.reached_plan.trans round.current
  · intro x stored own
    rcases Table.mem_put.mp stored with rfl | ⟨old, apart⟩
    · simp
    · rcases Table.mem_put.mp old with rfl | ⟨older, _⟩
      · exact absurd rfl apart
      · exact round.idle x older own
  · exact moved.finish running rfl
  · rw [started, Course.reached_started, rows, announced_snoc named]

theorem Round.announced_view (round : b.Round flagged row view)
    (held : (course env b.executionId).Held (· = ex) view drawn w)
    (rows : startedRows ex.traceTimeline = startedRows row.traceTimeline)
    (cut : o = .halt ∨ flagged) :
    b.Announced flagged o w := by
  obtain ⟨done, progress, greedy, announced⟩ := round.progress
  exact ⟨ex, done, held.stored, held.steps ▸ progress, greedy, rows.trans announced, .inr
    (cut.imp_right .inl)⟩

/-- With all steps succeeded, there is no next key. -/
theorem Progress.complete (progress : b.Progress view.steps done)
    (all : ∀ s ∈ view.listStepsForExecution b.executionId, s.status = .succeeded) :
    b.plan.graph.next done = none := by
  cases next : b.plan.graph.next done with
  | none => rfl
  | some key =>
      obtain ⟨known, new, _⟩ := Greedy.next_eq_some next
      obtain ⟨s, member, row⟩ := progress.laid.each key known
      have succeeded := all s ((lists_own view s).mpr ⟨member, row.owner⟩)
      exact absurd (succeeded.symm.trans (progress.waiting s member key new row)) (by decide)

/-- However the loop is left, the timeline shows what has been started. -/
theorem roundRule (b : Blueprint) (env : Env) (flagged : Prop) : Course.LoopRule
    (course env b.executionId) (fun _ row view => b.Round flagged row view)
    (fun o t => b.Announced flagged o t) where
  starts round _ held x member own := round.idle x (held.steps ▸ member) own
  next round next logged := round.next next logged
  out round held := round.announced_view held rfl (.inl rfl)
  cancelled round asked held := by
    obtain ⟨last, stored, kept⟩ := held.row
    obtain ⟨_, rfl, _, rows⟩ := kept
    have now_last : (course env b.executionId).Held (· = last) _ _ _ :=
      ⟨held.bounded, held.orderly, ⟨last, stored, rfl⟩, held.view, held.drawn⟩
    exact round.announced_view now_last rows
      (.inr (round.flag asked))
  rests round rests _ := by
    rcases round.status with executing | validating
    · simp [executing, isExecutionTerminal] at rests
    · simp [validating, isExecutionTerminal] at rests
  unplanned round _ unset _ := absurd (unset.symm.trans round.current) (by simp)
  broken {_ _ _ _ t step now _} round next held _ := by
    obtain ⟨done, key, progress, greedy, rows, choice, named, member⟩ := round.chosen next
    obtain ⟨last, stored, traced, started⟩ := held.row
    have left : ∃ s ∈ t.repo.steps, s.executionId = b.executionId ∧ s.status = .running := by
      rw [held.steps]
      exact ⟨Course.runningStep step now, Table.mem_put.mpr (.inl rfl), named.owner, rfl⟩
    refine ⟨last, done ++ [key], stored, ?_, greedy.snoc choice, ?_, .inr (.inr (.inr left))⟩
    · rw [held.steps]
      exact progress.start member named (.inl rfl)
    · rw [started, Course.reached_started, rows, announced_snoc named]
  completed round completed := by
    obtain ⟨changed, concluded, steps, all, held⟩ := completed
    obtain ⟨done, progress, greedy, rows⟩ := round.progress
    refine ⟨_, done, held.stored, ?_, greedy, ?_, .inl (progress.complete all)⟩
    · rw [held.steps, steps]
      exact progress
    · rw [concluded.started, Course.reached_started, rows]
  stuck {_ row view _ _ _ _} round _ chosen incomplete := by
    obtain ⟨⟨changed, steps, held⟩, _⟩ := incomplete
    obtain ⟨done, progress, greedy, rows⟩ := round.progress
    obtain ⟨p, member, current, unchosen⟩ := chosen
    obtain rfl : b.plan = p := Table.eq_of_key round.stored member
      (Option.some.inj (round.current.symm.trans current))
    refine ⟨_, done, held.stored, ?_, greedy, ?_, .inl (progress.unchosen round.idle
      (lists_own view) unchosen)⟩
    · rw [held.steps, steps]
      exact progress
    · rw [Course.reached_started, rows]

/-- A write of the row that a run has begun keeps it begun, on its plan. -/
theorem rewrite_begun (rewrite : Rewrite w row ex) (begun : Course.Begun row) :
    Course.Begun ex ∧ ex.currentPlanId = row.currentPlanId := by
  refine ⟨?_, rewrite.kept.resolve_right fun moved => begun.2 moved.1⟩
  rcases rewrite.status with same | moved
  · exact ⟨same ▸ begun.1, same ▸ begun.2⟩
  · obtain ⟨apart, unplanned⟩ := begun
    revert moved apart unplanned
    unfold Course.Begun
    cases row.status <;> cases ex.status <;> decide

/-- The step that is started is the first that is ready. -/
theorem Going.scheduled (going : b.Going w started) (idle : Idle b.executionId w.repo.steps)
    (scheduled : Scheduled w s) (own : s.executionId = b.executionId) :
    ∃ done key, b.Progress w.repo.steps done ∧ Greedy.Done b.plan.graph done ∧
      List.Forall₂ b.Row done started ∧
      b.plan.graph.next done = some key ∧ b.Row key s ∧ s ∈ w.repo.steps := by
  obtain ⟨done, progress, greedy, rows⟩ := going.progress
  obtain ⟨row, stored, _, current⟩ := going.row
  obtain ⟨found, p, stored', _, current', member, chosen⟩ := scheduled.chosen
  rw [own] at stored' chosen
  obtain rfl := Option.some.inj (stored.symm.trans stored')
  obtain rfl : b.plan = p := Table.eq_of_key going.stored member
    (Option.some.inj (current.symm.trans current'))
  obtain ⟨key, next, row', listed⟩ := progress.chosen idle (lists_own w.repo) chosen
  exact ⟨done, key, progress, greedy, rows, next, row', listed⟩

theorem Going.still (going : b.Going w started)
    (executions : t.execution b.executionId = w.execution b.executionId)
    (plans : t.repo.plans = w.repo.plans) (steps : t.repo.steps = w.repo.steps) :
    b.Going t started :=
  ⟨executions ▸ going.row, plans ▸ going.stored, steps ▸ going.progress⟩

theorem Going.unplanned (going : b.Going w started) : ¬ Planning b.executionId w := by
  rintro ⟨row, stored, planning⟩
  obtain ⟨found, stored', begun, _⟩ := going.row
  obtain rfl := Option.some.inj (stored.symm.trans stored')
  exact begun.2 planning

/-- A call that starts no step. -/
theorem Going.silent (silent : op.starting = none) (going : b.Going t started) :
    b.Going t (started ++ op.starting.toList) := by
  rw [silent, Option.toList_none, List.append_nil]
  exact going

/-- A lawful call of the course, with what it starts. -/
theorem Going.call (going : b.Going w started) (lawful : Lawful False b.executionId w op)
    (demands : (course env b.executionId).Demands w op) :
    b.Going (handle env w op).2 (started ++ op.starting.toList) := by
  cases op with
  | saveContext _ | saveExecution _ => exact lawful.elim
  | savePlan p => exact absurd lawful.2.2.2.1 going.unplanned
  | saveStep s => exact absurd lawful.2.2.2.1 going.unplanned
  | updateExecution ex =>
      apply Going.silent rfl
      obtain ⟨row, stored, rewrite⟩ := lawful
      obtain ⟨found, stored', begun, current⟩ := going.row
      obtain rfl := Option.some.inj (stored.symm.trans stored')
      obtain ⟨begun', kept⟩ := rewrite_begun rewrite begun
      simp only [handle]
      split
      · refine ⟨⟨ex, ?_, begun', kept.trans current⟩, going.stored, going.progress⟩
        have keyed : ex.executionId = b.executionId :=
          rewrite.executionId.trans (Table.get_eq_some.mp stored).2
        exact keyed ▸ Table.get_put_self
      · exact going
  | updateStep s =>
      obtain ⟨own, ⟨old, now, scheduled, rfl⟩ | ⟨old, now, finished, rfl⟩⟩ := lawful
      · have present : w.repo.steps.get old.stepId = some old := scheduled.stored
        obtain ⟨done, key, progress, greedy, rows, next, row, member⟩ :=
          going.scheduled (demands rfl) scheduled own
        simp only [handle, present, Option.isSome_some, if_true, Op.starting, Option.toList_some]
        refine ⟨going.row, going.stored, done ++ [key], progress.start member row (.inl rfl),
          greedy.snoc next, ?_⟩
        exact List.rel_append rows (.cons ⟨row.owner, row.named, row.ident, row.dependencies⟩ .nil)
      · have present : w.repo.steps.get old.stepId = some old := finished.stored
        obtain ⟨done, progress, greedy, rows⟩ := going.progress
        simp only [handle, present, Option.isSome_some, if_true, Op.starting,
          reduceCtorEq, if_false, Option.toList_none, List.append_nil]
        exact ⟨going.row, going.stored, done, progress.finish (Table.get_eq_some.mp present).1
          finished.running, greedy, rows⟩
  | _ =>
      apply Going.silent rfl
      exact going.still rfl rfl rfl

/-- The step of a key is ready when the graph lets the key be done. -/
theorem Progress.ready_iff (progress : b.Progress w.repo.steps done)
    (idle : Idle b.executionId w.repo.steps) (row : b.Row key s) (member : s ∈ w.repo.steps) :
    StepReady b.plan b.executionId w s ↔
      key ∉ done ∧ ∀ need ∈ b.plan.graph.needs key, need ∈ done := by
  constructor
  · rintro ⟨_, pending, parents⟩
    refine ⟨(progress.pending member row).mp pending, fun need waits => ?_⟩
    obtain ⟨edge, into, rfl⟩ := List.mem_map.mp waits
    obtain ⟨into, target⟩ := List.mem_filter.mp into
    obtain ⟨parent, stored, own, named, succeeded⟩ :=
      parents edge into (by simpa [row.named] using (of_decide_eq_true target).symm)
    obtain ⟨k, _, row'⟩ := progress.laid.only parent stored own
    have same : edge.fromStep = k := by
      have eq := named.symm.trans row'.named
      injection eq
    exact same ▸ (progress.succeeded idle stored row').mp succeeded
  · rintro ⟨new, needs⟩
    refine ⟨⟨member, row.owner⟩, progress.waiting s member key new row, fun edge into target => ?_⟩
    have target : key = edge.toStep := by
      have eq := row.named.symm.trans target
      injection eq
    have waits : edge.fromStep ∈ b.plan.graph.needs key :=
      List.mem_map_of_mem (List.mem_filter.mpr ⟨into, by simp [target]⟩)
    have finished := needs edge.fromStep waits
    have deps := dependencyIds_forall₂ row.dependencies
    obtain ⟨dep, _, found⟩ := forall₂_right deps.flip edge.fromStep waits
    obtain ⟨parent, stored, row'⟩ := progress.laid.each edge.fromStep (known_key found)
    exact ⟨parent, stored, row'.owner, row'.named, (progress.succeeded idle stored row').mpr
      finished⟩

/-- A step that is ready is the row of a key that the graph lets be done. -/
theorem Progress.of_ready (progress : b.Progress w.repo.steps done)
    (idle : Idle b.executionId w.repo.steps) (ready : StepReady b.plan b.executionId w s)
    (named : plannerKey s = .str key) :
    key ∉ done ∧ ∀ need ∈ b.plan.graph.needs key, need ∈ done := by
  obtain ⟨k, _, row⟩ := progress.laid.only s ready.stored.1 ready.stored.2
  have same : key = k := by
    have eq := named.symm.trans row.named
    injection eq
  exact same ▸ (progress.ready_iff idle row ready.stored.1).mp ready

/-- The greedy choice is the first step that is ready. -/
theorem Progress.firstReady (progress : b.Progress w.repo.steps done)
    (idle : Idle b.executionId w.repo.steps) (next : b.plan.graph.next done = some key)
    (row : b.Row key s) (member : s ∈ w.repo.steps) :
    FirstReady b.plan b.executionId w s := by
  obtain ⟨_, new, needs⟩ := Greedy.next_eq_some next
  refine ⟨(progress.ready_iff idle row member).mpr ⟨new, needs⟩, ?_⟩
  obtain ⟨before, after, tasks, none⟩ := Greedy.next_split next
  obtain ⟨earlier, later, steps, rfl, tail⟩ := List.map_eq_append_iff.mp tasks
  obtain ⟨spec, rest, rfl, rfl, rfl⟩ := List.map_eq_cons_iff.mp tail
  refine ⟨earlier, spec, rest, steps, row.named, fun x hx t named ready => ?_⟩
  exact none x.stepKey (List.mem_map_of_mem hx) (progress.of_ready idle ready named)

/-- Two rows with one identifier have one key. -/
theorem Laid.key_of_id {table : Table UUID Step} {other : String} {u v : Step} (laid : b.Laid table)
    (row : b.Row key u) (row' : b.Row other v) (same : u.stepId = v.stepId) : key = other := by
  obtain ⟨x, hx, known⟩ := laid.each key (known_key row.ident)
  obtain ⟨y, hy, known'⟩ := laid.each other (known_key row'.ident)
  have ids : x.stepId = y.stepId := by
    have first := Option.some.inj (known.ident.symm.trans row.ident)
    have second := Option.some.inj (known'.ident.symm.trans row'.ident)
    exact first.trans (same.trans second.symm)
  obtain rfl := Table.eq_of_key hx hy ids
  exact known.same_key known'

theorem keyToId_keys (specs : List StepSpec) : wp (handle env).sem (keyToId specs)
    (fun o _ => ∃ ids : List (String × UUID), o = .ret ids ∧ ids.map Prod.fst =
      specs.map StepSpec.stepKey) w := by
  have spec := Built.wp (M := (handle env).sem) (I := fun _ => True) (J := fun _ _ => False) ?_ ?_
    (keyToId_draws specs) w trivial
  · refine wp_mono ?_ spec
    intro o t ht
    cases o with
    | ret ids => exact ⟨ids, rfl, ht.1⟩
    | raise e => exact ht.elim
    | halt => exact ht.elim
  · rintro β _ _ s ⟨⟩ _
    refine wp_perform.mpr ⟨trivial, fun r t step => ?_⟩
    obtain ⟨rfl, rfl⟩ := Prod.mk.inj step
    exact ⟨trivial, trivial⟩
  · exact fun _ _ no => no.elim

end
end Blueprint

section
variable {engine : ExecutionEngine} {plan : ExecutionPlan} {id : UUID} {w t : World}
  {env : Env} {fuel : Nat}
  {rest : M Execution} {started : List Step}
open Blueprint

/-- The steps that the engine has built from the plan are rows of its keys. -/
theorem Installed.blueprint (installed : Installed engine plan id w) :
    ∃ b : Blueprint, b.executionId = id ∧ b.plan = plan ∧ b.Progress w.repo.steps
      [] ∧ Instantiated w plan ∧
      ∀ s ∈ w.repo.steps, s.executionId = id → Placed False w s := by
  obtain ⟨env, origin, row, now, steps, owner, built, own⟩ := installed.steps
  have made : wp (handle env).sem (engine.instantiateSteps plan row now)
    (fun o _ => ∃ ids steps, o = .ret steps ∧
      ids.map Prod.fst = plan.steps.map StepSpec.stepKey ∧
      List.Forall₂ (Made engine plan row now ids) plan.steps steps) origin := by
    unfold instantiateSteps
    rw [wp_bind]
    refine wp_mono ?_ (keyToId_keys plan.steps)
    rintro _ u ⟨ids, rfl, keys⟩
    obtain ⟨steps, built, made⟩ := buildSteps_eq engine plan row now ids plan.steps
      (fun spec member => keys ▸ List.mem_map_of_mem member) fun edge member => keys ▸
        (installed.edges edge member).1
    rw [andThen_ret, built]
    exact ⟨ids, steps, rfl, keys, made⟩
  rw [wp_sem_iff, built] at made
  obtain ⟨ids, _, same, keys, made⟩ := made
  obtain rfl := Outcome.ret.inj same
  have progress := progress_of_made (b := ⟨id, plan, ids, keys⟩) made own
  refine ⟨⟨id, plan, ids, keys⟩, rfl, rfl, progress, fun spec member => ?_, fun s member mine => ?_⟩
  · obtain ⟨s, built, _, _, _, _, rfl⟩ := forall₂_right made.flip spec member
    obtain ⟨stored, mine⟩ := (own _).mpr built
    exact ⟨_, stored, mine.trans installed.stored.2.symm, rfl, rfl⟩
  · obtain ⟨spec, listed, _, _, _, _, rfl⟩ := forall₂_right made s
      ((own s).mp ⟨member, mine⟩)
    exact ⟨⟨plan, installed.stored.1, installed.stored.2.trans mine.symm, rfl, spec, listed, rfl,
      rfl⟩, .inl rfl, False.elim, fun no => absurd no (by simp [stepOfSpec])⟩

theorem Installed.orderly (installed : Installed engine plan id w) : Orderly False id w := by
  obtain ⟨b, rfl, rfl, progress, instantiated, placed⟩ := installed.blueprint
  obtain ⟨stored, owner⟩ := installed.stored
  refine ⟨fun p hp q hq own own' => (installed.single p hp own).trans
    (installed.single q hq own').symm, placed, fun s hs t ht own own' same => ?_,
      fun row found => ?_⟩
  · obtain ⟨key, _, row⟩ := progress.laid.only s hs own
    obtain ⟨key', _, row'⟩ := progress.laid.only t ht own'
    have eq := row.named.symm.trans (same.trans row'.named)
    injection eq with eq
    exact row.unique (eq ▸ row') hs ht
  · obtain ⟨known, stored', executing, current, _⟩ := installed.row
    obtain rfl := Option.some.inj (stored'.symm.trans found)
    have keyed : known.executionId = b.executionId := (Table.get_eq_some.mp found).2
    refine ⟨fun no => by simp [executing] at no, fun no => by simp [executing] at no,
      fun _ => by simp [current], fun planId same => ⟨b.plan, stored, owner.trans keyed.symm,
        Option.some.inj (current.symm.trans same), instantiated⟩,
      fun no => by simp [executing] at no⟩

/-- The course of the run, and what it shows at its end. -/
theorem Blueprint.run_announced {b : Blueprint}
    (installed : Installed engine b.plan b.executionId w) (progress : b.Progress w.repo.steps []) :
    wp (course env b.executionId).sem (engine.runExecution fuel b.executionId)
      (fun o t => b.Announced (Flagged b.executionId w) o t) w := by
  obtain ⟨row, stored, executing, current, unstarted⟩ := installed.row
  have begun : Course.Begun row := ⟨by simp [executing], by simp [executing]⟩
  have idle : Idle b.executionId w.repo.steps := fun s member own running => by
    obtain ⟨key, _, row⟩ := progress.laid.only s member own
    exact absurd (running.symm.trans (progress.waiting s member key List.not_mem_nil row))
      (by decide)
  have round : b.Round (Flagged b.executionId w) row w.repo :=
    ⟨fun asked => ⟨row, stored, asked⟩, .inl executing, current, installed.stored.1, idle, [],
      progress, .nil, unstarted⟩
  have held : (course env b.executionId).Held (· = row) w.repo w.fresh w :=
    ⟨installed.bounded, installed.orderly, ⟨row, stored, rfl⟩, rfl, Nat.le_refl _⟩
  refine Course.runExecution_go held (by simp [executing, isExecutionTerminal]) (fun planning => ?_)
    (fun _ t held => @Course.LoopRule.loop _ _ _ _ _ _ (fun _ row view => b.Round _ row view) _
      (b.roundRule env _) fuel round held)
    fun _ _ _ _ _ unbegun _ _ _ _ => absurd begun unbegun
  simp [executing] at planning

/-- At every moment of a run over the steps of any plan, the steps have been started in the greedy
order of the plan, each once and none before those that it depends on had succeeded. -/
theorem started_greedily (env : Env) (fuel : Nat) (installed : Installed engine plan id w)
    (visits : Visits (record Op.starting (handle env)).sem (engine.runExecution fuel id, w, [])
      (rest, t, started)) :
    StartedGreedily plan id (Flagged id w) rest t started := by
  obtain ⟨b, rfl, rfl, progress, _⟩ := installed.blueprint
  have views : Views (record Op.starting (handle env)).sem (course env b.executionId).sem
    (fun s g => s.1 = g) := by
    rintro ⟨u, log⟩ _ op r ⟨v, log'⟩ rfl _ _ step
    obtain ⟨rfl, same⟩ := Prod.mk.inj step
    obtain ⟨rfl, _⟩ := Prod.mk.inj same
    exact ⟨_, ⟨rfl, False.elim, False.elim, op.calls_any _⟩, rfl⟩
  have spec := @run_announced engine w env fuel b installed progress
  obtain ⟨_, rfl, left⟩ := visits.wp views rfl spec
  have going : b.Going t started := by
    obtain ⟨row, stored, executing, current, _⟩ := installed.row
    refine visits.keeps views (I := fun s => b.Going s.1 s.2) ?_ rfl spec
      ⟨⟨row, stored, ⟨by simp [executing], by simp [executing]⟩, current⟩, installed.stored.1, [],
        progress, .nil, .nil⟩
    rintro ⟨u, log⟩ _ op r ⟨v, log'⟩ going rfl _ ⟨lawful, _, demands⟩ step
    obtain ⟨rfl, same⟩ := Prod.mk.inj step
    obtain ⟨rfl, rfl⟩ := Prod.mk.inj same
    exact going.call lawful demands
  obtain ⟨done, progress, greedy, rows⟩ := going.progress
  have keys : started.map plannerKey = done.map Json.str :=
    (forall₂_map_eq rows fun _ _ row => row.named.symm).symm
  have announced : (∀ op k, rest ≠ .call op k) → ∃ o, (o = .halt → rest = .halt) ∧
    b.Announced (Flagged b.executionId w) o t := by
    intro ended
    cases rest with
    | ret a => exact ⟨.ret a, nofun, left⟩
    | raise e => exact ⟨.raise e, nofun, left⟩
    | halt => exact ⟨.halt, fun _ => rfl, left⟩
    | call op k => exact absurd rfl (ended op k)
  refine ⟨fun s k calls running => ?_, ?_, ?_, fun ended => ?_, fun ended => ?_⟩
  · rw [calls] at left
    obtain ⟨⟨lawful, _, idle⟩, _⟩ := left
    obtain ⟨own, ⟨old, now, scheduled, rfl⟩ | ⟨old, now, finished, rfl⟩⟩ := lawful
    · obtain ⟨done, key, progress, _, _, next, row, member⟩ :=
        going.scheduled (idle rfl) scheduled own
      exact ⟨old, progress.firstReady (idle rfl) next row member, rfl, idle rfl⟩
    · simp at running
  · have ids : done.map (idOfKey b.ids) = (started.map Step.stepId).map some := by
      rw [List.map_map]
      exact forall₂_map_eq rows fun _ _ row => row.ident
    refine List.Nodup.of_map some (ids ▸ List.Nodup.map_on (fun x hx y hy same => ?_)
      greedy.nodup.1)
    obtain ⟨s, _, row⟩ := forall₂_right rows.flip x hx
    obtain ⟨u, _, row'⟩ := forall₂_right rows.flip y hy
    exact progress.laid.key_of_id row row'
      (Option.some.inj (row.ident.symm.trans (same.trans row'.ident)))
  · rw [keys]
    exact greedy.prefix_order.map Json.str
  · obtain ⟨o, _, row, done', stored, progress', greedy', shown, _⟩ := announced ended
    obtain rfl := progress.done_eq progress' greedy greedy'
    refine ⟨row, stored, shown.trans (forall₂_map_eq rows fun key s row => ?_)⟩
    rw [row.ident]
    rfl
  · obtain ⟨o, halted, _, done', _, progress', greedy', _, exhausted | cut⟩ := announced ended
    · obtain rfl := progress.done_eq progress' greedy greedy'
      exact .inl (keys.trans (congrArg (List.map Json.str) (greedy.eq_order exhausted)))
    · exact .inr (cut.imp_left halted)

end

/-- The last step of the plan comes first in the graph, and one step waits for itself. -/
def graphPlan : ExecutionPlan :=
  { sequentialPlan (executionOf genericRequest ⟨1⟩ ⟨0⟩ 0) ⟨2⟩ 0 []
      [⟨"report", none, "reasoning", none, false⟩, ⟨"loop", none, "tool", none, false⟩,
        ⟨"check", none, "validation", none, false⟩, ⟨"collect", none, "retrieval",
          none, false⟩] with
    dependencies := [⟨"collect", "report"⟩, ⟨"check", "report"⟩, ⟨"collect", "check"⟩,
      ⟨"loop", "loop"⟩] }

/-- Its row, about to be executed. -/
def graphRow : Execution :=
  { executionOf genericRequest ⟨1⟩ ⟨0⟩ 0 with status := .executing, currentPlanId := some ⟨2⟩ }

def graphSteps : Outcome Exn (List Step) × World :=
  run (handle .refusing) ((ExecutionEngine.default .flat).instantiateSteps graphPlan graphRow 0)
    { World.init with fresh := 3 }

def graphWorld : World :=
  match graphSteps with
  | (.ret steps, w) => { w with
      repo.executions := w.repo.executions.put graphRow
      repo.plans := w.repo.plans.put graphPlan
      repo.steps := Course.putSteps steps w.repo.steps }
  | (_, w) => w

theorem bounded_graph : Bounded graphWorld where
  contexts := (by decide +kernel : ∀ c ∈ graphWorld.repo.contexts.rows, c.contextId.n <
    graphWorld.fresh)
  executions := (by decide +kernel : ∀ row ∈ graphWorld.repo.executions.rows, row.executionId.n <
    graphWorld.fresh)
  plans := (by decide +kernel : ∀ p ∈ graphWorld.repo.plans.rows,
    p.planId.n < graphWorld.fresh ∧ p.executionId.n < graphWorld.fresh)
  steps := (by decide +kernel : ∀ s ∈ graphWorld.repo.steps.rows,
    s.stepId.n < graphWorld.fresh ∧ s.executionId.n < graphWorld.fresh)
  results := (by decide +kernel : ∀ r ∈ graphWorld.repo.stepResults.rows, r.stepId.n <
    graphWorld.fresh)
  proposals := (by decide +kernel : ∀ p ∈ graphWorld.repo.actionProposals.rows,
    p.proposalId.n < graphWorld.fresh ∧ p.executionId.n < graphWorld.fresh)
  evaluations := (by decide +kernel : ∀ e ∈ graphWorld.repo.policyEvaluations.rows,
    e.evaluationId.n < graphWorld.fresh)
  approvals := (by decide +kernel : ∀ a ∈ graphWorld.repo.approvals.rows, a.approvalId.n <
    graphWorld.fresh)

theorem graphWorld_plans : graphWorld.repo.plans.rows = [graphPlan] := rfl

theorem graphWorld_row : graphWorld.execution ⟨1⟩ = some graphRow := rfl

theorem graphWorld_steps : graphSteps.1 = .ret graphWorld.repo.steps.rows := rfl

theorem installed_graph : Installed (.default .flat) graphPlan ⟨1⟩ graphWorld where
  bounded := bounded_graph
  row := ⟨graphRow, graphWorld_row, rfl, rfl, rfl⟩
  stored := by
    refine ⟨?_, rfl⟩
    change graphPlan ∈ graphWorld.repo.plans.rows
    rw [graphWorld_plans]
    exact List.mem_singleton_self _
  single p member _ := by
    change p ∈ graphWorld.repo.plans.rows at member
    rw [graphWorld_plans] at member
    exact List.mem_singleton.mp member
  keys := by decide
  edges := by decide
  steps := by
    have mine : ∀ s ∈ graphWorld.repo.steps.rows, s.executionId = ⟨1⟩ := by decide +kernel
    refine ⟨.refusing, { World.init with fresh := 3 }, graphRow, 0, graphWorld.repo.steps.rows, rfl,
      graphWorld_steps, fun s => ?_⟩
    exact and_iff_left_of_imp (mine s)

/-- The calls of its run. -/
def graphRun : M Execution × World × List Step :=
  cut (record Op.starting (handle .refusing)) 200 ((ExecutionEngine.default .flat).runExecution 9
    ⟨1⟩) (graphWorld, [])

theorem graphRun_visits : Visits (record Op.starting (handle .refusing)).sem
    ((ExecutionEngine.default .flat).runExecution 9 ⟨1⟩, graphWorld, [])
    (graphRun.1, graphRun.2.1, graphRun.2.2) :=
  visits_cut (record Op.starting (handle .refusing)) 200 _ _

/-- The run stops at the step that waits for itself, with the others done in their order. -/
theorem started_greedily_graph :
    StartedGreedily graphPlan ⟨1⟩ (Flagged ⟨1⟩ graphWorld) graphRun.1 graphRun.2.1 graphRun.2.2 ∧
      graphRun.2.2.map plannerKey = ["collect", "check", "report"].map Json.str :=
  ⟨started_greedily .refusing 9 installed_graph graphRun_visits, by decide +kernel⟩

end AgenticPlatform
