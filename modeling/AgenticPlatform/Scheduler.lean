import AgenticPlatform.CoursePlanning
import AgenticPlatform.Scheduling.Greedy
import Mathlib.Data.List.Find

/-! The engine's choice of the next step is the greedy choice in the graph of the plan: the keys of
the plan, in their order, are related to the step rows through the identifiers that they were
given. -/
namespace AgenticPlatform
open ExecutionEngine Store

/-- The keys of the plan in their order, and the keys that each of them waits for. -/
def ExecutionPlan.graph (plan : ExecutionPlan) : Greedy.Instance String where
  tasks := plan.steps.map StepSpec.stepKey
  needs key := (plan.dependencies.filter fun edge => edge.toStep = key).map PlanEdge.fromStep

/-- The plan of an execution, with the identifiers that its keys were given. -/
structure Blueprint where
  executionId : UUID
  plan : ExecutionPlan
  ids : List (String × UUID)
  keys : ids.map Prod.fst = plan.graph.tasks

/-- No step of the execution is running. -/
def Idle (executionId : UUID) (table : Table UUID Step) : Prop :=
  ∀ s ∈ table, s.executionId = executionId → s.status ≠ .running

theorem find_only {α : Type} {l : List α} {p : α → Bool} {x : α} (member : x ∈ l)
    (holds : p x = true) (only : ∀ y ∈ l, p y = true → y = x) : l.find? p = some x := by
  cases found : l.find? p with
  | none => exact absurd holds (List.find?_eq_none.mp found x member)
  | some y => rw [only y (List.mem_of_find?_eq_some found) (List.find?_some found)]

namespace Blueprint

/-- The step row of a key. -/
structure Row (b : Blueprint) (key : String) (s : Step) : Prop where
  owner : s.executionId = b.executionId
  named : plannerKey s = .str key
  ident : idOfKey b.ids key = some s.stepId
  dependencies : dependencyIds b.ids b.plan.dependencies key = some s.dependencies

/-- Every key has its step row, and there are no other steps. -/
structure Laid (b : Blueprint) (table : Table UUID Step) : Prop where
  each : ∀ key ∈ b.plan.graph.tasks, ∃ s ∈ table, b.Row key s
  only : ∀ s ∈ table, s.executionId = b.executionId → ∃ key ∈ b.plan.graph.tasks, b.Row key s

/-- The steps of these keys have been started, and the others are pending. -/
structure Progress (b : Blueprint) (table : Table UUID Step) (done : List String) : Prop where
  laid : b.Laid table
  started : ∀ s ∈ table, ∀ key ∈ done, b.Row key s → s.status = .running ∨ s.status = .succeeded
  waiting : ∀ s ∈ table, ∀ key ∉ done, b.Row key s → s.status = .pending

section
variable {b : Blueprint} {key other : String} {s t : Step} {table : Table UUID Step}
  {done : List String}
  {listed : List Step} {status : StepStatus} {now : Time}

/-- A key has one step row. -/
theorem Row.unique (row : b.Row key s) (row' : b.Row key t) (hs : s ∈ table)
    (ht : t ∈ table) : s = t :=
  Table.eq_of_key hs ht (Option.some.inj (row.ident.symm.trans row'.ident))

/-- A step row has one key. -/
theorem Row.same_key (row : b.Row key s) (row' : b.Row other s) : key = other := by
  have same := row.named.symm.trans row'.named
  injection same

theorem Row.moved (row : b.Row key s) : b.Row key (s.moved status now) :=
  ⟨row.owner, row.named, row.ident, row.dependencies⟩

/-- A key that has been given an identifier is one of the plan. -/
theorem known_key {id : UUID} (found : idOfKey b.ids key = some id) : key ∈ b.plan.graph.tasks := by
  rw [← b.keys]
  exact List.mem_map_of_mem (f := Prod.fst) (Course.idOfKey_mem found)

/-- What the keys that a key waits for were given. -/
theorem dependencyIds_forall₂ {ids : List (String × UUID)} {edges : List PlanEdge}
    {deps : List UUID} (found : dependencyIds ids edges key = some deps) :
    List.Forall₂ (fun need dep => idOfKey ids need = some dep)
      ((edges.filter fun edge => edge.toStep = key).map PlanEdge.fromStep) deps := by
  unfold dependencyIds at found
  generalize (edges.filter fun edge => edge.toStep = key) = into at found ⊢
  induction into generalizing deps with
  | nil =>
      obtain rfl : [] = deps := by simpa using found
      exact .nil
  | cons edge rest ih =>
      simp only [List.mapM_cons, Option.bind_eq_bind, Option.bind_eq_some_iff, Option.pure_def,
        Option.some.injEq] at found
      obtain ⟨dep, known, later, each, rfl⟩ := found
      exact .cons known (ih each)

/-- The step rows that the engine makes from the plan. -/
theorem Row.of_made {engine : ExecutionEngine} {row : Execution} {spec : StepSpec}
    (owner : s.executionId = b.executionId) (made : Made engine b.plan row now b.ids spec s) :
    b.Row spec.stepKey s := by
  obtain ⟨stepId, deps, known, depends, rfl⟩ := made
  exact ⟨owner, rfl, known, depends⟩

/-- Where these are the steps of the execution, nothing has been started. -/
theorem progress_of_made {engine : ExecutionEngine} {row : Execution} {steps : List Step}
    (made : List.Forall₂ (Made engine b.plan row now b.ids) b.plan.steps steps)
    (own : ∀ s, (s ∈ table ∧ s.executionId = b.executionId) ↔ s ∈ steps) : b.Progress table [] := by
  refine ⟨⟨fun key known => ?_, fun s member mine => ?_⟩, fun s _ key no => absurd no
    List.not_mem_nil, fun s member key _ row => ?_⟩
  · obtain ⟨spec, listed, rfl⟩ := List.mem_map.mp known
    obtain ⟨s, built, made⟩ := Interaction.forall₂_right made.flip spec listed
    obtain ⟨member, mine⟩ := (own s).mpr built
    exact ⟨s, member, .of_made mine made⟩
  · obtain ⟨spec, listed, made⟩ := Interaction.forall₂_right made s ((own s).mp ⟨member, mine⟩)
    exact ⟨spec.stepKey, List.mem_map_of_mem listed, .of_made mine made⟩
  · obtain ⟨spec, _, _, _, _, _, rfl⟩ := Interaction.forall₂_right made s
      ((own s).mp ⟨member, row.owner⟩)
    rfl

/-- With nothing running, what has been started has succeeded. -/
theorem Progress.succeeded (progress : b.Progress table done) (idle : Idle b.executionId table)
    (member : s ∈ table) (row : b.Row key s) : s.status = .succeeded ↔ key ∈ done := by
  constructor
  · intro succeeded
    by_contra new
    exact absurd (succeeded.symm.trans (progress.waiting s member key new row)) (by decide)
  · intro old
    exact (progress.started s member key old row).resolve_left (idle s member row.owner)

theorem Progress.pending (progress : b.Progress table done) (member : s ∈ table)
    (row : b.Row key s) :
    s.status = .pending ↔ key ∉ done := by
  constructor
  · intro pending old
    rcases progress.started s member key old row with running | succeeded
    · exact absurd (pending.symm.trans running) (by decide)
    · exact absurd (pending.symm.trans succeeded) (by decide)
  · exact fun new => progress.waiting s member key new row

/-- The listed steps are those of the execution. -/
def Lists (b : Blueprint) (table : Table UUID Step) (listed : List Step) : Prop :=
  ∀ s, s ∈ listed ↔ s ∈ table ∧ s.executionId = b.executionId

theorem lists_own (repo : Repository) : b.Lists repo.steps
    (repo.listStepsForExecution b.executionId) := fun s => by
  simp [Repository.listStepsForExecution, Table.mem_sortedBy]

/-- A step is ready when the keys that its key waits for are done. -/
theorem isReady_iff (progress : b.Progress table done) (idle : Idle b.executionId table)
    (lists : b.Lists table listed) (row : b.Row key s) :
    isReady s listed = true ↔ ∀ need ∈ b.plan.graph.needs key, need ∈ done := by
  have related := dependencyIds_forall₂ row.dependencies
  change List.Forall₂ _ (b.plan.graph.needs key) _ at related
  unfold isReady
  generalize b.plan.graph.needs key = needs at related ⊢
  generalize s.dependencies = deps at related ⊢
  induction related with
  | nil => simp
  | @cons need dep _ _ found _ ih =>
      obtain ⟨x, member, named⟩ := progress.laid.each need (known_key found)
      have same : x.stepId = dep := Option.some.inj (named.ident.symm.trans found)
      have parent : (listed.reverse.find? fun s => s.stepId = dep) = some x := by
        refine find_only ?_ (by simpa using same) fun y hy eq => ?_
        · exact List.mem_reverse.mpr ((lists x).mpr ⟨member, named.owner⟩)
        · have stored := ((lists y).mp (List.mem_reverse.mp hy)).1
          exact Table.eq_of_key stored member ((of_decide_eq_true eq).trans same.symm)
      rw [List.all_cons, Bool.and_eq_true, List.forall_mem_cons, parent]
      exact and_congr (decide_eq_true_iff.trans (progress.succeeded idle member named)) ih

/-- The listed row of a key. -/
def rowOf (listed : List Step) (key : String) : Option Step :=
  listed.reverse.find? fun s => (plannerKey s).isStr key

theorem rowOf_eq (laid : b.Laid table) (lists : b.Lists table listed)
    (known : key ∈ b.plan.graph.tasks) :
    ∃ s ∈ table, b.Row key s ∧ rowOf listed key = some s := by
  obtain ⟨s, member, row⟩ := laid.each key known
  refine ⟨s, member, row, find_only (List.mem_reverse.mpr ((lists s).mpr ⟨member, row.owner⟩))
    (by simp [row.named]) ?_⟩
  intro y hy same
  obtain ⟨stored, own⟩ := (lists y).mp (List.mem_reverse.mp hy)
  obtain ⟨other, _, row'⟩ := laid.only y stored own
  rw [row'.named, Json.isStr_str, decide_eq_true_eq] at same
  exact Row.unique (same ▸ row') row stored member

/-- The scheduler chooses the row of the greedy choice. -/
theorem nextPendingReady_eq (progress : b.Progress table done) (idle : Idle b.executionId table)
    (lists : b.Lists table listed) :
    nextPendingReady (stepsInPlanOrder listed b.plan) listed = (b.plan.graph.next done).bind
      (rowOf listed) := by
  have order : stepsInPlanOrder listed b.plan = b.plan.steps.filterMap fun spec => rowOf listed
    spec.stepKey := rfl
  rw [nextPendingReady, order, List.find?_filterMap, Greedy.Instance.next, ExecutionPlan.graph,
    List.find?_map, Option.bind_map]
  have each : ∀ spec ∈ b.plan.steps, ((rowOf listed spec.stepKey).any fun s => decide
    (s.status = .pending ∧ isReady s listed)) =
      decide (spec.stepKey ∉ done ∧ ∀ need ∈ b.plan.graph.needs spec.stepKey, need ∈ done) := by
    intro spec member
    obtain ⟨s, stored, row, found⟩ := rowOf_eq progress.laid lists (List.mem_map_of_mem member)
    rw [found, Option.any_some]
    exact decide_eq_decide.mpr (and_congr (progress.pending stored row)
      (isReady_iff progress idle lists row))
  rw [List.find?_congr each]
  rfl

/-- The chosen step is the row of the next key. -/
theorem Progress.chosen (progress : b.Progress table done) (idle : Idle b.executionId table)
    (lists : b.Lists table listed)
    (chosen : nextPendingReady (stepsInPlanOrder listed b.plan) listed = some s) :
    ∃ key, b.plan.graph.next done = some key ∧ b.Row key s ∧ s ∈ table := by
  rw [nextPendingReady_eq progress idle lists, Option.bind_eq_some_iff] at chosen
  obtain ⟨key, next, found⟩ := chosen
  obtain ⟨x, member, row, same⟩ := rowOf_eq progress.laid lists (Greedy.next_eq_some next).1
  obtain rfl := Option.some.inj (same.symm.trans found)
  exact ⟨key, next, row, member⟩

/-- Where no step is chosen, no key is left that could be. -/
theorem Progress.unchosen (progress : b.Progress table done) (idle : Idle b.executionId table)
    (lists : b.Lists table listed)
    (unchosen : nextPendingReady (stepsInPlanOrder listed b.plan) listed = none) :
    b.plan.graph.next done = none := by
  cases next : b.plan.graph.next done with
  | none => rfl
  | some key =>
      obtain ⟨x, _, _, same⟩ := rowOf_eq progress.laid lists (Greedy.next_eq_some next).1
      rw [nextPendingReady_eq progress idle lists, next, Option.bind_some, same] at unchosen
      cases unchosen

theorem mem_put_moved (member : s ∈ table) : t ∈ table.put (s.moved status now) ↔
    t = s.moved status now ∨ (t ∈ table ∧ t ≠ s) := by
  rw [Table.mem_put]
  refine or_congr Iff.rfl (and_congr_right fun old => not_congr
    ⟨fun same => ?_, fun same => same ▸ rfl⟩)
  exact Table.eq_of_key old member same

theorem Laid.moved (laid : b.Laid table) (member : s ∈ table) : b.Laid
    (table.put (s.moved status now)) where
  each key known := by
    obtain ⟨x, stored, row⟩ := laid.each key known
    by_cases same : x = s
    · exact ⟨_, (mem_put_moved member).mpr (.inl rfl), (same ▸ row).moved⟩
    · exact ⟨x, (mem_put_moved member).mpr (.inr ⟨stored, same⟩), row⟩
  only x stored own := by
    rcases (mem_put_moved member).mp stored with rfl | ⟨old, _⟩
    · obtain ⟨key, known, row⟩ := laid.only s member own
      exact ⟨key, known, row.moved⟩
    · exact laid.only x old own

/-- A row that has moved was the row of the same key. -/
theorem Row.of_moved (row : b.Row key (s.moved status now)) : b.Row key s :=
  ⟨row.owner, row.named, row.ident, row.dependencies⟩

/-- A step that starts, or starts and ends, adds its key. -/
theorem Progress.start (progress : b.Progress table done) (member : s ∈ table) (row : b.Row key s)
    (going : status = .running ∨ status = .succeeded) :
    b.Progress (table.put (s.moved status now)) (done ++ [key]) := by
  refine ⟨progress.laid.moved member, fun x stored k started row' => ?_,
    fun x stored k new row' => ?_⟩
  · rcases (mem_put_moved member).mp stored with rfl | ⟨old, apart⟩
    · exact going
    · rcases List.mem_append.mp started with before | last
      · exact progress.started x old k before row'
      · obtain rfl := List.mem_singleton.mp last
        exact absurd (row'.unique row old member) apart
  · rcases (mem_put_moved member).mp stored with rfl | ⟨old, _⟩
    · exact absurd
        (List.mem_append.mpr (.inr (List.mem_singleton.mpr (row'.of_moved.same_key row)))) new
    · exact progress.waiting x old k (fun before => new (List.mem_append.mpr (.inl before))) row'

/-- A step that ends had been started. -/
theorem Progress.finish (progress : b.Progress table done) (member : s ∈ table)
    (running : s.status = .running) :
    b.Progress (table.put (s.moved .succeeded now)) done := by
  refine ⟨progress.laid.moved member, fun x stored k started row => ?_,
    fun x stored k new row => ?_⟩
  · rcases (mem_put_moved member).mp stored with rfl | ⟨old, _⟩
    · exact .inr rfl
    · exact progress.started x old k started row
  · rcases (mem_put_moved member).mp stored with rfl | ⟨old, _⟩
    · have pending := progress.waiting s member k new row.of_moved
      exact absurd (running.symm.trans pending) (by decide)
    · exact progress.waiting x old k new row

/-- A step that runs to its end leaves nothing running. -/
theorem Idle.put {id : UUID} (idle : Idle id table) (member : s ∈ table)
    (still : status ≠ .running) :
    Idle id (table.put (s.moved status now)) := by
  intro x stored own
  rcases (mem_put_moved member).mp stored with rfl | ⟨old, _⟩
  · exact still
  · exact idle x old own

/-- What has been started is determined by the steps. -/
theorem Progress.done_eq (progress : b.Progress table done) {done' : List String}
    (progress' : b.Progress table done') (greedy : Greedy.Done b.plan.graph done)
    (greedy' : Greedy.Done b.plan.graph done') : done = done' := by
  have within : ∀ {d d'}, b.Progress table d → b.Progress table d' →
    Greedy.Done b.plan.graph d → d ⊆ d' := by
    intro d d' p p' g key old
    obtain ⟨s, member, row⟩ := p.laid.each key (g.nodup.2 old)
    by_contra new
    exact (p.pending member row).mp ((p'.pending member row).mpr new) old
  have length : done.length = done'.length :=
    ((List.perm_ext_iff_of_nodup greedy.nodup.1 greedy'.nodup.1).mpr fun _ =>
      ⟨fun old => within progress progress' greedy old, fun old => within progress' progress greedy'
        old⟩).length_eq
  rw [greedy.eq_first, greedy'.eq_first, length]

end
end Blueprint
end AgenticPlatform
