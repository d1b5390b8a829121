import AgenticPlatform.Course
import AgenticPlatform.Interaction.Raising

/-! The course of planning: the plan, its step rows, and the row that points to it. -/
namespace AgenticPlatform
open Interaction ExecutionEngine Store

namespace Course

section
variable {c : Course} {known N : Execution → Prop} {view : Repository} {drawn : Nat} {w t : World}
  {row ex : Execution} {now : Time} {engine : ExecutionEngine} {plan : ExecutionPlan} {n : Nat}

/-- A plan of the planner as the scheduler meets it: one step after another, each under its own
key, and the last of them validates. -/
structure Chain (plan : ExecutionPlan) : Prop where
  keys : (plan.steps.map StepSpec.stepKey).Nodup
  edges : plan.dependencies = (plan.steps.zip plan.steps.tail).map fun (before, after) =>
    ⟨before.stepKey, after.stepKey⟩
  shape : ∃ first rest last, plan.steps = first :: rest ++ [last] ∧ last.kind = "validation" ∧
    ∀ spec ∈ first :: rest, spec.kind ∈ ["reasoning", "retrieval", "tool"]
  few : plan.steps.length ≤ 4

/-- A new plan of the planner. -/
structure Fresh (row : Execution) (plan : ExecutionPlan) (drawn next : Nat) : Prop where
  planned : Planned row plan
  chain : Chain plan
  planId : drawn ≤ plan.planId.n ∧ plan.planId.n < next

theorem str_ne {a b : UUID} (lt : a.n < b.n) : a.str ≠ b.str := fun same => by
  rw [UUID.str_injective same] at lt
  exact Nat.lt_irrefl _ lt

/-- Drawing an identifier and going on. -/
theorem draw {α : Type} {f : UUID → M α} {Q : Outcome Exn α → World → Prop}
    (held : Held c known view drawn w)
    (next : ∀ (u : UUID) t, drawn ≤ u.n → Held c known view (u.n + 1) t → wp c.sem (f u) Q t) :
    wp c.sem (M.uuid4 >>= f) Q w := by
  rw [wp_bind]
  refine wp_mono ?_ (held_uuid4 held)
  rintro _ t ⟨u, rfl, above, held⟩
  exact next u t above held

/-- The keys of a plan are drawn one after another. -/
theorem planWorkflow_chain (plannerMeta : Dict) (planId : UUID) (held : Held c known view drawn w) :
    wp c.sem (planWorkflow plannerMeta row planId now)
      (fun o t => ∃ plan, o = .ret plan ∧ Chain plan ∧ Held c known view drawn t) w := by
  have kept : ∀ {m t}, Held c known view (m + 1) t → drawn ≤ m →
    Held c known view drawn t := fun held le =>
    ⟨held.bounded, held.orderly, held.row, held.view, le.trans ((Nat.le_succ _).trans held.drawn)⟩
  refine wp_ite (fun _ => ?_) fun _ => wp_ite (fun _ => ?_) fun _ => ?_
  · refine draw held fun a t ha held => draw held fun b t hb held => draw held fun d t hd held => ?_
    refine ⟨_, rfl,
      ⟨?_, rfl, ⟨_, [_], _, rfl, rfl, by simp [plannedStep]⟩, by simp [sequentialPlan]⟩,
      kept held (by omega)⟩
    have ab := str_ne hb
    have bd := str_ne hd
    have ad := @str_ne a d (by omega)
    simp [sequentialPlan, plannedStep, ab, bd, ad]
  · refine draw held fun a t ha held => draw held fun b t hb held => draw held fun d t hd held =>
      draw held fun e t he held => ?_
    refine ⟨_, rfl,
      ⟨?_, rfl, ⟨_, [_, _], _, rfl, rfl, by simp [plannedStep]⟩, by simp [sequentialPlan]⟩,
      kept held (by omega)⟩
    have ab := str_ne hb
    have bd := str_ne hd
    have de := str_ne he
    have ad := @str_ne a d (by omega)
    have ae := @str_ne a e (by omega)
    have be := @str_ne b e (by omega)
    simp [sequentialPlan, plannedStep, ab, bd, ad, de, ae, be]
  · refine draw held fun a t ha held => draw held fun b t hb held => ?_
    refine ⟨_, rfl,
      ⟨?_, rfl, ⟨_, [], _, rfl, rfl, by simp [plannedStep]⟩, by simp [sequentialPlan]⟩,
      kept held (by omega)⟩
    simp [sequentialPlan, plannedStep, str_ne hb]

theorem draws_held {α : Type} {p : M α} {R : α → Prop} (draws : Draws p R) :
    ∀ w, True → wp c.sem p (ends (fun _ => True) (fun _ _ => False) R) w := by
  refine Built.wp (M := c.sem) (I := fun _ => True) ?_ (fun _ _ no => no.elim) draws
  rintro β _ _ t ⟨⟩ _
  exact wp_perform.mpr ⟨⟨trivial, trivial, trivial⟩, fun r u step => by
    obtain ⟨rfl, rfl⟩ := Prod.mk.inj step.1
    exact ⟨trivial, trivial⟩⟩

theorem createPlan_held (plannerMeta : Dict) (held : Held c known view drawn w) :
    wp c.sem (createPlan plannerMeta row now) (fun o t => ∃ plan next, o = .ret plan ∧
      Fresh row plan drawn next ∧ Held c known view next t) w := by
  unfold createPlan
  refine draw held fun planId t above held => ?_
  refine wp_mono ?_ (wp_and (planWorkflow_chain plannerMeta planId held)
    (draws_held (planWorkflow_draws plannerMeta row planId now) t trivial))
  rintro o u ⟨⟨plan, rfl, chain, held⟩, ⟨planned, rfl⟩, _⟩
  exact ⟨plan, _, rfl, ⟨planned, chain, above, Nat.lt_succ_self _⟩, held⟩

/-- The keys are given identifiers of their own. -/
structure Assigned (specs : List StepSpec) (ids : List (String × UUID))
    (drawn next : Nat) : Prop where
  keys : ids.map Prod.fst = specs.map StepSpec.stepKey
  range : ∀ e ∈ ids, drawn ≤ e.2.n ∧ e.2.n < next
  apart : (ids.map Prod.snd).Nodup

theorem keyToId_held (specs : List StepSpec) (held : Held c known view drawn w) :
    wp c.sem (keyToId specs) (fun o t => ∃ ids next, o = .ret ids ∧ drawn ≤ next ∧
      Assigned specs ids drawn next ∧
      Held c known view next t) w := by
  induction specs generalizing drawn w with
  | nil => exact ⟨[], drawn, rfl, Nat.le_refl _, ⟨rfl, nofun, List.nodup_nil⟩, held⟩
  | cons spec rest ih =>
      refine draw held fun u t above held => ?_
      rw [wp_bind]
      refine wp_mono ?_ (ih held)
      rintro _ v ⟨ids, next, rfl, later, assigned, held⟩
      refine ⟨(spec.stepKey, u) :: ids, next, rfl, by omega, ⟨by simp [assigned.keys], ?_, ?_⟩,
        held⟩
      · intro e member
        rcases List.mem_cons.mp member with rfl | old
        · exact ⟨above, later⟩
        · have range := assigned.range e old
          omega
      · simp only [List.map_cons, List.nodup_cons]
        refine ⟨fun member => ?_, assigned.apart⟩
        obtain ⟨e, old, same⟩ := List.mem_map.mp member
        have range := (assigned.range e old).1
        rw [same] at range
        omega

theorem idOfKey_mem {ids : List (String × UUID)} {key : String} {id : UUID}
    (found : idOfKey ids key = some id) :
    (key, id) ∈ ids := by
  obtain ⟨⟨k, u⟩, known, rfl⟩ := Option.map_eq_some_iff.mp found
  have same : k = key := by simpa using List.find?_some known
  exact List.mem_reverse.mp (same ▸ List.mem_of_find?_eq_some known)

/-- Step rows made for all specifications of a plan, under new identifiers. -/
structure Batch (c : Course) (plan : ExecutionPlan) (drawn next : Nat)
    (steps : List Step) : Prop where
  own : ∀ s ∈ steps, s.executionId = c.executionId ∧ s.planId = plan.planId ∧
    s.status = .pending ∧ s.Planned
  range : ∀ s ∈ steps, drawn ≤ s.stepId.n ∧ s.stepId.n < next
  ids : (steps.map Step.stepId).Nodup
  keys : (steps.map plannerKey).Nodup
  realizes : List.Forall₂ Realizes plan.steps steps

theorem stepOfSpec_planned {spec : StepSpec} {stepId : UUID} {dependencies : List UUID}
    (planned : PlannedSpec row.workflowType spec)
    (kind : spec.kind = "validation" ∨ spec.kind ∈ ["reasoning", "retrieval", "tool"]) :
    (engine.stepOfSpec plan row now spec stepId dependencies).Planned := by
  obtain ⟨name, named, validating⟩ := planned.named
  refine ⟨row.workflowType, name, rfl, ?_, fun validates => ?_⟩
  · simp [plannerStepName, stepOfSpec, named, Dict.get, Json.ofOption]
  · rcases kind with validation | other
    · exact ⟨by simp [stepOfSpec, stepKindOf, validation], validating validation⟩
    · simp only [List.mem_cons, List.not_mem_nil, or_false] at other
      rcases other with kind | kind | kind <;> simp [isValidationStep, stepOfSpec, stepKindOf,
        kind] at validates

theorem realizes_keys {specs : List StepSpec} {steps : List Step}
    (realizes : List.Forall₂ Realizes specs steps) :
    steps.map plannerKey = (specs.map StepSpec.stepKey).map Json.str := by
  rw [List.map_map]
  exact (forall₂_map_eq realizes fun _ _ made => made.key.symm).symm

theorem batch_of_made {specs : List StepSpec} {ids : List (String × UUID)}
    {steps : List Step} {next : Nat}
    (made : List.Forall₂ (Made engine plan row now ids) specs steps)
    (assigned : Assigned specs ids drawn next) :
    (∀ s ∈ steps, drawn ≤ s.stepId.n ∧ s.stepId.n < next) ∧ List.Forall₂ Realizes specs steps ∧
      ∀ s ∈ steps, ∀ t ∈ steps, s.stepId = t.stepId → plannerKey s = plannerKey t := by
  have each : ∀ s ∈ steps, ∃ key, plannerKey s = .str key ∧ (key, s.stepId) ∈ ids := by
    intro s member
    obtain ⟨spec, _, id, deps, found, _, rfl⟩ := forall₂_right made s member
    exact ⟨spec.stepKey, rfl, idOfKey_mem found⟩
  refine ⟨fun s member => ?_, ?_, fun s hs t ht same => ?_⟩
  · obtain ⟨key, _, known⟩ := each s member
    exact assigned.range _ known
  · exact made.imp fun spec step ⟨id, deps, _, _, same⟩ => same ▸ ⟨rfl, rfl⟩
  · obtain ⟨key, named, known⟩ := each s hs
    obtain ⟨key', named', known'⟩ := each t ht
    have entry := List.inj_on_of_nodup_map assigned.apart known known' same
    rw [named, named', (Prod.mk.inj entry).1]

/-- Planning makes the step rows that the plan asks for. -/
theorem instantiateSteps_held {m : Nat} (fresh : Fresh row plan m n)
    (ident : row.executionId = c.executionId) (held : Held c known view drawn w) :
    wp c.sem (engine.instantiateSteps plan row now) (fun o t => ∃ ids steps next, o = .ret steps ∧
      List.Forall₂ (Made engine plan row now ids) plan.steps steps ∧ Batch c plan drawn next steps ∧
      Assigned plan.steps ids drawn next ∧ Held c known view next t) w := by
  unfold instantiateSteps
  rw [wp_bind]
  refine wp_mono ?_ (keyToId_held plan.steps held)
  rintro _ t ⟨ids, next, rfl, _, assigned, held⟩
  obtain ⟨steps, built, made⟩ := buildSteps_planned engine fresh.planned now assigned.keys
  rw [andThen_ret, built]
  obtain ⟨range, realizes, same⟩ := batch_of_made made assigned
  have keys : (steps.map plannerKey).Nodup := by
    rw [realizes_keys realizes]
    exact fresh.chain.keys.map fun a b same => by injection same
  have ids : (steps.map Step.stepId).Nodup := by
    refine List.Nodup.map_on (fun s hs t ht eq => ?_) (List.Nodup.of_map _ keys)
    exact List.inj_on_of_nodup_map keys hs ht (same s hs t ht eq)
  refine ⟨_, steps, next, rfl, made, ⟨fun s member => ?_, range, ids, keys, realizes⟩,
    assigned, held⟩
  obtain ⟨spec, hs, id, deps, _, _, rfl⟩ := forall₂_right made s member
  refine ⟨ident, rfl, rfl, stepOfSpec_planned (fresh.planned.specs spec hs) ?_⟩
  obtain ⟨first, rest, last, shape, validation, others⟩ := fresh.chain.shape
  rw [shape] at hs
  rcases List.mem_append.mp hs with early | final
  · exact .inr (others spec early)
  · exact .inl (List.mem_singleton.mp final ▸ validation)

/-- Steps stored one after another. -/
def putSteps (steps : List Step) (table : Table UUID Step) : Table UUID Step :=
  steps.foldl Table.put table

theorem mem_putSteps {steps : List Step} {table : Table UUID Step} {s : Step}
    (apart : (steps.map Step.stepId).Nodup) (new : ∀ t ∈ table, ∀ s ∈ steps, t.stepId ≠ s.stepId) :
    s ∈ putSteps steps table ↔ s ∈ table ∨ s ∈ steps := by
  induction steps generalizing table with
  | nil => simp [putSteps]
  | cons x rest ih =>
      simp only [List.map_cons, List.nodup_cons] at apart
      have later : ∀ t ∈ table.put x, ∀ s ∈ rest, t.stepId ≠ s.stepId := by
        intro t member s hs
        rcases Table.mem_put.mp member with rfl | ⟨old, _⟩
        · exact fun same => apart.1 (same ▸ List.mem_map_of_mem hs)
        · exact new t old s (List.mem_cons_of_mem _ hs)
      refine (ih apart.2 later).trans ?_
      rw [Table.mem_put, List.mem_cons]
      constructor
      · rintro ((rfl | ⟨old, _⟩) | later)
        · exact .inr (.inl rfl)
        · exact .inl old
        · exact .inr (.inr later)
      · rintro (old | rfl | later)
        · exact .inl (.inr ⟨old, new s old x List.mem_cons_self⟩)
        · exact .inl (.inl rfl)
        · exact .inr later

theorem saveSteps_held {steps : List Step} {next : Nat} (held : Held c (· = row) view next w)
    (planning : row.status = .planning) (first : ∀ s ∈ steps, s.executionId = c.executionId ∧
      s.status = .pending ∧ s.Planned ∧ s.stepId.n < next)
    (placed : ∀ s ∈ steps, ∃ p ∈ view.plans, p.executionId = c.executionId ∧ p.planId = s.planId ∧
      ∃ spec ∈ p.steps, Realizes spec s)
    (ids : (steps.map Step.stepId).Nodup) (keys : (steps.map plannerKey).Nodup)
    (unfinished : ∀ s ∈ steps, view.stepResults.get s.stepId = none)
    (new : ∀ t ∈ view.steps, ∀ s ∈ steps, t.stepId ≠ s.stepId ∧ (t.executionId = c.executionId →
      plannerKey t ≠ plannerKey s)) : wp c.sem (saveSteps steps)
        (ends (Held c (· = row) { view with steps := putSteps steps view.steps } next)
        (fun _ _ => False)
        (fun _ => True)) w := by
  induction steps generalizing view w with
  | nil => exact ⟨trivial, held⟩
  | cons s rest ih =>
      simp only [List.map_cons, List.nodup_cons] at ids keys
      obtain ⟨own, pending, planned, below⟩ := first s List.mem_cons_self
      have lawful : Lawful c.passing c.executionId w (.saveStep s) := by
        refine ⟨own, below.trans_le held.drawn, bounded_execution held.bounded held.stored,
          ⟨row, held.stored, planning⟩, pending, ⟨?_, .inl pending, fun _ => planned,
            fun done => ?_⟩, ?_, fun t member => ?_⟩
        · obtain ⟨p, stored, owner, rest⟩ := placed s List.mem_cons_self
          exact ⟨p, held.plans ▸ stored, owner.trans own.symm, rest⟩
        · exact absurd (pending.symm.trans done) (by simp)
        · exact held.results ▸ unfinished s List.mem_cons_self
        · exact new t (held.steps ▸ member) s List.mem_cons_self
      refine wp_then (held_write (.saveStep s) (a := ()) (putStep s) (fun _ _ _ => rfl) held lawful
        own trivial rfl) ?_
        fun _ _ no => no.elim
      intro _ t _ held
      refine ih held (fun x member => first x (List.mem_cons_of_mem _ member))
        (fun x member => placed x (List.mem_cons_of_mem _ member)) ids.2 keys.2
        (fun x member => unfinished x (List.mem_cons_of_mem _ member)) fun x stored y later => ?_
      rcases Table.mem_put.mp stored with rfl | ⟨old, _⟩
      · exact ⟨fun same => ids.1 (same ▸ List.mem_map_of_mem later),
          fun _ same => keys.1 (same ▸ List.mem_map_of_mem later)⟩
      · exact new x old y (List.mem_cons_of_mem _ later)

theorem enterPlanning_held (held : Held c (· = row) view drawn w) :
    wp c.sem (enterPlanning row now)
    (fun o t => ∃ next, o = .ret next ∧ Held c (· = next) view drawn t ∧
      next.status ≠ .created ∧ ((row.status ≠ .created ∧ next = row) ∨
        (row.status = .created ∧ next = enterStatus row .planning [] now))) w := by
  unfold enterPlanning
  refine wp_ite (fun created => ?_) fun other => ⟨row, rfl, held, other, .inl ⟨other, rfl⟩⟩
  refine wp_then (wp_ofExcept_ok rfl) ?_ fun _ _ no => no.elim
  rintro _ _ rfl rfl
  have rewrite : ∀ w, Rewrite w row (enterStatus row .planning [] now) := fun w =>
    entered_rewrite rfl (by simp [created, executionAllowed]) rfl (by simp) (by simp)
  refine wp_then (held_update held (rewrite _)) ?_ fun _ _ no => no.elim
  exact fun _ t _ held => ⟨_, rfl, held, by simp, .inr ⟨created, rfl⟩⟩

/-- What planning has stored when the run enters its executing phase. -/
structure Launched (c : Course) (engine : ExecutionEngine) (row next : Execution)
    (view : Repository) : Prop where
  entered : ∃ planId now, next = enterStatus { row with currentPlanId := some planId } .executing
    [("plan_id", .str planId.str)] now
  plan : ∃ p ∈ view.plans, next.currentPlanId = some p.planId ∧ p.executionId = c.executionId ∧
    Chain p ∧
    ∃ now ids steps drawn above, List.Forall₂ (Made engine p row now ids) p.steps steps ∧
      Assigned p.steps ids drawn above ∧
      ∀ s, (s ∈ view.steps ∧ s.executionId = c.executionId) ↔ s ∈ steps

/-- A row in its planning phase has no plan yet: the run that entered it was not cut short. -/
def Restartable (id : UUID) (w : World) : Prop :=
  ∀ row, w.execution id = some row → row.status = .planning → ∀ p ∈ w.repo.plans, p.executionId ≠ id

theorem enterExecuting_held (started : row.status ≠ .created)
    (unplanned : row.status = .planning → ∀ p ∈ view.plans, p.executionId ≠ c.executionId)
    (held : Held c (· = row) view drawn w) :
    wp c.sem (engine.enterExecuting row now) (fun o t => o = .ret () ∧
      ((Begun row ∧ Held c (· = row) view drawn t) ∨ (row.status = .planning ∧ ∃ next changed above,
        Launched c engine row next changed ∧ changed.contexts = view.contexts ∧
        Held c (· = next) changed above t))) w := by
  unfold enterExecuting
  refine wp_ite (fun planning => ?_) fun other => ⟨rfl, .inl ⟨⟨started, other⟩, held⟩⟩
  have ident : row.executionId = c.executionId := (Table.get_eq_some.mp held.stored).2
  have unplanned := unplanned planning
  have unstarted : ∀ s ∈ view.steps, s.executionId ≠ c.executionId := fun s member own => by
    obtain ⟨p, stored, owner, _⟩ := (held.orderly.steps s (held.steps ▸ member) own).plan
    exact unplanned p (held.plans ▸ stored) (owner.trans own)
  have planIds : ∀ p ∈ view.plans, p.planId.n < w.fresh := fun p member =>
    (held.bounded.plans p (held.plans ▸ member)).1
  rw [wp_bind]
  refine wp_mono ?_ (createPlan_held engine.plannerMeta held.exact)
  rintro _ t ⟨plan, n, rfl, fresh, held⟩
  have owner : plan.executionId = c.executionId := fresh.planned.executionId.trans ident
  have unused : ∀ q ∈ t.repo.plans, q.executionId ≠ c.executionId ∧ q.planId ≠ plan.planId :=
    fun q member => by
    have old : q ∈ view.plans := held.plans ▸ member
    refine ⟨unplanned q old, fun same => ?_⟩
    have below := planIds q old
    have above := fresh.planId.1
    rw [same] at below
    omega
  refine wp_then (held_write (.savePlan plan) (a := ())
    (fun repo => { repo with plans := repo.plans.put plan }) (fun _ _ _ => rfl) held
      ⟨owner, fresh.planId.2.trans_le held.drawn, bounded_execution held.bounded held.stored,
        ⟨row, held.stored, planning⟩, unused⟩ owner trivial rfl) ?_ fun _ _ no => no.elim
  intro _ u _ held
  have stored : plan ∈ view.plans.put plan := Table.mem_put.mpr (.inl rfl)
  rw [wp_bind]
  refine wp_mono ?_ (instantiateSteps_held fresh ident held.exact)
  rintro _ v ⟨ids, steps, next, rfl, made, batch, assigned, held'⟩
  have apart : ∀ t ∈ view.steps, ∀ s ∈ steps, t.stepId ≠ s.stepId := fun t member s hs same => by
    have below := (held.bounded.steps t (held.steps ▸ member)).1
    have above := (batch.range s hs).1
    rw [same] at below
    omega
  refine wp_then (saveSteps_held held' planning (fun s hs => ?_) (fun s hs => ?_) batch.ids
    batch.keys (fun s hs => ?_)
    (fun x hx s hs => ⟨apart x hx s hs, fun own => absurd own (unstarted x hx)⟩)) ?_
      fun _ _ no => no.elim
  · obtain ⟨own, _, pending, planned⟩ := batch.own s hs
    exact ⟨own, pending, planned, (batch.range s hs).2⟩
  · obtain ⟨own, plan, _, _⟩ := batch.own s hs
    obtain ⟨spec, member, realizes⟩ := forall₂_right batch.realizes s hs
    exact ⟨_, stored, owner, plan.symm, spec, member, realizes⟩
  · refine Table.get_eq_none.mpr fun r member same => ?_
    have below := held.bounded.results r (held.results ▸ member)
    have above := (batch.range s hs).1
    rw [show r.stepId = s.stepId from same] at below
    omega
  intro _ x _ held
  refine wp_then (wp_ofExcept_ok rfl) ?_ fun _ _ no => no.elim
  rintro _ _ rfl rfl
  have saved : ∀ s, s ∈ putSteps steps view.steps ↔ s ∈ view.steps ∨ s ∈ steps := fun s =>
    mem_putSteps batch.ids apart
  have rewrite : ∀ w : World, w.repo.plans = view.plans.put plan →
    w.repo.steps = putSteps steps view.steps →
      Rewrite w row (enterStatus { row with currentPlanId := some plan.planId } .executing
        [("plan_id", .str plan.planId.str)] now) := fun w plans steps' => by
    refine ⟨rfl, .inr (by simp [planning, executionAllowed]), .inr
      ⟨planning, rfl, plan, plans ▸ stored, owner.trans ident.symm, rfl, fun spec member => ?_⟩,
        fun _ _ => by simp, by simp⟩
    obtain ⟨s, hs, realizes⟩ := forall₂_right batch.realizes.flip spec member
    exact ⟨s, steps' ▸ (saved s).mpr (.inr hs), (batch.own s hs).1.trans owner.symm, realizes⟩
  refine wp_mono ?_ (held_update held (rewrite _ held.plans held.steps))
  intro o y hy
  cases o with
  | ret a =>
      refine ⟨rfl, .inr ⟨planning, _, _, _, ⟨⟨plan.planId, now, rfl⟩, plan, stored, rfl, owner,
        fresh.chain, now, ids, steps, _, _, made, assigned, fun s => ?_⟩, ?_, hy.2⟩⟩
      · constructor
        · rintro ⟨member, own⟩
          exact ((saved s).mp member).resolve_left fun old => unstarted s old own
        · exact fun new => ⟨(saved s).mpr (.inr new), (batch.own s new).1⟩
      · rfl
  | raise e => exact hy.elim
  | halt => exact hy.elim

end
end Course
end AgenticPlatform
