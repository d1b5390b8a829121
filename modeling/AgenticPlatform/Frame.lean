import AgenticPlatform.CourseRun
import AgenticPlatform.Replay

/-! A replay leaves alone everything that was stored before: what it writes is new, or belongs to
the child that it has created. -/
namespace AgenticPlatform
open Interaction ExecutionEngine Store Course

/-- Every row that was stored is stored as it was, in every table. -/
structure Preserved (w t : World) : Prop where
  contexts : w.repo.contexts.Keeps t.repo.contexts
  executions : w.repo.executions.Keeps t.repo.executions
  plans : w.repo.plans.Keeps t.repo.plans
  steps : w.repo.steps.Keeps t.repo.steps
  stepResults : w.repo.stepResults.Keeps t.repo.stepResults
  actionProposals : w.repo.actionProposals.Keeps t.repo.actionProposals
  policyEvaluations : w.repo.policyEvaluations.Keeps t.repo.policyEvaluations
  approvals : w.repo.approvals.Keeps t.repo.approvals
  toolCalls : w.repo.toolCalls.Keeps t.repo.toolCalls

/-- The store, where every call must preserve what is stored in `w`. -/
abbrev framing (env : Env) (w : World) : Semantics platform Exn where
  State := World
  step s op r t := handle env s op = (r, t)
  ok s op := Preserved w (handle env s op).2

/-- What was stored in `w` is preserved, and what has been given out since is new. -/
structure Since (w s : World) : Prop where
  bounded : Bounded s
  fresh : w.fresh ≤ s.fresh
  preserved : Preserved w s

/-- A child that was created since, none of whose steps had a result. -/
structure Framed (w : World) (child : UUID) (s : World) : Prop where
  since : Since w s
  orderly : Orderly False child s
  results : ∀ x ∈ s.repo.steps, x.executionId = child → w.repo.stepResults.get x.stepId = none

section
variable {env : Env} {w s t : World} {child : UUID} {op : Op} {calls : ToolCall → Prop}

theorem Preserved.refl : Preserved w w :=
  ⟨.refl, .refl, .refl, .refl, .refl, .refl, .refl, .refl, .refl⟩

/-- A row that did not exist is not among the stored ones. -/
theorem unused_execution (bounded : Bounded w) (new : w.fresh ≤ child.n) :
    w.repo.executions.get child = none := by
  refine Table.get_eq_none.mpr fun row member same => ?_
  have below := bounded.executions row member
  rw [show row.executionId = child from same] at below
  omega

/-- The calls of the child's run preserve what was stored before the child. -/
theorem Framed.preserves (framed : Framed w child s) (bounded : Bounded w) (new : w.fresh ≤ child.n)
    (lawful : Lawful False child s op) (near : Local child s op)
    (called : ∀ tc, op = .saveToolCall tc → w.repo.toolCalls.get tc.toolCallId = none) :
    Preserved w (handle env s op).2 := by
  have kept := framed.since.preserved
  cases op with
  | saveContext c => exact lawful.elim
  | saveExecution row => exact lawful.elim
  | saveApproval a => exact near.elim
  | updateExecution ex =>
      obtain rfl : ex.executionId = child := near
      simp only [handle]
      split
      · exact { kept with executions := kept.executions.put (unused_execution bounded new) }
      · exact kept
  | savePlan p =>
      obtain ⟨_, _, _, _, unused⟩ := lawful
      refine { kept with plans := kept.plans.put (kept.plans.free ?_) }
      exact Table.get_eq_none.mpr fun q member => (unused q member).2
  | saveStep x =>
      obtain ⟨_, _, _, _, _, _, _, unused⟩ := lawful
      refine { kept with steps := kept.steps.put (kept.steps.free ?_) }
      exact Table.get_eq_none.mpr fun q member => (unused q member).1
  | updateStep x =>
      obtain ⟨own, old, stored, mine⟩ := lawful.updated
      simp only [handle, stored, Option.isSome_some, if_true]
      refine { kept with steps := kept.steps.put ?_ }
      cases before : w.repo.steps.get x.stepId with
      | none => rfl
      | some y =>
          obtain rfl := Option.some.inj (stored.symm.trans (kept.steps _ y before))
          have below := (bounded.steps old (Table.get_eq_some.mp before).1).2
          rw [mine] at below
          omega
  | saveStepResult r =>
      obtain ⟨x, member, same, own⟩ := near
      have free := framed.results x member own
      rw [same] at free
      exact { kept with stepResults := kept.stepResults.put free }
  | saveActionProposal p =>
      obtain ⟨own, held_by⟩ := near
      refine { kept with actionProposals := kept.actionProposals.put ?_ }
      cases before : w.repo.actionProposals.get p.proposalId with
      | none => rfl
      | some q =>
          obtain ⟨member, same⟩ := Table.get_eq_some.mp before
          have below := (bounded.proposals q member).2
          rw [held_by q (kept.actionProposals.mem member) same] at below
          omega
  | savePolicyEvaluation e =>
      obtain ⟨_, unused⟩ := near
      refine
        { kept with
          policyEvaluations := kept.policyEvaluations.put (kept.policyEvaluations.free ?_) }
      exact Table.get_eq_none.mpr unused
  | saveToolCall tc => exact { kept with toolCalls := kept.toolCalls.put (called tc rfl) }
  | _ => exact { kept with }

theorem fresh_le (op : Op) : s.fresh ≤ (handle env s op).2.fresh := by
  cases op with
  | uuid4 => exact Nat.le_succ _
  | updateExecution ex =>
      simp only [handle]
      split <;> exact Nat.le_refl _
  | updateStep x =>
      simp only [handle]
      split <;> exact Nat.le_refl _
  | _ => exact Nat.le_refl _

theorem Framed.next (framed : Framed w child s) (lawful : Lawful False child s op)
    (preserved : Preserved w (handle env s op).2) : Framed w child (handle env s op).2 := by
  refine ⟨⟨bounded_handle framed.since.bounded (lawful.drawn framed.since.bounded),
    framed.since.fresh.trans (fresh_le op), preserved⟩, lawful.orderly framed.orderly, ?_⟩
  cases op with
  | saveStep x =>
      intro y member own
      rcases Table.mem_put.mp member with rfl | ⟨old, _⟩
      · obtain ⟨_, _, _, _, _, _, unfinished, _⟩ := lawful
        exact framed.since.preserved.stepResults.free unfinished
      · exact framed.results y old own
  | updateStep x =>
      obtain ⟨_, old, stored, mine⟩ := lawful.updated
      simp only [handle, stored, Option.isSome_some, if_true]
      intro y member own
      rcases Table.mem_put.mp member with rfl | ⟨before, _⟩
      · obtain ⟨member', keyed⟩ := Table.get_eq_some.mp stored
        exact keyed ▸ framed.results old member' mine
      · exact framed.results y before own
  | updateExecution ex =>
      simp only [handle]
      split <;> exact framed.results
  | _ => exact framed.results

variable {engine : ExecutionEngine} {fuel : Nat} {request : ReplayRequest} {source : Execution}
  {ctx : ExecutionContext} {ts : Time}

theorem framing_call (op : Op) {Q : Outcome Exn op.Res → World → Prop}
    (preserved : Preserved w (handle env s op).2)
    (post : answered (M := framing env w) Q (handle env s op).1 (handle env s op).2) :
    wp (framing env w) (M.perform op) Q s := by
  refine wp_perform.mpr ⟨preserved, ?_⟩
  intro r t step
  obtain ⟨rfl, rfl⟩ := Prod.mk.inj step
  exact post

theorem Since.next (op : Op) (since : Since w s) (drawn : Drawn s op)
    (preserved : Preserved w (handle env s op).2) :
    Since w (handle env s op).2 :=
  ⟨bounded_handle since.bounded drawn, since.fresh.trans (fresh_le op), preserved⟩

/-- A call that reads. -/
theorem framing_read (op : Op) {a : op.Res} (drawn : Drawn s op)
    (answer : (handle env s op).1 = .ok a) (repo : (handle env s op).2.repo = s.repo)
    (since : Since w s) :
    wp (framing env w) (M.perform op) (ends (Since w) (fun _ _ => False) (fun _ => True)) s := by
  have preserved : Preserved w (handle env s op).2 := by
    obtain ⟨contexts, executions, plans, steps, results, proposals, evaluations, approvals,
      calls⟩ := since.preserved
    constructor
    all_goals rw [repo]; assumption
  refine framing_call op preserved ?_
  rw [answer]
  exact ⟨trivial, since.next op drawn preserved⟩

/-- A call that is answered, and what follows it. -/
theorem framing_ok (op : Op) {α : Type} {a : op.Res} {f : op.Res → M α}
    {Q : Outcome Exn α → World → Prop} (preserved : Preserved w (handle env s op).2)
    (answer : (handle env s op).1 = .ok a) (next : wp (framing env w) (f a) Q (handle env s op).2) :
    wp (framing env w) (M.perform op >>= f) Q s := by
  rw [wp_bind]
  refine framing_call op preserved ?_
  rw [answer]
  exact next

/-- The new execution and its context stand under identifiers that were not in use. -/
theorem createExecution_framed {new : NewExecution} (since : Since w s) :
    wp (framing env w) (createExecution new ts)
    (fun o t => ∃ ex, o = .ret ex ∧ w.fresh ≤ ex.executionId.n ∧
      ex.status = .created ∧ t.execution ex.executionId = some ex ∧
        Framed w ex.executionId t) s := by
  have unused : ∀ n, s.fresh ≤ n → s.repo.executions.get ⟨n⟩ = none ∧
    s.repo.contexts.get ⟨n⟩ = none := by
    refine fun n above => ⟨unused_execution since.bounded above, Table.get_eq_none.mpr
      fun c member same => ?_⟩
    have below := since.bounded.contexts c member
    rw [show c.contextId = ⟨n⟩ from same] at below
    exact absurd above (Nat.not_le.mpr below)
  have first := @Since.next env w s .uuid4 since trivial { since.preserved with }
  have second := @Since.next env w _ .uuid4 first trivial { first.preserved with }
  refine framing_ok .uuid4 first.preserved rfl (framing_ok .uuid4 second.preserved rfl ?_)
  have free : w.repo.contexts.get ⟨s.fresh⟩ = none := since.preserved.contexts.free
    (unused s.fresh (Nat.le_refl _)).2
  have third := @Since.next env w _ (.saveContext (contextOf new ⟨s.fresh⟩ ts)) second
    (Nat.lt_succ_of_le (Nat.le_succ _))
    { second.preserved with contexts := second.preserved.contexts.put free }
  refine framing_ok (.saveContext (contextOf new ⟨s.fresh⟩ ts)) third.preserved rfl ?_
  change wp _ (M.saveExecution (executionOf new ⟨s.fresh + 1⟩ ⟨s.fresh⟩ ts) >>= fun _ =>
    pure (executionOf new ⟨s.fresh + 1⟩ ⟨s.fresh⟩ ts)) _ _
  generalize made : executionOf new ⟨s.fresh + 1⟩ ⟨s.fresh⟩ ts = ex
  have ident : ex.executionId = ⟨s.fresh + 1⟩ := by rw [← made]; rfl
  have created : ex.status = .created := by rw [← made]; rfl
  have unplanned : ex.currentPlanId = none := by rw [← made]; rfl
  have vacant : w.repo.executions.get ex.executionId = none :=
    since.preserved.executions.free (ident ▸ (unused (s.fresh + 1) (Nat.le_succ _)).1)
  have fourth := @Since.next env w _ (.saveExecution ex) third
    (by rw [Drawn, ident]; exact Nat.lt_succ_self _)
    { third.preserved with executions := third.preserved.executions.put vacant }
  refine framing_ok (.saveExecution ex) (a := ()) fourth.preserved rfl ?_
  refine (wp_ret _).mpr ⟨ex, rfl, ?_, created, Table.get_put_self, fourth, ?_, ?_⟩
  · rw [ident]
    exact since.fresh.trans (Nat.le_succ _)
  · refine orderly_created (fun p member own => ?_) (fun x member own => ?_) Table.get_put_self
      created unplanned
    · have below := (since.bounded.plans p member).2
      rw [own, ident] at below
      exact absurd below (Nat.not_lt.mpr (Nat.le_succ _))
    · have below := (since.bounded.steps x member).2
      rw [own, ident] at below
      exact absurd below (Nat.not_lt.mpr (Nat.le_succ _))
  · intro x member own
    have below := (since.bounded.steps x member).2
    rw [own, ident] at below
    exact absurd below (Nat.not_lt.mpr (Nat.le_succ _))

/-- What the child's run is held to. -/
def childCourse (env : Env) (w : World) (child : UUID) : Course where
  env := env
  executionId := child
  passing := False
  answering := False
  calls := fun tc => w.repo.toolCalls.get tc.toolCallId = none
  starts := fun _ _ => True

/-- The tools answer under identifiers that are not in use. -/
def NewCalls (env : Env) (w : World) : Prop :=
  ∀ n request now tc, env.invoke n request now = .ok tc → w.repo.toolCalls.get tc.toolCallId = none

theorem startExecution_framed (bounded : Bounded w) (calls : NewCalls env w)
    (new : w.fresh ≤ child.n) (framed : Framed w child s) (restartable : Restartable child s) :
    wp (framing env w) (engine.startExecution fuel child) (fun _ t => Since w t) s := by
  refine wp_mono ?_ (@wp_of_view _ _ _ (framing env w) (childCourse env w child).sem
    (fun a b => a = b ∧ Framed w child a) ?_ _ _ s s ⟨rfl, framed⟩
    (@startExecution_held (childCourse env w child) s engine fuel (fun _ _ => trivial)
      framed.since.bounded framed.orderly
      restartable))
  · rintro o t ⟨_, ⟨_, framed⟩, _⟩
    exact framed.since
  · rintro a _ op ⟨rfl, framed⟩ ⟨lawful, near, demands⟩
    have called : ∀ tc, op = .saveToolCall tc → w.repo.toolCalls.get tc.toolCallId = none := by
      rintro tc rfl
      exact demands
    have preserved := @Framed.preserves env w a child op framed bounded new lawful near called
    refine ⟨preserved, ?_⟩
    rintro r t step
    obtain ⟨rfl, rfl⟩ := Prod.mk.inj step
    refine ⟨_, ⟨rfl, False.elim, False.elim, ?_⟩, rfl, framed.next lawful preserved⟩
    cases op with
    | invoke request now =>
        cases answer : env.invoke a.asked request now with
        | ok tc =>
            simp only [answer]
            exact calls _ _ _ _ answer
        | error e =>
            simp only [answer]
            trivial
    | _ => trivial

/-- The child as it stands before it is started. -/
def Awaits (w : World) (child : UUID) (t : World) : Prop :=
  w.fresh ≤ child.n ∧ Framed w child t ∧ Restartable child t

theorem createReplayChild_framed (bounded : Bounded w) (since : Since w s) :
    wp (framing env w) (createReplayChild request source ctx ts)
      (fun o t => Since w t ∧ ∀ child provenance, o = .ret (child, provenance) →
        Awaits w child.executionId t) s := by
  have failed : ∀ t, Since w t → ∀ e : Exn, Since w t ∧
    ∀ (child : Execution) (provenance : ReplayProvenance),
      (Outcome.raise e : Outcome Exn (Execution × ReplayProvenance)) = .ret (child, provenance) →
        Awaits w child.executionId t := by
    refine fun t since e => ⟨since, fun child provenance no => ?_⟩
    cases no
  unfold createReplayChild
  refine wp_then wp_ofExcept ?_ ?_
  swap
  · rintro e _ ⟨_, rfl⟩
    exact failed _ since e
  rintro _ _ _ rfl
  refine wp_then wp_ofExcept ?_ ?_
  swap
  · rintro e _ ⟨_, rfl⟩
    exact failed _ since e
  rintro ⟨input, overrides⟩ _ _ rfl
  rw [wp_bind]
  refine wp_mono ?_ (createExecution_framed since)
  rintro _ t ⟨ex, rfl, above, created, stored, framed⟩
  change wp _ (M.updateExecution (replayChild ex input
    (replayProvenance request source overrides ex.executionId ts) ts) >>= fun _ =>
      pure (replayChild ex input
      (replayProvenance request source overrides ex.executionId ts) ts, _)) _ _
  generalize made : replayChild ex input (replayProvenance request source overrides ex.executionId
    ts) ts = child
  have ident : child.executionId = ex.executionId := by rw [← made]; rfl
  have status : child.status = .created := by rw [← made]; exact created
  have plan : child.currentPlanId = ex.currentPlanId := by rw [← made]; rfl
  have lawful : Lawful False ex.executionId t (.updateExecution child) :=
    ⟨ex, stored, ident, .inl (status.trans created.symm), .inl plan,
      fun no => by simp [status] at no, fun no => by simp [status] at no⟩
  have preserved := @Framed.preserves env w t _ _ framed bounded above lawful ident nofun
  have next := framed.next lawful preserved
  have present : (t.repo.executions.get child.executionId).isSome = true := by
    rw [ident, show t.repo.executions.get ex.executionId = some ex from stored]
    rfl
  have answer : (handle env t (.updateExecution child)).1 = .ok () := by
    simp only [handle, present, if_true]
  have written : (handle env t (.updateExecution child)).2.execution child.executionId =
    some child := by
    simp only [handle, present, if_true]
    exact Table.get_put_self
  refine framing_ok (.updateExecution child) preserved answer ?_
  refine (wp_ret _).mpr ⟨next.since, ?_⟩
  rintro _ provenance ⟨⟩
  refine ⟨ident ▸ above, ident ▸ next, fun row found planning => ?_⟩
  obtain rfl := Option.some.inj (written.symm.trans found)
  exact absurd (status.symm.trans planning) (by simp)

theorem replayCreated_framed {provenance : ReplayProvenance} {child : Execution}
    (since : Since w s) :
    wp (framing env w) (replayCreated request source child provenance)
    (fun _ t => Since w t) s := by
  unfold replayCreated
  refine wp_then (framing_read (.getExecution _) trivial rfl rfl since) ?_ fun _ _ no => no.elim
  exact fun _ _ _ since => wp_ite (fun _ => since) fun _ => since

theorem createReplay_framed (bounded : Bounded w) (calls : NewCalls env w) (since : Since w s) :
    wp (framing env w) (engine.createReplay fuel request) (fun _ t => Since w t) s := by
  unfold ExecutionEngine.createReplay
  refine wp_then (framing_read .now trivial rfl rfl since) ?_ fun _ _ no => no.elim
  intro ts t _ since
  refine wp_then (framing_read (.getExecution _) trivial rfl rfl since) ?_ fun _ _ no => no.elim
  intro source t _ since
  cases source with
  | none => exact since
  | some source =>
      refine wp_then (framing_read (.getContext _) trivial rfl rfl since) ?_ fun _ _ no => no.elim
      intro ctx t _ since
      cases ctx with
      | none => exact since
      | some ctx =>
          rw [wp_bind]
          refine wp_mono ?_ (createReplayChild_framed bounded since)
          rintro o u ⟨since, awaits⟩
          cases o with
          | raise e => exact since
          | halt => exact since
          | ret made =>
              obtain ⟨above, framed, restartable⟩ := awaits made.1 made.2 rfl
              refine wp_ite (fun _ => ?_) fun _ => replayCreated_framed since
              exact wp_keeping (startExecution_framed bounded calls above framed restartable)
                fun _ _ since => replayCreated_framed since

/-- Whatever a replay does, and wherever it stands, every row that was stored before is stored as
it was: those of the source and those of every other execution. -/
theorem replay_preserves (env : Env) (engine : ExecutionEngine) (fuel : Nat)
    (request : ReplayRequest) (bounded : Bounded w) (calls : NewCalls env w)
    {rest : M ReplayCreatedResponse}
    (visits : Visits (handle env).sem (engine.createReplay fuel request, w) (rest, t)) :
    Preserved w t := by
  have since : Since w w := ⟨bounded, Nat.le_refl _, .refl⟩
  have views : Views (handle env).sem (framing env w) Eq := by
    rintro a _ op r b rfl _ _ step
    exact ⟨b, step, rfl⟩
  refine visits.keeps views ?_ rfl (createReplay_framed bounded calls since) Preserved.refl
  rintro a _ op r b _ rfl _ preserved step
  obtain ⟨rfl, rfl⟩ := Prod.mk.inj step
  exact preserved

/-- The generic execution 1 is replayed exactly, and the child is run. -/
theorem replay_preserves_generic :
    (run (handle .refusing) ((ExecutionEngine.default .flat).createReplay 6
      { exactReplay with startExecution := true })
      (.created .refusing genericRequest)).2.execution ⟨1⟩ =
        some (executionOf genericRequest ⟨1⟩ ⟨0⟩ 0) := by
  obtain ⟨_, visits, _⟩ := visits_run (handle .refusing)
    ((ExecutionEngine.default .flat).createReplay 6 { exactReplay with startExecution := true })
      (.created .refusing genericRequest)
  have preserved := replay_preserves .refusing (.default .flat) 6
    { exactReplay with startExecution := true }
    (bounded_created .refusing genericRequest) (by rintro _ _ _ _ ⟨⟩) visits
  exact preserved.executions _ _ (by decide)

end
end AgenticPlatform
