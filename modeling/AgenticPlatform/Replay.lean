import AgenticPlatform.Containment
import AgenticPlatform.Sequential

/-! A replay copies the input of its source, and with it the request to cancel. -/
namespace AgenticPlatform
open Interaction ExecutionEngine Store

section
variable {env : Env} {engine : ExecutionEngine} {id : UUID} {T : Table UUID Step → Prop}
  {s : World × Bool}
  {row : Execution}

/-- A live row whose cancellation has been requested. -/
def Requested (row : Execution) : Prop :=
  isCancellationRequested row = true ∧ isExecutionTerminal row.status = false

theorem Requested.of_input {next : Execution} (requested : Requested row)
    (input : next.input = row.input) (live : isExecutionTerminal next.status = false) :
    Requested next := by
  refine ⟨?_, live⟩
  rw [← requested.1]
  simp only [isCancellationRequested, readRuntimeMeta, input]

theorem runLoop_requested {fuel : Nat} (holds : Holds id Requested T s) :
    wp (watched env) (engine.runLoop id (fuel + 1))
      (ends (Holds id (·.status = .cancelled) T) (fun _ _ => False) (fun _ => True)) s := by
  unfold runLoop
  rw [wp_bind]
  refine wp_mono ?_ (holds_get holds)
  rintro _ t ⟨row, rfl, ident, requested, holds⟩
  refine wp_ite (fun _ => ?_) fun no => absurd requested.1 no
  refine wp_then (holds_call rfl rfl rfl holds) ?_ fun _ _ no => no.elim
  intro now t _ holds
  refine wp_mono ?_ (cancelExecution_holds holds)
  intro o u hu
  cases o with
  | ret a =>
      refine ⟨trivial, hu.2.mono ?_ fun _ h => h⟩
      rintro next ⟨_, rfl, status⟩
      simpa [requested.2] using status
  | raise e => exact hu
  | halt => exact hu

/-- A run of a live row with a request cancels it before any step. -/
theorem startExecution_requested {fuel n : Nat}
    (holds : Holds id Requested (pendingSteps id · ≤ n) s) :
    wp (watched env) (engine.startExecution (fuel + 1) id)
      (ends (Holds id (·.status = .cancelled) (fun _ => True)) (fun _ _ => False) (fun _ => True))
        s := by
  unfold startExecution runExecution
  rw [wp_tryCatch, wp_bind]
  refine wp_mono ?_ (holds_get holds)
  rintro _ t ⟨row, rfl, ident, requested, holds⟩
  refine wp_then (holds_call rfl rfl rfl holds) ?_ fun _ _ no => no.elim
  intro now t _ holds
  refine wp_ite (fun terminal => absurd terminal (by simp [requested.2])) fun _ => ?_
  rw [wp_bind]
  refine wp_mono ?_ (enterPlanning_holds ident holds)
  rintro _ t ⟨next, rfl, ident, holds, planned⟩
  have requested : Requested next := by
    rcases planned with rfl | ⟨_, rfl⟩
    · exact requested
    · exact requested.of_input rfl rfl
  refine wp_then (enterExecuting_holds ident holds) ?_ fun _ _ no => no.elim
  intro _ t _ holds
  refine wp_mono ?_ (runLoop_requested (holds.mono (N := Requested) ?_ fun _ _ => trivial))
  · intro o u hu
    cases o with
    | ret a => exact hu
    | raise e => exact hu.elim
    | halt => exact hu
  · rintro final (⟨_, rfl⟩ | ⟨_, executing, input⟩)
    · exact requested
    · exact requested.of_input input (by rw [executing]; rfl)

/-- A run alone of a row without a request never cancels it. -/
theorem startExecution_calm {fuel : Nat} {u : World} (stored : u.execution id = some row)
    (calm : Calm row) {last : Execution}
    (known : (run (handle env) (engine.startExecution fuel id) u).2.execution id = some last) :
    last.status ≠ .cancelled := by
  have agrees : Agrees u (RowView.unseen.see id (some row)) := by
    refine ⟨fun j seen view => ?_, fun _ no => absurd no List.not_mem_nil⟩
    rw [RowView.see_rows] at view
    split at view
    · next same => exact same ▸ stored.trans view
    · exact absurd view (by simp [RowView.unseen])
  have spec : wp (rowSem True True) (engine.startExecution fuel id) (fun _ _ => True)
      (RowView.unseen.see id (some row)) :=
    startExecution_rows fun _ => ⟨trivial, row, by simp, calm⟩
  obtain ⟨q, visits, _⟩ := visits_run (handle env) (engine.startExecution fuel id) u
  obtain ⟨end_, found, calms⟩ := visits.keeps handle_views
    (I := fun t => ∃ row, t.execution id = some row ∧ Calm row) (by
      rintro w v op r t ⟨row₁, stored₁, calm₁⟩ agrees _ allowed step
      obtain ⟨row₂, stored₂, _, _, calms⟩ := step_alone agrees allowed step stored₁
      exact ⟨row₂, stored₂, calms trivial calm₁⟩) agrees spec ⟨row, stored, calm⟩
  obtain rfl := Option.some.inj (known.symm.trans found)
  exact calms.2

end

/-- A call of the store alone. -/
theorem handle_call {env : Env} {w : World} {op : Op} {a : op.Res}
    (answer : (handle env w op).1 = .ok a) :
    wp (handle env).sem (M.perform op)
    (ends (· = (handle env w op).2) (fun _ _ => False) (· = a)) w := by
  refine wp_perform.mpr ⟨trivial, ?_⟩
  rintro r t step
  obtain rfl : (handle env w op).1 = r := congrArg Prod.fst step
  obtain rfl : (handle env w op).2 = t := congrArg Prod.snd step
  rw [answer]
  exact ⟨rfl, rfl⟩

section
variable {request : ReplayRequest} {source child : Execution} {ctx : ExecutionContext} {ts : Time}

/-- The runtime metadata are copied with the input. -/
theorem replayInput_meta {input overrides : Dict}
    (made : replayInput request source = .ok (input, overrides))
    (unset : request.replayMode = .investigative → (request.inputOverrides.getD []).get?
      orchRuntimeMetaKey = none) :
    input.get? orchRuntimeMetaKey = source.input.get? orchRuntimeMetaKey := by
  have base : (stripReplayMetadata source.input).get? orchRuntimeMetaKey =
      source.input.get? orchRuntimeMetaKey := by
    rw [stripReplayMetadata, Dict.get?_pop, if_neg (by decide)]
  unfold replayInput at made
  cases mode : request.replayMode with
  | exact =>
      simp only [mode] at made
      obtain ⟨rfl, rfl⟩ := Prod.mk.inj (Except.ok.inj made)
      exact base
  | investigative =>
      simp only [mode] at made
      split at made
      · exact absurd made (by simp)
      · obtain ⟨rfl, rfl⟩ := Prod.mk.inj (Except.ok.inj made)
        rw [Dict.get?_merge_of_absent (unset mode), base]

theorem replayChild_requested {input overrides : Dict}
    (made : replayInput request source = .ok (input, overrides))
    (unset : request.replayMode = .investigative → (request.inputOverrides.getD []).get?
      orchRuntimeMetaKey = none)
    (provenance : ReplayProvenance) :
    isCancellationRequested (replayChild child input provenance ts) =
      isCancellationRequested source := by
  have same : (replayChild child input provenance ts).input.get? orchRuntimeMetaKey =
      source.input.get? orchRuntimeMetaKey := by
    simp only [replayChild, appendTimeline]
    rw [Dict.get?_set, if_neg (by decide), replayInput_meta made unset]
  simp only [isCancellationRequested, readRuntimeMeta, Dict.get, same]

/-- A new execution is stored as it is returned. -/
theorem createExecution_stored {env : Env} {w : World} {new : NewExecution} :
    wp (handle env).sem (createExecution new ts) (fun o u => ∃ executionId contextId,
      o = .ret (executionOf new executionId contextId ts) ∧
        u.execution executionId = some (executionOf new executionId contextId ts)) w := by
  refine wp_then (handle_call rfl) ?_ fun _ _ => False.elim
  rintro contextId _ _ rfl
  refine wp_then (handle_call rfl) ?_ fun _ _ => False.elim
  rintro executionId _ _ rfl
  refine wp_then (handle_call rfl) ?_ fun _ _ => False.elim
  rintro _ _ _ rfl
  refine wp_then (handle_call rfl) ?_ fun _ _ => False.elim
  rintro _ _ _ rfl
  refine ⟨executionId, contextId, rfl, ?_⟩
  exact Table.get_put_self (r := executionOf new executionId contextId ts)

/-- The child is stored as it was made, in CREATED and with the request of its source. -/
theorem createReplayChild_stored {env : Env} (w : World)
    (unset : request.replayMode = .investigative → (request.inputOverrides.getD []).get?
      orchRuntimeMetaKey = none) :
    wp (handle env).sem (createReplayChild request source ctx ts)
      (fun o u => ∀ child provenance, o = .ret (child, provenance) → child.status = .created ∧
        provenance.createdExecutionId = child.executionId ∧
          u.execution child.executionId = some child ∧
        isCancellationRequested child = isCancellationRequested source) w := by
  unfold createReplayChild
  refine wp_then wp_ofExcept ?_ fun _ _ _ _ _ no => by cases no
  rintro _ _ _ rfl
  refine wp_then wp_ofExcept ?_ fun _ _ _ _ _ no => by cases no
  rintro ⟨input, overrides⟩ _ made rfl
  rw [wp_bind]
  refine wp_mono ?_ createExecution_stored
  rintro _ u ⟨executionId, contextId, rfl, stored⟩
  let child := replayChild (executionOf (replayExecution request source ctx) executionId
    contextId ts) input
    (replayProvenance request source overrides executionId ts) ts
  have present : (u.repo.executions.get child.executionId).isSome = true := by
    rw [show u.repo.executions.get child.executionId = _ from stored]
    rfl
  have updated : handle env u (.updateExecution child) =
      (.ok (), { u with repo := { u.repo with executions := u.repo.executions.put child } }) := by
    simp only [handle, present, if_true]
  have known : (handle env u (.updateExecution child)).2.execution child.executionId =
    some child := by
    rw [updated]
    exact Table.get_put_self
  refine wp_then (handle_call (congrArg Prod.fst updated)) ?_ fun _ _ => False.elim
  rintro _ _ _ rfl _ _ ⟨⟩
  exact ⟨rfl, rfl, known, replayChild_requested made unset _⟩

/-- The row of a replay as it was made: it is stored when the call returns, or it is what the
call started. -/
structure CreatedBy (env : Env) (engine : ExecutionEngine) (fuel : Nat) (request : ReplayRequest)
    (response : ReplayCreatedResponse) (after : World) (child : Execution) : Prop where
  ident : response.provenance.createdExecutionId = child.executionId
  status : child.status = .created
  stored : ∃ u, u.execution child.executionId = some child ∧
    after = if request.startExecution then
      (run (handle env) (engine.startExecution fuel child.executionId) u).2 else u

theorem createReplay_created {env : Env} {engine : ExecutionEngine} {fuel : Nat} {w : World}
    (stored : w.execution request.sourceExecutionId = some source)
    (unset : request.replayMode = .investigative → (request.inputOverrides.getD []).get?
      orchRuntimeMetaKey = none) :
    wp (handle env).sem (engine.createReplay fuel request)
    (fun o after => ∀ response, o = .ret response →
      ∃ child, CreatedBy env engine fuel request response after child ∧
        isCancellationRequested child = isCancellationRequested source) w := by
  unfold ExecutionEngine.createReplay
  refine wp_then (handle_call rfl) ?_ fun _ _ => False.elim
  rintro ts _ _ rfl
  refine wp_then (handle_call (congrArg Except.ok stored)) ?_ fun _ _ => False.elim
  rintro _ _ rfl rfl
  refine wp_then (handle_call rfl) ?_ fun _ _ => False.elim
  rintro ctx _ _ rfl
  cases ctx with
  | none => exact fun _ no => by cases no
  | some ctx =>
      rw [wp_bind]
      refine wp_mono ?_ (createReplayChild_stored _ unset)
      intro o u made
      cases o with
      | raise e => exact fun _ no => by cases no
      | halt => exact fun _ no => by cases no
      | ret pair =>
          obtain ⟨child, provenance⟩ := pair
          obtain ⟨status, ident, known, requested⟩ := made child provenance rfl
          have answered : ∀ last final, final = (if request.startExecution then
                (run (handle env) (engine.startExecution fuel child.executionId) u).2 else u) →
              wp (handle env).sem (replayCreated request source last provenance)
                (fun o after => ∀ response, o = .ret response →
                  ∃ child, CreatedBy env engine fuel request response after child ∧
                    isCancellationRequested child = isCancellationRequested source) final := by
            intro last final ran
            refine wp_then (handle_call rfl) ?_ fun _ _ => False.elim
            rintro _ _ rfl rfl
            refine wp_ite (fun _ _ no => by cases no) fun _ => ?_
            rintro _ ⟨⟩
            exact ⟨child, ⟨ident, status, u, known, ran⟩, requested⟩
          refine wp_ite (fun started => ?_) fun idle => answered child u (by rw [if_neg idle])
          rw [wp_bind, wp_sem_iff]
          cases ended : (run (handle env) (engine.startExecution fuel child.executionId) u).1 with
          | ret last => exact answered last _ (by rw [if_pos started])
          | raise e => exact fun _ no => by cases no
          | halt => exact fun _ no => by cases no

/-- No run of the row as it is stored, by itself, ends in CANCELLED. -/
def NeverCancelled (env : Env) (engine : ExecutionEngine) (row : Execution) : Prop :=
  ∀ fuel u last, u.execution row.executionId = some row →
    (run (handle env) (engine.startExecution fuel row.executionId) u).2.execution
      row.executionId = some last →
    last.status ≠ .cancelled

/-- A created row is never cancelled by its own runs if and only if no cancellation of it has
been requested. -/
theorem neverCancelled_iff {env : Env} {engine : ExecutionEngine} {u : World}
    (known : u.execution child.executionId = some child) (created : child.status = .created) :
    NeverCancelled env engine child ↔ isCancellationRequested child = false := by
  constructor
  · intro never
    by_contra requested
    have requested : Requested child := ⟨by simpa using requested, by rw [created]; rfl⟩
    have holds : Holds child.executionId Requested
        (pendingSteps child.executionId · ≤ pendingSteps child.executionId u.repo.steps)
          (u, false) :=
      ⟨rfl, ⟨child, known, requested⟩, Nat.le_refl _⟩
    have spec := (wp_sem_iff _ _ _ _).mp (@startExecution_requested env engine _ _ 0 _ holds)
    have state :=
      (run_watch escapes (handle env) (engine.startExecution 1 child.executionId) (u, false)).2
    cases ended : (run (watch escapes (handle env)) (engine.startExecution 1 child.executionId)
      (u, false)).1 with
    | ret ex =>
        rw [ended] at spec
        obtain ⟨last, found, cancelled⟩ := spec.2.stored
        exact never 1 u last known (state ▸ found) cancelled
    | raise e =>
        rw [ended] at spec
        exact spec
    | halt =>
        rw [ended] at spec
        exact spec
  · exact fun calm fuel w last stored found => startExecution_calm stored
      ⟨calm, by simp [created]⟩ found

/-- The child of a replay starts without a request to cancel, and is not cancelled by its runs,
if and only if its source carries no request. -/
theorem replay_uncancelled_iff (env : Env) (engine : ExecutionEngine) (fuel : Nat) {w : World}
    {response : ReplayCreatedResponse}
    (stored : w.execution request.sourceExecutionId = some source)
    (unset : request.replayMode = .investigative → (request.inputOverrides.getD []).get?
      orchRuntimeMetaKey = none)
    (returned : (run (handle env) (engine.createReplay fuel request) w).1 = .ret response) :
    ∃ child, CreatedBy env engine fuel request response
        (run (handle env) (engine.createReplay fuel request) w).2 child ∧
      (isCancellationRequested child = false ↔ isCancellationRequested source = false) ∧
      (NeverCancelled env engine child ↔ isCancellationRequested source = false) := by
  have spec := (wp_sem_iff _ _ _ _).mp (@createReplay_created _ _ env engine fuel _ stored unset)
  obtain ⟨child, created, requested⟩ := spec response returned
  obtain ⟨u, known, _⟩ := created.stored
  refine ⟨child, created, by rw [requested], ?_⟩
  rw [← requested]
  exact neverCancelled_iff known created.status

end

/-- An exact replay of the execution 1, to be started later. -/
def exactReplay : ReplayRequest where
  sourceExecutionId := ⟨1⟩
  replayMode := .exact
  environmentTarget := "dev"
  anchorPlanId := none
  overridePlan := none
  inputOverrides := none
  reason := none
  requestedBy := none
  executionMode := none
  label := none
  startExecution := false

theorem replay_uncancelled_of_created : ∃ response child, CreatedBy .refusing
    (.default .flat) 0 exactReplay response
    (run (handle .refusing) ((ExecutionEngine.default .flat).createReplay 0 exactReplay)
      (.created .refusing genericRequest)).2 child ∧
    isCancellationRequested child = false ∧ NeverCancelled .refusing (.default .flat) child := by
  have stored : (World.created .refusing genericRequest).execution exactReplay.sourceExecutionId =
      some (executionOf genericRequest ⟨1⟩ ⟨0⟩ 0) := by decide
  have answers :
    (run (handle .refusing) ((ExecutionEngine.default .flat).createReplay 0 exactReplay)
      (.created .refusing genericRequest)).1.isRet = true := by decide
  obtain ⟨response, returned⟩ := Outcome.isRet_iff.mp answers
  obtain ⟨child, created, calm, never⟩ :=
    replay_uncancelled_iff .refusing (.default .flat) 0 stored (fun no => by cases no) returned
  exact ⟨response, child, created, calm.mpr (by decide), never.mpr (by decide)⟩

/-- The exact replay of an execution that was cancelled starts with the request of its source. -/
theorem replay_inherits_cancellation : ¬ ∀ (env : Env) (engine : ExecutionEngine) (fuel : Nat)
    (request : ReplayRequest) (w : World) (source : Execution) (response : ReplayCreatedResponse),
    w.execution request.sourceExecutionId = some source →
    (request.replayMode = .investigative → (request.inputOverrides.getD []).get?
      orchRuntimeMetaKey = none) →
    (run (handle env) (engine.createReplay fuel request) w).1 = .ret response →
    ∃ child, CreatedBy env engine fuel request response
        (run (handle env) (engine.createReplay fuel request) w).2 child ∧
      isCancellationRequested child = false ∧ NeverCancelled env engine child := by
  intro uncancelled
  have flagged : (afterCancellation.execution ⟨1⟩).map isCancellationRequested = some true := by
    decide
  obtain ⟨source, stored, requested⟩ := Option.map_eq_some_iff.mp flagged
  have exact_ : exactReplay.replayMode = .investigative →
      (exactReplay.inputOverrides.getD []).get? orchRuntimeMetaKey = none := fun no => by cases no
  have answers :
    (run (handle .refusing) ((ExecutionEngine.default .flat).createReplay 0 exactReplay)
      afterCancellation).1.isRet = true := by decide
  obtain ⟨response, returned⟩ := Outcome.isRet_iff.mp answers
  obtain ⟨child, created, calm, _⟩ :=
    uncancelled .refusing (.default .flat) 0 exactReplay afterCancellation source response stored
      exact_ returned
  obtain ⟨copy, copied, same⟩ := (wp_sem_iff _ _ _ _).mp (createReplay_created stored exact_)
    response returned
  -- both are the row that the call has stored
  obtain ⟨u, found, after⟩ := created.stored
  obtain ⟨v, again, after'⟩ := copied.stored
  obtain rfl : u = v := after.symm.trans after'
  rw [created.ident.symm.trans copied.ident, again] at found
  obtain rfl := Option.some.inj found
  rw [same, requested] at calm
  exact absurd calm (by simp)

end AgenticPlatform
