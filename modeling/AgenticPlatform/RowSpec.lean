import AgenticPlatform.ExecutionService
import AgenticPlatform.EngineSpec
import AgenticPlatform.Rows

/-! Every operation keeps the row discipline: each row it writes is one step away from the
row it last read or wrote. With `alone` no other operation runs meanwhile, so that a
read returns what is known of the row, and a row that has ended is only given a new input. With
`calm` moreover no cancellation has been requested, and none of the writes cancels. -/
namespace AgenticPlatform
open Interaction ExecutionEngine

/-- What an operation has seen: the last version of each row that it read or wrote, and the
steps that it listed. -/
structure RowView where
  rows : UUID → Option Execution
  listed : List Step

namespace RowView

def unseen : RowView := ⟨fun _ => none, []⟩

def see (s : RowView) (executionId : UUID) (row : Option Execution) : RowView :=
  { s with rows := Function.update s.rows executionId row }

@[simp] theorem see_rows_self (s : RowView) (executionId : UUID) (row : Option Execution) :
    (s.see executionId row).rows executionId = row := by simp [see]

theorem see_rows (s : RowView) (executionId : UUID) (row : Option Execution) (id : UUID) :
    (s.see executionId row).rows id = if id = executionId then row else s.rows id := by
  simp [see, Function.update_apply]

end RowView

def observeRows : Observer platform Exn RowView
  | s, .getExecution id, .ok o => s.see id o
  | s, .updateExecution ex, .ok _ => s.see ex.executionId (some ex)
  | s, .listStepsForExecution _, .ok steps => { s with listed := steps }
  | s, .saveStep _, _ => { s with listed := [] }
  | s, .updateStep _, _ => { s with listed := [] }
  | s, _, _ => s

/-- The answers that the store can give. -/
def rowAnswer (alone : Prop) (s : RowView) : (op : Op) → Except Exn op.Res → Prop
  | .getExecution id, r => ∃ o, r = .ok o ∧ (∀ ex, o = some ex → ex.executionId = id) ∧
      (alone → ∀ row, s.rows id = some row → o = some row)
  | .listStepsForExecution id, r => ∃ steps, r = .ok steps ∧ ∀ step ∈ steps, step.executionId = id
  | .getStepResult _, r => ∃ o, r = .ok o
  | .getStep id, r => ∃ o, r = .ok o ∧ (alone → ∀ step ∈ s.listed, step.stepId = id → o = some step)
  | _, _ => True

/-- A row from which no cancellation comes. -/
def Calm (row : Execution) : Prop := isCancellationRequested row = false ∧ row.status ≠ .cancelled

def rowAllowed (alone calm : Prop) (s : RowView) : Op → Prop
  | .updateExecution ex => ∃ row, s.rows ex.executionId = some row ∧ RowStep row ex ∧
      (alone → isExecutionTerminal row.status = true → ∃ d, ex = { row with input := d }) ∧
      (calm → Calm row → Calm ex)
  | .saveExecution _ => False
  | _ => True

abbrev rowSem (alone calm : Prop) : Semantics platform Exn where
  State := RowView
  step := fun s op r t => rowAnswer alone s op r ∧ t = observeRows s op r
  ok := rowAllowed alone calm

section
variable {alone calm : Prop} {id : UUID} {s : RowView}

theorem observeRows_quiet {caught : Bool} {op : Op} (quiet : op.quiet caught = true)
    (r : Except Exn op.Res) : (observeRows s op r).rows = s.rows := by
  cases op <;> first | (cases r <;> rfl) | exact absurd quiet (by simp [Op.quiet])

theorem quiet_allowed {caught : Bool} {op : Op} (quiet : op.quiet caught = true) :
    rowAllowed alone calm s op := by
  cases op <;> trivial

/-- Reading a row. -/
theorem row_get : wp (rowSem alone calm) (M.getExecution id)
    (fun o t => ∃ row, o = .ret row ∧ t = s.see id row ∧
      (∀ ex, row = some ex → ex.executionId = id) ∧
      (alone → ∀ known, s.rows id = some known → row = some known)) s := by
  refine wp_perform.mpr ⟨trivial, ?_⟩
  rintro r t ⟨⟨o, rfl, keyed, same⟩, rfl⟩
  exact ⟨o, rfl, rfl, keyed, same⟩

theorem row_getStep {stepId : UUID} : wp (rowSem alone calm) (M.getStep stepId)
    (ends (· = s) (fun _ _ => False)
      (fun o => alone → ∀ step ∈ s.listed, step.stepId = stepId → o = some step)) s := by
  refine wp_perform.mpr ⟨trivial, ?_⟩
  rintro r t ⟨⟨o, rfl, same⟩, seen⟩
  exact ⟨same, seen⟩

/-- Listing steps: all of them belong to the execution. -/
theorem row_list : wp (rowSem alone calm) (M.listStepsForExecution id)
    (fun o t => ∃ steps, o = .ret steps ∧ t.rows = s.rows ∧ t.listed = steps ∧
      ∀ step ∈ steps, step.executionId = id) s := by
  refine wp_perform.mpr ⟨trivial, ?_⟩
  rintro r t ⟨⟨steps, rfl, owned⟩, rfl⟩
  exact ⟨steps, rfl, rfl, rfl, owned⟩

/-- Writing a row. -/
theorem row_update {ex : Execution} (row : Execution) (seen : s.rows ex.executionId = some row)
    (step : RowStep row ex) (ended : alone → isExecutionTerminal row.status = true →
      ∃ d, ex = { row with input := d })
    (calms : calm → Calm row → Calm ex) :
    wp (rowSem alone calm) (M.updateExecution ex)
      (ends (· = s.see ex.executionId (some ex)) (fun _ t => t = s) (fun _ => True)) s := by
  refine wp_perform.mpr ⟨⟨row, seen, step, ended, calms⟩, ?_⟩
  rintro r t ⟨_, rfl⟩
  cases r with
  | ok u => exact ⟨trivial, rfl⟩
  | error e => rfl

/-- A call that no row depends on. -/
theorem row_other {op : Op} (allowed : rowAllowed alone calm s op)
    (same : ∀ r, (observeRows s op r).rows = s.rows) :
    wp (rowSem alone calm) (M.perform op)
      (ends (fun t => t.rows = s.rows) (fun _ t => t.rows = s.rows) (fun _ => True)) s := by
  refine wp_perform.mpr ⟨allowed, ?_⟩
  rintro r t ⟨_, rfl⟩
  cases r with
  | ok a => exact ⟨trivial, same _⟩
  | error e => exact same _

theorem row_quiet (caught : Bool) {op : Op} (quiet : op.quiet caught = true) :
    wp (rowSem alone calm) (M.perform op)
      (ends (fun t => t.rows = s.rows) (fun _ t => t.rows = s.rows) (fun _ => True)) s :=
  row_other (quiet_allowed quiet) (observeRows_quiet quiet)

/-- Storing a step or its result. -/
theorem row_step {op : Op}
    (isStep : (∃ st, op = .updateStep st) ∨ (∃ r, op = .saveStepResult r) ∨
      (∃ st, op = .saveStep st)) :
    wp (rowSem alone calm) (M.perform op)
      (ends (fun t => t.rows = s.rows) (fun _ t => t.rows = s.rows) (fun _ => True)) s := by
  refine row_other ?_ fun r => ?_
  · obtain ⟨st, rfl⟩ | ⟨r, rfl⟩ | ⟨st, rfl⟩ := isStep <;> trivial
  · obtain ⟨st, rfl⟩ | ⟨r, rfl⟩ | ⟨st, rfl⟩ := isStep <;> cases r <;> rfl

/-- What is known of the row while an operation works on it. -/
def Held (alone calm : Prop) (id : UUID) (s : RowView) : Prop :=
  alone → ∃ row, s.rows id = some row ∧ isExecutionTerminal row.status = false ∧ (calm → Calm row)

theorem Held.of_rows {t : RowView} (held : Held alone calm id s) (same : t.rows = s.rows) :
    Held alone calm id t := by
  rw [Held, same]
  exact held

/-- The row that is read while it is held. -/
theorem Held.read (held : Held alone calm id s) {o : Option Execution}
    (same : alone → ∀ row, s.rows id = some row → o = some row) (onAlone : alone) :
    ∃ row, o = some row ∧ isExecutionTerminal row.status = false ∧ (calm → Calm row) := by
  obtain ⟨row, seen, live, calms⟩ := held onAlone
  exact ⟨row, same onAlone row seen, live, calms⟩

theorem held_see {ex : Execution} (known : alone → isExecutionTerminal ex.status = false ∧
      (calm → Calm ex)) :
    Held alone calm id (s.see id (some ex)) :=
  fun onAlone => ⟨ex, by simp, known onAlone⟩

theorem recordTrace_rows {events : List Event} {now : Time} (plain : ∀ event ∈ events, event.Plain)
    (held : Held alone calm id s) :
    wp (rowSem alone calm) (recordTrace id events now)
      (ends (Held alone calm id) (fun _ => Held alone calm id) (fun _ => True)) s := by
  unfold recordTrace
  rw [wp_bind]
  refine wp_mono ?_ row_get
  rintro _ _ ⟨o, rfl, rfl, keyed, same⟩
  cases o with
  | none => exact ⟨trivial, fun onAlone => by simpa using (held.read same onAlone).choose_spec.1⟩
  | some row =>
      have known : alone → isExecutionTerminal row.status = false ∧ (calm → Calm row) := by
        intro onAlone
        obtain ⟨r, eq, live, calms⟩ := held.read same onAlone
        obtain rfl := Option.some.inj eq
        exact ⟨live, calms⟩
      obtain rfl := keyed row rfl
      have traced : Traced row (appendEvents row events now) := Traced.refl.events plain
      have status : (appendEvents row events now).status = row.status := traced.status
      have ident : (appendEvents row events now).executionId = row.executionId :=
        (RowStep.trace traced).executionId
      have calms : Calm row → Calm (appendEvents row events now) := by
        rw [appendEvents_eq]
        exact fun c => c
      refine wp_mono ?_ (row_update row (by simp [ident]) (.trace traced) ?_ fun _ => calms)
      · intro o t ht
        cases o with
        | ret u =>
            obtain ⟨_, rfl⟩ := ht
            rw [ident]
            exact ⟨trivial, held_see fun onAlone =>
              ⟨status ▸ (known onAlone).1, fun onCalm => calms ((known onAlone).2 onCalm)⟩⟩
        | raise e =>
            obtain rfl := ht
            exact held_see known
        | halt => exact ht
      · intro onAlone terminal
        simp [(known onAlone).1] at terminal

theorem work_rows {caught : Bool} {β : Type} {p : M β} {R : β → Prop} {s : RowView}
    (block : WorkBlock False .any id caught p R) (held : Held alone calm id s) :
    wp (rowSem alone calm) p (ends (Held alone calm id) (fun _ => Held alone calm id) R) s := by
  cases block with
  | quiet op quiet within =>
      refine wp_mono ?_ (row_quiet caught quiet)
      intro o t ht
      cases o with
      | ret a => exact ⟨⟨fun no => no.elim, op.shows_any a⟩, held.of_rows ht.2⟩
      | raise e => exact held.of_rows ht
      | halt => exact ht
  | row =>
      refine wp_mono ?_ row_get
      rintro _ _ ⟨o, rfl, rfl, keyed, same⟩
      refine ⟨⟨fun _ _ => trivial, False.elim⟩, fun onAlone => ?_⟩
      obtain ⟨row, rfl, known⟩ := held.read same onAlone
      exact ⟨row, by simp, known⟩
  | trace events now working => exact recordTrace_rows (fun e member => (working e member).1) held

theorem stepWork_rows {engine : ExecutionEngine} {step : Step} {now : Time}
    (running : step.status = .running) (held : Held alone calm step.executionId s) :
    wp (rowSem alone calm) (engine.stepWork step now)
      (ends (Held alone calm step.executionId) (fun _ => Held alone calm step.executionId)
        (ResultOf False step)) s :=
  Guarded.wp (M := rowSem alone calm) (I := Held alone calm step.executionId)
    (fun _ _ _ block held => work_rows block held) (fun _ _ _ block held => work_rows block held)
    (fun _ _ _ h => h) (stepWork_work running) s held

theorem completionEvents_working {done : Step} {result : StepResult} :
    ∀ event ∈ completionEvents done result, event.Working := by
  intro event member
  rcases List.mem_cons.mp member with rfl | later
  · exact working_one (by decide) rfl _ List.mem_cons_self
  · split at later
    · exact working_one (by decide) rfl event later
    · exact absurd later List.not_mem_nil

theorem completionEvents_plain {done : Step} {result : StepResult} :
    ∀ event ∈ completionEvents done result, event.Plain :=
  fun event member => (completionEvents_working event member).1

/-- A step is run on a row that is held, and leaves it held. -/
theorem runStep_rows {engine : ExecutionEngine} {step : Step} {now : Time}
    (held : Held alone calm id s) (listed : step ∈ s.listed) (owned : step.executionId = id) :
    wp (rowSem alone calm) (engine.runStep step now)
      (ends (Held alone calm id) (fun _ _ => True) (fun _ => True)) s := by
  unfold runStep
  refine wp_then row_getStep ?_ fun _ _ impossible => impossible.elim
  rintro o _ same rfl
  cases o with
  | none => trivial
  | some fresh =>
      -- alone, the row that is read again is the listed one, so it belongs to this execution
      have mine : alone → fresh.executionId = id := fun onAlone =>
        Option.some.inj (same onAlone step listed rfl) ▸ owned
      have held : Held alone calm fresh.executionId _ := fun onAlone => mine onAlone ▸ held onAlone
      refine wp_then wp_ofExcept ?_ fun _ _ _ => trivial
      rintro _ _ _ rfl
      refine wp_then (row_step (.inl ⟨_, rfl⟩)) ?_ fun _ _ _ => trivial
      intro _ t _ rows
      refine wp_then (recordTrace_rows (plain_one (by decide) rfl) (held.of_rows rows)) ?_
        fun _ _ _ => trivial
      intro _ t _ held
      refine wp_then (stepWork_rows rfl held) ?_ fun _ _ _ => trivial
      intro result t _ held
      refine wp_then (row_step (.inr (.inl ⟨_, rfl⟩))) ?_ fun _ _ _ => trivial
      intro _ t _ rows
      have held := held.of_rows rows
      refine wp_then wp_ofExcept ?_ fun _ _ _ => trivial
      rintro _ _ _ rfl
      refine wp_then (row_step (.inl ⟨_, rfl⟩)) ?_ fun _ _ _ => trivial
      intro _ t _ rows
      refine wp_mono ?_ (recordTrace_rows completionEvents_plain (held.of_rows rows))
      intro o t ht
      cases o with
      | ret u => exact ⟨trivial, fun onAlone => mine onAlone ▸ ht.2 onAlone⟩
      | raise e => trivial
      | halt => exact ht

theorem Reads.rows {α : Type} {p : M α} (reads : Reads p) :
    Interaction.wp (rowSem alone calm) p (ends (· = s) (fun _ _ => False) (fun _ => True)) s := by
  refine reads.wp (S := rowSem alone calm) (fun _ _ => trivial) ?_ s
  rintro t stepId r u ⟨⟨o, rfl⟩, rfl⟩
  exact ⟨rfl, o, rfl⟩

theorem cancelExecution_rows {reason : String} {ts : Time} (noCalm : ¬ calm) :
    wp (rowSem alone calm) (cancelExecution id reason ts) (fun _ _ => True) s := by
  unfold cancelExecution
  rw [wp_bind]
  refine wp_mono ?_ row_get
  rintro _ _ ⟨o, rfl, rfl, keyed, same⟩
  cases o with
  | none => trivial
  | some row =>
      obtain rfl := keyed row rfl
      obtain ⟨input, requested⟩ := requestCancellationMeta_eq row ts reason
      simp only [andThen_ret, requested]
      have rewritten : wp (rowSem alone calm)
          (M.updateExecution { row with input := input } >>= fun _ =>
            pure { row with input := input })
          (fun _ _ => True) (s.see row.executionId (some row)) :=
        wp_then (row_update row (by simp) (.input input) (fun _ _ => ⟨input, rfl⟩)
          fun onCalm => absurd onCalm noCalm) (fun _ _ _ _ => trivial) fun _ _ _ => trivial
      refine wp_ite (fun _ => rewritten) fun live => ?_
      split
      · exact rewritten
      · next allowed =>
          have live : isExecutionTerminal row.status = false := by simpa using live
          refine wp_then (row_update row (by simp) ?_ ?_
            fun onCalm => absurd onCalm noCalm) (fun _ _ _ _ => trivial) fun _ _ _ => trivial
          · exact .status <| enterStatus_step (abort_allowed live).2 ⟨rfl, rfl⟩ (by decide)
              ⟨rfl, rfl, rfl, rfl, fun no => absurd rfl no⟩
          · exact fun _ terminal => by simp [live] at terminal

theorem failExecution_rows {reason : String} :
    wp (rowSem alone calm) (failExecution id reason) (fun _ _ => True) s := by
  unfold failExecution
  refine wp_then (row_quiet false rfl) ?_ fun _ _ _ => trivial
  intro ts t _ _
  rw [wp_bind]
  refine wp_mono ?_ row_get
  rintro _ _ ⟨o, rfl, rfl, keyed, same⟩
  cases o with
  | none => trivial
  | some row =>
      obtain rfl := keyed row rfl
      refine wp_ite (fun _ => trivial) fun live => ?_
      split
      · trivial
      · have live : isExecutionTerminal row.status = false := by simpa using live
        refine wp_then (row_update row (by simp) ?_ ?_ ?_)
          (fun _ _ _ _ => trivial) fun _ _ _ => trivial
        · exact .status <| enterStatus_step (abort_allowed live).1 ⟨rfl, rfl⟩ (by decide)
            ⟨rfl, rfl, rfl, rfl, fun _ => rfl⟩
        · exact fun _ terminal => by simp [live] at terminal
        · exact fun _ known => ⟨known.1, by simp⟩

/-- The row that is to be written next is the one that was last seen. -/
structure Seen (calm : Prop) (id : UUID) (s : RowView) (row : Execution) : Prop where
  executionId : row.executionId = id
  rows : s.rows id = some row
  calms : calm → Calm row

theorem Seen.of_rows {row : Execution} {t : RowView} (seen : Seen calm id s row)
    (same : t.rows = s.rows) :
    Seen calm id t row := ⟨seen.executionId, same ▸ seen.rows, seen.calms⟩

/-- A row that is seen moves to another status. -/
theorem seen_update {row ex : Execution} (seen : Seen calm id s row)
    (live : isExecutionTerminal row.status = false) (moved : StatusStep row ex)
    (kept : ex.status ≠ .cancelled) :
    wp (rowSem alone calm) (M.updateExecution ex)
      (ends (fun t => Seen calm id t ex) (fun _ _ => True) (fun _ => True)) s := by
  have ident : ex.executionId = id := moved.executionId.trans seen.executionId
  have calms : Calm row → Calm ex := fun known => by
    refine ⟨?_, kept⟩
    have input := moved.input kept
    simpa [isCancellationRequested, readRuntimeMeta, input] using known.1
  refine wp_mono ?_ (row_update row (ident ▸ seen.rows) (.status moved) ?_ fun _ => calms)
  · intro o t ht
    cases o with
    | ret u =>
        obtain ⟨_, rfl⟩ := ht
        exact ⟨trivial, ident, by simp [ident], fun onCalm => calms (seen.calms onCalm)⟩
    | raise e => trivial
    | halt => exact ht
  · exact fun _ terminal => by simp [live] at terminal

theorem enterPlanning_rows {row : Execution} {now : Time} (seen : Seen calm id s row)
    (live : isExecutionTerminal row.status = false) :
    wp (rowSem alone calm) (enterPlanning row now)
      (fun o t => ∀ ex, o = .ret ex → Seen calm id t ex ∧ isExecutionTerminal ex.status =
        false) s := by
  unfold enterPlanning
  refine wp_ite (fun created => ?_) fun _ => ?_
  · refine wp_then wp_ofExcept ?_ fun _ _ _ _ impossible => by simp at impossible
    rintro _ _ _ rfl
    have moved : StatusStep row (enterStatus row .planning [] now) :=
      enterStatus_step (by simp [created, executionAllowed]) ⟨rfl, rfl⟩ (by decide)
        ⟨rfl, rfl, rfl, rfl, fun _ => rfl⟩
    refine wp_then (seen_update seen live moved (by simp)) ?_ fun _ _ _ _ impossible => by
      simp at impossible
    rintro _ t _ seen _ ⟨⟩
    exact ⟨seen, rfl⟩
  · rintro _ ⟨⟩
    exact ⟨seen, live⟩

theorem Draws.rows {α : Type} {p : M α} {R : α → Prop} (draws : Draws p R) :
    Interaction.wp (rowSem alone calm) p
      (ends (fun t => t.rows = s.rows) (fun _ t => t.rows = s.rows) R) s := by
  refine Built.wp (M := rowSem alone calm) (I := fun t => t.rows = s.rows) ?_
    (fun _ _ impossible => impossible.elim) draws s rfl
  rintro β _ _ t ⟨⟩ same
  refine wp_mono ?_ (row_quiet false rfl)
  intro o u hu
  cases o with
  | ret a => exact ⟨trivial, hu.2.trans same⟩
  | raise e => exact Eq.trans hu same
  | halt => exact hu

theorem saveSteps_rows (steps : List Step) :
    wp (rowSem alone calm) (saveSteps steps)
      (ends (fun t => t.rows = s.rows) (fun _ _ => True) (fun _ => True)) s := by
  induction steps generalizing s with
  | nil => exact ⟨trivial, rfl⟩
  | cons st rest ih =>
      refine wp_then (row_step (.inr (.inr ⟨st, rfl⟩))) ?_ fun _ _ _ => trivial
      intro _ t _ rows
      refine wp_mono ?_ ih
      intro o u hu
      cases o with
      | ret a => exact ⟨trivial, hu.2.trans rows⟩
      | raise e => trivial
      | halt => exact hu

/-- What a run relies on between its reads: with `calm`, the row stays calm. -/
def Kept (alone calm : Prop) (id : UUID) (s : RowView) : Prop :=
  calm → alone ∧ ∃ row, s.rows id = some row ∧ Calm row

theorem Seen.kept {row : Execution} (seen : Seen calm id s row) (calmAlone : calm → alone) :
    Kept alone calm id s := fun onCalm => ⟨calmAlone onCalm, row, seen.rows, seen.calms onCalm⟩

theorem Seen.held {row : Execution} (seen : Seen calm id s row)
    (live : isExecutionTerminal row.status = false) : Held alone calm id s :=
  fun _ => ⟨row, seen.rows, live, seen.calms⟩

theorem Kept.seen (kept : Kept alone calm id s) {row : Execution} (ident : row.executionId = id)
    (same : alone → ∀ known, s.rows id = some known → some row = some known) :
    Seen calm id (s.see id (some row)) row := by
  refine ⟨ident, by simp, fun onCalm => ?_⟩
  obtain ⟨onAlone, known, rows, calms⟩ := kept onCalm
  exact Option.some.inj (same onAlone known rows) ▸ calms

theorem enterExecuting_rows {engine : ExecutionEngine} {row : Execution} {now : Time}
    (seen : Seen calm id s row) (calmAlone : calm → alone) :
    wp (rowSem alone calm) (engine.enterExecuting row now)
      (ends (Kept alone calm id) (fun _ _ => True) (fun _ => True)) s := by
  unfold enterExecuting
  refine wp_ite (fun planning => ?_) fun _ => ⟨trivial, seen.kept calmAlone⟩
  have created : Draws (createPlan engine.plannerMeta row now) (fun plan => Planned row plan) :=
    .bind draws_uuid4 fun planId _ => (planWorkflow_draws _ _ planId now).mono fun _ h => h.1
  refine wp_then created.rows ?_ fun _ _ _ => trivial
  intro plan t planned rows
  refine wp_then (row_other trivial fun r => by cases r <;> rfl) ?_ fun _ _ _ => trivial
  intro _ t _ rows'
  have seen := (seen.of_rows rows).of_rows rows'
  have instantiated : Draws (engine.instantiateSteps plan row now) (fun _ => True) := by
    refine .bind (keyToId_draws plan.steps) fun ids keys => ?_
    obtain ⟨steps, built, _⟩ := buildSteps_planned engine planned now keys
    rw [built]
    exact .ret _ trivial
  refine wp_then instantiated.rows ?_ fun _ _ _ => trivial
  intro steps t _ rows
  refine wp_then (saveSteps_rows steps) ?_ fun _ _ _ => trivial
  intro _ t _ rows'
  have seen := (seen.of_rows rows).of_rows rows'
  refine wp_then wp_ofExcept ?_ fun _ _ _ => trivial
  rintro _ _ _ rfl
  have moved : StatusStep row (enterStatus { row with currentPlanId := some plan.planId } .executing
      [("plan_id", .str plan.planId.str)] now) :=
    enterStatus_step (by simp [planning, executionAllowed]) ⟨rfl, rfl⟩ (by decide)
      ⟨rfl, rfl, rfl, rfl, fun _ => rfl⟩
  refine wp_mono ?_ (seen_update seen (by simp [planning, isExecutionTerminal]) moved (by simp))
  intro o t ht
  cases o with
  | ret u => exact ⟨trivial, ht.2.kept calmAlone⟩
  | raise e => trivial
  | halt => exact ht

/-- The row of governance before its decision. -/
theorem governed_traced {row : Execution} {proposal : ActionProposal} {evaluationId : UUID}
    {draft : PolicyEvaluationDraft} {now : Time} :
    Traced row (appendTimeline (appendTimeline row "action_proposed" (actionProposed proposal) now)
      "policy_evaluated" (policyEvaluated evaluationId draft) now) :=
  (Traced.refl.append (plain_event (by decide) rfl)).append (plain_event (by decide) rfl)

/-- Governance prepares a row that moves the status, without cancelling. -/
theorem finalize_rows {row : Execution} {steps : List Step} {now : Time}
    (validating : row.status = .validating) :
    wp (rowSem alone calm) (finalizeIncidentTriageGovernance row steps now)
      (ends (fun t => t.rows = s.rows) (fun _ _ => True)
        (fun ex => StatusStep row ex ∧ ex.status ≠ .cancelled)) s := by
  unfold finalizeIncidentTriageGovernance
  refine wp_then (row_quiet false rfl) ?_ fun _ _ _ => trivial
  intro ctx t _ rows
  cases ctx with
  | none => trivial
  | some ctx =>
      refine wp_then (validationSummaryFromSteps_reads steps).rows ?_ fun _ _ _ => trivial
      rintro summary _ _ rfl
      refine wp_then (buildCompletionResult_reads row steps).rows ?_ fun _ _ _ => trivial
      rintro result _ _ rfl
      refine wp_then (stepOutputByName_reads steps _).rows ?_ fun _ _ _ => trivial
      rintro validateOut _ _ rfl
      refine wp_then (row_quiet false rfl) ?_ fun _ _ _ => trivial
      intro proposalId t' _ rows'
      refine wp_then (row_other trivial fun r => by cases r <;> rfl) ?_ fun _ _ _ => trivial
      intro _ t'' _ rows''
      refine wp_then (row_quiet false rfl) ?_ fun _ _ _ => trivial
      intro draft u _ urows
      refine wp_then (row_quiet false rfl) ?_ fun _ _ _ => trivial
      intro evaluationId u' _ urows'
      refine wp_then (row_other trivial fun r => by cases r <;> rfl) ?_ fun _ _ _ => trivial
      intro _ u'' _ urows''
      obtain ⟨proposalDone, status, payload, events, applied, outcome, working, _⟩ :=
        applyPolicyDecision_eq _
        (escalationProposal row proposalId (stepByPlannerName steps "validate_incident")
          validateOut now)
        evaluationId draft.decision summary result now
      rw [applied]
      refine wp_then (row_other trivial fun r => by cases r <;> rfl) ?_ fun _ _ _ => trivial
      intro _ v _ vrows
      refine ⟨⟨concludeExecution_step governed_traced ?_ ?_
        (fun e member => (working e member).1), ?_⟩, ?_⟩
      · rcases outcome with ⟨rfl, _⟩ | rfl | rfl <;> simp [validating, executionAllowed]
      · rcases outcome with ⟨rfl, _⟩ | rfl | rfl <;> decide
      · rcases outcome with ⟨rfl, _⟩ | rfl | rfl <;> simp
      · exact vrows.trans <| urows''.trans <| urows'.trans <| urows.trans <| rows''.trans <|
          rows'.trans rows

theorem stuck_rows (steps : List Step) : wp (rowSem alone calm) (stuck steps) (fun _ _ => True) s :=
  wp_ite (fun _ => trivial) fun _ => trivial

theorem completeRun_rows {row : Execution} {steps : List Step} (seen : Seen calm id s row) :
    wp (rowSem alone calm) (completeRun row steps) (fun _ _ => True) s := by
  unfold completeRun
  refine wp_ite (fun _ => ?_) fun _ => stuck_rows steps
  refine wp_then (row_quiet false rfl) ?_ fun _ _ _ => trivial
  intro now t _ rows
  have seen := seen.of_rows rows
  refine wp_ite (fun validating => wp_ite (fun _ => ?_) fun _ => ?_) fun _ =>
    wp_ite (fun _ => trivial) fun _ => stuck_rows steps
  · refine wp_then (finalize_rows validating) ?_ fun _ _ _ => trivial
    rintro ex u ⟨moved, kept⟩ rows
    exact wp_then (seen_update (seen.of_rows rows) (by simp [validating, isExecutionTerminal]) moved
      kept)
      (fun _ _ _ _ => trivial) fun _ _ _ => trivial
  · refine wp_then wp_ofExcept ?_ fun _ _ _ => trivial
    rintro _ _ _ rfl
    refine wp_then (validationSummaryFromSteps_reads steps).rows ?_ fun _ _ _ => trivial
    rintro summary _ _ rfl
    refine wp_then (buildCompletionResult_reads row steps).rows ?_ fun _ _ _ => trivial
    rintro result _ _ rfl
    have moved : StatusStep row (concludeExecution row .completed summary result [] now) :=
      concludeExecution_step Traced.refl (by simp [validating, executionAllowed]) (by decide)
        fun _ no => absurd no List.not_mem_nil
    exact wp_then (seen_update seen (by simp [validating, isExecutionTerminal]) moved (by simp))
      (fun _ _ _ _ => trivial) fun _ _ _ => trivial

theorem resolvePlan_rows (row : Execution) :
    wp (rowSem alone calm) (resolvePlan row)
      (ends (fun t => t.rows = s.rows) (fun _ _ => True) (fun _ => True)) s := by
  unfold resolvePlan
  cases row.currentPlanId with
  | none => exact ⟨trivial, rfl⟩
  | some planId =>
      refine wp_mono ?_ (row_quiet false rfl)
      intro o t ht
      cases o with
      | ret a => exact ht
      | raise e => trivial
      | halt => exact ht

/-- The loop, from any number of iterations that may remain. -/
theorem runLoop_rows {engine : ExecutionEngine} (fuel : Nat) (kept : Kept alone calm id s) :
    wp (rowSem alone calm) (engine.runLoop id fuel) (fun _ _ => True) s := by
  induction fuel generalizing s with
  | zero => trivial
  | succ fuel ih =>
      unfold runLoop
      rw [wp_bind]
      refine wp_mono ?_ row_get
      rintro _ _ ⟨o, rfl, rfl, keyed, same⟩
      cases o with
      | none => trivial
      | some row =>
          have seen : Seen calm id _ row := kept.seen (keyed row rfl) same
          refine wp_ite (fun requested => ?_) fun _ => wp_ite (fun _ => trivial) fun _ =>
            wp_ite (fun _ => trivial) fun live => ?_
          · have noCalm : ¬ calm := fun onCalm => by simp [(seen.calms onCalm).1] at requested
            refine wp_then (row_quiet false rfl) ?_ fun _ _ _ => trivial
            exact fun _ _ _ _ => cancelExecution_rows noCalm
          · have live : isExecutionTerminal row.status = false := by simpa using live
            rw [wp_bind]
            refine wp_mono ?_ row_list
            rintro _ t ⟨steps, rfl, rows, _, _⟩
            have seen := seen.of_rows rows
            refine wp_then (resolvePlan_rows row) ?_ fun _ _ _ => trivial
            intro plan t _ rows
            cases plan with
            | none => trivial
            | some plan =>
                have seen := seen.of_rows rows
                refine wp_then (row_quiet false rfl) ?_ fun _ _ _ => trivial
                intro now t _ rows
                have seen := seen.of_rows rows
                obtain ⟨next, entered, change⟩ := maybeEnterValidating_eq row steps now
                rw [entered, wp_bind, wp_ret, andThen_ret]
                have written : wp (rowSem alone calm) (M.updateExecution next)
                    (ends (fun t => Seen calm id t next) (fun _ _ => True) (fun _ => True)) t := by
                  rcases change with rfl | ⟨executing, rfl⟩
                  · refine wp_mono ?_ (row_update next (seen.executionId ▸ seen.rows)
                      (.input next.input) (fun _ _ => ⟨next.input, rfl⟩) fun _ c => c)
                    intro o u hu
                    cases o with
                    | ret a =>
                        obtain ⟨_, rfl⟩ := hu
                        exact ⟨trivial, seen.executionId, by simp [seen.executionId], seen.calms⟩
                    | raise e => trivial
                    | halt => exact hu
                  · exact seen_update seen live
                      (enterStatus_step (by simp [executing, executionAllowed])
                      ⟨rfl, rfl⟩ (by decide) ⟨rfl, rfl, rfl, rfl, fun _ => rfl⟩) (by simp)
                have calmAlone : calm → alone := fun onCalm => (kept onCalm).1
                refine wp_then written ?_ fun _ _ _ => trivial
                intro _ t _ seen
                rw [wp_bind]
                refine wp_mono ?_ row_get
                rintro _ _ ⟨o, rfl, rfl, keyed, same⟩
                cases o with
                | none => trivial
                | some row =>
                    have seen : Seen calm id _ row := (seen.kept calmAlone).seen
                      (keyed row rfl) same
                    refine wp_ite (fun _ => trivial) fun live => ?_
                    have live : isExecutionTerminal row.status = false := by simpa using live
                    rw [wp_bind]
                    refine wp_mono ?_ row_list
                    rintro _ t ⟨steps, rfl, rows, listed, owned⟩
                    have seen := seen.of_rows rows
                    simp only [andThen_ret]
                    split
                    · next nextStep chosen =>
                        have member := (nextPendingReady_mem chosen).1
                        refine wp_then (runStep_rows (seen.held live) (listed ▸ member)
                          (owned nextStep member)) ?_ fun _ _ _ => trivial
                        intro _ t _ held
                        refine ih fun onCalm => ?_
                        obtain ⟨row, rows, _, calms⟩ := held (calmAlone onCalm)
                        exact ⟨calmAlone onCalm, row, rows, calms onCalm⟩
                    · exact completeRun_rows seen

theorem runExecution_rows {engine : ExecutionEngine} {fuel : Nat} (kept : Kept alone calm id s) :
    wp (rowSem alone calm) (engine.runExecution fuel id) (fun _ _ => True) s := by
  unfold runExecution
  rw [wp_bind]
  refine wp_mono ?_ row_get
  rintro _ _ ⟨o, rfl, rfl, keyed, same⟩
  cases o with
  | none => trivial
  | some row =>
      have calmAlone : calm → alone := fun onCalm => (kept onCalm).1
      have seen : Seen calm id _ row := kept.seen (keyed row rfl) same
      refine wp_then (row_quiet false rfl) ?_ fun _ _ _ => trivial
      intro now t _ rows
      have seen := seen.of_rows rows
      refine wp_ite (fun _ => trivial) fun live => ?_
      have live : isExecutionTerminal row.status = false := by simpa using live
      rw [wp_bind]
      refine wp_mono ?_ (enterPlanning_rows seen live)
      intro o t ht
      cases o with
      | ret ex =>
          refine wp_then (enterExecuting_rows (ht ex rfl).1 calmAlone) ?_ fun _ _ _ => trivial
          exact fun _ _ _ kept => runLoop_rows fuel kept
      | raise e => trivial
      | halt => trivial

theorem startExecution_rows {engine : ExecutionEngine} {fuel : Nat} (kept : Kept alone calm id s) :
    wp (rowSem alone calm) (engine.startExecution fuel id) (fun _ _ => True) s := by
  unfold startExecution
  rw [wp_tryCatch]
  refine wp_mono ?_ (runExecution_rows kept)
  intro o t _
  cases o with
  | ret ex => trivial
  | raise e => exact wp_ite (fun _ => failExecution_rows) fun _ => trivial
  | halt => trivial

theorem applyApprovalDecision_rows {row ex : Execution} {proposal : ActionProposal}
    {decision : ApprovalDecision} {summary result : Dict} {ts : Time} (seen : Seen calm id s row)
    (awaiting : row.status = .awaitingApproval) (traced : Traced row ex) :
    wp (rowSem alone calm) (applyApprovalDecision ex proposal decision summary result ts)
      (fun _ _ => True) s := by
  obtain ⟨proposalDone, status, payload, events, applied, outcome, working, _⟩ :=
    applyApprovalDecision_eq ex proposal decision summary result ts
  rw [applied]
  refine wp_then (row_other trivial fun r => by cases r <;> rfl) ?_ fun _ _ _ => trivial
  intro _ t _ rows
  refine wp_then (seen_update (seen.of_rows rows) (by simp [awaiting, isExecutionTerminal])
    (concludeExecution_step traced ?_ ?_ fun e member => (working e member).1) ?_)
      (fun _ _ _ _ => trivial) fun _ _ _ => trivial
  · rcases outcome with rfl | rfl <;> simp [awaiting, executionAllowed]
  · rcases outcome with rfl | rfl <;> decide
  · rcases outcome with rfl | rfl <;> simp

theorem submitApproval_rows {approver : String} {decision : ApprovalDecision}
    {notes : Option String} :
    wp (rowSem alone False) (submitApproval id approver decision notes) (fun _ _ => True) s := by
  unfold submitApproval
  refine wp_then (row_quiet false rfl) ?_ fun _ _ _ => trivial
  intro ts t _ _
  rw [wp_bind]
  refine wp_mono ?_ row_get
  rintro _ _ ⟨o, rfl, rfl, keyed, same⟩
  cases o with
  | none => trivial
  | some row =>
      obtain rfl := keyed row rfl
      have seen : Seen False row.executionId (t.see row.executionId (some row)) row :=
        ⟨rfl, by simp, False.elim⟩
      refine wp_ite (fun _ => trivial) fun awaiting => ?_
      have awaiting : row.status = .awaitingApproval := by simpa using awaiting
      refine wp_then wp_ofExcept ?_ fun _ _ _ => trivial
      rintro ⟨proposalId, evaluationId⟩ _ _ rfl
      refine wp_ite (fun _ => trivial) fun _ => ?_
      refine wp_then (row_quiet false rfl) ?_ fun _ _ _ => trivial
      intro approvalId t _ rows
      have seen := seen.of_rows rows
      refine wp_then (row_other trivial fun r => by cases r <;> rfl) ?_ fun _ _ _ => trivial
      intro _ t _ rows
      have seen := seen.of_rows rows
      refine wp_then (row_quiet false rfl) ?_ fun _ _ _ => trivial
      intro proposal t _ rows
      have seen := seen.of_rows rows
      cases proposal with
      | none => trivial
      | some proposal =>
          rw [wp_bind]
          refine wp_mono ?_ row_list
          rintro _ t ⟨steps, rfl, rows, _, _⟩
          have seen := seen.of_rows rows
          refine wp_then (validationSummaryFromSteps_reads steps).rows ?_ fun _ _ _ => trivial
          rintro summary _ _ rfl
          refine wp_then (buildCompletionResult_reads _ steps).rows ?_ fun _ _ _ => trivial
          rintro result _ _ rfl
          have traced : Traced row (appendTimeline row "approval_received"
              (approvalReceived approvalId approver decision) ts) :=
            Traced.refl.append (plain_event (by decide) rfl)
          exact applyApprovalDecision_rows seen awaiting traced

theorem rewriteExecution_rows {change : Execution → Execution}
    (input : ∀ row, ∃ d, change row = { row with input := d }) :
    wp (rowSem alone False) (rewriteExecution id change)
      (ends (fun _ => True) (fun _ _ => True) (fun _ => True)) s := by
  unfold rewriteExecution
  rw [wp_bind]
  refine wp_mono ?_ row_get
  rintro _ _ ⟨o, rfl, rfl, keyed, same⟩
  cases o with
  | none => trivial
  | some row =>
      obtain ⟨d, changed⟩ := input row
      obtain rfl := keyed row rfl
      simp only [andThen_ret, changed]
      exact wp_then (row_update row (by simp) (.input d) (fun _ _ => ⟨d, rfl⟩) False.elim)
        (fun _ _ _ _ => ⟨trivial, trivial⟩) fun _ _ _ => trivial

theorem enqueueExecution_rows : wp (rowSem alone False) (enqueueExecution id)
    (fun _ _ => True) s := by
  refine wp_then (row_quiet false rfl) (fun ts t _ _ => ?_) fun _ _ _ => trivial
  refine wp_then (rewriteExecution_rows fun row => applyRuntimeMeta_eq row _) ?_
    fun _ _ _ => trivial
  exact fun _ t _ _ => wp_then (row_other trivial fun r => by cases r <;> rfl)
    (fun _ _ _ _ => trivial) fun _ _ _ => trivial

theorem recordWorkerStarted_rows {workerId : String} {now : Option Time} :
    wp (rowSem alone False) (recordWorkerStarted id workerId now) (fun _ _ => True) s := by
  have marked : ∀ ts t, wp (rowSem alone False)
    (rewriteExecution id (markWorkerStarted · workerId ts))
      (fun _ _ => True) t := fun ts t =>
    wp_mono (fun _ _ _ => trivial) (rewriteExecution_rows fun row => applyRuntimeMeta_eq row _)
  unfold recordWorkerStarted
  cases now with
  | some ts => exact marked ts s
  | none => exact wp_then (row_quiet false rfl) (fun ts t _ _ => marked ts t) fun _ _ _ => trivial

theorem requestCancellation_rows {reason : String} :
    wp (rowSem alone False) (requestCancellation id reason) (fun _ _ => True) s := by
  refine wp_then (row_quiet false rfl) (fun ts t _ _ => ?_) fun _ _ _ => trivial
  refine wp_then (rewriteExecution_rows fun row => requestCancellationMeta_eq row ts reason) ?_
    fun _ _ _ => trivial
  exact fun _ _ _ _ => wp_ite (fun _ => trivial) fun _ => cancelExecution_rows False.elim

end
end AgenticPlatform
