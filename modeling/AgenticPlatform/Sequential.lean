import AgenticPlatform.Parties
import Mathlib.Data.List.Chain

/-! Calls made one after another. The trace of a row tells its statuses, it only grows, and
what has ended does not change. -/
namespace AgenticPlatform
open Interaction ExecutionEngine Store

/-- The status rows, after CREATED, are a path of allowed transitions to the status. -/
def TracesStatus (row : Execution) : Prop :=
  ∃ path : List ExecutionStatus, statusRows row.traceTimeline = path.map (fun s => .str s.value) ∧
    List.IsChain (fun a b => (a, b) ∈ executionAllowed) (.created :: path) ∧
    (ExecutionStatus.created :: path).getLast? = some row.status

/-- A row whose trace and time stamps tell its status. -/
structure Consistent (row : Execution) : Prop where
  traced : TracesStatus row
  completedAt : row.completedAt.isSome = true ↔ row.status = .completed
  cancelledAt : row.cancelledAt.isSome = true ↔ row.status = .cancelled

/-- What a row that has ended keeps for good. -/
structure Frozen (before after : Execution) : Prop where
  status : after.status = before.status
  result : after.result = before.result
  validationSummary : after.validationSummary = before.validationSummary
  traceTimeline : after.traceTimeline = before.traceTimeline
  completedAt : after.completedAt = before.completedAt
  cancelledAt : after.cancelledAt = before.cancelledAt

/-- A row as it is created, with no status told yet. -/
structure Fresh (row : Execution) : Prop where
  status : row.status = .created
  traced : statusRows row.traceTimeline = []
  completedAt : row.completedAt = none
  cancelledAt : row.cancelledAt = none

section
variable {row before after : Execution}

theorem executionOf_fresh (request : NewExecution) (executionId contextId : UUID) (ts : Time) :
    Fresh (executionOf request executionId contextId ts) := ⟨rfl, rfl, rfl, rfl⟩

theorem Fresh.consistent (fresh : Fresh row) : Consistent row where
  traced := ⟨[], fresh.traced, .singleton _, by simp [fresh.status]⟩
  completedAt := by simp [fresh.completedAt, fresh.status]
  cancelledAt := by simp [fresh.cancelledAt, fresh.status]

theorem Frozen.refl : Frozen row row := ⟨rfl, rfl, rfl, rfl, rfl, rfl⟩

/-- A status step appends its target to the path. -/
theorem StatusStep.traced (moved : StatusStep before after) (traced : TracesStatus before) :
    TracesStatus after := by
  obtain ⟨path, told, chain, last⟩ := traced
  obtain ⟨rows, grown, new⟩ := moved.timeline
  refine ⟨path ++ [after.status], ?_, ?_, ?_⟩
  · rw [grown, statusRows_append, told, new, List.map_append]
    rfl
  · rw [← List.cons_append, List.isChain_append]
    refine ⟨chain, .singleton _, fun a ha b hb => ?_⟩
    obtain rfl : before.status = a := Option.some.inj (last.symm.trans ha)
    obtain rfl : after.status = b := by simpa using hb
    exact moved.allowed
  · rw [← List.cons_append, List.getLast?_append]
    rfl

theorem StatusStep.consistent (moved : StatusStep before after) (consistent : Consistent before) :
    Consistent after where
  traced := moved.traced consistent.traced
  completedAt := by
    have live : before.status ≠ .completed := fun ended =>
      terminal_no_exit (by rw [ended]; rfl) moved.allowed
    have stamp := moved.completedAt
    by_cases done : after.status = .completed
    · simpa [done] using stamp
    · rw [if_neg done] at stamp
      rw [stamp, consistent.completedAt]
      exact ⟨fun ended => absurd ended live, fun ended => absurd ended done⟩
  cancelledAt := by
    have live : before.status ≠ .cancelled := fun ended =>
      terminal_no_exit (by rw [ended]; rfl) moved.allowed
    have stamp := moved.cancelledAt
    by_cases done : after.status = .cancelled
    · simpa [done] using stamp
    · rw [if_neg done] at stamp
      rw [stamp, consistent.cancelledAt]
      exact ⟨fun ended => absurd ended live, fun ended => absurd ended done⟩

/-- Every step of a row keeps it consistent. -/
theorem RowStep.consistent (step : RowStep before after) (consistent : Consistent before) :
    Consistent after := by
  cases step with
  | input d => exact ⟨consistent.traced, consistent.completedAt, consistent.cancelledAt⟩
  | trace traced =>
      obtain ⟨rows, t, plain, rfl⟩ := traced
      obtain ⟨path, told, chain, last⟩ := consistent.traced
      have none_new : statusRows rows = [] := by
        simp only [statusRows, List.map_eq_nil_iff, List.filter_eq_nil_iff]
        exact fun row member => by simp [plain row member]
      refine ⟨⟨path, ?_, chain, last⟩, consistent.completedAt, consistent.cancelledAt⟩
      rw [statusRows_append, told, none_new, List.append_nil]
  | status moved => exact moved.consistent consistent

end

variable {env : Env} {calm : Prop}

/-- The store is a faithful surrounding for parties that act alone. -/
theorem handle_views : Views (handle env).sem (rowSem True calm) Agrees := by
  rintro w s op r t agrees _ allowed step
  obtain ⟨rfl, rfl⟩ := Prod.mk.inj step
  exact ⟨_, ⟨handle_answer (fun _ => agrees) op, rfl⟩, handle_agrees agrees allowed⟩

/-- The calls of the parties, one after another. -/
def calls (engine : ExecutionEngine) (fuel : Nat) (parties : List Party) : M Unit :=
  inTurn (parties.map fun party => party.program engine fuel)

theorem inTurn_rows {ps : List (M Unit)}
    (each : ∀ p ∈ ps, ∀ s, wp (rowSem True False) p (fun _ _ => True) s) (s : RowView) :
    wp (rowSem True False) (inTurn ps) (fun _ _ => True) s := by
  induction ps generalizing s with
  | nil => trivial
  | cons p rest ih =>
      have later := ih fun q member => each q (List.mem_cons_of_mem p member)
      simp only [inTurn, wp_bind, wp_tryCatch]
      refine wp_mono ?_ (each p List.mem_cons_self s)
      intro o t _
      cases o with
      | ret a => exact later t
      | raise e => exact later t
      | halt => trivial

theorem calls_rows (engine : ExecutionEngine) (fuel : Nat) (parties : List Party) (s : RowView) :
    wp (rowSem True False) (calls engine fuel parties) (fun _ _ => True) s := by
  refine inTurn_rows (fun p member t => ?_) s
  obtain ⟨party, _, rfl⟩ := List.mem_map.mp member
  exact party.rows engine fuel

/-- What one call does to a stored row when no other call runs meanwhile. -/
theorem step_alone {w t : World} {s : RowView} {op : Op} {r : Except Exn op.Res}
    (agrees : Agrees w s) (allowed : rowAllowed True calm s op) (step : handle env w op = (r, t))
    {id : UUID} {row : Execution} (stored : w.execution id = some row) :
    ∃ row', t.execution id = some row' ∧ RowStep row row' ∧
      (isExecutionTerminal row.status = true → ∃ d, row' = { row with input := d }) ∧
      (calm → Calm row → Calm row') := by
  obtain rfl : (handle env w op).2 = t := congrArg Prod.snd step
  rcases handle_execution allowed id with same | ⟨ex, rfl, rfl, _, written⟩
  · exact ⟨row, same.trans stored, .input row.input, fun _ => ⟨row.input, rfl⟩, fun _ c => c⟩
  · obtain ⟨seen, known, moved, ended, calms⟩ := allowed
    obtain rfl : seen = row := Option.some.inj ((agrees.rows _ _ known).symm.trans stored)
    exact ⟨ex, written, moved, ended trivial, calms⟩

/-- Between any two states of a run, a row stays consistent, its timeline grows by appending,
and what it kept when it had ended it keeps. -/
theorem run_row {p q : M Unit} {w t : World} {s : RowView}
    (visits : Visits (handle env).sem (p, w) (q, t)) (agrees : Agrees w s)
    (spec : wp (rowSem True False) p (fun _ _ => True) s) {id : UUID} {row : Execution}
    (stored : w.execution id = some row) (consistent : Consistent row) :
    ∃ row', t.execution id = some row' ∧ Consistent row' ∧
      row.traceTimeline <+: row'.traceTimeline ∧
      (isExecutionTerminal row.status = true → Frozen row row') := by
  refine visits.keeps handle_views (I := fun t => ∃ row', t.execution id = some row' ∧
    Consistent row' ∧
    row.traceTimeline <+: row'.traceTimeline ∧ (isExecutionTerminal row.status = true →
      Frozen row row'))
    ?_ agrees spec ⟨row, stored, consistent, List.prefix_rfl, fun _ => .refl⟩
  rintro u g op r v ⟨row₁, stored₁, consistent₁, grown, frozen⟩ agrees _ allowed step
  obtain ⟨row₂, stored₂, moved, ended, _⟩ := step_alone agrees allowed step stored₁
  refine ⟨row₂, stored₂, moved.consistent consistent₁, grown.trans moved.timeline,
    fun terminal => ?_⟩
  have kept := frozen terminal
  obtain ⟨d, rfl⟩ := ended (kept.status ▸ terminal)
  exact ⟨kept.status, kept.result, kept.validationSummary, kept.traceTimeline, kept.completedAt,
    kept.cancelledAt⟩

/-- Over any sequence of calls on an execution that was created, from any state of the run to
any later one. -/
theorem trace_and_state_agree (env : Env) (engine : ExecutionEngine) (fuel : Nat)
    (parties : List Party) {w t u : World} {p q : M Unit}
    (first : Visits (handle env).sem (calls engine fuel parties, w) (p, t))
    (later : Visits (handle env).sem (p, t) (q, u)) {id : UUID} {created : Execution}
    (stored : w.execution id = some created) (fresh : Fresh created) :
    ∃ row row', t.execution id = some row ∧ u.execution id = some row' ∧ Consistent row ∧
      row.traceTimeline <+: row'.traceTimeline ∧ (isExecutionTerminal row.status = true →
        Frozen row row') := by
  have spec := calls_rows engine fuel parties .unseen
  obtain ⟨row, stored₁, consistent, _, _⟩ := run_row first agrees_unseen spec stored
    fresh.consistent
  obtain ⟨s, agrees, rest⟩ := first.wp handle_views agrees_unseen spec
  obtain ⟨row', stored₂, _, grown, frozen⟩ := run_row later agrees rest stored₁ consistent
  exact ⟨row, row', stored₁, stored₂, consistent, grown, frozen⟩

/-- The world after a cancellation and a start that finds it. -/
def afterCancellation : World :=
  (run (handle .refusing) (calls (.default .flat) 1 [.requestCancellation ⟨1⟩ "operator",
    .startExecution ⟨1⟩])
    (.created .refusing genericRequest)).2

theorem trace_and_state_agree_after_cancellation :
    ∃ row, afterCancellation.execution ⟨1⟩ = some row ∧ Consistent row ∧
      row.status = .cancelled := by
  obtain ⟨q, visits, _⟩ := visits_run (handle .refusing) (calls (.default .flat) 1
    [.requestCancellation ⟨1⟩ "operator", .startExecution ⟨1⟩]) (.created .refusing genericRequest)
  have created : (World.created .refusing genericRequest).execution ⟨1⟩ =
      some (executionOf genericRequest ⟨1⟩ ⟨0⟩ 0) := by decide
  obtain ⟨row, _, stored, _, consistent, _, _⟩ := trace_and_state_agree .refusing
    (.default .flat) 1 _
    visits .refl created (executionOf_fresh ..)
  have status : (afterCancellation.execution ⟨1⟩).map Execution.status = some .cancelled := by
    decide
  refine ⟨row, stored, consistent, ?_⟩
  rw [afterCancellation, stored] at status
  exact Option.some.inj status

end AgenticPlatform
