import AgenticPlatform.StateMachine
import AgenticPlatform.RuntimeMeta
import AgenticPlatform.Timeline

/-! What a write may do to the execution row it was made from. Every writer of the
platform reads a row, changes a copy and writes the copy back; the lemmas here say
which kind of change each of them makes. -/
namespace AgenticPlatform

/-- A write that moves the status, with its trace row and its time stamp. -/
structure StatusStep (before after : Execution) : Prop where
  executionId : after.executionId = before.executionId
  allowed : (before.status, after.status) ∈ executionAllowed
  timeline : ∃ rows, after.traceTimeline = before.traceTimeline ++ rows ∧
    statusRows rows = [.str after.status.value]
  completedAt : if after.status = .completed then after.completedAt.isSome = true
    else after.completedAt = before.completedAt
  cancelledAt : if after.status = .cancelled then after.cancelledAt.isSome = true
    else after.cancelledAt = before.cancelledAt
  input : after.status ≠ .cancelled → after.input = before.input

/-- A write that appends rows which announce no status. -/
def Traced (before after : Execution) : Prop :=
  ∃ rows t, (∀ row ∈ rows, isStatusRow row = false) ∧
    after = { before with traceTimeline := before.traceTimeline ++ rows, updatedAt := t }

inductive RowStep (before : Execution) : Execution → Prop
  | input (d : Dict) : RowStep before { before with input := d }
  | trace {after : Execution} : Traced before after → RowStep before after
  | status {after : Execution} : StatusStep before after → RowStep before after

section
variable {before after : Execution}

theorem RowStep.executionId (step : RowStep before after) :
    after.executionId = before.executionId := by
  cases step with
  | input d => rfl
  | trace traced =>
      obtain ⟨rows, t, _, rfl⟩ := traced
      rfl
  | status moved => exact moved.executionId

/-- The timeline of the row it was made from is kept. -/
theorem RowStep.timeline (step : RowStep before after) :
    before.traceTimeline <+: after.traceTimeline := by
  cases step with
  | input d => exact List.prefix_rfl
  | trace traced =>
      obtain ⟨rows, t, _, rfl⟩ := traced
      exact List.prefix_append _ _
  | status moved =>
      obtain ⟨rows, same, _⟩ := moved.timeline
      exact ⟨rows, same.symm⟩

theorem RowStep.status_or (step : RowStep before after) :
    after.status = before.status ∨ (before.status, after.status) ∈ executionAllowed := by
  cases step with
  | input d => exact .inl rfl
  | trace traced =>
      obtain ⟨rows, t, _, rfl⟩ := traced
      exact .inl rfl
  | status moved => exact .inr moved.allowed

theorem RowStep.terminal (step : RowStep before after)
    (terminal : isExecutionTerminal before.status = true) :
    after.status = before.status :=
  step.status_or.resolve_right (terminal_no_exit terminal)

theorem Traced.refl : Traced before before := ⟨[], before.updatedAt, by simp, by simp⟩

theorem Traced.append (traced : Traced before after) {eventType : String}
    {detail : Dict} {now : Time} (plain : Event.Plain (eventType, detail)) : Traced before
      (appendTimeline after eventType detail now) := by
  obtain ⟨rows, t, old, rfl⟩ := traced
  refine ⟨rows ++ [timelineRow eventType detail now], now, ?_, ?_⟩
  · intro row member
    rcases List.mem_append.mp member with earlier | new
    · exact old row earlier
    · obtain rfl := List.mem_singleton.mp new
      exact timelineRow_plain plain
  · simp [appendTimeline]

theorem Traced.events (traced : Traced before after) {events : List Event} {now : Time}
    (plain : ∀ event ∈ events, event.Plain) : Traced before (appendEvents after events now) := by
  induction events generalizing after with
  | nil => exact traced
  | cons event rest ih =>
      exact ih (traced.append (plain event List.mem_cons_self))
        fun e member => plain e (List.mem_cons_of_mem _ member)

theorem Traced.status (traced : Traced before after) : after.status = before.status := by
  obtain ⟨rows, t, _, rfl⟩ := traced
  rfl

end

section
variable {row changed : Execution} {status : ExecutionStatus} {detail : Dict} {now : Time}

/-- The request writes nothing but the input. -/
theorem requestCancellationMeta_eq (row : Execution) (now : Time) (reason : String) :
    ∃ input, requestCancellationMeta row now reason = { row with input := input } :=
  applyRuntimeMeta_eq row _

/-- What `changed` may differ from `row` in before a status is entered. -/
structure Prepared (row changed : Execution) (status : ExecutionStatus) : Prop where
  executionId : changed.executionId = row.executionId
  timeline : changed.traceTimeline = row.traceTimeline
  completedAt : changed.completedAt = row.completedAt
  cancelledAt : if status = .cancelled then changed.cancelledAt.isSome = true
    else changed.cancelledAt = row.cancelledAt
  input : status ≠ .cancelled → changed.input = row.input

theorem enterStatus_step (allowed : (row.status, status) ∈ executionAllowed)
    (plain : detail.get? "event_type" = none ∧ detail.get? "status" = none)
    (open_ : status ≠ .completed) (prepared : Prepared row changed status) : StatusStep row
      (enterStatus changed status detail now) where
  executionId := prepared.executionId
  allowed := allowed
  timeline := ⟨_, by rw [← prepared.timeline]; rfl, statusRows_status status detail plain⟩
  completedAt := by
    have other : (enterStatus changed status detail now).status ≠ .completed := open_
    rw [if_neg other]
    exact prepared.completedAt
  cancelledAt := prepared.cancelledAt
  input := prepared.input

theorem concludeExecution_step {ex : Execution} {validationSummary result : Dict}
    {events : List Event} (traced : Traced row ex)
    (allowed : (row.status, status) ∈ executionAllowed) (other : status ≠ .cancelled)
    (plain : ∀ event ∈ events, event.Plain) :
    StatusStep row (concludeExecution ex status validationSummary result events now) := by
  obtain ⟨rows, t, old, rfl⟩ := traced
  have none_old : statusRows rows = [] := by
    simp only [statusRows, List.map_eq_nil_iff, List.filter_eq_nil_iff]
    exact fun row member => by simp [old row member]
  simp only [concludeExecution, appendEvents_eq, appendTimeline]
  refine ⟨rfl, allowed, ⟨rows ++ events.map (fun event => timelineRow event.1 event.2 now) ++
    [timelineRow "execution_status" [("status", .str status.value)] now], by
      simp, ?_⟩, ?_, ?_, fun _ => rfl⟩
  · rw [statusRows_append, statusRows_append, none_old, statusRows_plain plain]
    exact statusRows_status status [] ⟨rfl, rfl⟩
  · by_cases done : status = .completed
    · simp [done]
    · simp [done]
  · simp [other]

end
end AgenticPlatform
