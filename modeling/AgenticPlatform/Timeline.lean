import AgenticPlatform.StateMachine

/-! The trace timeline inside an execution row: a list that is only appended to. -/
namespace AgenticPlatform
open Interaction

def timelineRow (eventType : String) (detail : Dict) (now : Time) : Dict :=
  Dict.merge [("event_type", .str eventType), ("at", .str now.isoformat)] detail

/-- Append one trace row. -/
def appendTimeline (execution : Execution) (eventType : String) (detail : Dict) (now : Time) :
    Execution :=
  { execution with
    traceTimeline := execution.traceTimeline ++ [timelineRow eventType detail now]
    updatedAt := now }

/-- An event type with its detail. -/
abbrev Event := String × Dict

def appendEvents (execution : Execution) (events : List Event) (now : Time) : Execution :=
  events.foldl (fun ex event => appendTimeline ex event.1 event.2 now) execution

/-- Read the row, append the events and write it back; a missing row is left alone. -/
def recordTrace (executionId : UUID) (events : List Event) (now : Time) : M Unit := do
  match ← M.getExecution executionId with
  | none => pure ()
  | some ex => M.updateExecution (appendEvents ex events now)

/-- Move the row to `status`, with its trace row. -/
def enterStatus (execution : Execution) (status : ExecutionStatus) (detail : Dict) (now : Time) :
    Execution :=
  appendTimeline { execution with status := status, updatedAt := now } "execution_status"
    (("status", .str status.value) :: detail) now

/-- End a run with `status`: the events come before the status row. -/
def concludeExecution (execution : Execution) (status : ExecutionStatus)
    (validationSummary result : Dict) (events : List Event) (now : Time) : Execution :=
  appendTimeline
    (appendEvents { execution with
        status := status
        updatedAt := now
        completedAt := if status = .completed then some now else execution.completedAt
        validationSummary := some validationSummary
        result := some result } events now)
    "execution_status" [("status", .str status.value)] now

def isStatusRow (row : Dict) : Bool := (row.get "event_type").isStr "execution_status"

/-- The statuses of the `execution_status` rows, in order. -/
def statusRows (timeline : List Dict) : List Json := (timeline.filter isStatusRow).map
    (·.get "status")

/-- An event that does not announce a status. -/
def Event.Plain (event : Event) : Prop :=
  event.1 ≠ "execution_status" ∧ event.2.get? "event_type" = none

theorem plain_event {eventType : String} {detail : Dict} (other : eventType ≠ "execution_status")
    (absent : detail.get? "event_type" = none) : Event.Plain (eventType, detail) := ⟨other, absent⟩

theorem plain_one {eventType : String} {detail : Dict} (other : eventType ≠ "execution_status")
    (absent : detail.get? "event_type" = none) :
    ∀ event ∈ [(eventType, detail)], Event.Plain event := by
  intro event member
  obtain rfl := List.mem_singleton.mp member
  exact plain_event other absent

def isStartedRow (row : Dict) : Bool := (row.get "event_type").isStr "step_started"

/-- The steps of the `step_started` rows, in order. -/
def startedRows (timeline : List Dict) : List Json := (timeline.filter isStartedRow).map
    (·.get "step_id")

/-- An event of the work of a step, which announces neither a status nor a start. -/
def Event.Working (event : Event) : Prop := event.Plain ∧ event.1 ≠ "step_started"

theorem working_one {eventType : String} {detail : Dict}
    (other : eventType ∉ ["execution_status", "step_started"])
    (absent : detail.get? "event_type" = none) :
    ∀ event ∈ [(eventType, detail)], Event.Working event := by
  simp only [List.mem_cons, List.not_mem_nil, or_false, not_or] at other
  intro event member
  obtain rfl := List.mem_singleton.mp member
  exact ⟨plain_event other.1 absent, other.2⟩

variable {execution : Execution} {event : Event} {events : List Event} {now : Time}

theorem timelineRow_plain (plain : event.Plain) : isStatusRow
    (timelineRow event.1 event.2 now) = false := by
  simp only [isStatusRow, timelineRow, Dict.get]
  rw [Dict.get?_merge_of_absent plain.2]
  simpa using plain.1

/-- Appending events writes nothing but the timeline and the time of update. -/
theorem appendEvents_eq :
    appendEvents execution events now = { execution with
      traceTimeline := execution.traceTimeline ++ events.map fun event => timelineRow
        event.1 event.2 now
      updatedAt := if events = [] then execution.updatedAt else now } := by
  induction events generalizing execution with
  | nil => simp [appendEvents]
  | cons event rest ih =>
      have step : appendEvents execution (event :: rest) now =
          appendEvents (appendTimeline execution event.1 event.2 now) rest now := rfl
      rw [step, ih]
      simp [appendTimeline]

theorem statusRows_append (a b : List Dict) : statusRows
    (a ++ b) = statusRows a ++ statusRows b := by
  simp [statusRows]

theorem statusRows_plain (plain : ∀ event ∈ events, event.Plain) :
    statusRows (events.map fun event => timelineRow event.1 event.2 now) = [] := by
  simp only [statusRows, List.map_eq_nil_iff, List.filter_eq_nil_iff, List.mem_map]
  rintro row ⟨event, member, rfl⟩
  simp [timelineRow_plain (plain event member)]

theorem startedRows_append (a b : List Dict) : startedRows
    (a ++ b) = startedRows a ++ startedRows b := by
  simp [startedRows]

/-- The type of a row is that of its event. -/
theorem timelineRow_type {eventType : String} {detail : Dict}
    (absent : detail.get? "event_type" = none) :
    (timelineRow eventType detail now).get "event_type" = .str eventType := by
  simp only [timelineRow, Dict.get]
  rw [Dict.get?_merge_of_absent absent]
  rfl

theorem startedRows_other {eventType : String} {detail : Dict} (other : eventType ≠ "step_started")
    (absent : detail.get? "event_type" = none) : startedRows
      [timelineRow eventType detail now] = [] := by
  simp [startedRows, isStartedRow, timelineRow_type absent, other]

theorem startedRows_working (working : ∀ event ∈ events, event.Working) :
    startedRows (events.map fun event => timelineRow event.1 event.2 now) = [] := by
  induction events with
  | nil => rfl
  | cons event rest ih =>
      obtain ⟨⟨_, absent⟩, other⟩ := working event List.mem_cons_self
      rw [List.map_cons, ← List.singleton_append, startedRows_append,
        startedRows_other other absent, ih fun e member => working e
          (List.mem_cons_of_mem _ member)]
      rfl

theorem statusRows_status (status : ExecutionStatus) (detail : Dict)
    (plain : detail.get? "event_type" = none ∧ detail.get? "status" = none) :
    statusRows [timelineRow "execution_status" (("status", .str status.value) :: detail) now] =
      [.str status.value] := by
  have absent : Dict.get? (("status", Json.str status.value) :: detail) "event_type" = none := by
    simpa using plain.1
  have kind := @timelineRow_type now "execution_status" _ absent
  have value : (timelineRow "execution_status" (("status", .str status.value) :: detail) now).get
      "status" = .str status.value := by
    have step : timelineRow "execution_status" (("status", .str status.value) :: detail) now =
        Dict.merge [("event_type", .str "execution_status"), ("at", .str now.isoformat),
          ("status", .str status.value)] detail := rfl
    rw [step, Dict.get, Dict.get?_merge_of_absent plain.2]
    rfl
  simp [statusRows, isStatusRow, kind, value]

section
variable {status : ExecutionStatus} {detail validationSummary result : Dict} {eventType : String}

@[simp] theorem appendTimeline_executionId :
    (appendTimeline execution eventType detail now).executionId = execution.executionId := rfl
@[simp] theorem appendTimeline_status :
    (appendTimeline execution eventType detail now).status = execution.status := rfl
@[simp] theorem enterStatus_executionId :
    (enterStatus execution status detail now).executionId = execution.executionId := rfl
@[simp] theorem enterStatus_status : (enterStatus execution status detail now).status = status :=
  rfl
@[simp] theorem enterStatus_currentPlanId :
    (enterStatus execution status detail now).currentPlanId = execution.currentPlanId := rfl

theorem appendTimeline_startedRows (other : eventType ≠ "step_started")
    (absent : detail.get? "event_type" = none) :
    startedRows (appendTimeline execution eventType detail now).traceTimeline = startedRows
      execution.traceTimeline := by
  simp only [appendTimeline, startedRows_append, startedRows_other other absent, List.append_nil]

/-- Moving the status starts no step. -/
theorem enterStatus_startedRows (absent : detail.get? "event_type" = none) :
    startedRows (enterStatus execution status detail now).traceTimeline = startedRows
      execution.traceTimeline :=
  appendTimeline_startedRows (by decide) (by simpa using absent)

theorem concludeExecution_startedRows (working : ∀ event ∈ events, event.Working) :
    startedRows (concludeExecution execution status validationSummary result events
      now).traceTimeline =
      startedRows execution.traceTimeline := by
  rw [concludeExecution, appendTimeline_startedRows (by decide) rfl, appendEvents_eq,
    startedRows_append, startedRows_working working, List.append_nil]

/-- A concluded row keeps its identity, its plan and its input. -/
theorem concludeExecution_eq : ∃ timeline t, concludeExecution execution status validationSummary
    result events now =
    { execution with
      status := status
      updatedAt := t
      completedAt := if status = .completed then some now else execution.completedAt
      validationSummary := some validationSummary
      result := some result
      traceTimeline := timeline } := by
  simp only [concludeExecution, appendEvents_eq, appendTimeline]
  exact ⟨_, _, rfl⟩

@[simp] theorem concludeExecution_status :
    (concludeExecution execution status validationSummary result events now).status = status := by
  simp [concludeExecution, appendEvents_eq]

@[simp] theorem concludeExecution_executionId :
    (concludeExecution execution status validationSummary result events now).executionId =
      execution.executionId := by simp [concludeExecution, appendEvents_eq]

@[simp] theorem concludeExecution_workflowType :
    (concludeExecution execution status validationSummary result events now).workflowType =
      execution.workflowType := by simp [concludeExecution, appendEvents_eq, appendTimeline]

@[simp] theorem concludeExecution_result :
    (concludeExecution execution status validationSummary result events now).result =
      some result := by
  simp [concludeExecution, appendEvents_eq, appendTimeline]

end
end AgenticPlatform
