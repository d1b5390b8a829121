import AgenticPlatform.Schema
import AgenticPlatform.Streams.Emitter
import Mathlib.Algebra.Order.Ring.Unbundled.Rat

/-! The event stream of an execution: the diff of repository snapshots against a cursor, and the
loop that polls the repository and sends what the diff finds. -/
namespace AgenticPlatform
open Streams (Emitter)
open Streams.Emitter

inductive ExecutionStreamEventType where
  | executionUpdated | stepUpdated | traceEvent | approvalRequired | executionCompleted
  | executionFailed | executionCancelled | replayCreated | heartbeat
  deriving DecidableEq, Repr

def ExecutionStreamEventType.value : ExecutionStreamEventType → String
  | executionUpdated => "execution_updated"
  | stepUpdated => "step_updated"
  | traceEvent => "trace_event"
  | approvalRequired => "approval_required"
  | executionCompleted => "execution_completed"
  | executionFailed => "execution_failed"
  | executionCancelled => "execution_cancelled"
  | replayCreated => "replay_created"
  | heartbeat => "heartbeat"

/-- `_TERMINAL_STREAM_EVENTS`. -/
def ExecutionStreamEventType.isTerminal : ExecutionStreamEventType → Bool
  | executionCompleted | executionFailed | executionCancelled => true
  | _ => false

structure ExecutionStreamEvent where
  eventType : ExecutionStreamEventType
  executionId : UUID
  sequence : Nat
  emittedAt : Time
  payload : Dict
  deriving DecidableEq

namespace ExecutionStreamEvent

def isTerminal (ev : ExecutionStreamEvent) : Bool := ev.eventType.isTerminal

/-- `event.model_dump(mode="json")`. -/
def modelDump (ev : ExecutionStreamEvent) : Dict :=
  [("event_type", .str ev.eventType.value), ("execution_id", .str ev.executionId.str),
    ("sequence", .int ev.sequence), ("emitted_at", .str ev.emittedAt.jsonText),
      ("payload", .obj ev.payload)]

end ExecutionStreamEvent

/-- An entry of the projection's `steps`: a step and its result, both dumped. -/
structure StepRow where
  step : Dict
  stepResult : Option Dict
  deriving DecidableEq

/-- The entries of `build_trace_projection` that the diff reads. -/
structure TraceProjection where
  timeline : List Json
  steps : List StepRow
  approvals : List Json
  deriving DecidableEq

def TraceProjection.empty : TraceProjection := ⟨[], [], []⟩

/-- `is_terminal_execution_status`. -/
def isTerminalExecutionStatus (status : String) : Bool :=
  status = "completed" || status = "failed" || status = "cancelled"

structure StreamCursor where
  executionStatus : Option String
  timelineLen : Nat
  /-- Texts under step ids. -/
  stepStatusById : Dict
  approvalCount : Nat
  sequence : Nat

/-- `StreamCursor()`. -/
def StreamCursor.fresh : StreamCursor := ⟨none, 0, [], 0, 0⟩

abbrev Sends := Emitter StreamCursor ExecutionStreamEvent

/-- The keys that `_bounded_trace_payload` copies. -/
def tracePayloadKeys : List String :=
  ["step_id", "planner_step_name", "workflow_type", "status", "path", "task", "tool_name"]

/-- `for key in keys: if key in row: out[key] = row[key]`. -/
def copyPresent (row : Dict) : List String → Dict → Dict
  | [], out => out
  | key :: rest, out =>
      match row.get? key with
      | some v => copyPresent row rest (out.set key v)
      | none => copyPresent row rest out

/-- `_bounded_trace_payload`; `dumps` is `json.dumps(v, default=str)`. -/
def boundedTracePayload (dumps : Json → String) (row : Dict) : Dict :=
  let out : Dict := [("event_type", row.get "event_type"), ("at", row.get "at")]
  let out := copyPresent row tracePayloadKeys out
  let detail : Dict := row.filter fun kv => kv.1 ≠ "event_type" ∧ kv.1 ≠ "at"
  if detail.isEmpty then out
  else
    let raw := dumps (.obj detail)
    if raw.length > 800 then out.set "detail_excerpt" (.str (slice raw 0 800))
    else out.set "detail" (.obj detail)

/-- `_step_payload`. -/
def stepPayload (st : Dict) (stepResult : Option Dict) : Dict :=
  let payload : Dict :=
    [("step_id", st.get "step_id"), ("status", st.get "status"), ("step_type", st.get "step_type"),
      ("planner_step_name", Dict.get (st.get "input").asDict "planner_step_name")]
  match stepResult with
  | none => payload
  | some sr =>
      let payload := payload.set "confidence_score" (sr.get "confidence_score")
      match sr.get "validation_outcome" with
      | .obj vo => payload.set "validation_status" (Dict.get vo "status")
      | _ => payload

/-- `_result_summary`. -/
def resultSummary (execution : Execution) : Dict :=
  match execution.result with
  | none => []
  | some res =>
      ["outcome", "workflow_type", "validation_status", "likely_cause", "confidence_score",
        "confidence"].filterMap
        fun k => (res.get? k).map fun v => (k, v)

section
variable (text : Rendering) (dumps : Json → String) (eid : UUID) (ts : Time)

/-- `emit(etype, payload)`. -/
def emit (etype : ExecutionStreamEventType) (payload : Dict) : Sends := fun cursor =>
  let sequence := cursor.sequence + 1
  ({ cursor with sequence },
    [{ eventType := etype, executionId := eid, sequence, emittedAt := ts, payload }])

/-- The terminal event of a terminal status. -/
def emitTerminal (execution : Execution) : Sends :=
  let status := execution.status.value
  match execution.status with
  | .completed => emit eid ts .executionCompleted
      [("status", .str status), ("result_summary", .obj (resultSummary execution))]
  | .failed => emit eid ts .executionFailed
      [("status", .str status), ("result_summary", .obj (resultSummary execution))]
  | .cancelled => emit eid ts .executionCancelled
      [("status", .str status), ("cancelled_at", .ofOption (fun t => .str t.isoformat)
        execution.cancelledAt)]
  | _ => quiet

/-- The events of a status that has changed. -/
def emitStatus (execution : Execution) : Sends :=
  let status := execution.status.value
  (emit eid ts .executionUpdated
    [("status", .str status), ("workflow_type", .str execution.workflowType),
      ("updated_at", .str execution.updatedAt.isoformat)]).andThen
  ((when (execution.status = .awaitingApproval)
    (emit eid ts .approvalRequired
      [("status", .str status),
        ("governance", .obj (Dict.get (execution.result.getD []) "governance").asDict)])).andThen
  (emitTerminal eid ts execution))

def diffStatus (execution : Execution) : Sends :=
  let status := execution.status.value
  reading fun cursor =>
    when (cursor.executionStatus ≠ some status)
      ((change fun cursor => { cursor with executionStatus := some status }).andThen
      (emitStatus eid ts execution))

/-- One row of the timeline. -/
def diffTraceRow : Json → Sends
  | .obj row =>
      let et := text.str ((Dict.get row "event_type").pyOr (.str ""))
      (emit eid ts .traceEvent (boundedTracePayload dumps row)).andThen
      (when (et = "replay_created")
        (emit eid ts .replayCreated
          [("replay_execution_id", Dict.get row "replay_execution_id"),
            ("source_execution_id", (Dict.get row "source_execution_id").pyOr (.str eid.str)),
            ("replay_mode", Dict.get row "replay_mode")]))
  | _ => quiet

def diffTimeline (timeline : List Json) : Sends :=
  reading fun cursor =>
    (each (diffTraceRow text dumps eid ts) (timeline.drop cursor.timelineLen)).andThen
    (change fun cursor => { cursor with timelineLen := timeline.length })

/-- One row of the steps. -/
def diffStep (row : StepRow) : Sends :=
  let sid := text.str ((row.step.get "step_id").pyOr (.str ""))
  let stStatus := text.str ((row.step.get "status").pyOr (.str ""))
  when (sid ≠ "")
    (reading fun cursor =>
      when (cursor.stepStatusById.get? sid ≠ some (.str stStatus))
        ((change fun cursor =>
          { cursor with
            stepStatusById := cursor.stepStatusById.set sid (.str stStatus) }).andThen
        (emit eid ts .stepUpdated (stepPayload row.step row.stepResult))))

/-- The event of the last approval recorded. -/
def emitApproval (approvals : List Json) : Sends :=
  match approvals.getLast? with
  | some (.obj last) => emit eid ts .executionUpdated
      [("approval_recorded", .bool true), ("decision", Dict.get last "decision"),
        ("approver", Dict.get last "approver")]
  | _ => quiet

def diffApprovals (approvals : List Json) : Sends :=
  reading fun cursor =>
    when (approvals.length > cursor.approvalCount)
      ((change fun cursor => { cursor with approvalCount := approvals.length }).andThen
      (emitApproval eid ts approvals))

/-- What changes after the status. -/
def diffTrace (trace : TraceProjection) : Sends :=
  (diffTimeline text dumps eid ts trace.timeline).andThen
  ((each (diffStep text eid ts) trace.steps).andThen
  (diffApprovals eid ts trace.approvals))

end

def diffStreamEvents (text : Rendering) (dumps : Json → String) (execution : Execution)
    (trace : TraceProjection) (now : Time) : Sends :=
  (diffStatus execution.executionId now execution).andThen
    (diffTrace text dumps execution.executionId now trace)

/-- The stream's part of the gateway's settings. -/
structure StreamSettings where
  streamHeartbeatSec : Rat
  streamMaxDurationSec : Rat

/-- What one round of the loop reads. -/
structure Poll where
  /-- The event loop's clock. -/
  nowLoop : Rat
  execution : Option Execution
  projection : Option TraceProjection
  now : Time

/-- The variables that the rounds of the loop share. -/
structure StreamState where
  cursor : StreamCursor
  lastHeartbeat : Rat
  terminalSent : Bool

/-- The envelope of a status that was terminal although no terminal event was sent. -/
def terminalEnvelope (eid : UUID) (sequence : Nat) (ts : Time) (status : String) :
    ExecutionStreamEvent :=
  { eventType :=
      if status = "failed" then .executionFailed
      else if status = "cancelled" then .executionCancelled
      else .executionCompleted
    executionId := eid, sequence, emittedAt := ts, payload := [("status", .str status)] }

def heartbeatEvent (eid : UUID) (sequence : Nat) (ts : Time) : ExecutionStreamEvent :=
  { eventType := .heartbeat, executionId := eid, sequence, emittedAt := ts, payload := [] }

/-- The rounds of `stream_execution_sse`: the events sent, and whether the stream is closed. -/
def streamRounds (text : Rendering) (dumps : Json → String) (settings : StreamSettings) (eid : UUID)
    (started : Rat) (st : StreamState) : List Poll → List ExecutionStreamEvent × Bool
  | [] => ([], false)
  | poll :: rest =>
      if poll.nowLoop - started > max 30 settings.streamMaxDurationSec then ([], true)
      else
        match poll.execution, poll.projection with
        | some ex, some projection =>
            let (cursor, batch) := diffStreamEvents text dumps ex projection poll.now st.cursor
            let terminalSent := st.terminalSent || batch.any (·.isTerminal)
            let status := ex.status.value
            if isTerminalExecutionStatus status && (terminalSent || batch.isEmpty) then
              if terminalSent then (batch, true)
              else (batch ++ [terminalEnvelope eid (cursor.sequence + 1) poll.now status], true)
            else
              let beats :=
                decide (poll.nowLoop - st.lastHeartbeat ≥ max 5 settings.streamHeartbeatSec)
              let beat : List ExecutionStreamEvent :=
                if beats then [heartbeatEvent eid cursor.sequence poll.now] else []
              let lastHeartbeat := if beats then poll.nowLoop else st.lastHeartbeat
              let later := streamRounds text dumps settings eid started
                ⟨cursor, lastHeartbeat, terminalSent⟩ rest
              (batch ++ beat ++ later.1, later.2)
        | _, _ => ([], true)

/-- The events of `stream_execution_sse` for these polls, and whether it has ended with them. -/
def streamExecutionSse (text : Rendering) (dumps : Json → String)
    (settings : StreamSettings) (eid : UUID) (started : Rat) (polls : List Poll) :
    List ExecutionStreamEvent × Bool :=
  streamRounds text dumps settings eid started ⟨.fresh, started, false⟩ polls

end AgenticPlatform
