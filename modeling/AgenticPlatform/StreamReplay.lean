import AgenticPlatform.Streaming
import Mathlib.Logic.Function.Basic

/-! A client that folds the events of a stream knows what the polled snapshots said: the events are
numbered without gap, and the status, the timeline and the step statuses are those of the last
one. -/
namespace AgenticPlatform
open Streams (Emitter)
open Streams.Emitter

/-- What the events of a stream have told so far. -/
structure StreamView where
  status : Option String
  rows : List (Json × Json)
  stepStatus : String → Option String

namespace StreamView

def nothing : StreamView := ⟨none, [], fun _ => none⟩

/-- The status that an execution-level event carries replaces the one before, the status of a step
update replaces that of the step, and a trace event adds a row. -/
def receive (view : StreamView) (ev : ExecutionStreamEvent) : StreamView :=
  match ev.eventType with
  | .executionUpdated | .approvalRequired | .executionCompleted | .executionFailed
  | .executionCancelled =>
      match ev.payload.get "status" with
      | .str status => { view with status := some status }
      | _ => view
  | .traceEvent =>
      { view with rows := view.rows ++ [(ev.payload.get "event_type", ev.payload.get "at")] }
  | .stepUpdated =>
      match ev.payload.get "step_id", ev.payload.get "status" with
      | .str sid, .str status =>
          { view with stepStatus := Function.update view.stepStatus sid (some status) }
      | _, _ => view
  | .replayCreated | .heartbeat => view

/-- The view after these events. -/
def receiveAll (view : StreamView) (events : List ExecutionStreamEvent) : StreamView :=
  events.foldl receive view

variable {view : StreamView} {xs ys : List ExecutionStreamEvent} {ev : ExecutionStreamEvent}

@[simp] theorem receiveAll_nil : view.receiveAll [] = view := rfl

@[simp] theorem receiveAll_cons : view.receiveAll (ev :: xs) = (view.receive ev).receiveAll xs :=
  rfl

@[simp] theorem receiveAll_append : view.receiveAll
    (xs ++ ys) = (view.receiveAll xs).receiveAll ys :=
  List.foldl_append

end StreamView

/-- One poll of the repository. -/
structure Snapshot where
  execution : Execution
  projection : TraceProjection
  now : Time

/-- `event_type` and `at` of a row that is a dictionary. -/
def rowKey : Json → Option (Json × Json)
  | .obj row => some (Dict.get row "event_type", Dict.get row "at")
  | _ => none

namespace StepRow

/-- The step id, where it is a text. -/
def id (row : StepRow) : String := (row.step.get "step_id").str?.getD ""

/-- The step status, where it is a text. -/
def status (row : StepRow) : String := (row.step.get "status").str?.getD ""

/-- Step id and status are non-empty texts. -/
structure Named (row : StepRow) : Prop where
  id : row.step.get "step_id" = .str row.id ∧ row.id ≠ ""
  status : row.step.get "status" = .str row.status ∧ row.status ≠ ""

/-- The text the diff makes of a value that is a non-empty text. -/
theorem text_of_str {text : Rendering} {v : Json} {s : String} (is_text : v = .str s ∧ s ≠ "") :
    text.str (v.pyOr (.str "")) = s := by
  rw [is_text.1]
  simp [Json.pyOr, Json.truthy, is_text.2, Rendering.str]

theorem Named.idText {row : StepRow} (named : row.Named) {text : Rendering} :
    text.str ((row.step.get "step_id").pyOr (.str "")) = row.id :=
  text_of_str named.id

theorem Named.statusText {row : StepRow} (named : row.Named) {text : Rendering} :
    text.str ((row.step.get "status").pyOr (.str "")) = row.status :=
  text_of_str named.status

end StepRow

namespace TraceProjection

/-- The status of each step. -/
def stepStatus (trace : TraceProjection) (sid : String) : Option String :=
  (trace.steps.find? fun row => row.id = sid).map StepRow.status

/-- Step ids and statuses are non-empty, and the ids distinct. -/
structure WellFormed (trace : TraceProjection) : Prop where
  named : ∀ row ∈ trace.steps, row.Named
  distinct : (trace.steps.map StepRow.id).Nodup

/-- The later timeline extends the earlier one and no step has disappeared. -/
structure Extends (earlier later : TraceProjection) : Prop where
  timeline : earlier.timeline <+: later.timeline
  steps : earlier.steps.map StepRow.id ⊆ later.steps.map StepRow.id

theorem stepStatus_eq_none {trace : TraceProjection} {sid : String} :
    trace.stepStatus sid = none ↔ sid ∉ trace.steps.map StepRow.id := by
  simp [stepStatus, List.find?_eq_none]

theorem Extends.rows {earlier later : TraceProjection} (extended : earlier.Extends later) :
    earlier.timeline.filterMap rowKey ++ (later.timeline.drop earlier.timeline.length).filterMap
      rowKey =
      later.timeline.filterMap rowKey := by
  obtain ⟨more, whole⟩ := extended.timeline
  rw [← whole, List.drop_left, List.filterMap_append]

theorem Extends.stepStatus {earlier later : TraceProjection} (extended : earlier.Extends later)
    {sid : String} :
    (later.stepStatus sid).or (earlier.stepStatus sid) = later.stepStatus sid := by
  cases found : later.stepStatus sid with
  | some status => rfl
  | none =>
      have absent := stepStatus_eq_none.mp found
      rw [stepStatus_eq_none.mpr fun member => absent (extended.steps member)]
      rfl

end TraceProjection

/-- The events are numbered on from the cursor's sequence. -/
abbrev InSequence : StreamCursor → List ExecutionStreamEvent → StreamCursor → Prop :=
  Numbered StreamCursor.sequence ExecutionStreamEvent.sequence

theorem inSequence_composes : Composes InSequence := numbered_composes _ _

section
variable {text : Rendering} {dumps : Json → String} {eid : UUID} {ts : Time}

theorem emit_inSequence {etype : ExecutionStreamEventType} {payload : Dict} :
    Follows InSequence (emit eid ts etype payload) :=
  fun _ => ⟨rfl, rfl⟩

theorem change_inSequence {f : StreamCursor → StreamCursor}
    (keeps : ∀ cursor, (f cursor).sequence = cursor.sequence) :
    Follows InSequence (change f) :=
  fun cursor => ⟨rfl, keeps cursor⟩

theorem emitStatus_inSequence {execution : Execution} : Follows InSequence
    (emitStatus eid ts execution) := by
  apply Follows.andThen inSequence_composes
  · exact emit_inSequence
  apply Follows.andThen inSequence_composes
  · exact Follows.when inSequence_composes fun _ => emit_inSequence
  unfold emitTerminal
  split
  · exact emit_inSequence
  · exact emit_inSequence
  · exact emit_inSequence
  · exact follows_quiet inSequence_composes

theorem diffStatus_inSequence {execution : Execution} : Follows InSequence
    (diffStatus eid ts execution) := by
  refine follows_reading fun cursor => ?_
  refine Follows.when inSequence_composes (fun _ => ?_) cursor
  apply Follows.andThen inSequence_composes
  · exact change_inSequence fun _ => rfl
  · exact emitStatus_inSequence

theorem diffTraceRow_inSequence {row : Json} : Follows InSequence
    (diffTraceRow text dumps eid ts row) := by
  unfold diffTraceRow
  split
  · apply Follows.andThen inSequence_composes
    · exact emit_inSequence
    · exact Follows.when inSequence_composes fun _ => emit_inSequence
  · exact follows_quiet inSequence_composes

theorem diffTimeline_inSequence {timeline : List Json} :
    Follows InSequence (diffTimeline text dumps eid ts timeline) := by
  refine follows_reading fun cursor => ?_
  refine Follows.andThen inSequence_composes ?_ ?_ cursor
  · exact follows_each inSequence_composes fun _ _ => diffTraceRow_inSequence
  · exact change_inSequence fun _ => rfl

theorem diffStep_inSequence {row : StepRow} : Follows InSequence (diffStep text eid ts row) := by
  refine Follows.when inSequence_composes fun _ => follows_reading fun cursor => ?_
  refine Follows.when inSequence_composes (fun _ => ?_) cursor
  apply Follows.andThen inSequence_composes
  · exact change_inSequence fun _ => rfl
  · exact emit_inSequence

theorem diffApprovals_inSequence {approvals : List Json} :
    Follows InSequence (diffApprovals eid ts approvals) := by
  refine follows_reading fun cursor => ?_
  refine Follows.when inSequence_composes (fun _ => ?_) cursor
  apply Follows.andThen inSequence_composes
  · exact change_inSequence fun _ => rfl
  unfold emitApproval
  split
  · exact emit_inSequence
  · exact follows_quiet inSequence_composes

theorem diffStreamEvents_inSequence {execution : Execution} {trace : TraceProjection} {now : Time} :
    Follows InSequence (diffStreamEvents text dumps execution trace now) := by
  apply Follows.andThen inSequence_composes
  · exact diffStatus_inSequence
  apply Follows.andThen inSequence_composes
  · exact diffTimeline_inSequence
  apply Follows.andThen inSequence_composes
  · exact follows_each inSequence_composes fun _ _ => diffStep_inSequence
  · exact diffApprovals_inSequence

end

theorem Dict.get_set {d : Dict} {k j : String} {v : Json} :
    (d.set k v).get j = if k = j then v else d.get j := by
  simp only [Dict.get, Dict.get?_set]
  split
  · rfl
  · rfl

theorem stepPayload_get {step : Dict} {result : Option Dict} {key : String}
    (own : key ≠ "confidence_score") (own' : key ≠ "validation_status") :
    (stepPayload step result).get key = (stepPayload step none).get key := by
  cases result with
  | none => rfl
  | some sr =>
      unfold stepPayload
      dsimp only
      split
      · rw [Dict.get_set, if_neg own'.symm, Dict.get_set, if_neg own.symm]
      · rw [Dict.get_set, if_neg own.symm]

theorem copyPresent_get {row out : Dict} {keys : List String} {key : String} (absent : key ∉ keys) :
    (copyPresent row keys out).get key = out.get key := by
  induction keys generalizing out with
  | nil => rfl
  | cons other rest ih =>
      rw [List.mem_cons, not_or] at absent
      unfold copyPresent
      split
      · rw [ih absent.2, Dict.get_set, if_neg (Ne.symm absent.1)]
      · exact ih absent.2

theorem boundedTracePayload_get {dumps : Json → String} {row : Dict} {key : String}
    (own : key ∉ tracePayloadKeys) (apart : key ≠ "detail_excerpt" ∧ key ≠ "detail") :
    (boundedTracePayload dumps row).get key =
      Dict.get [("event_type", row.get "event_type"), ("at", row.get "at")] key := by
  unfold boundedTracePayload
  dsimp only
  split
  · exact copyPresent_get own
  split
  · rw [Dict.get_set, if_neg apart.1.symm, copyPresent_get own]
  · rw [Dict.get_set, if_neg apart.2.symm, copyPresent_get own]

section
variable {text : Rendering} {dumps : Json → String} {eid : UUID} {ts : Time} {cursor : StreamCursor}
  {view : StreamView}

theorem emitStatus_tells {execution : Execution} :
    view.receiveAll (emitStatus eid ts execution cursor).2 =
      { view with status := some execution.status.value } := by
  unfold emitStatus emitTerminal
  cases execution.status
  all_goals rfl

theorem diffStatus_tells {execution : Execution} (known : view.status = cursor.executionStatus) :
    view.receiveAll (diffStatus eid ts execution cursor).2 =
      { view with status := some execution.status.value } := by
  unfold diffStatus
  by_cases same : cursor.executionStatus = some execution.status.value
  · have kept : { view with status := some execution.status.value } = view := by
      rw [← same, ← known]
    simp only [reading_apply, same, ne_eq, not_true_eq_false, not_false_eq_true, when_neg,
      quiet_apply, kept]
    rfl
  · simp only [reading_apply, ne_eq, same, not_false_eq_true, when_pos, andThen_snd, change_apply,
      List.nil_append]
    exact emitStatus_tells

theorem diffTraceRow_tells {row : Json} :
    view.receiveAll (diffTraceRow text dumps eid ts row cursor).2 =
      { view with rows := view.rows ++ (rowKey row).toList } := by
  cases row with
  | obj row =>
      have named : (boundedTracePayload dumps row).get "event_type" = Dict.get row "event_type" :=
        boundedTracePayload_get (by decide) (by decide)
      have dated : (boundedTracePayload dumps row).get "at" = Dict.get row "at" :=
        boundedTracePayload_get (by decide) (by decide)
      unfold diffTraceRow
      dsimp only
      by_cases created : text.str ((Dict.get row "event_type").pyOr (.str "")) = "replay_created"
      · simp [created, emit, StreamView.receive, named, dated, rowKey]
      · simp [created, emit, StreamView.receive, named, dated, rowKey]
  | _ => simp [diffTraceRow, rowKey]

theorem eachTraceRow_tells {rows : List Json} :
    view.receiveAll (each (diffTraceRow text dumps eid ts) rows cursor).2 =
      { view with rows := view.rows ++ rows.filterMap rowKey } := by
  induction rows generalizing cursor view with
  | nil => simp [each]
  | cons row rest ih =>
      rw [each, andThen_snd, StreamView.receiveAll_append, diffTraceRow_tells, ih]
      cases told : rowKey row with
      | none => simp [told]
      | some key => simp [told]

theorem diffTimeline_tells {timeline : List Json} :
    view.receiveAll (diffTimeline text dumps eid ts timeline cursor).2 =
      { view with rows := view.rows ++ (timeline.drop cursor.timelineLen).filterMap rowKey } := by
  simp only [diffTimeline, reading_apply, andThen_snd, change_apply, List.append_nil]
  exact eachTraceRow_tells

theorem emitApproval_tells {approvals : List Json} :
    view.receiveAll (emitApproval eid ts approvals cursor).2 = view := by
  unfold emitApproval
  match approvals.getLast? with
  | some (.obj last) => simp [emit, StreamView.receive, Dict.get]
  | some .null | some (.bool _) | some (.int _) | some (.float _) | some (.str _)
  | some (.arr _) | none => rfl

theorem diffApprovals_tells {approvals : List Json} :
    view.receiveAll (diffApprovals eid ts approvals cursor).2 = view := by
  unfold diffApprovals
  by_cases more : approvals.length > cursor.approvalCount
  · simp only [reading_apply, more, when_pos, andThen_snd, change_apply, List.nil_append]
    exact emitApproval_tells
  · simp [more]

/-- The cursor's step statuses are those of the view. -/
def StreamCursor.Agrees (cursor : StreamCursor) (view : StreamView) : Prop :=
  ∀ sid, cursor.stepStatusById.get? sid = (view.stepStatus sid).map Json.str

/-- The view once a step is known to have this status. -/
def StreamView.learn (view : StreamView) (row : StepRow) : StreamView :=
  { view with stepStatus := Function.update view.stepStatus row.id (some row.status) }

theorem learn_of_known {row : StepRow} (known : view.stepStatus row.id = some row.status) :
    view.learn row = view := by
  rw [StreamView.learn, ← known, Function.update_eq_self]

theorem Agrees.set {row : StepRow} (agrees : cursor.Agrees view) (sequence : Nat) :
    StreamCursor.Agrees { cursor with
      stepStatusById := cursor.stepStatusById.set row.id (.str row.status), sequence }
        (view.learn row) := by
  intro sid
  simp only [StreamView.learn, Dict.get?_set]
  by_cases own : row.id = sid
  · subst own
    simp
  · rw [if_neg own, Function.update_of_ne (Ne.symm own)]
    exact agrees sid

theorem diffStep_tells {row : StepRow} (named : row.Named) (agrees : cursor.Agrees view) :
    view.receiveAll (diffStep text eid ts row cursor).2 = view.learn row ∧
      (diffStep text eid ts row cursor).1.Agrees (view.learn row) := by
  have some_id := named.id.2
  simp only [diffStep, named.idText, named.statusText, ne_eq, some_id, not_false_eq_true, when_pos,
    reading_apply]
  by_cases same : cursor.stepStatusById.get? row.id = some (.str row.status)
  · have known : view.stepStatus row.id = some row.status := by
      have kept := (agrees row.id).symm.trans same
      simpa using kept
    simp only [same, not_true_eq_false, not_false_eq_true, when_neg, quiet_apply,
      StreamView.receiveAll_nil, learn_of_known known]
    exact ⟨trivial, agrees⟩
  · have payload_id : (stepPayload row.step row.stepResult).get "step_id" = .str row.id :=
      (stepPayload_get (by decide) (by decide)).trans named.id.1
    have payload_status : (stepPayload row.step row.stepResult).get "status" = .str row.status :=
      (stepPayload_get (by decide) (by decide)).trans named.status.1
    simp only [same, not_false_eq_true, when_pos]
    constructor
    · simp [emit, StreamView.receive, payload_id, payload_status, StreamView.learn]
    · exact Agrees.set agrees (cursor.sequence + 1)

theorem eachStep_tells {rows : List StepRow} (named : ∀ row ∈ rows, row.Named)
    (agrees : cursor.Agrees view) :
    view.receiveAll (each (diffStep text eid ts) rows cursor).2 = rows.foldl StreamView.learn view ∧
      (each (diffStep text eid ts) rows cursor).1.Agrees (rows.foldl StreamView.learn view) := by
  induction rows generalizing cursor view with
  | nil => exact ⟨rfl, agrees⟩
  | cons row rest ih =>
      obtain ⟨told, agrees'⟩ : view.receiveAll (diffStep text eid ts row cursor).2 =
        view.learn row ∧
          (diffStep text eid ts row cursor).1.Agrees (view.learn row) :=
        diffStep_tells (named row List.mem_cons_self) agrees
      rw [each, andThen_snd, andThen_fst, StreamView.receiveAll_append, told, List.foldl_cons]
      exact ih (fun other member => named other (List.mem_cons_of_mem row member)) agrees'

end

/-- What the cursor has seen, without the sequence. -/
def StreamCursor.marks (cursor : StreamCursor) : StreamCursor := { cursor with sequence := 0 }

/-- Events of these types are sent, and the cursor stays where it is. -/
abbrev Sending (kind : ExecutionStreamEventType → Prop) :
    StreamCursor → List ExecutionStreamEvent → StreamCursor → Prop :=
  Within (fun ev => kind ev.eventType) StreamCursor.marks

section
variable {text : Rendering} {dumps : Json → String} {eid : UUID} {ts : Time} {cursor : StreamCursor}
  {kind : ExecutionStreamEventType → Prop}

theorem emit_sending {etype : ExecutionStreamEventType} {payload : Dict} (allowed : kind etype) :
    Follows (Sending kind) (emit eid ts etype payload) :=
  fun _ => ⟨List.forall_mem_singleton.mpr allowed, rfl⟩

/-- The types of the events about a new status. -/
def OfStatus (etype : ExecutionStreamEventType) : Prop :=
  etype = .executionUpdated ∨ etype = .approvalRequired ∨ etype.isTerminal = true

/-- The types of the events about rows of the timeline. -/
def OfTimeline (etype : ExecutionStreamEventType) : Prop :=
  etype = .traceEvent ∨ etype = .replayCreated

theorem diffTraceRow_sending {row : Json} : Follows (Sending OfTimeline)
    (diffTraceRow text dumps eid ts row) := by
  unfold diffTraceRow
  split
  · apply Follows.andThen (within_composes _ _)
    · exact emit_sending (.inl rfl)
    · exact Follows.when (within_composes _ _) fun _ => emit_sending (.inr rfl)
  · exact follows_quiet (within_composes _ _)

theorem eachTraceRow_sending {rows : List Json} :
    Follows (Sending OfTimeline) (each (diffTraceRow text dumps eid ts) rows) :=
  follows_each (within_composes _ _) fun _ _ => diffTraceRow_sending

theorem emitStatus_sending {execution : Execution} :
    Follows (Sending OfStatus) (emitStatus eid ts execution) := by
  apply Follows.andThen (within_composes _ _)
  · exact emit_sending (.inl rfl)
  apply Follows.andThen (within_composes _ _)
  · exact Follows.when (within_composes _ _) fun _ => emit_sending (.inr (.inl rfl))
  unfold emitTerminal
  split
  · exact emit_sending (.inr (.inr rfl))
  · exact emit_sending (.inr (.inr rfl))
  · exact emit_sending (.inr (.inr rfl))
  · exact follows_quiet (within_composes _ _)

theorem emitApproval_sending {approvals : List Json} :
    Follows (Sending (· = .executionUpdated)) (emitApproval eid ts approvals) := by
  unfold emitApproval
  split
  · exact emit_sending rfl
  · exact follows_quiet (within_composes _ _)

theorem moved_of_marks {before after : StreamCursor} (same : after.marks = before.marks) :
    ∃ n, after = { before with sequence := n } := by
  obtain ⟨status, len, steps, count, n⟩ := after
  obtain ⟨rfl, rfl, rfl, rfl, -⟩ := StreamCursor.mk.inj same
  exact ⟨n, rfl⟩

theorem diffStatus_cursor {execution : Execution} :
    ∃ n, (diffStatus eid ts execution cursor).1 =
      { cursor with executionStatus := some execution.status.value, sequence := n } := by
  unfold diffStatus
  by_cases same : cursor.executionStatus = some execution.status.value
  · simp only [reading_apply, same, ne_eq, not_true_eq_false, not_false_eq_true,
      when_neg, quiet_apply]
    exact ⟨cursor.sequence, by rw [← same]⟩
  · simp only [reading_apply, ne_eq, same, not_false_eq_true, when_pos, andThen_fst, change_apply]
    exact moved_of_marks (emitStatus_sending
      { cursor with executionStatus := some execution.status.value }).2

theorem diffTimeline_cursor {timeline : List Json} :
    ∃ n, (diffTimeline text dumps eid ts timeline cursor).1 =
      { cursor with timelineLen := timeline.length, sequence := n } := by
  have rows : Follows (Sending OfTimeline) (each (diffTraceRow text dumps eid ts)
    (timeline.drop cursor.timelineLen)) :=
    eachTraceRow_sending
  obtain ⟨n, moved⟩ := moved_of_marks (rows cursor).2
  simp only [diffTimeline, reading_apply, andThen_fst, change_apply, moved]
  exact ⟨n, rfl⟩

theorem diffApprovals_cursor {approvals : List Json} :
    ∃ n, (diffApprovals eid ts approvals cursor).1 =
      { cursor with approvalCount := max cursor.approvalCount approvals.length, sequence :=
        n } := by
  unfold diffApprovals
  by_cases more : approvals.length > cursor.approvalCount
  · simp only [reading_apply, more, when_pos, andThen_fst, change_apply, Nat.max_eq_right more.le]
    exact moved_of_marks (emitApproval_sending { cursor with approvalCount := approvals.length }).2
  · simp only [reading_apply, more, not_false_eq_true, when_neg, quiet_apply, Nat.max_eq_left
      (not_lt.mp more)]
    exact ⟨cursor.sequence, rfl⟩

/-- The step section leaves the rest of the cursor alone. -/
theorem eachStep_sending {rows : List StepRow} :
    Follows (Within (fun ev => ev.eventType = .stepUpdated) fun cursor =>
      (cursor.executionStatus, cursor.timelineLen, cursor.approvalCount))
        (each (diffStep text eid ts) rows) := by
  refine follows_each (within_composes _ _) fun row _ => ?_
  refine Follows.when (within_composes _ _) fun _ => follows_reading fun cursor => ?_
  refine Follows.when (within_composes _ _) (fun _ => ?_) cursor
  apply Follows.andThen (within_composes _ _)
  · exact fun _ => ⟨List.forall_mem_nil _, rfl⟩
  · exact fun _ => ⟨List.forall_mem_singleton.mpr rfl, rfl⟩

theorem eachStep_cursor {rows : List StepRow} :
    ∃ statuses n, (each (diffStep text eid ts) rows cursor).1 =
      { cursor with stepStatusById := statuses, sequence := n } := by
  have kept : (fun c : StreamCursor => (c.executionStatus, c.timelineLen, c.approvalCount))
      (each (diffStep text eid ts) rows cursor).1 = _ := (eachStep_sending cursor).2
  generalize (each (diffStep text eid ts) rows cursor).1 = after at kept
  obtain ⟨status, len, steps, count, n⟩ := after
  simp only [Prod.mk.injEq] at kept
  obtain ⟨rfl, rfl, rfl⟩ := kept
  exact ⟨steps, n, rfl⟩

end

theorem foldl_learn {rows : List StepRow} (distinct : (rows.map StepRow.id).Nodup)
    (view : StreamView) :
    rows.foldl StreamView.learn view =
      { view with stepStatus := fun sid =>
          ((rows.find? fun row => row.id = sid).map StepRow.status).or (view.stepStatus sid) } := by
  induction rows generalizing view with
  | nil => rfl
  | cons row rest ih =>
      obtain ⟨fresh, distinct'⟩ := List.nodup_cons.mp distinct
      rw [List.foldl_cons, ih distinct', StreamView.learn]
      congr 1
      funext sid
      by_cases own : row.id = sid
      · have absent : (rest.find? fun other => other.id = sid) = none := by
          rw [List.find?_eq_none]
          intro other member same
          have found : other.id = row.id := (of_decide_eq_true same).trans own.symm
          exact fresh (found ▸ List.mem_map_of_mem member)
        simp [own, absent]
      · simp [own, Function.update_of_ne (Ne.symm own)]

/-- What is known once a stream has told these events: the numbers run on from one, the client's
view is that of the status and the trace, and so is the cursor. -/
structure Reconstructs (told : Option String × TraceProjection) (cursor : StreamCursor)
    (sent : List ExecutionStreamEvent) : Prop where
  inSequence : InSequence .fresh sent cursor
  view : StreamView.nothing.receiveAll sent =
    ⟨told.1, told.2.timeline.filterMap rowKey, told.2.stepStatus⟩
  status : cursor.executionStatus = told.1
  timelineLen : cursor.timelineLen = told.2.timeline.length
  agrees : cursor.Agrees (StreamView.nothing.receiveAll sent)

/-- What a snapshot says of an execution. -/
def Snapshot.told (snapshot : Snapshot) : Option String × TraceProjection :=
  (some snapshot.execution.status.value, snapshot.projection)

/-- The diff for one snapshot. -/
def Snapshot.diff (text : Rendering) (dumps : Json → String) (snapshot : Snapshot) : Sends :=
  diffStreamEvents text dumps snapshot.execution snapshot.projection snapshot.now

section
variable {text : Rendering} {dumps : Json → String} {cursor : StreamCursor} {view : StreamView}
  {snapshot : Snapshot}

/-- The cursor after a diff. -/
theorem diff_cursor : ∃ statuses n, (snapshot.diff text dumps cursor).1 =
    ⟨some snapshot.execution.status.value, snapshot.projection.timeline.length, statuses,
      max cursor.approvalCount snapshot.projection.approvals.length, n⟩ := by
  set eid := snapshot.execution.executionId
  set ts := snapshot.now
  obtain ⟨n, afterStatus⟩ : ∃ n, (diffStatus eid ts snapshot.execution cursor).1 = _ :=
    diffStatus_cursor
  obtain ⟨m, afterTimeline⟩ : ∃ m, (diffTimeline text dumps eid ts snapshot.projection.timeline
      { cursor with executionStatus := some snapshot.execution.status.value, sequence := n }).1 =
        _ :=
    diffTimeline_cursor
  obtain ⟨statuses, k, afterSteps⟩ : ∃ statuses k,
    (each (diffStep text eid ts) snapshot.projection.steps
      { cursor with
        executionStatus := some snapshot.execution.status.value
        timelineLen := snapshot.projection.timeline.length, sequence := m }).1 = _ :=
    eachStep_cursor
  obtain ⟨j, afterApprovals⟩ : ∃ j, (diffApprovals eid ts snapshot.projection.approvals
      { cursor with
        executionStatus := some snapshot.execution.status.value
        timelineLen := snapshot.projection.timeline.length, stepStatusById :=
          statuses, sequence := k }).1 = _ :=
    diffApprovals_cursor
  refine ⟨statuses, j, ?_⟩
  change ((diffStatus eid ts snapshot.execution).andThen
    (diffTrace text dumps eid ts snapshot.projection) cursor).1 = _
  simp only [diffTrace, andThen_fst, afterStatus, afterTimeline, afterSteps, afterApprovals]

/-- The view after a diff whose cursor was that of the view. -/
theorem diff_tells (wellFormed : snapshot.projection.WellFormed)
    (known : view.status = cursor.executionStatus) (agrees : cursor.Agrees view) :
    view.receiveAll (snapshot.diff text dumps cursor).2 =
        ⟨some snapshot.execution.status.value,
          view.rows ++ (snapshot.projection.timeline.drop cursor.timelineLen).filterMap rowKey,
          fun sid => (snapshot.projection.stepStatus sid).or (view.stepStatus sid)⟩ ∧
      (snapshot.diff text dumps cursor).1.Agrees
        (view.receiveAll (snapshot.diff text dumps cursor).2) := by
  set eid := snapshot.execution.executionId
  set ts := snapshot.now
  set named : StreamView :=
    ⟨some snapshot.execution.status.value,
      view.rows ++ (snapshot.projection.timeline.drop cursor.timelineLen).filterMap rowKey,
        view.stepStatus⟩
  obtain ⟨n, afterStatus⟩ : ∃ n, (diffStatus eid ts snapshot.execution cursor).1 = _ :=
    diffStatus_cursor
  obtain ⟨m, afterTimeline⟩ : ∃ m, (diffTimeline text dumps eid ts snapshot.projection.timeline
      { cursor with executionStatus := some snapshot.execution.status.value, sequence := n }).1 =
        _ :=
    diffTimeline_cursor
  set reached : StreamCursor := { cursor with
    executionStatus := some snapshot.execution.status.value
    timelineLen := snapshot.projection.timeline.length, sequence := m }
  have same : reached.Agrees named := agrees
  obtain ⟨told, agrees'⟩ : named.receiveAll (each (diffStep text eid ts) snapshot.projection.steps
    reached).2 = _ ∧
      (each (diffStep text eid ts) snapshot.projection.steps reached).1.Agrees _ :=
    eachStep_tells wellFormed.named same
  rw [foldl_learn wellFormed.distinct] at told agrees'
  obtain ⟨k, afterApprovals⟩ : ∃ k, (diffApprovals eid ts snapshot.projection.approvals
      (each (diffStep text eid ts) snapshot.projection.steps reached).1).1 = _ :=
        diffApprovals_cursor
  have sent : view.receiveAll (snapshot.diff text dumps cursor).2 =
      named.receiveAll (each (diffStep text eid ts) snapshot.projection.steps reached).2 := by
    change view.receiveAll
      ((diffStatus eid ts snapshot.execution).andThen
        (diffTrace text dumps eid ts snapshot.projection) cursor).2 = _
    simp only [diffTrace, andThen_snd, StreamView.receiveAll_append, diffStatus_tells
      known, afterStatus, diffTimeline_tells, afterTimeline, diffApprovals_tells]
    rfl
  have reached' : (snapshot.diff text dumps cursor).1 =
    (diffApprovals eid ts snapshot.projection.approvals
      (each (diffStep text eid ts) snapshot.projection.steps reached).1).1 := by
    change ((diffStatus eid ts snapshot.execution).andThen
      (diffTrace text dumps eid ts snapshot.projection) cursor).1 = _
    simp only [diffTrace, andThen_fst, afterStatus, afterTimeline]
  rw [sent, told, reached', afterApprovals]
  exact ⟨rfl, agrees'⟩

/-- A snapshot that extends what has been told is told by its diff. -/
theorem Reconstructs.diff {told : Option String × TraceProjection}
    {sent : List ExecutionStreamEvent} (known : Reconstructs told cursor sent)
    (wellFormed : snapshot.projection.WellFormed) (extended : told.2.Extends snapshot.projection) :
    Reconstructs snapshot.told (snapshot.diff text dumps cursor).1
      (sent ++ (snapshot.diff text dumps cursor).2) := by
  have status : (StreamView.nothing.receiveAll sent).status = cursor.executionStatus := by
    rw [known.view, known.status]
  obtain ⟨tells, agrees⟩ : _ ∧ (snapshot.diff text dumps cursor).1.Agrees _ :=
    diff_tells wellFormed status known.agrees
  obtain ⟨statuses, n, moved⟩ : ∃ statuses n, (snapshot.diff text dumps cursor).1 =
    ⟨_, _, statuses, _, n⟩ :=
    diff_cursor
  constructor
  case inSequence =>
    exact inSequence_composes.next known.inSequence (diffStreamEvents_inSequence cursor)
  case view =>
      rw [StreamView.receiveAll_append, tells, known.view, known.timelineLen, extended.rows]
      congr 1
      funext sid
      exact extended.stepStatus
  case status => rw [moved]; rfl
  case timelineLen => rw [moved]; rfl
  case agrees =>
      rw [StreamView.receiveAll_append]
      exact agrees

end

/-- The cursor and the events after diffing these snapshots one by one with one cursor. -/
def diffSnapshots (text : Rendering) (dumps : Json → String) (snapshots : List Snapshot) :
    StreamCursor × List ExecutionStreamEvent :=
  each (Snapshot.diff text dumps) snapshots .fresh

/-- Each snapshot is well formed and extends the one before. -/
structure Unfolding (snapshots : List Snapshot) : Prop where
  wellFormed : ∀ snapshot ∈ snapshots, snapshot.projection.WellFormed
  chain : List.IsChain (fun earlier later => earlier.projection.Extends later.projection) snapshots

theorem reconstructs_nothing : Reconstructs (none, .empty) .fresh [] := by
  constructor
  case inSequence => exact inSequence_composes.silence _
  case view => rfl
  case status => rfl
  case timelineLen => rfl
  case agrees => exact fun _ => rfl

theorem extends_nothing {trace : TraceProjection} : TraceProjection.empty.Extends trace :=
  ⟨List.nil_prefix, List.nil_subset _⟩

theorem Unfolding.told {snapshots : List Snapshot} (unfolding : Unfolding snapshots) :
    List.IsChain (fun (before after : Option String × TraceProjection) =>
      before.2.Extends after.2 ∧ after.2.WellFormed)
        ((none, .empty) :: snapshots.map Snapshot.told) := by
  apply List.IsChain.cons
  · rw [List.isChain_map]
    apply unfolding.chain.imp_of_mem_imp
    exact fun _ later _ member extended => ⟨extended, unfolding.wellFormed later member⟩
  · intro first member
    obtain ⟨snapshot, there, rfl⟩ := List.mem_map.mp (List.mem_of_mem_head? member)
    exact ⟨extends_nothing, unfolding.wellFormed snapshot there⟩

/-- The diffs of a series of snapshots tell the last of them. -/
theorem diffSnapshots_reconstructs {text : Rendering} {dumps : Json → String}
    {snapshots : List Snapshot} (unfolding : Unfolding snapshots) :
    Reconstructs ((snapshots.map Snapshot.told).getLastD (none, .empty))
    (diffSnapshots text dumps snapshots).1
      (diffSnapshots text dumps snapshots).2 := by
  have along := each_along (f := Snapshot.diff text dumps)
    (fun related known => known.diff related.2 related.1)
    reconstructs_nothing unfolding.told
  exact along

/-- `event_type` and `at` of the trace events, in order. -/
def traceKeys (events : List ExecutionStreamEvent) : List (Json × Json) :=
  (events.filter fun ev => ev.eventType = .traceEvent).map fun ev =>
    (ev.payload.get "event_type", ev.payload.get "at")

theorem receiveAll_rows {view : StreamView} {events : List ExecutionStreamEvent} :
    (view.receiveAll events).rows = view.rows ++ traceKeys events := by
  induction events generalizing view with
  | nil => simp [traceKeys]
  | cons ev rest ih =>
      rw [StreamView.receiveAll_cons, ih]
      unfold StreamView.receive
      cases kind : ev.eventType
      case traceEvent => simp [traceKeys, kind]
      all_goals
        simp only [traceKeys, kind, reduceCtorEq, decide_false, Bool.false_eq_true,
          not_false_eq_true, List.filter_cons_of_neg]
        try split
        all_goals rfl

/-- The events of the diffs are numbered from one without gap, their trace events are the rows of
the last timeline, and folding them gives the status and the step statuses of the last snapshot. -/
theorem stream_reconstructs (text : Rendering) (dumps : Json → String) (snapshots : List Snapshot)
    (last : Snapshot) (ends : snapshots.getLast? = some last) (unfolding : Unfolding snapshots) :
    let events := (diffSnapshots text dumps snapshots).2
    events.map (·.sequence) = List.range' 1 events.length ∧
      traceKeys events = last.projection.timeline.filterMap rowKey ∧
      (StreamView.nothing.receiveAll events).status = some last.execution.status.value ∧
      (StreamView.nothing.receiveAll events).stepStatus = last.projection.stepStatus := by
  intro events
  have known : Reconstructs _ _ events := diffSnapshots_reconstructs unfolding
  have told : (snapshots.map Snapshot.told).getLastD (none, .empty) = last.told := by
    rw [List.getLastD_eq_getLast?, List.getLast?_map, ends]
    rfl
  rw [told] at known
  refine ⟨known.inSequence.1, ?_, ?_, ?_⟩
  · have rows : (StreamView.nothing.receiveAll events).rows = [] ++ traceKeys events :=
      receiveAll_rows
    rw [known.view] at rows
    exact rows.symm
  · rw [known.view]
    rfl
  · rw [known.view]
    rfl

/-- Two polls of an execution whose one step starts and fails between them. -/
def failingRun : List Snapshot :=
  let execution : Execution :=
    { executionId := ⟨1⟩, workflowType := "generic", status :=
      .executing, executionMode := .background
      executionContextId := ⟨2⟩, parentExecutionId := none, currentPlanId := none, input :=
        [], result := none
      traceTimeline := [], validationSummary := none, createdAt := 0, updatedAt :=
        0, completedAt := none
      cancelledAt := none }
  let row (name : String) : Json :=
    .obj [("event_type", .str name), ("at", .str "1970-01-01T00:00:00+00:00")]
  let step (status : String) : StepRow := ⟨[("step_id", .str "7"), ("status", .str status)], none⟩
  [⟨execution, ⟨[row "step_started"], [step "running"], []⟩, 0⟩,
    ⟨{ execution with status := .failed }, ⟨[row "step_started", row "step_failed"],
      [step "failed"], []⟩, 1⟩]

theorem failingRun_unfolding : Unfolding failingRun := by
  constructor
  case wellFormed =>
      refine List.forall_mem_cons.mpr ⟨?_, List.forall_mem_singleton.mpr ?_⟩
      all_goals exact ⟨List.forall_mem_singleton.mpr ⟨⟨rfl, by decide⟩, rfl, by decide⟩, by decide⟩
  case chain =>
      refine List.isChain_pair.mpr ⟨?_, ?_⟩
      · exact ⟨_, rfl⟩
      · exact List.Subset.refl _

theorem stream_reconstructs_failing : ∃ last, failingRun.getLast? = some last ∧
    let events := (diffSnapshots .flat Rendering.flat.dumps failingRun).2
    events.map (·.sequence) = List.range' 1 events.length ∧
      traceKeys events = last.projection.timeline.filterMap rowKey ∧
      (StreamView.nothing.receiveAll events).status = some last.execution.status.value ∧
      (StreamView.nothing.receiveAll events).stepStatus = last.projection.stepStatus :=
  ⟨_, rfl, stream_reconstructs .flat Rendering.flat.dumps failingRun _ rfl failingRun_unfolding⟩

end AgenticPlatform
