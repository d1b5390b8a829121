import AgenticPlatform.StreamReplay
import AgenticPlatform.StateMachine

/-! The end of a stream. The diff sends the terminal event with the status, before the trace, step
and approval events of the same poll: the terminal event is the last one exactly when the first
terminal snapshot brings nothing else. -/
namespace AgenticPlatform
open Streams (Emitter)
open Streams.Emitter

/-- The later projection has no timeline row, no step status and no approval beyond the earlier
one. -/
structure BringsNothing (earlier later : TraceProjection) : Prop where
  timeline : ∀ row ∈ later.timeline.drop earlier.timeline.length, rowKey row = none
  steps : ∀ row ∈ later.steps, earlier.stepStatus row.id = some row.status
  approvals : ∀ last, later.approvals.getLast? = some (.obj last) → later.approvals.length ≤
    earlier.approvals.length

section
variable {text : Rendering} {dumps : Json → String} {eid : UUID} {ts : Time} {cursor : StreamCursor}

theorem diffTraceRow_silent {row : Json} :
    (diffTraceRow text dumps eid ts row cursor).2 = [] ↔ rowKey row = none := by
  cases row with
  | obj row => simp [diffTraceRow, emit, rowKey]
  | _ => simp [diffTraceRow, rowKey]

theorem diffTraceRow_still (row : Json) (cursor : StreamCursor)
    (silent : (diffTraceRow text dumps eid ts row cursor).2 = []) :
    (diffTraceRow text dumps eid ts row cursor).1 = cursor := by
  cases row with
  | obj row => exact absurd (diffTraceRow_silent.mp silent) (by simp [rowKey])
  | _ => rfl

theorem diffTimeline_silent {timeline : List Json} :
    (diffTimeline text dumps eid ts timeline cursor).2 = [] ↔
      ∀ row ∈ timeline.drop cursor.timelineLen, rowKey row = none := by
  simp only [diffTimeline, reading_apply, andThen_snd, change_apply, List.append_nil,
    each_silent diffTraceRow_still, diffTraceRow_silent]

theorem diffStep_silent {row : StepRow} (named : row.Named) :
    (diffStep text eid ts row cursor).2 = [] ↔ cursor.stepStatusById.get? row.id = some
      (.str row.status) := by
  have some_id := named.id.2
  simp only [diffStep, named.idText, named.statusText, ne_eq, some_id, not_false_eq_true, when_pos,
    reading_apply]
  by_cases same : cursor.stepStatusById.get? row.id = some (.str row.status)
  · simp [same]
  · simp [same, emit]

theorem diffStep_still (row : StepRow) (cursor : StreamCursor)
    (silent : (diffStep text eid ts row cursor).2 = []) :
    (diffStep text eid ts row cursor).1 = cursor := by
  by_cases unnamed : text.str ((row.step.get "step_id").pyOr (.str "")) = ""
  · simp [diffStep, unnamed]
  by_cases same : cursor.stepStatusById.get? (text.str ((row.step.get "step_id").pyOr (.str ""))) =
      some (.str (text.str ((row.step.get "status").pyOr (.str ""))))
  · simp [diffStep, unnamed, same]
  · simp [diffStep, unnamed, same, emit] at silent

theorem eachStep_silent {rows : List StepRow} (named : ∀ row ∈ rows, row.Named) :
    (each (diffStep text eid ts) rows cursor).2 = [] ↔
      ∀ row ∈ rows, cursor.stepStatusById.get? row.id = some (.str row.status) := by
  rw [each_silent diffStep_still]
  exact forall₂_congr fun row member => diffStep_silent (named row member)

theorem emitApproval_silent {approvals : List Json} :
    (emitApproval eid ts approvals cursor).2 = [] ↔ ∀ last, approvals.getLast? ≠ some
      (.obj last) := by
  unfold emitApproval
  match approvals.getLast? with
  | some (.obj last) => simp [emit]
  | some .null | some (.bool _) | some (.int _) | some (.float _) | some (.str _) | some (.arr _)
  | none => simp

theorem diffApprovals_silent {approvals : List Json} :
    (diffApprovals eid ts approvals cursor).2 = [] ↔
      ∀ last, approvals.getLast? = some (.obj last) → approvals.length ≤ cursor.approvalCount := by
  unfold diffApprovals
  by_cases more : approvals.length > cursor.approvalCount
  · simp only [reading_apply, more, when_pos, andThen_snd, change_apply, List.nil_append,
      emitApproval_silent]
    exact forall_congr' fun last => (imp_iff_not (not_le.mpr more)).symm
  · simp [not_lt.mp more]

/-- The trace part of a diff is silent exactly where the projection brings nothing beyond what the
cursor has seen. -/
theorem diffTrace_silent {told : Option String × TraceProjection} {sent : List ExecutionStreamEvent}
    (known : Reconstructs told cursor sent)
    (counted : cursor.approvalCount = told.2.approvals.length) {trace : TraceProjection}
    (wellFormed : trace.WellFormed) {status : Option String} {n : Nat} :
    (diffTrace text dumps eid ts trace { cursor with executionStatus := status, sequence := n }).2 =
      [] ↔
      BringsNothing told.2 trace := by
  obtain ⟨m, afterTimeline⟩ : ∃ m, (diffTimeline text dumps eid ts trace.timeline
      { cursor with executionStatus := status, sequence := n }).1 = _ := diffTimeline_cursor
  obtain ⟨statuses, k, afterSteps⟩ : ∃ statuses k, (each (diffStep text eid ts) trace.steps
      { cursor with
        executionStatus := status
        timelineLen := trace.timeline.length, sequence := m }).1 = _ := eachStep_cursor
  have seen : ∀ sid, cursor.stepStatusById.get? sid = (told.2.stepStatus sid).map Json.str := by
    intro sid
    rw [known.agrees sid, known.view]
  have same : ∀ row : StepRow, (told.2.stepStatus row.id).map Json.str = some (.str row.status) ↔
      told.2.stepStatus row.id = some row.status := by
    intro row
    simp
  simp only [diffTrace, andThen_snd, List.append_eq_nil_iff, afterTimeline, afterSteps,
    diffTimeline_silent, eachStep_silent wellFormed.named, diffApprovals_silent]
  simp only [known.timelineLen, counted, seen, same]
  constructor
  · rintro ⟨timeline, steps, approvals⟩
    exact ⟨timeline, steps, approvals⟩
  · rintro ⟨timeline, steps, approvals⟩
    exact ⟨timeline, steps, approvals⟩

end

/-- The terminal event of a status. -/
def terminalType : ExecutionStatus → Option ExecutionStreamEventType
  | .completed => some .executionCompleted
  | .failed => some .executionFailed
  | .cancelled => some .executionCancelled
  | _ => none

/-- The types of the events that follow those of the status. -/
def OfTrace (etype : ExecutionStreamEventType) : Prop :=
  OfTimeline etype ∨ etype = .stepUpdated ∨ etype = .executionUpdated

theorem OfTrace.ordinary {etype : ExecutionStreamEventType} (ofTrace : OfTrace etype) :
    etype.isTerminal = false ∧ etype ≠ .heartbeat := by
  rcases ofTrace with (rfl | rfl) | rfl | rfl
  all_goals exact ⟨rfl, by decide⟩

theorem isTerminal_value {status : ExecutionStatus} :
    isTerminalExecutionStatus status.value = isExecutionTerminal status := by
  cases status
  all_goals decide

section
variable {text : Rendering} {dumps : Json → String} {eid : UUID} {ts : Time} {cursor : StreamCursor}

theorem diffTrace_ofTrace {trace : TraceProjection} :
    ∀ ev ∈ (diffTrace text dumps eid ts trace cursor).2, OfTrace ev.eventType := by
  have whole : Follows (Within (fun ev => OfTrace ev.eventType) fun _ => ())
    (diffTrace text dumps eid ts trace) := by
    apply Follows.andThen (within_composes _ _)
    · refine follows_reading fun cursor => ?_
      refine Follows.andThen (within_composes _ _) ?_ ?_ cursor
      · exact eachTraceRow_sending.mono fun _ _ _ sending =>
          ⟨fun ev member => .inl (sending.1 ev member), rfl⟩
      · exact fun _ => ⟨List.forall_mem_nil _, rfl⟩
    apply Follows.andThen (within_composes _ _)
    · exact eachStep_sending.mono fun _ _ _ sending =>
        ⟨fun ev member => .inr (.inl (sending.1 ev member)), rfl⟩
    · refine follows_reading fun cursor => ?_
      refine Follows.when (within_composes _ _) (fun _ => ?_) cursor
      apply Follows.andThen (within_composes _ _)
      · exact fun _ => ⟨List.forall_mem_nil _, rfl⟩
      · exact emitApproval_sending.mono fun _ _ _ sending =>
          ⟨fun ev member => .inr (.inr (sending.1 ev member)), rfl⟩
  exact (whole cursor).1

theorem emitStatus_live {execution : Execution}
    (live : isExecutionTerminal execution.status = false) :
    ∀ ev ∈ (emitStatus eid ts execution cursor).2, ev.isTerminal = false := by
  unfold emitStatus emitTerminal
  revert live
  cases execution.status
  case completed | failed | cancelled => exact fun terminal => absurd terminal (by decide)
  all_goals
    intro _
    simp [emit, ExecutionStreamEvent.isTerminal, ExecutionStreamEventType.isTerminal]

theorem diffStatus_live {execution : Execution}
    (live : isExecutionTerminal execution.status = false) :
    ∀ ev ∈ (diffStatus eid ts execution cursor).2, ev.isTerminal = false := by
  unfold diffStatus
  by_cases same : cursor.executionStatus = some execution.status.value
  · simp [same]
  · simp only [reading_apply, ne_eq, same, not_false_eq_true, when_pos, andThen_snd, change_apply,
      List.nil_append]
    exact emitStatus_live live

/-- A terminal status that is new is told by an update and then its terminal event. -/
theorem diffStatus_terminal {execution : Execution}
    (terminal : isExecutionTerminal execution.status = true)
    (fresh : cursor.executionStatus ≠ some execution.status.value) :
    ∃ updated closing, (diffStatus eid ts execution cursor).2 = [updated, closing] ∧
      updated.isTerminal = false ∧
      terminalType execution.status = some closing.eventType := by
  simp only [diffStatus, reading_apply, ne_eq, fresh, not_false_eq_true, when_pos,
    andThen_snd, change_apply, List.nil_append]
  unfold emitStatus emitTerminal
  revert terminal
  cases execution.status
  case completed | failed | cancelled => exact fun _ => ⟨_, _, rfl, rfl, rfl⟩
  all_goals exact fun live => absurd live (by decide)

end

/-- The poll that reads a snapshot at a time of the event loop's clock. -/
def Snapshot.poll (visit : Rat × Snapshot) : Poll :=
  ⟨visit.1, some visit.2.execution, some visit.2.projection, visit.2.now⟩

/-- The trace that the last of these visits read. -/
def lastTold (visits : List (Rat × Snapshot)) : Option String × TraceProjection :=
  (visits.map fun visit => visit.2.told).getLastD (none, .empty)

/-- The later projection extends the earlier one, its approvals too. -/
structure TraceProjection.Grows (earlier later : TraceProjection) : Prop where
  extended : earlier.Extends later
  wellFormed : later.WellFormed
  approvals : earlier.approvals <+: later.approvals

/-- The stream has told this, and its cursor counts the approvals too. -/
structure Tracks (told : Option String × TraceProjection) (cursor : StreamCursor) : Prop where
  known : ∃ sent, Reconstructs told cursor sent
  counted : cursor.approvalCount = told.2.approvals.length
  live : ∀ status, told.1 = some status → isTerminalExecutionStatus status = false

section
variable {text : Rendering} {dumps : Json → String} {settings : StreamSettings} {eid : UUID}
  {started : Rat}
  {cursor : StreamCursor} {told : Option String × TraceProjection} {visit : Rat × Snapshot}
    {rest : List Poll}
  {lastHeartbeat : Rat}

theorem Tracks.diff (tracks : Tracks told cursor) (grows : told.2.Grows visit.2.projection)
    (live : isExecutionTerminal visit.2.execution.status = false) :
    Tracks visit.2.told (visit.2.diff text dumps cursor).1 := by
  obtain ⟨sent, known⟩ := tracks.known
  constructor
  case known => exact ⟨_, known.diff grows.wellFormed grows.extended⟩
  case counted =>
      obtain ⟨statuses, n, moved⟩ : ∃ statuses n, (visit.2.diff text dumps cursor).1 =
        ⟨_, _, statuses, _, n⟩ :=
        diff_cursor
      rw [moved, tracks.counted]
      exact Nat.max_eq_right grows.approvals.length_le
  case live =>
      rintro status same
      cases same
      exact isTerminal_value.trans live

/-- The events of a diff for a live status. -/
theorem diff_live (live : isExecutionTerminal visit.2.execution.status = false) :
    ∀ ev ∈ (visit.2.diff text dumps cursor).2, ev.isTerminal = false := by
  intro ev member
  rcases List.mem_append.mp member with ofStatus | ofTrace
  · exact diffStatus_live live ev ofStatus
  · exact (diffTrace_ofTrace ev ofTrace).ordinary.1

theorem terminalType_terminal {status : ExecutionStatus} {etype : ExecutionStreamEventType}
    (closes : terminalType status = some etype) : etype.isTerminal = true := by
  cases status
  case completed | failed | cancelled => cases closes; rfl
  all_goals cases closes

/-- The events of a diff for a terminal status that is new. -/
theorem diff_terminal (terminal : isExecutionTerminal visit.2.execution.status = true)
    (fresh : cursor.executionStatus ≠ some visit.2.execution.status.value) :
    ∃ updated closing n, (visit.2.diff text dumps cursor).2 =
        updated :: closing :: (diffTrace text dumps visit.2.execution.executionId visit.2.now
          visit.2.projection
          { cursor with executionStatus := some visit.2.execution.status.value, sequence := n }).2 ∧
      updated.isTerminal = false ∧ terminalType visit.2.execution.status =
        some closing.eventType := by
  obtain ⟨updated, closing, sent, nonterminal, closes⟩ :
      ∃ updated closing, (diffStatus visit.2.execution.executionId visit.2.now visit.2.execution
        cursor).2 = _ ∧ _ ∧ _ :=
    diffStatus_terminal terminal fresh
  obtain ⟨n, moved⟩ : ∃ n,
      (diffStatus visit.2.execution.executionId visit.2.now visit.2.execution cursor).1 = _ :=
        diffStatus_cursor
  refine ⟨updated, closing, n, ?_, nonterminal, closes⟩
  simp only [Snapshot.diff, diffStreamEvents, andThen_snd, sent, moved, List.cons_append,
    List.nil_append]

/-- A round that finds the execution live goes on, after a heartbeat perhaps. -/
theorem streamRounds_live (inTime : visit.1 - started ≤ max 30 settings.streamMaxDurationSec)
    (live : isExecutionTerminal visit.2.execution.status = false) :
    ∃ beat last, (∀ ev ∈ beat, ev.isTerminal = false) ∧
      streamRounds text dumps settings eid started ⟨cursor, lastHeartbeat, false⟩
        (Snapshot.poll visit :: rest) =
        let later := streamRounds text dumps settings eid started
          ⟨(visit.2.diff text dumps cursor).1, last, false⟩ rest
        ((visit.2.diff text dumps cursor).2 ++ beat ++ later.1, later.2) := by
  have nonterminal := @diff_live text dumps cursor visit live
  have goes_on : isTerminalExecutionStatus visit.2.execution.status.value = false :=
    isTerminal_value.trans live
  have read : diffStreamEvents text dumps visit.2.execution visit.2.projection visit.2.now cursor =
      visit.2.diff text dumps cursor := rfl
  have polled : ¬visit.1 - started > max 30 settings.streamMaxDurationSec := Rat.not_lt.mpr inTime
  simp only [streamRounds, Snapshot.poll, polled, if_false, read]
  generalize visit.2.diff text dumps cursor = made at nonterminal
  obtain ⟨after, batch⟩ := made
  have none_terminal : (batch.any fun ev => ev.isTerminal) = false :=
    List.any_eq_false.mpr fun ev member => by simp [nonterminal ev member]
  simp only [goes_on, none_terminal, Bool.false_and, Bool.false_or, Bool.false_eq_true, if_false]
  refine ⟨_, _, ?_, rfl⟩
  split
  · exact List.forall_mem_singleton.mpr rfl
  · exact List.forall_mem_nil _

/-- A round that finds the execution terminal for the first time is the last one. -/
theorem streamRounds_terminal (inTime : visit.1 - started ≤ max 30 settings.streamMaxDurationSec)
    (terminal : isExecutionTerminal visit.2.execution.status = true)
    (fresh : cursor.executionStatus ≠ some visit.2.execution.status.value) :
    streamRounds text dumps settings eid started ⟨cursor, lastHeartbeat, false⟩
    (Snapshot.poll visit :: rest) =
      ((visit.2.diff text dumps cursor).2, true) := by
  have ends : isTerminalExecutionStatus visit.2.execution.status.value = true :=
    isTerminal_value.trans terminal
  have closed : ((visit.2.diff text dumps cursor).2.any fun ev => ev.isTerminal) = true := by
    obtain ⟨updated, closing, n, sent, -, closes⟩ : ∃ updated closing n,
      (visit.2.diff text dumps cursor).2 = _ ∧ _ ∧ _ :=
      diff_terminal terminal fresh
    rw [sent]
    exact List.any_eq_true.mpr ⟨closing, by simp, terminalType_terminal closes⟩
  have read : diffStreamEvents text dumps visit.2.execution visit.2.projection visit.2.now cursor =
      visit.2.diff text dumps cursor := rfl
  have polled : ¬visit.1 - started > max 30 settings.streamMaxDurationSec := Rat.not_lt.mpr inTime
  simp only [streamRounds, Snapshot.poll, polled, if_false, read]
  generalize visit.2.diff text dumps cursor = made at closed
  obtain ⟨after, batch⟩ := made
  simp only at closed
  simp [ends, closed]

/-- The rounds up to the first terminal snapshot send no terminal event before it is read, and its
batch is the last. -/
theorem streamRounds_reaches {before : List (Rat × Snapshot)} {final : Rat × Snapshot}
    (tracks : Tracks told cursor)
    (grows : List.IsChain TraceProjection.Grows (told.2 :: (before ++ [final]).map fun visit =>
      visit.2.projection))
    (live : ∀ visit ∈ before, isExecutionTerminal visit.2.execution.status = false)
    (terminal : isExecutionTerminal final.2.execution.status = true)
    (inTime : ∀ visit ∈ before ++ [final], visit.1 - started ≤
      max 30 settings.streamMaxDurationSec) :
    ∃ pre reached, (∀ ev ∈ pre, ev.isTerminal = false) ∧
      Tracks ((before.map fun visit => visit.2.told).getLastD told) reached ∧
      streamRounds text dumps settings eid started ⟨cursor, lastHeartbeat, false⟩
          (before.map Snapshot.poll ++ Snapshot.poll final :: rest) =
        (pre ++ (final.2.diff text dumps reached).2, true) := by
  induction before generalizing told cursor lastHeartbeat with
  | nil =>
      have fresh : cursor.executionStatus ≠ some final.2.execution.status.value := by
        intro same
        obtain ⟨sent, known⟩ := tracks.known
        have still := tracks.live _ (known.status.symm.trans same)
        rw [isTerminal_value, terminal] at still
        cases still
      refine ⟨[], cursor, List.forall_mem_nil _, tracks, ?_⟩
      exact streamRounds_terminal (inTime final (by simp)) terminal fresh
  | cons visit others ih =>
      simp only [List.cons_append, List.map_cons, List.isChain_cons_cons] at grows
      have stays := live visit List.mem_cons_self
      obtain ⟨beat, last, quiet, round⟩ := @streamRounds_live text dumps settings eid
        started cursor visit
        (others.map Snapshot.poll ++ Snapshot.poll final :: rest) lastHeartbeat
          (inTime visit (by simp)) stays
      obtain ⟨pre, reached, nonterminal, tracks', later⟩ := ih (tracks.diff grows.1 stays) grows.2
        (fun other member => live other (List.mem_cons_of_mem visit member))
        (fun other member => inTime other (List.mem_cons_of_mem visit member))
      refine ⟨(visit.2.diff text dumps cursor).2 ++ beat ++ pre, reached, ?_, ?_, ?_⟩
      · intro ev member
        simp only [List.mem_append] at member
        rcases member with (sent | beaten) | after
        · exact diff_live stays ev sent
        · exact quiet ev beaten
        · exact nonterminal ev after
      · rw [List.map_cons, List.getLastD_cons]
        exact tracks'
      · rw [List.map_cons, List.cons_append, round, later]
        simp only [List.append_assoc]

end

/-- One terminal event, that of this status, and nothing but heartbeats after it. -/
def EndsWithTerminal (events : List ExecutionStreamEvent) (status : ExecutionStatus) : Prop :=
  ∃ before closing after, events = before ++ closing :: after ∧ terminalType status =
    some closing.eventType ∧
    (∀ ev ∈ before, ev.isTerminal = false) ∧ ∀ ev ∈ after, ev.eventType = .heartbeat

theorem endsWithTerminal_iff {pre post : List ExecutionStreamEvent} {closing : ExecutionStreamEvent}
    {status : ExecutionStatus} (nonterminal : ∀ ev ∈ pre, ev.isTerminal = false)
    (closes : terminalType status = some closing.eventType)
    (ofTrace : ∀ ev ∈ post, OfTrace ev.eventType) :
    EndsWithTerminal (pre ++ closing :: post) status ↔ post = [] := by
  have rest : ∀ (before after : List ExecutionStreamEvent) (ev : ExecutionStreamEvent),
      (∀ other ∈ before, other.isTerminal = false) → ev.isTerminal = true →
      (before ++ ev :: after).dropWhile (fun other => !other.isTerminal) = ev :: after := by
    intro before after ev live terminal
    rw [List.dropWhile_append_of_pos fun other member => by simp [live other member]]
    simp [terminal]
  constructor
  · rintro ⟨before, closing', after, same, closes', live, heartbeats⟩
    have cut := congrArg (List.dropWhile fun other => !other.isTerminal) same
    rw [rest _ _ _ nonterminal (terminalType_terminal closes), rest _ _ _ live
      (terminalType_terminal closes')] at cut
    obtain ⟨-, rfl⟩ := List.cons.inj cut
    rw [List.eq_nil_iff_forall_not_mem]
    intro ev member
    exact (ofTrace ev member).ordinary.2 (heartbeats ev member)
  · rintro rfl
    exact ⟨pre, closing, [], rfl, closes, nonterminal, List.forall_mem_nil _⟩

/-- What a poll may find after another one: the status has moved by allowed transitions, the
timeline and the steps have grown, and approvals were appended. -/
structure Snapshot.Precedes (earlier later : Snapshot) : Prop where
  path : Relation.ReflTransGen (fun s t => (s, t) ∈ executionAllowed) earlier.execution.status
    later.execution.status
  extended : earlier.projection.Extends later.projection
  approvals : earlier.projection.approvals <+: later.projection.approvals

/-- The polls of one execution, each at its time. -/
structure Polled (visits : List (Rat × Snapshot)) : Prop where
  wellFormed : ∀ visit ∈ visits, visit.2.projection.WellFormed
  chain : List.IsChain (fun earlier later => earlier.2.Precedes later.2) visits

theorem Polled.left {visits rest : List (Rat × Snapshot)} (polled : Polled (visits ++ rest)) :
    Polled visits :=
  ⟨fun visit member => polled.wellFormed visit (List.mem_append_left rest member),
    polled.chain.left_of_append⟩

theorem Polled.grows {visits : List (Rat × Snapshot)} (polled : Polled visits) :
    List.IsChain TraceProjection.Grows (.empty :: visits.map fun visit => visit.2.projection) := by
  apply List.IsChain.cons
  · rw [List.isChain_map]
    apply polled.chain.imp_of_mem_imp
    exact fun _ later _ member precedes => ⟨precedes.extended, polled.wellFormed later member,
      precedes.approvals⟩
  · intro first member
    obtain ⟨visit, there, rfl⟩ := List.mem_map.mp (List.mem_of_mem_head? member)
    exact ⟨extends_nothing, polled.wellFormed visit there, List.nil_prefix⟩

theorem terminal_stays {source target : ExecutionStatus}
    (terminal : isExecutionTerminal source = true)
    (path : Relation.ReflTransGen (fun s t => (s, t) ∈ executionAllowed) source target) :
    target = source := by
  induction path with
  | refl => rfl
  | tail _ move ih => exact absurd (ih ▸ move) (terminal_no_exit terminal)

/-- A terminal status is that of all later polls. -/
theorem Polled.settled {final : Rat × Snapshot} {rest : List (Rat × Snapshot)}
    (polled : Polled (final :: rest))
    (terminal : isExecutionTerminal final.2.execution.status = true) :
    ∀ visit ∈ final :: rest, visit.2.execution.status = final.2.execution.status := by
  have chain := polled.chain
  clear polled
  induction rest generalizing final with
  | nil => exact List.forall_mem_singleton.mpr rfl
  | cons next others ih =>
      rw [List.isChain_cons_cons] at chain
      have same := terminal_stays terminal chain.1.path
      intro visit member
      rcases List.mem_cons.mp member with rfl | later
      · rfl
      · exact (ih (same ▸ terminal) chain.2 visit later).trans same

theorem tracks_nothing : Tracks (none, .empty) .fresh := ⟨⟨[], reconstructs_nothing⟩, rfl, by simp⟩

/-- A stream that polls a terminal status in time ends with the poll that first reads it, and ends
with the terminal event of the final status exactly when that poll brings nothing but the status. -/
theorem stream_ends_iff (text : Rendering) (dumps : Json → String)
    (settings : StreamSettings) (eid : UUID) (started : Rat) (before rest : List (Rat × Snapshot))
    (final last : Rat × Snapshot) (polled : Polled (before ++ final :: rest))
    (ends : (before ++ final :: rest).getLast? = some last)
    (live : ∀ visit ∈ before, isExecutionTerminal visit.2.execution.status = false)
    (terminal : isExecutionTerminal final.2.execution.status = true)
    (inTime : ∀ visit ∈ before ++ [final], visit.1 - started ≤
      max 30 settings.streamMaxDurationSec) :
    let stream := streamExecutionSse text dumps settings eid started
      ((before ++ final :: rest).map Snapshot.poll)
    stream.2 = true ∧
      (EndsWithTerminal stream.1 last.2.execution.status ↔
        BringsNothing (lastTold before).2 final.2.projection) := by
  have member : last ∈ final :: rest := by
    rw [List.getLast?_append_of_ne_nil _ (List.cons_ne_nil _ _)] at ends
    exact List.mem_of_getLast? ends
  have tail : Polled (final :: rest) :=
    ⟨fun visit there => polled.wellFormed visit (List.mem_append_right before there),
      polled.chain.right_of_append⟩
  have same : last.2.execution.status = final.2.execution.status :=
    tail.settled terminal last member
  have head : Polled (before ++ [final]) := by
    apply Polled.left
    rw [List.append_assoc]
    exact polled
  obtain ⟨pre, reached, nonterminal, tracks, rounds⟩ := @streamRounds_reaches text dumps settings
    eid started .fresh
    (none, .empty) (rest.map Snapshot.poll) started before final tracks_nothing head.grows live
      terminal inTime
  obtain ⟨sent, known⟩ := tracks.known
  have fresh : reached.executionStatus ≠ some final.2.execution.status.value := by
    intro equal
    have still := tracks.live _ (known.status.symm.trans equal)
    rw [isTerminal_value, terminal] at still
    cases still
  obtain ⟨updated, closing, n, batch, update, closes⟩ :
      ∃ updated closing n, (final.2.diff text dumps reached).2 = _ ∧ _ ∧ _ :=
        diff_terminal terminal fresh
  have streamed : streamExecutionSse text dumps settings eid started
    ((before ++ final :: rest).map Snapshot.poll) =
      ((pre ++ [updated]) ++ closing ::
        (diffTrace text dumps final.2.execution.executionId final.2.now final.2.projection
          { reached with
            executionStatus := some final.2.execution.status.value
            sequence := n }).2,
        true) := by
    rw [streamExecutionSse, List.map_append, List.map_cons, rounds, batch]
    simp only [List.append_assoc, List.cons_append, List.nil_append]
  intro stream
  have isStream : stream = _ := streamed
  rw [isStream, same]
  refine ⟨rfl, ?_⟩
  rw [endsWithTerminal_iff _ closes diffTrace_ofTrace,
    diffTrace_silent known tracks.counted (head.wellFormed final (by simp))]
  · rfl
  · intro ev there
    rcases List.mem_append.mp there with early | late
    · exact nonterminal ev early
    · rw [List.mem_singleton.mp late]
      exact update

/-- A poll at a time that finds one row in the timeline. -/
def pollWith (seconds : Rat) (status : ExecutionStatus) : Rat × Snapshot :=
  (seconds, ⟨{ executionId := ⟨1⟩, workflowType := "generic", status := status
               executionMode := .background
               executionContextId := ⟨2⟩, parentExecutionId := none, currentPlanId :=
                 none, input := []
               result := none, traceTimeline := [], validationSummary := none, createdAt :=
                 0, updatedAt := 0
               completedAt := none, cancelledAt := none },
    ⟨[.obj [("event_type", .str "execution_status"), ("at", .str "1970-01-01T00:00:00+00:00")]], [],
      []⟩, 0⟩)

theorem pollWith_wellFormed (seconds : Rat) (status : ExecutionStatus) :
    (pollWith seconds status).2.projection.WellFormed := ⟨List.forall_mem_nil _, List.nodup_nil⟩

theorem pollWith_precedes {earlier later : Rat} {source target : ExecutionStatus}
    (allowed : (source, target) ∈ executionAllowed) :
    (pollWith earlier source).2.Precedes (pollWith later target).2 where
  path := .single allowed
  extended := ⟨List.prefix_rfl, List.Subset.refl _⟩
  approvals := List.prefix_rfl

/-- The first poll of an execution that has failed. -/
def failedPoll : Rat × Snapshot := pollWith 0 .failed

theorem failedPoll_polled : Polled [failedPoll] := by
  constructor
  case wellFormed => exact List.forall_mem_singleton.mpr (pollWith_wellFormed 0 .failed)
  case chain => exact List.isChain_singleton _

/-- The execution fails without a further row after two polls of its work. -/
theorem stream_ends_iff_failed :
    let stream := streamExecutionSse .flat Rendering.flat.dumps ⟨15, 300⟩ ⟨1⟩ 0
      (([pollWith 0 .planning, pollWith 1 .executing] ++ [pollWith 2 .failed]).map Snapshot.poll)
    stream.2 = true ∧ EndsWithTerminal stream.1 .failed := by
  have polled : Polled ([pollWith 0 .planning, pollWith 1 .executing] ++ [pollWith 2 .failed]) := by
    constructor
    case wellFormed =>
      intro visit member
      simp only [List.cons_append, List.nil_append, List.mem_cons, List.not_mem_nil,
        or_false] at member
      rcases member with rfl | rfl | rfl
      all_goals exact pollWith_wellFormed _ _
    case chain =>
      exact .cons_cons (pollWith_precedes (by decide)) (.cons_cons (pollWith_precedes (by decide))
        (.singleton _))
  have nothing : BringsNothing (lastTold [pollWith 0 .planning, pollWith 1 .executing]).2
      (pollWith 2 .failed).2.projection :=
    ⟨List.forall_mem_nil _, List.forall_mem_nil _, fun _ no => by cases no⟩
  obtain ⟨ended, terminal⟩ := stream_ends_iff .flat Rendering.flat.dumps ⟨15, 300⟩ ⟨1⟩ 0
    [pollWith 0 .planning, pollWith 1 .executing] [] (pollWith 2 .failed)
      (pollWith 2 .failed) polled rfl
    (by decide) rfl (by decide +kernel)
  exact ⟨ended, terminal.mpr nothing⟩

/-- The row of the timeline follows the terminal event. -/
theorem stream_not_ended : ¬∀ (text : Rendering) (dumps : Json → String)
    (settings : StreamSettings) (eid : UUID) (started : Rat) (before rest : List (Rat × Snapshot))
    (final last : Rat × Snapshot),
    Polled (before ++ final :: rest) → (before ++ final :: rest).getLast? = some last →
    (∀ visit ∈ before, isExecutionTerminal visit.2.execution.status = false) →
    isExecutionTerminal final.2.execution.status = true →
    (∀ visit ∈ before ++ [final], visit.1 - started ≤ max 30 settings.streamMaxDurationSec) →
    EndsWithTerminal
      (streamExecutionSse text dumps settings eid started
        ((before ++ final :: rest).map Snapshot.poll)).1
      last.2.execution.status := by
  intro always
  obtain ⟨before, closing, after, same, closes, -, heartbeats⟩ := always .flat Rendering.flat.dumps
    ⟨15, 300⟩ ⟨1⟩ 0 []
    [] failedPoll failedPoll failedPoll_polled rfl (List.forall_mem_nil _) rfl
    (List.forall_mem_singleton.mpr (by decide +kernel))
  have sent : (streamExecutionSse .flat Rendering.flat.dumps ⟨15, 300⟩ ⟨1⟩ 0
    [Snapshot.poll failedPoll]).1.map
      (·.eventType) = [.executionUpdated, .executionFailed, .traceEvent] := by
    decide +kernel
  have types : [.executionUpdated, .executionFailed, .traceEvent] =
      before.map (·.eventType) ++ closing.eventType :: after.map (·.eventType) := by
    rw [← sent, ← List.map_cons, ← List.map_append, ← same]
    rfl
  rcases List.eq_nil_or_concat after with rfl | ⟨init, ev, rfl⟩
  · have traced : ExecutionStreamEventType.traceEvent = closing.eventType := by
      simpa using congrArg List.getLast? types
    rw [← traced] at closes
    cases closes
  · have traced : ExecutionStreamEventType.traceEvent = ev.eventType := by
      rw [List.concat_eq_append, List.map_append, ← List.cons_append, ← List.append_assoc] at types
      exact Option.some.inj ((congrArg List.getLast? types).trans List.getLast?_concat)
    have beat := heartbeats ev (by simp)
    rw [← traced] at beat
    cases beat

end AgenticPlatform
