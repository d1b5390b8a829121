import AgenticPlatform.Parties

/-! Which rows a party appends to a timeline, and how it dates them: with a reading of the clock
that is no earlier than any row it has appended before, though other parties may have read the clock
since. -/
namespace AgenticPlatform
open Interaction ExecutionEngine

/-- The row of a status in which an execution ends. -/
def TerminalRow (row : Dict) : Prop :=
  isStatusRow row = true ∧ ∃ status : ExecutionStatus, row.get "status" = .str status.value ∧
    isExecutionTerminal status = true

/-- The rows are dated by these times. -/
def DatedBy (timeline : List Dict) (times : List Time) : Prop :=
  timeline.map (·.get "at") = times.map fun t => .str t.isoformat

/-- The times of the rows do not decrease, and no row follows that of a terminal status. -/
structure Chronicle (timeline : List Dict) : Prop where
  ordered : ∃ times, DatedBy timeline times ∧ times.Pairwise (· ≤ ·)
  final : ∀ before row after, timeline = before ++ row :: after → TerminalRow row → after = []

/-- A version of an execution whose timeline is in order, ends no later than the version and ends
with a terminal status only if the version does. -/
structure Chronicled (ex : Execution) : Prop where
  ordered : ∃ times, DatedBy ex.traceTimeline times ∧ times.Pairwise (· ≤ ·) ∧
    ∀ t ∈ times, t ≤ ex.updatedAt
  final : ∀ before row after, ex.traceTimeline = before ++ row :: after →
    TerminalRow row → after = []
  ended : ∀ row ∈ ex.traceTimeline, TerminalRow row → isExecutionTerminal ex.status = true

theorem Chronicled.chronicle {ex : Execution} (chronicled : Chronicled ex) :
    Chronicle ex.traceTimeline where
  ordered := by
    obtain ⟨times, dated, sorted, _⟩ := chronicled.ordered
    exact ⟨times, dated, sorted⟩
  final := chronicled.final

theorem chronicled_new {ex : Execution} (empty : ex.traceTimeline = []) : Chronicled ex where
  ordered := ⟨[], by rw [empty]; rfl, List.Pairwise.nil, by simp⟩
  final := by
    intro before row after same
    rw [empty] at same
    simp at same
  ended := by simp [empty]

/-- What is appended to a timeline at once: rows that announce no status, and then possibly one
that announces the status of the version. -/
structure Appended (before after : Execution) : Prop where
  executionId : after.executionId = before.executionId
  grown : after.traceTimeline ≠ before.traceTimeline
  rows : ∃ plain announced, after.traceTimeline = before.traceTimeline ++ plain ++ announced ∧
    (∀ row ∈ plain ++ announced, row.get "at" = .str after.updatedAt.isoformat) ∧
    (∀ row ∈ plain, isStatusRow row = false) ∧
    (announced = [] ∧ after.status = before.status ∨
      ∃ row, announced = [row] ∧ row.get "status" = .str after.status.value)

theorem DatedBy.append {timeline rows : List Dict} {times : List Time} {t : Time}
    (dated : DatedBy timeline times) (now : ∀ row ∈ rows, row.get "at" = .str t.isoformat) :
    DatedBy (timeline ++ rows) (times ++ List.replicate rows.length t) := by
  unfold DatedBy at *
  rw [List.map_append, List.map_append, dated, List.map_replicate]
  congr 1
  exact List.eq_replicate_iff.mpr ⟨by simp, fun v member => by
    obtain ⟨row, held, rfl⟩ := List.mem_map.mp member
    exact now row held⟩

section
variable {before after row ex : Execution}

theorem Chronicled.input (chronicled : Chronicled row) (d : Dict) : Chronicled
    { row with input := d } :=
  ⟨chronicled.ordered, chronicled.final, chronicled.ended⟩

/-- Rows appended to a version that has not ended, and dated no earlier than it. -/
theorem Chronicled.append (chronicled : Chronicled before) (appended : Appended before after)
    (live : isExecutionTerminal before.status = false)
    (later : before.updatedAt ≤ after.updatedAt) : Chronicled after := by
  obtain ⟨plain, announced, timeline, dates, plains, status⟩ := appended.rows
  have none_before : ∀ r ∈ before.traceTimeline ++ plain, ¬ TerminalRow r := by
    intro r member terminal
    rcases List.mem_append.mp member with old | new
    · rw [chronicled.ended r old terminal] at live
      cases live
    · have unannounced := plains r new
      rw [terminal.1] at unannounced
      cases unannounced
  constructor
  case ordered =>
    obtain ⟨times, dated, sorted, bound⟩ := chronicled.ordered
    refine ⟨times ++ List.replicate (plain ++ announced).length after.updatedAt, ?_, ?_, ?_⟩
    · rw [timeline, List.append_assoc]
      exact dated.append dates
    · refine List.pairwise_append.mpr ⟨sorted, List.pairwise_replicate.mpr (.inr (Nat.le_refl _)),
        fun a held b new => ?_⟩
      rw [List.eq_of_mem_replicate new]
      exact (bound a held).trans later
    · intro t member
      rcases List.mem_append.mp member with old | new
      · exact (bound t old).trans later
      · exact (List.eq_of_mem_replicate new).le
  case final =>
    intro first r rest split terminal
    rw [timeline] at split
    rcases status with ⟨rfl, _⟩ | ⟨last, rfl, _⟩
    · rw [List.append_nil] at split
      exact absurd terminal (none_before r (split ▸ by simp))
    · rcases List.append_eq_append_iff.mp split with ⟨more, rfl, tail⟩ | ⟨more, whole, tail⟩
      · cases more with
        | nil =>
            obtain ⟨rfl, rfl⟩ := List.cons.inj tail
            rfl
        | cons x xs => simp at tail
      · cases more with
        | nil =>
            obtain ⟨_, same⟩ := List.cons.inj tail
            exact same
        | cons x xs =>
            obtain ⟨rfl, _⟩ := List.cons.inj tail
            exact absurd terminal (none_before r (whole ▸ by simp))
  case ended =>
    intro r member terminal
    rw [timeline] at member
    rcases List.mem_append.mp member with old | new
    · exact absurd terminal (none_before r old)
    · rcases status with ⟨rfl, _⟩ | ⟨last, rfl, announces⟩
      · cases new
      · obtain rfl := List.mem_singleton.mp new
        obtain ⟨_, other, announced, ends⟩ := terminal
        rw [announces] at announced
        rw [ExecutionStatus.value_injective (Json.str.inj announced)]
        exact ends

/-- An event whose row keeps its type and its date. -/
def Event.Dateable (event : Event) : Prop := event.Plain ∧ event.2.get? "at" = none

theorem dateable_one {eventType : String} {detail : Dict} (other : eventType ≠ "execution_status")
    (absent : detail.get? "event_type" = none) (undated : detail.get? "at" = none) :
    ∀ event ∈ [(eventType, detail)], Event.Dateable event := by
  intro event member
  obtain rfl := List.mem_singleton.mp member
  exact ⟨plain_event other absent, undated⟩

theorem timelineRow_at {eventType : String} {detail : Dict} {now : Time}
    (undated : detail.get? "at" = none) :
    (timelineRow eventType detail now).get "at" = .str now.isoformat := by
  rw [timelineRow, Dict.get, Dict.get?_merge_of_absent undated]
  rfl

/-- A copy of the row to whose timeline rows of `now` have been added. -/
structure Drafted (row ex : Execution) (now : Time) : Prop where
  executionId : ex.executionId = row.executionId
  status : ex.status = row.status
  rows : ∃ rows, ex.traceTimeline = row.traceTimeline ++ rows ∧
    ∀ r ∈ rows, r.get "at" = .str now.isoformat ∧ isStatusRow r = false

variable {now : Time} {events : List Event} {status : ExecutionStatus}

theorem Drafted.refl : Drafted row row now := ⟨rfl, rfl, [], by simp, by simp⟩

theorem Drafted.write (drafted : Drafted row ex now) (dateable : ∀ event ∈ events, event.Dateable) :
    Drafted row (appendEvents ex events now) now := by
  obtain ⟨rows, timeline, dates⟩ := drafted.rows
  rw [appendEvents_eq]
  refine ⟨drafted.executionId, drafted.status, rows ++ events.map fun event => timelineRow event.1
    event.2 now, ?_, ?_⟩
  · simp [timeline]
  · intro r member
    rcases List.mem_append.mp member with old | new
    · exact dates r old
    · obtain ⟨event, held, rfl⟩ := List.mem_map.mp new
      exact ⟨timelineRow_at (dateable event held).2, timelineRow_plain (dateable event held).1⟩

theorem Drafted.event {eventType : String} {detail : Dict} (drafted : Drafted row ex now)
    (other : eventType ≠ "execution_status") (absent : detail.get? "event_type" = none)
    (undated : detail.get? "at" = none) :
    Drafted row (appendTimeline ex eventType detail now) now :=
  drafted.write (dateable_one other absent undated)

theorem Drafted.appended (drafted : Drafted row ex now) (stamped : ex.updatedAt = now)
    (grown : ex.traceTimeline ≠ row.traceTimeline) : Appended row ex := by
  obtain ⟨rows, timeline, dates⟩ := drafted.rows
  refine ⟨drafted.executionId, grown, rows, [], by simp [timeline], ?_, fun r member =>
    (dates r member).2, .inl ⟨rfl, drafted.status⟩⟩
  intro r member
  rw [List.append_nil] at member
  exact stamped ▸ (dates r member).1

/-- A status is entered with its row last. -/
theorem Drafted.announced {detail : Dict} {after : Execution} (drafted : Drafted row ex now)
    (absent : detail.get? "event_type" = none ∧ detail.get? "status" = none ∧
      detail.get? "at" = none)
    (executionId : after.executionId = ex.executionId) (stamped : after.updatedAt = now)
    (timeline : after.traceTimeline =
      ex.traceTimeline ++ [timelineRow "execution_status" (("status", .str after.status.value) ::
        detail) now]) :
    Appended row after := by
  obtain ⟨rows, old, dates⟩ := drafted.rows
  refine ⟨executionId.trans drafted.executionId, by simp [timeline, old], rows, _, timeline.trans
    (congrArg (· ++ _) old), ?_, fun r member => (dates r member).2, .inr ⟨_, rfl, ?_⟩⟩
  · intro r member
    rw [stamped]
    rcases List.mem_append.mp member with new | last
    · exact (dates r new).1
    · obtain rfl := List.mem_singleton.mp last
      exact timelineRow_at (by simpa using absent.2.2)
  · have same : timelineRow "execution_status" (("status", .str after.status.value) :: detail) now =
        Dict.merge [("event_type", .str "execution_status"), ("at", .str now.isoformat),
          ("status", .str after.status.value)] detail := rfl
    rw [same, Dict.get, Dict.get?_merge_of_absent absent.2.1]
    rfl

end

/-- The versions that a party has last seen, the date of the last row that it has appended to each
timeline, and its latest reading of the clock. -/
structure Pen where
  rows : UUID → Option Execution
  dated : UUID → Option Time
  read : Option Time

namespace Pen
variable (s : Pen)

def unused : Pen := ⟨fun _ => none, fun _ => none, none⟩

/-- The version has another timeline than the one last seen. -/
def appends (ex : Execution) : Bool :=
  match s.rows ex.executionId with
  | some row => ex.traceTimeline ≠ row.traceTimeline
  | none => false

/-- The party may date rows by `now`: it has read the clock then or later, and appended nothing
since. -/
structure May (now : Time) : Prop where
  wrote : ∀ id t, s.dated id = some t → t ≤ now
  read : ∃ latest, s.read = some latest ∧ now ≤ latest

/-- Nothing has been dated later than the latest reading. -/
def Current : Prop := ∀ id t, s.dated id = some t → ∃ latest, s.read = some latest ∧ t ≤ latest

end Pen

def observePen : Observer platform Exn Pen
  | s, .now, .ok t => { s with read := some t }
  | s, .getExecution id, .ok o => { s with rows := Function.update s.rows id o }
  | s, .updateExecution ex, .ok _ => { s with
      rows := Function.update s.rows ex.executionId (some ex)
      dated := if s.appends ex then Function.update s.dated ex.executionId (some ex.updatedAt)
        else s.dated }
  | s, _, _ => s

/-- A clock that does not decrease, and a store that finds what it was asked for. -/
def penAnswer (s : Pen) : (op : Op) → Except Exn op.Res → Prop
  | .now, r => ∃ t, r = .ok t ∧ ∀ latest, s.read = some latest → latest ≤ t
  | .getExecution id, r => ∃ o, r = .ok o ∧ ∀ ex, o = some ex → ex.executionId = id
  | _, _ => True

def penAllowed (s : Pen) : Op → Prop
  | .updateExecution ex => ∃ row, s.rows ex.executionId = some row ∧
      ((∃ d, ex = { row with input := d }) ∨ (Appended row ex ∧ s.May ex.updatedAt))
  | .saveExecution _ => False
  | _ => True

abbrev penSem : Semantics platform Exn where
  State := Pen
  step := fun s op r t => penAnswer s op r ∧ t = observePen s op r
  ok := penAllowed

/-- Calls that concern the clock or an execution row. -/
def Op.penned : Op → Bool
  | .now | .getExecution _ | .updateExecution _ | .saveExecution _ => true
  | _ => false

section
variable {s : Pen} {now : Time} {id : UUID} {row ex : Execution} {α β : Type}

theorem Pen.May.current (may : s.May now) : s.Current := by
  intro id t dated
  obtain ⟨latest, read, le⟩ := may.read
  exact ⟨latest, read, (may.wrote id t dated).trans le⟩

theorem observePen_other {op : Op} (apart : op.penned = false) (r : Except Exn op.Res) :
    observePen s op r = s := by
  cases op <;> first | (cases r <;> rfl) | cases apart

theorem pen_other {op : Op} (apart : op.penned = false) {I : Pen → Prop} (hs : I s) :
    wp penSem (M.perform op) (ends I (fun _ => I) (fun _ => True)) s := by
  have allowed : penAllowed s op := by cases op <;> trivial
  refine wp_perform.mpr ⟨allowed, ?_⟩
  rintro r t ⟨_, rfl⟩
  rw [observePen_other apart r]
  cases r with
  | ok a => exact ⟨trivial, hs⟩
  | error e => exact hs

/-- Only a reading of the clock changes what has been read. -/
theorem observePen_read {op : Op} (other : op ≠ .now) (r : Except Exn op.Res) :
    (observePen s op r).read = s.read := by
  cases op with
  | now => exact absurd rfl other
  | _ => cases r <;> rfl

/-- A reading: rows may be dated by it, and still by earlier ones. -/
theorem pen_now : wp penSem M.now (fun o t => ∃ now, o = .ret now ∧ (s.Current → t.May now) ∧
      t.rows = s.rows ∧
    ∀ earlier, s.May earlier → t.May earlier) s := by
  refine wp_perform.mpr ⟨trivial, ?_⟩
  rintro r t ⟨⟨reading, rfl, later⟩, rfl⟩
  refine ⟨reading, rfl, fun current => ⟨fun id t dated => ?_, reading, rfl, Nat.le_refl _⟩, rfl,
    fun earlier may => ?_⟩
  · obtain ⟨latest, read, le⟩ := current id t dated
    exact le.trans (later latest read)
  · obtain ⟨latest, read, le⟩ := may.read
    exact ⟨may.wrote, reading, rfl, le.trans (later latest read)⟩

/-- Reading a row moves no date. -/
theorem pen_get : wp penSem (M.getExecution id)
    (fun o t => ∃ found, o = .ret found ∧ t.rows id = found ∧
    (∀ ex, found = some ex → ex.executionId = id) ∧ (s.Current → t.Current) ∧
      ∀ earlier, s.May earlier → t.May earlier) s := by
  refine wp_perform.mpr ⟨trivial, ?_⟩
  rintro r t ⟨⟨found, rfl, keyed⟩, rfl⟩
  exact ⟨found, rfl, Function.update_self .., keyed, fun current => current, fun _ may =>
    ⟨may.wrote, may.read⟩⟩

/-- Appending rows of a date that the party may use. -/
theorem pen_append (seen : s.rows ex.executionId = some row) (appended : Appended row ex)
    (may : s.May ex.updatedAt) :
    wp penSem (M.updateExecution ex)
    (ends (fun t => t.May ex.updatedAt ∧ t.rows ex.executionId = some ex)
      (fun _ t => t.May ex.updatedAt) (fun _ => True)) s := by
  refine wp_perform.mpr ⟨⟨row, seen, .inr ⟨appended, may⟩⟩, ?_⟩
  rintro r t ⟨_, rfl⟩
  cases r with
  | error e => exact may
  | ok u =>
      refine ⟨trivial, ⟨fun id t dated => ?_, may.read⟩, Function.update_self ..⟩
      simp only [observePen] at dated
      split at dated
      · rw [Function.update_apply] at dated
        split at dated
        · exact (Option.some.inj dated).ge
        · exact may.wrote id t dated
      · exact may.wrote id t dated

/-- Changing the input. -/
theorem pen_input (seen : s.rows row.executionId = some row) (d : Dict) :
    wp penSem (M.updateExecution { row with input := d }) (fun _ t => (s.Current → t.Current) ∧
      ∀ now, s.May now → t.May now) s := by
  have still : s.appends { row with input := d } = false := by simp [Pen.appends, seen]
  refine wp_perform.mpr ⟨⟨row, seen, .inl ⟨d, rfl⟩⟩, ?_⟩
  rintro r t ⟨_, rfl⟩
  cases r with
  | error e => exact ⟨fun current => current, fun _ may => may⟩
  | ok u =>
      have kept : (observePen s (.updateExecution { row with input := d }) (.ok u)).dated =
        s.dated := by
        simp only [observePen, still, Bool.false_eq_true, if_false]
      refine ⟨fun current id t dated => current id t (kept ▸ dated), fun now may =>
        ⟨fun id t dated => ?_, may.read⟩⟩
      exact may.wrote id t (kept ▸ dated)

/-- The program dates what it appends by `now`. -/
def Dates (now : Time) (p : M α) : Prop := ∀ s : Pen, s.May now → wp penSem p
    (fun _ t => t.May now) s

theorem dates_ret (a : α) : Dates now (.ret a : M α) := fun _ may => may

theorem dates_raise (e : Exn) : Dates now (.raise e : M α) := fun _ may => may

theorem dates_bind {p : M α} {f : α → M β} (first : Dates now p) (next : ∀ a, Dates now (f a)) :
    Dates now (p >>= f) :=
  fun s may => wp_keeping (M := penSem) (I := fun t => Pen.May t now) (first s may)
    fun a t ht => next a t ht

theorem dates_tryCatch {p : M α} {h : Exn → M α} (body : Dates now p)
    (handled : ∀ e, Dates now (h e)) :
    Dates now (p.tryCatch h) := by
  intro s may
  rw [wp_tryCatch]
  refine wp_mono ?_ (body s may)
  intro o t ht
  cases o with
  | ret a => exact ht
  | raise e => exact handled e t ht
  | halt => exact ht

theorem dates_ite {c : Prop} [Decidable c] {p q : M α} (yes : c → Dates now p)
    (no : ¬c → Dates now q) :
    Dates now (if c then p else q) :=
  fun s may => wp_ite (fun h => yes h s may) fun h => no h s may

theorem dates_other {op : Op} (apart : op.penned = false) : Dates now (M.perform op) := by
  intro s may
  refine wp_mono ?_ (pen_other (I := fun t => t.May now) apart may)
  intro o t ht
  cases o with
  | ret a => exact ht.2
  | raise e => exact ht
  | halt => exact ht.elim

theorem dates_now : Dates now M.now := by
  intro s may
  refine wp_mono ?_ pen_now
  rintro _ t ⟨_, rfl, _, _, still⟩
  exact still now may

theorem dates_ofExcept {x : Except Exn α} : Dates now (M.ofExcept x) := by
  cases x with
  | ok a => exact dates_ret a
  | error e => exact dates_raise e

theorem dates_get : Dates now (M.getExecution id) := by
  intro s may
  refine wp_mono ?_ pen_get
  rintro _ t ⟨_, rfl, _, _, _, still⟩
  exact still now may

theorem dates_trace {events : List Event} (dateable : ∀ event ∈ events, event.Dateable) :
    Dates now (recordTrace id events now) := by
  intro s may
  unfold recordTrace
  rw [wp_bind]
  refine wp_mono ?_ pen_get
  rintro _ t ⟨found, rfl, seen, keyed, _, still⟩
  have may := still now may
  cases found with
  | none => exact may
  | some row =>
      obtain rfl := keyed row rfl
      cases events with
      | nil => exact wp_mono (fun _ _ kept => kept.2 now may) (pen_input seen row.input)
      | cons event rest =>
          have stamped : (appendEvents row (event :: rest) now).updatedAt = now := by
            simp [appendEvents_eq]
          have drafted : Drafted row (appendEvents row (event :: rest) now) now :=
            Drafted.refl.write dateable
          have grown : (appendEvents row (event :: rest) now).traceTimeline ≠
            row.traceTimeline := by simp [appendEvents_eq]
          have written := pen_append (drafted.executionId ▸ seen) (drafted.appended stamped grown)
            (stamped.symm ▸ may)
          refine wp_mono ?_ written
          intro o u hu
          rw [stamped] at hu
          cases o with
          | ret a => exact hu.2.1
          | raise e => exact hu
          | halt => exact hu.elim

end
end AgenticPlatform
