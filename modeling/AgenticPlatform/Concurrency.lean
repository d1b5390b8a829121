import AgenticPlatform.Parties

/-! Parties that act on executions at the same time. One atomic step is one call of the
repository, the clock or a service, and any order of the steps of any number of
parties is an interleaving. -/
namespace AgenticPlatform
open Interaction ExecutionEngine Store

/-- Parties over the shared platform, each with its view of the rows. -/
abbrev Platform (ι : Type) := Sys platform Exn World RowView ι

variable {ι : Type} {env : Env}

/-- All parties at their beginning. -/
def launch (engine : ExecutionEngine) (fuel : Nat) (parties : ι → Party) (w : World) :
    Platform ι where
  shared := w
  threads := fun i => (parties i).program engine fuel
  ghost := fun _ => .unseen

/-- The interleavings in which every call is `legal`. -/
abbrev Interleaves [DecidableEq ι] (env : Env) (legal : Platform ι → ι → Op → Prop)
    (c d : Platform ι) : Prop :=
  Sys.Reaches (handle env) observeRows legal c d

/-- Every party still keeps the row discipline from what it has seen. -/
abbrev Disciplined (c : Platform ι) : Prop := Follows (rowSem False False) (fun _ _ _ => True) c

theorem launch_disciplined (engine : ExecutionEngine) (fuel : Nat)
    (parties : ι → Party) (w : World) :
    Disciplined (launch engine fuel parties w) :=
  fun i => (parties i).rows engine fuel

variable [DecidableEq ι] {legal : Platform ι → ι → Op → Prop} {c d e : Platform ι}

theorem fire_disciplined {i : ι} {op : Op} (follows : Disciplined c)
    (next : c.pending i = some op) :
    Disciplined (c.fire (handle env) observeRows i) :=
  follows.fire next ⟨handle_answer False.elim op, rfl⟩

/-- A party replaces a stored row only by one step from the row that it last saw. -/
theorem fire_row {i : ι} {op : Op} (follows : Disciplined c)
    (next : c.pending i = some op) (id : UUID) :
    (c.fire (handle env) observeRows i).shared.execution id = c.shared.execution id ∨
      ∃ ex seen, op = .updateExecution ex ∧ ex.executionId = id ∧ (c.ghost i).rows id = some seen ∧
        RowStep seen ex ∧ (c.fire (handle env) observeRows i).shared.execution id = some ex := by
  rw [Sys.fire_shared next]
  rcases handle_execution (follows.ok next) id with same | ⟨ex, rfl, rfl, _, stored⟩
  · exact .inl same
  · obtain ⟨seen, known, step, _, _⟩ := follows.ok next
    exact .inr ⟨ex, seen, rfl, rfl, known, step, stored⟩

/-- What relates the row before to the row after in every legal write relates every two
versions of a row in a run. -/
theorem stored_relation (R : Execution → Execution → Prop) (refl : ∀ row, R row row)
    (trans : ∀ a b c, R a b → R b c → R a c)
    (writes : ∀ (c : Platform ι) i ex stored seen, legal c i (.updateExecution ex) →
      c.shared.execution ex.executionId = some stored →
        (c.ghost i).rows ex.executionId = some seen →
      RowStep seen ex → R stored ex)
    {engine : ExecutionEngine} {fuel : Nat} {parties : ι → Party} {w : World}
    (reach : Interleaves env legal (launch engine fuel parties w) d)
    (later : Interleaves env legal d e) {id : UUID} {row : Execution}
    (stored : d.shared.execution id = some row) :
    ∃ row', e.shared.execution id = some row' ∧ R row row' := by
  have follows : Disciplined d :=
    reach.invariant (fun _ _ _ follows next _ => fire_disciplined follows next)
      (launch_disciplined engine fuel parties w)
  have whole : Disciplined e ∧ ∃ row', e.shared.execution id = some row' ∧ R row row' := by
    refine later.invariant (I := fun c => Disciplined c ∧ ∃ row', c.shared.execution id =
      some row' ∧ R row row')
      ?_ ⟨follows, row, stored, refl row⟩
    rintro c i op ⟨follows, row', stored', related⟩ next ok
    refine ⟨fire_disciplined follows next, ?_⟩
    rcases @fire_row ι env _ c i op follows next id with same |
      ⟨ex, seen, rfl, rfl, known, step, written⟩
    · exact ⟨row', same.trans stored', related⟩
    · exact ⟨ex, written, trans _ _ _ related (writes c i ex row' seen ok stored' known step)⟩
  exact whole.2

def planAndCancel (worker : Bool) : Party :=
  if worker then .startExecution ⟨1⟩ else .requestCancellation ⟨1⟩ "operator"

def raceStart : Platform Bool :=
  launch (.default .flat) 1 planAndCancel (.created .refusing genericRequest)

def raceCancelled : Platform Bool :=
  raceStart.fires (handle .refusing) observeRows [true, true, false, false, false, false, false]

def raceOverwritten : Platform Bool := raceCancelled.fires (handle .refusing) observeRows [true]

theorem race_reached : Interleaves .refusing (fun _ _ _ => True) raceStart raceCancelled ∧
    Interleaves .refusing (fun _ _ _ => True) raceCancelled raceOverwritten :=
  ⟨Sys.Reaches.refl.fires _, Sys.Reaches.refl.fires _⟩

/-- A worker, a cancellation and the record of the start of the worker, for one execution. -/
def workAndCancel : Fin 3 → Party
  | 0 => .startExecution ⟨1⟩
  | 1 => .requestCancellation ⟨1⟩ "operator"
  | 2 => .recordWorkerStarted ⟨1⟩ "worker" none

def threeParties : Platform (Fin 3) := launch (.default .flat) 3 workAndCancel
    (.created .refusing genericRequest)

def betweenSteps : Platform (Fin 3) := threeParties.fires (handle .refusing) observeRows
    (List.replicate 30 0)

def cancelledBetweenSteps : Platform (Fin 3) :=
  betweenSteps.fires (handle .refusing) observeRows (List.replicate 5 1)

def recordedAfterEnd : Platform (Fin 3) :=
  cancelledBetweenSteps.fires (handle .refusing) observeRows
    (List.replicate 3 2 ++ List.replicate 30 0)

/-- The version that a call writes over a stored row. -/
def Op.update? : Op → Option Execution
  | .updateExecution ex => some ex
  | _ => none

theorem Op.update?_eq {op : Op} {ex : Execution} : op.update? = some ex ↔
    op = .updateExecution ex := by
  cases op with
  | updateExecution ex' => simp [Op.update?]
  | _ => simp [Op.update?]

/-- Whoever writes over a row that has ended has seen it ended. -/
def SeesEnd (c : Platform ι) (i : ι) (op : Op) : Prop :=
  ∀ ex stored seen, op = .updateExecution ex → c.shared.execution ex.executionId = some stored →
    isExecutionTerminal stored.status = true → (c.ghost i).rows ex.executionId = some seen →
    seen.status = stored.status

/-- In every interleaving whose writes have all seen the end of the row, a terminal status is
final. -/
theorem terminal_status_final {engine : ExecutionEngine} {fuel : Nat}
    {parties : ι → Party} {w : World}
    (reach : Interleaves env SeesEnd (launch engine fuel parties w) d)
    (later : Interleaves env SeesEnd d e) {id : UUID} {row : Execution}
    (stored : d.shared.execution id = some row) (terminal : isExecutionTerminal row.status = true) :
    ∃ row', e.shared.execution id = some row' ∧ row'.status = row.status := by
  obtain ⟨row', stored', final⟩ := stored_relation
    (fun a b => isExecutionTerminal a.status = true → b.status = a.status) (fun _ _ => rfl)
    (fun a b c first second ended => (second (first ended ▸ ended)).trans (first ended))
    (fun c i ex stored seen (ok : SeesEnd c i _) known view step ended => by
      have same := ok ex stored seen rfl known ended view
      exact (step.terminal (same ▸ ended)).trans same) reach later stored
  exact ⟨row', stored', final terminal⟩

instance (c : Platform ι) (i : ι) (op : Op) : Decidable (SeesEnd c i op) :=
  decidable_of_iff (∀ ex ∈ op.update?, ∀ stored ∈ c.shared.execution ex.executionId,
      isExecutionTerminal stored.status = true → ∀ seen ∈ (c.ghost i).rows ex.executionId,
        seen.status = stored.status)
    ⟨fun all ex stored seen writes known ended view => all ex (Op.update?_eq.mpr writes) stored
      known ended seen view, fun all ex writes stored known ended seen view => all ex stored seen
        (Op.update?_eq.mp writes) known ended view⟩

/-- The cancellation comes between two steps; the start of the worker is recorded after it. -/
theorem terminal_status_final_after_cancellation : ∃ row row',
    cancelledBetweenSteps.shared.execution ⟨1⟩ = some row ∧ row.status = .cancelled ∧
      recordedAfterEnd.shared.execution ⟨1⟩ = some row' ∧ row'.input ≠ row.input ∧
        row'.status = row.status := by
  have status : (cancelledBetweenSteps.shared.execution ⟨1⟩).map Execution.status =
    some .cancelled := by
    decide +kernel
  have written : (recordedAfterEnd.shared.execution ⟨1⟩).map Execution.input ≠
      (cancelledBetweenSteps.shared.execution ⟨1⟩).map Execution.input := by
    decide +kernel
  obtain ⟨row, stored, cancelled⟩ := Option.map_eq_some_iff.mp status
  have working : Interleaves .refusing SeesEnd threeParties betweenSteps :=
    Sys.Reaches.refl.legally (by decide +kernel)
  have reach : Interleaves .refusing SeesEnd threeParties cancelledBetweenSteps :=
    working.legally (by decide +kernel)
  have later : Interleaves .refusing SeesEnd cancelledBetweenSteps recordedAfterEnd :=
    Sys.Reaches.refl.legally (by decide +kernel)
  obtain ⟨row', stored', same⟩ := terminal_status_final reach later stored (by rw [cancelled]; rfl)
  rw [stored, stored'] at written
  exact ⟨row, row', stored, cancelled, stored', fun equal => written (congrArg some equal), same⟩

/-- In the race, CANCELLED becomes PLANNING. -/
theorem terminal_status_not_final :
    ¬ ∀ (ι : Type) [DecidableEq ι] (env : Env) (engine : ExecutionEngine) (fuel : Nat)
    (parties : ι → Party) (w : World) (d e : Platform ι) (id : UUID) (row : Execution),
    Interleaves env (fun _ _ _ => True) (launch engine fuel parties w) d →
    Interleaves env (fun _ _ _ => True) d e → d.shared.execution id = some row →
    isExecutionTerminal row.status = true →
    ∃ row', e.shared.execution id = some row' ∧ row'.status = row.status := by
  intro final
  have before : (raceCancelled.shared.execution ⟨1⟩).map Execution.status = some .cancelled := by
    decide
  have after : (raceOverwritten.shared.execution ⟨1⟩).map Execution.status = some .planning := by
    decide
  obtain ⟨row, stored, cancelled⟩ := Option.map_eq_some_iff.mp before
  obtain ⟨row', stored', same⟩ := final Bool .refusing _ 1 planAndCancel _ _ _ ⟨1⟩ row
    race_reached.1
    race_reached.2 stored (by rw [cancelled]; rfl)
  rw [stored', Option.map_some, same, cancelled] at after
  exact absurd after (by decide)

/-- Whoever writes over a row has seen its whole timeline. -/
def SeesTimeline (c : Platform ι) (i : ι) (op : Op) : Prop :=
  ∀ ex stored seen, op = .updateExecution ex → c.shared.execution ex.executionId = some stored →
    (c.ghost i).rows ex.executionId = some seen → seen.traceTimeline = stored.traceTimeline

/-- In every interleaving whose writes have all seen the timeline they write over, the timeline
of a row only grows by appending. -/
theorem timeline_only_appended {engine : ExecutionEngine} {fuel : Nat}
    {parties : ι → Party} {w : World}
    (reach : Interleaves env SeesTimeline (launch engine fuel parties w) d)
    (later : Interleaves env SeesTimeline d e) {id : UUID} {row : Execution}
    (stored : d.shared.execution id = some row) :
    ∃ row', e.shared.execution id = some row' ∧ row.traceTimeline <+: row'.traceTimeline :=
  stored_relation (fun a b => a.traceTimeline <+: b.traceTimeline) (fun _ => List.prefix_rfl)
    (fun _ _ _ => List.IsPrefix.trans)
    (fun c i ex stored seen (ok : SeesTimeline c i _) known view step =>
      (ok ex stored seen rfl known view) ▸ step.timeline)
    reach later stored

instance (c : Platform ι) (i : ι) (op : Op) : Decidable (SeesTimeline c i op) :=
  decidable_of_iff (∀ ex ∈ op.update?, ∀ stored ∈ c.shared.execution ex.executionId,
      ∀ seen ∈ (c.ghost i).rows ex.executionId, seen.traceTimeline = stored.traceTimeline)
    ⟨fun all ex stored seen writes known view => all ex (Op.update?_eq.mpr writes) stored
      known seen view, fun all ex writes stored known seen view => all ex stored seen
        (Op.update?_eq.mp writes) known view⟩

/-- The cancellation appends its row to those of the planning and of the first step. -/
theorem timeline_only_appended_after_cancellation : ∃ row row',
    betweenSteps.shared.execution ⟨1⟩ = some row ∧ row.traceTimeline.length = 4 ∧
      recordedAfterEnd.shared.execution ⟨1⟩ = some row' ∧ row'.traceTimeline.length = 5 ∧
      row.traceTimeline <+: row'.traceTimeline := by
  have before : (betweenSteps.shared.execution ⟨1⟩).map (fun row => row.traceTimeline.length) =
    some 4 := by
    decide +kernel
  have after : (recordedAfterEnd.shared.execution ⟨1⟩).map (fun row => row.traceTimeline.length) =
    some 5 := by
    decide +kernel
  obtain ⟨row, stored, four⟩ := Option.map_eq_some_iff.mp before
  have reach : Interleaves .refusing SeesTimeline threeParties betweenSteps :=
    Sys.Reaches.refl.legally (by decide +kernel)
  have cancelling : Interleaves .refusing SeesTimeline betweenSteps cancelledBetweenSteps :=
    Sys.Reaches.refl.legally (by decide +kernel)
  have later : Interleaves .refusing SeesTimeline betweenSteps recordedAfterEnd :=
    cancelling.legally (by decide +kernel)
  obtain ⟨row', stored', grown⟩ := timeline_only_appended reach later stored
  rw [stored'] at after
  exact ⟨row, row', stored, four, stored', Option.some.inj after, grown⟩

/-- In the race, the trace row of the cancellation is lost. -/
theorem timeline_row_lost : ¬ ∀ (ι : Type) [DecidableEq ι] (env : Env) (engine : ExecutionEngine)
    (fuel : Nat) (parties : ι → Party) (w : World) (d e : Platform ι) (id : UUID) (row : Execution),
    Interleaves env (fun _ _ _ => True) (launch engine fuel parties w) d →
    Interleaves env (fun _ _ _ => True) d e → d.shared.execution id = some row →
    ∃ row', e.shared.execution id = some row' ∧ row.traceTimeline <+: row'.traceTimeline := by
  intro appended
  have before : (raceCancelled.shared.execution ⟨1⟩).map (fun row => statusRows row.traceTimeline) =
      some [.str "cancelled"] := by decide
  have after : (raceOverwritten.shared.execution ⟨1⟩).map
    (fun row => statusRows row.traceTimeline) =
      some [.str "planning"] := by decide
  obtain ⟨row, stored, cancelled⟩ := Option.map_eq_some_iff.mp before
  obtain ⟨row', stored', rest, grown⟩ := appended Bool .refusing _ 1 planAndCancel _ _ _ ⟨1⟩ row
    race_reached.1 race_reached.2 stored
  rw [stored', Option.map_some, ← grown, statusRows_append, cancelled] at after
  simp at after

end AgenticPlatform
