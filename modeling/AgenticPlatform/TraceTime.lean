import AgenticPlatform.Concurrency
import AgenticPlatform.DatingSpec
import Mathlib.Data.Fintype.Basic
import Mathlib.Order.Monotone.Defs

/-! The order of time in a trace timeline, in every interleaving of the parties that write it. -/
namespace AgenticPlatform
open Interaction ExecutionEngine

/-- Parties, each with the versions it has seen and the dates it has written. -/
abbrev Chroniclers (ι : Type) := Sys platform Exn World Pen ι

variable {ι : Type} {env : Env}

def employ (engine : ExecutionEngine) (fuel : Nat) (parties : ι → Party) (w : World) :
    Chroniclers ι where
  shared := w
  threads := fun i => (parties i).program engine fuel
  ghost := fun _ => .unused

/-- Whoever appends to a timeline has read a version that has not ended, and whose last change is
its own or no later than the reading of the clock by which it dates its rows. -/
def Timely (c : Chroniclers ι) (i : ι) : Op → Prop
  | .updateExecution ex =>
      match (c.ghost i).rows ex.executionId with
      | some seen => ex.traceTimeline = seen.traceTimeline ∨
        (isExecutionTerminal seen.status = false ∧
          ((c.ghost i).dated ex.executionId = some seen.updatedAt ∨ seen.updatedAt ≤ ex.updatedAt))
      | none => True
  | _ => True

instance (c : Chroniclers ι) (i : ι) (op : Op) : Decidable (Timely c i op) := by
  unfold Timely
  split
  · split
    · exact inferInstanceAs (Decidable (_ ∨ _))
    · exact inferInstanceAs (Decidable True)
  · exact inferInstanceAs (Decidable True)

/-- Every version that is stored or has been read is in order, and nobody has read the clock later
than it will be read next. -/
structure Annals (env : Env) (c : Chroniclers ι) : Prop where
  follows : Follows penSem (fun _ _ _ => True) c
  stored : ∀ id row, c.shared.execution id = some row → Chronicled row
  seen : ∀ i id row, (c.ghost i).rows id = some row → Chronicled row
  clock : ∀ i latest, (c.ghost i).read = some latest → ∀ n, c.shared.readings ≤ n →
    latest ≤ env.now n

variable {c d : Chroniclers ι} {i : ι} {op : Op}

theorem annals_employ (engine : ExecutionEngine) (fuel : Nat) (parties : ι → Party) {w : World}
    (start : ∀ id row, w.execution id = some row → Chronicled row) : Annals env
      (employ engine fuel parties w) where
  follows := fun i => wp_mono (fun _ _ _ => trivial) ((parties i).pens engine fuel)
  stored := start
  seen := fun _ _ _ no => nomatch no
  clock := fun _ _ no => nomatch no

/-- The store and the clock answer as a party expects. -/
theorem Annals.answer (annals : Annals env c) (i : ι) (op : Op) : penAnswer (c.ghost i) op
    (handle env c.shared op).1 := by
  cases op with
  | now => exact ⟨_, rfl, fun latest read => annals.clock i latest read _ (Nat.le_refl _)⟩
  | getExecution id => exact ⟨_, rfl, fun ex stored => World.execution_id stored⟩
  | _ => trivial

/-- A timely update writes a version that is in order. -/
theorem Annals.written (annals : Annals env c) {ex : Execution}
    (next : c.pending i = some (.updateExecution ex)) (timely : Timely c i (.updateExecution ex)) :
    Chronicled ex := by
  obtain ⟨seen, known, change⟩ := annals.follows.ok next
  have chronicled := annals.seen i _ seen known
  rcases change with ⟨d, rfl⟩ | ⟨appended, may⟩
  · exact chronicled.input d
  · simp only [Timely, known] at timely
    obtain ⟨live, dated⟩ := timely.resolve_left appended.grown
    apply chronicled.append appended live
    rcases dated with own | before
    · exact may.wrote _ _ own
    · exact before

/-- What a party has seen after a call: what it had seen, or a version that is stored or that it
writes. -/
theorem Annals.sees (annals : Annals env c) (next : c.pending i = some op)
    (timely : Timely c i op) {id : UUID} {row : Execution}
    (seen : (observePen (c.ghost i) op (handle env c.shared op).1).rows id = some row) :
    Chronicled row := by
  cases op with
  | getExecution asked =>
      simp only [handle, observePen, Function.update_apply] at seen
      split at seen
      · exact annals.stored _ row seen
      · exact annals.seen i id row seen
  | updateExecution ex =>
      cases answer : (handle env c.shared (.updateExecution ex)).1 with
      | error e =>
          rw [answer] at seen
          exact annals.seen i id row seen
      | ok u =>
          rw [answer] at seen
          simp only [observePen, Function.update_apply] at seen
          split at seen
          · exact Option.some.inj seen ▸ annals.written next timely
          · exact annals.seen i id row seen
  | now => exact annals.seen i id row seen
  | saveExecution ex => exact (annals.follows.ok next).elim
  | _ =>
      rw [observePen_other rfl] at seen
      exact annals.seen i id row seen

theorem handle_readings {w : World} : w.readings ≤ (handle env w op).2.readings := by
  cases op with
  | now => exact Nat.le_succ _
  | updateExecution ex =>
      simp only [handle]
      split <;> exact Nat.le_refl _
  | updateStep st =>
      simp only [handle]
      split <;> exact Nat.le_refl _
  | _ => exact Nat.le_refl _

variable [DecidableEq ι]

theorem Annals.fire (clock : Monotone env.now) (annals : Annals env c)
    (next : c.pending i = some op) (timely : Timely c i op) : Annals env
      (c.fire (handle env) observePen i) := by
  have unsaved : ∀ ex, op ≠ .saveExecution ex := by
    rintro ex rfl
    exact annals.follows.ok next
  constructor
  case follows => exact annals.follows.fire next ⟨annals.answer i op, rfl⟩
  case stored =>
    intro id row stored
    rw [Sys.fire_shared next] at stored
    rcases @handle_execution_updates c.shared env op unsaved id with same | ⟨ex, rfl, _, _, written⟩
    · exact annals.stored id row (same ▸ stored)
    · rw [written] at stored
      exact Option.some.inj stored ▸ annals.written next timely
  case seen =>
    intro j id row seen
    rw [Sys.fire_ghost next, Function.update_apply] at seen
    split at seen
    · exact annals.sees next timely seen
    · exact annals.seen j id row seen
  case clock =>
    intro j latest read n later
    rw [Sys.fire_shared next] at later
    rw [Sys.fire_ghost next, Function.update_apply] at read
    split at read
    · by_cases reading : op = .now
      · subst reading
        obtain rfl := Option.some.inj read
        exact clock ((Nat.le_succ _).trans later)
      · rw [observePen_read reading] at read
        exact annals.clock i latest read n (handle_readings.trans later)
    · exact annals.clock j latest read n (handle_readings.trans later)

/-- With a clock that does not decrease, in every interleaving whose appends are timely, every
stored version of a timeline is in order of time and ends with its terminal status. -/
theorem trace_in_order (clock : Monotone env.now) (engine : ExecutionEngine) (fuel : Nat)
    (parties : ι → Party) {w : World} (start : ∀ id row, w.execution id = some row → Chronicled row)
    (reach : Sys.Reaches (handle env) observePen Timely (employ engine fuel parties w) d)
    {id : UUID} {row : Execution} (stored : d.shared.execution id = some row) :
    Chronicle row.traceTimeline := by
  have annals : Annals env d :=
    reach.invariant (fun _ _ _ annals next timely => annals.fire clock next timely)
      (annals_employ engine fuel parties start)
  exact (annals.stored id row stored).chronicle

/-- A clock that advances by a second with every reading; no service answers. -/
def ticking : Env := { Env.refusing with now := fun n => n * 1000000 }

theorem ticking_monotone : Monotone ticking.now := fun _ _ le => Nat.mul_le_mul_right 1000000 le

/-- A worker and a cancellation of one execution. -/
def stepAndCancel : Chroniclers Bool := employ (.default .flat) 3 planAndCancel
    (.created ticking genericRequest)

/-- The worker makes so many calls, then the cancellation is made as a whole, then the worker goes
on. -/
def cancelledAfter (before later : Nat) : List Bool :=
  List.replicate before true ++ List.replicate 5 false ++ List.replicate later true

theorem created_chronicled (id : UUID) (row : Execution)
    (stored : (World.created ticking genericRequest).execution id = some row) : Chronicled row := by
  have new : row ∈ [executionOf genericRequest ⟨1⟩ ⟨0⟩ 0] := (Store.Table.get_eq_some.mp stored).1
  obtain rfl := List.mem_singleton.mp new
  exact chronicled_new rfl

/-- The cancellation that comes between two steps is the last row. -/
theorem trace_in_order_between_steps : ∃ row,
    (stepAndCancel.fires (handle ticking) observePen (cancelledAfter 30 30)).shared.execution
      ⟨1⟩ = some row ∧
      row.traceTimeline.length = 5 ∧ Chronicle row.traceTimeline := by
  have rows :
    ((stepAndCancel.fires (handle ticking) observePen (cancelledAfter 30 30)).shared.execution
    ⟨1⟩).map
      (fun row => row.traceTimeline.length) = some 5 := by decide +kernel
  obtain ⟨row, stored, count⟩ := Option.map_eq_some_iff.mp rows
  refine ⟨row, stored, count, ?_⟩
  exact trace_in_order ticking_monotone (.default .flat) 3 planAndCancel created_chronicled
    (Sys.Reaches.refl.legally (by decide +kernel)) stored

/-- The row that the worker appends at the end of the step follows the row of the cancellation. -/
theorem trace_after_end :
    ¬ ∀ (ι : Type) [DecidableEq ι] (env : Env) (engine : ExecutionEngine) (fuel : Nat)
    (parties : ι → Party) (w : World) (d : Chroniclers ι) (id : UUID)
    (row : Execution), Monotone env.now →
    (∀ id row, w.execution id = some row → Chronicled row) →
    Sys.Reaches (handle env) observePen (fun _ _ _ => True) (employ engine fuel parties w) d →
    d.shared.execution id = some row → Chronicle row.traceTimeline := by
  intro ordered
  have rows :
    ((stepAndCancel.fires (handle ticking) observePen (cancelledAfter 24 6)).shared.execution
    ⟨1⟩).map
      (fun row => (row.traceTimeline.length, row.traceTimeline[3]?.map fun r =>
        (isStatusRow r, r.get "status"))) =
      some (5, some (true, .str "cancelled")) := by decide +kernel
  obtain ⟨row, stored, fields⟩ := Option.map_eq_some_iff.mp rows
  obtain ⟨count, fourth⟩ := Prod.mk.inj fields
  obtain ⟨r, found, announces⟩ := Option.map_eq_some_iff.mp fourth
  obtain ⟨announced, status⟩ := Prod.mk.inj announces
  obtain ⟨inside, rfl⟩ := List.getElem?_eq_some_iff.mp found
  have chronicle := ordered Bool ticking (.default .flat) 3 planAndCancel _ _ ⟨1⟩ row
    ticking_monotone created_chronicled
    (Sys.Reaches.refl.fires (cancelledAfter 24 6)) stored
  have split : row.traceTimeline = row.traceTimeline.take 3 ++ row.traceTimeline[3] ::
    row.traceTimeline.drop 4 := by
    rw [← List.drop_eq_getElem_cons inside, List.take_append_drop]
  have last := chronicle.final _ _ _ split ⟨announced, .cancelled, status, rfl⟩
  have := congrArg List.length last
  rw [List.length_drop, count] at this
  cases this

end AgenticPlatform
