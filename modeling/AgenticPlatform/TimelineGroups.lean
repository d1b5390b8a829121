import AgenticPlatform.Counting.Buckets
import AgenticPlatform.Ranking.Stable
import AgenticPlatform.SseFraming
import Mathlib.Algebra.GroupWithZero.Nat

/-! The rows of a trace timeline as the console groups them: those of the execution, those of each
listed step, and those of other steps. -/
namespace AgenticPlatform
open Counting Ranking

/-- `String(v)` of a value that is not a string, and whether `localeCompare` lets a string come
before another one. -/
structure Browser where
  text : Json → String
  le : String → String → Prop
  decLe : DecidableRel le
  total : Std.Total le
  trans : IsTrans String le

attribute [instance] Browser.decLe Browser.total Browser.trans

/-- `s.trim() === ''`. -/
def isBlank (s : String) : Bool := (jsTrim s.toList).isEmpty

/-- The UTF-16 units of a character. -/
def utf16Units (c : Char) : Nat := if c.toNat < 0x10000 then 1 else 2

/-- `s.length`. -/
def utf16Length (s : String) : Nat := (s.toList.map utf16Units).sum

/-- `s.slice(0, n)`, where half a character that is left at the end shows as the replacement
character. -/
def utf16Take : Nat → List Char → List Char
  | _, [] => []
  | n, c :: rest =>
      if utf16Units c ≤ n then c :: utf16Take (n - utf16Units c) rest
      else if n = 0 then [] else ['\uFFFD']

namespace Browser
variable (browser : Browser)

/-- `String(v)`. -/
def string : Json → String
  | .str s => s
  | v => browser.text v

/-- `String(v ?? '')`. -/
def stringOrBlank (v : Json) : String := if v = .null then "" else browser.string v

/-- The string of a value that is there and has a string that is not empty. -/
def nonempty? (v : Json) : Option String := if v ≠ .null ∧ browser.string v ≠ "" then some
    (browser.string v) else none

end Browser

abbrev TimelineEvent := Dict

structure TimelineGroup where
  key : String
  label : String
  events : List TimelineEvent

def execKey : String := "__execution__"

section
variable (browser : Browser)

def eventAt (e : TimelineEvent) : String := browser.stringOrBlank (e.get "at")

/-- An event may come before another one. -/
def AtLe (a b : TimelineEvent) : Prop := browser.le (eventAt browser a) (eventAt browser b)

instance : DecidableRel (AtLe browser) := fun _ _ => browser.decLe _ _

instance : Std.Total (AtLe browser) := ⟨fun _ _ => browser.total.total _ _⟩

instance : IsTrans TimelineEvent (AtLe browser) := ⟨fun _ _ _ => browser.trans.trans _ _ _⟩

def sortEventsByAt (events : List TimelineEvent) : List TimelineEvent := events.insertionSort
    (AtLe browser)

/-- The key of the bucket of an event. -/
def bucketKey (e : TimelineEvent) : String :=
  let sidRaw := e.get "step_id"
  if sidRaw = .null ∨ isBlank (browser.string sidRaw) then execKey else browser.string sidRaw

def shortStepId (sid : String) : String :=
  if utf16Length sid ≤ 14 then sid else String.ofList (utf16Take 8 sid.toList) ++ "…"

def labelForStep (sid : String) (events : List TimelineEvent) : String :=
  let fromStep := events.find? fun ev =>
    let eventType := ev.get "event_type"
    eventType.isStr "step_started" || eventType.isStr "step_completed" || eventType.isStr
      "model_reasoning"
  (browser.nonempty? ((fromStep.getD []).get "planner_step_name")).getD (shortStepId sid)

/-- The group of a step. -/
def stepGroup (sid : String) (evs : List TimelineEvent) : TimelineGroup :=
  ⟨sid, labelForStep browser sid evs, evs⟩

/-- One round of the loop over the listed steps: the groups, and the keys that are placed. -/
def placeStep (byStep : Grouped String (List TimelineEvent))
    (state : List TimelineGroup × List String) (sid : String) :
    List TimelineGroup × List String :=
  match (byStep.get? sid).getD [] with
  | [] => state
  | evs => (state.1 ++ [stepGroup browser sid evs], insertNew sid state.2)

/-- The first time in a bucket, by which the other buckets are sorted. -/
def firstAt (byStep : Grouped String (List TimelineEvent)) (sid : String) : String :=
  browser.stringOrBlank ((((byStep.get? sid).getD []).head?.getD []).get "at")

/-- The group of the execution, where it has events, and the keys that are placed then. -/
def placeExecution (byStep : Grouped String (List TimelineEvent)) :
    List TimelineGroup × List String :=
  let execEvents := (byStep.get? execKey).getD []
  if execEvents.isEmpty then ([], []) else ([⟨execKey, "Execution", execEvents⟩], [execKey])

/-- The keys that are not placed. -/
def extraKeys (byStep : Grouped String (List TimelineEvent)) (placed : List String) : List String :=
  (byStep.keys.filter fun k => k ∉ placed).insertionSort fun a b => browser.le
    (firstAt browser byStep a) (firstAt browser byStep b)

def groupTimelineByStep (timeline : List TimelineEvent) (stepOrder : List String) :
    List TimelineGroup :=
  let sorted := sortEventsByAt browser timeline
  let byStep := buckets (bucketKey browser) sorted
  let state := stepOrder.foldl (placeStep browser byStep) (placeExecution byStep)
  state.1 ++ (extraKeys browser byStep state.2).map fun sid => stepGroup browser sid
    ((byStep.get? sid).getD [])

/-- One row of the steps of a trace. -/
structure TraceStepRow where
  step : Option Dict
  stepResult : Option Dict

/-- `row.step?.[field]`. -/
def TraceStepRow.stepField (row : TraceStepRow) (field : String) : Json :=
  (row.step.getD []).get field

def stepIdsInOrder (stepRows : List TraceStepRow) : List String :=
  stepRows.filterMap fun row => browser.nonempty? (row.stepField "step_id")

end

/-- The keys that events have. -/
def occurring (browser : Browser) (timeline : List TimelineEvent) (keys : List String) :
    List String :=
  keys.filter (· ∈ timeline.map (bucketKey browser))

/-- Nothing is lost: every event is in the group of its key and in no other one, the groups come in
the order of the steps, and each group is in the order of time. -/
structure Lossless (browser : Browser) (timeline : List TimelineEvent) (stepOrder : List String)
    (groups : List TimelineGroup) :
    Prop where
  all : (groups.flatMap TimelineGroup.events).Perm timeline
  once : ∀ e ∈ timeline, ∃! g, g ∈ groups ∧ e ∈ g.events
  keys : (groups.map TimelineGroup.key).Nodup
  order : ∃ exec listed extra, groups = exec ++ listed ++ extra ∧
    exec.map TimelineGroup.key = occurring browser timeline [execKey] ∧
    listed.map TimelineGroup.key = occurring browser timeline stepOrder ∧
    ∀ g ∈ extra, g.key ≠ execKey ∧ g.key ∉ stepOrder
  sorted : ∀ g ∈ groups, g.events.Pairwise (AtLe browser)
  ties : ∀ g ∈ groups, ∀ x, (g.events.filter fun e => Tied (AtLe browser) x e) =
    timeline.filter fun e => bucketKey browser e = g.key ∧ Tied (AtLe browser) x e

section
variable {browser : Browser} {timeline events : List TimelineEvent} {stepOrder keys : List String}
  {sid k : String}

theorem sortEventsByAt_perm : (sortEventsByAt browser events).Perm events :=
  List.perm_insertionSort _ _

theorem sortEventsByAt_sorted : (sortEventsByAt browser events).Pairwise (AtLe browser) :=
  List.pairwise_insertionSort _ _

/-- What is sorted stays as it is. -/
theorem sortEventsByAt_of_sorted (sorted : events.Pairwise (AtLe browser)) :
    sortEventsByAt browser events = events :=
  sorted.insertionSort_eq

/-- The events of a key, by time. -/
def eventsOf (browser : Browser) (timeline : List TimelineEvent) (sid : String) :
    List TimelineEvent :=
  bucketOf (bucketKey browser) sid (sortEventsByAt browser timeline)

/-- What the loop over the sorted timeline makes. -/
def byStep (browser : Browser) (timeline : List TimelineEvent) : Grouped String
    (List TimelineEvent) :=
  buckets (bucketKey browser) (sortEventsByAt browser timeline)

theorem get_byStep : ((byStep browser timeline).get? sid).getD [] = eventsOf browser timeline sid :=
  get_buckets

theorem mem_keys_byStep : k ∈ (byStep browser timeline).keys ↔ k ∈ timeline.map
    (bucketKey browser) := by
  rw [byStep, keys_buckets, mem_distinct, (sortEventsByAt_perm.map _).mem_iff]

theorem mem_eventsOf {e : TimelineEvent} : e ∈ eventsOf browser timeline sid ↔ e ∈ timeline ∧
    bucketKey browser e = sid := by
  rw [eventsOf, mem_bucketOf, sortEventsByAt_perm.mem_iff]

theorem eventsOf_eq_nil : eventsOf browser timeline sid = [] ↔ sid ∉ timeline.map
    (bucketKey browser) := by
  rw [eventsOf, bucketOf_eq_nil, (sortEventsByAt_perm.map _).mem_iff]

theorem eventsOf_sorted : (eventsOf browser timeline sid).Pairwise (AtLe browser) :=
  sortEventsByAt_sorted.sublist List.filter_sublist

theorem eventsOf_ties {x : TimelineEvent} :
    ((eventsOf browser timeline sid).filter fun e => Tied (AtLe browser) x e) =
    timeline.filter fun e => bucketKey browser e = sid ∧ Tied (AtLe browser) x e := by
  rw [eventsOf, bucketOf, List.filter_filter]
  have swap : ((sortEventsByAt browser timeline).filter fun e => decide (Tied (AtLe browser) x e) &&
    decide (bucketKey browser e = sid)) =
      ((sortEventsByAt browser timeline).filter fun e => Tied (AtLe browser) x e).filter fun e =>
        bucketKey browser e = sid := by
    rw [List.filter_filter]
    exact List.filter_congr fun e _ => Bool.and_comm _ _
  rw [swap, sortEventsByAt, filter_tied_insertionSort, List.filter_filter]
  exact List.filter_congr fun e _ => (Bool.decide_and _ _).symm

theorem mem_occurring : k ∈ occurring browser timeline keys ↔ k ∈ keys ∧ k ∈ timeline.map
    (bucketKey browser) := by
  rw [occurring, List.mem_filter, decide_eq_true_eq]

/-- The group of a step, with its events. -/
def groupOf (browser : Browser) (timeline : List TimelineEvent) (sid : String) : TimelineGroup :=
  stepGroup browser sid (eventsOf browser timeline sid)

theorem placeStep_byStep {state : List TimelineGroup × List String} : placeStep browser
    (byStep browser timeline) state sid =
    if sid ∈ timeline.map (bucketKey browser) then
      (state.1 ++ [groupOf browser timeline sid], insertNew sid state.2) else state := by
  rw [placeStep, get_byStep]
  by_cases occurs : sid ∈ timeline.map (bucketKey browser)
  · rw [if_pos occurs, groupOf]
    cases found : eventsOf browser timeline sid with
    | nil => exact absurd occurs (eventsOf_eq_nil.mp found)
    | cons e more => rfl
  · rw [if_neg occurs, eventsOf_eq_nil.mpr occurs]

/-- The loop appends a group for each step that occurs, and places its key. -/
theorem foldl_placeStep {state : List TimelineGroup × List String} :
    (stepOrder.foldl (placeStep browser (byStep browser timeline)) state).1 =
      state.1 ++ (occurring browser timeline stepOrder).map (groupOf browser timeline) ∧
    ∀ k, k ∈ (stepOrder.foldl (placeStep browser (byStep browser timeline)) state).2 ↔
      k ∈ state.2 ∨ k ∈ occurring browser timeline stepOrder := by
  induction stepOrder generalizing state with
  | nil => exact ⟨(List.append_nil _).symm, fun k => (or_iff_left List.not_mem_nil).symm⟩
  | cons sid rest ih =>
      rw [List.foldl_cons, placeStep_byStep]
      by_cases occurs : sid ∈ timeline.map (bucketKey browser)
      · have first : occurring browser timeline (sid :: rest) = sid :: occurring browser
          timeline rest :=
          List.filter_cons_of_pos (decide_eq_true occurs)
        obtain ⟨groups, placed⟩ :=
          @ih (state.1 ++ [groupOf browser timeline sid], insertNew sid state.2)
        rw [if_pos occurs, first]
        refine ⟨?_, fun k => ?_⟩
        · rw [groups, List.append_assoc]
          rfl
        · rw [placed, mem_insertNew, List.mem_cons, or_assoc]
      · have none : occurring browser timeline (sid :: rest) = occurring browser timeline rest :=
          List.filter_cons_of_neg (by simpa using occurs)
        rw [if_neg occurs, none]
        exact ih

/-- The group of the execution. -/
def execGroup (browser : Browser) (timeline : List TimelineEvent) : TimelineGroup :=
  ⟨execKey, "Execution", eventsOf browser timeline execKey⟩

theorem placeExecution_byStep : placeExecution (byStep browser timeline) =
    ((occurring browser timeline [execKey]).map fun _ => execGroup browser timeline, occurring
      browser timeline [execKey]) := by
  rw [placeExecution, get_byStep]
  by_cases occurs : execKey ∈ timeline.map (bucketKey browser)
  · have only : occurring browser timeline [execKey] = [execKey] :=
      List.filter_cons_of_pos (decide_eq_true occurs)
    have some : ¬ (eventsOf browser timeline execKey).isEmpty = true := fun empty =>
      eventsOf_eq_nil.mp (List.isEmpty_iff.mp empty) occurs
    rw [if_neg some, only]
    rfl
  · have none : occurring browser timeline [execKey] = [] :=
      List.filter_cons_of_neg (by simpa using occurs)
    rw [if_pos (List.isEmpty_iff.mpr (eventsOf_eq_nil.mpr occurs)), none]
    rfl

/-- The keys that are neither that of the execution nor that of a listed step. -/
def otherKeys (browser : Browser) (timeline : List TimelineEvent) (stepOrder : List String) :
    List String :=
  extraKeys browser (byStep browser timeline)
    (stepOrder.foldl (placeStep browser (byStep browser timeline))
    (placeExecution (byStep browser timeline))).2

theorem nodup_otherKeys : (otherKeys browser timeline stepOrder).Nodup := by
  have keys : (byStep browser timeline).keys.Nodup := by
    rw [byStep, keys_buckets]
    exact nodup_distinct
  exact (List.perm_insertionSort _ _).nodup_iff.mpr (keys.filter _)

theorem mem_otherKeys : k ∈ otherKeys browser timeline stepOrder ↔
    k ∈ timeline.map (bucketKey browser) ∧ k ≠ execKey ∧ k ∉ stepOrder := by
  have placed :=
    (@foldl_placeStep browser timeline stepOrder (placeExecution (byStep browser timeline))).2 k
  rw [otherKeys, extraKeys, List.mem_insertionSort, List.mem_filter, mem_keys_byStep,
    decide_eq_true_eq, placed, placeExecution_byStep, mem_occurring, mem_occurring,
      List.mem_singleton]
  tauto

/-- The groups: that of the execution, those of the listed steps, and those of the other keys. -/
theorem groupTimelineByStep_eq : groupTimelineByStep browser timeline stepOrder =
    (occurring browser timeline [execKey]).map (fun _ => execGroup browser timeline) ++
      (occurring browser timeline stepOrder).map (groupOf browser timeline) ++
        (otherKeys browser timeline stepOrder).map (groupOf browser timeline) := by
  change (stepOrder.foldl (placeStep browser (byStep browser timeline))
    (placeExecution (byStep browser timeline))).1 ++
    (otherKeys browser timeline stepOrder).map _ = _
  rw [foldl_placeStep.1, placeExecution_byStep]
  exact congrArg _ (List.map_congr_left fun sid _ => congrArg (stepGroup browser sid) get_byStep)

/-- Every group has the events of its key. -/
theorem events_of_mem {g : TimelineGroup}
    (member : g ∈ groupTimelineByStep browser timeline stepOrder) :
    g.events = eventsOf browser timeline g.key := by
  rw [groupTimelineByStep_eq, List.mem_append, List.mem_append] at member
  obtain (exec | listed) | other := member
  · obtain ⟨_, _, rfl⟩ := List.mem_map.mp exec
    rfl
  · obtain ⟨_, _, rfl⟩ := List.mem_map.mp listed
    rfl
  · obtain ⟨_, _, rfl⟩ := List.mem_map.mp other
    rfl

theorem keys_execGroup : ((occurring browser timeline [execKey]).map fun _ => execGroup browser
      timeline).map TimelineGroup.key =
    occurring browser timeline [execKey] := by
  rw [List.map_map]
  exact (List.map_congr_left fun k member =>
    (List.mem_singleton.mp (mem_occurring.mp member).1).symm).trans (List.map_id _)

theorem keys_groupOf : (keys.map (groupOf browser timeline)).map TimelineGroup.key = keys := by
  rw [List.map_map]
  exact List.map_id _

theorem keys_groups : (groupTimelineByStep browser timeline stepOrder).map TimelineGroup.key =
    occurring browser timeline [execKey] ++ occurring browser timeline stepOrder ++ otherKeys
      browser timeline stepOrder := by
  rw [groupTimelineByStep_eq, List.map_append, List.map_append, keys_execGroup,
    keys_groupOf, keys_groupOf]

/-- Every key that occurs has a group, and no key has two. -/
theorem keys_groups_nodup (distinct : stepOrder.Nodup) (apart : execKey ∉ stepOrder) :
    ((groupTimelineByStep browser timeline stepOrder).map TimelineGroup.key).Nodup := by
  rw [keys_groups]
  refine List.nodup_append'.mpr ⟨List.nodup_append'.mpr ⟨(List.nodup_singleton _).filter _,
    distinct.filter _, ?_⟩, nodup_otherKeys, ?_⟩
  · intro k exec listed
    obtain rfl := List.mem_singleton.mp (mem_occurring.mp exec).1
    exact apart (mem_occurring.mp listed).1
  · intro k placed other
    obtain ⟨_, notExec, notListed⟩ := mem_otherKeys.mp other
    obtain exec | listed := List.mem_append.mp placed
    · exact notExec (List.mem_singleton.mp (mem_occurring.mp exec).1)
    · exact notListed (mem_occurring.mp listed).1

theorem mem_keys_groups : k ∈ (groupTimelineByStep browser timeline stepOrder).map
    TimelineGroup.key ↔
    k ∈ timeline.map (bucketKey browser) := by
  rw [keys_groups, List.mem_append, List.mem_append, mem_occurring, mem_occurring, mem_otherKeys,
    List.mem_singleton]
  tauto

theorem groupTimelineByStep_nil : groupTimelineByStep browser [] stepOrder = [] :=
  List.eq_nil_iff_forall_not_mem.mpr fun _ member => List.not_mem_nil
    (mem_keys_groups.mp (List.mem_map_of_mem member))

theorem groupTimelineByStep_lossless (distinct : stepOrder.Nodup) (apart : execKey ∉ stepOrder) :
    Lossless browser timeline stepOrder (groupTimelineByStep browser timeline stepOrder) where
  all := by
    have events : (groupTimelineByStep browser timeline stepOrder).flatMap TimelineGroup.events =
        ((groupTimelineByStep browser timeline stepOrder).map TimelineGroup.key).flatMap
          (eventsOf browser timeline) := by
      rw [List.flatMap_map]
      exact List.flatMap_congr fun g member => events_of_mem member
    rw [events]
    refine (flatMap_bucketOf_perm (keys_groups_nodup distinct apart) fun e member => ?_).trans
      sortEventsByAt_perm
    exact mem_keys_groups.mpr (List.mem_map_of_mem (sortEventsByAt_perm.mem_iff.mp member))
  once e member := by
    have grouped := (@mem_keys_groups browser timeline stepOrder _).mpr (List.mem_map_of_mem member)
    obtain ⟨g, there, same⟩ := List.mem_map.mp grouped
    refine ⟨g, ⟨there, ?_⟩, ?_⟩
    · rw [events_of_mem there, mem_eventsOf]
      exact ⟨member, same.symm⟩
    · rintro g' ⟨there', inside⟩
      rw [events_of_mem there', mem_eventsOf] at inside
      exact List.inj_on_of_nodup_map (keys_groups_nodup distinct apart) there' there
        (inside.2.symm.trans same.symm)
  keys := keys_groups_nodup distinct apart
  order := by
    refine ⟨_, _, _, groupTimelineByStep_eq, keys_execGroup, keys_groupOf, fun g other => ?_⟩
    obtain ⟨k, member, rfl⟩ := List.mem_map.mp other
    exact (mem_otherKeys.mp member).2
  sorted g member := by
    rw [events_of_mem member]
    exact eventsOf_sorted
  ties g member x := by
    rw [events_of_mem member]
    exact eventsOf_ties

end
end AgenticPlatform
