import AgenticPlatform.TimelineGroups
import Mathlib.Algebra.Order.Floor.Defs
import Mathlib.Data.List.Infix
import Mathlib.Data.Rat.Floor
import Mathlib.Data.String.Basic

/-! The trace as the console shows it: the groups of the timeline, each in sections by the kind of
its events. -/
namespace AgenticPlatform
open Counting Ranking

inductive TraceEventBucket where
  | execution
  | model
  | tool
  | policy
  | error
  deriving DecidableEq

def traceEventBucketOrder : List TraceEventBucket := [.execution, .model, .tool, .policy, .error]

theorem nodup_traceEventBucketOrder : traceEventBucketOrder.Nodup := by decide

theorem mem_traceEventBucketOrder (bucket : TraceEventBucket) : bucket ∈ traceEventBucketOrder := by
  cases bucket <;> decide

/-- `BUCKET_LABELS`. -/
def TraceEventBucket.label : TraceEventBucket → String
  | execution => "Execution & steps"
  | model => "Model runtime"
  | tool => "Tools & retrieval"
  | policy => "Policy & approval"
  | error => "Errors & failures"

structure TraceEventSection where
  bucket : TraceEventBucket
  label : String
  events : List TimelineEvent

abbrev TraceBucketCounts := TraceEventBucket → Nat

structure TraceStepGroupView where
  key : String
  label : String
  isExecutionLevel : Bool
  stepId : Option String
  stepStatus : Option String
  stepType : Option String
  durationMs : Option Int
  counts : TraceBucketCounts
  sections : List TraceEventSection

structure TraceTimelineViewModel where
  groups : List TraceStepGroupView
  eventCount : Nat

structure TraceView where
  steps : List TraceStepRow
  timeline : List TimelineEvent

section
variable (browser : Browser)

/-- `s.includes(part)`. -/
def includes (s part : String) : Bool := part.toList <:+: s.toList

/-- An event that says of itself that something failed or was denied. -/
def isErrorLikeTimelineEvent (ev : TimelineEvent) : Bool :=
  let lower (field : String) := (browser.stringOrBlank (ev.get field)).toLower
  let t := lower "event_type"
  let status := lower "status"
  let path := lower "path"
  let outcome := lower "outcome"
  let validation := lower "validation_status"
  includes t "fail" || includes t "error" || status = "failed" || status = "error" || path =
    "policy_denied" ||
    includes path "denied" || outcome = "failed" || outcome = "denied" || validation = "failed" ||
    ev.get "error_class" ≠ .null || ev.get "error_message" ≠ .null

def classifyTraceEventBucket (ev : TimelineEvent) : TraceEventBucket :=
  if isErrorLikeTimelineEvent browser ev then .error
  else
    match browser.stringOrBlank (ev.get "event_type") with
    | "model_reasoning" => .model
    | "tool_call_completed" | "knowledge_retrieved" => .tool
    | "policy_evaluated" | "approval_required" | "approval_received" => .policy
    | _ => .execution

def emptyTraceBucketCounts : TraceBucketCounts := fun _ => 0

def countBuckets (events : List TimelineEvent) : TraceBucketCounts :=
  events.foldl (fun counts ev =>
    let bucket := classifyTraceEventBucket browser ev
    Function.update counts bucket (counts bucket + 1)) emptyTraceBucketCounts

def sectionizeStepEvents (events : List TimelineEvent) : List TraceEventSection :=
  let sorted := sortEventsByAt browser events
  let byBucket := buckets (classifyTraceEventBucket browser) sorted
  traceEventBucketOrder.filterMap fun bucket =>
    match (byBucket.get? bucket).getD [] with
    | [] => none
    | evs => some ⟨bucket, bucket.label, evs⟩

def stepRowById (steps : List TraceStepRow) (stepId : String) : Option TraceStepRow :=
  steps.find? fun r => browser.stringOrBlank (r.stepField "step_id") = stepId

/-- `Math.round`, which rounds halves up. -/
def roundHalfUp (q : Rat) : Int := ⌊q + 1 / 2⌋

/-- `String(v)` of a field that is there. -/
def stringIfThere (v : Json) : Option String := if v = .null then none else some (browser.string v)

/-- The latency in the result of a step, where it is a number. -/
def stepDurationMs (row : TraceStepRow) : Option Int :=
  match (row.stepResult.getD []).get "latency_ms" with
  | .int n => some n
  | .float q => some (roundHalfUp q)
  | _ => none

def enrichGroup (steps : List TraceStepRow) (g : TimelineGroup) : TraceStepGroupView :=
  let isExecutionLevel := decide (g.key = execKey)
  let stepId := if isExecutionLevel then none else some g.key
  let row := stepId.bind fun id => if id = "" then none else stepRowById browser steps id
  { key := g.key
    label := g.label
    isExecutionLevel := isExecutionLevel
    stepId := stepId
    stepStatus := row.bind fun r => stringIfThere browser (r.stepField "status")
    stepType := row.bind fun r => stringIfThere browser (r.stepField "step_type")
    durationMs := row.bind stepDurationMs
    counts := countBuckets browser g.events
    sections := sectionizeStepEvents browser g.events }

def buildTraceTimelineView : Option TraceView → TraceTimelineViewModel
  | none => ⟨[], 0⟩
  | some trace =>
      if trace.timeline.isEmpty then ⟨[], 0⟩
      else
        let rawGroups := groupTimelineByStep browser trace.timeline
          (stepIdsInOrder browser trace.steps)
        ⟨rawGroups.map (enrichGroup browser trace.steps), trace.timeline.length⟩

end

/-- The view of a group has its events in its sections, each in the section of its kind. -/
structure ShowsGroup (browser : Browser) (g : TimelineGroup) (v : TraceStepGroupView) : Prop where
  key : v.key = g.key
  label : v.label = g.label
  sections : (v.sections.flatMap TraceEventSection.events).Perm g.events
  kinds : ∀ s ∈ v.sections, s.events = bucketOf (classifyTraceEventBucket browser) s.bucket g.events
  counts : ∀ b, v.counts b = (bucketOf (classifyTraceEventBucket browser) b g.events).length

/-- The view shows all groups, and counts each event once. -/
structure Shows (browser : Browser) (groups : List TimelineGroup) (timeline : List TimelineEvent)
    (view : TraceTimelineViewModel) :
    Prop where
  groups : List.Forall₂ (ShowsGroup browser) groups view.groups
  eventCount : view.eventCount = timeline.length
  counts : (view.groups.map fun v => (traceEventBucketOrder.map v.counts).sum).sum = view.eventCount

section
variable {browser : Browser} {events timeline : List TimelineEvent} {steps : List TraceStepRow}
  {g : TimelineGroup}

theorem countBuckets_concat {ev : TimelineEvent} : countBuckets browser (events ++ [ev]) =
    Function.update (countBuckets browser events) (classifyTraceEventBucket browser ev)
      (countBuckets browser events (classifyTraceEventBucket browser ev) + 1) := List.foldl_append

theorem countBuckets_apply {b : TraceEventBucket} :
    countBuckets browser events b = (bucketOf (classifyTraceEventBucket browser) b
      events).length := by
  induction events using List.reverseRecOn with
  | nil => rfl
  | append_singleton events ev ih =>
      rw [countBuckets_concat, bucketOf, List.filter_append, List.length_append]
      by_cases same : classifyTraceEventBucket browser ev = b
      · subst same
        rw [Function.update_self, ih]
        simp [bucketOf]
      · rw [Function.update_of_ne (Ne.symm same), ih]
        simp [bucketOf, same]

/-- The counts of all kinds add up. -/
theorem sum_countBuckets : (traceEventBucketOrder.map (countBuckets browser events)).sum =
    events.length := by
  have counts : traceEventBucketOrder.map (countBuckets browser events) =
      traceEventBucketOrder.map fun b => (bucketOf (classifyTraceEventBucket browser) b
        events).length :=
    List.map_congr_left fun b _ => countBuckets_apply
  rw [counts]
  exact sum_length_bucketOf nodup_traceEventBucketOrder fun ev _ => mem_traceEventBucketOrder _

/-- The section of a kind, where it has events. -/
theorem sectionizeStepEvents_eq (sorted : events.Pairwise (AtLe browser)) :
    sectionizeStepEvents browser events =
    (traceEventBucketOrder.filter fun b => bucketOf (classifyTraceEventBucket browser) b events ≠
      []).map fun b =>
      ⟨b, b.label, bucketOf (classifyTraceEventBucket browser) b events⟩ := by
  rw [sectionizeStepEvents, sortEventsByAt_of_sorted sorted, ← List.filterMap_eq_map,
    List.filterMap_filter]
  refine List.filterMap_congr fun b _ => ?_
  rw [get_buckets]
  cases found : bucketOf (classifyTraceEventBucket browser) b events with
  | nil => rfl
  | cons ev more =>
      have some : decide (ev :: more ≠ []) = true := rfl
      rw [if_pos some, Function.comp_apply, found]

theorem sections_events (sorted : events.Pairwise (AtLe browser)) :
    ((sectionizeStepEvents browser events).flatMap TraceEventSection.events).Perm events := by
  have kept : (sectionizeStepEvents browser events).flatMap TraceEventSection.events =
      traceEventBucketOrder.flatMap fun b => bucketOf (classifyTraceEventBucket browser)
        b events := by
    rw [sectionizeStepEvents_eq sorted, List.flatMap_map]
    induction traceEventBucketOrder with
    | nil => rfl
    | cons b rest ih =>
        by_cases some : bucketOf (classifyTraceEventBucket browser) b events = []
        · rw [List.filter_cons_of_neg (by simpa using some), ih, List.flatMap_cons, some,
            List.nil_append]
        · rw [List.filter_cons_of_pos (by simpa using some), List.flatMap_cons, ih,
            List.flatMap_cons]
  rw [kept]
  exact flatMap_bucketOf_perm nodup_traceEventBucketOrder fun ev _ => mem_traceEventBucketOrder _

theorem enrichGroup_shows (sorted : g.events.Pairwise (AtLe browser)) : ShowsGroup browser g
    (enrichGroup browser steps g) where
  key := rfl
  label := rfl
  sections := sections_events sorted
  kinds s member := by
    have known : s ∈ sectionizeStepEvents browser g.events := member
    rw [sectionizeStepEvents_eq sorted] at known
    obtain ⟨b, _, rfl⟩ := List.mem_map.mp known
    rfl
  counts b := countBuckets_apply

/-- The view of a grouping that loses nothing shows all of it. -/
theorem buildTraceTimelineView_shows {trace : TraceView}
    (lossless : Lossless browser trace.timeline (stepIdsInOrder browser trace.steps)
      (groupTimelineByStep browser trace.timeline (stepIdsInOrder browser trace.steps))) :
    Shows browser (groupTimelineByStep browser trace.timeline (stepIdsInOrder browser trace.steps))
      trace.timeline
      (buildTraceTimelineView browser (some trace)) := by
  have view : buildTraceTimelineView browser (some trace) =
      ⟨(groupTimelineByStep browser trace.timeline (stepIdsInOrder browser trace.steps)).map
        (enrichGroup browser trace.steps), trace.timeline.length⟩ := by
    rw [buildTraceTimelineView]
    split
    · next empty =>
        rw [List.isEmpty_iff.mp empty, groupTimelineByStep_nil]
        rfl
    · rfl
  rw [view]
  refine ⟨?_, rfl, ?_⟩
  · exact List.forall₂_map_right_iff.mpr (List.forall₂_same.mpr fun g member => enrichGroup_shows
      (lossless.sorted g member))
  · rw [List.map_map]
    have sizes :
      (groupTimelineByStep browser trace.timeline (stepIdsInOrder browser trace.steps)).map
        ((fun v => (traceEventBucketOrder.map v.counts).sum) ∘ enrichGroup browser trace.steps) =
        (groupTimelineByStep browser trace.timeline (stepIdsInOrder browser trace.steps)).map
          fun g => g.events.length :=
      List.map_congr_left fun g _ => sum_countBuckets
    rw [sizes, ← List.length_flatMap]
    exact lossless.all.length_eq

/-- The grouping loses no event, and the view shows all of it. -/
theorem grouped_trace_lossless (browser : Browser) (timeline : List TimelineEvent)
    (stepOrder : List String) (distinct : stepOrder.Nodup) (apart : execKey ∉ stepOrder) :
    Lossless browser timeline stepOrder (groupTimelineByStep browser timeline stepOrder) ∧
      ∀ trace : TraceView, trace.timeline = timeline →
        stepIdsInOrder browser trace.steps = stepOrder →
        Shows browser (groupTimelineByStep browser timeline stepOrder) timeline
          (buildTraceTimelineView browser (some trace)) := by
  have lossless := @groupTimelineByStep_lossless browser timeline stepOrder distinct apart
  refine ⟨lossless, ?_⟩
  rintro trace rfl rfl
  exact buildTraceTimelineView_shows lossless

/-- A browser that compares strings by their characters. -/
def plainBrowser : Browser where
  text _ := ""
  le a b := a ≤ b
  decLe := inferInstance
  total := ⟨le_total⟩
  trans := ⟨fun _ _ _ => le_trans⟩

theorem grouped_trace_lossless_two_steps :
    let timeline : List TimelineEvent :=
  [[("at", .str "2"), ("step_id", .str "s1")], [("at", .str "1")],
  [("at", .str "1"), ("step_id", .str "s2")]]
    Lossless plainBrowser timeline ["s1"] (groupTimelineByStep plainBrowser timeline ["s1"]) ∧
      ∀ trace : TraceView, trace.timeline = timeline → stepIdsInOrder plainBrowser
        trace.steps = ["s1"] →
        Shows plainBrowser (groupTimelineByStep plainBrowser timeline ["s1"]) timeline
          (buildTraceTimelineView plainBrowser (some trace)) :=
  grouped_trace_lossless plainBrowser _ ["s1"] (by decide) (by decide)

end
end AgenticPlatform
