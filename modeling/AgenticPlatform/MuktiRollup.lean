import AgenticPlatform.Mukti
import AgenticPlatform.Ranking.Leading
import Mathlib.Data.List.Dedup

/-! What the loops of the cross-execution analysis collect, in terms of the rows. -/
namespace AgenticPlatform
open Counting CrossExecutionAnalyzer Ranking

section
variable (keys : ExecutionFeedback → List String) (feedback : List ExecutionFeedback)

/-- How often a signal occurs in the rows. -/
def occurrences (k : String) : Nat := (feedback.flatMap keys).count k

/-- One of the `n` most common signals. -/
def Common (n : Nat) (k : String) : Prop := Leads (occurrences keys feedback)
    (feedback.flatMap keys) n k

instance (n : Nat) : DecidablePred (Common keys feedback n) := fun _ => inferInstanceAs
    (Decidable (Leads _ _ _ _))

/-- The workflows of the rows of a kind. -/
def workflowsWhere (workflowOf : UUID → Option String) (has : ExecutionFeedback → Bool) :
    List String :=
  ((feedback.filter has).filterMap fun fb => workflowOf fb.executionId).dedup

/-- The executions of the rows of a kind. -/
def executionsWhere (has : ExecutionFeedback → Bool) : List UUID :=
  ((feedback.filter has).map ExecutionFeedback.executionId).dedup

end

section
variable {keys : ExecutionFeedback → List String} {workflowOf : UUID → Option String}
  {feedback : List ExecutionFeedback}
  {r : Rollup} {executionId : UUID} {wf : Option String} {ks : List String} {k : String} {n : Nat}

/-- The distinct members of a list are counted in either way. -/
theorem length_distinct {α : Type} [DecidableEq α] {xs : List α} :
    (distinct xs).length = xs.dedup.length := by
  refine ((List.perm_ext_iff_of_nodup nodup_distinct (List.nodup_dedup xs)).mpr
    fun x => ?_).length_eq
  rw [mem_distinct, List.mem_dedup]

theorem note_tally :
    (ks.foldl (fun r key => r.note executionId wf key) r).tally = ks.foldl
      (fun counts key => counts.add key 1) r.tally := by
  induction ks generalizing r with
  | nil => rfl
  | cons key rest ih => exact ih

/-- Every occurrence of a signal in a row is tallied. -/
theorem rollup_tally : (rollup keys workflowOf feedback).tally = Tally.of
    (feedback.flatMap keys) := by
  suffices loop : ∀ r : Rollup, (feedback.foldl (fun r fb =>
      (keys fb).foldl (fun r key => r.note fb.executionId (workflowOf fb.executionId) key) r)
        r).tally =
      (feedback.flatMap keys).foldl (fun counts key => counts.add key 1) r.tally by exact loop _
  induction feedback with
  | nil => exact fun r => rfl
  | cons fb rest ih =>
      intro r
      rw [List.foldl_cons, ih, note_tally, List.flatMap_cons, List.foldl_append]

theorem insertNew_again {α : Type} [DecidableEq α] {x : α} {seen : List α} : insertNew x
    (insertNew x seen) = insertNew x seen := by
  have known : x ∈ insertNew x seen := mem_insertNew.mpr (.inr rfl)
  rw [insertNew, if_pos known]

/-- A row adds its workflow to the signals that it has. -/
theorem note_workflows {w : String} :
    (ks.foldl (fun r key => r.note executionId (some w) key) r).workflows k =
    if k ∈ ks then insertNew w (r.workflows k) else r.workflows k := by
  induction ks generalizing r with
  | nil => rfl
  | cons key rest ih =>
      have step : (r.note executionId (some w) key).workflows k = if k = key then insertNew w
        (r.workflows k) else r.workflows k := rfl
      rw [List.foldl_cons, ih, step]
      by_cases same : k = key
      · have known : k ∈ key :: rest := same ▸ List.mem_cons_self
        rw [if_pos same, if_pos known, insertNew_again, ite_self]
      · rw [if_neg same]
        simp only [List.mem_cons, same, false_or]

theorem note_workflows_none : (ks.foldl (fun r key => r.note executionId none key) r).workflows =
    r.workflows := by
  induction ks generalizing r with
  | nil => rfl
  | cons key rest ih => exact ih

/-- The workflows of a signal are those of the rows that have it. -/
theorem rollup_workflows : (rollup keys workflowOf feedback).workflows k =
    distinct ((feedback.filter fun fb => k ∈ keys fb).filterMap fun fb => workflowOf
      fb.executionId) := by
  induction feedback using List.reverseRecOn with
  | nil => rfl
  | append_singleton feedback fb ih =>
      rw [rollup, List.foldl_append, ← rollup, List.foldl_cons, List.foldl_nil, List.filter_append,
        List.filterMap_append]
      cases known : workflowOf fb.executionId with
      | none =>
          rw [note_workflows_none, ih]
          by_cases has : k ∈ keys fb
          · simp [has, known]
          · simp [has]
      | some w =>
          rw [note_workflows, ih]
          by_cases has : k ∈ keys fb
          · simp only [List.filter_cons, has, decide_true, if_true, List.filter_nil,
              List.filterMap_cons, known, List.filterMap_nil, distinct_concat]
          · simp [has]

theorem rollup_workflows_length : ((rollup keys workflowOf feedback).workflows k).length =
    (workflowsWhere feedback workflowOf fun fb => k ∈ keys fb).length := by
  rw [rollup_workflows, length_distinct]
  rfl

/-- What is made from the most common signals. -/
theorem mem_tallied {α : Type} {f : String × Nat → α} {x : α} :
    x ∈ ((Tally.of (feedback.flatMap keys)).mostCommon n).map f ↔
      ∃ k, Common keys feedback n k ∧ f (k, occurrences keys feedback k) = x := by
  rw [List.mem_map]
  constructor
  · rintro ⟨⟨k, m⟩, member, rfl⟩
    obtain ⟨leads, count⟩ := mem_mostCommon_of.mp member
    exact ⟨k, leads, congrArg (fun m => f (k, m)) count⟩
  · rintro ⟨k, leads, rfl⟩
    exact ⟨(k, _), mem_mostCommon_of.mpr ⟨leads, rfl⟩, rfl⟩

variable {py : Platform} {i : InsightFields}

theorem mem_topFailureTypes : i ∈ topFailureTypes py workflowOf feedback ↔
    ∃ ft, Common ExecutionFeedback.failureTypes feedback 10 ft ∧
      failureInsight py (rollup ExecutionFeedback.failureTypes workflowOf feedback)
        (ft, occurrences ExecutionFeedback.failureTypes feedback ft) = i := by
  rw [topFailureTypes, rollup_tally]
  exact mem_tallied

theorem mem_recurringPatterns : i ∈ recurringPatterns py workflowOf feedback ↔
    ∃ pt, Common patternTypes feedback 10 pt ∧ 2 ≤ occurrences patternTypes feedback pt ∧
      patternInsight py (rollup patternTypes workflowOf feedback)
        (pt, occurrences patternTypes feedback pt) = i := by
  rw [recurringPatterns, rollup_tally, List.mem_map]
  simp only [List.mem_filter, decide_eq_true_eq]
  constructor
  · rintro ⟨⟨pt, m⟩, ⟨member, twice⟩, rfl⟩
    obtain ⟨leads, rfl⟩ : Common patternTypes feedback 10 pt ∧
      occurrences patternTypes feedback pt = m :=
      mem_mostCommon_of.mp member
    exact ⟨pt, leads, twice, rfl⟩
  · rintro ⟨pt, leads, twice, rfl⟩
    exact ⟨(pt, _), ⟨mem_mostCommon_of.mpr ⟨leads, rfl⟩, twice⟩, rfl⟩

theorem mem_policyFriction : i ∈ policyFriction py workflowOf feedback ↔
    ∃ key, Common policySignals feedback 8 key ∧
      frictionInsight py (rollup policySignals workflowOf feedback)
        (key, occurrences policySignals feedback key) = i := by
  rw [policyFriction, rollup_tally]
  exact mem_tallied

end

section
variable (workflowOf : UUID → Option String)

def hasFallback (fb : ExecutionFeedback) : Bool := fb.patternsDetected.any isFallbackPattern

/-- The workflow that a row with a fallback counts for. -/
def fallbackWorkflows (fb : ExecutionFeedback) : List String :=
  if hasFallback fb then (workflowOf fb.executionId).toList else []

variable {workflowOf} {feedback : List ExecutionFeedback} {py : Platform} {i : InsightFields}

theorem fallbackRollup_concat {fb : ExecutionFeedback} :
    fallbackRollup workflowOf (feedback ++ [fb]) = (fallbackRollup workflowOf feedback).note
      workflowOf fb := List.foldl_append

theorem note_execs {r : FallbackRollup} {fb : ExecutionFeedback} :
    (r.note workflowOf fb).execs = if hasFallback fb then insertNew fb.executionId r.execs
      else r.execs :=
  apply_ite FallbackRollup.execs _ _ r

theorem fallbackRollup_wfCounts :
    (fallbackRollup workflowOf feedback).wfCounts = Tally.of
      (feedback.flatMap (fallbackWorkflows workflowOf)) := by
  induction feedback using List.reverseRecOn with
  | nil => rfl
  | append_singleton feedback fb ih =>
      rw [fallbackRollup_concat, List.flatMap_append, List.flatMap_singleton, FallbackRollup.note,
        fallbackWorkflows, hasFallback]
      split
      · cases known : workflowOf fb.executionId with
        | none => simp [ih]
        | some wf => rw [Option.toList_some, Tally.of_concat, ← ih]
      · rw [List.append_nil, ih]

theorem fallbackRollup_execs : (fallbackRollup workflowOf feedback).execs.length =
    (executionsWhere feedback hasFallback).length := by
  suffices listed : (fallbackRollup workflowOf feedback).execs =
      distinct ((feedback.filter hasFallback).map ExecutionFeedback.executionId) by
    rw [listed, length_distinct]
    rfl
  induction feedback using List.reverseRecOn with
  | nil => rfl
  | append_singleton feedback fb ih =>
      rw [fallbackRollup_concat, List.filter_append, List.map_append, note_execs]
      by_cases has : hasFallback fb = true
      · rw [if_pos has, List.filter_cons_of_pos has, List.filter_nil, List.map_singleton,
          distinct_concat, ih]
      · rw [if_neg has, List.filter_cons_of_neg has, List.filter_nil, List.map_nil,
          List.append_nil, ih]

theorem mem_modelFallbackConcentration : i ∈ modelFallbackConcentration py workflowOf feedback ↔
    (∃ wf, Common (fallbackWorkflows workflowOf) feedback 8 wf ∧ fallbackInsight py workflowOf
      (fallbackRollup workflowOf feedback) (wf, occurrences (fallbackWorkflows workflowOf)
        feedback wf) = i) ∨
    (2 ≤ (executionsWhere feedback hasFallback).length ∧
      feedback.flatMap (fallbackWorkflows workflowOf) = []) ∧
      globalFallback py (fallbackRollup workflowOf feedback) = i := by
  have none : Tally.of (feedback.flatMap (fallbackWorkflows workflowOf)) = [] ↔
    feedback.flatMap (fallbackWorkflows workflowOf) = [] := by
    rw [← List.map_eq_nil_iff (f := Prod.fst), List.eq_nil_iff_forall_not_mem,
      List.eq_nil_iff_forall_not_mem]
    exact forall_congr' fun k => not_congr Tally.mem_keys_of
  rw [modelFallbackConcentration, List.mem_append, List.mem_ite_nil_right, List.mem_singleton,
    fallbackRollup_wfCounts, mem_tallied, fallbackRollup_execs, none]
  exact or_congr_right (and_congr_right fun _ => eq_comm)

end

section
variable {κ : Type} (names : ExecutionFeedback → List κ) (feedback : List ExecutionFeedback)

/-- What the rows name, each time with the execution. -/
def naming : List (κ × UUID) :=
  feedback.flatMap fun fb => (names fb).map fun k => (k, fb.executionId)

/-- The executions whose rows have the name. -/
def executionsNaming [DecidableEq κ] (k : κ) : List UUID :=
  executionsWhere feedback fun fb => k ∈ names fb

variable {names feedback} {k : κ}

theorem naming_names : (naming names feedback).map Prod.fst = feedback.flatMap names := by
  simp [naming, List.map_flatMap, Function.comp_def]

/-- The executions of a name are those of the rows that have it. -/
theorem naming_executions [DecidableEq κ] :
    (distinct (((naming names feedback).filter fun e => e.1 = k).map Prod.snd)).length =
    (executionsNaming names feedback k).length := by
  refine ((List.perm_ext_iff_of_nodup nodup_distinct (List.nodup_dedup _)).mpr
    fun id => ?_).length_eq
  rw [mem_distinct, List.mem_dedup]
  simp only [naming, List.mem_map, List.mem_filter, List.mem_flatMap, decide_eq_true_eq]
  constructor
  · rintro ⟨_, ⟨⟨fb, member, _, named, rfl⟩, rfl⟩, rfl⟩
    exact ⟨fb, ⟨member, named⟩, rfl⟩
  · rintro ⟨fb, ⟨member, named⟩, rfl⟩
    exact ⟨_, ⟨⟨fb, member, k, named, rfl⟩, rfl⟩, rfl⟩

theorem executionsNaming_pos [DecidableEq κ] (named : k ∈ feedback.flatMap names) :
    1 ≤ (executionsNaming names feedback k).length := by
  obtain ⟨fb, member, has⟩ := List.mem_flatMap.mp named
  refine List.length_pos_of_mem (List.mem_dedup.mpr (List.mem_map_of_mem (a := fb) ?_))
  exact List.mem_filter.mpr ⟨member, decide_eq_true has⟩

/-- `groups[k].append(x)` for all entries. -/
theorem foldl_append_singleton {α : Type} {xs ys : List α} : xs.foldl
    (fun all x => all ++ [x]) ys = ys ++ xs := by
  induction xs generalizing ys with
  | nil => exact (List.append_nil ys).symm
  | cons x rest ih => rw [List.foldl_cons, ih, List.append_assoc, List.singleton_append]

end

section
variable (workflowOf : UUID → Option String) (feedback : List ExecutionFeedback)

def rowsOfWorkflow (wf : String) : List ExecutionFeedback :=
  feedback.filter fun fb => workflowOf fb.executionId = some wf

/-- The steps that the patterns of a row name. -/
def stepNames (fb : ExecutionFeedback) : List String := fb.patternsDetected.filterMap stepOf

/-- The number of the executions with a pattern that names the step. -/
def stepRuns (sid : String) : Nat := (executionsNaming stepNames feedback sid).length

variable {workflowOf feedback} {py : Platform} {statusOf : UUID → Option ExecutionStatus}
  {i : InsightFields}

theorem wfFeedback_eq : wfFeedback workflowOf feedback = Grouped.gather []
    (fun rows fb => rows ++ [fb])
    (feedback.filterMap fun fb => (workflowOf fb.executionId).map fun wf => (wf, fb)) := by
  rw [wfFeedback, Grouped.gather, List.foldl_filterMap]
  congr 1
  funext groups fb
  cases workflowOf fb.executionId with
  | none => rfl
  | some wf => rfl

theorem rowsOfWorkflow_eq {wf : String} :
    ((feedback.filterMap fun fb => (workflowOf fb.executionId).map fun wf => (wf, fb)).filter
    fun e => e.1 = wf).map Prod.snd = rowsOfWorkflow workflowOf feedback wf := by
  rw [rowsOfWorkflow, List.filter_filterMap, List.map_filterMap, ← List.filterMap_eq_filter]
  congr 1
  funext fb
  cases known : workflowOf fb.executionId with
  | none => simp [Option.guard, known]
  | some wf' =>
      by_cases same : wf' = wf
      · simp [Option.guard, known, same]
      · simp [Option.guard, known, same]

/-- The entries: the workflows that rows have, each with its rows. -/
theorem mem_wfFeedback {wf : String} {rows : List ExecutionFeedback} :
    (wf, rows) ∈ wfFeedback workflowOf feedback ↔
    (∃ fb ∈ feedback, workflowOf fb.executionId = some wf) ∧ rows = rowsOfWorkflow workflowOf
      feedback wf := by
  rw [wfFeedback_eq, Grouped.mem_gather, foldl_append_singleton, List.nil_append, rowsOfWorkflow_eq]
  refine and_congr_left fun _ => ?_
  simp only [List.mem_map, List.mem_filterMap, Option.map_eq_some_iff]
  constructor
  · rintro ⟨_, ⟨fb, member, wf', known, rfl⟩, rfl⟩
    exact ⟨fb, member, known⟩
  · rintro ⟨fb, member, known⟩
    exact ⟨_, ⟨fb, member, wf, known, rfl⟩, rfl⟩

/-- The workflow has enough rows of which at least half failed. -/
def Unstable (py : Platform) (workflowOf : UUID → Option String)
    (statusOf : UUID → Option ExecutionStatus) (feedback : List ExecutionFeedback)
    (wf : String) : Prop :=
  isUnstable py statusOf (wf, rowsOfWorkflow workflowOf feedback wf) = true

instance : DecidablePred (Unstable py workflowOf statusOf feedback) := fun _ => inferInstanceAs
    (Decidable (_ = true))

theorem mem_unstableWorkflows : i ∈ unstableWorkflows py workflowOf feedback statusOf ↔
    ∃ wf, Unstable py workflowOf statusOf feedback wf ∧
      workflowInsight py statusOf (wf, rowsOfWorkflow workflowOf feedback wf) = i := by
  rw [unstableWorkflows, List.mem_map]
  simp only [List.mem_filter]
  constructor
  · rintro ⟨⟨wf, rows⟩, ⟨member, holds⟩, rfl⟩
    obtain ⟨_, rfl⟩ := mem_wfFeedback.mp member
    exact ⟨wf, holds, rfl⟩
  · rintro ⟨wf, holds, rfl⟩
    have some : ∃ fb ∈ feedback, workflowOf fb.executionId = some wf := by
      have rows : 2 ≤ (rowsOfWorkflow workflowOf feedback wf).length := (of_decide_eq_true holds).1
      obtain ⟨fb, member⟩ := List.exists_mem_of_length_pos
        (by omega : 0 < (rowsOfWorkflow workflowOf feedback wf).length)
      exact ⟨fb, List.mem_of_mem_filter member, of_decide_eq_true (List.mem_filter.mp member).2⟩
    exact ⟨_, ⟨mem_wfFeedback.mpr ⟨some, rfl⟩, holds⟩, rfl⟩

theorem stepExecs_eq : stepExecs feedback = Grouped.gather [] (fun ids id => insertNew id ids)
    (naming stepNames feedback) := by
  rw [stepExecs, Grouped.gather, naming, List.foldl_flatMap]
  simp only [List.foldl_map]
  rfl

theorem mem_stepExecs {sid : String} {ids : List UUID} : (sid, ids) ∈ stepExecs feedback ↔
    sid ∈ feedback.flatMap stepNames ∧
    ids = distinct (((naming stepNames feedback).filter fun e => e.1 = sid).map Prod.snd) := by
  rw [stepExecs_eq, Grouped.mem_gather, naming_names]
  rfl

theorem stepExecs_length {entry : String × List UUID} (member : entry ∈ stepExecs feedback) :
    entry.2.length = stepRuns feedback entry.1 := by
  obtain ⟨_, ids⟩ := mem_stepExecs.mp member
  rw [ids]
  exact naming_executions

/-- The steps that are looked at first. -/
theorem mem_take_steps {entry : String × List UUID} {n : Nat} :
    entry ∈ (sortOn (fun entry : String × List UUID => OrderDual.toDual entry.2.length)
      (stepExecs feedback)).take n ↔
      entry ∈ stepExecs feedback ∧ Leads (stepRuns feedback) (feedback.flatMap stepNames)
        n entry.1 := by
  have names : (stepExecs feedback).map Prod.fst = distinct (feedback.flatMap stepNames) := by
    rw [stepExecs_eq, ← naming_names]
    exact Grouped.keys_gather
  exact mem_take_named names fun entry member => congrArg OrderDual.toDual (stepExecs_length member)

end
end AgenticPlatform
