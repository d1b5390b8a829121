import AgenticPlatform.MuktiRollup
import Mathlib.Data.List.Dedup

/-! What the evidence counts of the insights count: the feedback rows that have a signal, as long as
no row has it twice. -/
namespace AgenticPlatform
open Counting MuktiAnalyzer CrossExecutionAnalyzer

/-- The failure types that tell of the policy. -/
def policyFailures : List String :=
  ["policy_evaluation_deny", "trace_policy_denied", "action_proposal_policy_denied"]

/-- All failure types. -/
def failureNames : List String := ["terminal_failed", "terminal_cancelled", "step_failure"] ++
    policyFailures

def patternNames : List String :=
  ["model_deterministic_fallback", "operator_disputed_outcome", "clean_success_path"]

def summaryTexts : List String := [deniedSummary, proposalSummary]

/-- What a denial and a denied proposal are tallied under. -/
def suggestionKeys : List String := summaryTexts.map fun s => "suggestion:" ++ s

/-- What may be tallied as a signal of the policy. -/
def signalNames : List String := policyFailures ++ suggestionKeys

theorem slice_whole {s : String} {n : Nat} (short : s.length ≤ n) : slice s 0 n = s := by
  rw [slice, List.drop_zero, Nat.sub_zero, List.take_of_length_le (by rwa [String.length_toList]),
    String.ofList_toList]

theorem signalTitle_suggestion (s : String) : signalTitle ("suggestion:" ++ s) = s := by
  have start : ("suggestion:" ++ s).toList = "suggestion:".toList ++ s.toList :=
    String.toList_append
  rw [signalTitle, start, if_pos (List.prefix_append _ _), ← String.length_toList, List.drop_left,
    String.ofList_toList]

theorem summary_short : ∀ s ∈ summaryTexts, s.length ≤ 80 := by decide +kernel

theorem failure_title : ∀ ft ∈ policyFailures, slice (signalTitle ft) 0 256 = ft := by
  decide +kernel

theorem summary_apart : ∀ s ∈ summaryTexts, s ∉ failureNames ∧
    "suggestion:" ++ s ∉ failureNames := by decide

theorem policyFailures_eq : failureNames.filter isPolicyFailure = policyFailures := by
  decide +kernel

theorem isPolicyFailure_iff {ft : String} (known : ft ∈ failureNames) : isPolicyFailure ft = true ↔
    ft ∈ policyFailures := by
  rw [← policyFailures_eq, List.mem_filter]
  exact (and_iff_right known).symm

section
variable {inp : MuktiAnalysisInput} {feedbackId : UUID} {now : Time}

theorem found_known {ft : String} (member : ft ∈ foundFailures inp) : ft ∈ failureNames := by
  simp only [foundFailures, List.mem_append, List.mem_ite_nil_right, List.mem_singleton,
    List.mem_map] at member
  rcases member with ((((⟨_, rfl⟩ | ⟨_, rfl⟩) | ⟨_, rfl⟩) | ⟨_, _, rfl⟩) | ⟨_, _, rfl⟩) |
    ⟨_, _, rfl⟩
  all_goals simp [failureNames, policyFailures]

theorem failure_known {ft : String}
    (member : ft ∈ (MuktiAnalyzer.analyze inp feedbackId now).failureTypes) :
    ft ∈ failureNames := found_known (mem_distinct.mp member)

theorem map_const_filter {α : Type} {p : α → Bool} {xs : List α} {s : String} :
    (xs.filter p).map (fun _ => s) = List.replicate (xs.countP p) s := by
  rw [List.map_const', List.countP_eq_length_filter]

theorem patternTypes_analyze : patternTypes (MuktiAnalyzer.analyze inp feedbackId now) =
    List.replicate (inp.execution.traceTimeline.countP isFallbackRow)
      "model_deterministic_fallback" ++
    List.replicate (inp.operatorFeedback.countP isDisputed) "operator_disputed_outcome" ++
    (if inp.execution.status = .completed ∧ foundFailures inp = [] then ["clean_success_path"]
      else []) := by
  simp only [patternTypes, MuktiAnalyzer.analyze, patterns, List.map_append, List.map_map,
    Function.comp_def, map_const_filter]
  split
  · rfl
  · rfl

theorem pattern_known {pt : String}
    (member : pt ∈ patternTypes (MuktiAnalyzer.analyze inp feedbackId now)) :
    pt ∈ patternNames := by
  simp only [patternTypes_analyze, List.mem_append, List.mem_replicate, List.mem_ite_nil_right,
    List.mem_singleton] at member
  rcases member with (⟨_, rfl⟩ | ⟨_, rfl⟩) | ⟨_, rfl⟩
  all_goals simp [patternNames]

/-- Two signals that are repeated, and something else after them. -/
theorem nodup_repeated_iff {s t : String} {m n : Nat} {others : List String} (apart : s ≠ t)
    (distinct : others.Nodup) (noS : s ∉ others) (noT : t ∉ others) :
    (List.replicate m s ++ List.replicate n t ++ others).Nodup ↔ m ≤ 1 ∧ n ≤ 1 := by
  have ofRepeated {k : Nat} {x y : String} (member : x ∈ List.replicate k y) : x = y :=
    (List.mem_replicate.mp member).2
  rw [List.nodup_append', List.nodup_append', List.nodup_replicate, List.nodup_replicate]
  refine ⟨fun ⟨⟨once, twice, _⟩, _⟩ => ⟨once, twice⟩, fun ⟨once, twice⟩ =>
    ⟨⟨once, twice, ?_⟩, distinct, ?_⟩⟩
  · intro x first second
    exact apart ((ofRepeated first).symm.trans (ofRepeated second))
  · intro x first other
    rcases List.mem_append.mp first with first | first
    · exact noS (ofRepeated first ▸ other)
    · exact noT (ofRepeated first ▸ other)

/-- The patterns of a row are distinct exactly when two of its sources are not repeated. -/
theorem patternTypes_nodup_iff : (patternTypes (MuktiAnalyzer.analyze inp feedbackId now)).Nodup ↔
    inp.execution.traceTimeline.countP isFallbackRow ≤ 1 ∧ inp.operatorFeedback.countP
      isDisputed ≤ 1 := by
  rw [patternTypes_analyze]
  by_cases clean : inp.execution.status = .completed ∧ foundFailures inp = []
  · rw [if_pos clean]
    exact nodup_repeated_iff (by decide) (List.nodup_singleton _) (by decide) (by decide)
  · rw [if_neg clean]
    exact nodup_repeated_iff (by decide) List.nodup_nil List.not_mem_nil List.not_mem_nil

theorem suggestion_known {sug : ImprovementSuggestion}
    (member : sug ∈ (MuktiAnalyzer.analyze inp feedbackId now).improvementSuggestions) :
    sug.category = "policy_rule" ∧ sug.summary ∈ summaryTexts := by
  rcases List.mem_append.mp member with member | member
  all_goals
    obtain ⟨_, _, rfl⟩ := List.mem_map.mp member
    simp [summaryTexts]

theorem suggestionKey_eq {sug : ImprovementSuggestion} (known : sug.summary ∈ summaryTexts) :
    suggestionKey sug = "suggestion:" ++ sug.summary := by
  rw [suggestionKey, slice_whole (summary_short _ known)]

theorem policySignals_analyze : policySignals (MuktiAnalyzer.analyze inp feedbackId now) =
    (distinct (foundFailures inp)).filter isPolicyFailure ++
    (List.replicate (inp.policyEvaluations.countP isDenied) ("suggestion:" ++ deniedSummary) ++
    List.replicate (inp.actionProposals.countP isPolicyDenied)
    ("suggestion:" ++ proposalSummary)) := by
  have whole : slice deniedSummary 0 80 = deniedSummary ∧ slice proposalSummary 0 80 =
    proposalSummary :=
    ⟨slice_whole (summary_short _ (by simp [summaryTexts])), slice_whole
      (summary_short _ (by simp [summaryTexts]))⟩
  simp only [policySignals, MuktiAnalyzer.analyze, suggestions, List.filter_append, List.filter_map,
    List.map_append, List.map_map, Function.comp_def, decide_true, List.filter_true, suggestionKey,
      whole, map_const_filter]

/-- Of the signals of the policy only those of the suggestions are repeated. -/
theorem policySignals_nodup_iff : (policySignals (MuktiAnalyzer.analyze inp feedbackId now)).Nodup ↔
    inp.policyEvaluations.countP isDenied ≤ 1 ∧ inp.actionProposals.countP isPolicyDenied ≤ 1 := by
  have noSignal {s : String} (known : s ∈ summaryTexts) :
      "suggestion:" ++ s ∉ (distinct (foundFailures inp)).filter isPolicyFailure :=
    fun member => (summary_apart s known).2
      (found_known (mem_distinct.mp (List.mem_of_mem_filter member)))
  rw [policySignals_analyze, List.perm_append_comm.nodup_iff]
  exact nodup_repeated_iff (by decide) (nodup_distinct.filter _) (noSignal (by simp [summaryTexts]))
    (noSignal (by simp [summaryTexts]))

theorem mem_policySignals {fb : ExecutionFeedback} {key : String} : key ∈ policySignals fb ↔
    (key ∈ fb.failureTypes ∧ isPolicyFailure key) ∨
      ∃ sug ∈ fb.improvementSuggestions, sug.category = "policy_rule" ∧
        suggestionKey sug = key := by
  simp only [policySignals, List.mem_append, List.mem_filter, List.mem_map,
    decide_eq_true_eq, and_assoc]

theorem signal_known {key : String}
    (member : key ∈ policySignals (MuktiAnalyzer.analyze inp feedbackId now)) :
    key ∈ signalNames := by
  rcases mem_policySignals.mp member with ⟨failure, policy⟩ | ⟨sug, suggested, _, rfl⟩
  · exact List.mem_append_left _ ((isPolicyFailure_iff (failure_known failure)).mp policy)
  · obtain ⟨_, known⟩ := suggestion_known suggested
    rw [suggestionKey_eq known]
    exact List.mem_append_right _ (List.mem_map_of_mem known)

end

/-- The row has the failure type, the pattern or the suggestion of the insight. -/
def InsightFields.inRow (insight : InsightFields) (fb : ExecutionFeedback) : Bool :=
  match insight.category with
  | .topFailureType => insight.title ∈ fb.failureTypes
  | .recurringPattern => fb.patternsDetected.any fun pat => pat.patternType = insight.title
  | .policyFriction => insight.title ∈ fb.failureTypes ∨ ∃ sug ∈ fb.improvementSuggestions,
    sug.summary = insight.title
  | _ => false

/-- The number of the distinct rows that have it. -/
def InsightFields.rows (insight : InsightFields) (feedback : List ExecutionFeedback) : Nat :=
  ((feedback.filter insight.inRow).map ExecutionFeedback.feedbackId).dedup.length

theorem rows_eq_countP {insight : InsightFields} {feedback : List ExecutionFeedback}
    (fresh : (feedback.map ExecutionFeedback.feedbackId).Nodup) :
    insight.rows feedback = feedback.countP insight.inRow := by
  rw [InsightFields.rows, ((List.filter_sublist.map _).nodup fresh).dedup, List.length_map,
    List.countP_eq_length_filter]

/-- Every evidence count is a number of rows, and what recurs is in two of them. -/
structure CountsRows (summary : MuktiInsightsSummary) (feedback : List ExecutionFeedback) :
    Prop where
  counted :
    ∀ insight ∈ summary.topFailureTypes ++ summary.recurringPatterns ++ summary.policyFrictionAreas,
    insight.val.evidenceCount = insight.val.rows feedback
  recurring : ∀ insight ∈ summary.recurringPatterns, 2 ≤ insight.val.rows feedback

/-- No signal of the execution comes from two of its artifacts. -/
structure SingleSignals (inp : MuktiAnalysisInput) : Prop where
  fallback : inp.execution.traceTimeline.countP isFallbackRow ≤ 1
  disputed : inp.operatorFeedback.countP isDisputed ≤ 1
  denied : inp.policyEvaluations.countP isDenied ≤ 1
  deniedProposal : inp.actionProposals.countP isPolicyDenied ≤ 1

/-- The insights that are made from the tally of the signals `keys` are counted by rows. -/
theorem tallied_rows_iff (keys : ExecutionFeedback → List String)
    (insight : String × Nat → InsightFields) (known : List String) (least limit : Nat)
    {feedback : List ExecutionFeedback} (fresh : (feedback.map ExecutionFeedback.feedbackId).Nodup)
    (count : ∀ entry, (insight entry).evidenceCount = entry.2)
    (hasKey : ∀ fb ∈ feedback, ∀ key ∈ known, ∀ n, (insight (key, n)).inRow fb = true ↔
      key ∈ keys fb)
    (within : ∀ fb ∈ feedback, ∀ key ∈ keys fb, key ∈ known) (small : least ≤ 2)
    (room : known.length ≤ limit) :
    (∀ entry ∈ (Tally.of (feedback.flatMap keys)).mostCommon limit, least ≤ entry.2 →
      (insight entry).evidenceCount = (insight entry).rows feedback) ↔
        ∀ fb ∈ feedback, (keys fb).Nodup := by
  rw [← Tally.counts_rows_iff small within room]
  refine forall₂_congr fun ⟨key, n⟩ member => imp_congr_right fun _ => ?_
  have occurs := (Tally.mem_of.mp (Tally.mem_of_mem_mostCommon member)).1
  obtain ⟨fb, _, has⟩ := List.mem_flatMap.mp occurs
  rw [count, rows_eq_countP fresh]
  have same : feedback.countP (insight (key, n)).inRow = feedback.countP fun fb => key ∈ keys fb :=
    List.countP_congr fun row here => by
      rw [decide_eq_true_eq]
      exact hasKey row here key (within fb ‹_› key has) n
  rw [same]

/-- An execution that has been analyzed, with the identifier of its feedback and the time. -/
structure AnalyzerRun where
  inp : MuktiAnalysisInput
  feedbackId : UUID
  now : Time

def AnalyzerRun.feedback (run : AnalyzerRun) : ExecutionFeedback :=
  MuktiAnalyzer.analyze run.inp run.feedbackId run.now

section
variable {py : Platform} {runs : List AnalyzerRun}

theorem forall_feedback {P : ExecutionFeedback → Prop}
    (each : ∀ run : AnalyzerRun, P run.feedback) :
    ∀ fb ∈ runs.map AnalyzerRun.feedback, P fb := List.forall_mem_map.mpr fun run _ => each run

/-- The title of a signal of the policy names it in a row. -/
theorem policySignals_title {run : AnalyzerRun} {key : String} (known : key ∈ signalNames) :
    (slice (signalTitle key) 0 256 ∈ run.feedback.failureTypes ∨
      ∃ sug ∈ run.feedback.improvementSuggestions, sug.summary = slice (signalTitle key) 0 256) ↔
    key ∈ policySignals run.feedback := by
  rw [mem_policySignals]
  rcases List.mem_append.mp known with failure | suggested
  · rw [failure_title key failure]
    have apart {s : String} (summary : s ∈ summaryTexts) : s ≠ key ∧ "suggestion:" ++ s ≠ key := by
      have named : key ∈ failureNames := List.mem_append_right _ failure
      exact ⟨fun same => (summary_apart s summary).1 (same ▸ named), fun same =>
        (summary_apart s summary).2 (same ▸ named)⟩
    refine or_congr ⟨fun found => ⟨found, ?_⟩, And.left⟩ (iff_of_false ?_ ?_)
    · exact (isPolicyFailure_iff (failure_known found)).mpr failure
    · rintro ⟨sug, member, same⟩
      exact (apart (suggestion_known member).2).1 same
    · rintro ⟨sug, member, _, same⟩
      rw [suggestionKey_eq (suggestion_known member).2] at same
      exact (apart (suggestion_known member).2).2 same
  · obtain ⟨s, summary, rfl⟩ := List.mem_map.mp suggested
    have short : s.length ≤ 256 := (summary_short s summary).trans (by decide)
    rw [signalTitle_suggestion, slice_whole short]
    refine or_congr (iff_of_false ?_ ?_) (exists_congr fun sug => and_congr_right fun member => ?_)
    · exact fun found => (summary_apart s summary).1 (failure_known found)
    · exact fun found => (summary_apart s summary).2 (failure_known found.1)
    · obtain ⟨category, named⟩ := suggestion_known member
      rw [suggestionKey_eq named, and_iff_right category]
      exact ⟨fun same => same ▸ rfl, fun same => by simpa using same⟩

variable {workflowOf : UUID → Option String}

theorem topFailureTypes_counted
    (fresh : ((runs.map AnalyzerRun.feedback).map ExecutionFeedback.feedbackId).Nodup) :
    ∀ insight ∈ topFailureTypes py workflowOf (runs.map AnalyzerRun.feedback),
      insight.evidenceCount = insight.rows (runs.map AnalyzerRun.feedback) := by
  have once : ∀ fb ∈ runs.map AnalyzerRun.feedback, fb.failureTypes.Nodup :=
    forall_feedback fun run => nodup_distinct
  have within : ∀ fb ∈ runs.map AnalyzerRun.feedback, ∀ ft ∈ fb.failureTypes, ft ∈ failureNames :=
    forall_feedback fun _ _ => failure_known
  have counted := (tallied_rows_iff ExecutionFeedback.failureTypes
    (failureInsight py (rollup ExecutionFeedback.failureTypes workflowOf
      (runs.map AnalyzerRun.feedback))) failureNames 0 10
    fresh (fun _ => rfl) (fun _ _ _ _ _ => decide_eq_true_iff) within (Nat.zero_le 2)
      (by decide)).mpr once
  rw [topFailureTypes, List.forall_mem_map, rollup_tally]
  exact fun entry member => counted entry member (Nat.zero_le _)

/-- The policy signals are counted by rows when no denial and no denied proposal is one of two. -/
theorem policyFriction_counted_iff
    (fresh : ((runs.map AnalyzerRun.feedback).map ExecutionFeedback.feedbackId).Nodup) :
    (∀ insight ∈ policyFriction py workflowOf (runs.map AnalyzerRun.feedback),
      insight.evidenceCount = insight.rows (runs.map AnalyzerRun.feedback)) ↔
    ∀ run ∈ runs, run.inp.policyEvaluations.countP isDenied ≤ 1 ∧ run.inp.actionProposals.countP
      isPolicyDenied ≤ 1 := by
  have within : ∀ fb ∈ runs.map AnalyzerRun.feedback, ∀ key ∈ policySignals fb, key ∈ signalNames :=
    forall_feedback fun _ _ => signal_known
  have named : ∀ fb ∈ runs.map AnalyzerRun.feedback, ∀ key ∈ signalNames, ∀ n, (frictionInsight py
      (rollup policySignals workflowOf (runs.map AnalyzerRun.feedback)) (key, n)).inRow fb = true ↔
        key ∈ policySignals fb :=
    forall_feedback fun run key known n => decide_eq_true_iff.trans (policySignals_title known)
  have counted := tallied_rows_iff policySignals (frictionInsight py
    (rollup policySignals workflowOf (runs.map AnalyzerRun.feedback))) signalNames 0 8 fresh
      (fun _ => rfl) named within
    (Nat.zero_le 2) (by decide)
  simp only [Nat.zero_le, forall_const] at counted
  rw [policyFriction, List.forall_mem_map, rollup_tally, counted, List.forall_mem_map]
  exact forall₂_congr fun run _ => policySignals_nodup_iff

/-- What recurs is counted by rows when no fallback and no dispute is one of two. -/
theorem recurringPatterns_counted_iff
    (fresh : ((runs.map AnalyzerRun.feedback).map ExecutionFeedback.feedbackId).Nodup) :
    (∀ insight ∈ recurringPatterns py workflowOf (runs.map AnalyzerRun.feedback),
      insight.evidenceCount = insight.rows (runs.map AnalyzerRun.feedback)) ↔
    ∀ run ∈ runs, run.inp.execution.traceTimeline.countP isFallbackRow ≤ 1 ∧
      run.inp.operatorFeedback.countP isDisputed ≤ 1 := by
  have within : ∀ fb ∈ runs.map AnalyzerRun.feedback, ∀ pt ∈ patternTypes fb, pt ∈ patternNames :=
    forall_feedback fun _ _ => pattern_known
  have named : ∀ fb ∈ runs.map AnalyzerRun.feedback, ∀ pt ∈ patternNames, ∀ n, (patternInsight py
      (rollup patternTypes workflowOf (runs.map AnalyzerRun.feedback)) (pt, n)).inRow fb = true ↔
        pt ∈ patternTypes fb := by
    intro fb _ pt _ n
    simp [InsightFields.inRow, patternInsight, insightOf, patternTypes, List.mem_map]
  have counted := tallied_rows_iff patternTypes (patternInsight py
    (rollup patternTypes workflowOf (runs.map AnalyzerRun.feedback))) patternNames 2 10 fresh
      (fun _ => rfl) named within
    (Nat.le_refl 2) (by decide)
  rw [recurringPatterns, List.forall_mem_map, rollup_tally]
  simp only [List.mem_filter, decide_eq_true_eq, and_imp]
  rw [counted, List.forall_mem_map]
  exact forall₂_congr fun run _ => patternTypes_nodup_iff

/-- What recurs is tallied twice. -/
theorem recurringPatterns_least {insight : InsightFields} {feedback : List ExecutionFeedback}
    (member : insight ∈ recurringPatterns py workflowOf feedback) : 2 ≤ insight.evidenceCount := by
  obtain ⟨entry, chosen, rfl⟩ := List.mem_map.mp member
  exact of_decide_eq_true (List.mem_filter.mp chosen).2

end

/-- What is built is counted as its fields are. -/
theorem forall_built {P : InsightFields → Prop} {made : List CrossExecutionInsight}
    {drafts : List InsightFields} (shown : made.map Subtype.val = drafts) :
    (∀ insight ∈ made, P insight.val) ↔ ∀ i ∈ drafts, P i := by
  rw [← shown, List.forall_mem_map]

/-- The evidence counts of a summary count rows exactly when no signal of an execution comes from
two of its artifacts. -/
theorem evidence_counts_rows_iff (py : Platform) (runs : List AnalyzerRun)
    (executionSummaries : List ExecutionSummary)
    (fresh : ((runs.map AnalyzerRun.feedback).map ExecutionFeedback.feedbackId).Nodup)
    (summary : MuktiInsightsSummary)
    (answer : CrossExecutionAnalyzer.analyze py ⟨runs.map AnalyzerRun.feedback,
      executionSummaries⟩ = .ok summary) :
    CountsRows summary (runs.map AnalyzerRun.feedback) ↔ ∀ run ∈ runs, SingleSignals run.inp := by
  obtain ⟨failures, recurs, friction, _⟩ := analyze_shows answer
  constructor
  · rintro ⟨counted, _⟩ run member
    rw [List.forall_mem_append, List.forall_mem_append] at counted
    obtain ⟨⟨_, patterns⟩, signals⟩ := counted
    have recurring := (recurringPatterns_counted_iff fresh).mp
      ((forall_built (P := fun i => i.evidenceCount = i.rows _) recurs).mp patterns)
    have signalled := (policyFriction_counted_iff fresh).mp
      ((forall_built (P := fun i => i.evidenceCount = i.rows _) friction).mp signals)
    obtain ⟨fallback, disputed⟩ := recurring run member
    obtain ⟨denied, deniedProposal⟩ := signalled run member
    exact ⟨fallback, disputed, denied, deniedProposal⟩
  · intro single
    have patterns : ∀ insight ∈ summary.recurringPatterns, insight.val.evidenceCount =
      insight.val.rows _ :=
      (forall_built recurs).mpr ((recurringPatterns_counted_iff fresh).mpr fun run member =>
        ⟨(single run member).fallback, (single run member).disputed⟩)
    have signals : ∀ insight ∈ summary.policyFrictionAreas, insight.val.evidenceCount =
      insight.val.rows _ :=
      (forall_built friction).mpr ((policyFriction_counted_iff fresh).mpr fun run member =>
        ⟨(single run member).denied, (single run member).deniedProposal⟩)
    refine ⟨?_, fun insight member => ?_⟩
    · rw [List.forall_mem_append, List.forall_mem_append]
      exact ⟨⟨(forall_built failures).mpr (topFailureTypes_counted fresh), patterns⟩, signals⟩
    · have least : ∀ insight ∈ summary.recurringPatterns, 2 ≤ insight.val.evidenceCount :=
        (forall_built recurs).mpr fun _ => recurringPatterns_least
      exact patterns insight member ▸ least insight member

/-- A completed execution with one piece of operator feedback for each of the label lists. -/
def reviewed (n : Nat) (labels : List (List String)) : AnalyzerRun where
  inp :=
    { execution := { executionOf genericRequest ⟨n⟩ ⟨0⟩ 0 with status := .completed }
      steps := []
      operatorFeedback := labels.map fun ls => ⟨⟨n⟩, ⟨n⟩, .operatorConsole, ls, [], none, 0, none⟩
      policyEvaluations := []
      actionProposals := [] }
  feedbackId := ⟨n + 10⟩
  now := 1

/-- The feedback rows of the runs, without execution summaries. -/
def rowsOf (runs : List AnalyzerRun) : MuktiCrossExecutionInput :=
  ⟨runs.map AnalyzerRun.feedback, []⟩

theorem evidence_counts_rows_two :
    ∃ summary, CrossExecutionAnalyzer.analyze plainPlatform (rowsOf
        [reviewed 1 [["False_Positive"], ["useful"]], reviewed 2 [["false_positive"]]]) =
          .ok summary ∧
      CountsRows summary (rowsOf [reviewed 1 [["False_Positive"], ["useful"]], reviewed 2
        [["false_positive"]]]).executionFeedback := by
  obtain ⟨summary, answer⟩ := (@analyze_returns_iff plainPlatform (rowsOf
    [reviewed 1 [["False_Positive"], ["useful"]], reviewed 2 [["false_positive"]]])).mpr
      ⟨by decide +kernel, by decide +kernel, by decide +kernel, by decide +kernel, by
          decide +kernel, by decide +kernel⟩
  refine ⟨summary, answer, ?_⟩
  refine (evidence_counts_rows_iff plainPlatform _ [] (by decide) summary answer).mpr ?_
  rintro run member
  rcases List.mem_cons.mp member with rfl | member
  · exact ⟨by decide, by decide +kernel, by decide, by decide⟩
  · obtain rfl := List.mem_singleton.mp member
    exact ⟨by decide, by decide +kernel, by decide, by decide⟩

/-- Two reviewers dispute one execution: the pattern recurs in one row. -/
theorem evidence_counts_disputes :
    ∃ summary, CrossExecutionAnalyzer.analyze plainPlatform (rowsOf
        [reviewed 1 [["false_positive"], ["false_positive"]]]) = .ok summary ∧
      ¬ CountsRows summary
        (rowsOf [reviewed 1 [["false_positive"], ["false_positive"]]]).executionFeedback := by
  obtain ⟨summary, answer⟩ := (@analyze_returns_iff plainPlatform (rowsOf
    [reviewed 1 [["false_positive"], ["false_positive"]]])).mpr
      ⟨by decide +kernel, by decide +kernel, by decide +kernel, by decide +kernel, by
          decide +kernel, by decide +kernel⟩
  refine ⟨summary, answer, fun ⟨_, recurring⟩ => ?_⟩
  have drafts := (forall_built (P := fun i => 2 ≤ i.rows _)
    (analyze_shows answer).recurringPatterns).mp recurring
  have alone :
    ¬ ∀ i ∈ recurringPatterns plainPlatform
    (workflowOf (rowsOf [reviewed 1 [["false_positive"], ["false_positive"]]]))
      (rowsOf [reviewed 1 [["false_positive"], ["false_positive"]]]).executionFeedback,
      2 ≤ i.rows
        (rowsOf [reviewed 1 [["false_positive"], ["false_positive"]]]).executionFeedback := by
    decide +kernel
  exact alone drafts

end AgenticPlatform
