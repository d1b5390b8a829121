import AgenticPlatform.MuktiRanking

/-! When the cross-execution analysis returns: the texts of the rows that reach an insight or a
ranked suggestion uncut have to leave room within the bounds of its schema. -/
namespace AgenticPlatform
open Counting CrossExecutionAnalyzer Ranking

/-- The number of the digits of a number in a text. -/
def digits (n : Nat) : Nat := (toString n).length

/-- The texts of the rows leave room for what is written around them. -/
structure WithinBounds (py : Platform) (inp : MuktiCrossExecutionInput) : Prop where
  failureTypes : ∀ ft, Common ExecutionFeedback.failureTypes inp.executionFeedback 10 ft →
    ft.length ≤ 256 ∧
    ft.length + digits (occurrences ExecutionFeedback.failureTypes inp.executionFeedback ft) +
      digits (workflowsWhere inp.executionFeedback (workflowOf inp) fun fb => ft ∈
        fb.failureTypes).length ≤ 1969
  patterns : ∀ pt, Common patternTypes inp.executionFeedback 10 pt → 2 ≤ occurrences patternTypes
    inp.executionFeedback pt →
    pt.length ≤ 256 ∧ pt.length + digits (occurrences patternTypes inp.executionFeedback pt) ≤ 1954
  signals : ∀ key, Common policySignals inp.executionFeedback 8 key →
    (signalTitle key).length + digits (occurrences policySignals inp.executionFeedback key) ≤ 1983
  fallbacks : ∀ wf, Common (fallbackWorkflows (workflowOf inp)) inp.executionFeedback 8 wf →
    wf.length ≤ 238 ∧
    wf.length + digits (occurrences (fallbackWorkflows (workflowOf inp)) inp.executionFeedback wf) ≤
      1964
  spread : 2 ≤ (executionsWhere inp.executionFeedback hasFallback).length →
    inp.executionFeedback.flatMap (fallbackWorkflows (workflowOf inp)) = [] →
      digits (executionsWhere inp.executionFeedback hasFallback).length ≤ 1967
  workflows : ∀ wf, Unstable py (workflowOf inp) (statusOf inp) inp.executionFeedback wf →
    wf.length ≤ 238 ∧
    let rows := rowsOfWorkflow (workflowOf inp) inp.executionFeedback wf
    let failed := rows.countP (failedOrCancelled (statusOf inp))
    wf.length + digits failed + digits rows.length +
      (py.percentText (py.share failed rows.length)).length ≤ 1958
  steps : ∀ sid, Leads (stepRuns inp.executionFeedback) (inp.executionFeedback.flatMap stepNames) 8
    sid →
    2 ≤ stepRuns inp.executionFeedback sid →
      sid.length + digits (stepRuns inp.executionFeedback sid) ≤ 1982
  suggestions : ∀ k ∈ suggestionPairs inp.executionFeedback,
    ((suggestionPairs inp.executionFeedback).filter fun k' => MadeBefore inp.executionFeedback k'
      k).length < 15 →
      k.1.length ≤ 128 ∧ k.2.length ≤ 512

section
variable {py : Platform} {r : Rollup} {k title description action keyName : String}
  {category : InsightCategory} {weight n : Nat}

theorem length_firstSorted {names : List String} : (firstSorted n names).length ≤ n :=
  List.length_take_le n _

theorem insightOf_fits_iff :
    (insightOf py r category weight keyName (k, n) title description action).Fits ↔
    title.length ≤ 256 ∧ description.length ≤ 2048 ∧ action.length ≤ 1024 := by
  constructor
  · intro fits
    exact ⟨fits.title, fits.description, fits.suggestedAction⟩
  · rintro ⟨title, description, action⟩
    exact ⟨title, description, length_firstSorted, Nat.zero_le _, action, List.length_take_le _ _⟩

theorem failureInsight_fits_iff : (failureInsight py r (k, n)).Fits ↔
    k.length ≤ 256 ∧ k.length + digits n + digits (r.workflows k).length ≤ 1969 := by
  rw [failureInsight, insightOf_fits_iff]
  have texts : "Failure type '".length = 14 ∧ "' appears in ".length = 13 ∧
      " execution_feedback row(s) across ".length = 34 ∧ " workflow type(s).".length = 18 ∧
      "Investigate root cause for failure type '".length = 41 ∧
        "' in affected workflows.".length = 24 :=
    ⟨String.length_ofList, String.length_ofList, String.length_ofList, String.length_ofList,
      String.length_ofList, String.length_ofList⟩
  simp only [String.length_append]
  unfold digits
  omega

theorem patternInsight_fits_iff : (patternInsight py r (k, n)).Fits ↔ k.length ≤ 256 ∧
    k.length + digits n ≤ 1954 := by
  rw [patternInsight, insightOf_fits_iff]
  have texts : "Pattern '".length = 9 ∧ "' recurs in ".length = 12 ∧
      " execution_feedback row(s) (minimum 2 required for cross-execution flag).".length = 73 ∧
      "Review trace evidence for recurring pattern '".length = 45 ∧ "'.".length = 2 :=
    ⟨String.length_ofList, String.length_ofList, String.length_ofList, String.length_ofList,
      String.length_ofList⟩
  simp only [String.length_append]
  unfold digits
  omega

theorem length_slice {s : String} : (slice s 0 n).length ≤ n := by
  rw [slice, String.length_ofList]
  exact List.length_take_le _ _

theorem frictionInsight_fits_iff : (frictionInsight py r (k, n)).Fits ↔
    (signalTitle k).length + digits n ≤ 1983 := by
  have title := @length_slice 256 (signalTitle k)
  rw [frictionInsight, insightOf_fits_iff]
  have texts : "Policy friction signal '".length = 24 ∧ "' observed in ".length = 14 ∧
      " execution_feedback row(s).".length = 27 ∧
      "Align workflow intent with policy pack; review deny and conditional rules.".length = 74 :=
    ⟨String.length_ofList, String.length_ofList, String.length_ofList, String.length_ofList⟩
  simp only [String.length_append]
  unfold digits
  omega

variable {workflowOf : UUID → Option String} {f : FallbackRollup}

theorem fallbackInsight_fits_iff : (fallbackInsight py workflowOf f (k, n)).Fits ↔ k.length ≤ 238 ∧
    k.length + digits n ≤ 1964 := by
  have title : (fallbackInsight py workflowOf f (k, n)).title.length = k.length + 18 := by
    have texts : "model_fallback_in_".length = 18 := String.length_ofList
    simp only [fallbackInsight, String.length_append]
    omega
  have action : (fallbackInsight py workflowOf f (k, n)).suggestedAction.length = 78 :=
    String.length_ofList
  have description : (fallbackInsight py workflowOf f (k, n)).description.length = k.length +
    digits n + 84 := by
    have texts : "Workflow '".length = 10 ∧ "' has ".length = 6 ∧
        " execution(s) with 'model_deterministic_fallback' in Mukti feedback.".length = 68 :=
    ⟨String.length_ofList, String.length_ofList, String.length_ofList⟩
    simp only [fallbackInsight, String.length_append]
    unfold digits
    omega
  constructor
  · rintro ⟨short, room, _⟩
    omega
  · rintro ⟨short, room⟩
    exact ⟨by omega, by omega, Nat.le_of_ble_eq_true rfl, length_firstSorted, by omega,
      List.length_take_le _ _⟩

theorem globalFallback_fits_iff : (globalFallback py f).Fits ↔ digits f.execs.length ≤ 1967 := by
  have title : (globalFallback py f).title.length = 21 := String.length_ofList
  have action : (globalFallback py f).suggestedAction.length = 54 := String.length_ofList
  have description : (globalFallback py f).description.length = digits f.execs.length + 81 := by
    have texts :
      " execution(s) recorded model deterministic fallback without workflow projections.".length =
      81 := String.length_ofList
    simp only [globalFallback, String.length_append]
    unfold digits
    omega
  constructor
  · rintro ⟨_, room, _⟩
    omega
  · intro room
    exact ⟨by omega, by omega, Nat.le_of_ble_eq_true rfl, length_firstSorted, by omega,
      List.length_take_le _ _⟩

variable {statusOf : UUID → Option ExecutionStatus} {rows : List ExecutionFeedback}

theorem workflowInsight_fits_iff : (workflowInsight py statusOf (k, rows)).Fits ↔ k.length ≤ 238 ∧
    k.length + digits (rows.countP (failedOrCancelled statusOf)) + digits rows.length +
      (py.percentText (py.share (rows.countP (failedOrCancelled statusOf)) rows.length)).length ≤
        1958 := by
  have title : (workflowInsight py statusOf (k, rows)).title.length = k.length + 18 := by
    have texts : "unstable_workflow:".length = 18 := String.length_ofList
    simp only [workflowInsight, String.length_append]
    omega
  have action : (workflowInsight py statusOf (k, rows)).suggestedAction.length = 70 :=
    String.length_ofList
  have description : (workflowInsight py statusOf (k, rows)).description.length =
      k.length + digits (rows.countP (failedOrCancelled statusOf)) + digits rows.length +
        (py.percentText (py.share (rows.countP (failedOrCancelled statusOf)) rows.length)).length +
          90 := by
    have texts : "Workflow '".length = 10 ∧ "' shows ".length = 8 ∧ "/".length = 1 ∧
        " failed/cancelled executions in feedback sample (rate ".length = 54 ∧
          ", threshold 50%).".length = 17 :=
    ⟨String.length_ofList, String.length_ofList, String.length_ofList, String.length_ofList,
      String.length_ofList⟩
    simp only [workflowInsight, String.length_append]
    unfold digits
    omega
  constructor
  · rintro ⟨short, room, _⟩
    omega
  · rintro ⟨short, room⟩
    exact ⟨by omega, by omega, Nat.le_of_ble_eq_true rfl, Nat.zero_le _, by omega,
      List.length_take_le _ _⟩

variable {wfByExec : UUID → Option String} {ids : List UUID}

theorem stepInsight_fits_iff : (stepInsight py wfByExec (k, ids)).Fits ↔
    k.length + digits ids.length ≤ 1982 := by
  have title : (stepInsight py wfByExec (k, ids)).title.length ≤ 62 := by
    have short := @length_slice 48 k
    have texts : "unstable_step:".length = 14 := String.length_ofList
    simp only [stepInsight, String.length_append]
    omega
  have action : (stepInsight py wfByExec (k, ids)).suggestedAction.length = 62 :=
    String.length_ofList
  have description : (stepInsight py wfByExec (k, ids)).description.length = k.length + digits
    ids.length + 66 := by
    have texts : "Step id '".length = 9 ∧ "' appears in patterns across ".length = 29 ∧
        " execution(s) (threshold 2).".length = 28 :=
    ⟨String.length_ofList, String.length_ofList, String.length_ofList⟩
    simp only [stepInsight, String.length_append]
    unfold digits
    omega
  constructor
  · rintro ⟨_, room, _⟩
    omega
  · intro room
    exact ⟨by omega, by omega, length_firstSorted, Nat.le_of_ble_eq_true rfl, by omega,
      List.length_take_le _ _⟩

variable {feedback : List ExecutionFeedback} {name : SuggestionName}

theorem suggestionAt_fits_iff (made : name ∈ suggestionPairs feedback) (ranked : 1 ≤ n) :
    (suggestionAt workflowOf feedback name n).Fits ↔ name.1.length ≤ 128 ∧ name.2.length ≤ 512 := by
  have evidence : 1 ≤ (suggestionAt workflowOf feedback name n).evidenceCount := by
    have count : (suggestionAt workflowOf feedback name n).evidenceCount = makers feedback name :=
      distinct_bucket_length
    rw [count]
    exact executionsNaming_pos (List.mem_dedup.mp made)
  constructor
  · intro fits
    exact ⟨fits.category, fits.summary⟩
  · rintro ⟨category, summary⟩
    refine ⟨ranked, category, summary, evidence, length_firstSorted, List.length_take_le _ _, ?_⟩
    rw [suggestionAt]
    dsimp only
    split
    · exact (String.length_ofList : "Review policy pack and workflow alignment.".length =
        42).trans_le (by decide)
    · have texts : "Address advisory category '".length = 27 ∧
        "' via governed release.".length = 23 :=
    ⟨String.length_ofList, String.length_ofList⟩
      simp only [String.length_append]
      omega

end

section
variable {py : Platform} {inp : MuktiCrossExecutionInput}

theorem failureTypes_fit_iff :
    (∀ i ∈ topFailureTypes py (workflowOf inp) inp.executionFeedback, i.Fits) ↔
    ∀ ft, Common ExecutionFeedback.failureTypes inp.executionFeedback 10 ft → ft.length ≤ 256 ∧
      ft.length + digits (occurrences ExecutionFeedback.failureTypes inp.executionFeedback ft) +
        digits (workflowsWhere inp.executionFeedback (workflowOf inp) fun fb => ft ∈
          fb.failureTypes).length ≤ 1969 := by
  simp only [mem_topFailureTypes, forall_exists_index, and_imp, forall_apply_eq_imp_iff₂,
    failureInsight_fits_iff, rollup_workflows_length]

theorem patterns_fit_iff :
    (∀ i ∈ recurringPatterns py (workflowOf inp) inp.executionFeedback, i.Fits) ↔
    ∀ pt, Common patternTypes inp.executionFeedback 10 pt → 2 ≤ occurrences patternTypes
      inp.executionFeedback pt →
      pt.length ≤ 256 ∧ pt.length + digits (occurrences patternTypes inp.executionFeedback pt) ≤
        1954 := by
  constructor
  · intro fit pt common twice
    exact patternInsight_fits_iff.mp (fit _ (mem_recurringPatterns.mpr ⟨pt, common, twice, rfl⟩))
  · intro room i member
    obtain ⟨pt, common, twice, rfl⟩ := mem_recurringPatterns.mp member
    exact patternInsight_fits_iff.mpr (room pt common twice)

theorem signals_fit_iff : (∀ i ∈ policyFriction py (workflowOf inp) inp.executionFeedback, i.Fits) ↔
    ∀ key, Common policySignals inp.executionFeedback 8 key →
      (signalTitle key).length + digits (occurrences policySignals inp.executionFeedback key) ≤
        1983 := by
  simp only [mem_policyFriction, forall_exists_index, and_imp, forall_apply_eq_imp_iff₂,
    frictionInsight_fits_iff]

theorem workflows_fit_iff :
    (∀ i ∈ unstableWorkflows py (workflowOf inp) inp.executionFeedback (statusOf inp), i.Fits) ↔
    ∀ wf, Unstable py (workflowOf inp) (statusOf inp) inp.executionFeedback wf → wf.length ≤ 238 ∧
      let rows := rowsOfWorkflow (workflowOf inp) inp.executionFeedback wf
      let failed := rows.countP (failedOrCancelled (statusOf inp))
      wf.length + digits failed + digits rows.length +
        (py.percentText (py.share failed rows.length)).length ≤ 1958 := by
  simp only [mem_unstableWorkflows, forall_exists_index, and_imp, forall_apply_eq_imp_iff₂,
    workflowInsight_fits_iff]

theorem steps_fit_iff :
    (∀ i ∈ (topSteps inp.executionFeedback).map (stepInsight py (wfByExec inp)), i.Fits) ↔
    ∀ sid, Leads (stepRuns inp.executionFeedback) (inp.executionFeedback.flatMap stepNames) 8 sid →
      2 ≤ stepRuns inp.executionFeedback sid →
        sid.length + digits (stepRuns inp.executionFeedback sid) ≤ 1982 := by
  rw [List.forall_mem_map]
  constructor
  · intro fit sid leads twice
    have entry :
      (sid, distinct (((naming stepNames inp.executionFeedback).filter fun e => e.1 =
      sid).map Prod.snd)) ∈
        stepExecs inp.executionFeedback := mem_stepExecs.mpr ⟨leads.1, rfl⟩
    have size := stepExecs_length entry
    have long :
      2 ≤ (distinct (((naming stepNames inp.executionFeedback).filter fun e => e.1 = sid).map
      Prod.snd)).length :=
      size ▸ twice
    have room := stepInsight_fits_iff.mp
      (fit _ (List.mem_filter.mpr ⟨mem_take_steps.mpr ⟨entry, leads⟩, decide_eq_true long⟩))
    rwa [size] at room
  · rintro room ⟨sid, ids⟩ member
    obtain ⟨first, twice⟩ := List.mem_filter.mp member
    obtain ⟨entry, leads⟩ := mem_take_steps.mp first
    have size : ids.length = stepRuns inp.executionFeedback sid := stepExecs_length entry
    rw [stepInsight_fits_iff, size]
    exact room sid leads (size ▸ of_decide_eq_true twice)

theorem suggestions_fit_iff :
    (∀ r ∈ rankedSuggestions (workflowOf inp) inp.executionFeedback, r.Fits) ↔
    ∀ k ∈ suggestionPairs inp.executionFeedback,
      ((suggestionPairs inp.executionFeedback).filter fun k' => MadeBefore inp.executionFeedback k'
        k).length < 15 →
        k.1.length ≤ 128 ∧ k.2.length ≤ 512 := by
  have listed {k : SuggestionName} {n : Nat}
    (place : (k, n) ∈ (rankedKeys inp.executionFeedback).zipIdx 1) :
      k ∈ rankedKeys inp.executionFeedback ∧ 1 ≤ n :=
    ⟨List.fst_mem_of_mem_zipIdx place, (List.mem_zipIdx place).1⟩
  rw [rankedSuggestions, List.forall_mem_map]
  constructor
  · intro fit k made few
    have names := List.zipIdx_map_fst 1 (rankedKeys inp.executionFeedback)
    obtain ⟨⟨k, n⟩, place, rfl⟩ := List.mem_map.mp (names ▸ mem_rankedKeys.mpr ⟨made, few⟩)
    exact (suggestionAt_fits_iff made (listed place).2).mp (fit _ place)
  · rintro room ⟨k, n⟩ place
    obtain ⟨member, ranked⟩ := listed place
    obtain ⟨made, few⟩ := mem_rankedKeys.mp member
    exact (suggestionAt_fits_iff made ranked).mpr (room k made few)

theorem allFit_iff : AllFit py inp ↔ WithinBounds py inp := by
  constructor
  · intro fit
    refine ⟨failureTypes_fit_iff.mp fit.topFailureTypes, patterns_fit_iff.mp fit.recurringPatterns,
      signals_fit_iff.mp fit.policyFriction, fun wf common => ?_, fun spread none => ?_, ?_, ?_,
      suggestions_fit_iff.mp fit.ranked⟩
    · exact fallbackInsight_fits_iff.mp
        (fit.modelFallback _ (mem_modelFallbackConcentration.mpr (.inl ⟨wf, common, rfl⟩)))
    · rw [← @fallbackRollup_execs (workflowOf inp)]
      exact globalFallback_fits_iff.mp
        (fit.modelFallback _ (mem_modelFallbackConcentration.mpr (.inr ⟨⟨spread, none⟩, rfl⟩)))
    · exact workflows_fit_iff.mp fun i member => fit.unstable i (List.mem_append_left _ member)
    · exact steps_fit_iff.mp fun i member => fit.unstable i (List.mem_append_right _ member)
  · intro within
    refine ⟨failureTypes_fit_iff.mpr within.failureTypes, patterns_fit_iff.mpr within.patterns,
      signals_fit_iff.mpr within.signals, fun i member => ?_, fun i member => ?_,
        suggestions_fit_iff.mpr within.suggestions⟩
    · rcases mem_modelFallbackConcentration.mp member with ⟨wf, common, rfl⟩ | ⟨⟨spread, none⟩, rfl⟩
      · exact fallbackInsight_fits_iff.mpr (within.fallbacks wf common)
      · rw [globalFallback_fits_iff, fallbackRollup_execs]
        exact within.spread spread none
    · rcases List.mem_append.mp member with workflow | step
      · exact workflows_fit_iff.mpr within.workflows i workflow
      · exact steps_fit_iff.mpr within.steps i step

end

/-- The analysis returns exactly when the texts that it shows are within bounds. -/
theorem analyze_total_iff (py : Platform) (inp : MuktiCrossExecutionInput) :
    (∃ summary, CrossExecutionAnalyzer.analyze py inp = .ok summary) ↔ WithinBounds py inp :=
  analyze_returns_iff.trans allFit_iff

/-- One feedback row with a failure type of 257 characters. -/
def longWinded : MuktiCrossExecutionInput :=
  ⟨[{ advised 1 [] with failureTypes := [String.ofList (List.replicate 257 'x')] }], []⟩

/-- The failure type is too long for the title of its insight. -/
theorem analyze_total_long : ¬ ∃ summary, CrossExecutionAnalyzer.analyze plainPlatform longWinded =
    .ok summary := by
  rw [analyze_returns_iff, allFit_iff]
  intro within
  have common : Common ExecutionFeedback.failureTypes longWinded.executionFeedback 10
    (String.ofList (List.replicate 257 'x')) := by
    refine ⟨List.mem_singleton_self _, ?_⟩
    exact ((List.length_filter_le _ _).trans (List.dedup_sublist _).length_le).trans_lt (by decide)
  have short := (within.failureTypes _ common).1
  rw [String.length_ofList, List.length_replicate] at short
  exact absurd short (by decide)

end AgenticPlatform
