import AgenticPlatform.MuktiTotal
import Mathlib.Data.List.Permutation
import Mathlib.Data.Nat.Digits.Lemmas

/-! When the insights do not depend on the order of the rows: at every limit a key that is shown and
one that is not either differ in their counts or follow each other in every row. -/
namespace AgenticPlatform
open Counting CrossExecutionAnalyzer Ranking

/-- What identifies an insight, its count and its severity. -/
def InsightFields.key (i : InsightFields) : UUID × Nat × InsightSeverity :=
  (i.insightId, i.evidenceCount, i.severity)

/-- The same identifiers, with the same counts and severities. -/
def SameKeys (drafts drafts' : List InsightFields) : Prop :=
  ∀ key, key ∈ drafts.map InsightFields.key ↔ key ∈ drafts'.map InsightFields.key

def SameInsights (made made' : List CrossExecutionInsight) : Prop := SameKeys (made.map Subtype.val)
    (made'.map Subtype.val)

/-- The same insights in each of the lists, and the same ranked suggestions. -/
structure SameSummary (s s' : MuktiInsightsSummary) : Prop where
  topFailureTypes : SameInsights s.topFailureTypes s'.topFailureTypes
  recurringPatterns : SameInsights s.recurringPatterns s'.recurringPatterns
  policyFrictionAreas : SameInsights s.policyFrictionAreas s'.policyFrictionAreas
  modelFallbackConcentration : SameInsights s.modelFallbackConcentration
    s'.modelFallbackConcentration
  unstableWorkflowsOrSteps : SameInsights s.unstableWorkflowsOrSteps s'.unstableWorkflowsOrSteps
  insights : SameInsights s.insights s'.insights
  rankedImprovementSuggestions : s.rankedImprovementSuggestions = s'.rankedImprovementSuggestions

def MuktiCrossExecutionInput.inOrder (inp : MuktiCrossExecutionInput)
    (rows : List ExecutionFeedback) : MuktiCrossExecutionInput :=
  { inp with executionFeedback := rows }

/-- Every order of the rows has the same summary. -/
def OrderFree (py : Platform) (inp : MuktiCrossExecutionInput) : Prop :=
  ∀ rows, rows.Perm inp.executionFeedback → ∃ s s', CrossExecutionAnalyzer.analyze py inp = .ok s ∧
    CrossExecutionAnalyzer.analyze py (inp.inOrder rows) = .ok s' ∧ SameSummary s' s

/-- The fields of the insights and suggestions, in another order of the rows. -/
structure SameDrafts (py : Platform) (inp : MuktiCrossExecutionInput)
    (rows : List ExecutionFeedback) : Prop where
  failures : SameKeys (topFailureTypes py (workflowOf inp) rows)
    (topFailureTypes py (workflowOf inp) inp.executionFeedback)
  patterns : SameKeys (recurringPatterns py (workflowOf inp) rows)
    (recurringPatterns py (workflowOf inp) inp.executionFeedback)
  signals : SameKeys (policyFriction py (workflowOf inp) rows) (policyFriction py (workflowOf inp)
    inp.executionFeedback)
  fallbacks : SameKeys (modelFallbackConcentration py (workflowOf inp) rows)
    (modelFallbackConcentration py (workflowOf inp) inp.executionFeedback)
  unstable : SameKeys ((unstable py (inp.inOrder rows)).take 8) ((unstable py inp).take 8)
  ranked : rankedSuggestions (workflowOf inp) rows = rankedSuggestions (workflowOf inp)
    inp.executionFeedback

section
variable {py : Platform} {inp : MuktiCrossExecutionInput} {rows : List ExecutionFeedback}
  {s s' : MuktiInsightsSummary}

theorem SameKeys.append {a b a' b' : List InsightFields} (first : SameKeys a b)
    (second : SameKeys a' b') :
    SameKeys (a ++ a') (b ++ b') := by
  intro key
  rw [List.map_append, List.map_append, List.mem_append, List.mem_append, first key, second key]

theorem sameSummary_iff (answer : CrossExecutionAnalyzer.analyze py inp = .ok s)
    (answer' : CrossExecutionAnalyzer.analyze py (inp.inOrder rows) = .ok s') : SameSummary s' s ↔
      SameDrafts py inp rows := by
  have shows := analyze_shows answer
  have shows' := analyze_shows answer'
  have failures : SameInsights s'.topFailureTypes s.topFailureTypes ↔ _ :=
    iff_of_eq (congrArg₂ SameKeys shows'.topFailureTypes shows.topFailureTypes)
  have patterns : SameInsights s'.recurringPatterns s.recurringPatterns ↔ _ :=
    iff_of_eq (congrArg₂ SameKeys shows'.recurringPatterns shows.recurringPatterns)
  have signals : SameInsights s'.policyFrictionAreas s.policyFrictionAreas ↔ _ :=
    iff_of_eq (congrArg₂ SameKeys shows'.policyFrictionAreas shows.policyFrictionAreas)
  have fallbacks : SameInsights s'.modelFallbackConcentration s.modelFallbackConcentration ↔ _ :=
    iff_of_eq (congrArg₂ SameKeys shows'.modelFallbackConcentration
      shows.modelFallbackConcentration)
  have unstable : SameInsights s'.unstableWorkflowsOrSteps s.unstableWorkflowsOrSteps ↔ _ :=
    iff_of_eq (congrArg₂ SameKeys shows'.unstableWorkflowsOrSteps shows.unstableWorkflowsOrSteps)
  have ranked : s'.rankedImprovementSuggestions = s.rankedImprovementSuggestions ↔ _ :=
    (List.map_injective_iff.mpr Subtype.val_injective).eq_iff.symm.trans
      (iff_of_eq (congrArg₂ Eq shows'.rankedImprovementSuggestions
        shows.rankedImprovementSuggestions))
  constructor
  · intro same
    exact ⟨failures.mp same.topFailureTypes, patterns.mp same.recurringPatterns, signals.mp
      same.policyFrictionAreas, fallbacks.mp same.modelFallbackConcentration, unstable.mp
        same.unstableWorkflowsOrSteps,
      ranked.mp same.rankedImprovementSuggestions⟩
  · intro same
    have all : SameInsights s'.insights s.insights := by
      rw [SameInsights, shows'.insights, shows.insights]
      simp only [List.map_append]
      exact (((failures.mpr same.failures).append (patterns.mpr same.patterns)).append
        (signals.mpr same.signals)).append
        (fallbacks.mpr same.fallbacks) |>.append (unstable.mpr same.unstable)
    exact ⟨failures.mpr same.failures, patterns.mpr same.patterns, signals.mpr same.signals,
      fallbacks.mpr same.fallbacks, unstable.mpr same.unstable, all, ranked.mpr same.ranked⟩

/-- The order does not matter when it does not matter for what is built, and everything can be
built. -/
theorem orderFree_iff_drafts : OrderFree py inp ↔
    (∀ rows, rows.Perm inp.executionFeedback → WithinBounds py (inp.inOrder rows)) ∧
      ∀ rows, rows.Perm inp.executionFeedback → SameDrafts py inp rows := by
  have returns (inp : MuktiCrossExecutionInput) :
      (∃ s, CrossExecutionAnalyzer.analyze py inp = .ok s) ↔ WithinBounds py inp :=
        analyze_returns_iff.trans allFit_iff
  constructor
  · intro free
    refine ⟨fun rows perm => ?_, fun rows perm => ?_⟩
    · obtain ⟨_, s', _, answer', _⟩ := free rows perm
      exact (returns _).mp ⟨s', answer'⟩
    · obtain ⟨s, s', answer, answer', same⟩ := free rows perm
      exact (sameSummary_iff answer answer').mp same
  · rintro ⟨within, same⟩ rows perm
    obtain ⟨s, answer⟩ := (returns inp).mpr (within _ (.refl _))
    obtain ⟨s', answer'⟩ := (returns _).mpr (within rows perm)
    exact ⟨s, s', answer, answer', (sameSummary_iff answer answer').mpr (same rows perm)⟩

end

/-- What an insight of a signal is known by. -/
def signalKey (py : Platform) (category : InsightCategory) (name : String) (n : Nat) :
    UUID × Nat × InsightSeverity :=
  (insightUuid py category name, n, severityForCount n)

section
variable {py : Platform} {feedback rows : List ExecutionFeedback}
  {workflowOf : UUID → Option String}
  {keys : ExecutionFeedback → List String} {category category' : InsightCategory}
    {name name' : String}

theorem occurrences_perm (perm : rows.Perm feedback) :
    occurrences keys rows = occurrences keys feedback := by
  funext k
  exact (perm.flatMap_right keys).count_eq k

theorem value_no_colon (category : InsightCategory) : ':' ∉ category.value.toList := by
  cases category
  all_goals decide

theorem value_injective : Function.Injective InsightCategory.value := by
  intro category category' same
  revert same
  cases category <;> cases category' <;> decide

/-- The name from which the identifier of an insight is made. -/
def insightName (category : InsightCategory) (key : String) : String :=
  "mukti-v2:" ++ category.value ++ ":" ++ key

/-- The name tells the category and the key. -/
theorem insightName_injective (same : insightName category name = insightName category' name') :
    category = category' ∧ name = name' := by
  have texts := congrArg String.toList same
  simp only [insightName, String.toList_append, List.append_assoc] at texts
  have rest : category.value.toList ++ ':' :: name.toList = category'.value.toList ++ ':' ::
    name'.toList :=
    List.append_cancel_left texts
  have value (category : InsightCategory) (name : List Char) :
      (category.value.toList ++ ':' :: name).takeWhile (fun c => c ≠ ':') =
        category.value.toList := by
    have letters : ∀ c ∈ category.value.toList, decide (c ≠ ':') = true := fun c member =>
      decide_eq_true fun colon => value_no_colon category (colon ▸ member)
    rw [List.takeWhile_append_of_pos letters]
    exact List.append_nil _
  have values := congrArg (List.takeWhile fun c => c ≠ ':') rest
  rw [value, value] at values
  obtain rfl := value_injective (String.toList_injective values)
  exact ⟨rfl, String.toList_injective (List.cons.inj (List.append_cancel_left rest)).2⟩

/-- The categories and keys of what a row gives occasion to. -/
def rowSignals (workflowOf : UUID → Option String) (fb : ExecutionFeedback) : List
    (InsightCategory × String) :=
  fb.failureTypes.map (fun k => (.topFailureType, k)) ++ (patternTypes fb).map
    (fun k => (.recurringPattern, k)) ++
    (policySignals fb).map (fun k => (.policyFriction, k)) ++
    (fallbackWorkflows workflowOf fb).map (fun k => (.modelFallback, "wf:" ++ k)) ++
    (workflowOf fb.executionId).toList.map (fun k => (.unstableWorkflow, k)) ++
    (stepNames fb).map (fun k => (.unstableStep, k))

/-- The names of the keys in the rows. -/
def keyNames (workflowOf : UUID → Option String) (feedback : List ExecutionFeedback) :
    List String :=
  (feedback.flatMap (rowSignals workflowOf)).map fun signal => insightName signal.1 signal.2

/-- Where `uuid5` tells the names of the keys in the rows apart, the identifiers tell the keys
apart. -/
theorem signal_of_uuid (apart : Set.InjOn py.uuid5 {name | name ∈ keyNames workflowOf feedback})
    {a b : InsightCategory × String} (known : a ∈ feedback.flatMap (rowSignals workflowOf))
    (known' : b ∈ feedback.flatMap (rowSignals workflowOf))
    (same : insightUuid py a.1 a.2 = insightUuid py b.1 b.2) :
    a = b := by
  have names : insightName a.1 a.2 = insightName b.1 b.2 :=
    apart (List.mem_map.mpr ⟨a, known, rfl⟩) (List.mem_map.mpr ⟨b, known', rfl⟩) same
  exact Prod.ext (insightName_injective names).1 (insightName_injective names).2

/-- Two lists whose keys are made of the names for which `P` and `Q` hold. -/
theorem sameKeys_iff {κ : Type} {f : κ → UUID × Nat × InsightSeverity} {P Q : κ → Prop}
    {a b : List InsightFields} (apart : ∀ k j, P k ∨ Q k → P j ∨ Q j → f k = f j → k = j)
    (shown : ∀ key, key ∈ a.map InsightFields.key ↔ ∃ k, P k ∧ f k = key)
    (shown' : ∀ key, key ∈ b.map InsightFields.key ↔ ∃ k, Q k ∧ f k = key) :
    SameKeys a b ↔ ∀ k, P k ↔ Q k := by
  have atP {k : κ} (known : P k ∨ Q k) : (∃ j, P j ∧ f j = f k) ↔ P k :=
    ⟨fun ⟨j, holds, same⟩ => apart j k (.inl holds) known same ▸ holds, fun holds =>
      ⟨k, holds, rfl⟩⟩
  have atQ {k : κ} (known : P k ∨ Q k) : (∃ j, Q j ∧ f j = f k) ↔ Q k :=
    ⟨fun ⟨j, holds, same⟩ => apart j k (.inr holds) known same ▸ holds, fun holds =>
      ⟨k, holds, rfl⟩⟩
  constructor
  · intro same k
    have both (known : P k ∨ Q k) : P k ↔ Q k := by
      rw [← atP known, ← atQ known, ← shown, ← shown']
      exact same (f k)
    exact ⟨fun holds => (both (.inl holds)).mp holds, fun holds => (both (.inr holds)).mpr holds⟩
  · intro same key
    rw [shown, shown']
    exact exists_congr fun k => and_congr_left fun _ => same k

/-- Tallied signals are the same in every order of the rows exactly when they are settled. -/
theorem tallied_settled_iff (category : InsightCategory) {n least : Nat} {label : String → String}
    {drafts : List ExecutionFeedback → List InsightFields}
    (apart : Set.InjOn py.uuid5 {name | name ∈ keyNames workflowOf feedback})
    (labelled : Function.Injective label)
    (signal : ∀ fb, ∀ k ∈ keys fb, (category, label k) ∈ rowSignals workflowOf fb)
    (shown : ∀ rows, rows.Perm feedback → ∀ key, key ∈ (drafts rows).map InsightFields.key ↔
      ∃ k, (Common keys rows n k ∧ least ≤ occurrences keys rows k) ∧
        signalKey py category (label k) (occurrences keys rows k) = key) :
    (∀ rows, rows.Perm feedback → SameKeys (drafts rows) (drafts feedback)) ↔
      Settled (occurrences keys feedback) keys feedback n least := by
  rw [settled_iff_shown]
  refine forall₂_congr fun rows perm => ?_
  have known : ∀ k ∈ feedback.flatMap keys, (category, label k) ∈ feedback.flatMap
    (rowSignals workflowOf) := by
    intro k member
    obtain ⟨fb, row, there⟩ := List.mem_flatMap.mp member
    exact List.mem_flatMap.mpr ⟨fb, row, signal fb k there⟩
  have shownHere := shown rows perm
  simp only [Common, occurrences_perm perm] at shownHere
  refine sameKeys_iff (fun k j some some' same => ?_) shownHere (shown feedback (.refl _))
  have member {k : String} : (Leads (occurrences keys feedback) (rows.flatMap keys) n k ∧
    least ≤ occurrences keys feedback k) ∨
      (Common keys feedback n k ∧ least ≤ occurrences keys feedback k) →
        k ∈ feedback.flatMap keys := by
    rintro (⟨leads, _⟩ | ⟨common, _⟩)
    · exact (perm.flatMap_right keys).mem_iff.mp leads.1
    · exact common.1
  have names := signal_of_uuid apart (known k (member some)) (known j (member some'))
    (Prod.ext_iff.mp same).1
  exact labelled (Prod.ext_iff.mp names).2

theorem failures_same_iff
    (apart : Set.InjOn py.uuid5 {name | name ∈ keyNames workflowOf feedback}) :
    (∀ rows, rows.Perm feedback →
    SameKeys (topFailureTypes py workflowOf rows) (topFailureTypes py workflowOf feedback)) ↔
      Settled (occurrences ExecutionFeedback.failureTypes feedback) ExecutionFeedback.failureTypes
        feedback 10 0 := by
  refine tallied_settled_iff .topFailureType apart Function.injective_id
    (fun fb k member => by simp [rowSignals, member]) fun rows _ key => ?_
  simp only [List.mem_map, mem_topFailureTypes, Nat.zero_le, and_true]
  constructor
  · rintro ⟨_, ⟨ft, common, rfl⟩, rfl⟩
    exact ⟨ft, common, rfl⟩
  · rintro ⟨ft, common, rfl⟩
    exact ⟨_, ⟨ft, common, rfl⟩, rfl⟩

theorem patterns_same_iff
    (apart : Set.InjOn py.uuid5 {name | name ∈ keyNames workflowOf feedback}) :
    (∀ rows, rows.Perm feedback →
    SameKeys (recurringPatterns py workflowOf rows) (recurringPatterns py workflowOf feedback)) ↔
      Settled (occurrences patternTypes feedback) patternTypes feedback 10 2 := by
  refine tallied_settled_iff .recurringPattern apart Function.injective_id
    (fun fb k member => by simp [rowSignals, member]) fun rows _ key => ?_
  simp only [List.mem_map, mem_recurringPatterns]
  constructor
  · rintro ⟨_, ⟨pt, common, twice, rfl⟩, rfl⟩
    exact ⟨pt, ⟨common, twice⟩, rfl⟩
  · rintro ⟨pt, ⟨common, twice⟩, rfl⟩
    exact ⟨_, ⟨pt, common, twice, rfl⟩, rfl⟩

theorem signals_same_iff (apart : Set.InjOn py.uuid5 {name | name ∈ keyNames workflowOf feedback}) :
    (∀ rows, rows.Perm feedback →
    SameKeys (policyFriction py workflowOf rows) (policyFriction py workflowOf feedback)) ↔
      Settled (occurrences policySignals feedback) policySignals feedback 8 0 := by
  refine tallied_settled_iff .policyFriction apart Function.injective_id
    (fun fb k member => by simp [rowSignals, member]) fun rows _ key => ?_
  simp only [List.mem_map, mem_policyFriction, Nat.zero_le, and_true]
  constructor
  · rintro ⟨_, ⟨signal, common, rfl⟩, rfl⟩
    exact ⟨signal, common, rfl⟩
  · rintro ⟨signal, common, rfl⟩
    exact ⟨_, ⟨signal, common, rfl⟩, rfl⟩

theorem executionsWhere_perm (perm : rows.Perm feedback) {has : ExecutionFeedback → Bool} :
    (executionsWhere rows has).length = (executionsWhere feedback has).length :=
  (((perm.filter has).map _).dedup).length_eq

theorem label_injective : Function.Injective fun wf : String => "wf:" ++ wf := fun _ _ same =>
  String.append_right_inj _ |>.mp same

theorem fallbacks_same_iff
    (apart : Set.InjOn py.uuid5 {name | name ∈ keyNames workflowOf feedback}) :
    (∀ rows, rows.Perm feedback →
    SameKeys (modelFallbackConcentration py workflowOf rows)
    (modelFallbackConcentration py workflowOf feedback)) ↔
      Settled (occurrences (fallbackWorkflows workflowOf) feedback) (fallbackWorkflows workflowOf)
        feedback 8 0 := by
  by_cases none : feedback.flatMap (fallbackWorkflows workflowOf) = []
  · refine iff_of_true (fun rows perm key => ?_) fun j known => absurd (none ▸ known)
      List.not_mem_nil
    have none' : rows.flatMap (fallbackWorkflows workflowOf) = [] :=
      (none ▸ perm.flatMap_right _).eq_nil
    have spread {rows : List ExecutionFeedback}
      (none : rows.flatMap (fallbackWorkflows workflowOf) = []) :
        key ∈ (modelFallbackConcentration py workflowOf rows).map InsightFields.key ↔
          2 ≤ (executionsWhere rows hasFallback).length ∧
            signalKey py .modelFallback "global" (executionsWhere rows hasFallback).length =
              key := by
      simp only [List.mem_map, mem_modelFallbackConcentration, none, and_true]
      constructor
      · rintro ⟨_, ⟨wf, common, _⟩ | ⟨many, rfl⟩, rfl⟩
        · exact absurd (none ▸ common.1) List.not_mem_nil
        · exact ⟨many, by rw [← @fallbackRollup_execs workflowOf]; rfl⟩
      · rintro ⟨many, rfl⟩
        exact ⟨_, .inr ⟨many, rfl⟩, by rw [← @fallbackRollup_execs workflowOf]; rfl⟩
    rw [spread none, spread none', executionsWhere_perm perm]
  · refine tallied_settled_iff .modelFallback apart label_injective
      (fun fb k member => by simp [rowSignals, member]) fun rows perm key => ?_
    have some : rows.flatMap (fallbackWorkflows workflowOf) ≠ [] :=
      fun none' => none (none' ▸ (perm.flatMap_right _).symm).eq_nil
    simp only [List.mem_map, mem_modelFallbackConcentration, some, and_false, false_and, or_false,
      Nat.zero_le, and_true]
    constructor
    · rintro ⟨_, ⟨wf, common, rfl⟩, rfl⟩
      exact ⟨wf, common, rfl⟩
    · rintro ⟨wf, common, rfl⟩
      exact ⟨_, ⟨wf, common, rfl⟩, rfl⟩

end

section
variable (py : Platform) (workflowOf : UUID → Option String)
  (statusOf : UUID → Option ExecutionStatus)
  (feedback : List ExecutionFeedback)

/-- The workflow of a row, where it is one of those that are unstable. -/
def unstableKeys (chosen : String → Bool) (fb : ExecutionFeedback) : List String :=
  (workflowOf fb.executionId).toList.filter chosen

/-- The unstable workflows. -/
def unstableNames : List String :=
  (feedback.flatMap (unstableKeys workflowOf fun wf => Unstable py workflowOf statusOf
    feedback wf)).dedup

variable {py workflowOf statusOf feedback} {rows : List ExecutionFeedback} {n : Nat}
  {key : UUID × Nat × InsightSeverity}

theorem rowsOfWorkflow_perm (perm : rows.Perm feedback) {wf : String} :
    (rowsOfWorkflow workflowOf rows wf).Perm (rowsOfWorkflow workflowOf feedback wf) :=
  perm.filter _

theorem unstable_perm (perm : rows.Perm feedback) :
    Unstable py workflowOf statusOf rows = Unstable py workflowOf statusOf feedback := by
  funext wf
  have same := @rowsOfWorkflow_perm workflowOf feedback rows perm wf
  simp only [Unstable, isUnstable, same.length_eq, same.countP_eq]

theorem wfFeedback_names : (wfFeedback workflowOf feedback).map Prod.fst =
    distinct (feedback.flatMap fun fb => (workflowOf fb.executionId).toList) := by
  rw [wfFeedback_eq]
  refine Grouped.keys_gather.trans (congrArg distinct ?_)
  rw [List.map_filterMap, ← List.filterMap_eq_flatMap_toList]
  congr 1
  funext fb
  cases workflowOf fb.executionId with
  | none => rfl
  | some wf => rfl

theorem unstableEntries_names :
    ((wfFeedback workflowOf feedback).filter (isUnstable py statusOf)).map Prod.fst =
    distinct (feedback.flatMap (unstableKeys workflowOf fun wf => Unstable py workflowOf statusOf
      feedback wf)) := by
  have byName : (wfFeedback workflowOf feedback).filter (isUnstable py statusOf) =
      (wfFeedback workflowOf feedback).filter fun e => decide
        (Unstable py workflowOf statusOf feedback e.1) := by
    refine List.filter_congr fun e member => ?_
    obtain ⟨wf, rows⟩ := e
    obtain ⟨_, rfl⟩ := mem_wfFeedback.mp member
    exact Bool.decide_eq_true.symm
  have whole : feedback.flatMap (unstableKeys workflowOf fun wf => Unstable py workflowOf statusOf
    feedback wf) =
      (feedback.flatMap fun fb => (workflowOf fb.executionId).toList).filter fun wf => Unstable py
        workflowOf statusOf feedback wf :=
    List.filter_flatMap.symm
  rw [byName, whole, ← distinct_filter, ← wfFeedback_names, List.filter_map]
  rfl

theorem unstableWorkflows_length :
    (unstableWorkflows py workflowOf feedback statusOf).length =
      (unstableNames py workflowOf statusOf feedback).length := by
  rw [unstableWorkflows, List.length_map, unstableNames, ← length_distinct, ← unstableEntries_names,
    List.length_map]

/-- The unstable workflows that are shown. -/
theorem mem_take_workflows : key ∈ ((unstableWorkflows py workflowOf feedback statusOf).take n).map
    InsightFields.key ↔
    ∃ wf, Leads (fun _ => 0)
    (feedback.flatMap (unstableKeys workflowOf fun wf => Unstable py workflowOf statusOf
      feedback wf)) n wf ∧
      signalKey py .unstableWorkflow wf (rowsOfWorkflow workflowOf feedback wf).length = key := by
  have first (e : String × List ExecutionFeedback) : e ∈ ((wfFeedback workflowOf feedback).filter
    (isUnstable py statusOf)).take n ↔
      e ∈ (wfFeedback workflowOf feedback).filter (isUnstable py statusOf) ∧ Leads (fun _ => 0)
        (feedback.flatMap (unstableKeys workflowOf fun wf => Unstable py workflowOf statusOf
          feedback wf)) n e.1 := by
    have sorted : sortOn (fun _ => OrderDual.toDual 0) ((wfFeedback workflowOf feedback).filter
      (isUnstable py statusOf)) =
        (wfFeedback workflowOf feedback).filter (isUnstable py statusOf) :=
      sortOn_of_ordered (List.pairwise_of_forall fun _ _ => le_rfl)
    have named := @mem_take_named _ _ (fun _ => 0) _ n _ Prod.fst (fun _ => OrderDual.toDual 0) _ e
      (@unstableEntries_names py workflowOf statusOf feedback) fun _ _ => rfl
    rwa [sorted] at named
  rw [unstableWorkflows, ← List.map_take, List.map_map, List.mem_map]
  simp only [first]
  constructor
  · rintro ⟨⟨wf, rows⟩, ⟨member, leads⟩, rfl⟩
    obtain ⟨_, rfl⟩ := mem_wfFeedback.mp (List.mem_of_mem_filter member)
    exact ⟨wf, leads, rfl⟩
  · rintro ⟨wf, leads, rfl⟩
    have known : wf ∈ ((wfFeedback workflowOf feedback).filter (isUnstable py statusOf)).map
      Prod.fst := by
      rw [unstableEntries_names, mem_distinct]
      exact leads.1
    obtain ⟨⟨wf, rows⟩, member, rfl⟩ := List.mem_map.mp known
    obtain ⟨_, rfl⟩ := mem_wfFeedback.mp (List.mem_of_mem_filter member)
    exact ⟨_, ⟨member, leads⟩, rfl⟩

/-- The steps that are shown. -/
theorem mem_take_topSteps {wfByExec : UUID → Option String} (few : n ≤ 8) :
    key ∈ (((topSteps feedback).map (stepInsight py wfByExec)).take n).map InsightFields.key ↔
      ∃ sid, (Leads (stepRuns feedback) (feedback.flatMap stepNames) n sid ∧
        2 ≤ stepRuns feedback sid) ∧
        signalKey py .unstableStep sid (stepRuns feedback sid) = key := by
  have cut : (topSteps feedback).take n =
      ((sortOn (fun entry : String × List UUID => OrderDual.toDual entry.2.length)
        (stepExecs feedback)).take n).filter
        fun entry => 2 ≤ entry.2.length := by
    have ordered :=
      (@sortOn_ordered _ _ _ (fun entry : String × List UUID => OrderDual.toDual entry.2.length)
      (stepExecs feedback)).sublist (List.take_sublist 8 _)
    rw [topSteps, take_filter (ordered.imp fun more many => decide_eq_true
      ((of_decide_eq_true many).trans more)), List.take_take, min_eq_left few]
  rw [← List.map_take, cut, List.map_map, List.mem_map]
  simp only [List.mem_filter, mem_take_steps, decide_eq_true_eq]
  constructor
  · rintro ⟨⟨sid, ids⟩, ⟨⟨entry, leads⟩, twice⟩, rfl⟩
    have size : ids.length = stepRuns feedback sid := stepExecs_length entry
    exact ⟨sid, ⟨leads, size ▸ twice⟩, by rw [← size]; rfl⟩
  · rintro ⟨sid, ⟨leads, twice⟩, rfl⟩
    have entry : (sid, distinct (((naming stepNames feedback).filter fun e => e.1 = sid).map
      Prod.snd)) ∈ stepExecs feedback :=
      mem_stepExecs.mpr ⟨leads.1, rfl⟩
    have size := stepExecs_length entry
    refine ⟨_, ⟨⟨entry, leads⟩, size ▸ twice⟩, ?_⟩
    rw [← size]
    rfl

theorem stepRuns_perm (perm : rows.Perm feedback) : stepRuns rows = stepRuns feedback := by
  funext sid
  exact executionsWhere_perm perm

theorem unstableNames_perm (perm : rows.Perm feedback) :
    (unstableNames py workflowOf statusOf rows).length =
      (unstableNames py workflowOf statusOf feedback).length := by
  simp only [unstableNames, unstable_perm perm]
  exact (perm.flatMap_right _).dedup.length_eq

end

section
variable {py : Platform} {inp : MuktiCrossExecutionInput}

/-- What is shown of an unstable workflow or step. -/
def unstableKey (py : Platform) (inp : MuktiCrossExecutionInput)
    (entry : InsightCategory × String) : UUID × Nat × InsightSeverity :=
  signalKey py entry.1 entry.2 (if entry.1 = .unstableWorkflow then
    (rowsOfWorkflow (workflowOf inp) inp.executionFeedback entry.2).length
    else stepRuns inp.executionFeedback entry.2)

/-- One of the workflows that are shown. -/
structure ShownWorkflow (py : Platform) (inp : MuktiCrossExecutionInput) (wf : String) : Prop where
  leads : Leads (fun _ => 0) (inp.executionFeedback.flatMap
    (unstableKeys (workflowOf inp) fun wf => Unstable py (workflowOf inp) (statusOf inp)
      inp.executionFeedback wf)) 8 wf

/-- One of the steps for which the workflows leave room. -/
structure ShownStep (py : Platform) (inp : MuktiCrossExecutionInput) (sid : String) : Prop where
  leads : Leads (stepRuns inp.executionFeedback) (inp.executionFeedback.flatMap stepNames)
    (8 - (unstableNames py (workflowOf inp) (statusOf inp) inp.executionFeedback).length) sid
  twice : 2 ≤ stepRuns inp.executionFeedback sid

theorem mem_take_unstable {key : UUID × Nat × InsightSeverity} :
    key ∈ ((unstable py inp).take 8).map InsightFields.key ↔
    ∃ entry : InsightCategory × String, (entry.1 = .unstableWorkflow ∧
      ShownWorkflow py inp entry.2 ∨
      entry.1 = .unstableStep ∧ ShownStep py inp entry.2) ∧ unstableKey py inp entry = key := by
  rw [unstable, List.take_append, List.map_append, List.mem_append, mem_take_workflows,
    unstableWorkflows_length, mem_take_topSteps (Nat.sub_le 8 _)]
  constructor
  · rintro (⟨wf, leads, rfl⟩ | ⟨sid, ⟨leads, twice⟩, rfl⟩)
    · exact ⟨(.unstableWorkflow, wf), .inl ⟨rfl, ⟨leads⟩⟩, rfl⟩
    · exact ⟨(.unstableStep, sid), .inr ⟨rfl, ⟨leads, twice⟩⟩, rfl⟩
  · rintro ⟨⟨_, k⟩, ⟨rfl, shown⟩ | ⟨rfl, shown⟩, rfl⟩
    · exact .inl ⟨k, shown.leads, rfl⟩
    · exact .inr ⟨k, ⟨shown.leads, shown.twice⟩, rfl⟩

theorem shownWorkflow_iff {rows : List ExecutionFeedback} (perm : rows.Perm inp.executionFeedback)
    {wf : String} :
    ShownWorkflow py (inp.inOrder rows) wf ↔ Leads (fun _ => 0) (rows.flatMap
      (unstableKeys (workflowOf inp) fun wf => Unstable py (workflowOf inp) (statusOf inp)
        inp.executionFeedback wf)) 8 wf := by
  simp only [← unstable_perm perm]
  exact ⟨fun shown => shown.leads, fun leads => ⟨leads⟩⟩

theorem shownStep_iff {rows : List ExecutionFeedback} (perm : rows.Perm inp.executionFeedback)
    {sid : String} :
    ShownStep py (inp.inOrder rows) sid ↔ Leads (stepRuns inp.executionFeedback)
    (rows.flatMap stepNames)
      (8 - (unstableNames py (workflowOf inp) (statusOf inp) inp.executionFeedback).length) sid ∧
        2 ≤ stepRuns inp.executionFeedback sid := by
  rw [← unstableNames_perm perm, ← stepRuns_perm perm]
  exact ⟨fun shown => ⟨shown.leads, shown.twice⟩, fun ⟨leads, twice⟩ => ⟨leads, twice⟩⟩

theorem unstable_same_iff
    (apart : Set.InjOn py.uuid5 {name | name ∈ keyNames (workflowOf inp) inp.executionFeedback}) :
    (∀ rows, rows.Perm inp.executionFeedback → SameKeys ((unstable py (inp.inOrder rows)).take 8)
      ((unstable py inp).take 8)) ↔
      (unstableNames py (workflowOf inp) (statusOf inp) inp.executionFeedback).length ≤ 8 ∧
      Settled (stepRuns inp.executionFeedback) stepNames inp.executionFeedback
        (8 - (unstableNames py (workflowOf inp) (statusOf inp) inp.executionFeedback).length)
          2 := by
  have single : ∀ fb, (unstableKeys (workflowOf inp)
      (fun wf => Unstable py (workflowOf inp) (statusOf inp) inp.executionFeedback wf) fb).length ≤
        1 := fun fb =>
    (List.length_filter_le _ _).trans Option.length_toList_le
  have known : ∀ rows, rows.Perm inp.executionFeedback → ∀ entry : InsightCategory × String,
      (entry.1 = .unstableWorkflow ∧ ShownWorkflow py (inp.inOrder rows) entry.2 ∨
        entry.1 = .unstableStep ∧ ShownStep py (inp.inOrder rows) entry.2) →
      entry ∈ inp.executionFeedback.flatMap (rowSignals (workflowOf inp)) := by
    rintro rows perm ⟨_, k⟩ (⟨rfl, shown⟩ | ⟨rfl, shown⟩)
    · obtain ⟨fb, row, there⟩ := List.mem_flatMap.mp ((shownWorkflow_iff perm).mp shown).1
      exact List.mem_flatMap.mpr ⟨fb, perm.mem_iff.mp
        row, by simp [rowSignals, Option.mem_toList.mp (List.mem_of_mem_filter there)]⟩
    · obtain ⟨fb, row, there⟩ := List.mem_flatMap.mp ((shownStep_iff perm).mp shown).1.1
      exact List.mem_flatMap.mpr ⟨fb, perm.mem_iff.mp row, by simp [rowSignals, there]⟩
  have exchanged : ∀ rows, rows.Perm inp.executionFeedback →
      (SameKeys ((unstable py (inp.inOrder rows)).take 8) ((unstable py inp).take 8) ↔
        (∀ wf, ShownWorkflow py (inp.inOrder rows) wf ↔ ShownWorkflow py inp wf) ∧
          ∀ sid, ShownStep py (inp.inOrder rows) sid ↔ ShownStep py inp sid) := by
    intro rows perm
    have keysSame : unstableKey py (inp.inOrder rows) = unstableKey py inp := by
      funext entry
      have workflow : (rowsOfWorkflow (workflowOf inp) rows entry.2).length =
          (rowsOfWorkflow (workflowOf inp) inp.executionFeedback entry.2).length :=
            (rowsOfWorkflow_perm perm).length_eq
      have steps : stepRuns rows entry.2 = stepRuns inp.executionFeedback entry.2 :=
        congrFun (stepRuns_perm perm) _
      exact congrArg (signalKey py entry.1 entry.2) (congrArg₂ (ite _) workflow steps)
    have injective : ∀ a b : InsightCategory × String, a ∈ inp.executionFeedback.flatMap
      (rowSignals (workflowOf inp)) →
        b ∈ inp.executionFeedback.flatMap (rowSignals (workflowOf inp)) → unstableKey py inp a =
          unstableKey py inp b → a = b :=
      fun a b listed listed' same => signal_of_uuid apart listed listed' (Prod.ext_iff.mp same).1
    have own : ∀ entry : InsightCategory × String, (entry.1 = .unstableWorkflow ∧
      ShownWorkflow py inp entry.2 ∨
        entry.1 = .unstableStep ∧ ShownStep py inp entry.2) →
        entry ∈ inp.executionFeedback.flatMap (rowSignals (workflowOf inp)) := known _ (.refl _)
    refine (sameKeys_iff (fun a b some some' => injective a b
      (some.elim (known rows perm a) (own a))
      (some'.elim (known rows perm b) (own b))) (fun key => keysSame ▸ mem_take_unstable)
      fun key => mem_take_unstable).trans ?_
    constructor
    · intro same
      refine ⟨fun wf => ?_, fun sid => ?_⟩
      · simpa using same (.unstableWorkflow, wf)
      · simpa using same (.unstableStep, sid)
    · rintro ⟨workflows, steps⟩ ⟨category, k⟩
      exact or_congr (and_congr_right fun _ => workflows k) (and_congr_right fun _ => steps k)
  have workflows : (∀ rows, rows.Perm inp.executionFeedback → ∀ wf, ShownWorkflow py
    (inp.inOrder rows) wf ↔ ShownWorkflow py inp wf) ↔
      (unstableNames py (workflowOf inp) (statusOf inp) inp.executionFeedback).length ≤ 8 := by
    rw [unstableNames, ← settled_singles_iff (c := 0) single (by decide), settled_iff_shown]
    simp only [Nat.zero_le, and_true]
    refine forall₂_congr fun rows perm => forall_congr' fun wf => ?_
    rw [shownWorkflow_iff perm]
    exact iff_congr Iff.rfl (shownWorkflow_iff (.refl _))
  have steps : (∀ rows, rows.Perm inp.executionFeedback → ∀ sid, ShownStep py (inp.inOrder rows)
    sid ↔ ShownStep py inp sid) ↔
      Settled (stepRuns inp.executionFeedback) stepNames inp.executionFeedback
        (8 - (unstableNames py (workflowOf inp) (statusOf inp) inp.executionFeedback).length)
          2 := by
    rw [settled_iff_shown]
    refine forall₂_congr fun rows perm => forall_congr' fun sid => ?_
    rw [shownStep_iff perm]
    exact iff_congr Iff.rfl (shownStep_iff (.refl _))
  rw [← workflows, ← steps, ← forall₂_and]
  exact forall₂_congr exchanged

end

section
variable {workflowOf : UUID → Option String} {feedback rows : List ExecutionFeedback}
  {k : SuggestionName} {n : Nat}

theorem timesMade_perm (perm : rows.Perm feedback) : timesMade rows = timesMade feedback := by
  funext k
  exact (perm.flatMap_right suggestionNames).count_eq k

/-- The pairs are ranked by what is known of all rows. -/
theorem rankedKeys_perm (perm : rows.Perm feedback) : rankedKeys rows = rankedKeys feedback := by
  have keySame : rankKey (bucket rows) = rankKey (bucket feedback) := by
    funext k
    rw [rankKey, rankKey, bucket_length, bucket_length, timesMade_perm perm]
  have pairs : (bucket rows).keys.Perm (bucket feedback).keys :=
    bucket_keys.trans ((perm.flatMap_right suggestionNames).dedup.trans bucket_keys.symm)
  have distinctKeys : ((bucket rows).keys.map (rankKey (bucket feedback))).Nodup :=
    (bucket_keys.nodup_iff.mpr (List.nodup_dedup _)).map rankKey_injective
  rw [rankedKeys, rankedKeys, keySame]
  exact congrArg (List.take 15) (sortOn_eq_of_perm distinctKeys pairs)

/-- The executions that make a suggestion, in the order in which they are listed. -/
def makersListed (feedback : List ExecutionFeedback) (k : SuggestionName) : List UUID :=
  distinct (((bucket feedback).get? k).getD [])

theorem mentions_perm (perm : rows.Perm feedback) : (mentions rows).Perm (mentions feedback) :=
  perm.flatMap_right _

theorem makersListed_perm (perm : rows.Perm feedback) : (makersListed rows k).Perm
    (makersListed feedback k) := by
  rw [makersListed, makersListed, get?_bucket, get?_bucket]
  exact distinct_perm fun id => (((mentions_perm perm).filter _).map _).mem_iff

/-- The execution of the first row that makes a suggestion is listed first. -/
theorem head?_makersListed {fb : ExecutionFeedback} (makes : k ∈ suggestionNames fb) :
    (makersListed (fb :: rows) k).head? = some fb.executionId := by
  have first : (k, fb.executionId) ∈ ((suggestionNames fb).map fun k => (k, fb.executionId)).filter
    fun e => e.1 = k :=
    List.mem_filter.mpr ⟨List.mem_map_of_mem makes, decide_eq_true rfl⟩
  rw [makersListed, head?_distinct, get?_bucket, mentions, naming, List.flatMap_cons,
    List.filter_append, List.map_append, List.head?_append]
  cases listed : ((suggestionNames fb).map fun k => (k, fb.executionId)).filter
    fun e => e.1 = k with
  | nil => exact absurd (listed ▸ first) List.not_mem_nil
  | cons e rest =>
      have here : e ∈ (suggestionNames fb).map fun k => (k, fb.executionId) :=
        List.mem_of_mem_filter (listed ▸ List.mem_cons_self : e ∈ List.filter _ _)
      obtain ⟨_, _, rfl⟩ := List.mem_map.mp here
      rfl

theorem mem_makersListed {id : UUID} : id ∈ makersListed feedback k ↔
    ∃ fb ∈ feedback, k ∈ suggestionNames fb ∧ fb.executionId = id := by
  rw [makersListed, mem_distinct, get?_bucket]
  simp only [mentions, naming, List.mem_map, List.mem_filter, List.mem_flatMap, decide_eq_true_eq]
  constructor
  · rintro ⟨_, ⟨⟨fb, member, _, makes, rfl⟩, rfl⟩, rfl⟩
    exact ⟨fb, member, makes, rfl⟩
  · rintro ⟨fb, member, makes, rfl⟩
    exact ⟨_, ⟨⟨fb, member, k, makes, rfl⟩, rfl⟩, rfl⟩

/-- What a set of texts is listed as does not depend on the order in which it was made. -/
theorem firstSorted_perm {names names' : List String} (nodup : names.Nodup)
    (perm : names.Perm names') :
    firstSorted n names = firstSorted n names' :=
  congrArg (List.take n) (@sortOn_eq_of_perm String String _ id names names'
    (by rwa [List.map_id]) perm)

theorem wfBucket_eq : wfBucket workflowOf feedback = Grouped.gather []
    (fun names wf => insertNew wf names)
    (feedback.flatMap fun fb => (workflowOf fb.executionId).toList.flatMap fun wf =>
      (suggestionNames fb).map fun k => (k, wf)) := by
  rw [wfBucket, Grouped.gather, List.foldl_flatMap]
  congr 1
  funext groups fb
  cases workflowOf fb.executionId with
  | none => rfl
  | some wf => rw [Option.toList_some, List.flatMap_singleton, List.foldl_map]

theorem workflowsListed_perm (perm : rows.Perm feedback) : firstSorted n
    (((wfBucket workflowOf rows).get? k).getD []) =
    firstSorted n (((wfBucket workflowOf feedback).get? k).getD []) := by
  rw [wfBucket_eq, wfBucket_eq, Grouped.get?_gather, Grouped.get?_gather]
  exact firstSorted_perm nodup_distinct
    (distinct_perm fun wf => (((perm.flatMap_right _).filter _).map _).mem_iff)

theorem suggestionAt_same_iff (perm : rows.Perm feedback) :
    suggestionAt workflowOf rows k n = suggestionAt workflowOf feedback k n ↔
    (makersListed rows k).take 200 = (makersListed feedback k).take 200 := by
  refine ⟨congrArg SuggestionFields.relatedExecutionIds, fun related => ?_⟩
  have count : (makersListed rows k).length = (makersListed feedback k).length :=
    (makersListed_perm perm).length_eq
  have workflows := @workflowsListed_perm workflowOf feedback rows k 32 perm
  unfold makersListed at related count
  simp only [suggestionAt, related, count, workflows]

theorem ranked_same_iff : (∀ rows, rows.Perm feedback → rankedSuggestions workflowOf rows =
      rankedSuggestions workflowOf feedback) ↔
    ∀ k ∈ suggestionPairs feedback, ((suggestionPairs feedback).filter fun k' => MadeBefore feedback
      k' k).length < 15 →
      makers feedback k ≤ 1 := by
  have listed : ∀ rows, rows.Perm feedback →
    (rankedSuggestions workflowOf rows = rankedSuggestions workflowOf feedback ↔
      ∀ k ∈ rankedKeys feedback, (makersListed rows k).take 200 =
        (makersListed feedback k).take 200) := by
    intro rows perm
    rw [rankedSuggestions, rankedSuggestions, rankedKeys_perm perm, List.map_inj_left]
    simp only [suggestionAt_same_iff perm]
    rw [← List.forall_mem_map (f := Prod.fst) (P := fun k => (makersListed rows k).take 200 =
      (makersListed feedback k).take 200), List.zipIdx_map_fst]
  constructor
  · intro same k known few
    by_contra many
    have member : k ∈ rankedKeys feedback := mem_rankedKeys.mpr ⟨known, few⟩
    have count : (makersListed feedback k).length = makers feedback k := distinct_bucket_length
    have nodup : (makersListed feedback k).Nodup := nodup_distinct
    obtain ⟨e, e', rest, order⟩ : ∃ e e' rest, makersListed feedback k = e :: e' :: rest := by
      rcases listing : makersListed feedback k with _ | ⟨e, _ | ⟨e', rest⟩⟩
      · exact absurd (count ▸ listing ▸ Nat.zero_le 1) many
      · exact absurd (count ▸ listing ▸ Nat.le_refl 1) many
      · exact ⟨e, e', rest, rfl⟩
    -- the row of the second execution goes in front
    obtain ⟨fb, row, makes, rfl⟩ := mem_makersListed.mp
      (order ▸ List.mem_cons_of_mem e List.mem_cons_self : e' ∈ makersListed feedback k)
    obtain ⟨before, after, rfl⟩ := List.append_of_mem row
    have perm : (fb :: (before ++ after)).Perm (before ++ fb :: after) := List.perm_middle.symm
    have heads := congrArg List.head? ((listed _ perm).mp (same _ perm) k member)
    rw [List.head?_take, List.head?_take, if_neg (by decide), if_neg (by decide),
      head?_makersListed makes, order, List.head?_cons, Option.some_inj] at heads
    rw [order] at nodup
    exact (List.nodup_cons.mp nodup).1 (heads ▸ List.mem_cons_self)
  · intro alone rows perm
    refine (listed rows perm).mpr fun k member => ?_
    obtain ⟨known, few⟩ := mem_rankedKeys.mp member
    have one : (makersListed feedback k).length ≤ 1 := distinct_bucket_length.trans_le
      (alone k known few)
    have permuted := @makersListed_perm feedback rows k perm
    rcases listing : makersListed feedback k with _ | ⟨e, _ | ⟨e', rest⟩⟩
    · rw [listing] at permuted
      rw [permuted.eq_nil]
    · rw [listing] at permuted
      rw [List.perm_singleton.mp permuted]
    · rw [listing] at one
      exact absurd one (by simp)

end

/-- At every limit what is shown and what is not differ in their counts or follow each other in
every row, there is room for all unstable workflows, and no ranked suggestion has two executions to
list. -/
structure OrderSettled (py : Platform) (inp : MuktiCrossExecutionInput) : Prop where
  failureTypes : Settled (occurrences ExecutionFeedback.failureTypes inp.executionFeedback)
    ExecutionFeedback.failureTypes
    inp.executionFeedback 10 0
  patterns : Settled (occurrences patternTypes inp.executionFeedback) patternTypes
    inp.executionFeedback 10 2
  signals : Settled (occurrences policySignals inp.executionFeedback) policySignals
    inp.executionFeedback 8 0
  fallbacks : Settled (occurrences (fallbackWorkflows (workflowOf inp)) inp.executionFeedback)
    (fallbackWorkflows (workflowOf inp))
    inp.executionFeedback 8 0
  workflows : (unstableNames py (workflowOf inp) (statusOf inp) inp.executionFeedback).length ≤ 8
  steps : Settled (stepRuns inp.executionFeedback) stepNames inp.executionFeedback
    (8 - (unstableNames py (workflowOf inp) (statusOf inp) inp.executionFeedback).length) 2
  suggestions : ∀ k ∈ suggestionPairs inp.executionFeedback,
    ((suggestionPairs inp.executionFeedback).filter fun k' => MadeBefore inp.executionFeedback k'
      k).length < 15 →
      makers inp.executionFeedback k ≤ 1

theorem sameDrafts_iff_settled {py : Platform} {inp : MuktiCrossExecutionInput}
    (apart : Set.InjOn py.uuid5 {name | name ∈ keyNames (workflowOf inp) inp.executionFeedback}) :
    (∀ rows, rows.Perm inp.executionFeedback → SameDrafts py inp rows) ↔ OrderSettled py inp := by
  constructor
  · intro same
    obtain ⟨workflows, steps⟩ := (unstable_same_iff apart).mp fun rows perm =>
      (same rows perm).unstable
    exact ⟨(failures_same_iff apart).mp fun rows perm => (same rows perm).failures,
      (patterns_same_iff apart).mp fun rows perm => (same rows perm).patterns,
      (signals_same_iff apart).mp fun rows perm => (same rows perm).signals,
      (fallbacks_same_iff apart).mp fun rows perm => (same rows perm).fallbacks, workflows, steps,
      ranked_same_iff.mp fun rows perm => (same rows perm).ranked⟩
  · intro settled rows perm
    exact ⟨(failures_same_iff apart).mpr settled.failureTypes rows perm,
      (patterns_same_iff apart).mpr settled.patterns rows perm, (signals_same_iff apart).mpr
        settled.signals rows perm, (fallbacks_same_iff apart).mpr settled.fallbacks rows perm,
      (unstable_same_iff apart).mpr ⟨settled.workflows, settled.steps⟩ rows perm,
      ranked_same_iff.mpr settled.suggestions rows perm⟩

/-- The summary is the same in every order of the rows exactly when every order can be summarized
and the limits are settled. -/
theorem order_free_iff (py : Platform) (inp : MuktiCrossExecutionInput)
    (apart : Set.InjOn py.uuid5 {name | name ∈ keyNames (workflowOf inp) inp.executionFeedback}) :
    OrderFree py inp ↔
      (∀ rows, rows.Perm inp.executionFeedback → WithinBounds py (inp.inOrder rows)) ∧
        OrderSettled py inp := by
  rw [orderFree_iff_drafts, sameDrafts_iff_settled apart]

/-- A number for every text. -/
def textNumber (s : String) : Nat := Nat.ofDigits 1114113 (s.toList.map fun c => c.toNat + 1)

/-- A platform whose identifiers are the numbers of the names, in 128 bits. -/
def numberingPlatform : Platform :=
  { plainPlatform with uuid5 := fun name => ⟨textNumber name % 2 ^ 128⟩ }

/-- The feedback row of an execution with failure types. -/
def failing (n : Nat) (failureTypes : List String) : ExecutionFeedback :=
  { advised n [] with failureTypes := failureTypes }

/-- Two executions that fail in two ways. -/
def twoFailures : MuktiCrossExecutionInput :=
  ⟨[failing 1 ["step_failure"], failing 2 ["terminal_failed"]], []⟩

theorem order_free_two : OrderFree numberingPlatform twoFailures := by
  have apart : Set.InjOn numberingPlatform.uuid5
      {name | name ∈ keyNames (workflowOf twoFailures) twoFailures.executionFeedback} := by
    have pairs : ∀ a ∈ keyNames (workflowOf twoFailures) twoFailures.executionFeedback,
        ∀ b ∈ keyNames (workflowOf twoFailures) twoFailures.executionFeedback,
        numberingPlatform.uuid5 a = numberingPlatform.uuid5 b → a = b := by
      decide +kernel
    exact fun a known b known' => pairs a known b known'
  refine (order_free_iff numberingPlatform twoFailures apart).mpr ⟨fun rows perm => ?_, ?_⟩
  · have orders : rows = [failing 1 ["step_failure"], failing 2 ["terminal_failed"]] ∨
        rows = [failing 2 ["terminal_failed"], failing 1 ["step_failure"]] := by
      simpa [twoFailures, List.permutations, List.permutationsAux, List.permutationsAux.rec]
        using List.mem_permutations.mpr perm
    rcases orders with rfl | rfl
    · exact allFit_iff.mp
        ⟨by decide +kernel, by decide +kernel, by decide +kernel, by decide +kernel, by
            decide +kernel,
        by decide +kernel⟩
    · exact allFit_iff.mp
        ⟨by decide +kernel, by decide +kernel, by decide +kernel, by decide +kernel, by
            decide +kernel,
        by decide +kernel⟩
  · exact ⟨by decide +kernel, by decide +kernel, by decide +kernel, by decide +kernel, by
        decide +kernel, by decide +kernel,
      by decide +kernel⟩

/-- Ten failure types in one row and an eleventh in another. -/
def elevenFailures : MuktiCrossExecutionInput :=
  ⟨[failing 1 ["a", "b", "c", "d", "e", "f", "g", "h", "i", "j"], failing 2 ["k"]], []⟩

/-- The eleventh failure type is shown only where its row comes first. -/
theorem order_free_eleven : ¬ OrderFree numberingPlatform elevenFailures := by
  intro free
  obtain ⟨s, s', answer, answer', same⟩ := free elevenFailures.executionFeedback.reverse
    (List.reverse_perm _)
  have failures := ((sameSummary_iff answer answer').mp same).failures
  have last := (failures (signalKey numberingPlatform .topFailureType "k" 1)).mp (by decide +kernel)
  exact absurd last (by decide +kernel)

end AgenticPlatform
