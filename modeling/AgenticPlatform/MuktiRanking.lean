import AgenticPlatform.MuktiRollup
import Mathlib.Data.Prod.Lex

/-! The ranked suggestions: sorted by how often they are made, and shown with the number of the
executions that make them. -/
namespace AgenticPlatform
open Counting CrossExecutionAnalyzer Ranking

/-- The suggestions, each with the execution that makes it. -/
def mentions (feedback : List ExecutionFeedback) : List (SuggestionName × UUID) :=
  naming suggestionNames feedback

/-- The distinct pairs of category and summary. -/
def suggestionPairs (feedback : List ExecutionFeedback) : List SuggestionName :=
  (feedback.flatMap suggestionNames).dedup

/-- How often a suggestion is made. -/
def timesMade (feedback : List ExecutionFeedback) (k : SuggestionName) : Nat :=
  (feedback.flatMap suggestionNames).count k

/-- The number of the distinct executions that make it. -/
def makers (feedback : List ExecutionFeedback) (k : SuggestionName) : Nat :=
  (executionsNaming suggestionNames feedback k).length

/-- Made more often, or as often and first in the alphabet. -/
def MadeBefore (feedback : List ExecutionFeedback) (k k' : SuggestionName) : Prop :=
  timesMade feedback k' < timesMade feedback k ∨ timesMade feedback k' = timesMade feedback k ∧
    toLex k < toLex k'

instance (feedback : List ExecutionFeedback) : DecidableRel (MadeBefore feedback) :=
  fun _ _ => inferInstanceAs (Decidable (_ ∨ _))

section
variable {feedback : List ExecutionFeedback} {k k' : SuggestionName}

theorem bucket_eq : bucket feedback = Grouped.gather [] (fun ids id => ids ++ [id])
    (mentions feedback) := by
  rw [bucket, Grouped.gather, mentions, naming, List.foldl_flatMap]
  simp only [List.foldl_map]

theorem get?_bucket : ((bucket feedback).get? k).getD
    [] = ((mentions feedback).filter fun e => e.1 = k).map Prod.snd := by
  rw [bucket_eq, Grouped.get?_gather, foldl_append_singleton, List.nil_append]

theorem mentions_names : (mentions feedback).map Prod.fst = feedback.flatMap suggestionNames :=
  naming_names

theorem bucket_length : (((bucket feedback).get? k).getD []).length = timesMade feedback k := by
  rw [get?_bucket, List.length_map, ← List.countP_eq_length_filter, timesMade, ← mentions_names,
    List.count, List.countP_map]
  exact List.countP_congr fun e _ => by simp

theorem bucket_keys : (bucket feedback).keys.Perm (suggestionPairs feedback) := by
  rw [bucket_eq, Grouped.keys_gather, mentions_names]
  refine (List.perm_ext_iff_of_nodup nodup_distinct (List.nodup_dedup _)).mpr fun k => ?_
  rw [mem_distinct, List.mem_dedup]

/-- The executions of a suggestion are those that make it. -/
theorem distinct_bucket_length : (distinct (((bucket feedback).get? k).getD [])).length =
    makers feedback k := by
  rw [get?_bucket]
  exact naming_executions

theorem rankKey_lt_iff : rankKey (bucket feedback) k < rankKey (bucket feedback) k' ↔
    MadeBefore feedback k k' := by
  rw [rankKey, rankKey, bucket_length, bucket_length, Prod.Lex.toLex_lt_toLex,
    OrderDual.toDual_lt_toDual, OrderDual.toDual_inj, MadeBefore]
  exact or_congr_right (and_congr_left fun _ => eq_comm)

theorem madeBefore_asymm (first : MadeBefore feedback k k') :
    ¬ MadeBefore feedback k' k := fun back =>
  lt_asymm (rankKey_lt_iff.mpr first) (rankKey_lt_iff.mpr back)

theorem madeBefore_irrefl : ¬ MadeBefore feedback k k :=
  fun before => madeBefore_asymm before before

theorem rankKey_injective : Function.Injective (rankKey (bucket feedback)) := by
  intro k k' same
  exact toLex_inj.mp (Prod.ext_iff.mp (toLex_inj.mp same)).2

/-- The pairs in the order in which they are ranked. -/
def rankedPairs (feedback : List ExecutionFeedback) : List SuggestionName :=
  sortOn (rankKey (bucket feedback)) (bucket feedback).keys

theorem rankedPairs_perm : (rankedPairs feedback).Perm (suggestionPairs feedback) :=
  sortOn_perm.trans bucket_keys

theorem rankedPairs_ordered : (rankedPairs feedback).Pairwise (MadeBefore feedback) := by
  have distinctPairs : (rankedPairs feedback).Nodup := rankedPairs_perm.nodup_iff.mpr
    (List.nodup_dedup _)
  refine (distinctPairs.and (@sortOn_ordered _ _ _ (rankKey (bucket feedback)) _)).imp ?_
  rintro k k' ⟨apart, le⟩
  exact rankKey_lt_iff.mp (lt_of_le_of_ne le fun same => apart (rankKey_injective same))

theorem mem_rankedKeys : k ∈ rankedKeys feedback ↔
    k ∈ suggestionPairs feedback ∧ ((suggestionPairs feedback).filter fun k' => MadeBefore feedback
      k' k).length < 15 := by
  rw [← rankedPairs_perm.mem_iff, ← (rankedPairs_perm.filter _).length_eq]
  exact mem_take_iff rankedPairs_ordered (fun _ => madeBefore_irrefl) fun _ _ => madeBefore_asymm

end

/-- Ranked from one on, by the number of the executions, and nothing is left out that more
executions make. -/
structure RankedByEvidence (listed : List SuggestionFields) (feedback : List ExecutionFeedback) :
    Prop where
  ranks : listed.map SuggestionFields.rank = List.range' 1 listed.length
  counted : ∀ r ∈ listed, r.evidenceCount = makers feedback (r.category, r.summary)
  ordered : listed.Pairwise fun r r' => r'.evidenceCount ≤ r.evidenceCount
  leftOut : ∀ k ∈ suggestionPairs feedback, k ∉ listed.map (fun r => (r.category, r.summary)) →
    ∀ r ∈ listed, makers feedback k ≤ r.evidenceCount

/-- Of two suggestions of which the first is ranked and made before the second, the first is made by
as many executions. -/
def MentionsAgree (feedback : List ExecutionFeedback) : Prop :=
  ∀ k ∈ suggestionPairs feedback, ((suggestionPairs feedback).filter fun k' => MadeBefore feedback
    k' k).length < 15 →
    ∀ k' ∈ suggestionPairs feedback, MadeBefore feedback k k' → makers feedback k' ≤
      makers feedback k

instance (feedback : List ExecutionFeedback) : Decidable (MentionsAgree feedback) :=
  inferInstanceAs (Decidable (∀ k ∈ suggestionPairs feedback, _ →
    ∀ k' ∈ suggestionPairs feedback, _ → _))

/-- The mentions agree where no execution makes a suggestion twice. -/
theorem mentionsAgree_of_once {feedback : List ExecutionFeedback}
    (once : (mentions feedback).Nodup) : MentionsAgree feedback := by
  have same : ∀ k, makers feedback k = timesMade feedback k := by
    intro k
    have ids : (((mentions feedback).filter fun e => e.1 = k).map Prod.snd).Nodup := by
      refine (once.filter _).map_on fun e first e' second same => ?_
      have names : e.1 = k ∧ e'.1 = k := ⟨of_decide_eq_true (List.mem_filter.mp first).2,
        of_decide_eq_true (List.mem_filter.mp second).2⟩
      exact Prod.ext (names.1.trans names.2.symm) same
    rw [← distinct_bucket_length, ← bucket_length]
    refine ((List.perm_ext_iff_of_nodup nodup_distinct ?_).mpr fun id => mem_distinct).length_eq
    rwa [get?_bucket]
  intro k _ _ k' _ before
  rw [same, same]
  rcases before with more | ⟨tie, _⟩
  · exact more.le
  · exact tie.le

section
variable {feedback : List ExecutionFeedback} {workflowOf : UUID → Option String}
  {r : SuggestionFields}

theorem rankedSuggestions_names :
    (rankedSuggestions workflowOf feedback).map
      (fun r => (r.category, r.summary)) = rankedKeys feedback := by
  rw [rankedSuggestions, List.map_map]
  exact List.zipIdx_map_fst 1 _

theorem rankedSuggestions_ranks :
    (rankedSuggestions workflowOf feedback).map SuggestionFields.rank =
    List.range' 1 (rankedSuggestions workflowOf feedback).length := by
  rw [rankedSuggestions, List.map_map, List.length_map, List.length_zipIdx]
  exact List.zipIdx_map_snd 1 _

theorem rankedSuggestions_counted (member : r ∈ rankedSuggestions workflowOf feedback) :
    r.evidenceCount = makers feedback (r.category, r.summary) := by
  obtain ⟨entry, _, rfl⟩ := List.mem_map.mp member
  exact distinct_bucket_length

theorem rankedSuggestions_ordered_iff :
    ((rankedSuggestions workflowOf feedback).Pairwise fun r r' => r'.evidenceCount ≤
      r.evidenceCount) ↔
      (rankedKeys feedback).Pairwise fun k k' => makers feedback k' ≤ makers feedback k := by
  rw [← @rankedSuggestions_names feedback workflowOf, List.pairwise_map]
  refine List.Pairwise.iff_of_mem fun first second => ?_
  rw [rankedSuggestions_counted first, rankedSuggestions_counted second]

theorem rankedSuggestions_leftOut_iff :
    (∀ k ∈ suggestionPairs feedback, k ∉ (rankedSuggestions workflowOf feedback).map
      (fun r => (r.category, r.summary)) →
      ∀ r ∈ rankedSuggestions workflowOf feedback, makers feedback k ≤ r.evidenceCount) ↔
    ∀ k ∈ rankedKeys feedback, ∀ k' ∈ rankedPairs feedback, k' ∉ rankedKeys feedback →
      makers feedback k' ≤ makers feedback k := by
  rw [rankedSuggestions_names, ← @rankedSuggestions_names feedback workflowOf, List.forall_mem_map]
  simp only [rankedPairs_perm.mem_iff]
  constructor
  · intro outdone r member k known out
    rw [← rankedSuggestions_counted member]
    exact outdone k known out r member
  · intro outdone k known out r member
    rw [rankedSuggestions_counted member]
    exact outdone r member k known out

end

/-- The suggestions are ranked by evidence exactly when the number of mentions ranks them in the
same order. -/
theorem ranked_by_evidence_iff (py : Platform) (inp : MuktiCrossExecutionInput)
    (summary : MuktiInsightsSummary)
    (answer : CrossExecutionAnalyzer.analyze py inp = .ok summary) :
    RankedByEvidence (summary.rankedImprovementSuggestions.map Subtype.val) inp.executionFeedback ↔
      MentionsAgree inp.executionFeedback := by
  rw [(analyze_shows answer).rankedImprovementSuggestions]
  have order := take_ordered_iff (n := 15) (S := fun k k' => makers inp.executionFeedback k' ≤
    makers inp.executionFeedback k)
    (@rankedPairs_ordered inp.executionFeedback) (fun _ _ => madeBefore_asymm)
      (fun _ => Nat.le_refl _)
  have agree : MentionsAgree inp.executionFeedback ↔ ∀ k ∈ rankedKeys inp.executionFeedback,
      ∀ k' ∈ rankedPairs inp.executionFeedback, MadeBefore inp.executionFeedback k k' →
        makers inp.executionFeedback k' ≤ makers inp.executionFeedback k := by
    simp only [MentionsAgree, mem_rankedKeys, rankedPairs_perm.mem_iff, and_imp]
  rw [agree]
  refine Iff.trans ?_ order
  constructor
  · intro ranked
    exact ⟨rankedSuggestions_ordered_iff.mp ranked.ordered, rankedSuggestions_leftOut_iff.mp
      ranked.leftOut⟩
  · rintro ⟨sorted, outdone⟩
    exact ⟨rankedSuggestions_ranks, fun r => rankedSuggestions_counted,
      rankedSuggestions_ordered_iff.mpr sorted, rankedSuggestions_leftOut_iff.mpr outdone⟩

/-- The feedback row of an execution that makes the suggestions. -/
def advised (n : Nat) (names : List SuggestionName) : ExecutionFeedback where
  feedbackId := ⟨n + 10⟩
  executionId := ⟨n⟩
  sourceScope := none
  failureTypes := []
  patternsDetected := []
  improvementSuggestions := names.map fun k => ⟨k.1, k.2, []⟩
  advisoryConfidence := none
  createdAt := 0
  updatedAt := none

/-- Two executions that make a suggestion each once, and one of them another. -/
def agreeing : MuktiCrossExecutionInput :=
  ⟨[advised 1 [("policy_rule", "b"), ("tooling", "a")], advised 2 [("policy_rule", "b")]], []⟩

theorem ranked_by_evidence_agreeing : ∃ summary, CrossExecutionAnalyzer.analyze plainPlatform
    agreeing = .ok summary ∧
    RankedByEvidence (summary.rankedImprovementSuggestions.map Subtype.val)
      agreeing.executionFeedback := by
  obtain ⟨summary, answer⟩ := (@analyze_returns_iff plainPlatform agreeing).mpr
    ⟨by decide +kernel, by decide +kernel, by decide +kernel, by decide +kernel, by
        decide +kernel, by decide +kernel⟩
  exact ⟨summary, answer, (ranked_by_evidence_iff plainPlatform agreeing summary answer).mpr
    (by decide +kernel)⟩

/-- One execution makes a suggestion three times, two others another once each. -/
def insistent : MuktiCrossExecutionInput :=
  ⟨[advised 1 [("tooling", "a"), ("tooling", "a"), ("tooling", "a")], advised 2
    [("policy_rule", "b")], advised 3 [("policy_rule", "b")]], []⟩

/-- What one execution insists on is ranked before what two make. -/
theorem ranked_by_evidence_insistent : ∃ summary, CrossExecutionAnalyzer.analyze plainPlatform
    insistent = .ok summary ∧
    ¬ RankedByEvidence (summary.rankedImprovementSuggestions.map Subtype.val)
      insistent.executionFeedback := by
  obtain ⟨summary, answer⟩ := (@analyze_returns_iff plainPlatform insistent).mpr
    ⟨by decide +kernel, by decide +kernel, by decide +kernel, by decide +kernel, by
        decide +kernel, by decide +kernel⟩
  refine ⟨summary, answer, fun ranked => ?_⟩
  have ordered := ranked.ordered
  rw [(analyze_shows answer).rankedImprovementSuggestions] at ordered
  have misplaced : ¬ (rankedSuggestions (workflowOf insistent) insistent.executionFeedback).Pairwise
      fun r r' => r'.evidenceCount ≤ r.evidenceCount := by decide +kernel
  exact misplaced ordered

end AgenticPlatform
