import AgenticPlatform.Aggregation
import AgenticPlatform.Rounding.HalfEven
import Mathlib.Algebra.Order.BigOperators.Group.List
import Mathlib.Tactic.Positivity

/-! The evaluation score of a list of executions: a mix of mean rates and of the share that did not
fail. -/
namespace AgenticPlatform
namespace Evaluation
open Rounding

/-- A rounding that keeps the order and the ends of the scale. -/
structure ScoreRounding where
  round : Rat → Rat
  mono : Monotone round
  zero : round 0 = 0
  one : round 1 = 1

/-- `round(score, 4)`. -/
def fourDigits : ScoreRounding where
  round := roundTo 10000
  mono := roundTo_mono (by norm_num)
  zero := by decide +kernel
  one := by decide +kernel

def failedShare (perExecution : List ExecutionMetrics) : Rat :=
  (perExecution.countP fun m => m.executionStatus = "failed") / perExecution.length

/-- `compute_evaluation_score`, which does not look at the aggregated metrics. -/
def computeEvaluationScore (rounding : ScoreRounding) (_aggregated : AggregatedMetrics)
    (perExecution : List ExecutionMetrics) :
    Option Rat × Option String :=
  if perExecution.isEmpty then (none, none)
  else
    let toolPart := mean (perExecution.filterMap ExecutionMetrics.toolSuccessRate)
    let fbPart := (mean (perExecution.filterMap ExecutionMetrics.modelFallbackRate)).map
      fun rate => 1 - rate
    let base := 10 / 100 * (1 - failedShare perExecution)
    match toolPart, fbPart with
    | some tool, some fb =>
        (some (rounding.round (45 / 100 * tool + 45 / 100 * fb + base)),
          some ("0.45*mean(tool_success) + 0.45*(1-mean(model_fallback_rate)) + " ++
            "0.10*(1-failed/total)"))
    | some tool, none =>
        (some (rounding.round (90 / 100 * tool + base)),
          some "tool signal only: 0.90*mean(tool_success) + 0.10*(1-failed/total)")
    | none, some fb =>
        (some (rounding.round (90 / 100 * fb + base)),
          some "fallback signal only: 0.90*(1-mean(model_fallback_rate)) + 0.10*(1-failed/total)")
    | none, none =>
        (none, some "No tool_success_rate or model_fallback_rate on any execution in scope.")

section
variable {rates others : List Rat} {m : Rat}

/-- Both are missing, or the first is not above the second. -/
def RateLe (a b : Option Rat) : Prop := Option.Rel (· ≤ ·) a b

theorem mean_within (within : ∀ r ∈ rates, 0 ≤ r ∧ r ≤ 1) (shown : mean rates = some m) :
    0 ≤ m ∧ m ≤ 1 := by
  unfold mean at shown
  split at shown
  · cases shown
  · next filled =>
      obtain rfl := Option.some.inj shown
      have length : (0 : Rat) < rates.length := by exact_mod_cast List.length_pos_iff.mpr filled
      have most : rates.sum ≤ rates.length • (1 : Rat) :=
        List.sum_le_card_nsmul rates 1 fun r member => (within r member).2
      rw [nsmul_one] at most
      exact ⟨div_nonneg (List.sum_nonneg fun r member => (within r member).1) length.le,
        (div_le_one length).mpr most⟩

/-- The mean follows the rates. -/
theorem mean_mono (le : List.Forall₂ (· ≤ ·) rates others) : RateLe (mean rates) (mean others) := by
  have lengths := le.length_eq
  unfold mean
  by_cases empty : rates = []
  · have empty' : others = [] := List.length_eq_zero_iff.mp (by rw [← lengths, empty]; rfl)
    rw [if_pos empty, if_pos empty']
    exact .none
  · have filled : others ≠ [] := by
      rintro rfl
      exact empty (List.length_eq_zero_iff.mp lengths)
    rw [if_neg empty, if_neg filled, lengths]
    exact .some (div_le_div_of_nonneg_right le.sum_le_sum (Nat.cast_nonneg _))

end

section
variable {m m' : ExecutionMetrics} {before after perExecution : List ExecutionMetrics}

/-- Metrics that `compute_execution_metrics` produces. -/
def Computed (m : ExecutionMetrics) : Prop :=
  ∃ execution steps stepResults toolCalls policyEvaluations tenantId,
    m = computeExecutionMetrics execution steps stepResults toolCalls policyEvaluations tenantId

theorem ratio_within {a b : Nat} {r : Rat} (part : a ≤ b) (shown : ratio a b = some r) :
    0 ≤ r ∧ r ≤ 1 := by
  unfold ratio at shown
  split at shown
  · cases shown
  · next filled =>
      obtain rfl := Option.some.inj shown
      have whole : (0 : Rat) < b := by exact_mod_cast Nat.pos_of_ne_zero filled
      have cast : (a : Rat) ≤ b := by exact_mod_cast part
      exact ⟨by positivity, (div_le_one whole).mpr cast⟩

theorem Computed.rates_within (computed : Computed m) :
    (∀ r, m.toolSuccessRate = some r → 0 ≤ r ∧ r ≤ 1) ∧ ∀ r, m.modelFallbackRate = some r →
      0 ≤ r ∧ r ≤ 1 := by
  obtain ⟨execution, steps, stepResults, toolCalls, policyEvaluations, tenantId, rfl⟩ := computed
  exact ⟨fun r => ratio_within List.countP_le_length, fun r => ratio_within List.countP_le_length⟩

theorem failedShare_within : 0 ≤ failedShare perExecution ∧ failedShare perExecution ≤ 1 := by
  have part : ((perExecution.countP fun m => m.executionStatus = "failed" : ℕ) : Rat) ≤
    perExecution.length := by
    exact_mod_cast List.countP_le_length
  exact ⟨by unfold failedShare; positivity, div_le_one_of_le₀ part (Nat.cast_nonneg _)⟩

/-- The tool calls of an execution succeed no less often, its model falls back no more often and it
fails only if it did before; a rate that is there stays and one that is missing stays missing. -/
structure Improves (m m' : ExecutionMetrics) : Prop where
  tool : RateLe m.toolSuccessRate m'.toolSuccessRate
  fallback : RateLe m'.modelFallbackRate m.modelFallbackRate
  status : m'.executionStatus = "failed" → m.executionStatus = "failed"

theorem filterMap_replaced {f : ExecutionMetrics → Option Rat} (le : RateLe (f m) (f m')) :
    List.Forall₂ (· ≤ ·) ((before ++ m :: after).filterMap f)
    ((before ++ m' :: after).filterMap f) := by
  have same (xs : List Rat) : List.Forall₂ (· ≤ ·) xs xs := List.forall₂_refl xs
  induction before with
  | nil =>
      rw [List.nil_append, List.nil_append, List.filterMap_cons, List.filterMap_cons]
      generalize f m = rate, f m' = rate' at le
      cases le with
      | none => exact same _
      | some below => exact .cons below (same _)
  | cons first rest ih =>
      rw [List.cons_append, List.cons_append, List.filterMap_cons, List.filterMap_cons]
      cases f first with
      | none => exact ih
      | some r => exact .cons le_rfl ih

theorem failedShare_replaced
    (status : m'.executionStatus = "failed" → m.executionStatus = "failed") :
    failedShare (before ++ m' :: after) ≤ failedShare (before ++ m :: after) := by
  have fewer : (before ++ m' :: after).countP (fun m => m.executionStatus = "failed") ≤
      (before ++ m :: after).countP fun m => m.executionStatus = "failed" := by
    rw [List.countP_append, List.countP_append, List.countP_cons, List.countP_cons]
    by_cases failed : m'.executionStatus = "failed"
    · simp [failed, status failed]
    · simp [failed]
  have lengths : (before ++ m' :: after).length = (before ++ m :: after).length := by
    rw [List.length_append, List.length_append, List.length_cons, List.length_cons]
  unfold failedShare
  rw [lengths]
  exact div_le_div_of_nonneg_right (by exact_mod_cast fewer) (Nat.cast_nonneg _)

end

section
variable {rounding : ScoreRounding} {aggregated aggregated' : AggregatedMetrics}
  {perExecution before after : List ExecutionMetrics} {m m' : ExecutionMetrics} {s : Rat}

theorem score_within (computed : ∀ m ∈ perExecution, Computed m)
    (shown : (computeEvaluationScore rounding aggregated perExecution).1 = some s) :
    0 ≤ s ∧ s ≤ 1 := by
  have onScale {q : Rat} (low : 0 ≤ q) (high : q ≤ 1) : 0 ≤ rounding.round q ∧
    rounding.round q ≤ 1 :=
    ⟨rounding.zero ▸ rounding.mono low, rounding.one ▸ rounding.mono high⟩
  have tools : ∀ tool, mean (perExecution.filterMap ExecutionMetrics.toolSuccessRate) = some tool →
    0 ≤ tool ∧ tool ≤ 1 :=
    fun tool => mean_within fun r member => by
      obtain ⟨m, here, rate⟩ := List.mem_filterMap.mp member
      exact (computed m here).rates_within.1 r rate
  have fallbacks : ∀ fb, (mean (perExecution.filterMap ExecutionMetrics.modelFallbackRate)).map
    (1 - ·) = some fb →
      0 ≤ fb ∧ fb ≤ 1 := by
    intro fb inverse
    obtain ⟨rate, shown, rfl⟩ := Option.map_eq_some_iff.mp inverse
    obtain ⟨low, high⟩ := mean_within (fun r member => by
      obtain ⟨m, here, rate⟩ := List.mem_filterMap.mp member
      exact (computed m here).rates_within.2 r rate) shown
    exact ⟨by linarith, by linarith⟩
  obtain ⟨fewest, most⟩ := @failedShare_within perExecution
  unfold computeEvaluationScore at shown
  split at shown
  · cases shown
  · dsimp only at shown
    split at shown
    · next tool fb toolShown fbShown =>
        obtain rfl := Option.some.inj shown
        obtain ⟨toolLow, toolHigh⟩ := tools tool toolShown
        obtain ⟨fbLow, fbHigh⟩ := fallbacks fb fbShown
        exact onScale (by linarith) (by linarith)
    · next tool toolShown _ =>
        obtain rfl := Option.some.inj shown
        obtain ⟨toolLow, toolHigh⟩ := tools tool toolShown
        exact onScale (by linarith) (by linarith)
    · next fb _ fbShown =>
        obtain rfl := Option.some.inj shown
        obtain ⟨fbLow, fbHigh⟩ := fallbacks fb fbShown
        exact onScale (by linarith) (by linarith)
    · cases shown

theorem score_mono (improves : Improves m m') :
    RateLe (computeEvaluationScore rounding aggregated (before ++ m :: after)).1
      (computeEvaluationScore rounding aggregated' (before ++ m' :: after)).1 := by
  have tools := mean_mono (@filterMap_replaced m m' before after _ improves.tool)
  have fallbacks := mean_mono (@filterMap_replaced m' m before after _ improves.fallback)
  have failures := @failedShare_replaced m m' before after improves.status
  have filled (x : ExecutionMetrics) : (before ++ x :: after).isEmpty = false := by simp
  unfold computeEvaluationScore
  simp only [filled, Bool.false_eq_true, if_false]
  generalize failedShare (before ++ m :: after) = failed, failedShare (before ++ m' :: after) =
    failed' at failures ⊢
  generalize mean ((before ++ m :: after).filterMap ExecutionMetrics.toolSuccessRate) = tool,
    mean ((before ++ m' :: after).filterMap ExecutionMetrics.toolSuccessRate) = tool' at tools ⊢
  generalize mean ((before ++ m :: after).filterMap ExecutionMetrics.modelFallbackRate) = fb,
    mean ((before ++ m' :: after).filterMap ExecutionMetrics.modelFallbackRate) = fb' at fallbacks ⊢
  -- Which of the means is missing is the same for both lists.
  cases tools with
  | none =>
      cases fallbacks with
      | none => exact .none
      | some fbLe => exact .some (rounding.mono (by linarith))
  | some toolLe =>
      cases fallbacks with
      | none => exact .some (rounding.mono (by linarith))
      | some fbLe => exact .some (rounding.mono (by linarith))

end

/-- What the score keeps, whatever the rounding. -/
structure ScoreLaws (rounding : ScoreRounding) : Prop where
  bounded : ∀ aggregated perExecution, perExecution ≠ [] → (∀ m ∈ perExecution, Computed m) →
    ∀ s, (computeEvaluationScore rounding aggregated perExecution).1 = some s → 0 ≤ s ∧ s ≤ 1
  monotone : ∀ aggregated aggregated' before m m' after, Improves m m' →
    RateLe (computeEvaluationScore rounding aggregated (before ++ m :: after)).1
      (computeEvaluationScore rounding aggregated' (before ++ m' :: after)).1

/-- The score lies on the scale and follows every execution. -/
theorem evaluation_score_laws (rounding : ScoreRounding) : ScoreLaws rounding where
  bounded _ _ _ computed _ shown := score_within computed shown
  monotone _ _ _ _ _ _ improves := score_mono improves

end Evaluation
end AgenticPlatform
