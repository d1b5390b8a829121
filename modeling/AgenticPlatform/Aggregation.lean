import AgenticPlatform.Counting.Grouped
import AgenticPlatform.Counting.Tally
import AgenticPlatform.EvaluationMetrics
import Mathlib.Algebra.Ring.Rat
import Mathlib.Data.List.Dedup

/-! The roll-ups over many executions: by workflow, by policy decision, by step type and by tool. -/
namespace AgenticPlatform
namespace Evaluation
open Counting

structure WorkflowTypeRollup where
  executionCount : Nat
  failedExecutionCount : Nat
  meanModelFallbackRate : Option Rat
  meanToolSuccessRate : Option Rat
  policyDecisionCounts : Tally String

structure StepTypeRollup where
  stepCount : Nat
  succeeded : Nat
  failed : Nat
  modelReasoningEvents : Nat
  modelFallbackEvents : Nat

structure ToolNameRollup where
  invocations : Nat
  successes : Nat
  failures : Nat

structure PolicyDecisionRollup where
  evaluationCount : Nat
  distinctExecutionCount : Nat

structure AggregatedMetrics where
  executionsInScope : Nat
  byWorkflowType : Grouped String WorkflowTypeRollup
  byStepType : Grouped String StepTypeRollup
  byToolName : Grouped String ToolNameRollup
  byPolicyDecision : Grouped String PolicyDecisionRollup

/-- `sum(rates) / len(rates) if rates else None`. -/
def mean (rates : List Rat) : Option Rat := if rates = [] then none else some
    (rates.sum / rates.length)

def workflowRollup (rows : List ExecutionMetrics) : WorkflowTypeRollup where
  executionCount := rows.length
  failedExecutionCount := rows.countP fun r => r.executionStatus = "failed"
  meanModelFallbackRate := mean (rows.filterMap ExecutionMetrics.modelFallbackRate)
  meanToolSuccessRate := mean (rows.filterMap ExecutionMetrics.toolSuccessRate)
  policyDecisionCounts :=
    rows.foldl (fun counts r => r.policyDecisions.foldl (fun counts d => counts.add d 1) counts) []

def byWorkflow (perExecution : List ExecutionMetrics) : Grouped String (List ExecutionMetrics) :=
  perExecution.foldl (fun groups m => Grouped.update [] (fun rows => rows ++ [m])
    m.workflowType groups) []

/-- The executions of each decision, once for every evaluation. -/
def byDecision (perExecution : List ExecutionMetrics) : Grouped String (List String) :=
  perExecution.foldl (fun groups m =>
    m.policyDecisions.foldl (fun groups d => Grouped.update [] (fun ids => ids ++ [m.executionId]) d
      groups) groups) []

def decisionRollup (perExecution : List ExecutionMetrics) (dec : String) (execIds : List String) :
    PolicyDecisionRollup where
  evaluationCount := (perExecution.map fun m => m.policyDecisions.countP fun d => d = dec).sum
  distinctExecutionCount := execIds.dedup.length

def aggregateFromExecutionMetrics (perExecution : List ExecutionMetrics) : AggregatedMetrics where
  executionsInScope := perExecution.length
  byWorkflowType := (byWorkflow perExecution).map fun entry => (entry.1, workflowRollup entry.2)
  byStepType := []
  byToolName := []
  byPolicyDecision := (byDecision perExecution).map fun entry =>
    (entry.1, decisionRollup perExecution entry.1 entry.2)

def noteStep (s : Step) (r : StepTypeRollup) : StepTypeRollup :=
  { r with
    stepCount := r.stepCount + 1
    succeeded := r.succeeded + if s.status = .succeeded then 1 else 0
    failed := r.failed + if s.status = .failed then 1 else 0 }

def noteEvent (ev : Dict) (r : StepTypeRollup) : StepTypeRollup :=
  { r with
    modelReasoningEvents := r.modelReasoningEvents + 1
    modelFallbackEvents := r.modelFallbackEvents + if isFallback ev then 1 else 0 }

def noteCall (tc : ToolCall) (t : ToolNameRollup) : ToolNameRollup :=
  { invocations := t.invocations + 1
    successes := t.successes + if tc.status = .success then 1 else 0
    failures := t.failures + if tc.status = .success then 0 else 1 }

section
variable (text : Rendering)

/-- The step of a model reasoning event: of several steps with the identifier the last. -/
def ownerOf (steps : List Step) (ev : Dict) : Option Step :=
  if isReasoning ev then
    match ev.get "step_id" with
    | .null => none
    | sidRaw => (UUID.parse (text.str sidRaw)).bind fun uid => steps.reverse.find? fun s =>
      s.stepId = uid
  else none

/-- The loops over the steps and the events of an execution. -/
def rollUpSteps (steps : List Step) (timeline : List Dict)
    (rollup : Grouped String StepTypeRollup) :
    Grouped String StepTypeRollup :=
  let counted := steps.foldl (fun g s => Grouped.update ⟨0, 0, 0, 0, 0⟩ (noteStep s)
    (stepTypeKey s) g) rollup
  timeline.foldl (fun g ev =>
    match ownerOf text steps ev with
    | some step => Grouped.update ⟨0, 0, 0, 0, 0⟩ (noteEvent ev) (stepTypeKey step) g
    | none => g) counted

def toolNameOf (tc : ToolCall) : String := if tc.toolName = "" then "unknown" else tc.toolName

def rollUpCalls (calls : List ToolCall) (rollup : Grouped String ToolNameRollup) :
    Grouped String ToolNameRollup :=
  calls.foldl (fun g tc => Grouped.update ⟨0, 0, 0⟩ (noteCall tc) (toolNameOf tc) g) rollup

def extendWithStepAndToolDimensions (base : AggregatedMetrics) (executions : List Execution)
    (stepsByExecution : String → List Step) (toolCallsByExecution : String → List ToolCall) :
    AggregatedMetrics :=
  { base with
    byStepType := executions.foldl (fun g ex => rollUpSteps text
      (stepsByExecution ex.executionId.str) ex.traceTimeline g) []
    byToolName :=
      executions.foldl (fun g ex => rollUpCalls (toolCallsByExecution ex.executionId.str) g) [] }

/-- What is loaded for the execution of a key. -/
def loaded {α : Type} (executions : List Execution) (load : UUID → List α)
    (eid : String) : List α :=
  match executions.find? fun ex => ex.executionId.str = eid with
  | some ex => load ex.executionId
  | none => []

def buildFullAggregatedMetrics (perExecution : List ExecutionMetrics) (executions : List Execution)
    (loadSteps : UUID → List Step) (loadTools : List Step → List ToolCall) : AggregatedMetrics :=
  extendWithStepAndToolDimensions text (aggregateFromExecutionMetrics perExecution) executions
    (loaded executions loadSteps)
    (loaded executions fun eid => loadTools (loadSteps eid))

end

/-- `ExecutionDataPort`, as far as the metrics of an execution are read from it. -/
structure ExecutionDataPort where
  tenantOf : UUID → Option String
  listStepsForExecution : UUID → List Step
  getStepResult : UUID → Option StepResult
  listToolCallsForStep : UUID → List ToolCall
  listPolicyEvaluationsForExecution : UUID → List PolicyEvaluation

namespace ExecutionDataPort
variable (store : ExecutionDataPort)

/-- `load_tool_calls_for_execution`. -/
def loadToolCalls (steps : List Step) : List ToolCall :=
  steps.flatMap fun s => store.listToolCallsForStep s.stepId

/-- `EvaluationService.get_execution_metrics` of a stored execution. -/
def metricsOf (ex : Execution) : ExecutionMetrics :=
  let steps := store.listStepsForExecution ex.executionId
  computeExecutionMetrics ex steps store.getStepResult (store.loadToolCalls steps)
    (store.listPolicyEvaluationsForExecution ex.executionId) (store.tenantOf ex.executionContextId)

/-- `EvaluationService.get_aggregated_metrics` of the executions in scope. -/
def aggregated (text : Rendering) (executions : List Execution) : AggregatedMetrics :=
  buildFullAggregatedMetrics text (executions.map store.metricsOf) executions
    store.listStepsForExecution store.loadToolCalls

end ExecutionDataPort

/-- The counts of the aggregated metrics. -/
inductive CountName where
  | executions
  | workflowExecutions (wf : String)
  | workflowFailed (wf : String)
  | workflowDecision (wf decision : String)
  | evaluations (decision : String)
  | distinctExecutions (decision : String)
  | stepCount (type : String)
  | succeeded (type : String)
  | failed (type : String)
  | reasoning (type : String)
  | fallbacks (type : String)
  | invocations (tool : String)
  | successes (tool : String)
  | failures (tool : String)

/-- The count of a name; a key that is missing counts zero. -/
def AggregatedMetrics.count (agg : AggregatedMetrics) : CountName → Nat
  | .executions => agg.executionsInScope
  | .workflowExecutions wf => agg.byWorkflowType.measure WorkflowTypeRollup.executionCount wf
  | .workflowFailed wf => agg.byWorkflowType.measure WorkflowTypeRollup.failedExecutionCount wf
  | .workflowDecision wf d =>
      agg.byWorkflowType.measure (fun r => r.policyDecisionCounts.countOf d) wf
  | .evaluations d => agg.byPolicyDecision.measure PolicyDecisionRollup.evaluationCount d
  | .distinctExecutions d =>
      agg.byPolicyDecision.measure PolicyDecisionRollup.distinctExecutionCount d
  | .stepCount t => agg.byStepType.measure StepTypeRollup.stepCount t
  | .succeeded t => agg.byStepType.measure StepTypeRollup.succeeded t
  | .failed t => agg.byStepType.measure StepTypeRollup.failed t
  | .reasoning t => agg.byStepType.measure StepTypeRollup.modelReasoningEvents t
  | .fallbacks t => agg.byStepType.measure StepTypeRollup.modelFallbackEvents t
  | .invocations n => agg.byToolName.measure ToolNameRollup.invocations n
  | .successes n => agg.byToolName.measure ToolNameRollup.successes n
  | .failures n => agg.byToolName.measure ToolNameRollup.failures n

/-- One where the condition holds. -/
def one (p : Prop) [Decidable p] : Nat := if p then 1 else 0

theorem countP_eq_sum {α : Type} {p : α → Prop} [DecidablePred p] {xs : List α} :
    xs.countP (fun x => p x) = (xs.map fun x => one (p x)).sum := by
  induction xs with
  | nil => rfl
  | cons x rest ih =>
      rw [List.countP_cons, List.map_cons, List.sum_cons, ih, one, Nat.add_comm]
      simp only [decide_eq_true_eq]

section
variable {ms : List ExecutionMetrics} {wf d : String}

/-- A number of a workflow to which every execution adds its own. -/
theorem byWorkflow_measure {h : WorkflowTypeRollup → Nat} {c : ExecutionMetrics → Nat}
    (zero : h (workflowRollup []) = 0)
    (adds : ∀ rows m, h (workflowRollup (rows ++ [m])) = h (workflowRollup rows) + c m) :
    (aggregateFromExecutionMetrics ms).byWorkflowType.measure h wf =
      (ms.map fun m => if m.workflowType = wf then c m else 0).sum := by
  have looked : (aggregateFromExecutionMetrics ms).byWorkflowType.measure h wf =
      (byWorkflow ms).measure (fun rows => h (workflowRollup rows)) wf :=
    Grouped.measure_map (t := fun _ => workflowRollup)
  rw [looked]
  refine (foldl_measure (b := []) fun groups m _ => ?_).trans (Nat.zero_add _)
  exact Grouped.measure_update zero fun rows => adds rows m

theorem byWorkflow_total {h : WorkflowTypeRollup → Nat} {c : ExecutionMetrics → Nat}
    (zero : h (workflowRollup []) = 0)
    (adds : ∀ rows m, h (workflowRollup (rows ++ [m])) = h (workflowRollup rows) + c m) :
    (aggregateFromExecutionMetrics ms).byWorkflowType.total h = (ms.map c).sum := by
  have looked : (aggregateFromExecutionMetrics ms).byWorkflowType.total h =
      (byWorkflow ms).total (fun rows => h (workflowRollup rows)) :=
    Grouped.total_map
  rw [looked]
  refine (foldl_measure (b := []) fun groups m _ => ?_).trans (Nat.zero_add _)
  exact Grouped.total_update zero fun rows => adds rows m

theorem executionCount_adds (rows : List ExecutionMetrics) (m : ExecutionMetrics) :
    (workflowRollup (rows ++ [m])).executionCount = (workflowRollup rows).executionCount + 1 :=
  List.length_append

theorem failedExecutionCount_adds (rows : List ExecutionMetrics) (m : ExecutionMetrics) :
    (workflowRollup (rows ++ [m])).failedExecutionCount =
      (workflowRollup rows).failedExecutionCount + one (m.executionStatus = "failed") := by
  simp [workflowRollup, List.countP_append, List.countP_singleton, one]

/-- The inner loop over the decisions of an execution. -/
theorem countOf_decisions {counts : Tally String} {ds : List String} :
    (ds.foldl (fun counts d => Tally.add d 1 counts) counts).countOf d = counts.countOf d +
      ds.count d := by
  induction ds generalizing counts with
  | nil => rfl
  | cons e rest ih =>
      have added : (Tally.add e 1 counts).countOf d = counts.countOf d + if e = d then 1
        else 0 := by
        simp [Tally.countOf, Tally.total_add]
      rw [List.foldl_cons, ih, added, List.count_cons]
      simp only [beq_iff_eq]
      omega

theorem policyDecisionCounts_adds (rows : List ExecutionMetrics) (m : ExecutionMetrics) :
    (workflowRollup (rows ++ [m])).policyDecisionCounts.countOf d =
      (workflowRollup rows).policyDecisionCounts.countOf d + m.policyDecisions.count d := by
  have last : (workflowRollup (rows ++ [m])).policyDecisionCounts =
      m.policyDecisions.foldl (fun counts d => Tally.add d 1 counts)
        (workflowRollup rows).policyDecisionCounts :=
    List.foldl_append
  rw [last, countOf_decisions]

/-- The identifiers under a decision. -/
theorem byDecision_ids : ((byDecision ms).get? d).getD [] =
    ms.flatMap fun m => List.replicate (m.policyDecisions.count d) m.executionId := by
  let ids (groups : Grouped String (List String)) : List String := (groups.get? d).getD []
  have inner (m : ExecutionMetrics) (groups : Grouped String (List String)) (ds : List String) :
      ids (ds.foldl (fun groups d => Grouped.update [] (fun ids => ids ++ [m.executionId]) d groups)
        groups) =
        ids groups ++ List.replicate (ds.count d) m.executionId := by
    induction ds generalizing groups with
    | nil => exact (List.append_nil _).symm
    | cons e rest ih =>
        have added : ids (Grouped.update [] (fun ids => ids ++ [m.executionId]) e groups) =
            ids groups ++ if e = d then [m.executionId] else [] := by
          simp only [ids, Grouped.get?_update]
          split
          · next same => rw [same, Option.getD_some]
          · rw [List.append_nil]
        rw [List.foldl_cons, ih, added, List.count_cons, List.append_assoc]
        simp only [beq_iff_eq]
        split
        · rw [List.replicate_succ]
          rfl
        · rfl
  exact foldl_collects (m := ids) (b := []) fun groups m => inner m groups m.policyDecisions

/-- The evaluations of a decision: one for each time an execution has it. -/
theorem evaluationCount_eq : (aggregateFromExecutionMetrics ms).byPolicyDecision.measure
    PolicyDecisionRollup.evaluationCount d =
    (ms.map fun m => m.policyDecisions.count d).sum := by
  have looked : (aggregateFromExecutionMetrics ms).byPolicyDecision.measure
    PolicyDecisionRollup.evaluationCount d =
      (byDecision ms).measure (fun ids => (decisionRollup ms d ids).evaluationCount) d :=
    Grouped.measure_map (t := decisionRollup ms)
  have ids := @byDecision_ids ms d
  rw [looked, Grouped.measure]
  cases known : (byDecision ms).get? d with
  | some found => rfl
  | none =>
      rw [known, Option.getD_none, eq_comm, List.flatMap_eq_nil_iff] at ids
      refine (List.sum_eq_zero ?_).symm
      rw [List.forall_mem_map]
      exact fun m member => by simpa using ids m member

/-- The identifiers under a decision, each once: the executions that have it. -/
theorem distinct_ids (distinct : (ms.map ExecutionMetrics.executionId).Nodup) :
    (ms.flatMap fun m => List.replicate (m.policyDecisions.count d) m.executionId).dedup.length =
      ms.countP fun m => d ∈ m.policyDecisions := by
  have named :
    ((ms.filter fun m => d ∈ m.policyDecisions).map ExecutionMetrics.executionId).Nodup :=
    (List.filter_sublist.map _).nodup distinct
  have same : (ms.flatMap fun m => List.replicate (m.policyDecisions.count d)
    m.executionId).dedup.Perm
      ((ms.filter fun m => d ∈ m.policyDecisions).map ExecutionMetrics.executionId) := by
    refine (List.perm_ext_iff_of_nodup (List.nodup_dedup _) named).mpr fun id => ?_
    simp only [List.mem_dedup, List.mem_flatMap, List.mem_replicate, List.mem_map, List.mem_filter,
      decide_eq_true_eq, ne_eq, List.count_eq_zero, not_not, and_assoc, @eq_comm _ id]
  rw [same.length_eq, List.length_map, List.countP_eq_length_filter]

theorem distinctExecutionCount_looked :
    (aggregateFromExecutionMetrics ms).byPolicyDecision.measure
      PolicyDecisionRollup.distinctExecutionCount d =
      (ms.flatMap fun m => List.replicate (m.policyDecisions.count d)
        m.executionId).dedup.length := by
  have looked : (aggregateFromExecutionMetrics ms).byPolicyDecision.measure
    PolicyDecisionRollup.distinctExecutionCount d =
      (byDecision ms).measure (fun ids => (decisionRollup ms d ids).distinctExecutionCount) d :=
    Grouped.measure_map (t := decisionRollup ms)
  rw [looked, ← byDecision_ids, Grouped.measure]
  cases (byDecision ms).get? d with
  | some found => rfl
  | none => rfl

theorem distinctExecutionCount_le :
    (aggregateFromExecutionMetrics ms).byPolicyDecision.measure
      PolicyDecisionRollup.distinctExecutionCount d ≤
      (aggregateFromExecutionMetrics ms).byPolicyDecision.measure
        PolicyDecisionRollup.evaluationCount d := by
  rw [distinctExecutionCount_looked, evaluationCount_eq]
  refine (List.dedup_sublist _).length_le.trans (Nat.le_of_eq ?_)
  simp only [List.length_flatMap, List.length_replicate]

end

section
variable {text : Rendering} {steps : List Step} {timeline : List Dict} {calls : List ToolCall}
  {t n : String}
  {rollup : Grouped String StepTypeRollup} {tools : Grouped String ToolNameRollup}

/-- What the loops over an execution add to a number of a step type. -/
theorem rollUpSteps_measure {h : StepTypeRollup → Nat} {a : Step → Nat} {b : Dict → Nat}
    (zero : h ⟨0, 0, 0, 0, 0⟩ = 0) (step : ∀ s v, h (noteStep s v) = h v + a s)
    (event : ∀ ev v, h (noteEvent ev v) = h v + b ev) :
    (rollUpSteps text steps timeline rollup).measure h t = rollup.measure h t +
      ((steps.map fun s => if stepTypeKey s = t then a s else 0).sum +
        (timeline.map fun ev => (ownerOf text steps ev).elim 0 fun s => if stepTypeKey s =
          t then b ev else 0).sum) := by
  rw [rollUpSteps, ← Nat.add_assoc]
  rw [foldl_measure (m := Grouped.measure h t)
    (c := fun ev => (ownerOf text steps ev).elim 0 fun s =>
    if stepTypeKey s = t then b ev else 0), foldl_measure (m := Grouped.measure h t)]
  · exact fun g s _ => Grouped.measure_update zero (step s)
  · intro g ev _
    cases ownerOf text steps ev with
    | none => rfl
    | some s => exact Grouped.measure_update zero (event ev)

/-- What they add to the number over all step types. -/
theorem rollUpSteps_total {h : StepTypeRollup → Nat} {a : Step → Nat} {b : Dict → Nat}
    (zero : h ⟨0, 0, 0, 0, 0⟩ = 0) (step : ∀ s v, h (noteStep s v) = h v + a s)
    (event : ∀ ev v, h (noteEvent ev v) = h v + b ev) :
    (rollUpSteps text steps timeline rollup).total h = rollup.total h +
      ((steps.map a).sum + (timeline.map fun ev => (ownerOf text steps ev).elim 0 fun _ => b
        ev).sum) := by
  rw [rollUpSteps, ← Nat.add_assoc]
  rw [foldl_measure (m := Grouped.total h) (c := fun ev => (ownerOf text steps ev).elim 0
    fun _ => b ev), foldl_measure (m := Grouped.total h)]
  · exact fun g s _ => Grouped.total_update zero (step s)
  · intro g ev _
    cases ownerOf text steps ev with
    | none => rfl
    | some s => exact Grouped.total_update zero (event ev)

/-- What every roll-up of a step type keeps. -/
theorem rollUpSteps_keeps {P : StepTypeRollup → Prop} (first : P ⟨0, 0, 0, 0, 0⟩)
    (step : ∀ s v, P v → P (noteStep s v)) (event : ∀ ev v, P v → P (noteEvent ev v))
    (all : ∀ entry ∈ rollup, P entry.2) :
    ∀ entry ∈ rollUpSteps text steps timeline rollup, P entry.2 := by
  have stepped :
    ∀ entry ∈ steps.foldl (fun g s => Grouped.update ⟨0, 0, 0, 0, 0⟩ (noteStep s) (stepTypeKey s) g)
    rollup,
      P entry.2 :=
    foldl_keeps (P := fun g : Grouped String StepTypeRollup => ∀ entry ∈ g, P entry.2)
      (fun g s all => Grouped.forall_update first (step s) all) all
  refine foldl_keeps (P := fun g : Grouped String StepTypeRollup => ∀ entry ∈ g, P entry.2)
    (fun g ev all => ?_) stepped
  cases ownerOf text steps ev with
  | none => exact all
  | some s => exact Grouped.forall_update first (event ev) all

theorem rollUpCalls_measure {h : ToolNameRollup → Nat} {a : ToolCall → Nat} (zero : h ⟨0, 0, 0⟩ = 0)
    (call : ∀ tc v, h (noteCall tc v) = h v + a tc) :
    (rollUpCalls calls tools).measure h n = tools.measure h n +
      (calls.map fun tc => if toolNameOf tc = n then a tc else 0).sum :=
  foldl_measure fun _ tc _ => Grouped.measure_update zero (call tc)

theorem rollUpCalls_total {h : ToolNameRollup → Nat} {a : ToolCall → Nat} (zero : h ⟨0, 0, 0⟩ = 0)
    (call : ∀ tc v, h (noteCall tc v) = h v + a tc) :
    (rollUpCalls calls tools).total h = tools.total h + (calls.map a).sum :=
  foldl_measure fun _ tc _ => Grouped.total_update zero (call tc)

theorem rollUpCalls_keeps {P : ToolNameRollup → Prop} (first : P ⟨0, 0, 0⟩)
    (call : ∀ tc v, P v → P (noteCall tc v)) (all : ∀ entry ∈ tools, P entry.2) :
    ∀ entry ∈ rollUpCalls calls tools, P entry.2 :=
  foldl_keeps (P := fun g : Grouped String ToolNameRollup => ∀ entry ∈ g, P entry.2)
    (fun _ tc all => Grouped.forall_update first (call tc) all) all

end

section
variable (text : Rendering) (store : ExecutionDataPort)

/-- What the steps of an execution add to a number of a step type. -/
def stepShare (a : Step → Nat) (b : Dict → Nat) (t : String) (ex : Execution) : Nat :=
  let steps := store.listStepsForExecution ex.executionId
  (steps.map fun s => if stepTypeKey s = t then a s else 0).sum +
    (ex.traceTimeline.map fun ev => (ownerOf text steps ev).elim 0 fun s => if stepTypeKey s =
      t then b ev else 0).sum

/-- What its calls add to a number of a tool. -/
def callShare (a : ToolCall → Nat) (n : String) (ex : Execution) : Nat :=
  ((store.loadToolCalls (store.listStepsForExecution ex.executionId)).map fun tc => if toolNameOf
    tc = n then a tc else 0).sum

/-- The contribution of one execution to a count. -/
def share (ex : Execution) : CountName → Nat
  | .executions => 1
  | .workflowExecutions wf => if (store.metricsOf ex).workflowType = wf then 1 else 0
  | .workflowFailed wf =>
      if (store.metricsOf ex).workflowType = wf then one ((store.metricsOf ex).executionStatus =
        "failed") else 0
  | .workflowDecision wf d =>
      if (store.metricsOf ex).workflowType = wf then (store.metricsOf ex).policyDecisions.count d
        else 0
  | .evaluations d => (store.metricsOf ex).policyDecisions.count d
  | .distinctExecutions d => one (d ∈ (store.metricsOf ex).policyDecisions)
  | .stepCount t => stepShare text store (fun _ => 1) (fun _ => 0) t ex
  | .succeeded t => stepShare text store (fun s => one (s.status = .succeeded)) (fun _ => 0) t ex
  | .failed t => stepShare text store (fun s => one (s.status = .failed)) (fun _ => 0) t ex
  | .reasoning t => stepShare text store (fun _ => 0) (fun _ => 1) t ex
  | .fallbacks t => stepShare text store (fun _ => 0) (fun ev => one (isFallback ev = true)) t ex
  | .invocations n => callShare store (fun _ => 1) n ex
  | .successes n => callShare store (fun tc => one (tc.status = .success)) n ex
  | .failures n => callShare store (fun tc => one (tc.status ≠ .success)) n ex

end

section
variable {text : Rendering} {store : ExecutionDataPort} {executions : List Execution}
  {ex : Execution}

theorem loaded_eq {α : Type} {load : UUID → List α} (member : ex ∈ executions) :
    loaded executions load ex.executionId.str = load ex.executionId := by
  have known : (executions.find? fun e => e.executionId.str = ex.executionId.str).isSome =
    true := by
    rw [List.find?_isSome]
    exact ⟨ex, member, by simp⟩
  obtain ⟨found, shown⟩ := Option.isSome_iff_exists.mp known
  have same : found.executionId = ex.executionId :=
    UUID.str_injective (by simpa using List.find?_some shown)
  rw [loaded, shown]
  exact congrArg load same

theorem byStepType_measure {h : StepTypeRollup → Nat} {a : Step → Nat} {b : Dict → Nat} {t : String}
    (zero : h ⟨0, 0, 0, 0, 0⟩ = 0) (step : ∀ s v, h (noteStep s v) = h v + a s)
    (event : ∀ ev v, h (noteEvent ev v) = h v + b ev) :
    (store.aggregated text executions).byStepType.measure h t =
      (executions.map (stepShare text store a b t)).sum := by
  refine (foldl_measure (b := []) fun g ex member => ?_).trans (Nat.zero_add _)
  rw [loaded_eq member]
  exact rollUpSteps_measure zero step event

theorem byToolName_measure {h : ToolNameRollup → Nat} {a : ToolCall → Nat} {n : String}
    (zero : h ⟨0, 0, 0⟩ = 0) (call : ∀ tc v, h (noteCall tc v) = h v + a tc) :
    (store.aggregated text executions).byToolName.measure h n =
      (executions.map (callShare store a n)).sum := by
  refine (foldl_measure (b := []) fun g ex member => ?_).trans (Nat.zero_add _)
  rw [loaded_eq member]
  exact rollUpCalls_measure zero call

/-- Every count is the sum of what the executions contribute. -/
theorem count_eq_sum (distinct : (executions.map Execution.executionId).Nodup) (name : CountName) :
    (store.aggregated text executions).count name = (executions.map fun ex => share text store ex
      name).sum := by
  have summed (c : ExecutionMetrics → Nat) :
      ((executions.map store.metricsOf).map c).sum =
        (executions.map fun ex => c (store.metricsOf ex)).sum := by
    rw [List.map_map]
    rfl
  cases name with
  | executions =>
      change (executions.map store.metricsOf).length = (executions.map fun _ => 1).sum
      rw [List.length_map, List.map_const', List.sum_replicate_nat, Nat.mul_one]
  | workflowExecutions wf => exact (byWorkflow_measure rfl executionCount_adds).trans (summed _)
  | workflowFailed wf => exact (byWorkflow_measure rfl failedExecutionCount_adds).trans (summed _)
  | workflowDecision wf d =>
      exact (byWorkflow_measure rfl fun rows m => policyDecisionCounts_adds rows m).trans (summed _)
  | evaluations d => exact evaluationCount_eq.trans (summed _)
  | distinctExecutions d =>
      have ids : ((executions.map store.metricsOf).map ExecutionMetrics.executionId).Nodup := by
        rw [List.map_map]
        have texts := distinct.map UUID.str_injective
        rwa [List.map_map] at texts
      refine distinctExecutionCount_looked.trans
        ((distinct_ids ids).trans (Eq.trans ?_ (summed fun m => one (d ∈ m.policyDecisions))))
      exact countP_eq_sum
  | stepCount t => exact byStepType_measure rfl (fun _ _ => rfl) fun _ _ => rfl
  | succeeded t => exact byStepType_measure rfl (fun _ _ => rfl) fun _ _ => rfl
  | failed t => exact byStepType_measure rfl (fun _ _ => rfl) fun _ _ => rfl
  | reasoning t => exact byStepType_measure rfl (fun _ _ => rfl) fun _ _ => rfl
  | fallbacks t => exact byStepType_measure rfl (fun _ _ => rfl) fun _ _ => rfl
  | invocations n => exact byToolName_measure rfl fun _ _ => rfl
  | successes n => exact byToolName_measure rfl fun _ _ => rfl
  | failures n =>
      refine byToolName_measure rfl fun tc t => ?_
      by_cases ok : tc.status = .success
      · simp [noteCall, one, ok]
      · simp [noteCall, one, ok]

end

section
variable (text : Rendering) (store : ExecutionDataPort) (executions : List Execution)

/-- The roll-ups count everything in scope once. -/
structure Conserved : Prop where
  scope : (store.aggregated text executions).executionsInScope = executions.length
  workflows : (store.aggregated text executions).byWorkflowType.total
    WorkflowTypeRollup.executionCount =
    (store.aggregated text executions).executionsInScope
  decisions : ∀ d, (store.aggregated text executions).byWorkflowType.total
    (fun r => r.policyDecisionCounts.countOf d) =
    (store.aggregated text executions).count (.evaluations d)
  distinct : ∀ d, (store.aggregated text executions).count (.distinctExecutions d) ≤
    (store.aggregated text executions).count (.evaluations d)
  steps : (store.aggregated text executions).byStepType.total StepTypeRollup.stepCount =
    (executions.map fun ex => (store.listStepsForExecution ex.executionId).length).sum
  stepTypes : ∀ entry ∈ (store.aggregated text executions).byStepType,
    entry.2.succeeded + entry.2.failed ≤ entry.2.stepCount ∧ entry.2.modelFallbackEvents ≤
      entry.2.modelReasoningEvents
  tools : ∀ entry ∈ (store.aggregated text executions).byToolName,
    entry.2.invocations = entry.2.successes + entry.2.failures
  calls : (store.aggregated text executions).byToolName.total ToolNameRollup.invocations =
    (executions.map fun ex =>
      (store.loadToolCalls (store.listStepsForExecution ex.executionId)).length).sum

/-- The counts are conserved, do not depend on the order of the executions and add up over lists
without a common one. -/
structure Aggregates : Prop where
  conserved : Conserved text store executions
  unordered : ∀ others, executions.Perm others → ∀ name,
    (store.aggregated text executions).count name = (store.aggregated text others).count name
  composes : ∀ others, ((executions ++ others).map Execution.executionId).Nodup → ∀ name,
    (store.aggregated text (executions ++ others)).count name =
      (store.aggregated text executions).count name + (store.aggregated text others).count name

end

section
variable {text : Rendering} {store : ExecutionDataPort} {executions : List Execution}

theorem noteStep_outcomes (s : Step) (v : StepTypeRollup)
    (within : v.succeeded + v.failed ≤ v.stepCount ∧ v.modelFallbackEvents ≤
      v.modelReasoningEvents) :
    (noteStep s v).succeeded + (noteStep s v).failed ≤ (noteStep s v).stepCount ∧
      (noteStep s v).modelFallbackEvents ≤ (noteStep s v).modelReasoningEvents := by
  obtain ⟨outcomes, events⟩ := within
  refine ⟨?_, events⟩
  have single : (if s.status = .succeeded then 1 else 0) + (if s.status = .failed then 1
    else 0) ≤ 1 := by
    cases s.status with
    | succeeded | failed | pending | running | skipped | cancelled => decide
  simp only [noteStep]
  omega

theorem noteEvent_outcomes (ev : Dict) (v : StepTypeRollup)
    (within : v.succeeded + v.failed ≤ v.stepCount ∧ v.modelFallbackEvents ≤
      v.modelReasoningEvents) :
    (noteEvent ev v).succeeded + (noteEvent ev v).failed ≤ (noteEvent ev v).stepCount ∧
      (noteEvent ev v).modelFallbackEvents ≤ (noteEvent ev v).modelReasoningEvents := by
  obtain ⟨outcomes, events⟩ := within
  refine ⟨outcomes, ?_⟩
  simp only [noteEvent]
  split
  · omega
  · omega

theorem noteCall_outcomes (tc : ToolCall) (v : ToolNameRollup)
    (sum : v.invocations = v.successes + v.failures) :
    (noteCall tc v).invocations = (noteCall tc v).successes + (noteCall tc v).failures := by
  simp only [noteCall]
  split
  · omega
  · omega

theorem aggregated_conserved : Conserved text store executions where
  scope := List.length_map _
  workflows := by
    have total :
      (aggregateFromExecutionMetrics (executions.map store.metricsOf)).byWorkflowType.total
        WorkflowTypeRollup.executionCount = _ := byWorkflow_total rfl executionCount_adds
    refine total.trans ?_
    rw [List.map_const', List.sum_replicate_nat, Nat.mul_one]
    rfl
  decisions d :=
    (byWorkflow_total (h := fun r => r.policyDecisionCounts.countOf d) rfl fun rows m =>
      policyDecisionCounts_adds rows m).trans
      evaluationCount_eq.symm
  distinct _ := distinctExecutionCount_le
  steps := by
    have each : ∀ (g : Grouped String StepTypeRollup), ∀ ex ∈ executions,
        (rollUpSteps text (loaded executions store.listStepsForExecution ex.executionId.str)
          ex.traceTimeline g).total
          StepTypeRollup.stepCount = g.total StepTypeRollup.stepCount +
            (store.listStepsForExecution ex.executionId).length := by
      intro g ex member
      have quiet (owner : Option Step) : owner.elim 0 (fun _ => 0) = 0 := by
        cases owner with
        | none => rfl
        | some s => rfl
      rw [loaded_eq member, rollUpSteps_total (a := fun _ => 1) (b := fun _ => 0) rfl
        (fun _ _ => rfl) fun _ _ => rfl]
      simp only [quiet, List.map_const', List.sum_replicate_nat, Nat.mul_one,
        Nat.mul_zero, Nat.add_zero]
    exact (foldl_measure (b := []) each).trans (Nat.zero_add _)
  stepTypes :=
    foldl_keeps
      (P := fun g : Grouped String StepTypeRollup => ∀ entry ∈ g,
        entry.2.succeeded + entry.2.failed ≤ entry.2.stepCount ∧ entry.2.modelFallbackEvents ≤
          entry.2.modelReasoningEvents)
      (fun _ _ all => rollUpSteps_keeps ⟨Nat.le_refl 0, Nat.le_refl 0⟩ noteStep_outcomes
        noteEvent_outcomes all) nofun
  tools :=
    foldl_keeps
      (P := fun g : Grouped String ToolNameRollup =>
        ∀ entry ∈ g, entry.2.invocations = entry.2.successes + entry.2.failures)
      (fun _ _ all => rollUpCalls_keeps (P := fun v => v.invocations = v.successes + v.failures) rfl
        noteCall_outcomes all)
      nofun
  calls := by
    have each : ∀ (g : Grouped String ToolNameRollup), ∀ ex ∈ executions,
        (rollUpCalls (loaded executions (fun eid => store.loadToolCalls
          (store.listStepsForExecution eid)) ex.executionId.str) g).total
          ToolNameRollup.invocations = g.total ToolNameRollup.invocations +
            (store.loadToolCalls (store.listStepsForExecution ex.executionId)).length := by
      intro g ex member
      rw [loaded_eq member, rollUpCalls_total (a := fun _ => 1) rfl fun _ _ => rfl]
      simp
    exact (foldl_measure (b := []) each).trans (Nat.zero_add _)

end

/-- For executions with distinct identifiers the roll-ups conserve and compose. -/
theorem aggregation_conserves (text : Rendering) (store : ExecutionDataPort)
    (executions : List Execution) (distinct : (executions.map Execution.executionId).Nodup) :
    Aggregates text store executions where
  conserved := aggregated_conserved
  unordered others perm name := by
    have distinct' : (others.map Execution.executionId).Nodup := (perm.map _).nodup_iff.mp distinct
    rw [count_eq_sum distinct, count_eq_sum distinct']
    exact (perm.map _).sum_eq
  composes others both name := by
    have distinct' : (others.map Execution.executionId).Nodup := by
      rw [List.map_append] at both
      exact both.of_append_right
    rw [count_eq_sum both, count_eq_sum distinct, count_eq_sum distinct', List.map_append,
      List.sum_append]

/-- A store in which every execution has one validation step and nothing else. -/
def oneStepEach : ExecutionDataPort where
  tenantOf _ := none
  listStepsForExecution eid := [validationStep ⟨eid.n + 10⟩]
  getStepResult _ := none
  listToolCallsForStep _ := []
  listPolicyEvaluationsForExecution _ := []

theorem aggregation_conserves_two : Aggregates .flat oneStepEach
    [executionOf genericRequest ⟨1⟩ ⟨0⟩ 0, executionOf genericRequest ⟨2⟩ ⟨0⟩ 0] :=
  aggregation_conserves .flat oneStepEach [executionOf genericRequest ⟨1⟩ ⟨0⟩ 0, executionOf
    genericRequest ⟨2⟩ ⟨0⟩ 0]
    (by decide)

end Evaluation
end AgenticPlatform
