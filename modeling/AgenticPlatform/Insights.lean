import AgenticPlatform.Repository
import AgenticPlatform.Store.Listing
import AgenticPlatform.ExecutionService

/-! The insights of the gateway over the executions of a tenant: the executions in scope, the pool
of feedback rows that is drawn from all tenants, and what is handed to the analysis. -/
namespace AgenticPlatform
open Store

/-- Structured pattern noted in post-execution analysis. -/
structure PatternDetection where
  patternType : String
  description : Option String
  evidence : Dict

/-- Advisory recommendation. -/
structure ImprovementSuggestion where
  category : String
  summary : String
  detail : Dict

/-- Post-execution analysis record. -/
structure ExecutionFeedback where
  feedbackId : UUID
  executionId : UUID
  sourceScope : Option Dict
  failureTypes : List String
  patternsDetected : List PatternDetection
  improvementSuggestions : List ImprovementSuggestion
  advisoryConfidence : Option Rat
  createdAt : Time
  updatedAt : Option Time

instance : Keyed UUID ExecutionFeedback := ⟨ExecutionFeedback.feedbackId⟩

/-- Origin of feedback that an operator or an integration submits. -/
inductive FeedbackSource where
  | operatorConsole | integration | api
  deriving DecidableEq

/-- Human or pipeline feedback on an execution. -/
structure OperatorFeedback where
  feedbackRecordId : UUID
  executionId : UUID
  source : FeedbackSource
  labels : List String
  detail : Dict
  sourceScope : Option Dict
  createdAt : Time
  updatedAt : Option Time

instance : Keyed UUID OperatorFeedback := ⟨OperatorFeedback.feedbackRecordId⟩

/-- Projected execution for list and poll responses. -/
structure ExecutionSummary where
  executionId : UUID
  workflowType : String
  status : ExecutionStatus
  executionMode : ExecutionMode
  createdAt : Time
  updatedAt : Time

/-- Frozen inputs for cross-execution analysis. -/
structure MuktiCrossExecutionInput where
  executionFeedback : List ExecutionFeedback
  executionSummaries : List ExecutionSummary

/-- The stores of the executions and of the feedback. -/
structure InsightStores where
  repo : Repository
  feedback : Table UUID ExecutionFeedback

/-- What a caller asks for. -/
structure InsightQuery where
  tenantId : Option String
  workflowType : Option String
  status : Option String
  limit : Int

/-- The tenant of the context of an execution. -/
def Repository.tenantOf (repo : Repository) (ex : Execution) : Option String :=
  (repo.contexts.get ex.executionContextId).map ExecutionContext.tenantId

/-- The rows whose field has the wanted value, if one is wanted. -/
def narrowed (wanted : Option String) (field : Execution → Option String) (rows : List Execution) :
    List Execution :=
  match wanted with
  | some value => rows.filter fun e => field e = some value
  | none => rows

theorem narrowed_subset {wanted : Option String} {field : Execution → Option String}
    {rows : List Execution} :
    narrowed wanted field rows ⊆ rows := by
  unfold narrowed
  cases wanted with
  | none => exact List.Subset.refl rows
  | some value => exact List.filter_subset_self rows

/-- `InMemoryRepository.list_executions`. -/
def Repository.listExecutions (repo : Repository) (query : InsightQuery) : List Execution :=
  let rows := narrowed query.tenantId repo.tenantOf repo.executions.rows
  let rows := narrowed query.workflowType (fun e => some e.workflowType) rows
  let rows := narrowed query.status (fun e => some e.status.value) rows
  (newestFirst Execution.createdAt rows).take (max 1 (min query.limit 500)).toNat

/-- `InMemoryFeedbackRepository.list_execution_feedback`, of all executions. -/
def listExecutionFeedback (feedback : Table UUID ExecutionFeedback) (limit : Int) :
    List ExecutionFeedback :=
  (newestFirst ExecutionFeedback.createdAt feedback.rows).take (max 1 limit).toNat

/-- `min(500, max(limit * 5, limit))`. -/
def InsightQuery.poolLimit (query : InsightQuery) : Int :=
  min 500 (max (query.limit * 5) query.limit)

def summaryOf (e : Execution) : ExecutionSummary :=
  ⟨e.executionId, e.workflowType, e.status, e.executionMode, e.createdAt, e.updatedAt⟩

/-- The executions that the insights are about. -/
def InsightStores.scope (s : InsightStores) (query : InsightQuery) : List Execution :=
  s.repo.listExecutions query

/-- A feedback row of an execution in scope. -/
def InsightStores.inScope (s : InsightStores) (query : InsightQuery)
    (fb : ExecutionFeedback) : Bool :=
  (s.scope query).any fun e => e.executionId = fb.executionId

/-- What `get_mukti_insights` collects. -/
def InsightStores.crossExecutionInput (s : InsightStores) (query : InsightQuery) :
    MuktiCrossExecutionInput where
  executionFeedback := (listExecutionFeedback s.feedback query.poolLimit).filter (s.inScope query)
  executionSummaries := (s.scope query).map summaryOf

/-- `MuktiFacade.get_mukti_insights`; `analyzeCrossExecution` is the analysis, a function of its
input. -/
def InsightStores.getMuktiInsights {Summary : Type}
    (analyzeCrossExecution : MuktiCrossExecutionInput → Summary) (s : InsightStores)
    (query : InsightQuery) : Summary :=
  analyzeCrossExecution (s.crossExecutionInput query)

/-- The executions of a tenant. -/
def InsightStores.executionsOf (s : InsightStores) (tenantId : String) : List Execution :=
  s.repo.executions.rows.filter fun e => s.repo.tenantOf e = some tenantId

/-- The feedback rows of the executions of a tenant. -/
def InsightStores.feedbackOf (s : InsightStores) (tenantId : String) : List ExecutionFeedback :=
  s.feedback.rows.filter fun fb => (s.executionsOf tenantId).any fun e => e.executionId =
    fb.executionId

/-- Two states with the same executions and feedback rows of a tenant. -/
structure SameFor (tenantId : String) (s s' : InsightStores) : Prop where
  executions : s.executionsOf tenantId = s'.executionsOf tenantId
  feedback : s.feedbackOf tenantId = s'.feedbackOf tenantId

section
variable {s s' : InsightStores} {tenantId : String} {query : InsightQuery}

/-- The scope of a tenant's query is found among its executions. -/
theorem scope_of_tenant (own : query.tenantId = some tenantId) (same : SameFor tenantId s s') :
    s.scope query = s'.scope query := by
  have rows := same.executions
  unfold InsightStores.executionsOf at rows
  simp only [InsightStores.scope, Repository.listExecutions, own, narrowed, rows]

theorem scope_subset (own : query.tenantId = some tenantId) :
    s.scope query ⊆ s.executionsOf tenantId := by
  intro e member
  have sorted := List.mem_of_mem_take member
  simp only [newestFirst, List.mem_insertionSort, own] at sorted
  exact narrowed_subset (narrowed_subset sorted)

/-- The feedback rows in scope, the newest first. -/
def InsightStores.scopeFeedback (s : InsightStores) (query : InsightQuery) :
    List ExecutionFeedback :=
  newestFirst ExecutionFeedback.createdAt (s.feedback.rows.filter (s.inScope query))

theorem scopeFeedback_of_tenant (own : query.tenantId = some tenantId)
    (same : SameFor tenantId s s') :
    s.scopeFeedback query = s'.scopeFeedback query := by
  have owned (r : InsightStores) : r.feedback.rows.filter (r.inScope query) =
      (r.feedbackOf tenantId).filter (r.inScope query) := by
    rw [InsightStores.feedbackOf, List.filter_filter]
    refine List.filter_congr fun fb _ => ?_
    refine Bool.eq_iff_iff.mpr ⟨fun inside => ?_, fun both => (Bool.and_eq_true _ _ ▸ both).1⟩
    obtain ⟨e, member, named⟩ := List.any_eq_true.mp inside
    exact Bool.and_eq_true _ _ ▸ ⟨inside, List.any_eq_true.mpr ⟨e, scope_subset own member, named⟩⟩
  have inScope : s.inScope query = s'.inScope query := by
    funext fb
    rw [InsightStores.inScope, InsightStores.inScope, scope_of_tenant own same]
  rw [InsightStores.scopeFeedback, InsightStores.scopeFeedback, owned s, owned s',
    same.feedback, inScope]

/-- The most feedback rows that are considered. -/
def InsightQuery.feedbackLimit (query : InsightQuery) : Nat := (max 1 query.poolLimit).toNat

/-- Every feedback row in scope is taken into account, up to the limit. -/
def InsightStores.Accounts (s : InsightStores) (query : InsightQuery) : Prop :=
  (s.crossExecutionInput query).executionFeedback = (s.scopeFeedback query).take query.feedbackLimit

/-- The newest rows of the pool are all in scope, or no row in scope is older than they are. -/
def InsightStores.Uncrowded (s : InsightStores) (query : InsightQuery) : Prop :=
  (∀ fb ∈ listExecutionFeedback s.feedback query.poolLimit, s.inScope query fb = true) ∨
    ∀ fb ∈ (newestFirst ExecutionFeedback.createdAt s.feedback.rows).drop query.feedbackLimit,
      s.inScope query fb = false

theorem accounts_iff : s.Accounts query ↔ s.Uncrowded query := by
  unfold InsightStores.Accounts InsightStores.scopeFeedback
  rw [← filter_newestFirst]
  exact filter_take_iff

/-- Two states with the same rows of a tenant give it the same insights, with all its rows taken
into account, exactly when its rows are not crowded out of either. -/
theorem insights_iff {Summary : Type} (analyzeCrossExecution : MuktiCrossExecutionInput → Summary)
    (s s' : InsightStores) (tenantId : String) (query : InsightQuery)
    (own : query.tenantId = some tenantId) (same : SameFor tenantId s s') :
    (s.getMuktiInsights analyzeCrossExecution query = s'.getMuktiInsights
      analyzeCrossExecution query ∧
      s.Accounts query ∧ s'.Accounts query) ↔ s.Uncrowded query ∧ s'.Uncrowded query := by
  rw [accounts_iff, accounts_iff, and_iff_right_iff_imp]
  rintro ⟨uncrowded, uncrowded'⟩
  have first : (s.crossExecutionInput query).executionFeedback = _ := accounts_iff.mpr uncrowded
  have second : (s'.crossExecutionInput query).executionFeedback = _ := accounts_iff.mpr uncrowded'
  have inputs : s.crossExecutionInput query = s'.crossExecutionInput query := by
    rw [scopeFeedback_of_tenant own same, ← second] at first
    have summaries : (s.crossExecutionInput query).executionSummaries =
      (s'.crossExecutionInput query).executionSummaries :=
      congrArg (List.map summaryOf) (scope_of_tenant own same)
    exact (MuktiCrossExecutionInput.mk.injEq _ _ _ _).mpr ⟨first, summaries⟩
  rw [InsightStores.getMuktiInsights, InsightStores.getMuktiInsights, inputs]

end

/-- The execution of one tenant with its feedback row, and an execution of another tenant with as
many rows, all newer, as there are numbers. -/
def twoTenants (others : List Nat) : InsightStores where
  repo := { Repository.empty with
    contexts := (Table.empty.put (contextOf genericRequest ⟨0⟩ 0)).put
      (contextOf { genericRequest with tenantId := "t2" } ⟨2⟩ 0)
    executions := (Table.empty.put (executionOf genericRequest ⟨1⟩ ⟨0⟩ 0)).put
      (executionOf genericRequest ⟨3⟩ ⟨2⟩ 0) }
  feedback :=
    others.foldl (fun rows n => rows.put ⟨⟨n + 10⟩, ⟨3⟩, none, [], [], [], none, n + 1, none⟩)
    (Table.empty.put ⟨⟨4⟩, ⟨1⟩, none, [], [], [], none, 0, none⟩)

def newestInsight : InsightQuery := ⟨some "t1", none, none, 1⟩

/-- Four foreign rows leave room for the tenant's own. -/
theorem insights_uncrowded :
    ((twoTenants []).getMuktiInsights (fun inp => inp.executionFeedback.length) newestInsight =
        (twoTenants [0, 1, 2, 3]).getMuktiInsights (fun inp => inp.executionFeedback.length)
          newestInsight ∧
      (twoTenants []).Accounts newestInsight ∧ (twoTenants [0, 1, 2, 3]).Accounts newestInsight) :=
  (insights_iff (fun inp => inp.executionFeedback.length) (twoTenants []) (twoTenants [0, 1, 2, 3])
    "t1" newestInsight rfl
    ⟨rfl, rfl⟩).mpr ⟨.inr (by decide), .inr (by decide)⟩

/-- Five leave none: the sample size of the summary, which is the number of rows handed to the
analysis, depends on the other tenant. -/
theorem insights_crowded : SameFor "t1" (twoTenants []) (twoTenants [0, 1, 2, 3, 4]) ∧
    (twoTenants []).getMuktiInsights (fun inp => inp.executionFeedback.length) newestInsight = 1 ∧
    (twoTenants [0, 1, 2, 3, 4]).getMuktiInsights
      (fun inp => inp.executionFeedback.length) newestInsight = 0 :=
  ⟨⟨rfl, rfl⟩, by decide, by decide⟩

end AgenticPlatform
