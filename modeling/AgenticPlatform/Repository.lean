import AgenticPlatform.Schema
import AgenticPlatform.Interaction.System

/-! The persistence port with its in-memory implementation, and the other services
the orchestrator calls. Every repository method, clock reading, fresh identifier
and call to a collaborator is one call of a program. -/
namespace AgenticPlatform
open Store Interaction

structure Repository where
  contexts : Table UUID ExecutionContext
  executions : Table UUID Execution
  plans : Table UUID ExecutionPlan
  steps : Table UUID Step
  stepResults : Table UUID StepResult
  actionProposals : Table UUID ActionProposal
  policyEvaluations : Table UUID PolicyEvaluation
  approvals : Table UUID Approval
  toolCalls : Table UUID ToolCall

def Repository.empty : Repository where
  contexts := .empty
  executions := .empty
  plans := .empty
  steps := .empty
  stepResults := .empty
  actionProposals := .empty
  policyEvaluations := .empty
  approvals := .empty
  toolCalls := .empty

def Repository.listStepsForExecution (repo : Repository) (executionId : UUID) : List Step :=
  repo.steps.sortedBy (fun s => s.executionId = executionId) Step.createdAt

def Repository.listApprovalsForExecution (repo : Repository) (executionId : UUID) : List Approval :=
  repo.approvals.sortedBy (fun a => a.executionId = executionId) Approval.decidedAt

structure ExecutionWorkItem where
  executionId : UUID
  enqueuedAt : Time

/-- Everything a program of the platform may call. -/
inductive Op where
  | saveContext (context : ExecutionContext)
  | getContext (contextId : UUID)
  | saveExecution (execution : Execution)
  | getExecution (executionId : UUID)
  | updateExecution (execution : Execution)
  | savePlan (plan : ExecutionPlan)
  | getPlan (planId : UUID)
  | saveStep (step : Step)
  | getStep (stepId : UUID)
  | updateStep (step : Step)
  | listStepsForExecution (executionId : UUID)
  | saveStepResult (result : StepResult)
  | getStepResult (stepId : UUID)
  | saveActionProposal (proposal : ActionProposal)
  | getActionProposal (proposalId : UUID)
  | savePolicyEvaluation (evaluation : PolicyEvaluation)
  | saveApproval (approval : Approval)
  | saveToolCall (toolCall : ToolCall)
  | enqueue (executionId : UUID) (now : Time)
  | dequeue
  | now
  | uuid4
  | retrieve (request : RetrievalRequest)
  | invoke (request : ToolInvokeRequest) (now : Time)
  | analyzeIncident (request : IncidentAnalysisModelRequest)
  | validateIncident (request : IncidentValidationModelRequest)
  | analyzeCostAnomaly (request : CostAttributionAnalysisModelRequest)
  | validateCostAttribution (request : CostAttributionValidationModelRequest)
  | evaluateProposal (context : ExecutionContext) (proposal : ActionProposal)
  | sha256 (text : String)

@[reducible] def Op.Res : Op → Type
  | getContext _ => Option ExecutionContext
  | getExecution _ => Option Execution
  | getPlan _ => Option ExecutionPlan
  | getStep _ => Option Step
  | listStepsForExecution _ => List Step
  | getStepResult _ => Option StepResult
  | getActionProposal _ => Option ActionProposal
  | enqueue _ _ => Nat
  | dequeue => Option ExecutionWorkItem
  | now => Time
  | uuid4 => UUID
  | retrieve _ => RetrievalResponse
  | invoke _ _ => ToolCall
  | analyzeIncident _ => IncidentAnalysisReasoningOutput
  | validateIncident _ => IncidentValidationReasoningOutput
  | analyzeCostAnomaly _ => CostAttributionReasoningOutput
  | validateCostAttribution _ => CostValidationOutput
  | evaluateProposal _ _ => PolicyEvaluationDraft
  | sha256 _ => BitVec 256
  | _ => Unit

@[reducible] def platform : Signature := ⟨Op, Op.Res⟩

/-- Programs of the platform. -/
abbrev M (α : Type) := Prog platform Exn α

namespace M

@[reducible] def perform (op : Op) : M op.Res := @Prog.perform platform Exn op

def throw {α : Type} (cls : ExceptionClass) (text : String) : M α := .raise ⟨cls, text⟩

def ofExcept {α : Type} : Except Exn α → M α
  | .ok a => .ret a
  | .error e => .raise e

@[simp] theorem ofExcept_ok {α : Type} (a : α) : ofExcept (.ok a) = .ret a := rfl

def saveContext (context : ExecutionContext) : M Unit := perform (.saveContext context)
def getContext (contextId : UUID) : M (Option ExecutionContext) := perform (.getContext contextId)
def saveExecution (execution : Execution) : M Unit := perform (.saveExecution execution)
def getExecution (executionId : UUID) : M (Option Execution) := perform (.getExecution executionId)
def updateExecution (execution : Execution) : M Unit := perform (.updateExecution execution)
def savePlan (plan : ExecutionPlan) : M Unit := perform (.savePlan plan)
def getPlan (planId : UUID) : M (Option ExecutionPlan) := perform (.getPlan planId)
def saveStep (step : Step) : M Unit := perform (.saveStep step)
def getStep (stepId : UUID) : M (Option Step) := perform (.getStep stepId)
def updateStep (step : Step) : M Unit := perform (.updateStep step)
def listStepsForExecution (executionId : UUID) : M (List Step) :=
  perform (.listStepsForExecution executionId)
def saveStepResult (result : StepResult) : M Unit := perform (.saveStepResult result)
def getStepResult (stepId : UUID) : M (Option StepResult) := perform (.getStepResult stepId)
def saveActionProposal (proposal : ActionProposal) : M Unit :=
  perform (.saveActionProposal proposal)
def getActionProposal (proposalId : UUID) : M (Option ActionProposal) :=
  perform (.getActionProposal proposalId)
def savePolicyEvaluation (evaluation : PolicyEvaluation) : M Unit :=
  perform (.savePolicyEvaluation evaluation)
def saveApproval (approval : Approval) : M Unit := perform (.saveApproval approval)
def saveToolCall (toolCall : ToolCall) : M Unit := perform (.saveToolCall toolCall)
def enqueue (executionId : UUID) (now : Time) : M Nat := perform (.enqueue executionId now)
def dequeue : M (Option ExecutionWorkItem) := perform .dequeue
/-- `datetime.now(timezone.utc)`. -/
def now : M Time := perform .now
def uuid4 : M UUID := perform .uuid4
def retrieve (request : RetrievalRequest) : M RetrievalResponse := perform (.retrieve request)
def invoke (request : ToolInvokeRequest) (now : Time) : M ToolCall := perform (.invoke request now)
def analyzeIncident (request : IncidentAnalysisModelRequest) : M IncidentAnalysisReasoningOutput :=
  perform (.analyzeIncident request)
def validateIncident (request : IncidentValidationModelRequest) :
    M IncidentValidationReasoningOutput := perform (.validateIncident request)
def analyzeCostAnomaly (request : CostAttributionAnalysisModelRequest) :
    M CostAttributionReasoningOutput := perform (.analyzeCostAnomaly request)
def validateCostAttribution (request : CostAttributionValidationModelRequest) :
    M CostValidationOutput := perform (.validateCostAttribution request)
def evaluateProposal (context : ExecutionContext) (proposal : ActionProposal) :
    M PolicyEvaluationDraft := perform (.evaluateProposal context proposal)
/-- `hashlib.sha256(text.encode())`; encoding raises on text that UTF-8 does not cover. -/
def sha256 (text : String) : M (BitVec 256) := perform (.sha256 text)

end M

theorem wp_ofExcept {S : Semantics platform Exn} {α : Type} {x : Except Exn α} {s : S.State} :
    wp S (M.ofExcept x)
    (ends (· = s) (fun e t => x = .error e ∧ t = s) (fun a => x = .ok a)) s := by
  cases x with
  | ok a => exact ⟨rfl, rfl⟩
  | error e => exact ⟨rfl, rfl⟩

theorem wp_ofExcept_ok {S : Semantics platform Exn} {α : Type} {x : Except Exn α} {a : α}
    (ok : x = .ok a) {s : S.State} : wp S (M.ofExcept x)
    (ends (· = s) (fun _ _ => False) (· = a)) s := by
  rw [ok]
  exact ⟨rfl, rfl⟩

/-- The clock and the other services. The first argument of each counts the readings or
calls so far, so any behaviour over time is some environment. -/
structure Env where
  now : Nat → Time
  retrieve : Nat → RetrievalRequest → Except Exn RetrievalResponse
  invoke : Nat → ToolInvokeRequest → Time → Except Exn ToolCall
  analyzeIncident : Nat → IncidentAnalysisModelRequest → Except Exn IncidentAnalysisReasoningOutput
  validateIncident : Nat → IncidentValidationModelRequest →
    Except Exn IncidentValidationReasoningOutput
  analyzeCostAnomaly : Nat → CostAttributionAnalysisModelRequest →
    Except Exn CostAttributionReasoningOutput
  validateCostAttribution : Nat → CostAttributionValidationModelRequest →
    Except Exn CostValidationOutput
  evaluateProposal : Nat → ExecutionContext → ActionProposal → Except Exn PolicyEvaluationDraft
  sha256 : String → Except Exn (BitVec 256)

/-- Surroundings in which every service refuses and the clock stands still. -/
def Env.refusing : Env :=
  let refusal : Exn := ⟨.other "ConnectionError", "refused"⟩
  { now := fun _ => 0
    retrieve := fun _ _ => .error refusal
    invoke := fun _ _ _ => .error refusal
    analyzeIncident := fun _ _ => .error refusal
    validateIncident := fun _ _ => .error refusal
    analyzeCostAnomaly := fun _ _ => .error refusal
    validateCostAttribution := fun _ _ => .error refusal
    evaluateProposal := fun _ _ _ => .error refusal
    sha256 := fun _ => .ok 0 }

/-- The stored rows and the work queue, the next fresh identifier, and how often the clock
was read and a service called. -/
structure World where
  repo : Repository
  queue : List ExecutionWorkItem
  fresh : Nat
  readings : Nat
  asked : Nat

def World.init : World := ⟨.empty, [], 0, 0, 0⟩

/-- The stored row of an execution. -/
def World.execution (w : World) (executionId : UUID) : Option Execution :=
  w.repo.executions.get executionId

/-- The next state after a service has been called. -/
def World.ask (w : World) : World := { w with asked := w.asked + 1 }

/-- What each call answers and does. -/
def handle (env : Env) : Handler platform Exn World := fun w op =>
  match op with
  | .saveContext c => (.ok (), { w with repo.contexts := w.repo.contexts.put c })
  | .getContext id => (.ok (w.repo.contexts.get id), w)
  | .saveExecution ex => (.ok (), { w with repo.executions := w.repo.executions.put ex })
  | .getExecution id => (.ok (w.repo.executions.get id), w)
  | .updateExecution ex =>
      if (w.repo.executions.get ex.executionId).isSome then
        (.ok (), { w with repo.executions := w.repo.executions.put ex })
      else (.error ⟨.keyError, "execution " ++ ex.executionId.str ++ " not found"⟩, w)
  | .savePlan p => (.ok (), { w with repo.plans := w.repo.plans.put p })
  | .getPlan id => (.ok (w.repo.plans.get id), w)
  | .saveStep s => (.ok (), { w with repo.steps := w.repo.steps.put s })
  | .getStep id => (.ok (w.repo.steps.get id), w)
  | .updateStep s =>
      if (w.repo.steps.get s.stepId).isSome then
        (.ok (), { w with repo.steps := w.repo.steps.put s })
      else (.error ⟨.keyError, "step " ++ s.stepId.str ++ " not found"⟩, w)
  | .listStepsForExecution id => (.ok (w.repo.listStepsForExecution id), w)
  | .saveStepResult r => (.ok (), { w with repo.stepResults := w.repo.stepResults.put r })
  | .getStepResult id => (.ok (w.repo.stepResults.get id), w)
  | .saveActionProposal p =>
      (.ok (), { w with repo.actionProposals := w.repo.actionProposals.put p })
  | .getActionProposal id => (.ok (w.repo.actionProposals.get id), w)
  | .savePolicyEvaluation e =>
      (.ok (), { w with repo.policyEvaluations := w.repo.policyEvaluations.put e })
  | .saveApproval a => (.ok (), { w with repo.approvals := w.repo.approvals.put a })
  | .saveToolCall tc => (.ok (), { w with repo.toolCalls := w.repo.toolCalls.put tc })
  | .enqueue id now => (.ok (w.queue.length + 1), { w with queue := w.queue ++ [⟨id, now⟩] })
  | .dequeue => (.ok w.queue.head?, { w with queue := w.queue.tail })
  | .now => (.ok (env.now w.readings), { w with readings := w.readings + 1 })
  | .uuid4 => (.ok ⟨w.fresh⟩, { w with fresh := w.fresh + 1 })
  | .retrieve req => (env.retrieve w.asked req, w.ask)
  | .invoke req now => (env.invoke w.asked req now, w.ask)
  | .analyzeIncident req => (env.analyzeIncident w.asked req, w.ask)
  | .validateIncident req => (env.validateIncident w.asked req, w.ask)
  | .analyzeCostAnomaly req => (env.analyzeCostAnomaly w.asked req, w.ask)
  | .validateCostAttribution req => (env.validateCostAttribution w.asked req, w.ask)
  | .evaluateProposal ctx p => (env.evaluateProposal w.asked ctx p, w.ask)
  | .sha256 text => (env.sha256 text, w)

end AgenticPlatform
