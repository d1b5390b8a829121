import AgenticPlatform.ExecutionService

/-! The worker over any execution service: it takes items from its queue, first in first out,
and hands each execution that is known to `start_execution`. The service may answer or fail
each of its calls as it likes. -/
namespace AgenticPlatform
open Interaction

/-- The calls of a worker. -/
inductive WorkerOp where
  | dequeue
  | now
  | getExecution (executionId : UUID)
  | recordWorkerStarted (executionId : UUID) (workerId : String) (now : Time)
  | startExecution (executionId : UUID)

@[reducible] def WorkerOp.Res : WorkerOp → Type
  | dequeue => Option ExecutionWorkItem
  | now => Time
  | getExecution _ => Option Execution
  | _ => Execution

@[reducible] def workerCalls : Signature := ⟨WorkerOp, WorkerOp.Res⟩

/-- Programs of a worker. -/
abbrev W (α : Type) := Prog workerCalls Exn α

namespace ExecutionWorker

@[reducible] def perform (op : WorkerOp) : W op.Res := @Prog.perform workerCalls Exn op

def process (workerId : String) (item : ExecutionWorkItem) : W Unit := do
  let now ← perform .now
  match ← perform (.getExecution item.executionId) with
  | none => pure ()
  | some _ =>
      let _ex ← perform (.recordWorkerStarted item.executionId workerId now)
      let _started ← perform .now
      let _ex ← perform (.startExecution item.executionId)
      let _ended ← perform .now
      let _ex ← perform (.getExecution item.executionId)
      pure ()

def runOnce (workerId : String) : W Bool := do
  match ← perform .dequeue with
  | none => pure false
  | some item =>
      process workerId item
      pure true

end ExecutionWorker

/-- The service that the platform's worker runs on. -/
def ExecutionEngine.serve (engine : ExecutionEngine) (fuel : Nat) : (op : WorkerOp) → M op.Res
  | .dequeue => M.dequeue
  | .now => M.now
  | .getExecution executionId => M.getExecution executionId
  | .recordWorkerStarted executionId workerId now =>
      recordWorkerStarted executionId workerId (some now)
  | .startExecution executionId => engine.startExecution fuel executionId

/-- The worker over the service of the platform is the platform's worker. -/
theorem runOnce_via (engine : ExecutionEngine) (fuel : Nat) (workerId : String) :
    (ExecutionWorker.runOnce workerId).via (engine.serve fuel) = engine.runOnce fuel workerId := by
  unfold ExecutionWorker.runOnce ExecutionEngine.runOnce
  apply Prog.via_perform
  intro item
  cases item with
  | none => rfl
  | some item =>
      simp only [ExecutionWorker.process, Prog.bind_assoc]
      apply Prog.via_perform
      intro now
      apply Prog.via_perform
      intro found
      cases found with
      | none => rfl
      | some ex =>
          simp only [Prog.bind_assoc]
          apply Prog.via_perform
          intro recorded
          apply Prog.via_perform
          intro started
          apply Prog.via_perform
          intro done
          apply Prog.via_perform
          intro ended
          exact Prog.via_perform fun read => rfl

/-- The services answer by the place of an item in the queue, so an item may meet any failure. -/
structure Services where
  /-- The executions that are stored. -/
  known : UUID → Bool
  now : Nat → Time
  /-- The answer of `get_execution` for an item, before and after it has been handed over. -/
  getExecution : Nat → Bool → UUID → Except Exn (Option Execution)
  recordWorkerStarted : Nat → UUID → String → Time → Except Exn Execution
  startExecution : Nat → UUID → Except Exn Execution
  /-- An answer of `get_execution` is a row exactly for a stored execution. -/
  found : ∀ {item handed executionId answer}, getExecution item handed executionId = .ok answer →
    answer.isSome = known executionId

/-- The queue, how many items have been taken, whether the last one was handed over, and all
executions that were handed over. -/
structure WorkerState where
  queue : List ExecutionWorkItem
  taken : Nat
  handed : Bool
  started : List UUID

/-- The item in hand is the last one taken. -/
def serve (services : Services) : Handler workerCalls Exn WorkerState := fun s op =>
  match op with
  | .dequeue =>
      (.ok s.queue.head?, { s with queue := s.queue.tail, taken := s.taken + 1, handed := false })
  | .now => (.ok (services.now s.taken), s)
  | .getExecution executionId => (services.getExecution s.taken s.handed executionId, s)
  | .recordWorkerStarted executionId workerId now =>
      (services.recordWorkerStarted s.taken executionId workerId now, s)
  | .startExecution executionId =>
      (services.startExecution s.taken executionId,
        { s with handed := true, started := s.started ++ [executionId] })

namespace Services
variable (services : Services) (workerId : String) (place : Nat) (item : ExecutionWorkItem)

/-- No call for the item up to its start raises. -/
def Reaches : Prop :=
  (services.getExecution place false item.executionId).isOk = true ∧
    (services.known item.executionId = true →
      (services.recordWorkerStarted place item.executionId workerId (services.now place)).isOk =
        true)

end Services

/-- The known executions of a queue, in order. -/
def Services.wanted (services : Services) (queue : List ExecutionWorkItem) : List UUID :=
  (queue.map ExecutionWorkItem.executionId).filter services.known

section
variable {services : Services} {workerId : String}

end
end AgenticPlatform
