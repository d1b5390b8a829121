import AgenticPlatform.StateMachine

/-! The bridge that keeps queue, worker and cancellation data inside `Execution.input`. -/
namespace AgenticPlatform

def orchRuntimeMetaKey : String := "__orch_runtime_meta__"

def readRuntimeMeta (execution : Execution) : Dict :=
  (execution.input.get orchRuntimeMetaKey).asDict

/-- One keyword of the patch: `none` removes the key. -/
def patchMeta (metadata : Dict) (change : String × Option Json) : Dict :=
  match change.2 with
  | none => metadata.pop change.1
  | some value => metadata.set change.1 value

def applyRuntimeMeta (execution : Execution) (patch : List (String × Option Json)) : Execution :=
  let metadata := patch.foldl patchMeta (readRuntimeMeta execution)
  { execution with
    input := if metadata.isEmpty then execution.input.pop orchRuntimeMetaKey
      else execution.input.set orchRuntimeMetaKey (.obj metadata) }

def isCancellationRequested (execution : Execution) : Bool :=
  ((readRuntimeMeta execution).get "cancellation_requested").truthy

def markQueued (execution : Execution) (at_ : Time) : Execution :=
  applyRuntimeMeta execution
    [("queued_at", some (.str at_.isoformat)), ("cancellation_requested", some (.bool false))]

def markWorkerStarted (execution : Execution) (workerId : String) (at_ : Time) : Execution :=
  applyRuntimeMeta execution
    [("worker_id", some (.str workerId)), ("worker_started_at", some (.str at_.isoformat))]

def requestCancellationMeta (execution : Execution) (at_ : Time) (reason : String) : Execution :=
  applyRuntimeMeta execution
    [("cancellation_requested", some (.bool true)),
      ("cancellation_requested_at", some (.str at_.isoformat)),
        ("cancellation_reason", some (.str reason))]

/-- The bridge writes nothing but the input. -/
theorem applyRuntimeMeta_eq (execution : Execution) (patch : List (String × Option Json)) :
    ∃ input, applyRuntimeMeta execution patch = { execution with input := input } := ⟨_, rfl⟩

theorem readRuntimeMeta_of_set (execution : Execution) (input metadata : Dict) :
    readRuntimeMeta { execution with input := input.set orchRuntimeMetaKey (.obj metadata) } =
      metadata := by
  simp [readRuntimeMeta, Dict.get, Dict.get?_set, Json.asDict]

theorem readRuntimeMeta_of_pop (execution : Execution) (input : Dict) :
    readRuntimeMeta { execution with input := input.pop orchRuntimeMetaKey } = [] := by
  simp [readRuntimeMeta, Dict.get, Json.asDict]

/-- What was patched in is what is read back. -/
theorem readRuntimeMeta_apply (execution : Execution) (patch : List (String × Option Json)) :
    readRuntimeMeta (applyRuntimeMeta execution patch) =
      patch.foldl patchMeta (readRuntimeMeta execution) := by
  unfold applyRuntimeMeta
  by_cases empty : (patch.foldl patchMeta (readRuntimeMeta execution)).isEmpty = true
  · simp only [empty, if_true, readRuntimeMeta_of_pop]
    exact (List.isEmpty_iff.mp empty).symm
  · simp only [empty, if_false, readRuntimeMeta_of_set, Bool.false_eq_true]

end AgenticPlatform
