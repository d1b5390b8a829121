import AgenticPlatform.Repository

/-! Execution and step transitions. -/
namespace AgenticPlatform

/-- `executing → completed` is absent: completion requires the validation phase. -/
def executionAllowed : List (ExecutionStatus × ExecutionStatus) :=
  [(.created, .planning), (.created, .failed), (.created, .cancelled),
    (.planning, .executing), (.planning, .failed), (.planning, .cancelled),
    (.executing, .validating), (.executing, .failed), (.executing, .cancelled),
    (.validating, .completed), (.validating, .executing), (.validating, .failed),
    (.validating, .awaitingApproval), (.validating, .cancelled),
    (.awaitingApproval, .completed), (.awaitingApproval, .failed), (.awaitingApproval, .cancelled)]

def stepAllowed : List (StepStatus × StepStatus) :=
  [(.pending, .running), (.pending, .skipped), (.pending, .cancelled),
    (.running, .succeeded), (.running, .failed), (.running, .cancelled)]

def isExecutionTerminal : ExecutionStatus → Bool
  | .completed | .failed | .cancelled => true
  | _ => false

def isStepTerminal : StepStatus → Bool
  | .succeeded | .failed | .skipped | .cancelled => true
  | _ => false

/-- Raises unless an execution may move from `source` to `target`. -/
def validateExecutionTransition (source target : ExecutionStatus) : Except Exn Unit :=
  if isExecutionTerminal source ∧ source ≠ target then
    .error ⟨.invalidStatusTransitionError,
      "execution is terminal (" ++ source.value ++ "); cannot transition to " ++ target.value⟩
  else if (source, target) ∉ executionAllowed then
    .error ⟨.invalidStatusTransitionError,
      "invalid execution transition: " ++ source.value ++ " -> " ++ target.value⟩
  else .ok ()

/-- Raises unless a step may move from `source` to `target`. -/
def validateStepTransition (source target : StepStatus) : Except Exn Unit :=
  if isStepTerminal source ∧ source ≠ target then
    .error ⟨.invalidStatusTransitionError,
      "step is terminal (" ++ source.value ++ "); cannot transition to " ++ target.value⟩
  else if (source, target) ∉ stepAllowed then
    .error ⟨.invalidStatusTransitionError,
      "invalid step transition: " ++ source.value ++ " -> " ++ target.value⟩
  else .ok ()

/-- The validator accepts exactly the table. -/
theorem validateExecutionTransition_ok {source target : ExecutionStatus} :
    validateExecutionTransition source target = .ok () ↔ (source, target) ∈ executionAllowed := by
  cases source <;> cases target <;> simp [validateExecutionTransition, isExecutionTerminal,
    executionAllowed]

theorem terminal_no_exit {source target : ExecutionStatus}
    (terminal : isExecutionTerminal source = true) :
    (source, target) ∉ executionAllowed := by
  cases source <;> cases target <;> simp_all [isExecutionTerminal, executionAllowed]

/-- Every non-terminal execution may fail or be cancelled. -/
theorem abort_allowed {source : ExecutionStatus} (live : isExecutionTerminal source = false) :
    (source, .failed) ∈ executionAllowed ∧ (source, .cancelled) ∈ executionAllowed := by
  cases source <;> simp_all [isExecutionTerminal, executionAllowed]

end AgenticPlatform
