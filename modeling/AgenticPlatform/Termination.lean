import AgenticPlatform.Containment
import AgenticPlatform.Interaction.Loop
import AgenticPlatform.SchedulerRun
import AgenticPlatform.Sessions

/-! The loop of a run ends, whoever does the work of the steps and whatever graph the plan has: a
round that goes on takes one step out of PENDING, and no step ever comes back. -/
namespace AgenticPlatform
open Interaction ExecutionEngine Store

namespace ExecutionEngine

/-- One step, with the work left to `work`: the service paths of the engine, or any executor in
their place. -/
def runStepBy (work : Step → Time → M StepResult) (step : Step) (now : Time) : M Unit := do
  match ← M.getStep step.stepId with
  | none => M.throw .orchestrationError ("missing step " ++ step.stepId.str)
  | some step =>
      M.ofExcept (validateStepTransition step.status .running)
      let running := { step with status := .running, updatedAt := now }
      M.updateStep running
      recordTrace step.executionId [("step_started", stepDetail step)] now
      let result ← work running now
      M.saveStepResult result
      M.ofExcept (validateStepTransition .running .succeeded)
      let done := { running with status := .succeeded, updatedAt := now }
      M.updateStep done
      recordTrace step.executionId (completionEvents done result) now

/-- The body of `while True`: the row that it returns, or `none` where it continues. -/
def loopRound (work : Step → Time → M StepResult) (executionId : UUID) : M (Option Execution) := do
  match ← M.getExecution executionId with
  | none => M.throw .assertionError ""
  | some ex =>
      if isCancellationRequested ex then
        let now ← M.now
        let ex ← cancelExecution executionId "cancellation_requested" now
        pure (some ex)
      else if ex.status = .awaitingApproval then pure (some ex)
      else if isExecutionTerminal ex.status then pure (some ex)
      else
        let steps ← M.listStepsForExecution executionId
        match ← resolvePlan ex with
        | none => M.throw .orchestrationError "execution has no resolvable plan"
        | some plan =>
            let now ← M.now
            let ex ← maybeEnterValidating ex steps now
            M.updateExecution ex
            match ← M.getExecution executionId with
            | none => M.throw .assertionError ""
            | some ex =>
                if isExecutionTerminal ex.status then pure (some ex)
                else
                  let steps ← M.listStepsForExecution executionId
                  match nextPendingReady (stepsInPlanOrder steps plan) steps with
                  | some nextStep =>
                      runStepBy work nextStep now
                      pure none
                  | none =>
                      let ex ← completeRun ex steps
                      pure (some ex)

/-- `run_execution` over that loop. -/
def runExecutionBy (engine : ExecutionEngine) (work : Step → Time → M StepResult) (fuel : Nat)
    (executionId : UUID) : M Execution := do
  match ← M.getExecution executionId with
  | none => M.throw .keyError ("'execution not found: " ++ executionId.str ++ "'")
  | some ex =>
      let now ← M.now
      if isExecutionTerminal ex.status then pure ex
      else
        let ex ← enterPlanning ex now
        engine.enterExecuting ex now
        (loopRound work executionId).loop fuel

def startExecutionBy (engine : ExecutionEngine) (work : Step → Time → M StepResult) (fuel : Nat)
    (executionId : UUID) : M Execution :=
  (engine.runExecutionBy work fuel executionId).tryCatch fun e =>
    if e.cls = .orchestrationError then failExecution executionId e.text else .raise e

end ExecutionEngine

section
variable {engine : ExecutionEngine} {id : UUID}

theorem bind_ret {α : Type} (p : M α) : p >>= .ret = p := by
  change p.bind .ret = p
  induction p with
  | ret a => rfl
  | raise e => rfl
  | halt => rfl
  | call op k ih => exact congrArg (Prog.call op) (funext ih)

theorem bind_congr_right {α β : Type} {p : M α} {f g : α → M β} (same : ∀ a, f a = g a) :
    p >>= f = p >>= g :=
  congrArg (p >>= ·) (funext same)

/-- A part that returns its own answer. -/
theorem bind_some {α : Type} (p : M α) (g : M α) :
    ((p >>= fun a => pure (some a)) >>= fun o : Option α => match o with
      | some a => .ret a
      | none => g) = p := by
  rw [Prog.bind_assoc]
  exact bind_ret p

theorem runLoop_eq (fuel : Nat) :
    engine.runLoop id fuel = (loopRound engine.stepWork id).loop fuel := by
  induction fuel with
  | zero => rfl
  | succ fuel ih =>
      unfold runLoop Prog.loop loopRound
      rw [Prog.bind_assoc]
      refine bind_congr_right fun row => ?_
      cases row with
      | none => rfl
      | some ex =>
          dsimp only
          split
          · rw [Prog.bind_assoc]
            exact bind_congr_right fun now => (bind_some _ _).symm
          split
          · rfl
          split
          · rfl
          rw [Prog.bind_assoc]
          refine bind_congr_right fun steps => ?_
          rw [Prog.bind_assoc]
          refine bind_congr_right fun plan => ?_
          cases plan with
          | none => rfl
          | some plan =>
              dsimp only
              rw [Prog.bind_assoc]
              refine bind_congr_right fun now => ?_
              rw [Prog.bind_assoc]
              refine bind_congr_right fun ex => ?_
              rw [Prog.bind_assoc]
              refine bind_congr_right fun _ => ?_
              rw [Prog.bind_assoc]
              refine bind_congr_right fun row => ?_
              cases row with
              | none => rfl
              | some ex =>
                  dsimp only
                  split
                  · rfl
                  rw [Prog.bind_assoc]
                  refine bind_congr_right fun steps => ?_
                  cases nextPendingReady (stepsInPlanOrder steps plan) steps with
                  | none => exact (bind_some _ _).symm
                  | some next =>
                      dsimp only
                      rw [Prog.bind_assoc, ih]
                      rfl

theorem startExecution_eq (fuel : Nat) :
    engine.startExecution fuel id = engine.startExecutionBy engine.stepWork fuel id := by
  have run : engine.runExecution fuel id = engine.runExecutionBy engine.stepWork fuel id := by
    unfold runExecution runExecutionBy
    refine bind_congr_right fun row => ?_
    cases row with
    | none => rfl
    | some ex => simp only [runLoop_eq]
  unfold startExecution startExecutionBy
  rw [run]

end

/-- The services that no `try` surrounds answer every call. -/
structure Replying (env : Env) : Prop where
  retrieve : ∀ n request, ∃ a, env.retrieve n request = .ok a
  invoke : ∀ n request now, ∃ a, env.invoke n request now = .ok a
  evaluateProposal : ∀ n ctx proposal, ∃ a, env.evaluateProposal n ctx proposal = .ok a
  sha256 : ∀ text, ∃ a, env.sha256 text = .ok a

/-- A run of `id` in the midst of its rounds: its plan, the plans and the steps are these. -/
structure Amid (id : UUID) (current : Option UUID) (plans : Table UUID ExecutionPlan)
    (steps : Table UUID Step) (w : World) : Prop where
  row : ∃ row, w.execution id = some row ∧ row.currentPlanId = current
  plans : w.repo.plans = plans
  steps : w.repo.steps = steps

/-- The engine has raised an error of its own, which `start_execution` takes as a failure. -/
def Stopped (id : UUID) (e : Exn) (w : World) : Prop :=
  Orchestration e ∧ ∃ row, w.execution id = some row

/-- After an error of the work: under a `try` all is still well. -/
abbrev AfterRaise (id : UUID) (current : Option UUID) (plans : Table UUID ExecutionPlan)
    (steps : Table UUID Step) (caught : Bool) (e : Exn) : World → Prop :=
  match caught with
  | true => Amid id current plans steps
  | false => Stopped id e

/-- Work that returns a result, or the engine's own error where a row is missing. It may trace and
ask whom it likes, but writes neither plans nor steps. -/
def Works (env : Env) (work : Step → Time → M StepResult) : Prop :=
  ∀ step now current plans steps w, step.status = .running → Amid step.executionId current
    plans steps w →
    wp (handle env).sem (work step now)
      (ends (Amid step.executionId current plans steps) (Stopped step.executionId) (fun _ => True))
        w

section
variable {env : Env} {id : UUID} {current : Option UUID} {plans : Table UUID ExecutionPlan}
  {steps : Table UUID Step} {w : World} {engine : ExecutionEngine} {work : Step → Time →
    M StepResult} {now : Time}

theorem Amid.stopped (amid : Amid id current plans steps w) {e : Exn}
    (orchestration : Orchestration e) :
    Stopped id e w := by
  obtain ⟨row, stored, _⟩ := amid.row
  exact ⟨orchestration, row, stored⟩

theorem handled {op : Op} {Q : Outcome Exn op.Res → World → Prop}
    (post : answered (M := (handle env).sem) Q (handle env w op).1 (handle env w op).2) :
    wp (handle env).sem (M.perform op) Q w := by
  refine wp_perform.mpr ⟨trivial, ?_⟩
  rintro r t step
  obtain ⟨rfl, rfl⟩ := Prod.mk.inj step
  exact post

/-- A call that succeeds and leaves those rows alone. -/
theorem amid_call {op : Op} {a : op.Res} (answer : (handle env w op).1 = .ok a)
    (executions : (handle env w op).2.repo.executions = w.repo.executions)
    (samePlans : (handle env w op).2.repo.plans = w.repo.plans)
    (sameSteps : (handle env w op).2.repo.steps = w.repo.steps)
    (amid : Amid id current plans steps w) :
    wp (handle env).sem (M.perform op)
    (ends (Amid id current plans steps) (fun _ _ => False) (· = a)) w := by
  refine handled ?_
  rw [answer]
  refine ⟨rfl, ?_, samePlans.trans amid.plans, sameSteps.trans amid.steps⟩
  simp only [World.execution, executions]
  exact amid.row

theorem amid_get (amid : Amid id current plans steps w) : wp (handle env).sem (M.getExecution id)
    (fun o t => ∃ row, o = .ret (some row) ∧ row.executionId = id ∧ row.currentPlanId = current ∧
      w.execution id = some row ∧ t = w) w := by
  obtain ⟨row, stored, same⟩ := amid.row
  refine handled ?_
  have answer : (handle env w (.getExecution id)).1 = .ok (some row) := congrArg Except.ok stored
  rw [answer]
  exact ⟨row, rfl, (Table.get_eq_some.mp stored).2, same, stored, rfl⟩

theorem amid_update {ex : Execution} (ident : ex.executionId = id)
    (same : ex.currentPlanId = current) (amid : Amid id current plans steps w) : wp (handle env).sem
      (M.updateExecution ex) (ends (Amid id current plans steps) (fun _ _ => False) (fun _ => True))
        w := by
  obtain ⟨row, stored, _⟩ := amid.row
  have present : (w.repo.executions.get ex.executionId).isSome = true := by
    rw [ident, show w.repo.executions.get id = some row from stored]
    rfl
  refine handled ?_
  simp only [handle, present, if_true]
  refine ⟨trivial, ⟨ex, ?_, same⟩, amid.plans, amid.steps⟩
  simp only [World.execution, ← ident]
  exact Table.get_put_self

theorem amid_trace {events : List Event} (amid : Amid id current plans steps w) :
    wp (handle env).sem (recordTrace id events now)
      (ends (Amid id current plans steps) (fun _ _ => False) (fun _ => True)) w := by
  unfold recordTrace
  rw [wp_bind]
  refine wp_mono ?_ (amid_get amid)
  rintro _ t ⟨row, rfl, ident, same, _, rfl⟩
  exact amid_update (by simp [appendEvents_eq, ident]) (by simp [appendEvents_eq, same]) amid

/-- Outside of a `try`, a quiet call is answered. -/
theorem Replying.answers (replying : Replying env) {op : Op} (quiet : op.quiet false = true)
    (w : World) :
    ∃ a, (handle env w op).1 = .ok a := by
  cases op with
  | retrieve request => exact replying.retrieve _ _
  | invoke request now => exact replying.invoke _ _ _
  | evaluateProposal ctx proposal => exact replying.evaluateProposal _ _ _
  | sha256 text => exact replying.sha256 text
  | analyzeIncident _ | validateIncident _ | analyzeCostAnomaly _ | validateCostAttribution _ =>
      exact absurd quiet (by simp [Op.quiet])
  | updateExecution _ | updateStep _ => exact absurd quiet (by simp [Op.quiet])
  | _ => exact ⟨_, rfl⟩

/-- Quiet calls: under a `try` with any answer, else answered. -/
theorem amid_quiet (replying : Replying env) (caught : Bool) {op : Op}
    (quiet : op.quiet caught = true) (amid : Amid id current plans steps w) : wp (handle env).sem
      (M.perform op) (ends (Amid id current plans steps) (AfterRaise id current plans steps caught)
        (fun _ => True)) w := by
  obtain ⟨calls, repo, _⟩ := @handle_quiet env caught op quiet w
  have after : Amid id current plans steps (handle env w op).2 := by
    refine ⟨?_, ?_, ?_⟩
    · simp only [World.execution, repo]
      exact amid.row
    · rw [repo]
      exact amid.plans
    · rw [repo]
      exact amid.steps
  refine handled ?_
  cases answer : (handle env w op).1 with
  | ok a => exact ⟨trivial, after⟩
  | error e =>
      cases caught with
      | true => exact after
      | false =>
          obtain ⟨a, ok⟩ := replying.answers quiet w
          exact absurd (answer.symm.trans ok) (by simp)

theorem work_amid (replying : Replying env) {caught : Bool} {β : Type} {p : M β} {R : β → Prop}
    (block : WorkBlock False .any id caught p R) (amid : Amid id current plans steps w) :
    wp (handle env).sem p
      (ends (Amid id current plans steps) (AfterRaise id current plans steps caught) R) w := by
  cases block with
  | quiet op quiet within =>
      refine wp_mono ?_ (amid_quiet replying caught quiet amid)
      intro o t ht
      cases o with
      | ret a => exact ⟨⟨fun no => no.elim, op.shows_any a⟩, ht.2⟩
      | raise e => exact ht
      | halt => exact ht
  | row =>
      refine wp_mono ?_ (amid_get amid)
      rintro _ t ⟨row, rfl, _, _, _, rfl⟩
      exact ⟨⟨fun _ _ => trivial, False.elim⟩, amid⟩
  | trace events now working =>
      refine wp_mono ?_ (amid_trace amid)
      intro o t ht
      cases o with
      | ret a => exact ht
      | raise e => exact ht.elim
      | halt => exact ht

/-- The shipped engine works when its services answer. -/
theorem stepWork_works (replying : Replying env) : Works env engine.stepWork := by
  intro step now current plans steps w running amid
  refine wp_mono ?_ (Guarded.wp (M := (handle env).sem) (I :=
    Amid step.executionId current plans steps)
    (fun _ _ _ block amid => work_amid replying block amid) (fun _ _ _ block amid => work_amid
      replying block amid)
    (fun _ _ unserved amid => amid.stopped unserved.1) (stepWork_work running) w amid)
  intro o t ht
  cases o with
  | ret a => exact ⟨trivial, ht.2⟩
  | raise e => exact ht
  | halt => exact ht

theorem amid_updateStep {step : Step} (stored : (steps.get step.stepId).isSome = true)
    (amid : Amid id current plans steps w) : wp (handle env).sem (M.updateStep step)
      (ends (Amid id current plans (steps.put step)) (fun _ _ => False) (fun _ => True)) w := by
  have present : (w.repo.steps.get step.stepId).isSome = true := amid.steps ▸ stored
  refine handled ?_
  simp only [handle, present, if_true]
  exact ⟨trivial, amid.row, amid.plans, congrArg (Table.put · step) amid.steps⟩

theorem amid_ofExcept {α : Type} {x : Except Exn α} {a : α} (ok : x = .ok a)
    (amid : Amid id current plans steps w) :
    wp (handle env).sem (M.ofExcept x)
    (ends (Amid id current plans steps) (fun _ _ => False) (· = a)) w := by
  rw [ok]
  exact ⟨rfl, amid⟩

/-- A pending step runs, or the engine stops in it. -/
theorem runStepBy_amid {step : Step} (works : Works env work)
    (stored : steps.get step.stepId = some step) (pending : step.status = .pending)
    (amid : Amid step.executionId current plans steps w) :
    wp (handle env).sem (runStepBy work step now)
      (ends (Amid step.executionId current plans (afterStep step now steps))
        (Stopped step.executionId) (fun _ => True)) w := by
  unfold runStepBy
  refine wp_then (amid_call (a := some step) ?_ rfl rfl rfl amid) ?_ fun _ _ no => no.elim
  · exact congrArg Except.ok (amid.steps ▸ stored)
  rintro _ t rfl amid
  have starts : validateStepTransition step.status .running = .ok () := by rw [pending]; rfl
  refine wp_then (amid_ofExcept starts amid) ?_ fun _ _ no => no.elim
  intro _ t _ amid
  refine wp_then (amid_updateStep (by simp [stored]) amid) ?_ fun _ _ no => no.elim
  intro _ t _ amid
  refine wp_then (amid_trace amid) ?_ fun _ _ no => no.elim
  intro _ t _ amid
  refine wp_then (works { step with status := .running, updatedAt := now } now _ _ _ t rfl amid) ?_
    fun _ _ stopped => stopped
  intro result t _ amid
  refine wp_then (amid_call (a := ()) rfl rfl rfl rfl amid) ?_ fun _ _ no => no.elim
  intro _ t _ amid
  refine wp_then (amid_ofExcept rfl amid) ?_ fun _ _ no => no.elim
  intro _ t _ amid
  refine wp_then (amid_updateStep ?_ amid) ?_ fun _ _ no => no.elim
  · exact congrArg Option.isSome
      (Table.get_put_self (r := { step with status := .running, updatedAt := now }))
  intro _ t _ amid
  refine wp_mono ?_ (amid_trace amid)
  intro o t ht
  cases o with
  | ret u => exact ht
  | raise e => exact ht.elim
  | halt => exact ht

/-- The plan of a run, as its row and the store give it. -/
def planOf (id : UUID) (w : World) : Option ExecutionPlan :=
  (w.execution id).bind fun row => row.currentPlanId.bind w.repo.plans.get

/-- A round that goes on: one step of the plan that was pending and ready has run. -/
structure Advanced (id : UUID) (w t : World) : Prop where
  row : ∃ row, t.execution id = some row
  plan : planOf id t = planOf id w
  moved : ∃ plan step now, planOf id w = some plan ∧
    nextPendingReady (stepsInPlanOrder (w.repo.listStepsForExecution id) plan)
      (w.repo.listStepsForExecution id) =
      some step ∧ t.repo.steps = afterStep step now w.repo.steps

/-- The loop has ended: with a row that may be left, or by an error of the engine. -/
def Ended (id : UUID) : Outcome Exn Execution → World → Prop
  | .ret _, t => ∃ last, t.execution id = some last ∧ Settled last
  | .raise e, t => Stopped id e t
  | .halt, _ => False

theorem Replying.contained (replying : Replying env) (w : World) (op : Op) :
    escapes op (handle env w op).1 = false := by
  cases answer : (handle env w op).1 with
  | ok a => rfl
  | error e =>
      have open_ : op.exposed = false := by
        rw [← Bool.not_eq_true]
        intro exposed
        have quiet : op.quiet false = true := by
          cases op <;> first | rfl | exact absurd exposed (by simp [Op.exposed])
        obtain ⟨a, ok⟩ := replying.answers quiet w
        exact absurd (answer.symm.trans ok) (by simp)
      simp [escapes, open_]

/-- What is shown with a note of escaping errors holds without it, as there are none. -/
theorem Replying.unwatched (replying : Replying env) {α : Type} {p : M α}
    {Q : Outcome Exn α → World × Bool → Prop} (spec : wp (watched env) p Q (w, false)) : wp
      (handle env).sem p (fun o t => Q o (t, false)) w := by
  refine wp_mono ?_ (wp_of_view (L := (handle env).sem) (R := fun t s => s = (t, false)) ?_ rfl
    spec)
  · rintro o t ⟨_, rfl, post⟩
    exact post
  · rintro t _ op rfl _
    refine ⟨trivial, fun r u step => ⟨(u, false), ?_, rfl⟩⟩
    have answer : handle env t op = (r, u) := step
    have clean := replying.contained t op
    rw [answer] at clean
    change watch escapes (handle env) (t, false) op = _
    simp only [watch, answer, clean, Bool.or_false]

theorem Replying.unwatched_ends (replying : Replying env) {α : Type} {p : M α}
    {I : World × Bool → Prop} {J : Exn → World × Bool → Prop} {R : α → Prop}
    (spec : wp (watched env) p (ends I J R) (w, false)) :
    wp (handle env).sem p (ends (fun t => I (t, false)) (fun e t => J e (t, false)) R) w := by
  refine wp_mono ?_ (replying.unwatched spec)
  intro o t ht
  cases o with
  | ret a => exact ht
  | raise e => exact ht
  | halt => exact ht

theorem Amid.holds (amid : Amid id current plans steps w) : Holds id (fun _ => True) (· = steps)
    (w, false) := by
  obtain ⟨row, stored, _⟩ := amid.row
  exact ⟨rfl, ⟨row, stored, trivial⟩, amid.steps⟩

theorem resolvePlan_amid {row : Execution} (same : row.currentPlanId = current)
    (amid : Amid id current plans steps w) : wp (handle env).sem (resolvePlan row)
      (ends (Amid id current plans steps) (fun _ _ => False) (· = current.bind plans.get)) w := by
  unfold resolvePlan
  rw [same]
  cases current with
  | none => exact ⟨rfl, amid⟩
  | some planId =>
      exact @amid_call env id _ plans steps w (.getPlan planId) _
        (congrArg (fun t => Except.ok (Table.get t planId)) amid.plans) rfl rfl rfl amid

/-- A part that ends the loop. -/
theorem rounds_some {more : World → Prop} {p : M Execution}
    (spec : wp (handle env).sem p (Ended id) w) :
    wp (handle env).sem (p >>= fun ex => pure (some ex)) (rounds (Ended id) more) w := by
  rw [wp_bind]
  refine wp_mono ?_ spec
  intro o t ht
  cases o with
  | ret ex => exact ht
  | raise e => exact ht
  | halt => exact ht

/-- What ends a run well, seen without the note. -/
theorem Replying.ended (replying : Replying env) {p : M Execution} {T : Table UUID Step → Prop}
    (spec : wp (watched env) p (ends (Holds id Settled T) (Failed id) (fun _ => True)) (w, false)) :
    wp (handle env).sem p (Ended id) w := by
  refine wp_mono ?_ (replying.unwatched spec)
  intro o t ht
  cases o with
  | ret ex => exact ht.2.stored
  | raise e =>
      exact ⟨of_not_not fun escaped => absurd (ht.escaped.mpr escaped) (by simp), ht.stored⟩
  | halt => exact ht

theorem cancelExecution_ended (replying : Replying env) {reason : String}
    (amid : Amid id current plans steps w) :
    wp (handle env).sem (cancelExecution id reason now) (Ended id) w := by
  refine replying.ended (T := (· = steps)) (wp_mono ?_ (cancelExecution_holds amid.holds))
  intro o t ht
  cases o with
  | ret a =>
      refine ⟨trivial, ht.2.mono ?_ fun _ h => h⟩
      rintro next ⟨row, _, status⟩
      split at status
      · next terminal => exact .inl (status ▸ terminal)
      · exact .inl (by rw [status]; rfl)
  | raise e => exact ht.elim
  | halt => exact ht

/-- With the row stored, a round ends the run or runs one step. -/
theorem loopRound_advances (replying : Replying env) (works : Works env work)
    (amid : Amid id current plans steps w) :
    wp (handle env).sem (loopRound work id) (rounds (Ended id) (Advanced id w)) w := by
  have plan_of : ∀ {table t}, Amid id current plans table t → planOf id t = current.bind
    plans.get := by
    intro table t amid
    obtain ⟨row, stored, same⟩ := amid.row
    rw [planOf, stored, amid.plans, ← same]
    rfl
  have known := plan_of amid
  have listed := amid.steps
  unfold loopRound
  rw [wp_bind]
  refine wp_mono ?_ (amid_get amid)
  rintro _ t ⟨row, rfl, ident, same, stored, rfl⟩
  refine wp_ite (fun _ => ?_) fun _ =>
    wp_ite (fun awaiting => ⟨row, stored, .inr awaiting⟩) fun _ =>
      wp_ite (fun terminal => ⟨row, stored, .inl terminal⟩) fun _ => ?_
  · refine wp_then (amid_call rfl rfl rfl rfl amid) ?_ fun _ _ no => no.elim
    exact fun now u _ amid => rounds_some (cancelExecution_ended replying amid)
  · refine wp_then (amid_call rfl rfl rfl rfl amid) ?_ fun _ _ no => no.elim
    intro _ u _ amid
    refine wp_then (resolvePlan_amid same amid) ?_ fun _ _ no => no.elim
    rintro resolved u found amid
    cases resolved with
    | none => exact amid.stopped rfl
    | some plan =>
        refine wp_then (amid_call rfl rfl rfl rfl amid) ?_ fun _ _ no => no.elim
        intro now u _ amid
        obtain ⟨next, entered, change⟩ := maybeEnterValidating_eq row ‹List Step› now
        rw [entered, wp_bind, wp_ret, andThen_ret]
        have written : next.executionId = id ∧ next.currentPlanId = current := by
          rcases change with rfl | ⟨_, rfl⟩
          · exact ⟨ident, same⟩
          · exact ⟨ident, same⟩
        refine wp_then (amid_update written.1 written.2 amid) ?_ fun _ _ no => no.elim
        intro _ u _ amid
        rw [wp_bind]
        refine wp_mono ?_ (amid_get amid)
        rintro _ _ ⟨row, rfl, ident, same, stored, rfl⟩
        refine wp_ite (fun terminal => ⟨row, stored, .inl terminal⟩) fun _ => ?_
        refine wp_then (amid_call (a := t.repo.listStepsForExecution id) ?_ rfl rfl rfl amid) ?_
          fun _ _ no => no.elim
        · exact congrArg Except.ok
            (by simp only [Repository.listStepsForExecution, amid.steps, listed])
        rintro _ v rfl amid
        split
        · next step chosen =>
            obtain ⟨member, pending⟩ := nextPendingReady_mem chosen
            obtain ⟨inside, owned⟩ := Table.mem_sortedBy.mp member
            have kept : steps.get step.stepId = some step := listed ▸ Table.get_of_mem inside
            obtain rfl : step.executionId = id := by simpa using owned
            refine wp_then (runStepBy_amid works kept pending amid) ?_ fun _ _ stopped => stopped
            intro _ x _ amid
            obtain ⟨last, stored, _⟩ := amid.row
            exact ⟨⟨last, stored⟩, (plan_of amid).trans known.symm, plan, step, now, known.trans
              found.symm, chosen, amid.steps.trans (congrArg _ listed.symm)⟩
        · exact rounds_some (replying.ended (completeRun_holds ident amid.holds))

/-- How many entries of the plan stand for a pending step. -/
def pendingInPlan (id : UUID) (plan : ExecutionPlan) (w : World) : Nat :=
  (stepsInPlanOrder (w.repo.listStepsForExecution id) plan).countP fun s => decide
    (s.status = .pending)

theorem pendingInPlan_le {plan : ExecutionPlan} : pendingInPlan id plan w ≤ plan.steps.length :=
  List.countP_le_length.trans (List.length_filterMap_le _ _)

/-- The step in the place of its old version. -/
def renewed (s : Step) (x : Step) : Step := if x.stepId = s.stepId then s else x

theorem stepsInPlanOrder_renewed {s : Step} {listed : List Step} {plan : ExecutionPlan}
    (keyed : ∀ x ∈ listed, x.stepId = s.stepId → plannerKey s = plannerKey x) :
    stepsInPlanOrder (listed.map (renewed s)) plan = (stepsInPlanOrder listed plan).map
      (renewed s) := by
  have key : ∀ x ∈ listed, plannerKey (renewed s x) = plannerKey x := by
    intro x member
    unfold renewed
    split
    · next same => exact keyed x member same
    · rfl
  unfold stepsInPlanOrder
  rw [List.map_filterMap]
  congr 1
  funext spec
  rw [← List.map_reverse, List.find?_map]
  congr 1
  refine List.find?_congr fun x member => ?_
  exact congrArg (Json.isStr · spec.stepKey) (key x (List.mem_reverse.mp member))

/-- A row that comes later does not count as pending where the old one did. -/
theorem countP_renewed {s x : Step} {l : List Step} (done : s.status ≠ .pending) (member : x ∈ l)
    (same : x.stepId = s.stepId) (pending : x.status = .pending) :
    (l.map (renewed s)).countP (fun y => decide (y.status = .pending)) <
      l.countP fun y => decide (y.status = .pending) := by
  have fewer : ∀ y, (renewed s y).status = .pending → y.status = .pending := by
    intro y waiting
    unfold renewed at waiting
    split at waiting
    · exact absurd waiting done
    · exact waiting
  rw [List.countP_map]
  induction l with
  | nil => cases member
  | cons y rest ih =>
      have rest_le : rest.countP ((fun y => decide (y.status = .pending)) ∘ renewed s) ≤
          rest.countP fun y => decide (y.status = .pending) :=
        List.countP_mono_left fun z _ waiting => by simpa using fewer z (by simpa using waiting)
      rw [List.countP_cons, List.countP_cons]
      rcases List.mem_cons.mp member with rfl | later
      · simp [renewed, same, done, pending]
        omega
      · have := ih later
        have head := fewer y
        simp only [Function.comp, decide_eq_true_eq] at this rest_le ⊢
        split <;> split <;> first | omega | simp_all

/-- A step that runs leaves the listing as it was, but for its own row. -/
theorem listed_afterStep {step : Step} {table : Table UUID Step}
    (stored : table.get step.stepId = some step) :
    (afterStep step now table).sortedBy (fun s => s.executionId = id) Step.createdAt =
      (table.sortedBy (fun s => s.executionId = id) Step.createdAt).map
        (renewed { step with status := .succeeded, updatedAt := now }) := by
  let running : Step := { step with status := .running, updatedAt := now }
  let done : Step := { step with status := .succeeded, updatedAt := now }
  let own : Step → Bool := fun s => s.executionId = id
  have first : (table.put running).sortedBy own Step.createdAt =
      (table.sortedBy own Step.createdAt).map (renewed running) := Table.sortedBy_put stored rfl rfl
  have second : ((table.put running).put done).sortedBy own Step.createdAt =
      ((table.put running).sortedBy own Step.createdAt).map (renewed done) :=
    Table.sortedBy_put (Table.get_put_self (r := running)) rfl rfl
  refine second.trans ?_
  rw [first, List.map_map]
  refine List.map_congr_left fun x _ => ?_
  change (if (if x.stepId = step.stepId then running else x).stepId = step.stepId then done
    else if x.stepId = step.stepId then running else x) = if x.stepId = step.stepId then done else x
  by_cases own : x.stepId = step.stepId
  · rw [if_pos own, if_pos own, if_pos rfl]
  · rw [if_neg own, if_neg own]

theorem Advanced.chosen {t : World} (advanced : Advanced id w t) :
    ∃ plan step now, planOf id w = some plan ∧
    step ∈ stepsInPlanOrder (w.repo.listStepsForExecution id) plan ∧
      w.repo.steps.get step.stepId = some step ∧
    step.executionId = id ∧ step.status = .pending ∧ t.repo.steps = afterStep step now
      w.repo.steps := by
  obtain ⟨plan, step, now, known, chosen, after⟩ := advanced.moved
  obtain ⟨member, pending⟩ := nextPendingReady_mem chosen
  obtain ⟨inside, owned⟩ := Table.mem_sortedBy.mp member
  exact ⟨plan, step, now, known, List.mem_of_find?_eq_some chosen, Table.get_of_mem
    inside, by simpa using owned, pending, after⟩

/-- The entries of the plan that are yet to run. -/
def roundsLeft (id : UUID) (w : World) : Nat :=
  (planOf id w).elim 0 fun plan => pendingInPlan id plan w

theorem Advanced.fewer {t : World} (advanced : Advanced id w t) :
    roundsLeft id t < roundsLeft id w := by
  obtain ⟨plan, step, now, known, member, stored, _, pending, after⟩ := advanced.chosen
  rw [roundsLeft, roundsLeft, advanced.plan, known]
  change List.countP _ _ < List.countP _ _
  have listed : t.repo.listStepsForExecution id = (w.repo.listStepsForExecution id).map
      (renewed { step with status := .succeeded, updatedAt := now }) := by
    simp only [Repository.listStepsForExecution, after]
    exact listed_afterStep stored
  rw [listed, stepsInPlanOrder_renewed]
  · exact countP_renewed (by simp) member rfl pending
  · intro x inside same
    have version : x = step := Table.eq_of_key (Table.mem_sortedBy.mp inside).1
      (Table.get_eq_some.mp stored).1 same
    rw [version]
    rfl

/-- One step has left PENDING, and no other row of a step has changed. -/
def MovesOne (id : UUID) (w t : World) : Prop :=
  ∃ step now, w.repo.steps.get step.stepId = some step ∧ step.executionId = id ∧
    step.status = .pending ∧
    ∀ k, t.repo.steps.get k =
      if k = step.stepId then some { step with status := .succeeded, updatedAt := now }
        else w.repo.steps.get k

theorem Advanced.movesOne {t : World} (advanced : Advanced id w t) : MovesOne id w t := by
  obtain ⟨plan, step, now, _, _, stored, owned, pending, after⟩ := advanced.chosen
  refine ⟨step, now, stored, owned, pending, fun k => ?_⟩
  rw [after, afterStep, Table.get_put]
  change (if k = step.stepId then _ else _) = _
  by_cases own : k = step.stepId
  · rw [if_pos own, if_pos own]
  · rw [if_neg own, if_neg own]
    exact Table.get_put_of_ne own

/-- With more rounds than a measure that goes down in every round, the loop ends. -/
theorem loop_ends (replying : Replying env) (works : Works env work)
    {measure : World → Nat} {fuel : Nat} (down : ∀ w t, Advanced id w t → measure t < measure w)
    (enough : measure w < fuel) (stored : ∃ row, w.execution id = some row) : wp (handle env).sem
      ((loopRound work id).loop fuel) (Ended id) w := by
  refine wp_loop (I := fun w : World => ∃ row, w.execution id = some row) stored enough
    fun w ⟨row, stored⟩ => ?_
  have amid : Amid id row.currentPlanId w.repo.plans w.repo.steps w :=
    ⟨⟨row, stored, rfl⟩, rfl, rfl⟩
  refine wp_mono ?_ (loopRound_advances replying works amid)
  intro o t ht
  cases o with
  | ret answer =>
      cases answer with
      | some ex => exact ht
      | none => exact ⟨ht.row, down w t ht⟩
  | raise e => exact ht
  | halt => exact ht

theorem Advanced.fewerPending {t : World} (advanced : Advanced id w t) :
    pendingSteps id t.repo.steps < pendingSteps id w.repo.steps := by
  obtain ⟨_, step, now, _, _, stored, rfl, pending, after⟩ := advanced.chosen
  rw [after]
  exact pendingSteps_afterStep stored pending

theorem runExecutionBy_ends (replying : Replying env) (works : Works env work) {fuel : Nat}
    (stored : ∃ row, w.execution id = some row) (enough : pendingSteps id w.repo.steps + 5 ≤ fuel) :
    wp (handle env).sem (engine.runExecutionBy work fuel id) (Ended id) w := by
  obtain ⟨row, stored⟩ := stored
  unfold runExecutionBy
  rw [wp_bind]
  have amid : Amid id row.currentPlanId w.repo.plans w.repo.steps w :=
    ⟨⟨row, stored, rfl⟩, rfl, rfl⟩
  refine wp_mono ?_ (amid_get amid)
  rintro _ t ⟨row, rfl, ident, _, stored, rfl⟩
  have holds : Holds id (· = row) (pendingSteps id · ≤ pendingSteps id t.repo.steps) (t, false) :=
    ⟨rfl, ⟨row, stored, rfl⟩, Nat.le_refl _⟩
  refine wp_then (replying.unwatched_ends (@holds_call env id _ _ _ .now _ rfl rfl rfl holds)) ?_
    fun _ _ no => no.elim
  intro now u _ holds
  obtain ⟨row, kept, rfl⟩ := holds.stored
  refine wp_ite (fun terminal => ⟨_, kept, .inl terminal⟩) fun _ => ?_
  rw [wp_bind]
  refine wp_mono ?_ (replying.unwatched (enterPlanning_holds ident holds))
  rintro _ v ⟨next, rfl, ident, holds, _⟩
  refine wp_then (replying.unwatched_ends (enterExecuting_holds ident holds)) ?_
    fun _ _ no => no.elim
  intro _ x _ holds
  obtain ⟨last, stored, _⟩ := holds.stored
  exact loop_ends replying works (fun _ _ advanced => advanced.fewerPending)
    (Nat.lt_of_le_of_lt holds.steps (by omega))
    ⟨last, stored⟩

/-- A start returns, and the row is left where a run may be left. -/
theorem startExecutionBy_settles (replying : Replying env) (works : Works env work) {fuel : Nat}
    (stored : ∃ row, w.execution id = some row) (enough : pendingSteps id w.repo.steps + 5 ≤ fuel) :
    wp (handle env).sem (engine.startExecutionBy work fuel id)
      (fun o t => (∃ ex, o = .ret ex) ∧ ∃ last, t.execution id = some last ∧ Settled last) w := by
  unfold startExecutionBy
  rw [wp_tryCatch]
  refine wp_mono ?_ (runExecutionBy_ends replying works stored enough)
  intro o t ht
  cases o with
  | ret ex => exact ⟨⟨ex, rfl⟩, ht⟩
  | raise e =>
      obtain ⟨orchestration, row, stored⟩ := ht
      refine wp_ite (fun _ => ?_) fun other => absurd orchestration other
      have holds : Holds id (fun _ => True) (fun _ => True) (t, false) :=
        ⟨rfl, ⟨row, stored, trivial⟩, trivial⟩
      refine wp_mono ?_ (replying.unwatched (failExecution_holds holds))
      intro o u hu
      cases o with
      | ret a => exact ⟨⟨a, rfl⟩, hu.2.stored⟩
      | raise e => exact hu.elim
      | halt => exact hu.elim
  | halt => exact ht.elim

end

/-- `start_execution` returns, and the stored row has ended or awaits approval. -/
def ReturnsSettled (env : Env) (p : M Execution) (id : UUID) (w : World) : Prop :=
  (∃ ex, (run (handle env) p w).1 = .ret ex) ∧
    ∃ last, (run (handle env) p w).2.execution id = some last ∧ Settled last

/-- The loop of a run and the call around it, with the work of the steps left to `work`. -/
structure LoopTerminates (env : Env) (engine : ExecutionEngine) (work : Step → Time → M StepResult)
    (id : UUID) (w : World) : Prop where
  /-- From any stored state, an iteration that continues takes one step out of PENDING. -/
  each : ∀ t row, t.execution id = some row →
    (run (handle env) (loopRound work id) t).1 = .ret none →
    MovesOne id t (run (handle env) (loopRound work id) t).2
  /-- One iteration more than the plan has entries is never used up. -/
  bound : (run (handle env) ((loopRound work id).loop ((planOf id w).elim 0 (·.steps.length) + 1))
    w).1 ≠ .halt
  starts : ∀ fuel, pendingSteps id w.repo.steps + 5 ≤ fuel →
    ReturnsSettled env (engine.startExecutionBy work fuel id) id w

/-- Whatever the plan, its graph and the statuses of the steps, and whoever does their work. -/
theorem execution_loop_terminates {env : Env} {work : Step → Time → M StepResult}
    {id : UUID} {w : World} {row : Execution} (engine : ExecutionEngine) (replying : Replying env)
    (works : Works env work) (stored : w.execution id = some row) :
    LoopTerminates env engine work id w where
  each t last found continued := by
    have amid : Amid id last.currentPlanId t.repo.plans t.repo.steps t :=
      ⟨⟨last, found, rfl⟩, rfl, rfl⟩
    have spec := (wp_sem_iff _ _ _ _).mp (loopRound_advances replying works amid)
    rw [continued] at spec
    exact Advanced.movesOne spec
  bound := by
    have few : roundsLeft id w < (planOf id w).elim 0 (·.steps.length) + 1 := by
      unfold roundsLeft
      cases planOf id w with
      | none => exact Nat.zero_lt_one
      | some plan => exact Nat.lt_succ_of_le pendingInPlan_le
    have spec := (wp_sem_iff _ _ _ _).mp
      (loop_ends replying works (fun _ _ advanced => advanced.fewer) few ⟨row, stored⟩)
    intro halted
    rw [halted] at spec
    exact spec.elim
  starts fuel enough :=
    (wp_sem_iff _ _ _ _).mp (startExecutionBy_settles replying works ⟨row, stored⟩ enough)

/-- The engine's own loop and start, with the work that it ships. -/
theorem engine_terminates {env : Env} {id : UUID} {w : World} {row : Execution} {fuel : Nat}
    (engine : ExecutionEngine) (replying : Replying env) (stored : w.execution id = some row) :
    (roundsLeft id w < fuel → (run (handle env) (engine.runLoop id fuel) w).1 ≠ .halt) ∧
      (pendingSteps id w.repo.steps + 5 ≤ fuel →
        ReturnsSettled env (engine.startExecution fuel id) id w) := by
  have works : Works env engine.stepWork := stepWork_works replying
  refine ⟨fun few halted => ?_, fun enough => ?_⟩
  · have spec := (wp_sem_iff _ _ _ _).mp
      (loop_ends replying works (fun _ _ advanced => advanced.fewer) few ⟨row, stored⟩)
    rw [← runLoop_eq, halted] at spec
    exact spec.elim
  · rw [startExecution_eq]
    exact (wp_sem_iff _ _ _ _).mp (startExecutionBy_settles replying works ⟨row, stored⟩ enough)

theorem replying_answering {decision : PolicyDecision} {validation : String}
    {short : validation.length ≤ 32} :
    Replying (.answering decision validation short) :=
  ⟨fun _ _ => ⟨_, rfl⟩, fun _ _ _ => ⟨_, rfl⟩, fun _ _ _ => ⟨_, rfl⟩, fun _ => ⟨_, rfl⟩⟩

/-- A plan whose last step comes first and one of whose steps waits for itself: three iterations run
a step each, the fourth finds the deadlock, and the start returns with the row failed. -/
theorem execution_loop_terminates_graph :
    LoopTerminates (.answering .allow "passed") (.default .flat)
    (ExecutionEngine.default .flat).stepWork ⟨1⟩ graphWorld ∧
      planOf ⟨1⟩ graphWorld = some graphPlan ∧ graphPlan.steps.length = 4 :=
  ⟨execution_loop_terminates (.default .flat) replying_answering (stepWork_works replying_answering)
    graphWorld_row, rfl, rfl⟩

end AgenticPlatform
