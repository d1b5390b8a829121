import AgenticPlatform.ToolRetries

/-! The retry protocol of the executor: what it is answered in one call, in order, and what its
audit row says of that. -/
namespace AgenticPlatform
open Interaction

/-- An answer of the predicate or of the handler. -/
inductive ToolEvent where
  | checked (stop : Bool)
  | invoked (r : Ending)

namespace ToolEvent

def of {H : Type} : (op : ToolOp H) → Except ToolError op.Res → Option ToolEvent
  | .cancelCheck, .ok stop => some (.checked stop)
  | .run _ _ _, r => some (.invoked r)
  | _, _ => none

def invocation? : ToolEvent → Option Ending
  | invoked r => some r
  | checked _ => none

end ToolEvent

/-- How the invocations of the handler ended, in order. -/
def invocations (events : List ToolEvent) : List Ending :=
  events.filterMap ToolEvent.invocation?

@[simp] theorem invocations_nil : invocations [] = [] := rfl

@[simp] theorem invocations_checked {stop : Bool} {events : List ToolEvent} :
    invocations (.checked stop :: events) = invocations events := rfl

@[simp] theorem invocations_invoked {r : Ending} {events : List ToolEvent} :
    invocations (.invoked r :: events) = r :: invocations events := rfl

@[simp] theorem invocations_append {events later : List ToolEvent} :
    invocations (events ++ later) = invocations events ++ invocations later := List.filterMap_append

section
variable {H : Type} (executor : ToolExecutor H)

/-- What is answered before an attempt that is made. -/
def passed : List ToolEvent := if executor.cancelCheck then [.checked false] else []

@[simp] theorem invocations_passed : invocations (passed executor) = [] := by
  unfold passed
  split <;> rfl

theorem passed_unstopped : .checked true ∉ passed executor := by
  unfold passed
  split <;> simp

/-- At most so many attempts: their events, and the status that they lead to. -/
inductive Tries : Nat → List ToolEvent → ToolCallStatus → Prop
  | cancelled {n : Nat} : Tries (n + 1) [.checked true] .failure
  | ended {n : Nat} {r : Ending} {status : ToolCallStatus} (means : status = .success ↔ Succeeds r)
      (allowed : status ≠ .rejectedByPolicy) :
        Tries (n + 1) (passed executor ++ [.invoked r]) status
  | again {n : Nat} {exc : ToolError} {events : List ToolEvent} {status : ToolCallStatus}
      (transient : isTransient exc = .ok true) (rest : Tries n events status) :
      Tries (n + 1) (passed executor ++ .invoked (.error exc) :: events) status

variable {executor} {n : Nat} {events : List ToolEvent} {status : ToolCallStatus}

namespace Tries

theorem allowed (tries : Tries executor n events status) : status ≠ .rejectedByPolicy := by
  induction tries with
  | cancelled => decide
  | ended _ allowed => exact allowed
  | again _ _ ih => exact ih

theorem bounded (tries : Tries executor n events status) : (invocations events).length ≤ n := by
  induction tries with
  | cancelled => exact Nat.zero_le _
  | ended _ _ => simp
  | again _ _ ih => simpa using ih

/-- The status is the verdict on the last invocation. -/
theorem success (tries : Tries executor n events status) :
    status = .success ↔ ∃ r, (invocations events).getLast? = some r ∧ Succeeds r := by
  induction tries with
  | cancelled => simp
  | ended means _ => simpa using means
  | @again n exc events status _ rest ih =>
      rw [ih]
      cases made : invocations events with
      | nil => simp [made, Succeeds]
      | cons first later => simp [made, List.getLast?_cons_cons]

theorem retried (tries : Tries executor n events status) :
    ∀ r ∈ (invocations events).dropLast, ∃ exc, r = .error exc ∧ isTransient exc = .ok true := by
  induction tries with
  | cancelled => simp
  | ended _ _ => simp
  | @again n exc events status transient rest ih =>
      cases made : invocations events with
      | nil => simp [made]
      | cons first later =>
          rw [made] at ih
          simp only [invocations_append, invocations_passed, invocations_invoked,
            List.nil_append, made, List.dropLast_cons_cons, List.mem_cons]
          rintro r (rfl | member)
          · exact ⟨exc, rfl, transient⟩
          · exact ih r (by simpa using member)

/-- Nothing is invoked once the predicate has answered true. -/
theorem stopped (tries : Tries executor n events status) {before after : List ToolEvent}
    (split : events = before ++ .checked true :: after) : invocations after = [] := by
  induction tries generalizing before with
  | cancelled =>
      cases before with
      | nil =>
          obtain rfl := (List.cons.inj split).2
          rfl
      | cons e rest =>
          have : ([] : List ToolEvent) = rest ++ .checked true :: after := (List.cons.inj split).2
          simp at this
  | @ended n r status _ _ =>
      have member : ToolEvent.checked true ∈ passed executor ++ [.invoked r] := by
        rw [split]
        simp
      exact absurd member (by simpa using passed_unstopped executor)
  | @again n exc events status _ rest ih =>
      obtain ⟨more, rfl, same⟩ | ⟨more, prefixed, same⟩ := List.append_eq_append_iff.mp split
      · cases more with
        | nil => cases same
        | cons e more =>
            obtain ⟨_, rfl⟩ := List.cons.inj same
            exact ih rfl
      · cases more with
        | nil => cases same
        | cons e more =>
            obtain ⟨rfl, _⟩ := List.cons.inj same
            have member : ToolEvent.checked true ∈ passed executor := by
              rw [prefixed]
              simp
            exact absurd member (passed_unstopped executor)

end Tries
end

namespace ToolExecutor
variable {H : Type} {executor : ToolExecutor H} {env : ToolEnv H}
  {tool : RegisteredTool} {handler : H}
  {tcid : UUID} {request : ToolInvokeRequest} {now : Time} {started : Nat} {s : ToolState}

theorem transcript_isCancelled {stop : Bool} (answer : env.stops executor s.checks = .ok stop) :
    transcript ToolEvent.of env.handle executor.isCancelled s =
      if executor.cancelCheck then [.checked stop] else [] := by
  unfold ToolEnv.stops at answer
  unfold isCancelled
  by_cases asked : executor.cancelCheck = true
  · rw [if_pos asked] at answer
    rw [if_pos asked, if_pos asked, transcript_perform]
    simp only [ToolEnv.handle, answer]
    rfl
  · rw [if_neg asked, if_neg asked]
    rfl

theorem transcript_runAttempt :
    transcript ToolEvent.of env.handle
      (runWithTimeout handler request.input tool.timeoutBoundsMs).attempt s =
      [.invoked (env.run s.invocations handler request.input (max 1 tool.timeoutBoundsMs))] := by
  rw [transcript_attempt, runWithTimeout, transcript_bind_silent, transcript_tryCatch,
    transcript_perform]
  · rfl
  · intro e t
    split <;> rfl
  · intro ended t
    cases ended <;> rfl

theorem outcome_succeeds {payload : Dict} {n : Nat} : Succeeds
    (env.outcome tool handler payload n) ↔
    Succeeds (env.run n handler payload (max 1 tool.timeoutBoundsMs)) := by
  unfold ToolEnv.outcome
  cases env.run n handler payload (max 1 tool.timeoutBoundsMs) with
  | ok v => exact Iff.rfl
  | error exc =>
      dsimp only
      split <;> exact Iff.rfl

/-- The predicate answers with a boolean. -/
def Answering (env : ToolEnv H) : Prop := ∀ n, ∃ stop, env.cancelled n = .ok stop

theorem Answering.stops (answering : Answering env) (n : Nat) :
    ∃ stop, env.stops executor n = .ok stop := by
  unfold ToolEnv.stops
  split
  · exact answering n
  · exact ⟨false, rfl⟩

theorem transcript_ofExcept {α : Type} {x : Except ToolError α} :
    transcript ToolEvent.of env.handle (ToolExecutor.ofExcept x : ToolM H α) s = [] := by
  cases x <;> rfl

theorem transcript_exhausted {lastExc : Option ToolError} :
    transcript ToolEvent.of env.handle
      (exhausted tcid request now tool started lastExc) s = [] := by
  unfold exhausted
  rw [transcript_bind_silent]
  · rfl
  · intro latencyMs t
    rw [transcript_bind_silent fun _ _ => rfl]
    exact transcript_ofExcept

theorem transcript_invalidAttempt {attempt : Nat} {exc : ToolError} :
    transcript ToolEvent.of env.handle
      (invalidAttempt tcid request now tool started attempt exc) s = [] := by
  unfold invalidAttempt
  rw [transcript_bind_silent]
  · rfl
  · intro latencyMs t
    rw [transcript_bind_silent fun _ _ => rfl]
    exact transcript_ofExcept

section
variable {attempt remaining : Nat} {lastExc : Option ToolError}

theorem passed_checked (stop : env.stops executor s.checks = .ok false) :
    transcript ToolEvent.of env.handle executor.isCancelled s = passed executor ∧
      run env.handle executor.isCancelled s = (.ret false, executor.checked s) := by
  rw [transcript_isCancelled stop, run_isCancelled, stop]
  exact ⟨rfl, rfl⟩

theorem transcript_again (stop : env.stops executor s.checks = .ok false) {exc : ToolError}
    (failed : env.outcome tool handler request.input s.invocations = .error exc)
    (retryable : Retryable (.error exc)) (more : remaining ≠ 0) :
    transcript ToolEvent.of env.handle
        (executor.attempts tcid request now tool handler started attempt (remaining + 1) lastExc)
          s =
      passed executor ++ .invoked (env.run s.invocations handler request.input
        (max 1 tool.timeoutBoundsMs)) ::
        transcript ToolEvent.of env.handle (executor.attempts tcid request now tool handler started
          (attempt + 1) remaining
          (some exc)) (executor.attempted s) := by
  obtain ⟨checks, ran⟩ := passed_checked stop
  have made := @run_attempt _ env tool handler request (executor.checked s)
  rw [checked_invocations, failed] at made
  rw [attempts, transcript_bind ran, checks]
  simp only [Bool.false_eq_true, if_false]
  rw [transcript_bind made, transcript_runAttempt, checked_invocations]
  simp only [retryable.1, if_false]
  rw [transcript_bind (run_ofExcept.trans (by rw [retryable.2]; rfl)), transcript_ofExcept]
  simp only [more, not_true, or_self, if_false]
  rw [transcript_bind (run_perform _ _ _)]
  rfl

/-- What is left to be said of the last attempt makes no call that is noted. -/
theorem transcript_last (stop : env.stops executor s.checks = .ok false)
    (last : Retryable (env.outcome tool handler request.input s.invocations) → remaining = 0)
    (reportable : Reportable (env.outcome tool handler request.input s.invocations)) :
    transcript ToolEvent.of env.handle
        (executor.attempts tcid request now tool handler started attempt (remaining + 1) lastExc)
          s =
      passed executor ++
        [.invoked (env.run s.invocations handler request.input (max 1 tool.timeoutBoundsMs))] := by
  obtain ⟨checks, ran⟩ := passed_checked stop
  have made := @run_attempt _ env tool handler request (executor.checked s)
  rw [checked_invocations] at made
  rw [attempts, transcript_bind ran, checks]
  simp only [Bool.false_eq_true, if_false]
  have finish {rest : List ToolEvent} {e : ToolEvent} (silent : rest = []) :
      passed executor ++ ([e] ++ rest) = passed executor ++ [e] := by rw [silent]; rfl
  cases outcome : env.outcome tool handler request.input s.invocations with
  | ok ended =>
      rw [outcome] at reportable made
      cases ended with
      | none => cases reportable
      | some returned =>
          rw [transcript_bind made, transcript_runAttempt, checked_invocations]
          refine finish ?_
          cases returned with
          | other => exact transcript_invalidAttempt
          | dict entries =>
              dsimp only
              rw [transcript_bind_silent]
              · rfl
              · intro latencyMs t
                cases (Returned.dict entries).output with
                | some out => rfl
                | none => exact transcript_exhausted
  | error exc =>
      rw [outcome] at made last
      rw [transcript_bind made, transcript_runAttempt, checked_invocations]
      refine finish ?_
      by_cases invalid : exc.kind = .validation
      · simp only [invalid, if_true]
        exact transcript_invalidAttempt
      · simp only [invalid, if_false]
        cases told : isTransient exc with
        | error e => rfl
        | ok transient =>
            have ends : ¬ transient ∨ remaining = 0 := by
              cases transient with
              | true => exact .inr (last ⟨invalid, told⟩)
              | false => exact .inl (by decide)
            rw [transcript_bind run_ofExcept, transcript_ofExcept, List.nil_append]
            simp only [ends, if_true]
            exact transcript_exhausted

theorem attempts_tries_step (answering : Answering env) {tc : ToolCall}
    (rest : remaining ≠ 0 → ∀ exc,
      let q := executor.attempts tcid request now tool handler started (attempt + 1)
        remaining (some exc)
      (run env.handle q (executor.attempted s)).1 = .ret tc →
        Tries executor remaining (transcript ToolEvent.of env.handle q (executor.attempted s))
          tc.status)
    (row : (run env.handle
      (executor.attempts tcid request now tool handler started attempt (remaining + 1) lastExc)
        s).1 = .ret tc) :
    Tries executor (remaining + 1) (transcript ToolEvent.of env.handle
      (executor.attempts tcid request now tool handler started attempt (remaining + 1) lastExc) s)
        tc.status := by
  obtain ⟨stop, answer⟩ := @Answering.stops _ executor _ answering s.checks
  cases stop with
  | true =>
      obtain ⟨_, tc', row', failed, _⟩ := attempts_cancelled answer
      obtain rfl := Outcome.ret.inj (row.symm.trans row')
      have asked : executor.cancelCheck = true := by
        unfold ToolEnv.stops at answer
        split at answer
        · next asked => exact asked
        · cases answer
      rw [attempts, transcript_bind (run_isCancelled.trans (by rw [answer]; rfl)),
        transcript_isCancelled answer, if_pos asked, failed]
      exact .cancelled
  | false =>
      by_cases more : Retryable (env.outcome tool handler request.input s.invocations) ∧
        remaining ≠ 0
      · obtain ⟨exc, failed, again⟩ := attempts_again answer more.1 more.2
        have worth := outcome_retryable.mp more.1
        rw [transcript_again answer failed (failed ▸ more.1) more.2]
        rw [again] at row
        cases raised : env.run s.invocations handler request.input (max 1 tool.timeoutBoundsMs) with
        | ok v =>
            rw [raised] at worth
            exact worth.elim
        | error exc' =>
            rw [raised] at worth
            exact .again worth.2 (rest more.2 exc row)
      · have last : Retryable (env.outcome tool handler request.input s.invocations) →
          remaining = 0 :=
          fun retryable => not_not.mp fun left => more ⟨retryable, left⟩
        obtain ⟨_, verdict⟩ := attempts_last answer last
        rw [transcript_last answer last (verdict.returns.mp ⟨tc, row⟩)]
        exact .ended ((verdict.success_iff row).trans outcome_succeeds) (verdict.allowed row)

/-- Up to the row that is made, the events are those of tries. -/
theorem attempts_tries (answering : Answering env) (remaining : Nat) {tc : ToolCall}
    (row : (run env.handle
      (executor.attempts tcid request now tool handler started attempt (remaining + 1) lastExc)
        s).1 = .ret tc) :
    Tries executor (remaining + 1) (transcript ToolEvent.of env.handle
      (executor.attempts tcid request now tool handler started attempt (remaining + 1) lastExc) s)
        tc.status := by
  induction remaining generalizing attempt lastExc s with
  | zero => exact attempts_tries_step answering (fun more => absurd rfl more) row
  | succ remaining ih => exact attempts_tries_step answering (fun _ _ => ih) row

end

end ToolExecutor

/-- The answers of one call, in order. -/
def ToolEnv.events {H : Type} (env : ToolEnv H) (executor : ToolExecutor H)
    (request : ToolInvokeRequest) (now : Time) :
    List ToolEvent :=
  transcript ToolEvent.of env.handle (executor.execute request now) ⟨0, 0, 0⟩

/-- Gates before the first attempt: policy, registry, input, and the predicate as it is found. -/
def Gated {H : Type} (executor : ToolExecutor H) (env : ToolEnv H)
    (request : ToolInvokeRequest) : Prop :=
  request.policyDenied = true ∨ executor.registry.get request.toolName = none ∨
    validateInput request ≠ .ok () ∨
    env.stops executor 0 = .ok true

/-- What the row of a call and its events promise. -/
structure RetryProtocol {H : Type} (executor : ToolExecutor H) (env : ToolEnv H)
    (request : ToolInvokeRequest) (events : List ToolEvent) (status : ToolCallStatus) : Prop where
  success : status = .success ↔ ∃ r, (invocations events).getLast? = some r ∧ Succeeds r
  rejected : status = .rejectedByPolicy ↔ request.policyDenied = true
  bounded : ∀ tool handler, executor.registry.get request.toolName = some (tool, handler) →
    (invocations events).length ≤ tool.retryPolicy.maxRetries + 1
  gated : Gated executor env request → invocations events = []
  stopped : ∀ before after, events = before ++ .checked true :: after → invocations after = []
  /-- Each invocation but the last has failed transiently. -/
  retried : ∀ r ∈ (invocations events).dropLast, ∃ exc, r = .error exc ∧ isTransient exc = .ok true

section
variable {H : Type} {executor : ToolExecutor H} {env : ToolEnv H} {request : ToolInvokeRequest}
  {events : List ToolEvent} {status : ToolCallStatus}

/-- A call that does not come to an attempt. -/
theorem RetryProtocol.of_none (silent : invocations events = []) (failed : status ≠ .success)
    (rejected : status = .rejectedByPolicy ↔ request.policyDenied = true) :
    RetryProtocol executor env request events status where
  success := iff_of_false failed (by simp [silent])
  rejected := rejected
  bounded := fun _ _ _ => by simp [silent]
  gated := fun _ => silent
  stopped := by
    rintro before after rfl
    simp only [invocations_append, invocations_checked, List.append_eq_nil_iff] at silent
    exact silent.2
  retried := by simp [silent]

/-- A call that passes the gates and makes its attempts. -/
theorem RetryProtocol.of_tries {tool : RegisteredTool} {handler : H}
    (passes : executor.Passes env request)
    (registered : executor.registry.get request.toolName = some (tool, handler))
    (tries : Tries executor (tool.retryPolicy.maxRetries + 1) events status) :
    RetryProtocol executor env request (passed executor ++ events) status where
  success := by simpa using tries.success
  rejected := iff_of_false tries.allowed (by simp [passes.undenied])
  bounded := by
    intro tool' handler' known
    obtain ⟨rfl, rfl⟩ := Prod.mk.inj (Option.some.inj (registered.symm.trans known))
    simpa using tries.bounded
  gated := by
    rintro (denied | unknown | invalid | stop)
    · exact absurd (denied.symm.trans passes.undenied) (by decide)
    · exact absurd (registered.symm.trans unknown) (by simp)
    · exact absurd passes.valid invalid
    · exact absurd (stop.symm.trans passes.uncancelled) (by simp)
  stopped := by
    intro before after split
    obtain ⟨more, rfl, same⟩ | ⟨more, first, same⟩ := List.append_eq_append_iff.mp split
    · exact tries.stopped same
    · cases more with
      | nil =>
          have cut : events = [] ++ .checked true :: after := same.symm
          exact tries.stopped cut
      | cons e more =>
          obtain ⟨rfl, _⟩ := List.cons.inj same
          have member : ToolEvent.checked true ∈ passed executor := by
            rw [first]
            simp
          exact absurd member (passed_unstopped executor)
  retried := by simpa using tries.retried

namespace ToolExecutor
variable {now : Time} {tool : RegisteredTool} {handler : H}

/-- A call that is stopped at a gate returns a row. -/
theorem gated_protocol (answering : Answering env)
    (gated : ∀ tool handler, ¬ executor.Reaches env request tool handler) :
    ∃ tc, (env.execute executor request now).1 = .ret tc ∧
      RetryProtocol executor env request (env.events executor request now) tc.status := by
  unfold ToolEnv.execute ToolEnv.events execute
  rw [run_bind, run_perform, transcript_bind (run_perform _ _ _), transcript_perform]
  simp only [ToolEnv.handle, Outcome.ofExcept, resume, ToolEvent.of, Option.toList_none,
    List.nil_append]
  by_cases denied : request.policyDenied = true
  · simp only [denied, if_true]
    exact ⟨_, rfl, .of_none rfl (by simp [buildCall]) (iff_of_true rfl denied)⟩
  · simp only [denied, Bool.false_eq_true, if_false]
    cases registered : executor.registry.get request.toolName with
    | none =>
        exact ⟨_, rfl, .of_none rfl (by simp [buildCall])
          (iff_of_false (by simp [buildCall]) denied)⟩
    | some entry =>
        obtain ⟨tool, handler⟩ := entry
        obtain ⟨stop, answer⟩ := @Answering.stops _ executor _ answering 0
        have checked : run env.handle executor.isCancelled ⟨0, 0, 0⟩ =
          (.ret stop, executor.checked ⟨0, 0, 0⟩) := by
          rw [run_isCancelled, answer]
          rfl
        dsimp only
        rw [run_bind, transcript_bind checked, checked, transcript_isCancelled answer]
        cases stop with
        | true =>
            refine ⟨_, rfl, .of_none ?_ (by simp) (iff_of_false (by simp) denied)⟩
            simp only [if_true, transcript_pure, List.append_nil]
            split <;> rfl
        | false =>
            cases valid : validateInput request with
            | error exc =>
                simp only [resume, Bool.false_eq_true, if_false, validateInput_str valid]
                refine ⟨_, rfl, .of_none ?_ (by simp) (iff_of_false (by simp) denied)⟩
                exact (congrArg invocations (List.append_nil _)).trans (invocations_passed executor)
            | ok u =>
                exact absurd ⟨registered, Bool.eq_false_iff.mpr denied, answer, valid⟩
                  (gated tool handler)

/-- What is answered before the loop, and then the loop. -/
theorem events_passed (reaches : executor.Reaches env request tool handler) :
    ∃ s started, executor.At 0 s ∧
    let p := executor.attempts env.fresh request now tool handler started 0
      (tool.retryPolicy.maxRetries + 1) none
    env.execute executor request now = run env.handle p s ∧
      env.events executor request now = passed executor ++ transcript ToolEvent.of
        env.handle p s := by
  obtain ⟨registered, passes⟩ := reaches
  obtain ⟨checks, ran⟩ := @passed_checked _ executor env ⟨0, 0, 0⟩ passes.uncancelled
  refine ⟨{ executor.checked ⟨0, 0, 0⟩ with readings := (executor.checked ⟨0, 0, 0⟩).readings + 1 },
    env.counterNs (executor.checked ⟨0, 0, 0⟩).readings, ⟨checked_invocations, fun asked => ?_⟩, ?_⟩
  · simp only [checked, asked, if_true]
  · unfold ToolEnv.execute ToolEnv.events execute
    rw [run_bind, run_perform, transcript_bind (run_perform _ _ _), transcript_perform]
    simp only [ToolEnv.handle, Outcome.ofExcept, resume, passes.undenied, Bool.false_eq_true,
      if_false, registered]
    rw [run_bind, transcript_bind ran, ran, checks]
    simp only [resume, Bool.false_eq_true, if_false, passes.valid]
    rw [run_bind, run_perform, transcript_bind (run_perform _ _ _)]
    exact ⟨rfl, rfl⟩

end ToolExecutor

open ToolExecutor in
/-- A call returns a row that keeps the protocol exactly when each attempt that it makes is retried
or ends in a way of which a row can be made. -/
theorem retry_protocol_iff (executor : ToolExecutor H) (env : ToolEnv H)
    (request : ToolInvokeRequest) (now : Time) (answering : Answering env) :
    (∃ tc, (env.execute executor request now).1 = .ret tc ∧
      RetryProtocol executor env request (env.events executor request now) tc.status) ↔
        executor.Answered env request := by
  by_cases gated : ∀ tool handler, ¬ executor.Reaches env request tool handler
  · exact iff_of_true (gated_protocol answering gated) fun tool handler reaches => absurd reaches
      (gated tool handler)
  · simp only [not_forall, not_not] at gated
    obtain ⟨tool, handler, reaches⟩ := gated
    obtain ⟨s, started, at_, same, events⟩ := @events_passed _ _ _ _ now _ _ reaches
    have returns := @attempts_returns _ executor env tool handler env.fresh request now started s
      answering.stops
      tool.retryPolicy.maxRetries 0 0 none at_
    rw [same, events]
    constructor
    · rintro ⟨tc, row, _⟩ tool' handler' reaches'
      obtain ⟨rfl, rfl⟩ := Prod.mk.inj (Option.some.inj (reaches.1.symm.trans reaches'.1))
      rw [← Nat.zero_add tool.retryPolicy.maxRetries]
      exact returns.mp ⟨tc, row⟩
    · intro answered
      have reportable := answered tool handler reaches
      rw [← Nat.zero_add tool.retryPolicy.maxRetries] at reportable
      obtain ⟨tc, row⟩ := returns.mpr reportable
      exact ⟨tc, row, .of_tries reaches.2 reaches.1 (attempts_tries answering _ row)⟩

end

/-- A tool whose every invocation fails transiently. -/
theorem retry_protocol_failing :
    (invocations ((ToolEnv.failing .connection).events (soleTool retriedUpdate) updateRequest
      0)).length = 3 ∧
    ∃ tc, ((ToolEnv.failing .connection).execute (soleTool retriedUpdate) updateRequest 0).1 =
      .ret tc ∧
      RetryProtocol (soleTool retriedUpdate) (.failing .connection) updateRequest
        ((ToolEnv.failing .connection).events (soleTool retriedUpdate) updateRequest 0)
          tc.status := by
  refine ⟨rfl, (retry_protocol_iff (soleTool retriedUpdate) (.failing .connection) updateRequest 0
    fun _ => ⟨false, rfl⟩).mpr fun tool handler _ k _ _ _ => .inr ?_⟩
  exact ⟨fun _ => rfl, rfl⟩

/-- A handler that never ends, and one whose error has no text. -/
theorem retry_protocol_broken :
    ¬ (∀ (executor : ToolExecutor FixtureHandler) (env : ToolEnv FixtureHandler)
      (request : ToolInvokeRequest), ToolExecutor.Answering env →
        ∃ tc, (env.execute executor request 0).1 = .ret tc) ∧
    ((ToolEnv.always (.ok none)).execute (soleTool retriedUpdate) updateRequest 0).1 = .halt ∧
    ((ToolEnv.always (.error ⟨.other "ValueError", none⟩)).execute (soleTool retriedUpdate)
      updateRequest 0).1 =
      .raise (typeError "__str__ returned non-string") := by
  refine ⟨fun returns => ?_, rfl, rfl⟩
  obtain ⟨tc, row⟩ := returns (soleTool retriedUpdate) (.always (.ok none)) updateRequest
    fun _ => ⟨false, rfl⟩
  cases row

end AgenticPlatform
