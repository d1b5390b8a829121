import AgenticPlatform.ToolRuntime

/-! How often the executor runs a handler, and when its audit row reports success. -/
namespace AgenticPlatform
open Interaction

/-- How an invocation of a handler ends, `none` if it never does. -/
abbrev Ending := Except ToolError (Option Returned)

/-- The surroundings of an executor: what the `n`-th check for cancellation, reading of the counter
and invocation of a handler give. A handler that ends after its timeout is answered with a
timeout. -/
structure ToolEnv (H : Type) where
  fresh : UUID
  cancelled : Nat → Except ToolError Bool
  counterNs : Nat → Nat
  run : Nat → H → Dict → Nat → Ending

/-- How often each was asked for. -/
structure ToolState where
  checks : Nat
  readings : Nat
  invocations : Nat

namespace ToolEnv
variable {H : Type} (env : ToolEnv H)

def handle : Handler (toolRuntime H) ToolError ToolState := fun s op =>
  match op with
  | .uuid4 => (.ok env.fresh, s)
  | .cancelCheck => (env.cancelled s.checks, { s with checks := s.checks + 1 })
  | .perfCounterNs => (.ok (env.counterNs s.readings), { s with readings := s.readings + 1 })
  | .sleep _ => (.ok (), s)
  | .run handler payload timeoutMs =>
      (env.run s.invocations handler payload timeoutMs, { s with invocations := s.invocations + 1 })

/-- One call of the executor. -/
def execute (executor : ToolExecutor H) (request : ToolInvokeRequest) (now : Time) :
    Outcome ToolError ToolCall × ToolState :=
  Interaction.run env.handle (executor.execute request now) ⟨0, 0, 0⟩

/-- What the executor sees of the `n`-th check. -/
def stops (executor : ToolExecutor H) (n : Nat) : Except ToolError Bool :=
  if executor.cancelCheck then env.cancelled n else .ok false

/-- What the executor sees of the `n`-th invocation. -/
def outcome (tool : RegisteredTool) (handler : H) (payload : Dict) (n : Nat) : Ending :=
  match env.run n handler payload (max 1 tool.timeoutBoundsMs) with
  | .ok v => .ok v
  | .error exc =>
      if exc.kind = .timeout then
        .error ⟨.timeout, some ("tool exceeded timeout_bounds_ms=" ++ toString
          tool.timeoutBoundsMs)⟩
      else .error exc

end ToolEnv

/-- An error after which the executor tries again. -/
def Retryable : Ending → Prop
  | .ok _ => False
  | .error exc => exc.kind ≠ .validation ∧ isTransient exc = .ok true

instance (r : Ending) : Decidable (Retryable r) := by
  unfold Retryable
  cases r with
  | ok v => exact inferInstanceAs (Decidable False)
  | error exc => exact inferInstanceAs (Decidable (_ ∧ _))

/-- A dict that the schema of the audit row takes. -/
def Succeeds : Ending → Prop
  | .ok (some r) => r.output.isSome = true
  | _ => False

instance (r : Ending) : Decidable (Succeeds r) := by
  unfold Succeeds
  split
  · exact inferInstanceAs (Decidable (_ = true))
  · exact inferInstanceAs (Decidable False)

/-- An ending of which a row can be made: an error is told to be transient or not, and it has a
text. -/
def Reportable : Ending → Prop
  | .ok r => r.isSome = true
  | .error exc => (exc.kind ≠ .validation → (isTransient exc).isOk = true) ∧ exc.text.isSome = true

instance (r : Ending) : Decidable (Reportable r) := by
  unfold Reportable
  cases r with
  | ok v => exact inferInstanceAs (Decidable (_ = true))
  | error exc => exact inferInstanceAs (Decidable ((_ → _) ∧ _))

/-- An ending that the executor reports as a validation error. -/
def Invalid : Ending → Prop
  | .ok (some .other) => True
  | .ok _ => False
  | .error exc => exc.kind = .validation

theorem Retryable.not_succeeds {r : Ending} (retryable : Retryable r) : ¬ Succeeds r := by
  cases r with
  | ok v => exact fun _ => retryable
  | error exc => exact id

theorem Retryable.not_invalid {r : Ending} (retryable : Retryable r) : ¬ Invalid r := by
  cases r with
  | ok v => exact retryable.elim
  | error exc => exact retryable.1

theorem Succeeds.not_invalid {r : Ending} (succeeds : Succeeds r) : ¬ Invalid r := by
  match r with
  | .ok (some (.dict _)) => exact id
  | .ok (some .other) => cases succeeds
  | .ok none => exact succeeds.elim
  | .error _ => exact succeeds.elim

theorem Succeeds.reportable {r : Ending} (succeeds : Succeeds r) : Reportable r := by
  cases r with
  | ok v =>
      cases v with
      | none => exact succeeds.elim
      | some v => rfl
  | error exc => exact succeeds.elim

namespace ToolExecutor
variable {H : Type} {executor : ToolExecutor H} {env : ToolEnv H}
  {tool : RegisteredTool} {handler : H}
  {tcid : UUID} {request : ToolInvokeRequest} {now : Time} {started : Nat} {s : ToolState}

/-- The state after a check for cancellation. -/
def checked (executor : ToolExecutor H) (s : ToolState) : ToolState :=
  if executor.cancelCheck then { s with checks := s.checks + 1 } else s

@[simp] theorem checked_invocations : (executor.checked s).invocations = s.invocations := by
  unfold checked
  split <;> rfl

/-- The state after an attempt. -/
def attempted (executor : ToolExecutor H) (s : ToolState) : ToolState :=
  { executor.checked s with invocations := s.invocations + 1 }

theorem run_isCancelled : run env.handle executor.isCancelled s =
    (.ofExcept (env.stops executor s.checks), executor.checked s) := by
  unfold isCancelled ToolEnv.stops checked
  by_cases asked : executor.cancelCheck = true
  · rw [if_pos asked, if_pos asked, if_pos asked, run_perform]
    rfl
  · rw [if_neg asked, if_neg asked, if_neg asked]
    rfl

theorem run_elapsedMs : run env.handle (elapsedMs started) s =
    (.ret ((env.counterNs s.readings - started) / 1000000), { s with readings :=
      s.readings + 1 }) := rfl

theorem run_ofExcept {α : Type} {x : Except ToolError α} :
    run env.handle (ofExcept x : ToolM H α) s = (.ofExcept x, s) := by
  cases x <;> rfl

/-- What the executor is left with after an invocation. -/
def caught : Ending → Outcome ToolError (Except ToolError Returned)
  | .ok (some r) => .ret (.ok r)
  | .ok none => .halt
  | .error exc => .ret (.error exc)

/-- One invocation, its error in the hands of the executor. -/
theorem run_attempt : run env.handle
    (runWithTimeout handler request.input tool.timeoutBoundsMs).attempt s =
    (caught (env.outcome tool handler request.input s.invocations), { s with invocations :=
      s.invocations + 1 }) := by
  rw [Prog.attempt, run_tryCatch, run_bind, runWithTimeout, run_bind, run_tryCatch, run_perform,
    ToolEnv.outcome]
  simp only [ToolEnv.handle]
  cases env.run s.invocations handler request.input (max 1 tool.timeoutBoundsMs) with
  | ok ended =>
      cases ended with
      | none => rfl
      | some returned => rfl
  | error exc =>
      by_cases timeout : exc.kind = .timeout
      · simp only [Outcome.ofExcept, rescue, timeout, if_true, run, resume, caught]
      · simp only [Outcome.ofExcept, rescue, timeout, if_false, run, resume, caught]

/-- A row of a call whose handler has returned a dict. -/
structure SuccessRow (tool : RegisteredTool) (attempt : Nat) (tc : ToolCall) : Prop where
  status : tc.status = .success
  error : tc.error = none
  output : ∃ out : Dict, tc.output =
    some (out.set "_tool_runtime" (.obj [("provider_id", .str tool.providerId),
      ("retry_count", .int attempt), ("timed_out", .bool false)]))

/-- A row of a call whose handler has been invoked in vain. -/
structure FailureRow (count : Nat) (tc : ToolCall) : Prop where
  failed : tc.status ≠ .success
  allowed : tc.status ≠ .rejectedByPolicy
  error : ∃ code message rest, tc.error =
    some (toolError code message ++ ("retry_count", .int count) :: rest)

/-- What an attempt that is the last one makes of the ending of its invocation. -/
structure Verdict (tool : RegisteredTool) (attempt : Nat) (r : Ending)
    (o : Outcome ToolError ToolCall) : Prop where
  returns : (∃ tc, o = .ret tc) ↔ Reportable r
  succeeded : ∀ tc, o = .ret tc → Succeeds r → SuccessRow tool attempt tc
  invalid : ∀ tc, o = .ret tc → Invalid r → FailureRow attempt tc
  exhausted : ∀ tc, o = .ret tc → ¬ Succeeds r → ¬ Invalid r →
    FailureRow tool.retryPolicy.maxRetries tc

namespace Verdict
variable {attempt : Nat} {r : Ending} {o : Outcome ToolError ToolCall} {tc : ToolCall}

/-- No row is made. -/
theorem of_lost (lost : ∀ tc, o ≠ .ret tc) (unreportable : ¬ Reportable r) :
    Verdict tool attempt r o where
  returns := iff_of_false (fun ⟨tc, row⟩ => lost tc row) unreportable
  succeeded tc row := absurd row (lost tc)
  invalid tc row := absurd row (lost tc)
  exhausted tc row := absurd row (lost tc)

theorem of_success (succeeds : Succeeds r) (row : SuccessRow tool attempt tc) :
    Verdict tool attempt r (.ret tc) where
  returns := iff_of_true ⟨tc, rfl⟩ succeeds.reportable
  succeeded _ same _ := Outcome.ret.inj same ▸ row
  invalid _ _ invalid := absurd invalid succeeds.not_invalid
  exhausted _ _ failed := absurd succeeds failed

theorem of_invalid (reportable : Reportable r) (invalid : Invalid r) (row : FailureRow attempt tc) :
    Verdict tool attempt r (.ret tc) where
  returns := iff_of_true ⟨tc, rfl⟩ reportable
  succeeded _ _ succeeds := absurd invalid succeeds.not_invalid
  invalid _ same _ := Outcome.ret.inj same ▸ row
  exhausted _ _ _ valid := absurd invalid valid

theorem of_exhausted (reportable : Reportable r) (failed : ¬ Succeeds r) (valid : ¬ Invalid r)
    (row : FailureRow tool.retryPolicy.maxRetries tc) : Verdict tool attempt r (.ret tc) where
  returns := iff_of_true ⟨tc, rfl⟩ reportable
  succeeded _ _ succeeds := absurd succeeds failed
  invalid _ _ invalid := absurd invalid valid
  exhausted _ same _ _ := Outcome.ret.inj same ▸ row

/-- The row reports success exactly when the handler has returned a dict. -/
theorem success_iff (verdict : Verdict tool attempt r o) (row : o = .ret tc) :
    tc.status = .success ↔ Succeeds r := by
  constructor
  · intro status
    by_contra failed
    by_cases invalid : Invalid r
    · exact (verdict.invalid tc row invalid).failed status
    · exact (verdict.exhausted tc row failed invalid).failed status
  · exact fun succeeds => (verdict.succeeded tc row succeeds).status

theorem success (verdict : Verdict tool attempt r o) : (∃ tc, o = .ret tc ∧ tc.status = .success) ↔
    Succeeds r := by
  constructor
  · rintro ⟨tc, row, status⟩
    exact (verdict.success_iff row).mp status
  · intro succeeds
    obtain ⟨tc, row⟩ := verdict.returns.mpr succeeds.reportable
    exact ⟨tc, row, (verdict.success_iff row).mpr succeeds⟩

theorem allowed (verdict : Verdict tool attempt r o) (row : o = .ret tc) :
    tc.status ≠ .rejectedByPolicy := by
  by_cases succeeds : Succeeds r
  · rw [(verdict.succeeded tc row succeeds).status]
    decide
  · by_cases invalid : Invalid r
    · exact (verdict.invalid tc row invalid).allowed
    · exact (verdict.exhausted tc row succeeds invalid).allowed

end Verdict

section
variable {attempt remaining : Nat} {lastExc : Option ToolError} {exc e : ToolError}
  {message : String}

theorem exhausted_verdict {r : Ending} (readable : Reportable r ↔ exc.text.isSome = true)
    (failed : ¬ Succeeds r)
    (valid : ¬ Invalid r) :
    let x := run env.handle (exhausted tcid request now tool started (some exc)) s
    x.2.invocations = s.invocations ∧ Verdict tool attempt r x.1 := by
  rw [exhausted, ToolError.str]
  cases said : exc.text with
  | none =>
      rw [said] at readable
      exact ⟨rfl, .of_lost (by rintro _ ⟨⟩) (by simp [readable])⟩
  | some message =>
      rw [said] at readable
      refine ⟨rfl, .of_exhausted (readable.mpr rfl) failed valid ⟨?_, ?_, _, _, _, rfl⟩⟩
      · rw [callOf_status]
        split <;> decide
      · rw [callOf_status]
        split <;> decide

theorem exhausted_failed :
    let x := run env.handle (exhausted tcid request now tool started lastExc) s
    x.2.invocations = s.invocations ∧ ∀ tc, x.1 = .ret tc → tc.status ≠ .success := by
  cases lastExc with
  | none =>
      refine ⟨rfl, ?_⟩
      rintro tc ⟨⟩
      simp
  | some exc =>
      let r : Ending := .error ⟨.other "", exc.text⟩
      have valid : ¬ Invalid r := by simp [Invalid, r]
      obtain ⟨count, verdict⟩ := @exhausted_verdict _ env tool tcid request now started s 0 exc r
        (by simp [Reportable, isTransient, Except.isOk, Except.toBool, r]) id valid
      exact ⟨count, fun tc row => (verdict.exhausted tc row id valid).failed⟩

theorem invalidAttempt_verdict {r : Ending} (readable : Reportable r ↔ exc.text.isSome = true)
    (invalid : Invalid r) :
    let x := run env.handle (invalidAttempt tcid request now tool started attempt exc) s
    x.2.invocations = s.invocations ∧ Verdict tool attempt r x.1 := by
  rw [invalidAttempt, ToolError.str]
  cases said : exc.text with
  | none =>
      rw [said] at readable
      exact ⟨rfl, .of_lost (by rintro _ ⟨⟩) (by simp [readable])⟩
  | some message =>
      rw [said] at readable
      exact ⟨rfl, .of_invalid (readable.mpr rfl) invalid ⟨by simp, by simp, _, _, [], rfl⟩⟩

theorem attempts_raised (stop : env.stops executor s.checks = .error e) :
    run env.handle
      (executor.attempts tcid request now tool handler started attempt (remaining + 1) lastExc) s =
      (.raise e, executor.checked s) := by
  rw [attempts, run_bind, run_isCancelled, stop]
  rfl

theorem attempts_cancelled (stop : env.stops executor s.checks = .ok true) :
    let r := run env.handle
      (executor.attempts tcid request now tool handler started attempt (remaining + 1) lastExc) s
    r.2.invocations = s.invocations ∧ ∃ tc, r.1 = .ret tc ∧ tc.status = .failure ∧
      tc.error = some (toolError "cancelled" "execution cancellation requested") := by
  rw [attempts, run_bind, run_isCancelled, stop]
  exact ⟨checked_invocations, _, rfl, by simp, rfl⟩

/-- The handler has failed in a way that is worth another iteration. -/
theorem attempts_again (stop : env.stops executor s.checks = .ok false)
    (retryable : Retryable (env.outcome tool handler request.input s.invocations))
    (more : remaining ≠ 0) :
    ∃ exc, env.outcome tool handler request.input s.invocations = .error exc ∧
      run env.handle (executor.attempts tcid request now tool handler started attempt
        (remaining + 1) lastExc) s =
        run env.handle (executor.attempts tcid request now tool handler started (attempt + 1)
          remaining (some exc)) (executor.attempted s) := by
  rw [attempts, run_bind, run_isCancelled, stop]
  simp only [Outcome.ofExcept, resume, Bool.false_eq_true, if_false]
  rw [run_bind, run_attempt, checked_invocations]
  cases failed : env.outcome tool handler request.input s.invocations with
  | ok v => exact absurd retryable (by simp [failed, Retryable])
  | error exc =>
      rw [failed] at retryable
      refine ⟨exc, rfl, ?_⟩
      simp only [caught, resume, retryable.1, if_false]
      rw [run_bind, retryable.2, run_ofExcept]
      simp only [Outcome.ofExcept, resume, more, not_true, or_self, if_false]
      rw [run_bind, run_perform]
      rfl

/-- The last iteration. -/
theorem attempts_last (stop : env.stops executor s.checks = .ok false)
    (last : Retryable (env.outcome tool handler request.input s.invocations) → remaining = 0) :
    let r := run env.handle
      (executor.attempts tcid request now tool handler started attempt (remaining + 1) lastExc) s
    r.2.invocations = s.invocations + 1 ∧
      Verdict tool attempt (env.outcome tool handler request.input s.invocations) r.1 := by
  rw [attempts, run_bind, run_isCancelled, stop]
  simp only [Outcome.ofExcept, resume, Bool.false_eq_true, if_false]
  rw [run_bind, run_attempt, checked_invocations]
  cases answer : env.outcome tool handler request.input s.invocations with
  | ok ended =>
      match ended with
      | none => exact ⟨rfl, .of_lost (by rintro _ ⟨⟩) (by simp [Reportable])⟩
      | some .other => exact invalidAttempt_verdict (iff_of_true rfl rfl) trivial
      | some (.dict entries) =>
          dsimp only [caught, resume]
          rw [run_bind, run_elapsedMs]
          dsimp only [resume]
          cases taken : (Returned.dict entries).output with
          | some out =>
              exact ⟨rfl, .of_success (by simp [Succeeds, taken]) ⟨by simp, rfl, out, rfl⟩⟩
          | none => exact exhausted_verdict (iff_of_true rfl rfl) (by simp [Succeeds, taken]) id
  | error exc =>
      rw [answer] at last
      by_cases invalid : exc.kind = .validation
      · simp only [caught, resume, invalid, if_true]
        refine invalidAttempt_verdict ?_ invalid
        simp [Reportable, invalid]
      · simp only [caught, resume, invalid, if_false]
        rw [run_bind, run_ofExcept]
        cases told : isTransient exc with
        | error e =>
            refine ⟨rfl, .of_lost (by rintro _ ⟨⟩) ?_⟩
            simp [Reportable, invalid, told, Except.isOk, Except.toBool]
        | ok transient =>
            have ends : ¬ transient ∨ remaining = 0 := by
              cases transient with
              | true => exact .inr (last ⟨invalid, told⟩)
              | false => exact .inl (by decide)
            simp only [Outcome.ofExcept, resume, ends, if_true]
            refine exhausted_verdict ?_ id invalid
            simp [Reportable, told, Except.isOk, Except.toBool]

end

/-- The state in which attempt `j` starts. -/
structure At (executor : ToolExecutor H) (j : Nat) (s : ToolState) : Prop where
  invocations : s.invocations = j
  checks : executor.cancelCheck = true → s.checks = j + 1

theorem At.stops {j : Nat} (started : executor.At j s) :
    env.stops executor s.checks = env.stops executor (j + 1) := by
  unfold ToolEnv.stops
  split
  · next asked => rw [started.checks asked]
  · rfl

theorem At.next {j : Nat} (started : executor.At j s) :
    executor.At (j + 1) (executor.attempted s) := by
  refine ⟨congrArg (· + 1) started.invocations, fun asked => ?_⟩
  simp only [attempted, checked, asked, if_true, started.checks asked]

/-- The handler runs at most once in each of the remaining iterations. -/
theorem attempts_bounded (remaining : Nat) {attempt : Nat} {lastExc : Option ToolError} :
    let r := run env.handle
      (executor.attempts tcid request now tool handler started attempt remaining lastExc) s
    s.invocations ≤ r.2.invocations ∧ r.2.invocations ≤ s.invocations + remaining := by
  induction remaining generalizing attempt lastExc s with
  | zero =>
      have count := (@exhausted_failed _ env tool tcid request now started s lastExc).1
      rw [attempts]
      omega
  | succ remaining ih =>
      intro r
      cases stop : env.stops executor s.checks with
      | error e =>
          have same : r.2.invocations = s.invocations := by
            simp only [r, attempts_raised stop, checked_invocations]
          omega
      | ok stopped =>
          cases stopped with
          | true =>
              have count : r.2.invocations = s.invocations := (attempts_cancelled stop).1
              omega
          | false =>
              by_cases more : Retryable (env.outcome tool handler request.input s.invocations) ∧
                remaining ≠ 0
              · obtain ⟨exc, _, again⟩ := attempts_again stop more.1 more.2
                have same : r = _ := again
                have rest := @ih (executor.attempted s) (attempt + 1) (some exc)
                rw [← same] at rest
                simp only [attempted] at rest
                omega
              · have count : r.2.invocations = s.invocations +
                  1 := (attempts_last stop fun retryable =>
                  not_not.mp fun left => more ⟨retryable, left⟩).1
                omega

/-- A check that stops the loop stops it before the handler. -/
theorem attempts_halted {attempt remaining : Nat} {lastExc : Option ToolError}
    (stopped : env.stops executor s.checks ≠ .ok false) :
    (run env.handle (executor.attempts tcid request now tool handler started attempt (remaining + 1)
      lastExc) s).2.invocations =
      s.invocations := by
  cases stop : env.stops executor s.checks with
  | error e =>
      rw [attempts_raised stop]
      exact checked_invocations
  | ok cancelled =>
      cases cancelled with
      | true => exact (attempts_cancelled stop).1
      | false => exact absurd stop stopped

theorem attempts_runs {attempt remaining : Nat} {lastExc : Option ToolError}
    (open_ : env.stops executor s.checks = .ok false) : s.invocations + 1 ≤
      (run env.handle (executor.attempts tcid request now tool handler started attempt
        (remaining + 1) lastExc) s).2.invocations := by
  by_cases more : Retryable (env.outcome tool handler request.input s.invocations) ∧ remaining ≠ 0
  · obtain ⟨exc, _, again⟩ := attempts_again open_ more.1 more.2
    rw [again]
    exact (attempts_bounded (s := executor.attempted s) remaining).1
  · have final : Retryable (env.outcome tool handler request.input s.invocations) → remaining = 0 :=
      fun retryable => not_not.mp fun left => more ⟨retryable, left⟩
    exact (attempts_last open_ final).1.ge

/-- Attempt `k` is made: no check before it stops, and the attempts before it are worth another
one. -/
structure MadeAt (executor : ToolExecutor H) (env : ToolEnv H) (tool : RegisteredTool) (handler : H)
    (payload : Dict) (first k : Nat) : Prop where
  uncancelled : ∀ i, first ≤ i → i ≤ k → env.stops executor (i + 1) = .ok false
  retried : ∀ i, first ≤ i → i < k → Retryable (env.outcome tool handler payload i)

/-- Attempt `k` is made and returns a dict. -/
structure DeliversAt (executor : ToolExecutor H) (env : ToolEnv H) (tool : RegisteredTool)
    (handler : H) (payload : Dict) (first k : Nat) :
    Prop extends MadeAt executor env tool handler payload first k where
  returned : Succeeds (env.outcome tool handler payload k)

namespace MadeAt
variable {payload : Dict} {j k : Nat}

theorem later (made : executor.MadeAt env tool handler payload j k) :
    executor.MadeAt env tool handler payload (j + 1) k where
  uncancelled i low high := made.uncancelled i (by omega) high
  retried i low high := made.retried i (by omega) high

theorem earlier (open_ : env.stops executor (j + 1) = .ok false)
    (retry : Retryable (env.outcome tool handler payload j))
    (made : executor.MadeAt env tool handler payload (j + 1) k) :
    executor.MadeAt env tool handler payload j k where
  uncancelled i low high := by
    rcases Nat.eq_or_lt_of_le low with rfl | later
    · exact open_
    · exact made.uncancelled i later high
  retried i low high := by
    rcases Nat.eq_or_lt_of_le low with rfl | later
    · exact retry
    · exact made.retried i later high

theorem first (open_ : env.stops executor (j + 1) = .ok false) :
    executor.MadeAt env tool handler payload j j where
  uncancelled i low high := by
    obtain rfl := Nat.le_antisymm low high
    exact open_
  retried i low high := absurd high (Nat.not_lt.mpr low)

end MadeAt

/-- The row reports success exactly when one of the remaining attempts delivers. -/
theorem attempts_success (remaining : Nat) {j attempt : Nat} {lastExc : Option ToolError}
    (at_ : executor.At j s) :
    (∃ tc, (run env.handle (executor.attempts tcid request now tool handler started attempt
      remaining lastExc) s).1 =
      .ret tc ∧ tc.status = .success) ↔
    ∃ k, j ≤ k ∧ k < j + remaining ∧ executor.DeliversAt env tool handler request.input j k := by
  induction remaining generalizing j attempt lastExc s with
  | zero =>
      refine iff_of_false ?_ ?_
      · rintro ⟨tc, row, success⟩
        exact exhausted_failed.2 tc row success
      · rintro ⟨k, _, _, _⟩
        omega
  | succ remaining ih =>
      have check := @At.stops _ executor env s j at_
      have unreached (never : env.stops executor (j + 1) ≠ .ok false) :
          ¬ ∃ k, j ≤ k ∧ k < j + (remaining + 1) ∧ executor.DeliversAt env tool handler
            request.input j k :=
        fun ⟨k, least, _, delivers⟩ => never (delivers.uncancelled j (Nat.le_refl j) least)
      cases stop : env.stops executor s.checks with
      | error e =>
          refine iff_of_false ?_ (unreached (by rw [← check, stop]; simp))
          rintro ⟨tc, row, _⟩
          rw [attempts_raised stop] at row
          cases row
      | ok stopped =>
          cases stopped with
          | true =>
              obtain ⟨_, tc, row, failed, _⟩ := attempts_cancelled stop
              refine iff_of_false ?_ (unreached (by rw [← check, stop]; simp))
              rintro ⟨tc', row', success⟩
              obtain rfl := Outcome.ret.inj (row.symm.trans row')
              rw [failed] at success
              cases success
          | false =>
              have open_ : env.stops executor (j + 1) = .ok false := check.symm.trans stop
              by_cases more : Retryable (env.outcome tool handler request.input s.invocations) ∧
                remaining ≠ 0
              · obtain ⟨exc, _, again⟩ := attempts_again stop more.1 more.2
                rw [again, ih at_.next]
                have retry := more.1
                rw [at_.invocations] at retry
                constructor
                · rintro ⟨k, least, most, delivers⟩
                  exact ⟨k, by omega, by omega, delivers.toMadeAt.earlier open_ retry,
                    delivers.returned⟩
                · rintro ⟨k, least, most, delivers⟩
                  have apart : j ≠ k := by
                    rintro rfl
                    exact retry.not_succeeds delivers.returned
                  exact ⟨k, by omega, by omega, delivers.toMadeAt.later, delivers.returned⟩
              · have final : Retryable (env.outcome tool handler request.input s.invocations) →
                  remaining = 0 :=
                  fun retryable => not_not.mp fun left => more ⟨retryable, left⟩
                refine (attempts_last stop final).2.success.trans ?_
                rw [at_.invocations] at final ⊢
                constructor
                · exact fun returned => ⟨j, Nat.le_refl j, by omega, .first open_, returned⟩
                · rintro ⟨k, least, most, delivers⟩
                  rcases Nat.eq_or_lt_of_le least with rfl | later
                  · exact delivers.returned
                  · have := final (delivers.retried j (Nat.le_refl j) later)
                    omega

/-- Each attempt up to `last` that is made is retried or reportable. -/
def AllReportable (executor : ToolExecutor H) (env : ToolEnv H) (tool : RegisteredTool)
    (handler : H) (payload : Dict) (first last : Nat) : Prop :=
  ∀ k, first ≤ k → k ≤ last → executor.MadeAt env tool handler payload first k →
    Retryable (env.outcome tool handler payload k) ∧ k < last ∨
      Reportable (env.outcome tool handler payload k)

theorem attempts_returns_step {j attempt remaining : Nat} {lastExc : Option ToolError}
    (answering : ∀ n, ∃ stop, env.stops executor n = .ok stop) (at_ : executor.At j s)
    (rest : remaining ≠ 0 →
      ∀ exc, (∃ tc, (run env.handle (executor.attempts tcid request now tool handler started
      (attempt + 1) remaining (some exc)) (executor.attempted s)).1 = .ret tc) ↔
        executor.AllReportable env tool handler request.input (j + 1) (j + remaining)) :
    (∃ tc, (run env.handle
      (executor.attempts tcid request now tool handler started attempt (remaining + 1) lastExc)
        s).1 = .ret tc) ↔
        executor.AllReportable env tool handler request.input j (j + remaining) := by
  obtain ⟨stop, checked⟩ := answering (j + 1)
  have check := checked
  rw [← at_.stops] at check
  cases stop with
  | true =>
      obtain ⟨_, tc, row, _⟩ := attempts_cancelled check
      refine iff_of_true ⟨tc, row⟩ fun k least _ made => ?_
      have open_ := made.uncancelled j (Nat.le_refl j) least
      rw [checked] at open_
      cases open_
  | false =>
      by_cases more : Retryable (env.outcome tool handler request.input s.invocations) ∧
        remaining ≠ 0
      · obtain ⟨exc, _, again⟩ := attempts_again check more.1 more.2
        have retry := more.1
        rw [at_.invocations] at retry
        rw [again, rest more.2 exc]
        constructor
        · intro reportable k least most made
          rcases Nat.eq_or_lt_of_le least with rfl | later
          · exact .inl ⟨retry, by omega⟩
          · exact reportable k later most made.later
        · exact fun reportable k least most made => reportable k (by omega) most
            (made.earlier checked retry)
      · have last : Retryable (env.outcome tool handler request.input s.invocations) →
          remaining = 0 :=
          fun retryable => not_not.mp fun left => more ⟨retryable, left⟩
        refine (attempts_last check last).2.returns.trans ?_
        rw [at_.invocations] at last ⊢
        constructor
        · intro reportable k least most made
          rcases Nat.eq_or_lt_of_le least with rfl | later
          · exact .inr reportable
          · have := last (made.retried j (Nat.le_refl j) later)
            omega
        · intro reportable
          refine (reportable j (Nat.le_refl j) (by omega) (.first checked)).resolve_left ?_
          rintro ⟨retry, before⟩
          have := last retry
          omega

/-- A row is returned exactly when every attempt that is made is retried or reportable. -/
theorem attempts_returns (answering : ∀ n, ∃ stop, env.stops executor n = .ok stop)
    (remaining : Nat) {j attempt : Nat} {lastExc : Option ToolError} (at_ : executor.At j s) :
    (∃ tc, (run env.handle
      (executor.attempts tcid request now tool handler started attempt (remaining + 1) lastExc)
        s).1 = .ret tc) ↔
        executor.AllReportable env tool handler request.input j (j + remaining) := by
  induction remaining generalizing j attempt lastExc s with
  | zero => exact attempts_returns_step answering at_ fun more => absurd rfl more
  | succ remaining ih =>
      refine attempts_returns_step answering at_ fun _ exc => ?_
      rw [ih at_.next, Nat.add_assoc, Nat.add_comm 1]

theorem validateInput_str {exc : ToolError} (invalid : validateInput request = .error exc) :
    exc.str = .ok "incident_id or id is required in tool input" := by
  unfold validateInput at invalid
  split at invalid
  · obtain rfl := Except.error.inj invalid
    rfl
  · cases invalid

/-- The gates before the first attempt, all passed. -/
structure Passes (executor : ToolExecutor H) (env : ToolEnv H)
    (request : ToolInvokeRequest) : Prop where
  undenied : request.policyDenied = false
  uncancelled : env.stops executor 0 = .ok false
  valid : validateInput request = .ok ()

/-- The retry loop of the tool that is asked for, if the call comes to it. -/
def Reaches (executor : ToolExecutor H) (env : ToolEnv H) (request : ToolInvokeRequest)
    (tool : RegisteredTool) (handler : H) : Prop :=
  executor.registry.get request.toolName = some (tool, handler) ∧ executor.Passes env request

theorem execute_passed (registered : executor.registry.get request.toolName = some (tool, handler))
    (passes : executor.Passes env request) : ∃ s started, executor.At 0 s ∧
      env.execute executor request now =
      run env.handle (executor.attempts env.fresh request now tool handler started 0
        (tool.retryPolicy.maxRetries + 1) none) s := by
  refine ⟨{ executor.checked ⟨0, 0, 0⟩ with readings := (executor.checked ⟨0, 0, 0⟩).readings + 1 },
    env.counterNs (executor.checked ⟨0, 0, 0⟩).readings, ⟨checked_invocations, fun asked => ?_⟩, ?_⟩
  · simp only [checked, asked, if_true]
  · rw [ToolEnv.execute, execute, run_bind, run_perform]
    simp only [ToolEnv.handle, Outcome.ofExcept, resume, passes.undenied, Bool.false_eq_true,
      if_false, registered]
    rw [run_bind, run_isCancelled, show env.stops executor 0 = .ok false from passes.uncancelled]
    simp only [Outcome.ofExcept, resume, Bool.false_eq_true, if_false, passes.valid]
    rw [run_bind, run_perform]
    rfl

/-- Every attempt that the call makes ends in an error that is retried, or in a way of which a row
can be made. -/
def Answered (executor : ToolExecutor H) (env : ToolEnv H) (request : ToolInvokeRequest) : Prop :=
  ∀ tool handler, executor.Reaches env request tool handler →
    executor.AllReportable env tool handler request.input 0 tool.retryPolicy.maxRetries

/-- A request that is stopped at a gate runs no handler, and its row is no success. -/
theorem execute_stopped (stopped : ¬ executor.Passes env request) :
    (env.execute executor request now).2.invocations = 0 ∧
      ∀ tc, (env.execute executor request now).1 = .ret tc → tc.status ≠ .success := by
  rw [ToolEnv.execute, execute, run_bind, run_perform]
  simp only [ToolEnv.handle, Outcome.ofExcept, resume]
  by_cases denied : request.policyDenied = true
  · rw [if_pos denied]
    refine ⟨rfl, ?_⟩
    rintro tc ⟨⟩
    simp [buildCall]
  · rw [if_neg denied]
    cases executor.registry.get request.toolName with
    | none =>
        refine ⟨rfl, ?_⟩
        rintro tc ⟨⟩
        simp [buildCall]
    | some entry =>
        obtain ⟨tool, handler⟩ := entry
        dsimp only
        rw [run_bind, run_isCancelled]
        cases stop : env.stops executor 0 with
        | error e =>
            refine ⟨checked_invocations, ?_⟩
            rintro tc ⟨⟩
        | ok cancelled =>
            cases cancelled with
            | true =>
                refine ⟨checked_invocations, ?_⟩
                rintro tc ⟨⟩
                simp
            | false =>
                cases valid : validateInput request with
                | error exc =>
                    simp only [Outcome.ofExcept, resume, Bool.false_eq_true, if_false]
                    rw [validateInput_str valid]
                    refine ⟨checked_invocations, ?_⟩
                    rintro tc ⟨⟩
                    simp
                | ok u => exact absurd ⟨Bool.eq_false_iff.mpr denied, stop, valid⟩ stopped

/-- A single call runs the handler once more than the policy allows retries, at most. -/
theorem execute_bounded
    (registered : executor.registry.get request.toolName = some (tool, handler)) :
    (env.execute executor request now).2.invocations ≤ tool.retryPolicy.maxRetries + 1 := by
  by_cases passes : executor.Passes env request
  · obtain ⟨s, started, at_, eq⟩ := @execute_passed _ _ _ _ _ _ now registered passes
    have bounded := (@attempts_bounded _ executor env tool handler env.fresh request now started s
      (tool.retryPolicy.maxRetries + 1) 0 none).2
    rw [eq]
    have first := at_.invocations
    omega
  · rw [(execute_stopped passes).1]
    exact Nat.zero_le _

/-- The row of a call reports success exactly when the gates are passed and an attempt within the
retries delivers. -/
theorem execute_success
    (registered : executor.registry.get request.toolName = some (tool, handler)) :
    (∃ tc, (env.execute executor request now).1 = .ret tc ∧ tc.status = .success) ↔
      executor.Passes env request ∧
        ∃ k ≤ tool.retryPolicy.maxRetries, executor.DeliversAt env tool handler
          request.input 0 k := by
  by_cases passes : executor.Passes env request
  · obtain ⟨s, started, at_, eq⟩ := @execute_passed _ _ _ _ _ _ now registered passes
    rw [eq, attempts_success _ at_, and_iff_right passes]
    refine exists_congr fun k => ?_
    rw [← and_assoc, and_iff_right (Nat.zero_le k)]
    exact and_congr_left fun _ => by omega
  · refine iff_of_false ?_ fun both => passes both.1
    rintro ⟨tc, row, success⟩
    exact (execute_stopped passes).2 tc row success

end ToolExecutor

/-- The handler is not run again: there is no retry, a gate stops the call, a check cancels it, or
the first invocation does not end in an error that is worth another one. -/
def RunsOnce {H : Type} (executor : ToolExecutor H) (env : ToolEnv H) (request : ToolInvokeRequest)
    (tool : RegisteredTool) (handler : H) : Prop :=
  tool.retryPolicy.maxRetries = 0 ∨ request.policyDenied = true ∨ validateInput request ≠ .ok () ∨
    (∃ n < 3, env.stops executor n ≠ .ok false) ∨
    ¬ Retryable (env.run 0 handler request.input (max 1 tool.timeoutBoundsMs))

section
variable {H : Type} {executor : ToolExecutor H} {env : ToolEnv H} {request : ToolInvokeRequest}
  {tool : RegisteredTool}
  {handler : H} {now : Time}

/-- The text that a timeout is given does not make it worth more. -/
theorem outcome_retryable {payload : Dict} {n : Nat} : Retryable
    (env.outcome tool handler payload n) ↔
    Retryable (env.run n handler payload (max 1 tool.timeoutBoundsMs)) := by
  unfold ToolEnv.outcome
  cases env.run n handler payload (max 1 tool.timeoutBoundsMs) with
  | ok v => exact Iff.rfl
  | error exc =>
      by_cases timeout : exc.kind = .timeout
      · simp [Retryable, isTransient, timeout]
      · simp [timeout]

open ToolExecutor in
/-- Two attempts that go through. -/
theorem runs_twice (registered : executor.registry.get request.toolName = some (tool, handler))
    (twice : ¬ RunsOnce executor env request tool handler) :
    2 ≤ (env.execute executor request now).2.invocations := by
  simp only [RunsOnce, not_or, not_exists, not_and, not_not] at twice
  obtain ⟨retries, undenied, valid, checks, retryable⟩ := twice
  obtain ⟨s, started, at_, eq⟩ := @execute_passed _ _ _ _ _ _ now registered
    ⟨Bool.eq_false_iff.mpr undenied, checks 0 (by decide), valid⟩
  obtain ⟨more, count⟩ := Nat.exists_eq_add_one_of_ne_zero retries
  rw [eq, count]
  have first := at_.stops.trans (checks 1 (by decide))
  rw [← outcome_retryable, ← at_.invocations] at retryable
  have left : more + 1 ≠ 0 := Nat.succ_ne_zero more
  obtain ⟨exc, _, again⟩ := attempts_again first retryable left
  rw [again]
  have second := at_.next.stops.trans (checks 2 (by decide))
  have ran := @attempts_runs _ executor env tool handler env.fresh request now started _ (0 + 1)
    more (some exc) second
  have after := at_.next.invocations
  omega

open ToolExecutor in
/-- A call runs the handler at most once exactly when it is not run again, whatever the tool
declares of its side effects and its idempotency. -/
theorem side_effect_once_iff (executor : ToolExecutor H) (env : ToolEnv H)
    (request : ToolInvokeRequest) (now : Time) (tool : RegisteredTool) (handler : H)
    (registered : executor.registry.get request.toolName = some (tool, handler)) :
    (env.execute executor request now).2.invocations ≤ 1 ↔
      RunsOnce executor env request tool handler := by
  constructor
  · intro once
    by_contra twice
    have := @runs_twice _ _ _ _ _ _ now registered twice
    omega
  · intro once
    by_cases passes : executor.Passes env request
    · obtain ⟨s, started, at_, eq⟩ := @execute_passed _ _ _ _ _ _ now registered passes
      have none_yet := at_.invocations
      rw [eq]
      by_cases open_ : env.stops executor s.checks = .ok false
      · by_cases more : Retryable (env.outcome tool handler request.input s.invocations) ∧
          tool.retryPolicy.maxRetries ≠ 0
        · obtain ⟨exc, _, again⟩ := @attempts_again _ executor env tool handler env.fresh request
            now started s 0
            tool.retryPolicy.maxRetries none open_ more.1 more.2
          have stopped : env.stops executor (1 + 1) ≠ .ok false := by
            rcases once with single | denied | invalid | ⟨n, below, stopped⟩ | final
            · exact absurd single more.2
            · exact absurd (denied.symm.trans passes.undenied) (by decide)
            · exact absurd passes.valid invalid
            · match n, below with
              | 0, _ => exact absurd passes.uncancelled stopped
              | 1, _ => exact absurd (at_.stops.symm.trans open_) stopped
              | 2, _ => exact stopped
            · rw [← outcome_retryable, ← none_yet] at final
              exact absurd more.1 final
          obtain ⟨left, count⟩ := Nat.exists_eq_add_one_of_ne_zero more.2
          rw [again, count, attempts_halted (by rwa [at_.next.stops])]
          exact at_.next.invocations.le
        · have final : Retryable (env.outcome tool handler request.input s.invocations) →
            tool.retryPolicy.maxRetries = 0 :=
            fun retryable => not_not.mp fun left => more ⟨retryable, left⟩
          rw [(attempts_last open_ final).1, none_yet]
      · rw [attempts_halted open_, none_yet]
        exact Nat.zero_le 1
    · rw [(execute_stopped passes).1]
      exact Nat.zero_le 1

end

/-- A registry of a single tool, with no check for cancellation. -/
def soleTool (tool : RegisteredTool) : ToolExecutor FixtureHandler :=
  ⟨[(tool, .updateIncidentStatus)], false⟩

/-- The update tool, registered with the policy of a tool that names none. -/
def retriedUpdate : RegisteredTool := { incidentSystemUpdateTool with retryPolicy := .default }

def updateRequest : ToolInvokeRequest where
  executionId := ⟨1⟩
  stepId := ⟨2⟩
  executionContextId := ⟨0⟩
  toolName := "incident_system_update_tool"
  input := [("id", .str "inc-1"), ("approved", .bool true)]
  actionProposalId := none
  policyDenied := false

/-- Every invocation ends in the same way. -/
def ToolEnv.always (ending : Ending) : ToolEnv FixtureHandler where
  fresh := ⟨9⟩
  cancelled := fun _ => .ok false
  counterNs := fun n => n
  run := fun _ _ _ _ => ending

def ToolEnv.failing (kind : ToolErrorKind) : ToolEnv FixtureHandler :=
  .always (.error ⟨kind, some "unavailable"⟩)

/-- The update tool of the default registry. -/
theorem side_effect_once_default : (ToolEnv.execute (.failing .timeout) ⟨buildDefaultRegistry, true⟩
      updateRequest 0).2.invocations ≤ 1 :=
  (side_effect_once_iff ⟨buildDefaultRegistry, true⟩ (.failing .timeout) updateRequest 0
    incidentSystemUpdateTool
    .updateIncidentStatus rfl).mpr (.inl rfl)

/-- A tool that changes state and is not idempotent runs three times. -/
theorem side_effect_repeated : retriedUpdate.sideEffectClass = .stateChanging ∧
    retriedUpdate.idempotency = .nonIdempotent ∧
    (ToolEnv.execute (.failing .connection) (soleTool retriedUpdate) updateRequest
      0).2.invocations = 3 := by
  decide

end AgenticPlatform
