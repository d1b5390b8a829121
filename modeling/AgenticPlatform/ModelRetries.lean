import AgenticPlatform.ModelRuntime

/-! The retry discipline of the model runtime and its counters: how a call of the wrapper can go,
and what follows for the calls of a run. -/
namespace AgenticPlatform
open Interaction

/-- What the counters of calls, failures and retries grow by. -/
structure Grows (reg later : MetricsRegistry) (requests failures retries : Nat) : Prop where
  requests : later.total "model_requests_total" = reg.total "model_requests_total" + requests
  failures : later.total "model_failures_total" = reg.total "model_failures_total" + failures
  retries : later.total "model_retries_total" = reg.total "model_retries_total" + retries

namespace Grows
variable {reg later last : MetricsRegistry} {q f t q' f' t' : Nat} {labels labels' : Labels}

theorem trans (first : Grows reg later q f t) (second : Grows later last q' f' t') :
    Grows reg last (q + q') (f + f') (t + t') := by
  constructor
  · rw [second.requests, first.requests, Nat.add_assoc]
  · rw [second.failures, first.failures, Nat.add_assoc]
  · rw [second.retries, first.retries, Nat.add_assoc]

theorem request {ms : Nat} :
    Grows reg ((reg.observeLatencyMs "model_request" ms labels).inc "model_requests_total" labels')
      1 0 0 := by
  constructor
  · rw [MetricsRegistry.total_inc_self, MetricsRegistry.total_observe (by decide)]
  · rw [MetricsRegistry.total_inc_other (by decide), MetricsRegistry.total_observe
      (by decide), Nat.add_zero]
  · rw [MetricsRegistry.total_inc_other (by decide), MetricsRegistry.total_observe
      (by decide), Nat.add_zero]

theorem failure : Grows reg (reg.inc "model_failures_total" labels) 0 1 0 := by
  constructor
  · rw [MetricsRegistry.total_inc_other (by decide), Nat.add_zero]
  · rw [MetricsRegistry.total_inc_self]
  · rw [MetricsRegistry.total_inc_other (by decide), Nat.add_zero]

theorem retry : Grows reg (reg.inc "model_retries_total" labels) 0 0 1 := by
  constructor
  · rw [MetricsRegistry.total_inc_other (by decide), Nat.add_zero]
  · rw [MetricsRegistry.total_inc_other (by decide), Nat.add_zero]
  · rw [MetricsRegistry.total_inc_self]

theorem timeout : Grows reg (reg.inc "model_timeouts_total" labels) 0 0 0 := by
  constructor
  · rw [MetricsRegistry.total_inc_other (by decide), Nat.add_zero]
  · rw [MetricsRegistry.total_inc_other (by decide), Nat.add_zero]
  · rw [MetricsRegistry.total_inc_other (by decide), Nat.add_zero]

end Grows

section
variable {Out : Type} [StructuredOutput Out]

/-- The attempts from `j` on with so many left: how they end, the invocations made by then, and what
the counters grow by. -/
inductive ModelCourse (backoff : Rat)
    (provider : Nat → Except ModelError (ReasoningCallResult Out)) :
    Nat → Nat → Outcome ModelError (ReasoningCallResult Out) → Nat → Nat → Nat → Nat → Prop
  | returned {j left ms : Nat} {result : ReasoningCallResult Out} (answer : provider
    j = .ok result) :
      ModelCourse backoff provider j (left + 1) (.ret (result.stamped j ms)) (j + 1) 1 0 0
  | refused {j left : Nat} {exc : ModelError} (answer : provider j =
    .error exc) (final : exc.kind ≠ .transient) :
      ModelCourse backoff provider j (left + 1) (.raise exc) (j + 1) 0 1 0
  | exhausted {j : Nat} {exc : ModelError} (answer : provider j =
    .error exc) (transient : exc.kind = .transient) :
      ModelCourse backoff provider j 1 (.raise exc) (j + 1) 0 1 1
  | unslept {j left : Nat} {exc e : ModelError} (answer : provider j =
    .error exc) (transient : exc.kind = .transient)
      (more : left ≠ 0) (rejected : timeSleep (backoff * (j + 1)) = .error e) :
      ModelCourse backoff provider j (left + 1) (.raise e) (j + 1) 0 0 1
  | again {j left made q f t : Nat} {exc : ModelError} {o : Outcome ModelError
    (ReasoningCallResult Out)}
      (answer : provider j = .error exc) (transient : exc.kind = .transient) (more : left ≠ 0)
      (slept : timeSleep (backoff * (j + 1)) = .ok ()) (rest : ModelCourse backoff provider (j + 1)
        left o made q f t) :
      ModelCourse backoff provider j (left + 1) o made q f (1 + t)

namespace ResilientStructuredProvider
variable {env : ModelEnv Out} {config : ModelRetryConfig} {task : String} {s : ModelState} {j : Nat}

omit [StructuredOutput Out] in
theorem run_call (op : ModelOp) : run env.handle (@perform Out op) s =
    (Outcome.ofExcept (env.handle s op).1, (env.handle s op).2) :=
  run_perform env.handle op s

theorem run_invokeOnce_ok {result : ReasoningCallResult Out}
    (answer : env.provider s.invocations = .ok result) :
    ∃ ms u, run env.handle (invokeOnce task j).attempt s = (.ret (.ok (result.stamped j ms)), u) ∧
      u.invocations = s.invocations + 1 ∧ Grows s.metrics u.metrics 1 0 0 := by
  rw [Prog.attempt, run_tryCatch, run_bind, invokeOnce, run_bind, run_call]
  simp only [resume, ModelEnv.handle, Outcome.ofExcept]
  rw [run_bind, run_call]
  simp only [resume, ModelEnv.handle, answer, Outcome.ofExcept]
  rw [run_bind, run_call]
  simp only [resume, ModelEnv.handle, Outcome.ofExcept]
  rw [run_bind, run_call]
  simp only [resume, ModelEnv.handle, Outcome.ofExcept]
  rw [run_bind, run_call]
  exact ⟨_, _, rfl, rfl, .request⟩

theorem run_invokeOnce_error {exc : ModelError} (answer : env.provider s.invocations = .error exc) :
    run env.handle (@invokeOnce Out _ task j).attempt s =
      (.ret (.error exc), { s with invocations := s.invocations + 1, readings :=
        s.readings + 1 }) := by
  rw [Prog.attempt, run_tryCatch, run_bind, invokeOnce, run_bind, run_call]
  simp only [resume, ModelEnv.handle, Outcome.ofExcept]
  rw [run_bind, run_call]
  simp only [resume, ModelEnv.handle, answer, Outcome.ofExcept]
  rfl

omit [StructuredOutput Out] in
/-- The exception of the last attempt is raised, and counted as one failure. -/
theorem run_exhausted (exc : ModelError) : ∃ u, run env.handle
    (@exhausted Out task (some exc)) s = (.raise exc, u) ∧
    u.invocations = s.invocations ∧ Grows s.metrics u.metrics 0 1 0 := by
  rw [exhausted, run_bind, run_call]
  simp only [resume, ModelEnv.handle, Outcome.ofExcept]
  split
  · rw [run_bind, run_call]
    exact ⟨_, rfl, rfl, Grows.failure.trans .timeout⟩
  · exact ⟨_, rfl, rfl, .failure⟩

/-- A call that went one of its courses from attempt `j` on. -/
def Went (backoff : Rat) (provider : Nat → Except ModelError (ReasoningCallResult Out))
    (j left : Nat) (before : MetricsRegistry)
    (r : Outcome ModelError (ReasoningCallResult Out) × ModelState) : Prop :=
  ∃ q f t, ModelCourse backoff provider j left r.1 r.2.invocations q f t ∧
    Grows before r.2.metrics q f t

/-- One iteration, which ends the call or leaves the rest to the next one. -/
theorem attempts_went_step {remaining : Nat} {lastExc : Option ModelError}
    (first : s.invocations = j) (rest : remaining ≠ 0 → ∀ exc u, u.invocations = j + 1 →
      Went config.retryBackoffSeconds env.provider (j + 1) remaining u.metrics
      (run env.handle (attempts config task (j + 1) remaining (some exc)) u)) :
    Went config.retryBackoffSeconds env.provider j (remaining + 1) s.metrics
      (run env.handle (attempts config task j (remaining + 1) lastExc) s) := by
  rw [attempts, run_bind]
  cases answer : env.provider s.invocations with
  | ok result =>
      obtain ⟨ms, u, ran, made, grows⟩ := @run_invokeOnce_ok _ _ env task s j result answer
      rw [ran]
      rw [first] at answer made
      have course : ModelCourse config.retryBackoffSeconds env.provider j (remaining + 1)
        (.ret (result.stamped j ms))
          u.invocations 1 0 0 := by
        rw [made]
        exact .returned answer
      exact ⟨1, 0, 0, course, grows⟩
  | error exc =>
      rw [run_invokeOnce_error answer]
      rw [first] at answer
      have refused {reason : String} (final : exc.kind ≠ .transient) :
          Went config.retryBackoffSeconds env.provider j (remaining + 1) s.metrics (.raise exc,
            (⟨j + 1, s.readings + 1, s.metrics.inc "model_failures_total"
              [("reason", reason), ("task", task)]⟩ : ModelState)) :=
        ⟨0, 1, 0, .refused answer final, .failure⟩
      simp only [resume, first]
      cases kind : exc.kind with
      | schemaValidation =>
          rw [run_bind, run_call]
          exact refused (by simp [kind])
      | nonRetryable =>
          rw [run_bind, run_call]
          exact refused (by simp [kind])
      | other name =>
          rw [run_bind, run_call]
          exact refused (by simp [kind])
      | transient =>
          rw [run_bind, run_call]
          simp only [resume, ModelEnv.handle, Outcome.ofExcept]
          by_cases last : remaining = 0
          · subst last
            rw [if_pos rfl]
            obtain ⟨u, ran, made, grows⟩ := @run_exhausted Out env task
              ⟨j + 1, s.readings + 1, s.metrics.inc "model_retries_total" [("task", task)]⟩ exc
            rw [ran]
            refine ⟨0, 1, 1, ?_, Grows.retry.trans grows⟩
            rw [made]
            exact .exhausted answer kind
          · rw [if_neg last, run_bind, run_call]
            simp only [ModelEnv.handle]
            cases slept : timeSleep (config.retryBackoffSeconds * (j + 1)) with
            | error e => exact ⟨0, 0, 1, .unslept answer kind last slept, .retry⟩
            | ok _ =>
                obtain ⟨q, f, t, course, grows⟩ := rest last exc
                  ⟨j + 1, s.readings + 1, s.metrics.inc "model_retries_total" [("task", task)]⟩ rfl
                refine ⟨q, f, 1 + t, .again answer kind last slept course, ?_⟩
                have whole := Grows.retry.trans grows
                rwa [Nat.zero_add, Nat.zero_add] at whole

theorem attempts_went (remaining : Nat) {lastExc : Option ModelError} (first : s.invocations = j) :
    Went config.retryBackoffSeconds env.provider j (remaining + 1) s.metrics
      (run env.handle (attempts config task j (remaining + 1) lastExc) s) := by
  induction remaining generalizing j lastExc s with
  | zero => exact attempts_went_step first fun more => absurd rfl more
  | succ remaining ih => exact attempts_went_step first fun _ exc u made => ih made

end ResilientStructuredProvider

/-- One of the attempts left is reached, and it does not fail transiently. -/
def SettlesFrom (backoff : Rat) (provider : Nat → Except ModelError (ReasoningCallResult Out))
    (j left : Nat) : Prop :=
  ∃ n, j ≤ n ∧ n < j + left ∧ ¬ Transient (provider n) ∧
    ∀ i, j ≤ i → i < n → Transient (provider i) ∧ timeSleep (backoff * (i + 1)) = .ok ()

namespace ModelCourse
variable {backoff : Rat} {provider : Nat → Except ModelError (ReasoningCallResult Out)}
  {j left made q f t : Nat}
  {o : Outcome ModelError (ReasoningCallResult Out)}

/-- Every invocation but the last has failed transiently. -/
theorem retried (course : ModelCourse backoff provider j left o made q f t) :
    ∀ i, j ≤ i → i + 1 < made → Transient (provider i) := by
  induction course with
  | returned | refused | exhausted | unslept =>
      intro i least most
      omega
  | again answer transient _ _ _ ih =>
      intro i least most
      rcases Nat.eq_or_lt_of_le least with rfl | later
      · rw [answer]
        exact transient
      · exact ih i later most

/-- A call that settles is counted once, and its retries are the invocations made again; the retries
of any other are all its invocations. -/
theorem counts (course : ModelCourse backoff provider j left o made q f t) :
    (SettlesFrom backoff provider j left → q + f = 1 ∧ j + t + 1 = made) ∧
      (¬ SettlesFrom backoff provider j left → j + t = made) := by
  induction course with
  | @returned j left ms result answer =>
      have settles : SettlesFrom backoff provider j (left + 1) := by
        refine ⟨j, Nat.le_refl j, by omega, ?_, fun i least below => by omega⟩
        rw [answer]
        exact id
      exact ⟨fun _ => ⟨rfl, rfl⟩, fun unsettled => absurd settles unsettled⟩
  | @refused j left exc answer final =>
      have settles : SettlesFrom backoff provider j (left + 1) := by
        refine ⟨j, Nat.le_refl j, by omega, ?_, fun i least below => by omega⟩
        rw [answer]
        exact final
      exact ⟨fun _ => ⟨rfl, rfl⟩, fun unsettled => absurd settles unsettled⟩
  | @exhausted j exc answer transient =>
      refine ⟨fun ⟨n, least, below, settled, _⟩ => absurd ?_ settled, fun _ => rfl⟩
      obtain rfl : n = j := by omega
      rw [answer]
      exact transient
  | @unslept j left exc e answer transient more rejected =>
      refine ⟨fun ⟨n, least, below, settled, waits⟩ => ?_, fun _ => rfl⟩
      rcases Nat.eq_or_lt_of_le least with rfl | later
      · rw [answer] at settled
        exact absurd transient settled
      · have slept := (waits j (Nat.le_refl j) later).2
        rw [rejected] at slept
        cases slept
  | @again j left made q f t exc o answer transient more slept rest ih =>
      have same : SettlesFrom backoff provider j (left + 1) ↔ SettlesFrom backoff provider
        (j + 1) left := by
        constructor
        · rintro ⟨n, least, below, settled, waits⟩
          have apart : j ≠ n := by
            rintro rfl
            rw [answer] at settled
            exact settled transient
          exact ⟨n, by omega, by omega, settled, fun i low high => waits i (by omega) high⟩
        · rintro ⟨n, least, below, settled, waits⟩
          refine ⟨n, by omega, by omega, settled, fun i low high => ?_⟩
          rcases Nat.eq_or_lt_of_le low with rfl | later
          · rw [answer]
            exact ⟨transient, slept⟩
          · exact waits i later high
      rw [same]
      constructor
      · intro settles
        obtain ⟨once, again⟩ := ih.1 settles
        exact ⟨once, by omega⟩
      · intro unsettled
        have := ih.2 unsettled
        omega

end ModelCourse

theorem ModelRetryConfig.maxAttempts_pos (config : ModelRetryConfig) :
    config.maxAttempts - 1 + 1 = config.maxAttempts := by
  unfold maxAttempts
  omega

/-- A call goes one of the courses of its attempts. -/
theorem call_went (env : ModelEnv Out) (config : ModelRetryConfig) (task : String)
    (metrics : MetricsRegistry) :
    ResilientStructuredProvider.Went config.retryBackoffSeconds env.provider 0
      config.maxAttempts metrics
      (env.call config task metrics) := by
  have went := @ResilientStructuredProvider.attempts_went Out _ env config task ⟨0, 0, metrics⟩ 0
    (config.maxAttempts - 1)
    none rfl
  rwa [config.maxAttempts_pos] at went

end

/-- A provider whose every invocation fails transiently. -/
def ModelEnv.timingOut : ModelEnv IncidentAnalysisReasoningOutput where
  provider := fun _ => .error ⟨.transient, "request timed out"⟩
  counter := fun n => n

/-- A call of some task, with the behaviour of the provider in it. -/
structure ModelCall where
  Out : Type
  structured : StructuredOutput Out
  task : String
  env : ModelEnv Out

instance (call : ModelCall) : StructuredOutput call.Out := call.structured

/-- The counters and the number of invocations after a call. -/
def ModelCall.next (config : ModelRetryConfig) (before : MetricsRegistry × Nat) (call : ModelCall) :
    MetricsRegistry × Nat :=
  let r := call.env.call config call.task before.1
  (r.2.metrics, before.2 + r.2.invocations)

/-- The counters and the number of invocations after a sequence of calls. -/
def callAll (config : ModelRetryConfig) (before : MetricsRegistry × Nat) (calls : List ModelCall) :
    MetricsRegistry × Nat :=
  calls.foldl (ModelCall.next config) before

/-- One of the attempts that the settings allow is reached, and it does not fail transiently. -/
def ModelCall.Settles (config : ModelRetryConfig) (call : ModelCall) : Prop :=
  SettlesFrom config.retryBackoffSeconds call.env.provider 0 config.maxAttempts

/-- What a call adds to the counters and to the invocations. -/
theorem ModelCall.next_spec (config : ModelRetryConfig) (before : MetricsRegistry × Nat)
    (call : ModelCall) :
    ∃ q f t made, Grows before.1 (call.next config before).1 q f t ∧ (call.next config before).2 =
      before.2 + made ∧
      made ≤ t + 1 ∧ (call.Settles config → q + f = 1) ∧ (call.Settles config ↔ made = t + 1) := by
  obtain ⟨q, f, t, course, grows⟩ := call_went call.env config call.task before.1
  refine ⟨q, f, t, _, grows, rfl, ?_, fun settles => (course.counts.1 settles).1, ?_⟩
  · by_cases settles : call.Settles config
    · have := (course.counts.1 settles).2
      omega
    · have := course.counts.2 settles
      omega
  · constructor
    · intro settles
      have := (course.counts.1 settles).2
      omega
    · intro same
      by_contra unsettled
      have := course.counts.2 unsettled
      omega

/-- No run counts fewer retries than invocations made again. -/
theorem callAll_retries_le (config : ModelRetryConfig) (calls : List ModelCall)
    (before : MetricsRegistry × Nat) :
    (callAll config before calls).2 + before.1.total "model_retries_total" ≤
      (callAll config before calls).1.total "model_retries_total" + calls.length + before.2 := by
  induction calls generalizing before with
  | nil => exact Nat.le_of_eq (Nat.add_comm _ _)
  | cons call rest ih =>
      obtain ⟨q, f, t, made, grows, invoked, bounded, _⟩ := call.next_spec config before
      have later := ih (call.next config before)
      have retries := grows.retries
      rw [callAll, List.foldl_cons, List.length_cons]
      unfold callAll at later
      omega

/-- Each call is counted once, as a success or as a failure, and the retries are the invocations
beyond the first of each call, exactly when every call settles. -/
theorem model_counters_iff (config : ModelRetryConfig) (calls : List ModelCall)
    (before : MetricsRegistry × Nat) :
    let after := callAll config before calls
    (after.1.total "model_requests_total" + after.1.total "model_failures_total" =
        before.1.total "model_requests_total" + before.1.total "model_failures_total" +
          calls.length ∧
      after.1.total "model_retries_total" + calls.length + before.2 = before.1.total
        "model_retries_total" + after.2) ↔
    ∀ call ∈ calls, call.Settles config := by
  induction calls generalizing before with
  | nil => simp [callAll]
  | cons call rest ih =>
      obtain ⟨q, f, t, made, grows, invoked, bounded, once, exact_⟩ := call.next_spec config before
      have least := callAll_retries_le config rest (call.next config before)
      have later := ih (call.next config before)
      dsimp only at later ⊢
      have requests := grows.requests
      have failures := grows.failures
      have retries := grows.retries
      rw [List.forall_mem_cons, ← later]
      simp only [callAll, List.foldl_cons, List.length_cons] at later least ⊢
      constructor
      · rintro ⟨counted, spent⟩
        have settles : call.Settles config := exact_.mpr (by omega)
        have := once settles
        exact ⟨settles, by omega, by omega⟩
      · rintro ⟨settles, counted, spent⟩
        have := once settles
        have := exact_.mp settles
        exact ⟨by omega, by omega⟩

/-- One call whose only attempt times out. -/
theorem model_retries_overcounted :
    let after := callAll ⟨0, 1 / 2⟩ (.empty, 0)
      [⟨_, inferInstance, "analyze_incident", ModelEnv.timingOut⟩]
    after.2 = 1 ∧ after.1.total "model_retries_total" = 1 := by
  decide +kernel

end AgenticPlatform
