import AgenticPlatform.ToolProtocol
import AgenticPlatform.Metrics
import Mathlib.Algebra.GroupWithZero.Nat
import Mathlib.Algebra.Order.BigOperators.Group.List
import Mathlib.Algebra.Order.Group.Nat

/-! The tool service around the executor: what a row says of the retries of its call, and what the
service counts of them. -/
namespace AgenticPlatform
open Interaction

/-- `error.retry_count`, or `output._tool_runtime.retry_count` where there is no error. -/
def carriedCount (tc : ToolCall) : Option Json :=
  match tc.error with
  | some error => Dict.get? error "retry_count"
  | none =>
      match Dict.get (tc.output.getD []) "_tool_runtime" with
      | .obj runtimeMeta => Dict.get? runtimeMeta "retry_count"
      | _ => none

namespace ToolRuntimeService

/-- `tc.latency_ms or …`. -/
def latencyMs (tc : ToolCall) (measuredMs : Nat) : Nat :=
  match tc.latencyMs with
  | none | some 0 => measuredMs
  | some ms => ms

/-- The row names a count of retries above zero; a boolean is an `int`. -/
def retried (tc : ToolCall) : Bool :=
  match tc.error with
  | none => false
  | some error =>
      match Dict.get error "retry_count" with
      | .int retries => 0 < retries
      | .bool retries => retries
      | _ => false

/-- The counters after a call that returned a row. -/
def count (metrics : MetricsRegistry) (request : ToolInvokeRequest) (tc : ToolCall)
    (measuredMs : Nat) :
    MetricsRegistry :=
  let tool : Labels := [("tool", request.toolName)]
  let observed := metrics.observeLatencyMs "tool_invoke" (latencyMs tc measuredMs) tool
  let invoked := observed.inc "tool_invocations_total" (tool ++ [("status", tc.status.value)])
  let timed := if tc.status = .timeout then invoked.inc "tool_timeouts_total" tool else invoked
  if retried tc then timed.inc "tool_retries_total" tool else timed

end ToolRuntimeService

/-- A call of a service, with the surroundings that it meets. -/
structure ToolInvocation (H : Type) where
  executor : ToolExecutor H
  env : ToolEnv H
  request : ToolInvokeRequest
  now : Time
  /-- The duration that the service measures. -/
  measuredMs : Nat

namespace ToolInvocation
variable {H : Type} (call : ToolInvocation H)

/-- `ToolRuntimeService.invoke`. An `ImportError` out of the executor is taken for a missing metrics
package, and the request is executed again. -/
def invoke (metrics : MetricsRegistry) : Outcome ToolError ToolCall × ToolState × MetricsRegistry :=
  match call.env.execute call.executor call.request call.now with
  | (.ret tc, s) => (.ret tc, s, ToolRuntimeService.count metrics call.request tc call.measuredMs)
  | (.raise exc, s) =>
      if exc.kind = .other "ImportError" then
        let (o, t) := run call.env.handle (call.executor.execute call.request call.now) s
        (o, t, metrics)
      else (.raise exc, s, metrics)
  | (.halt, s) => (.halt, s, metrics)

/-- How often the handler has been invoked. -/
def invocations : Nat := (call.env.execute call.executor call.request call.now).2.invocations

/-- The invocations after the first one. -/
def reinvocations : Nat := call.invocations - 1

end ToolInvocation

/-- The counters after a sequence of calls. -/
def invokeAll {H : Type} (metrics : MetricsRegistry) (calls : List (ToolInvocation H)) :
    MetricsRegistry :=
  calls.foldl (fun metrics call => (call.invoke metrics).2.2) metrics

/-- A count, and what it adds to the retries that are counted. -/
structure Tells (tc : ToolCall) (count : Option Nat) (growth : Nat) : Prop where
  carried : carriedCount tc = count.map fun n => .int n
  counted : (if ToolRuntimeService.retried tc then 1 else 0) = growth

/-- What a call tells of its retries; without a row it tells nothing. -/
inductive Says : Outcome ToolError ToolCall → Option Nat → Nat → Prop
  | row {tc : ToolCall} {count : Option Nat} {growth : Nat} (tells : Tells tc count
    growth) : Says (.ret tc) count growth
  | raised {e : ToolError} : Says (.raise e) none 0
  | halted : Says .halt none 0

theorem Says.of_lost {o : Outcome ToolError ToolCall} (lost : ∀ tc, o ≠ .ret tc) :
    Says o none 0 := by
  cases o with
  | ret tc => exact absurd rfl (lost tc)
  | raise e => exact .raised
  | halt => exact .halted

/-- The attempts from `j` on of a loop that allows `m` retries: the count that the row carries, what
it adds to the retries that are counted, and the invocations made by then. -/
inductive RetryLoop (m : Nat) (stop : Nat → Bool) (answer : Nat → Ending) :
    Nat → Nat → Option Nat → Nat → Nat → Prop
  | cancelled {j left : Nat} (stopped : stop j = true) : RetryLoop m stop answer j (left +
    1) none 0 j
  | succeeded {j left : Nat} (passes : stop j = false) (taken : Succeeds (answer j)) :
      RetryLoop m stop answer j (left + 1) (some j) 0 (j + 1)
  | invalid {j left : Nat} (passes : stop j = false) (reportable : Reportable (answer j)) (refused :
    Invalid (answer j)) :
      RetryLoop m stop answer j (left + 1) (some j) (min j 1) (j + 1)
  | exhausted {j left : Nat} (passes : stop j = false) (reportable : Reportable
    (answer j)) (untaken : ¬ Succeeds (answer j))
      (unrefused : ¬ Invalid (answer j)) (final : Retryable (answer j) → left = 0) :
      RetryLoop m stop answer j (left + 1) (some m) (min m 1) (j + 1)
  | lost {j left : Nat} (passes : stop j = false) (unreportable : ¬ Reportable (answer j))
      (final : Retryable (answer j) → left = 0) : RetryLoop m stop answer j (left + 1)
        none 0 (j + 1)
  | again {j left growth made : Nat} {count : Option Nat} (passes : stop j =
    false) (retry : Retryable (answer j))
      (more : left ≠ 0) (rest : RetryLoop m stop answer (j + 1) left count growth made) :
      RetryLoop m stop answer j (left + 1) count growth made

namespace ToolExecutor
variable {H : Type} {executor : ToolExecutor H} {env : ToolEnv H}
  {tool : RegisteredTool} {handler : H}
  {tcid : UUID} {request : ToolInvokeRequest} {now : Time} {started : Nat} {s : ToolState}

theorem toolError_counts {code message : String} {n : Nat} {rest : Dict} {tc : ToolCall}
    (error : tc.error = some (toolError code message ++ ("retry_count", .int n) :: rest)) :
    Tells tc (some n) (min n 1) := by
  have found : Dict.get? (toolError code message ++ ("retry_count", .int n) :: rest) "retry_count" =
    some (.int n) := by
    simp [toolError]
  constructor
  · rw [carriedCount, error]
    exact found
  · rw [ToolRuntimeService.retried, error]
    simp only [Dict.get, found, Option.getD_some, decide_eq_true_eq]
    split <;> omega

theorem toolError_tells_nothing {code message : String} {tc : ToolCall}
    (error : tc.error = some (toolError code message)) : Tells tc none 0 := by
  have absent : Dict.get? (toolError code message) "retry_count" = none := by simp [toolError]
  constructor
  · rw [carriedCount, error]
    exact absent
  · rw [ToolRuntimeService.retried, error]
    simp only [Dict.get, absent]
    rfl

theorem FailureRow.tells {count : Nat} {tc : ToolCall} (row : FailureRow count tc) : Tells tc
    (some count) (min count 1) := by
  obtain ⟨code, message, rest, error⟩ := row.error
  exact toolError_counts error

theorem SuccessRow.tells {attempt : Nat} {tc : ToolCall} (row : SuccessRow tool attempt tc) :
    Tells tc (some attempt) 0 := by
  obtain ⟨out, output⟩ := row.output
  constructor
  · simp [carriedCount, row.error, output, Dict.get, Dict.get?_set]
  · simp [ToolRuntimeService.retried, row.error]

/-- The checks before the attempts, as the loop sees them. -/
def stopsAttempt (executor : ToolExecutor H) (env : ToolEnv H) (j : Nat) : Bool :=
  match env.stops executor (j + 1) with
  | .ok stop => stop
  | .error _ => true

/-- A loop whose row and invocations are those of one of its exits. -/
def Told (tool : RegisteredTool) (stop : Nat → Bool) (answer : Nat → Ending) (j left : Nat)
    (r : Outcome ToolError ToolCall × ToolState) : Prop :=
  ∃ count growth, Says r.1 count growth ∧
    RetryLoop tool.retryPolicy.maxRetries stop answer j left count growth r.2.invocations

section
variable {j remaining : Nat} {lastExc : Option ToolError}

/-- One iteration, which ends the loop or leaves the rest to the next one. -/
theorem attempts_told_step (answering : ∀ n, ∃ stop, env.stops executor n = .ok stop)
    (at_ : executor.At j s) (rest : remaining ≠ 0 → ∀ exc, Told tool (executor.stopsAttempt env)
      (env.outcome tool handler request.input) (j + 1)
      remaining (run env.handle (executor.attempts tcid request now tool handler started (j + 1)
        remaining (some exc))
        (executor.attempted s))) :
    Told tool (executor.stopsAttempt env) (env.outcome tool handler request.input) j (remaining + 1)
      (run env.handle (executor.attempts tcid request now tool handler started j (remaining + 1)
        lastExc) s) := by
  obtain ⟨stop, checked⟩ := answering (j + 1)
  have check : executor.stopsAttempt env j = stop := by rw [stopsAttempt, checked]
  have first := at_.invocations
  rw [← at_.stops] at checked
  cases stop with
  | true =>
      obtain ⟨count, tc, row, _, error⟩ := @attempts_cancelled _ executor env tool handler tcid
        request now started s j
        remaining lastExc checked
      refine ⟨none, 0, row ▸ .row (toolError_tells_nothing error), ?_⟩
      rw [count, first]
      exact .cancelled check
  | false =>
      by_cases more : Retryable (env.outcome tool handler request.input s.invocations) ∧
        remaining ≠ 0
      · obtain ⟨exc, _, again⟩ := @attempts_again _ executor env tool handler tcid request now
          started s j remaining lastExc
          checked more.1 more.2
        obtain ⟨count, growth, told, loop⟩ := rest more.2 exc
        rw [again]
        exact ⟨count, growth, told, .again check (first ▸ more.1) more.2 loop⟩
      · have last : Retryable (env.outcome tool handler request.input s.invocations) →
          remaining = 0 :=
          fun retryable => not_not.mp fun left => more ⟨retryable, left⟩
        obtain ⟨count, verdict⟩ := @attempts_last _ executor env tool handler tcid request now
          started s j remaining lastExc
          checked last
        rw [Told, count, first]
        rw [first] at last verdict
        by_cases reportable : Reportable (env.outcome tool handler request.input j)
        · obtain ⟨tc, row⟩ := verdict.returns.mpr reportable
          rw [row]
          by_cases taken : Succeeds (env.outcome tool handler request.input j)
          · exact ⟨some j, 0, .row (verdict.succeeded tc row taken).tells, .succeeded check taken⟩
          · by_cases refused : Invalid (env.outcome tool handler request.input j)
            · exact ⟨some j, _, .row (verdict.invalid tc row refused).tells, .invalid check
                reportable refused⟩
            · exact ⟨some _, _, .row (verdict.exhausted tc row taken refused).tells,
                .exhausted check reportable taken refused last⟩
        · exact ⟨none, 0, .of_lost fun tc row => reportable (verdict.returns.mp ⟨tc, row⟩),
            .lost check reportable last⟩

/-- The row and the invocations of a loop are those of one of its exits. -/
theorem attempts_told (answering : ∀ n, ∃ stop, env.stops executor n = .ok stop) (remaining : Nat)
    (at_ : executor.At j s) :
    Told tool (executor.stopsAttempt env) (env.outcome tool handler request.input) j (remaining + 1)
      (run env.handle (executor.attempts tcid request now tool handler started j (remaining + 1)
        lastExc) s) := by
  induction remaining generalizing j lastExc s with
  | zero => exact attempts_told_step answering at_ fun more => absurd rfl more
  | succ remaining ih => exact attempts_told_step answering at_ fun _ exc => ih at_.next

end

end ToolExecutor

/-- The exits whose count is right and that are counted as often as the handler is invoked again:
the first attempt decides, is never made or leaves no row, or the second one ends in a validation
error or in the failure of the only retry. -/
def WellCounted (m : Nat) (stop : Nat → Bool) (answer : Nat → Ending) : Prop :=
  stop 0 = true ∨ Succeeds (answer 0) ∨ Invalid (answer 0) ∨ m = 0 ∨ ¬ Retryable (answer 0) ∧
    ¬ Reportable (answer 0) ∨
    Retryable (answer 0) ∧ (stop 1 = true ∨ Reportable (answer 1) ∧ (Invalid (answer 1) ∨ m = 1 ∧
      ¬ Succeeds (answer 1)))

/-- A count that is carried after an invocation is the number of invocations less one. -/
def Right (count : Option Nat) (made : Nat) : Prop := 1 ≤ made → ∀ n, count = some n → n = made - 1

namespace RetryLoop
variable {m j left growth made : Nat} {stop : Nat → Bool} {answer : Nat → Ending}
  {count : Option Nat}

/-- With the right count there is never too much counted. -/
theorem growth_le (loop : RetryLoop m stop answer j left count growth made)
    (right : Right count made) :
    growth ≤ made - 1 := by
  induction loop with
  | cancelled => exact Nat.zero_le _
  | succeeded => exact Nat.zero_le _
  | invalid => exact Nat.min_le_left _ _
  | exhausted =>
      have carried := right (Nat.succ_pos _) m rfl
      omega
  | lost => exact Nat.zero_le _
  | again _ _ _ _ ih => exact ih right

/-- From the third attempt on there is too little counted. -/
theorem growth_lt (loop : RetryLoop m stop answer j left count growth made) (late : 2 ≤ j) :
    growth < made - 1 := by
  induction loop with
  | cancelled => omega
  | succeeded => omega
  | invalid => omega
  | exhausted => omega
  | lost => omega
  | again _ _ _ _ ih => exact ih (by omega)

theorem second_iff (loop : RetryLoop m stop answer 1 left count growth made) (allowed : left = m)
    (retry : Retryable (answer 0)) (passes : stop 0 = false) :
    Right count made ∧ growth = made - 1 ↔ WellCounted m stop answer := by
  have reduced : WellCounted m stop answer ↔
      m = 0 ∨ stop 1 = true ∨ Reportable (answer 1) ∧ (Invalid (answer 1) ∨ m = 1 ∧
        ¬ Succeeds (answer 1)) := by
    simp [WellCounted, passes, retry.not_succeeds, retry.not_invalid, retry]
  rw [reduced]
  cases loop with
  | cancelled stopped =>
      exact iff_of_true ⟨fun _ n carried => (Option.some_ne_none n carried.symm).elim, rfl⟩
        (.inr (.inl stopped))
  | succeeded passes taken =>
      refine iff_of_false (fun both => absurd both.2 (by decide)) ?_
      simp [← allowed, passes, taken, taken.not_invalid]
  | invalid _ reportable refused =>
      exact iff_of_true ⟨fun _ n carried => (Option.some.inj carried).symm, rfl⟩
        (.inr (.inr ⟨reportable, .inl refused⟩))
  | exhausted passes reportable untaken unrefused _ =>
      simp only [← allowed, passes, reportable, untaken, unrefused, Nat.succ_ne_zero,
        Bool.false_eq_true, false_or, not_false_iff, and_true, true_and]
      constructor
      · exact fun ⟨right, _⟩ => right (by decide) _ rfl
      · intro single
        rw [single]
        exact ⟨fun _ n carried => (Option.some.inj carried).symm, rfl⟩
  | lost passes unreportable _ =>
      refine iff_of_false (fun both => absurd both.2 (by decide)) ?_
      simp [← allowed, passes, unreportable]
  | @again _ later _ _ _ passes again more rest =>
      refine iff_of_false (fun both => ?_) ?_
      · have := rest.growth_lt (Nat.le_refl 2)
        omega
      · simp [← allowed, passes, again.not_invalid, more]

theorem exact_iff (loop : RetryLoop m stop answer 0 (m + 1) count growth made) :
    Right count made ∧ growth = made - 1 ↔ WellCounted m stop answer := by
  cases loop with
  | cancelled stopped => exact iff_of_true ⟨fun made => absurd made (by decide), rfl⟩ (.inl stopped)
  | succeeded _ taken =>
      refine iff_of_true ⟨fun _ n carried => ?_, rfl⟩ (.inr (.inl taken))
      exact (Option.some.inj carried).symm
  | invalid _ _ refused =>
      refine iff_of_true ⟨fun _ n carried => ?_, rfl⟩ (.inr (.inr (.inl refused)))
      exact (Option.some.inj carried).symm
  | exhausted passes reportable untaken unrefused final =>
      have reduced : WellCounted m stop answer ↔ m = 0 := by
        simp only [WellCounted, passes, reportable, untaken, unrefused, Bool.false_eq_true,
          false_or, not_true, and_false, or_iff_left_iff_imp]
        exact fun again => final again.1
      rw [reduced]
      constructor
      · exact fun ⟨right, _⟩ => right (Nat.le_refl 1) m rfl
      · rintro rfl
        exact ⟨fun _ n carried => (Option.some.inj carried).symm, rfl⟩
  | lost _ unreportable final =>
      refine iff_of_true ⟨fun _ n carried => (Option.some_ne_none n carried.symm).elim, rfl⟩ ?_
      by_cases retry : Retryable (answer 0)
      · exact .inr (.inr (.inr (.inl (final retry))))
      · exact .inr (.inr (.inr (.inr (.inl ⟨retry, unreportable⟩))))
  | again passes retry _ rest => exact second_iff rest rfl retry passes

end RetryLoop

namespace ToolExecutor
variable {H : Type} {executor : ToolExecutor H} {env : ToolEnv H}
  {request : ToolInvokeRequest} {now : Time}

/-- A call that does not come to the loop. -/
theorem execute_gated (answering : Answering env)
    (gated : ∀ tool handler, ¬ executor.Reaches env request tool handler) :
    ∃ tc, (env.execute executor request now).1 = .ret tc ∧ Tells tc none 0 ∧
      (env.execute executor request now).2.invocations = 0 := by
  rw [ToolEnv.execute, execute, run_bind, run_perform]
  simp only [ToolEnv.handle, Outcome.ofExcept, resume]
  by_cases denied : request.policyDenied = true
  · rw [if_pos denied]
    exact ⟨_, rfl, toolError_tells_nothing rfl, rfl⟩
  · rw [if_neg denied]
    cases registered : executor.registry.get request.toolName with
    | none => exact ⟨_, rfl, toolError_tells_nothing rfl, rfl⟩
    | some entry =>
        obtain ⟨tool, handler⟩ := entry
        obtain ⟨stop, checked⟩ := @Answering.stops _ executor _ answering 0
        dsimp only
        rw [run_bind, run_isCancelled, checked]
        cases stop with
        | true => exact ⟨_, rfl, toolError_tells_nothing rfl, checked_invocations⟩
        | false =>
            cases valid : validateInput request with
            | error exc =>
                simp only [Outcome.ofExcept, resume, Bool.false_eq_true, if_false,
                  validateInput_str valid]
                exact ⟨_, rfl, toolError_tells_nothing rfl, checked_invocations⟩
            | ok u =>
                exact absurd ⟨registered, Bool.eq_false_iff.mpr denied, checked, valid⟩
                  (gated tool handler)

end ToolExecutor

namespace ToolInvocation
variable {H : Type} (call : ToolInvocation H)

/-- What a call adds to the retries that are counted. -/
def growth : Nat :=
  match (call.env.execute call.executor call.request call.now).1 with
  | .ret tc => if ToolRuntimeService.retried tc then 1 else 0
  | _ => 0

/-- The count that the row carries is the number of invocations less one, if there is an
invocation. -/
def CountRight : Prop :=
  ∀ tc c, (call.env.execute call.executor call.request call.now).1 = .ret tc →
    1 ≤ call.invocations →
    carriedCount tc = some c → c = .int (call.invocations - 1 : Nat)

/-- The retry loop, where the call comes to it, is left by an exit that is counted well. -/
def WellReported : Prop :=
  ∀ tool handler, call.executor.Reaches call.env call.request tool handler →
    WellCounted tool.retryPolicy.maxRetries (call.executor.stopsAttempt call.env)
      (call.env.outcome tool handler call.request.input)

variable {call}

theorem total_count {metrics : MetricsRegistry} {request : ToolInvokeRequest} {tc : ToolCall}
    {measuredMs : Nat} :
    (ToolRuntimeService.count metrics request tc measuredMs).total "tool_retries_total" =
      metrics.total "tool_retries_total" + if ToolRuntimeService.retried tc then 1 else 0 := by
  have invoked {labels labels' : Labels} {ms : Nat} :
      ((metrics.observeLatencyMs "tool_invoke" ms labels).inc "tool_invocations_total"
        labels').total
        "tool_retries_total" = metrics.total "tool_retries_total" := by
    rw [MetricsRegistry.total_inc_other (by decide), MetricsRegistry.total_observe (by decide)]
  have timed {reg : MetricsRegistry} {labels : Labels} (late : Prop) [Decidable late] :
      (if late then reg.inc "tool_timeouts_total" labels else reg).total "tool_retries_total" =
        reg.total "tool_retries_total" := by
    split
    · exact MetricsRegistry.total_inc_other (by decide)
    · rfl
  unfold ToolRuntimeService.count
  dsimp only
  split
  · rw [MetricsRegistry.total_inc_self, timed, invoked]
  · rw [timed, invoked, Nat.add_zero]

theorem total_invoke (metrics : MetricsRegistry) :
    (call.invoke metrics).2.2.total "tool_retries_total" =
    metrics.total "tool_retries_total" + call.growth := by
  unfold invoke growth
  cases call.env.execute call.executor call.request call.now with
  | mk o s =>
      cases o with
      | ret tc => exact total_count
      | raise exc =>
          dsimp only
          split <;> rfl
      | halt => rfl

theorem growth_of_told {count : Option Nat} {n : Nat}
    (told : Says (call.env.execute call.executor call.request call.now).1 count n) :
    call.growth = n := by
  unfold growth
  cases same : (call.env.execute call.executor call.request call.now).1 with
  | ret tc =>
      rw [same] at told
      cases told with
      | row tells => exact tells.counted
  | raise e =>
      rw [same] at told
      cases told
      rfl
  | halt =>
      rw [same] at told
      cases told
      rfl

theorem countRight_of_told {count : Option Nat} {n : Nat}
    (told : Says (call.env.execute call.executor call.request call.now).1 count n) :
    call.CountRight ↔ Right count call.invocations := by
  unfold CountRight
  cases same : (call.env.execute call.executor call.request call.now).1 with
  | ret tc =>
      rw [same] at told
      cases told with
      | row tells =>
          constructor
          · rintro right made n rfl
            have carried := right tc (.int n) rfl made tells.carried
            exact Int.ofNat.inj (Json.int.inj carried)
          · rintro right tc' c ⟨⟩ made carried
            rw [tells.carried] at carried
            obtain ⟨n, known, rfl⟩ := Option.map_eq_some_iff.mp carried
            rw [right made n known]
  | raise e =>
      rw [same] at told
      cases told
      exact iff_of_true (by rintro tc c ⟨⟩) fun _ n carried =>
        (Option.some_ne_none n carried.symm).elim
  | halt =>
      rw [same] at told
      cases told
      exact iff_of_true (by rintro tc c ⟨⟩) fun _ n carried =>
        (Option.some_ne_none n carried.symm).elim

theorem wellReported_of_reaches {tool : RegisteredTool} {handler : H}
    (reaches : call.executor.Reaches call.env call.request tool handler) :
    call.WellReported ↔ WellCounted tool.retryPolicy.maxRetries
      (call.executor.stopsAttempt call.env) (call.env.outcome tool handler call.request.input) := by
  constructor
  · exact fun reported => reported tool handler reaches
  · intro counted tool' handler' reaches'
    obtain ⟨rfl, rfl⟩ := Prod.mk.inj (Option.some.inj (reaches.1.symm.trans reaches'.1))
    exact counted

/-- With the right count a call never counts too much, and it counts enough exactly at the exits
that are counted well. -/
theorem growth_spec (answering : ToolExecutor.Answering call.env) :
    (call.CountRight → call.growth ≤ call.reinvocations) ∧
      (call.CountRight ∧ call.growth = call.reinvocations ↔ call.WellReported) := by
  by_cases gated : ∀ tool handler, ¬ call.executor.Reaches call.env call.request tool handler
  · obtain ⟨tc, row, told, silent⟩ := @ToolExecutor.execute_gated _ _ _ _ call.now answering gated
    have nothing : Says (call.env.execute call.executor call.request call.now).1 none 0 := by
      rw [row]
      exact .row told
    rw [growth_of_told nothing]
    refine ⟨fun _ => Nat.zero_le _, iff_of_true ⟨?_, ?_⟩ fun tool handler reaches => absurd reaches
      (gated tool handler)⟩
    · intro _ _ _ made
      rw [invocations, silent] at made
      exact absurd made (by decide)
    · rw [reinvocations, invocations, silent]
  · simp only [not_forall, not_not] at gated
    obtain ⟨tool, handler, reaches⟩ := gated
    obtain ⟨s, started, at_, eq⟩ := @ToolExecutor.execute_passed _ _ _ _ _ _ call.now
      reaches.1 reaches.2
    obtain ⟨count, n, told, loop⟩ := @ToolExecutor.attempts_told _ call.executor call.env tool
      handler call.env.fresh
      call.request call.now started s 0 none answering.stops tool.retryPolicy.maxRetries at_
    rw [← eq] at told loop
    rw [growth_of_told told, countRight_of_told told, wellReported_of_reaches reaches]
    exact ⟨loop.growth_le, loop.exact_iff⟩

end ToolInvocation

variable {H : Type}

theorem total_invokeAll (calls : List (ToolInvocation H)) (metrics : MetricsRegistry) :
    (invokeAll metrics calls).total "tool_retries_total" =
      metrics.total "tool_retries_total" + (calls.map ToolInvocation.growth).sum := by
  induction calls generalizing metrics with
  | nil => rfl
  | cons call rest ih =>
      rw [invokeAll, List.foldl_cons]
      refine (ih _).trans ?_
      rw [ToolInvocation.total_invoke, List.map_cons, List.sum_cons, Nat.add_assoc]

theorem growth_sum_le {calls : List (ToolInvocation H)}
    (answering : ∀ call ∈ calls, ToolExecutor.Answering call.env)
    (rights : ∀ call ∈ calls, call.CountRight) :
    (calls.map ToolInvocation.growth).sum ≤ (calls.map ToolInvocation.reinvocations).sum :=
  List.sum_le_sum fun call member => (ToolInvocation.growth_spec (answering call member)).1
    (rights call member)

/-- The counts of retries in the rows of any calls are right, and their metric grows by the
invocations made again, exactly when each call leaves its retry loop by an exit that is counted
well. -/
theorem tool_retries_reported_iff (calls : List (ToolInvocation H)) (metrics : MetricsRegistry)
    (answering : ∀ call ∈ calls, ToolExecutor.Answering call.env) :
    ((∀ call ∈ calls, call.CountRight) ∧ (invokeAll metrics calls).total "tool_retries_total" =
      metrics.total "tool_retries_total" + (calls.map ToolInvocation.reinvocations).sum) ↔
    ∀ call ∈ calls, call.WellReported := by
  rw [total_invokeAll, Nat.add_left_cancel_iff]
  induction calls with
  | nil => simp
  | cons call rest ih =>
      obtain ⟨bounded, exact_⟩ := ToolInvocation.growth_spec (answering call List.mem_cons_self)
      have later := ih fun other member => answering other (List.mem_cons_of_mem call member)
      rw [List.forall_mem_cons, List.forall_mem_cons, ← exact_, ← later]
      simp only [List.map_cons, List.sum_cons]
      constructor
      · rintro ⟨⟨right, rights⟩, sum⟩
        have least := bounded right
        have leasts := growth_sum_le (fun other member => answering other
          (List.mem_cons_of_mem call member)) rights
        exact ⟨⟨right, by omega⟩, rights, by omega⟩
      · rintro ⟨⟨right, same⟩, rights, sames⟩
        exact ⟨⟨right, rights⟩, by rw [same, sames]⟩

/-- A tool that allows two retries and fails for good at its first invocation. -/
def failingUpdate : ToolInvocation FixtureHandler :=
  ⟨soleTool retriedUpdate, .failing (.other "ValueError"), updateRequest, 0, 1⟩

theorem tool_retries_misreported : ToolExecutor.Answering failingUpdate.env ∧
    failingUpdate.invocations = 1 ∧
    ¬ failingUpdate.CountRight := by
  refine ⟨fun _ => ⟨false, rfl⟩, by decide, fun right => ?_⟩
  have carried := right _ (.int 2) rfl (by decide) (by decide)
  exact absurd carried (by decide)

/-- The update tool of the default registry, which is not retried. -/
def timedOutUpdate : ToolInvocation FixtureHandler :=
  ⟨⟨buildDefaultRegistry, false⟩, .failing .timeout, updateRequest, 0, 1⟩

theorem tool_retries_reported_default :
    (∀ call ∈ [timedOutUpdate, timedOutUpdate], call.CountRight) ∧
      (invokeAll .empty [timedOutUpdate, timedOutUpdate]).total "tool_retries_total" =
        MetricsRegistry.empty.total "tool_retries_total" +
          ([timedOutUpdate, timedOutUpdate].map ToolInvocation.reinvocations).sum := by
  refine (tool_retries_reported_iff [timedOutUpdate, timedOutUpdate] .empty ?_).mpr ?_
  · exact fun call member => by
      obtain rfl : call = timedOutUpdate := by simpa using member
      exact fun _ => ⟨false, rfl⟩
  · intro call member tool handler reaches
    obtain rfl : call = timedOutUpdate := by simpa using member
    obtain ⟨rfl, _⟩ := Prod.mk.inj (Option.some.inj (reaches.1.symm.trans rfl))
    exact .inr (.inr (.inr (.inl rfl)))

end AgenticPlatform
