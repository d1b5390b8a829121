import AgenticPlatform.Containment
import AgenticPlatform.Orderly
import AgenticPlatform.RowSpec

/-! The course of one run: every call that it makes is lawful and local, whatever the other
services answer. What is assumed of the answers, and what is asked of the start of a step, are
terms of the course. -/
namespace AgenticPlatform
open Interaction ExecutionEngine Store

/-- A run of one execution and what it may rely on. With `passing`, the model finds that every
validation passes; with `answering`, the services that no `try` surrounds answer. The tools are
answered with `calls`, and each step that is started must satisfy `starts`. -/
structure Course where
  env : Env
  executionId : UUID
  passing : Prop
  answering : Prop
  calls : ToolCall → Prop
  starts : World → Step → Prop

/-- The answer of a tool. -/
def Op.Calls (calls : ToolCall → Prop) : (op : Op) → Except Exn op.Res → Prop
  | .invoke _ _, .ok tc => calls tc
  | _, _ => True

theorem Op.calls_any (op : Op) (r : Except Exn op.Res) : op.Calls (fun _ => True) r := by
  cases op with
  | invoke request now => cases r <;> trivial
  | _ => trivial

namespace Course

/-- What a course assumes of an answer. -/
structure Assumed (c : Course) (op : Op) (r : Except Exn op.Res) : Prop where
  passes : c.passing → ∀ a, r = .ok a → op.Passes a
  answers : c.answering → op.exposed = true → ∃ a, r = .ok a
  calls : op.Calls c.calls r

/-- What a course asks of a call beyond that it is lawful. -/
def Demands (c : Course) (w : World) : Op → Prop
  | .updateStep s => s.status = .running → c.starts w s
  | .saveToolCall tc => c.calls tc
  | _ => True

/-- The store, where every call must be lawful for the execution and concern nothing else. -/
abbrev sem (c : Course) : Semantics platform Exn where
  State := World
  step w op r t := handle c.env w op = (r, t) ∧ c.Assumed op r
  ok w op := Lawful c.passing c.executionId w op ∧ Local c.executionId w op ∧ c.Demands w op

/-- The course that assumes and asks for nothing more. -/
def free (env : Env) (executionId : UUID) : Course where
  env := env
  executionId := executionId
  passing := False
  answering := False
  calls := fun _ => True
  starts := fun _ _ => True

theorem free_assumed (env : Env) (executionId : UUID) (op : Op) (r : Except Exn op.Res) :
    (free env executionId).Assumed op r :=
  ⟨False.elim, False.elim, op.calls_any r⟩

/-- The row of a run that has left its planning phase. -/
def Begun (row : Execution) : Prop := row.status ≠ .created ∧ row.status ≠ .planning

/-- The row with trace rows appended that announce no status and these starts. -/
def Logged (row : Execution) (started : List Json) (ex : Execution) : Prop :=
  Traced row ex ∧ startedRows ex.traceTimeline = startedRows row.traceTimeline ++ started

/-- What a run knows of the store between two of its calls: the row is `known`, apart from rows
and tool calls the store is `view`, and the identifiers below `drawn` have been given out. -/
structure Held (c : Course) (known : Execution → Prop) (view : Repository) (drawn : Nat)
    (w : World) : Prop where
  bounded : Bounded w
  orderly : Orderly c.passing c.executionId w
  row : ∃ row, w.execution c.executionId = some row ∧ known row
  view : w.repo = { view with executions := w.repo.executions, toolCalls := w.repo.toolCalls }
  drawn : drawn ≤ w.fresh

/-- The run has begun, and all is in order. -/
structure Underway (c : Course) (w : World) : Prop where
  bounded : Bounded w
  orderly : Orderly c.passing c.executionId w
  row : ∃ row, w.execution c.executionId = some row ∧ Begun row

section
variable {c : Course} {known N : Execution → Prop} {view : Repository} {drawn : Nat}
  {w t : World} {op : Op}
  {row ex : Execution} {now : Time} {engine : ExecutionEngine} {started : List Json}

theorem Logged.refl : Logged row [] row := ⟨.refl, (List.append_nil _).symm⟩

theorem Logged.events (logged : Logged row started ex) {events : List Event}
    (plain : ∀ event ∈ events, event.Plain) :
    Logged row (started ++ startedRows (events.map fun event => timelineRow event.1 event.2 now))
      (appendEvents ex events now) := by
  refine ⟨logged.1.events plain, ?_⟩
  rw [appendEvents_eq, startedRows_append, logged.2, List.append_assoc]

theorem Held.mono (held : Held c known view drawn w) (weaker : ∀ row, known row → N row) :
    Held c N view drawn w :=
  ⟨held.bounded, held.orderly, held.row.imp fun _ h => ⟨h.1, weaker _ h.2⟩, held.view, held.drawn⟩

theorem Held.underway (held : Held c known view drawn w) (begun : ∀ row, known row → Begun row) :
    Underway c w :=
  ⟨held.bounded, held.orderly, held.row.imp fun row h => ⟨h.1, begun row h.2⟩⟩

theorem Underway.held (underway : Underway c w) : Held c Begun w.repo w.fresh w :=
  ⟨underway.bounded, underway.orderly, underway.row, rfl, Nat.le_refl _⟩

/-- Every identifier given out so far counts as drawn. -/
theorem Held.exact (held : Held c known view drawn w) : Held c known view w.fresh w :=
  ⟨held.bounded, held.orderly, held.row, held.view, Nat.le_refl _⟩

theorem Held.contexts (held : Held c known view drawn w) : w.repo.contexts = view.contexts := by
  rw [held.view]
theorem Held.plans (held : Held c known view drawn w) : w.repo.plans = view.plans := by
  rw [held.view]
theorem Held.steps (held : Held c known view drawn w) : w.repo.steps = view.steps := by
  rw [held.view]
theorem Held.results (held : Held c known view drawn w) :
    w.repo.stepResults = view.stepResults := by rw [held.view]
theorem Held.proposals (held : Held c known view drawn w) :
    w.repo.actionProposals = view.actionProposals := by
  rw [held.view]
theorem Held.evaluations (held : Held c known view drawn w) :
    w.repo.policyEvaluations = view.policyEvaluations := by rw [held.view]

theorem Held.stored (held : Held c (· = row) view drawn w) :
    w.execution c.executionId = some row := by
  obtain ⟨_, stored, rfl⟩ := held.row
  exact stored

theorem course_call (op : Op) {Q : Outcome Exn op.Res → World → Prop}
    (lawful : Lawful c.passing c.executionId w op) (near : Local c.executionId w op)
    (demands : c.Demands w op) (post : c.Assumed op (handle c.env w op).1 →
      answered (M := c.sem) Q (handle c.env w op).1 (handle c.env w op).2) :
    wp c.sem (M.perform op) Q w := by
  refine wp_perform.mpr ⟨⟨lawful, near, demands⟩, ?_⟩
  rintro r t ⟨step, assumed⟩
  obtain ⟨rfl, rfl⟩ := Prod.mk.inj step
  exact post assumed

/-- What a lawful call leaves behind is in order. -/
theorem Held.next (held : Held c known view drawn w) (lawful : Lawful c.passing c.executionId w op)
    (row : ∃ row, (handle c.env w op).2.execution c.executionId = some row ∧ N row) {v : Repository}
    (repo : (handle c.env w op).2.repo = { v with
      executions := (handle c.env w op).2.repo.executions, toolCalls :=
        (handle c.env w op).2.repo.toolCalls })
    (fresh : w.fresh ≤ (handle c.env w op).2.fresh) : Held c N v drawn (handle c.env w op).2 :=
  ⟨bounded_handle held.bounded (lawful.drawn held.bounded), lawful.orderly held.orderly, row, repo,
    held.drawn.trans fresh⟩

/-- A call that is answered and changes no row. -/
theorem held_still (op : Op) {a : op.Res} (lawful : Lawful c.passing c.executionId w op)
    (near : Local c.executionId w op) (demands : c.Demands w op)
    (answer : (handle c.env w op).1 = .ok a) (repo : (handle c.env w op).2.repo = w.repo)
    (fresh : w.fresh ≤ (handle c.env w op).2.fresh) (held : Held c known view drawn w) :
    wp c.sem (M.perform op) (ends (Held c known view drawn) (fun _ _ => False) (· = a)) w := by
  refine course_call op lawful near demands fun _ => ?_
  rw [answer]
  refine ⟨rfl, held.next lawful ?_ ?_ fresh⟩
  · simp only [World.execution, repo]
    exact held.row
  · rw [repo]
    exact held.view

/-- A service that no `try` surrounds is asked. -/
theorem held_asked (op : Op) (lawful : Lawful c.passing c.executionId w op)
    (near : Local c.executionId w op) (exposed : op.exposed = true)
    (repo : (handle c.env w op).2.repo = w.repo) (fresh : w.fresh ≤ (handle c.env w op).2.fresh)
    (held : Held c known view drawn w) :
    wp c.sem (M.perform op)
      (ends (Held c known view drawn) (fun _ t => Held c known view drawn t ∧ ¬ c.answering)
        (fun _ => True)) w := by
  refine course_call op lawful near (by cases op <;> trivial) fun assumed => ?_
  have next : Held c known view drawn (handle c.env w op).2 := by
    refine held.next lawful ?_ ?_ fresh
    · simp only [World.execution, repo]
      exact held.row
    · rw [repo]
      exact held.view
  cases answer : (handle c.env w op).1 with
  | ok a => exact ⟨trivial, next⟩
  | error e =>
      refine ⟨next, fun answering => ?_⟩
      obtain ⟨a, ok⟩ := assumed.answers answering exposed
      exact absurd (ok.symm.trans answer) (by simp)

theorem held_now (held : Held c known view drawn w) :
    wp c.sem M.now (ends (Held c known view drawn) (fun _ _ => False) (fun _ => True)) w := by
  refine wp_mono ?_ (held_still .now trivial trivial trivial rfl rfl (Nat.le_refl _) held)
  intro o t ht
  cases o with
  | ret a => exact ⟨trivial, ht.2⟩
  | raise e => exact ht
  | halt => exact ht

/-- The new identifier is above all that have been drawn. -/
theorem held_uuid4 (held : Held c known view drawn w) :
    wp c.sem M.uuid4
      (fun o t => ∃ u : UUID, o = .ret u ∧ drawn ≤ u.n ∧ Held c known view (u.n + 1) t) w := by
  refine course_call .uuid4 trivial trivial trivial fun _ => ?_
  have next := @Held.next c known known view _ w .uuid4 held.exact trivial held.row view held.view
    (Nat.le_succ _)
  exact ⟨⟨w.fresh⟩, rfl, held.drawn, next.bounded, next.orderly, next.row, next.view, Nat.le_refl _⟩

theorem held_get (held : Held c known view drawn w) : wp c.sem (M.getExecution c.executionId)
    (fun o t => ∃ row, o = .ret (some row) ∧ row.executionId = c.executionId ∧ known row ∧
      Held c (· = row) view drawn t) w := by
  obtain ⟨row, stored, pinned⟩ := held.row
  refine course_call (.getExecution c.executionId) trivial rfl trivial fun _ => ?_
  exact ⟨row, congrArg Outcome.ret stored, (Table.get_eq_some.mp stored).2, pinned,
    held.bounded, held.orderly, ⟨row, stored, rfl⟩, held.view, held.drawn⟩

theorem held_list (held : Held c known view drawn w) : wp c.sem
    (M.listStepsForExecution c.executionId)
    (ends (Held c known view drawn) (fun _ _ => False)
      (· = view.listStepsForExecution c.executionId)) w := by
  have answer : w.repo.listStepsForExecution c.executionId = view.listStepsForExecution
    c.executionId := by
    simp only [Repository.listStepsForExecution, held.steps]
  exact held_still (.listStepsForExecution c.executionId) trivial rfl trivial
    (congrArg Except.ok answer) rfl
    (Nat.le_refl _) held

theorem held_update (held : Held c (· = row) view drawn w) (rewrite : Rewrite w row ex) :
    wp c.sem (M.updateExecution ex)
    (ends (Held c (· = ex) view drawn) (fun _ _ => False) (fun _ => True)) w := by
  have keyed : ex.executionId = c.executionId :=
    rewrite.executionId.trans (Table.get_eq_some.mp held.stored).2
  have present : (w.repo.executions.get ex.executionId).isSome = true := by
    rw [keyed, show w.repo.executions.get c.executionId = some row from held.stored]
    rfl
  have lawful : Lawful c.passing c.executionId w (.updateExecution ex) :=
    ⟨row, held.stored, rewrite⟩
  have effect : handle c.env w (.updateExecution ex) =
      (.ok (), { w with repo.executions := w.repo.executions.put ex }) := by
        simp only [handle, present, if_true]
  refine course_call (.updateExecution ex) lawful keyed trivial fun _ => ?_
  have written : (w.repo.executions.put ex).get c.executionId = some ex :=
    keyed ▸ Table.get_put_self
  have next := held.next (N := (· = ex)) (v := view) lawful
    (by rw [effect]; exact ⟨ex, written, rfl⟩)
    (by
      rw [effect]
      exact congrArg (fun r : Repository => { r with executions := w.repo.executions.put ex })
        held.view)
    (by rw [effect])
  rw [effect] at next ⊢
  exact ⟨trivial, next⟩

/-- A write to a table of which the run keeps track. -/
theorem held_write (op : Op) {a : op.Res} (change : Repository → Repository)
    (plain : ∀ repo E T, change { repo with executions := E, toolCalls := T } =
      { change repo with executions := E, toolCalls := T })
    (held : Held c known view drawn w) (lawful : Lawful c.passing c.executionId w op)
    (near : Local c.executionId w op) (demands : c.Demands w op)
    (effect : handle c.env w op = (.ok a, { w with repo := change w.repo })) :
    wp c.sem (M.perform op)
    (ends (Held c known (change view) drawn) (fun _ _ => False) (fun _ => True)) w := by
  have same : change w.repo = { change view with executions := w.repo.executions, toolCalls :=
    w.repo.toolCalls } := by
    conv_lhs => rw [held.view, plain]
  have executions : (change w.repo).executions = w.repo.executions := by rw [same]
  have toolCalls : (change w.repo).toolCalls = w.repo.toolCalls := by rw [same]
  refine course_call op lawful near demands fun _ => ?_
  have row : ∃ row, (change w.repo).executions.get c.executionId = some row ∧ known row := by
    rw [executions]
    exact held.row
  have repo : change w.repo = { change view with
      executions := (change w.repo).executions, toolCalls := (change w.repo).toolCalls } := by
    rw [executions, toolCalls]
    exact same
  have next := held.next (N := known) (v := change view) lawful (by rw [effect]; exact row)
    (by rw [effect]; exact repo) (by rw [effect])
  rw [effect] at next ⊢
  exact ⟨trivial, next⟩

/-- What a run is held to, every world that it passes through keeps. -/
theorem free_visits {α : Type} {env : Env} {executionId : UUID} {p q : M α}
    {Q : Outcome Exn α → World → Prop} (spec : wp (free env executionId).sem p Q w)
    (visits : Visits (handle env).sem (p, w) (q, t)) (bounded : Bounded w)
    (orderly : Orderly False executionId w) : Bounded t ∧ Orderly False executionId t := by
  have views : Views (handle env).sem (free env executionId).sem Eq := by
    rintro a _ op r b rfl _ _ step
    exact ⟨b, ⟨step, free_assumed ..⟩, rfl⟩
  refine visits.keeps views (I := fun t => Bounded t ∧ Orderly False executionId t) ?_ rfl spec
    ⟨bounded, orderly⟩
  rintro a _ op r b ⟨bounded, orderly⟩ rfl _ ⟨lawful, _⟩ step
  obtain ⟨rfl, rfl⟩ := Prod.mk.inj step
  exact ⟨bounded_handle bounded (Lawful.drawn lawful bounded), Lawful.orderly lawful orderly⟩

theorem traced_rewrite (traced : Traced row ex) : Rewrite w row ex := by
  obtain ⟨rows, t, _, rfl⟩ := traced
  refine ⟨rfl, .inl rfl, .inl rfl, fun executing planning => ?_, fun _ => .inl rfl⟩
  exact absurd (executing.symm.trans planning) (by simp)

/-- A status that is entered with the plan as it was. -/
theorem entered_rewrite (ident : ex.executionId = row.executionId)
    (allowed : (row.status, ex.status) ∈ executionAllowed)
    (kept : ex.currentPlanId = row.currentPlanId) (elsewhere : ex.status ≠ .executing)
    (done : ex.status = .awaitingApproval ∨ ex.status = .completed →
      row.status = .awaitingApproval ∨
      ∀ s ∈ w.repo.steps, s.executionId = row.executionId → s.status = .succeeded) :
        Rewrite w row ex :=
  ⟨ident, .inr allowed, .inl kept, fun executing => absurd executing elsewhere, fun h =>
    .inr (done h)⟩

theorem recordTrace_held {events : List Event} (plain : ∀ event ∈ events, event.Plain)
    (held : Held c (Logged row started) view drawn w) : wp c.sem
      (recordTrace c.executionId events now)
        (ends (Held c
        (Logged row (started ++ startedRows (events.map fun event => timelineRow event.1
        event.2 now)))
        view drawn) (fun _ _ => False) (fun _ => True)) w := by
  unfold recordTrace
  rw [wp_bind]
  refine wp_mono ?_ (held_get held)
  rintro _ t ⟨found, rfl, _, logged, held⟩
  refine wp_mono ?_ (held_update held (traced_rewrite (Traced.refl.events plain)))
  intro o u hu
  cases o with
  | ret a => exact ⟨trivial, hu.2.mono fun _ same => same ▸ logged.events plain⟩
  | raise e => exact hu
  | halt => exact hu

/-- Events of the work of a step. -/
theorem traceWork_held {events : List Event} (working : ∀ event ∈ events, event.Working)
    (held : Held c (Logged row started) view drawn w) : wp c.sem
      (recordTrace c.executionId events now) (ends (Held c (Logged row started) view drawn)
        (fun _ _ => False) (fun _ => True)) w := by
  have spec := @recordTrace_held _ _ _ _ _ now _ _ (fun e member => (working e member).1) held
  rw [startedRows_working working, List.append_nil] at spec
  exact spec

/-- What the work of a step of this run may look into. -/
def scope (c : Course) (row : Execution) (view : Repository) : Scope where
  context := (· = row.executionContextId)
  step := fun stepId => ∃ s ∈ view.steps, s.stepId = stepId ∧ s.executionId = c.executionId
  call := c.calls
  stored := view.contexts.get row.executionContextId ≠ none

/-- The services answered, and the context of the row is stored. -/
def Served (c : Course) (row : Execution) (view : Repository) : Prop :=
  c.answering ∧ view.contexts.get row.executionContextId ≠ none

/-- After an error of the work: under a `try` all is well; otherwise the work was not served. -/
abbrev AfterWork (c : Course) (row : Execution) (started : List Json) (view : Repository)
    (drawn : Nat) (caught : Bool) (w : World) : Prop :=
  Held c (Logged row started) view drawn w ∧ (caught = false → ¬ Served c row view)

theorem listed_own {s : Step} (held : Held c known view drawn w)
    (listed : s ∈ w.repo.listStepsForExecution c.executionId) :
    ∃ x ∈ view.steps, x.stepId = s.stepId ∧ x.executionId = c.executionId := by
  obtain ⟨member, own⟩ := Table.mem_sortedBy.mp listed
  exact ⟨s, held.steps ▸ member, rfl, by simpa using own⟩

theorem quiet_held (caught : Bool) (quiet : op.quiet caught = true)
    (within : op.Within (c.scope row view) c.executionId)
    (held : Held c (Logged row started) view drawn w) :
    wp c.sem (M.perform op) (ends (Held c (Logged row started) view drawn)
      (fun _ => AfterWork c row started view drawn caught)
      (fun r => (c.passing → op.Passes r) ∧ op.Shows (c.scope row view) r)) w := by
  obtain ⟨found, stored, logged⟩ := held.row
  have context : found.executionContextId = row.executionContextId := by
    obtain ⟨⟨_, _, _, rfl⟩, _⟩ := logged
    rfl
  have lawful : Lawful c.passing c.executionId w op := by cases op <;> trivial
  have near : Local c.executionId w op := by
    cases op with
    | getContext contextId => exact ⟨found, stored, context.trans within.symm⟩
    | getStepResult stepId =>
        obtain ⟨s, member, same, own⟩ := within
        exact ⟨s, held.steps ▸ member, same, own⟩
    | listStepsForExecution id => exact within
    | getPlan _ | getStep _ | getActionProposal _ => exact within.elim
    | _ => trivial
  have demands : c.Demands w op := by
    cases op with
    | saveToolCall tc => exact within
    | _ => trivial
  obtain ⟨calls, repo, fresh⟩ := @handle_quiet c.env caught op quiet w
  refine course_call op lawful near demands fun assumed => ?_
  have next : Held c (Logged row started) view drawn (handle c.env w op).2 := by
    refine held.next lawful ?_ ?_ fresh
    · simp only [World.execution, repo]
      exact ⟨found, stored, logged⟩
    · rw [repo]
      exact congrArg (fun r : Repository => { r with executions := w.repo.executions, toolCalls :=
        calls }) held.view
  cases answer : (handle c.env w op).1 with
  | ok a =>
      refine ⟨⟨fun passing => assumed.passes passing a answer, ?_⟩, next⟩
      cases op with
      | listStepsForExecution id =>
          obtain rfl := within
          obtain rfl := Except.ok.inj answer
          exact fun s listed => listed_own held listed
      | getContext contextId =>
          obtain rfl := within
          obtain rfl := Except.ok.inj answer
          intro stored
          rw [held.contexts]
          exact stored
      | invoke request now =>
          have calls := assumed.calls
          rw [answer] at calls
          exact calls
      | _ => trivial
  | error e =>
      refine ⟨next, ?_⟩
      rintro rfl ⟨answering, _⟩
      obtain ⟨a, ok⟩ := assumed.answers answering (exposed_of_error quiet answer)
      exact absurd (ok.symm.trans answer) (by simp)

theorem work_held {caught : Bool} {β : Type} {p : M β} {R : β → Prop}
    (block : WorkBlock c.passing (c.scope row view) c.executionId caught p R)
    (held : Held c (Logged row started) view drawn w) :
    wp c.sem p
      (ends (Held c (Logged row started) view drawn) (fun _ => AfterWork c row started view drawn
      caught) R) w := by
  cases block with
  | quiet op quiet within => exact quiet_held caught quiet within held
  | row =>
      refine wp_mono ?_ (held_get held)
      rintro _ t ⟨found, rfl, _, logged, held⟩
      refine ⟨⟨?_, fun _ => nofun⟩, held.mono fun _ same => same ▸ logged⟩
      rintro _ ⟨⟩
      obtain ⟨⟨_, _, _, rfl⟩, _⟩ := logged
      rfl
  | trace events now working =>
      refine wp_mono ?_ (traceWork_held working held)
      intro o t ht
      cases o with
      | ret a => exact ht
      | raise e => exact ht.elim
      | halt => exact ht

theorem stepWork_held {step : Step} (own : step.executionId = c.executionId)
    (running : step.status = .running) (held : Held c (Logged row started) view drawn w) : wp c.sem
      (engine.stepWork step now) (ends (Held c (Logged row started) view drawn)
        (fun _ => AfterWork c row started view drawn false)
        (ResultOf c.passing step)) w := by
  have built := @stepWork_work c.passing (c.scope row view) step now engine running
  rw [own] at built
  refine Guarded.wp (M := c.sem) (I := Held c (Logged row started) view drawn)
    (fun p R s block held => ?_)
    (fun _ _ _ block held => work_held block held) (fun e s unserved held => ⟨held, ?_⟩) built w
      held
  · refine wp_mono ?_ (work_held block held)
    intro o t ht
    cases o with
    | ret a => exact ht
    | raise e => exact ht.1
    | halt => exact ht
  · exact fun _ served => unserved.2 served.2

/-- The step that the scheduler chooses next for this row. -/
structure Next (c : Course) (row : Execution) (view : Repository) (step : Step) : Prop where
  live : isExecutionTerminal row.status = false
  chosen : ∃ p ∈ view.plans, row.currentPlanId = some p.planId ∧
    nextPendingReady (stepsInPlanOrder (view.listStepsForExecution c.executionId) p)
      (view.listStepsForExecution c.executionId) = some step

theorem Next.stored {step : Step} (next : Next c row view step) :
    view.steps.get step.stepId = some step ∧
    step.executionId = c.executionId ∧ step.status = .pending := by
  obtain ⟨p, _, _, chosen⟩ := next.chosen
  obtain ⟨listed, pending⟩ := nextPendingReady_mem chosen
  obtain ⟨member, own⟩ := Table.mem_sortedBy.mp listed
  exact ⟨Table.get_of_mem member, by simpa using own, pending⟩

theorem Next.scheduled {step : Step} (next : Next c row view step)
    (held : Held c (· = row) view drawn w) :
    Scheduled w step := by
  obtain ⟨stored, own, pending⟩ := next.stored
  obtain ⟨p, member, current, chosen⟩ := next.chosen
  have list : w.repo.listStepsForExecution c.executionId = view.listStepsForExecution
    c.executionId := by
    simp only [Repository.listStepsForExecution, held.steps]
  refine ⟨held.steps ▸ stored, pending, row, p, own ▸ held.stored, next.live, current,
    held.plans ▸ member, ?_⟩
  rw [own, list]
  exact chosen

/-- The view with one step written over. -/
def putStep (step : Step) (view : Repository) : Repository :=
  { view with steps := view.steps.put step }

theorem held_updateStep {step : Step} (held : Held c known view drawn w)
    (lawful : Lawful c.passing c.executionId w (.updateStep step))
    (starts : step.status = .running → c.starts w step) :
    wp c.sem (M.updateStep step)
      (ends (Held c known (putStep step view) drawn) (fun _ _ => False) (fun _ => True)) w := by
  obtain ⟨own, old, stored, _⟩ := lawful.updated
  refine held_write (.updateStep step) (a := ()) (putStep step) (fun _ _ _ => rfl) held
    lawful own starts ?_
  simp only [handle, stored, Option.isSome_some, if_true]
  rfl

/-- The trace row of a start. -/
theorem startedRows_start (step : Step) :
    startedRows [timelineRow "step_started" (stepDetail step) now] = [.str step.stepId.str] := by
  have kind := @timelineRow_type now "step_started" (stepDetail step) rfl
  have value : (timelineRow "step_started" (stepDetail step) now).get "step_id" =
    .str step.stepId.str := rfl
  simp [startedRows, isStartedRow, kind, value]

/-- The step as it is while it runs. -/
def runningStep (step : Step) (now : Time) : Step :=
  { step with status := .running, updatedAt := now }

/-- A step runs to its end, or it is left running by an error of its work. -/
theorem runStep_held {step : Step} (next : Next c row view step)
    (starts : ∀ t, Held c (· = row) view drawn t → c.starts t (runningStep step now))
    (held : Held c (· = row) view drawn w) : wp c.sem (engine.runStep step now)
      (ends (fun t => ∃ results, Held c (Logged row [.str step.stepId.str])
          { view with steps := afterStep step now view.steps, stepResults := results } drawn t)
        (fun _ t => Held c (Logged row [.str step.stepId.str]) (putStep (runningStep step now) view)
          drawn t ∧
          ¬ Served c row view) (fun _ => True)) w := by
  obtain ⟨stored, own, pending⟩ := next.stored
  have member : step ∈ view.steps := (Table.get_eq_some.mp stored).1
  unfold runStep
  refine wp_then (held_still (.getStep step.stepId) (a := some step) trivial ?_ trivial ?_ rfl
    (Nat.le_refl _) held) ?_ fun _ _ no => no.elim
  · exact ⟨step, held.steps ▸ member, rfl, own⟩
  · exact congrArg Except.ok (held.steps ▸ stored)
  rintro _ t rfl held
  have allowed : validateStepTransition step.status .running = .ok () := by rw [pending]; rfl
  refine wp_then (wp_ofExcept_ok allowed) ?_ fun _ _ no => no.elim
  rintro _ _ rfl rfl
  unfold runningStep at starts ⊢
  generalize made : { step with status := StepStatus.running, updatedAt := now } =
    running at starts ⊢
  have mine : running.executionId = c.executionId := by rw [← made]; exact own
  refine wp_then (held_updateStep held ⟨mine, .inl ⟨step, now, next.scheduled held, made.symm⟩⟩
    fun _ => starts _ held) ?_ fun _ _ no => no.elim
  intro _ t _ held
  rw [own]
  have logged : ∀ r, r = row → Logged row [] r := fun r same => same ▸ .refl
  refine wp_then (recordTrace_held (plain_one (by decide) rfl) (held.mono logged)) ?_
    fun _ _ no => no.elim
  intro _ t _ held
  rw [List.nil_append, List.map_cons, List.map_nil, startedRows_start] at held
  have live : running.status = .running := by rw [← made]
  have placed : running ∈ view.steps.put running := Table.mem_put.mpr (.inl rfl)
  refine wp_then (stepWork_held mine live held) ?_ fun _ _ after => ⟨after.1, after.2 rfl⟩
  intro result t produced held
  have known : running ∈ t.repo.steps := held.steps ▸ placed
  refine wp_then (held_write (.saveStepResult result) (a := ())
    (fun repo => { repo with stepResults := repo.stepResults.put result }) (fun _ _ _ => rfl) held
      ⟨running, known, mine, produced.stepId.symm, live⟩
    ⟨running, known, produced.stepId.symm, mine⟩ trivial rfl) ?_ fun _ _ no => no.elim
  intro _ u _ held
  have finished : Finished c.passing u running := by
    have known : running ∈ u.repo.steps := by rw [held.steps]; exact placed
    refine ⟨Table.get_of_mem known, live, result, ?_, fun passing validates => ?_⟩
    · rw [held.results, ← produced.stepId]
      exact Table.get_put_self
    · exact produced.passed passing ((held.orderly.steps running known mine).planned passing)
        validates
  refine wp_then (wp_ofExcept_ok rfl) ?_ fun _ _ no => no.elim
  rintro _ _ rfl rfl
  refine wp_then (held_updateStep held ⟨mine, .inr ⟨running, now, finished, rfl⟩⟩ nofun) ?_
    fun _ _ no => no.elim
  intro _ t _ held
  refine wp_mono ?_ (traceWork_held completionEvents_working held)
  intro o u hu
  cases o with
  | ret a =>
      subst made
      exact ⟨trivial, _, hu.2⟩
  | raise e => exact hu.elim
  | halt => exact hu

end
end Course
end AgenticPlatform
