import AgenticPlatform.GatewayPort
import AgenticPlatform.EngineCalls

/-! `create_execution` of the gateway call by call, and any number of such calls at the same time:
the key is looked up before the execution is created and written after. -/
namespace AgenticPlatform
open Interaction Store

namespace ExecutionFacade

/-- The key under which a call is remembered. -/
def keyOf (text : Rendering) (call : CreateExecutionCall) : Option IdempotencyKey :=
  (call.idempotencyKey.filter (· ≠ "")).map fun k => (text.str (call.context.get "tenant_id"),
    call.workflowType, k)

/-- `do_start`. -/
def doStart (settings : GatewaySettings) (call : CreateExecutionCall) : Bool :=
  call.scheduleStart.getD settings.scheduleExecutionStart

section
variable (engine : ExecutionEngine) (settings : GatewaySettings) (fuel : Nat)
  (call : CreateExecutionCall)

/-- Start the run as configured: through the queue, by the caller, or here. -/
def scheduleStart (mode : ExecutionMode) (executionId : UUID) : GatewayM Unit :=
  if doStart settings call = true then
    if settings.useExecutionWorkerQueue ∧ mode = .background then
      M.lift (enqueueExecution executionId) >>= fun _ => pure ()
    else if call.startCallback then GatewayM.startCallback executionId
    else M.lift (engine.startExecution fuel executionId) >>= fun _ => pure ()
  else pure ()

/-- Write the map, where the call carries a key. -/
def rememberKey (key : Option IdempotencyKey) (executionId : UUID) : GatewayM Unit :=
  match key with
  | some k => GatewayM.remember k executionId
  | none => pure ()

/-- What follows when the key, if there is one, stands for no execution. -/
def createNew (mode : ExecutionMode) (key : Option IdempotencyKey) : GatewayM Execution := do
  let ts ← M.lift M.now
  let ex ← M.lift (AgenticPlatform.createExecution (newExecutionOf engine.text call mode) ts)
  rememberKey key ex.executionId
  scheduleStart engine settings fuel call mode ex.executionId
  pure ex

def createExecution : GatewayM Execution := do
  if call.workflowType ∉ registeredWorkflowTypes then
    GatewayM.throw .valueError
      "unsupported workflow_type (registered: ['cost_attribution', 'generic', 'incident_triage'])"
  else if ¬ (call.context.get "tenant_id").truthy ∨ ¬ (call.context.get "policy_scope").truthy then
    GatewayM.throw .valueError "context.tenant_id and context.policy_scope are required"
  else
    let mode ← M.lift (M.ofExcept (contextMode engine.text call.context))
    match keyOf engine.text call with
    | none => createNew engine settings fuel call mode none
    | some key =>
        match ← GatewayM.lookup key with
        | none => createNew engine settings fuel call mode (some key)
        | some executionId =>
            match ← M.lift (M.getExecution executionId) with
            | some existing => pure existing
            | none => createNew engine settings fuel call mode (some key)

/-- One call with its response. -/
def serve : GatewayM Unit :=
  createExecution engine settings fuel call >>= fun ex => GatewayM.respond ex.executionId

end
end ExecutionFacade

section
variable {engine : ExecutionEngine} {settings : GatewaySettings} {fuel : Nat}
  {call : CreateExecutionCall}
  {mode : ExecutionMode} {id : UUID} {env : Env} {w : World} {s : GatewayState}
open ExecutionFacade

/-- The run of a call on the gateway and its run with the map passed along end alike. -/
def EndsAlike (a : Outcome Exn Execution × World × GatewayState)
    (b : Outcome Exn (Execution × IdempotencyStore) × World) :
    Prop :=
  a.2.1 = b.2 ∧ match b.1 with
    | .ret (ex, idem) => a.1 = .ret ex ∧ a.2.2.idempotency = idem
    | .raise e => a.1 = .raise e
    | .halt => a.1 = .halt

theorem scheduleStart_alone :
    ∃ callbacks, run (gatewayHandle env) (scheduleStart engine settings fuel call mode id) (w, s) =
      ((run (handle env) (scheduleRun engine settings fuel call mode id) w).1,
        (run (handle env) (scheduleRun engine settings fuel call mode id) w).2,
          { s with callbacks := callbacks }) := by
  have lifted (p : M Execution) : run (gatewayHandle env) (M.lift p >>= fun _ => pure ()) (w, s) =
      ((run (handle env) (p >>= fun _ => pure ()) w).1, (run (handle env) (p >>= fun _ => pure ())
        w).2, s) := by
    rw [run_bind, run_bind, gatewayHandle, run_lift]
    obtain ⟨o, t⟩ := run (handle env) p w
    cases o with
    | ret ex => rfl
    | raise e => rfl
    | halt => rfl
  unfold scheduleStart scheduleRun doStart
  split
  · split
    · exact ⟨s.callbacks, lifted _⟩
    · split
      · exact ⟨s.callbacks ++ [id], rfl⟩
      · exact ⟨s.callbacks, lifted _⟩
  · exact ⟨s.callbacks, rfl⟩

/-- A new execution is created and started alike. -/
theorem createNew_alone {key : Option IdempotencyKey} :
    EndsAlike (run (gatewayHandle env) (createNew engine settings fuel call mode key) (w, s))
      (run (handle env) (do
        let ts ← M.now
        let ex ← AgenticPlatform.createExecution (newExecutionOf engine.text call mode) ts
        scheduleRun engine settings fuel call mode ex.executionId
        pure (ex, match key with
          | some k => (k, ex.executionId) :: s.idempotency
          | none => s.idempotency)) w) := by
  let ex := executionOf (newExecutionOf engine.text call mode) ⟨w.fresh + 1⟩ ⟨w.fresh⟩
    (env.now w.readings)
  let u := (run (handle env) (AgenticPlatform.createExecution (newExecutionOf engine.text call mode)
    (env.now w.readings))
    (handle env w .now).2).2
  have rest (s' : GatewayState) (idem : IdempotencyStore) (map : s'.idempotency = idem) :
      EndsAlike (run (gatewayHandle env)
          (scheduleStart engine settings fuel call mode ex.executionId >>= fun _ => pure ex)
            (u, s'))
        (run (handle env) (scheduleRun engine settings fuel call mode ex.executionId >>= fun _ =>
          pure (ex, idem)) u) := by
    obtain ⟨callbacks, same⟩ := @scheduleStart_alone engine settings fuel call mode
      ex.executionId env u s'
    rw [run_bind, run_bind, same]
    obtain ⟨o, t⟩ := run (handle env) (scheduleRun engine settings fuel call mode ex.executionId) u
    cases o with
    | ret _ => exact ⟨rfl, rfl, map⟩
    | raise e => exact ⟨rfl, rfl⟩
    | halt => exact ⟨rfl, rfl⟩
  cases key with
  | none => exact rest s s.idempotency rfl
  | some k => exact rest { s with idempotency := (k, ex.executionId) :: s.idempotency } _ rfl

/-- `create_execution` with calls for the map is the one that is given the map and returns it. -/
theorem createExecution_alone :
    EndsAlike (run (gatewayHandle env) (ExecutionFacade.createExecution engine settings fuel call)
      (w, s)) (run (handle env) (facadeCreateExecution engine settings fuel s.idempotency call)
        w) := by
  unfold ExecutionFacade.createExecution facadeCreateExecution
  split
  · exact ⟨rfl, rfl⟩
  split
  · exact ⟨rfl, rfl⟩
  cases contextMode engine.text call.context with
  | error e => exact ⟨rfl, rfl⟩
  | ok mode =>
      have key : (call.idempotencyKey.filter (· ≠ "")).map (fun k =>
          (engine.text.str (call.context.get "tenant_id"), call.workflowType, k)) =
            keyOf engine.text call := rfl
      rw [key]
      cases keyOf engine.text call with
      | none => exact createNew_alone
      | some k =>
          change EndsAlike (run (gatewayHandle env) (GatewayM.lookup k >>= _) (w, s))
            (run (handle env) (knownExecution s.idempotency (some k) >>= _) w)
          have looked {f : Option UUID → GatewayM Execution} : run (gatewayHandle env)
            (GatewayM.lookup k >>= f) (w, s) =
              run (gatewayHandle env) (f (s.idempotency.find k)) (w, s) := rfl
          rw [looked]
          unfold knownExecution
          rw [Option.bind_some]
          cases s.idempotency.find k with
          | none => exact createNew_alone
          | some executionId =>
              have read {f : Option Execution → GatewayM Execution} :
                  run (gatewayHandle env) (M.lift (M.getExecution executionId) >>= f) (w, s) =
                    run (gatewayHandle env) (f (w.execution executionId)) (w, s) := rfl
              have read' {f : Option Execution → M (Execution × IdempotencyStore)} :
                  run (handle env) (M.getExecution executionId >>= f) w = run (handle env)
                    (f (w.execution executionId)) w := rfl
              dsimp only
              rw [read, read']
              cases w.execution executionId with
              | none => exact createNew_alone
              | some existing => exact ⟨rfl, rfl, rfl⟩

end

/-- What a call has done so far, with its key and whether it is to start what it creates. -/
structure CreateView where
  key : Option IdempotencyKey
  starts : Bool
  looked : Option (Option UUID)
  created : List UUID
  remembered : Bool
  /-- The last call wrote the key. -/
  marked : Bool
  started : List UUID
  answered : Option UUID

/-- A run of the gateway's own begins by reading the row, right after the key has been written. -/
def CreateView.next (v : CreateView) : (op : gateway.Op) → Except Exn (gateway.Res op) → CreateView
  | .inr (.lookup _), .ok found => { v with looked := some found }
  | .inr (.remember _ _), _ => { v with remembered := true, marked := true }
  | .inr (.startCallback id), _ => { v with started := v.started ++ [id], marked := false }
  | .inr (.respond id), _ => { v with answered := some id }
  | .inl (.saveExecution ex), _ => { v with created := v.created ++ [ex.executionId] }
  | .inl (.enqueue id _), _ => { v with started := v.started ++ [id], marked := false }
  | .inl (.getExecution id), _ => if v.marked then { v with started := v.started ++ [id], marked :=
    false } else v
  | _, _ => { v with marked := false }

def observeCreate : Observer gateway Exn CreateView := CreateView.next

namespace CreateView
variable (key : Option IdempotencyKey) (starts : Bool) (id : UUID)

-- the stages of a call with a key, in their order
def unseen : CreateView := ⟨key, starts, none, [], false, false, [], none⟩
def missed : CreateView := ⟨key, starts, some none, [], false, false, [], none⟩
def hit : CreateView := ⟨key, starts, some (some id), [], false, false, [], none⟩
def stored : CreateView := ⟨key, starts, some none, [id], false, false, [], none⟩
def keyed (marked : Bool) : CreateView := ⟨key, starts, some none, [id], true, marked, [], none⟩
def begun : CreateView := ⟨key, starts, some none, [id], true, false, [id], none⟩

end CreateView

/-- What a call may do at each stage; without a key only the map is out of bounds. -/
def CreateView.Allowed (v : CreateView) : gateway.Op → Prop
  | .inr (.lookup k) => v.key = some k ∧ v = .unseen v.key v.starts
  | .inr (.remember k id) => v.key = some k ∧ v = .stored v.key v.starts id
  | .inr (.startCallback id) => v.key ≠ none → ∃ b, v = .keyed v.key v.starts id b
  | .inl (.enqueue id _) => v.key ≠ none → ∃ b, v = .keyed v.key v.starts id b
  | .inl (.saveExecution _) => v.key ≠ none → v = .missed v.key v.starts
  | .inl (.getExecution id) => v.key ≠ none → v.marked = true → v = .keyed v.key v.starts id true
  | .inr (.respond id) => v.key ≠ none → v = .hit v.key v.starts id ∨ v = .begun v.key v.starts id ∨
      v.starts = false ∧ ∃ b, v = .keyed v.key v.starts id b
  | _ => True

/-- What the map and the store answer: a remembered execution is stored. -/
def CreateView.Answered (v : CreateView) : (op : gateway.Op) → Except Exn (gateway.Res op) → Prop
  | .inl (.getExecution id), r => v.key ≠ none → v.looked = some (some id) →
    ∃ ex, r = .ok (some ex) ∧ ex.executionId = id
  | .inr (.lookup _), r => ∃ found, r = .ok found
  | _, _ => True

/-- A call alone, over these answers. -/
abbrev createSem : Semantics gateway Exn where
  State := CreateView
  step v op r t := v.Answered op r ∧ t = v.next op r
  ok v op := v.Allowed op

section
variable {engine : ExecutionEngine} {settings : GatewaySettings} {fuel : Nat}
  {call : CreateExecutionCall}
  {mode : ExecutionMode} {key : IdempotencyKey} {starts : Bool} {id : UUID} {α : Type}
    {v : CreateView}
open ExecutionFacade CreateView

/-- Every call of the platform, the callback and the response. -/
def NoMap : gateway.Op → Prop
  | .inr (.lookup _) | .inr (.remember _ _) => False
  | _ => True

theorem noMap_lift {p : M α} : Calls NoMap (fun _ _ => True) p.lift := by
  apply wp_lift.mpr
  induction p with
  | ret a => trivial
  | raise e => trivial
  | halt => trivial
  | call op k ih => exact ⟨trivial, fun r _ _ => ih r⟩

theorem noMap_perform {op : GatewayOp} (other : NoMap (.inr op)) : Calls NoMap (fun _ _ => True)
    (GatewayM.perform op) :=
  calls_perform other

theorem scheduleStart_noMap : Calls NoMap (fun _ _ => True)
    (scheduleStart engine settings fuel call mode id) :=
  calls_ite
    (fun _ => calls_ite (fun _ => calls_bind noMap_lift fun _ => calls_ret ()) fun _ =>
      calls_ite (fun _ => noMap_perform trivial) fun _ => calls_bind noMap_lift
        fun _ => calls_ret ())
    fun _ => calls_ret ()

theorem createNew_noMap : Calls NoMap (fun _ _ => True)
    (createNew engine settings fuel call mode none) := by
  apply calls_bind noMap_lift
  intro ts
  apply calls_bind noMap_lift
  intro ex
  apply calls_bind (calls_ret ())
  intro _
  apply calls_bind scheduleStart_noMap
  intro _
  exact calls_ret ex

/-- A call without a key leaves the map alone, and nothing else is asked of it. -/
theorem noMap_spec {p : GatewayM α} (made : Calls NoMap (fun _ _ => True) p)
    (unkeyed : v.key = none) :
    wp createSem p (fun _ t => t.key = none) v := by
  refine made.keeps (fun v op other unkeyed => ⟨?_, ?_⟩) unkeyed
  · cases op with
    | inl op => cases op <;> first | trivial | exact fun keyed => absurd unkeyed keyed
    | inr op =>
        cases op <;> first | trivial | exact other.elim | exact fun keyed => absurd unkeyed keyed
  · rintro r t ⟨_, rfl⟩
    cases op with
    | inl op =>
        cases op with
        | getExecution id =>
            simp only [CreateView.next]
            split
            · exact unkeyed
            · exact unkeyed
        | _ => exact unkeyed
    | inr op =>
        cases op with
        | lookup k => exact other.elim
        | _ => exact unkeyed

/-- The next call; after an error nothing more is required. -/
theorem create_call (op : gateway.Op) {f : gateway.Res op → GatewayM α} (allowed : v.Allowed op)
    (next : ∀ a, v.Answered op (.ok a) → wp createSem (f a) (fun _ _ => True) (v.next op (.ok a))) :
    wp createSem (Prog.perform op >>= f) (fun _ _ => True) v := by
  rw [wp_bind, wp_perform]
  refine ⟨allowed, ?_⟩
  rintro r t ⟨answered, rfl⟩
  cases r with
  | ok a => exact next a answered
  | error e => trivial

/-- What holds of the result and the view, if there is a result. -/
abbrev Returning (R : α → CreateView → Prop) (o : Outcome Exn α) (t : CreateView) : Prop :=
  ∀ a, o = .ret a → R a t

/-- The same within a part that is lifted. -/
theorem create_inner (op : Op) {f : op.Res → M α} {R : α → CreateView → Prop}
    (allowed : v.Allowed (.inl op))
    (next : ∀ a, wp createSem.inner (f a) (Returning R) (v.next (.inl op) (.ok a))) :
    wp createSem.inner (M.perform op >>= f) (Returning R) v := by
  rw [wp_bind, wp_perform]
  refine ⟨allowed, ?_⟩
  rintro r t ⟨_, rfl⟩
  cases r with
  | ok a => exact next a
  | error e => exact fun a no => by cases no

theorem createExecution_view {request : NewExecution} {ts : Time} :
    wp createSem.inner (AgenticPlatform.createExecution request ts)
      (Returning fun ex t => t = stored (some key) starts ex.executionId)
        (missed (some key) starts) := by
  apply create_inner .uuid4 trivial
  intro contextId
  apply create_inner .uuid4 trivial
  intro executionId
  apply create_inner (.saveContext _) trivial
  intro _
  apply create_inner (.saveExecution _) (fun _ => rfl)
  rintro _ _ ⟨⟩
  rfl

theorem rewriteExecution_view {change : Execution → Execution} : wp createSem.inner
    (rewriteExecution id change) (Returning fun _ t => t = keyed (some key) starts id false)
    (keyed (some key) starts id false) := by
  apply create_inner (.getExecution id) (fun _ marked => by cases marked)
  intro found
  cases found with
  | none => exact fun a no => by cases no
  | some row =>
      apply create_inner (.updateExecution _) trivial
      rintro _ _ ⟨⟩
      rfl

/-- Putting the execution on the queue starts it. -/
theorem enqueueExecution_view {b : Bool} : wp createSem.inner (enqueueExecution id)
    (Returning fun _ t => t = begun (some key) starts id) (keyed (some key) starts id b) := by
  apply create_inner .now trivial
  intro ts
  rw [wp_bind]
  refine wp_mono ?_ rewriteExecution_view
  intro o t written
  cases o with
  | ret row =>
      obtain rfl := written row rfl
      apply create_inner (.enqueue id ts) (fun _ => ⟨false, rfl⟩)
      rintro _ _ ⟨⟩
      rfl
  | raise e => exact fun a no => by cases no
  | halt => exact fun a no => by cases no

/-- What a run of the engine calls. -/
def RunCall (op : Op) : Prop := op.ordinary = true ∨ (∃ request now, op = .invoke request now) ∨
    ∃ tc, op = .saveToolCall tc

theorem runCall_permits : Permits engine RunCall (fun _ _ => True) where
  ordinary _ plain := .inl plain
  gather _ _ _ _ _ := .inr (.inl ⟨_, _, rfl⟩)
  correlate _ _ _ _ _ := .inr (.inl ⟨_, _, rfl⟩)
  saved _ _ _ _ := .inr (.inr ⟨_, rfl⟩)

/-- Once it has begun, a run of the engine changes nothing that a call has done. -/
theorem runCall_begun {op : Op} (made : RunCall op) :
    (begun (some key) starts id).Allowed (.inl op) ∧
      ∀ r, (begun (some key) starts id).next (.inl op) r = begun (some key) starts id := by
  rcases made with plain | ⟨request, now, rfl⟩ | ⟨tc, rfl⟩
  · cases op with
    | getExecution j => exact ⟨fun _ => nofun, fun _ => rfl⟩
    | saveExecution ex => cases plain
    | enqueue j now => cases plain
    | _ => exact ⟨trivial, fun _ => rfl⟩
  · exact ⟨trivial, fun _ => rfl⟩
  · exact ⟨trivial, fun _ => rfl⟩

/-- A run of the gateway's own begins with its first call. -/
theorem startExecution_view : wp createSem.inner (engine.startExecution fuel id)
    (fun _ t => t = begun (some key) starts id) (keyed (some key) starts id true) := by
  have made : Calls RunCall (fun _ _ => True) (engine.startExecution fuel id) :=
    startExecution_calls runCall_permits
  obtain ⟨k, reads⟩ : ∃ k, engine.startExecution fuel id = .call (.getExecution id) k := ⟨_, rfl⟩
  rw [reads] at made ⊢
  refine ⟨fun _ _ => rfl, ?_⟩
  rintro r t ⟨_, rfl⟩
  have rest : Calls RunCall (fun _ _ => True) (k r) := made.2 r () fun _ _ => trivial
  refine rest.keeps (M := createSem.inner) (J := (· = begun (some key) starts id)) ?_ rfl
  rintro _ op allowed rfl
  refine ⟨(runCall_begun allowed).1, ?_⟩
  rintro r t ⟨_, rfl⟩
  exact (runCall_begun allowed).2 r

/-- After the key has been written, the run is started as configured, and the response names it. -/
theorem scheduleStart_view :
    wp createSem (scheduleStart engine settings fuel call mode id >>= fun _ => GatewayM.respond id)
    (fun _ _ => True)
      (keyed (some key) (doStart settings call) id true) := by
  have respond {v : CreateView} (allowed : v.Allowed (.inr (.respond id))) :
      wp createSem (GatewayM.respond id) (fun _ _ => True) v :=
    wp_perform.mpr ⟨allowed, fun r _ _ => by cases r <;> trivial⟩
  rw [wp_bind]
  unfold scheduleStart
  by_cases starts : doStart settings call = true
  · rw [if_pos starts]
    refine wp_ite (fun _ => ?_) fun _ => wp_ite (fun _ => ?_) fun _ => ?_
    · rw [wp_bind, wp_lift]
      refine wp_mono ?_ enqueueExecution_view
      intro o t queued
      cases o with
      | ret ex =>
          obtain rfl := queued ex rfl
          exact respond fun _ => .inr (.inl rfl)
      | raise e => trivial
      | halt => trivial
    · refine wp_perform.mpr ⟨fun _ => ⟨true, rfl⟩, ?_⟩
      rintro r t ⟨_, rfl⟩
      cases r with
      | ok _ => exact respond fun _ => .inr (.inl rfl)
      | error e => trivial
    · rw [wp_bind, wp_lift]
      refine wp_mono ?_ startExecution_view
      rintro o t rfl
      cases o with
      | ret ex => exact respond fun _ => .inr (.inl rfl)
      | raise e => trivial
      | halt => trivial
  · rw [if_neg starts]
    exact respond fun _ => .inr (.inr ⟨Bool.eq_false_iff.mpr starts, true, rfl⟩)

theorem create_then {β : Type} {p : M β} {f : β → GatewayM α} {R : β → CreateView → Prop}
    (spec : wp createSem.inner p (Returning R) v)
    (next : ∀ a t, R a t → wp createSem (f a) (fun _ _ => True) t) :
    wp createSem (p.lift >>= f) (fun _ _ => True) v := by
  rw [wp_bind, wp_lift]
  refine wp_mono ?_ spec
  intro o t returned
  cases o with
  | ret a => exact next a t (returned a rfl)
  | raise e => trivial
  | halt => trivial

theorem createNew_view :
    wp createSem (createNew engine settings fuel call mode (some key) >>= fun ex => GatewayM.respond
      ex.executionId) (fun _ _ => True) (missed (some key) (doStart settings call)) := by
  unfold createNew
  rw [Prog.bind_assoc]
  have clock : wp createSem.inner M.now (Returning fun _ t => t = missed (some key)
    (doStart settings call))
      (missed (some key) (doStart settings call)) := by
    refine wp_perform.mpr ⟨trivial, ?_⟩
    rintro r t ⟨_, rfl⟩
    cases r with
    | ok a => exact fun _ _ => rfl
    | error e => exact fun a no => by cases no
  apply create_then clock
  rintro ts _ rfl
  rw [Prog.bind_assoc]
  apply create_then createExecution_view
  rintro ex _ rfl
  rw [Prog.bind_assoc]
  apply create_call (.inr (.remember key ex.executionId)) ⟨rfl, rfl⟩
  intro _ _
  rw [Prog.bind_assoc]
  exact scheduleStart_view

/-- A call alone, from its beginning. -/
theorem serve_view : wp createSem (serve engine settings fuel call) (fun _ _ => True)
    (unseen (keyOf engine.text call) (doStart settings call)) := by
  unfold serve ExecutionFacade.createExecution
  rw [wp_bind]
  refine wp_ite (fun _ => trivial) fun _ => wp_ite (fun _ => trivial) fun _ => ?_
  cases contextMode engine.text call.context with
  | error e => trivial
  | ok mode =>
      rw [← wp_bind]
      cases keyOf engine.text call with
      | none =>
          have made : Calls NoMap (fun _ _ => True)
              (createNew engine settings fuel call mode none >>= fun ex => GatewayM.respond
                ex.executionId) :=
            calls_bind createNew_noMap fun ex => noMap_perform trivial
          exact wp_mono (fun _ _ _ => trivial) (noMap_spec made rfl)
      | some key =>
          change wp createSem ((GatewayM.lookup key >>= _) >>= _) _ _
          rw [Prog.bind_assoc]
          apply create_call (.inr (.lookup key)) ⟨rfl, rfl⟩
          rintro found -
          cases found with
          | none => exact createNew_view
          | some executionId =>
              -- a remembered execution is stored, so nothing is created
              change wp createSem ((M.lift (M.perform (.getExecution executionId)) >>= _) >>= _) _ _
              rw [M.lift, Prog.lift_perform, Prog.bind_assoc]
              apply create_call (.inl (.getExecution executionId)) (fun _ marked => by cases marked)
              intro known answered
              obtain ⟨ex, same, rfl⟩ := answered (Option.some_ne_none key) rfl
              obtain rfl := Except.ok.inj same
              exact wp_perform.mpr ⟨fun _ => .inl rfl, fun r _ _ => by cases r <;> trivial⟩

end
end AgenticPlatform
