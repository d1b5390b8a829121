import AgenticPlatform.Creation
import AgenticPlatform.Frame
import AgenticPlatform.Interaction.Hiding
import AgenticPlatform.ReferencesKept
import AgenticPlatform.StoredIdentity
import AgenticPlatform.Tenants

/-! Clients of some tenants, workers and background runs leave the rows of all other tenants as they
are, and run as if those rows were not there. -/
namespace AgenticPlatform
open Interaction ExecutionEngine Store

/-- A request of an authenticated client. -/
inductive ClientRequest where
  | create (body : CreateExecutionRequest)
  | get (executionId : UUID)
  | cancel (executionId : UUID)
  | approve (request : ApprovalRequest)
  | replay (executionId : UUID) (body : ReplayExecutionRequest)

section
variable (engine : ExecutionEngine) (settings : GatewaySettings) (fuel : Nat)

def ClientRequest.program (auth : RequestContext) : ClientRequest → GatewayM Unit
  | .create body => do
      let context ← M.lift (M.ofExcept (requestedContext engine.text body auth))
      ExecutionFacade.serve engine settings fuel
        { workflowType := body.workflowType
          inputPayload := body.input
          context := context
          idempotencyKey := body.idempotencyKey
          scheduleStart := some settings.scheduleExecutionStart
          startCallback := settings.scheduleExecutionStart }
  | .get executionId => do
      let ex ← M.lift (assertExecutionVisible executionId auth)
      GatewayM.respond ex.executionId
  | .cancel executionId => do
      let _ex ← M.lift (assertExecutionVisible executionId auth)
      let ex ← M.lift (requestCancellation executionId "api_request")
      GatewayM.respond ex.executionId
  | .approve request => do
      let _ex ← M.lift (assertExecutionVisible request.executionId auth)
      let approval ← facadeSubmitApproval engine.text request
      GatewayM.respond approval.executionId
  | .replay executionId body => do
      let created ← M.lift (requestReplayRoute engine fuel auth executionId body)
      GatewayM.respond created.replayExecutionId

/-- What runs beside each other: clients with requests one after another, workers that poll the
queue, and the runs that the gateway starts in the background. -/
inductive Activity where
  | client (auth : RequestContext) (requests : List ClientRequest)
  | worker (workerId : String) (polls : Nat)
  | background (executionId : UUID)

def Activity.program : Activity → GatewayM Unit
  | .client auth requests => inTurn (requests.map (·.program engine settings fuel auth))
  | .worker workerId polls =>
      inTurn (List.replicate polls (M.lift (engine.runOnce fuel workerId).discard))
  | .background executionId => M.lift (engine.startExecution fuel executionId).discard

/-- All activities at their beginning. -/
def gatewayOf {ι : Type} (activities : ι → Activity) (s : World × GatewayState) :
    Sys gateway Exn (World × GatewayState) Unit ι where
  shared := s
  threads := fun i => (activities i).program engine settings fuel
  ghost := fun _ => ()

end

def GatewayOp.requires : GatewayOp → List Fact
  | .lookup key => [.tenant key.1]
  | .remember key executionId => [.tenant key.1, .visible executionId]
  | .listApprovalsForExecution executionId => [.visible executionId]
  | _ => []

/-- A call that names what is known; or, where one `looks`, any reading of an execution or a
context. -/
def Known.MayCall (K : Known) (looks : Prop) (op : Op) : Prop :=
  K.Covers op.requires ∨ looks ∧ ((∃ id, op = .getExecution id) ∨ ∃ id, op = .getContext id)

/-- What the rows in `G` show to those who look: the context of an execution in `G` is one in `G`,
and that of a tenant in `T`. -/
def RevealsTo (G : Rows) (T : String → Bool) : (op : Op) → op.Res → Prop
  | .getExecution id, found => ∀ ex, found = some ex → G .execution id = true →
    G .context ex.executionContextId = true
  | .getContext id, found => ∀ ctx, found = some ctx → G .context id = true → T ctx.tenantId = true
  | _, _ => True

/-- The call reads no row in `G`. -/
def Op.outside (G : Rows) : Op → Prop
  | .getExecution id => G .execution id = false
  | .getContext id => G .context id = false
  | _ => True

def Known.Learns (K : Known) (G : Rows) (T : String → Bool) (op : Op) (a : op.Res) : Prop :=
  (op.outside G → K.Tells op a) ∧ RevealsTo G T op a

/-- Nothing in `G` is known. -/
structure Known.Sound (K : Known) (G : Rows) : Prop where
  context : ∀ id, K (.row .context id) → G .context id = false
  visible : ∀ id, K (.visible id) → G .execution id = false

/-- The same for the calls of the gateway. -/
def Known.MayAsk (K : Known) (looks : Prop) : gateway.Op → Prop
  | .inl op => K.MayCall looks op
  | .inr op => K.Covers op.requires

def Known.IsTold (K : Known) (G : Rows) (T : String → Bool) :
    (op : gateway.Op) → gateway.Res op → Prop
  | .inl op, a => K.Learns G T op a
  | .inr (.lookup _), found => ∀ id, found = some id → K (.visible id)
  | .inr _, _ => True

section
variable {K : Known} {G : Rows} {T : String → Bool} {looks : Prop} {α : Type}

theorem Known.Sound.outside (sound : K.Sound G) {op : Op} (covers : K.Covers op.requires) :
    op.outside G := by
  cases op with
  | getExecution id => exact sound.visible id (Known.covers_cons.mp covers).1
  | getContext id => exact sound.context id (Known.covers_cons.mp covers).1
  | _ => trivial

/-- What names only known rows may be called by those who look. -/
theorem callsFor_learns (sound : K.Sound G) {p : M α} {R : α → Prop} (made : K.CallsFor p R) :
    CallsFor (K.MayCall looks) (K.Learns G T) p R :=
  made.weaken (fun _ covers => .inl covers) fun _ _ covers learns => learns.1 (sound.outside covers)

theorem callsFor_lift {p : M α} {R : α → Prop}
    (made : CallsFor (K.MayCall looks) (K.Learns G T) p R) :
    CallsFor (K.MayAsk looks) (K.IsTold G T) (M.lift p) R :=
  made.lift (fun _ may => may) fun _ _ _ told => told

theorem callsFor_lift_of_covers (sound : K.Sound G) {p : M α} {R : α → Prop}
    (made : K.CallsFor p R) :
    CallsFor (K.MayAsk looks) (K.IsTold G T) (M.lift p) R := callsFor_lift
      (callsFor_learns sound made)

theorem liftedCalls (sound : K.Sound G) {p : M α} (made : K.Calls p) :
    Calls (K.MayAsk looks) (K.IsTold G T) (M.lift p) :=
  (callsFor_lift_of_covers sound made.for_all).calls

/-- What the check lets pass may be acted on: those who look see whose it is, the others know. -/
theorem assertExecutionVisible_visible {executionId : UUID} {auth : RequestContext}
    (sound : K.Sound G) (other : T auth.tenantId = false)
    (outside : ∀ id, G .execution id = false → K (.visible id))
    (known : looks ∨ K (.visible executionId)) :
    CallsFor (K.MayCall looks) (K.Learns G T) (assertExecutionVisible executionId auth)
      (fun _ => K (.visible executionId)) := by
  rcases known with looks | visible
  · refine callsFor_bind (callsFor_perform (.inr ⟨looks, .inl ⟨_, rfl⟩⟩)) fun found learns => ?_
    cases found with
    | none => exact callsFor_raise _
    | some ex =>
        refine callsFor_bind (callsFor_perform (.inr ⟨looks, .inr ⟨_, rfl⟩⟩))
          fun found learns' => ?_
        cases found with
        | none => exact callsFor_raise _
        | some ctx =>
            refine wp_ite (fun _ => callsFor_raise _) fun same => callsFor_ret (outside _ ?_)
            cases inside : G .execution executionId with
            | false => rfl
            | true =>
                have shown := learns'.2 ctx rfl (learns.2 ex rfl inside)
                rw [not_not.mp same, other] at shown
                cases shown
  · refine callsFor_learns sound (callsFor_bind (getExecution_callsFor visible)
      fun found tells => ?_)
    cases found with
    | none => exact callsFor_raise _
    | some ex =>
        have context := (Known.covers_cons.mp (tells ex rfl).2.named).1
        refine callsFor_bind (perform_callsFor (.getContext _) (Known.covers_one context))
          fun found _ => ?_
        cases found with
        | none => exact callsFor_raise _
        | some ctx => exact wp_ite (fun _ => callsFor_raise _) fun _ => callsFor_ret visible

variable {engine : ExecutionEngine} {settings : GatewaySettings} {fuel : Nat}
  {call : CreateExecutionCall}
  {mode : ExecutionMode} {key : Option IdempotencyKey} {id : UUID}

theorem asks_calls {op : GatewayOp} (covers : K.Covers op.requires) :
    CallsFor (K.MayAsk looks) (K.IsTold G T) (GatewayM.perform op) (K.IsTold G T (.inr op)) :=
  callsFor_perform covers

theorem scheduleStart_calls (sound : K.Sound G) (visible : K (.visible id)) :
    Calls (K.MayAsk looks) (K.IsTold G T)
    (ExecutionFacade.scheduleStart engine settings fuel call mode id) :=
  calls_ite
    (fun _ => calls_ite
      (fun _ => calls_bind (liftedCalls sound (enqueueExecution_covers visible))
        fun _ => calls_ret _)
      fun _ => calls_ite (fun _ => (asks_calls Known.covers_nil).calls) fun _ =>
        calls_bind (liftedCalls sound (startExecution_covers visible)) fun _ => calls_ret _)
    fun _ => calls_ret _

theorem createNew_calls (sound : K.Sound G)
    (creates : K.Creates (newExecutionOf engine.text call mode))
    (keyed : ∀ k, key = some k → K (.tenant k.1)) :
    Calls (K.MayAsk looks) (K.IsTold G T)
    (ExecutionFacade.createNew engine settings fuel call mode key) := by
  refine calls_bind (liftedCalls sound (perform_calls .now Known.covers_nil)) fun ts =>
    calls_then (callsFor_lift_of_covers sound (createExecution_covers creates)) fun ex created =>
      calls_bind ?_ fun _ =>
    calls_bind (scheduleStart_calls sound created.1.visible) fun _ => calls_ret _
  cases key with
  | none => exact calls_ret _
  | some k =>
      exact (asks_calls
        (Known.covers_cons.mpr ⟨keyed k rfl, Known.covers_one created.1.visible⟩)).calls

/-- A call of `create_execution` for a tenant outside. -/
theorem serve_calls {name : String} (sound : K.Sound G)
    (tenant : call.context.get "tenant_id" = .str name) (other : K (.tenant name)) :
    Calls (K.MayAsk looks) (K.IsTold G T) (ExecutionFacade.serve engine settings fuel call) := by
  have creates (mode : ExecutionMode) : K.Creates (newExecutionOf engine.text call mode) := by
    refine ⟨?_, fun _ no => by cases no⟩
    rw [newExecutionOf, tenant]
    exact other
  have keyed (k : IdempotencyKey) (same : ExecutionFacade.keyOf engine.text call = some k) :
    K (.tenant k.1) := by
    obtain ⟨_, _, rfl⟩ := Option.map_eq_some_iff.mp same
    rw [tenant]
    exact other
  refine calls_bind (calls_ite (fun _ => calls_raise _) fun _ => calls_ite
    (fun _ => calls_raise _) fun _ =>
    calls_bind (liftedCalls sound calls_ofExcept) fun mode => ?_) fun ex =>
      (asks_calls Known.covers_nil).calls
  cases named : ExecutionFacade.keyOf engine.text call with
  | none => exact createNew_calls sound (creates mode) fun _ no => by cases no
  | some key =>
      refine calls_then (asks_calls (Known.covers_one (keyed key named))) fun found told => ?_
      cases found with
      | none =>
          exact createNew_calls sound (creates mode) fun k same =>
            Option.some.inj same ▸ keyed key named
      | some executionId =>
          refine calls_bind (liftedCalls sound (getExecution_callsFor (told executionId rfl)).calls)
            fun found => ?_
          cases found with
          | none =>
              exact createNew_calls sound (creates mode) fun k same =>
                Option.some.inj same ▸ keyed key named
          | some existing => exact calls_ret _

theorem facadeSubmitApproval_calls {text : Rendering} {request : ApprovalRequest}
    (sound : K.Sound G) (visible : K (.visible request.executionId)) :
    Calls (K.MayAsk looks) (K.IsTold G T) (facadeSubmitApproval text request) := by
  refine calls_ite (fun _ => calls_raise _) fun _ => ?_
  cases ApprovalDecision.parse request.decision with
  | none => exact calls_raise _
  | some decision =>
      refine calls_bind (liftedCalls sound (getExecution_callsFor visible).calls) fun found => ?_
      cases found with
      | none => exact calls_raise _
      | some ex =>
          dsimp only
          split
          · exact calls_raise _
          · refine calls_bind (liftedCalls sound (submitApproval_covers visible)) fun _ =>
              calls_bind (asks_calls (Known.covers_one visible)).calls fun approvals => ?_
            split
            · exact calls_raise _
            · exact calls_ret _

/-- The execution that a request names, if it names one. -/
def ClientRequest.target : ClientRequest → Option UUID
  | .create _ => none
  | .get id | .cancel id | .replay id _ => some id
  | .approve request => some request.executionId

theorem ClientRequest.calls {auth : RequestContext} {request : ClientRequest} (sound : K.Sound G)
    (other : T auth.tenantId = false) (outside : ∀ id, G .execution id = false → K (.visible id))
    (tenants : ∀ name, T name = false → K (.tenant name))
    (known : looks ∨ ∀ id, request.target = some id → K (.visible id)) :
    Calls (K.MayAsk looks) (K.IsTold G T) (request.program engine settings fuel auth) := by
  have checked (id : UUID) (same : request.target = some id) : CallsFor (K.MayCall looks)
    (K.Learns G T)
      (assertExecutionVisible id auth) (fun _ => K (.visible id)) :=
    assertExecutionVisible_visible sound other outside (known.imp_right fun all => all id same)
  cases request with
  | create body =>
      have merged : CallsFor (K.MayCall looks) (K.Learns G T)
        (M.ofExcept (requestedContext engine.text body auth))
          (fun context => requestedContext engine.text body auth = .ok context) := by
        cases requestedContext engine.text body auth with
        | error e => exact callsFor_raise e
        | ok context => exact callsFor_ret rfl
      exact calls_then (callsFor_lift merged) fun context same =>
        serve_calls sound (requestedContext_fields same).1 (tenants _ other)
  | get id => exact calls_then (callsFor_lift (checked id rfl)) fun _ _ =>
    (asks_calls Known.covers_nil).calls
  | cancel id =>
      exact calls_then (callsFor_lift (checked id rfl)) fun _ visible =>
        calls_bind (liftedCalls sound (requestCancellation_covers visible)) fun _ =>
          (asks_calls Known.covers_nil).calls
  | approve request =>
      exact calls_then (callsFor_lift (checked _ rfl)) fun _ visible =>
        calls_bind (facadeSubmitApproval_calls sound visible) fun _ =>
          (asks_calls Known.covers_nil).calls
  | replay id body =>
      have replayed : CallsFor (K.MayCall looks) (K.Learns G T) (requestReplayRoute engine fuel auth
        id body) (fun _ => True) := by
        refine callsFor_bind (checked id rfl) fun _ visible => ?_
        cases ReplayMode.parse body.mode with
        | none => exact callsFor_raise _
        | some mode => exact callsFor_learns sound (createReplay_covers visible).for_all
      exact calls_bind (callsFor_lift replayed).calls fun _ => (asks_calls Known.covers_nil).calls

/-- An activity for tenants outside, and a background run of an execution outside. -/
def Activity.Apart (G : Rows) (T : String → Bool) : Activity → Prop
  | .client auth _ => T auth.tenantId = false
  | .worker _ _ => True
  | .background id => G .execution id = false

/-- No request of the activity names an execution in `G`. -/
def Activity.Unaware (G : Rows) : Activity → Prop
  | .client _ requests => ∀ request ∈ requests, ∀ id, request.target = some id →
    G .execution id = false
  | _ => True

theorem Activity.calls {activity : Activity} (sound : K.Sound G)
    (outside : ∀ id, G .execution id = false → K (.visible id))
    (tenants : ∀ name, T name = false → K (.tenant name)) (apart : activity.Apart G T)
    (known : looks ∨ activity.Unaware G) :
    Calls (K.MayAsk looks) (K.IsTold G T) (activity.program engine settings fuel) := by
  cases activity with
  | client auth requests =>
      refine calls_inTurn fun p member => ?_
      obtain ⟨request, asked, rfl⟩ := List.mem_map.mp member
      exact ClientRequest.calls sound apart outside tenants
        (known.imp_right fun unaware id same => outside id (unaware request asked id same))
  | worker workerId polls =>
      refine calls_inTurn fun p member => ?_
      obtain rfl := List.eq_of_mem_replicate member
      exact liftedCalls sound (calls_bind runOnce_covers fun _ => calls_ret _)
  | background id => exact liftedCalls sound (calls_bind (startExecution_covers (outside id apart))
    fun _ => calls_ret _)

end

/-- The tenants in `T` are apart from the others: what does not belong to them names nothing that
does, and no identifier of theirs is drawn again. -/
structure World.Separate (w : World) (T : String → Bool) : Prop where
  within : (w.without (w.owned T)).Within (w.beyond (w.owned T) T)
  drawn : ∀ kind id, kind ≠ .toolCall → w.owned T kind id = true → id.n < w.fresh

/-- A later world, where the tenants in `T` have what they had in `w`. -/
structure World.Beside (w : World) (T : String → Bool) (s : World) : Prop where
  frozen : s.repo.only (w.owned T) = w.repo.only (w.owned T)
  within : (s.without (w.owned T)).Within (s.beyond (w.owned T) T)
  fresh : w.fresh ≤ s.fresh

section
variable {env : Env} {w s : World} {T : String → Bool} {op : Op} {kind : RowKind} {id : UUID}

theorem owned_has (owned : w.owned T kind id = true) : w.has kind id = true := by
  have some_of {α : Type} {row : Option α} {p : α → Bool} (any : row.any p = true) :
    row.isSome = true := by
    cases row with
    | none => cases any
    | some _ => rfl
  cases kind with
  | context | execution | plan | step | proposal | evaluation | approval | toolCall =>
      exact some_of owned

namespace World.Beside

/-- A row of theirs is stored as it was. -/
theorem row {α : Type} [Keyed UUID α] {t u : Table UUID α} {inside : UUID → Bool}
    (frozen : t.only inside = u.only inside) (owned : inside id = true) : t.get id = u.get id := by
  rw [← Table.get_only_of owned, frozen, Table.get_only_of owned]

theorem coherent (beside : w.Beside T s) : Coherent (w.owned T) s := by
  intro step member owned
  have same := row (congrArg Repository.steps beside.frozen) owned
  rw [show s.repo.steps.get step.stepId = some step from Table.get_of_mem member] at same
  have owns : (w.repo.steps.get step.stepId).any (fun step => w.ownsExecution T step.executionId) =
    true := owned
  rwa [← same] at owns

theorem handle_reveals (beside : w.Beside T s) {a : op.Res} (answer : (handle env s op).1 = .ok a) :
    RevealsTo (w.owned T) T op a := by
  cases op with
  | getExecution id =>
      rintro ex rfl owned
      have stored : s.repo.executions.get id = some ex := Except.ok.inj answer
      rw [row (congrArg Repository.executions beside.frozen) owned] at stored
      have owns : (w.repo.executions.get id).any (fun ex => w.ownsContext T ex.executionContextId) =
        true := owned
      rwa [stored] at owns
  | getContext id =>
      rintro ctx rfl owned
      have stored : s.repo.contexts.get id = some ctx := Except.ok.inj answer
      rw [row (congrArg Repository.contexts beside.frozen) owned] at stored
      have owns : (w.repo.contexts.get id).any (fun ctx => T ctx.tenantId) = true := owned
      rwa [stored] at owns
  | _ => trivial

theorem grows (beside : w.Beside T s) (covers : (s.beyond (w.owned T) T).Covers op.requires) :
    s.beyond (w.owned T) T ≤ (handle env s op).2.beyond (w.owned T) T := by
  intro fact known
  cases fact with
  | row kind id =>
      have has : (handle env (s.without (w.owned T)) op).2.has kind id = true := has_grows known
      rwa [handle_without beside.coherent covers] at has
  | slot kind id => exact known
  | visible id => exact known
  | tenant name => exact known

theorem step (beside : w.Beside T s) (covers : (s.beyond (w.owned T) T).Covers op.requires) :
    w.Beside T (handle env s op).2 where
  frozen := (handle_only covers).trans beside.frozen
  within := by
    have within : (handle env (s.without (w.owned T)) op).2.Within (s.beyond (w.owned T) T) :=
      beside.within.handle covers
    rw [handle_without beside.coherent covers] at within
    exact within.mono (beside.grows covers)
  fresh := beside.fresh.trans (fresh_le op)

/-- The answers tell what is known outside. -/
theorem handle_tells (beside : w.Beside T s) (separate : w.Separate T)
    (echoes : env.Echoes ((handle env s op).2.beyond (w.owned T) T))
    (covers : (s.beyond (w.owned T) T).Covers op.requires) {a : op.Res}
    (answer : (handle env s op).1 = .ok a) :
    ((handle env s op).2.beyond (w.owned T) T).Tells op a := by
  have without := @handle_without env s (w.owned T) T op beside.coherent covers
  have grown : ∀ kind id, (handle env (s.without (w.owned T)) op).2.has kind id = true →
      (handle env s op).2.beyond (w.owned T) T (.row kind id) := by
    rw [without]
    exact fun _ _ => id
  refine @tells_handle env (s.without (w.owned T)) op _ echoes
    (beside.within.mono (beside.grows covers)) ?_ grown a ?_
  · refine ⟨fun kind id has => grown kind id (has_grows has), fun _ _ => beyond_slot, fun _ => id,
      fun kind other => ?_⟩
    cases owned : w.owned T kind ⟨s.fresh⟩ with
    | false => exact owned
    | true => exact absurd (separate.drawn kind _ other owned) (Nat.not_lt.mpr beside.fresh)
  · rw [without]
    exact answer

/-- The approvals of an execution outside are outside. -/
theorem approvals_without (beside : w.Beside T s) (outside : w.owned T .execution id = false) :
    (s.without (w.owned T)).repo.listApprovalsForExecution id =
      s.repo.listApprovalsForExecution id := by
  refine Table.sortedBy_only fun a member own => ?_
  cases owned : w.owned T .approval a.approvalId with
  | false => exact congrArg not owned
  | true =>
      have same := row (congrArg Repository.approvals beside.frozen) owned
      rw [show s.repo.approvals.get a.approvalId = some a from Table.get_of_mem member] at same
      have owns : (w.repo.approvals.get a.approvalId).any
        (fun a => w.ownsExecution T a.executionId) = true := owned
      rw [← same] at owns
      have inside : w.owned T .execution a.executionId = true := owns
      rw [of_decide_eq_true own, outside] at inside
      cases inside

end World.Beside

theorem World.Separate.beside (separate : w.Separate T) : w.Beside T w :=
  ⟨rfl, separate.within, Nat.le_refl _⟩

/-- What those outside know in a state. -/
def knowOutside (w : World) (T : String → Bool) (s : World × GatewayState) :
    { K : Known // K.Sound (w.owned T) } :=
  ⟨s.1.beyond (w.owned T) T, ⟨fun _ => beyond_slot, fun _ visible => visible⟩⟩

/-- The tenants in `T` have what they had, and the keys of the others stand for executions of the
others. -/
structure KeptApart (w : World) (T : String → Bool) (s : World × GatewayState) : Prop where
  beside : w.Beside T s.1
  keys : ∀ e ∈ s.2.idempotency, T e.1.1 = false → w.owned T .execution e.2 = false

theorem outside_rules {looks : Prop} (separate : w.Separate T)
    (echoes : ∀ n request now tc, env.invoke n request now = .ok tc → tc.Echoes request ∧
      w.has .toolCall tc.toolCallId = false) :
    Learning (gatewayHandle env) (knowOutside w T) (KeptApart w T) (fun K op => K.1.MayAsk looks op)
      (fun K op a => K.1.IsTold (w.owned T) T op a) where
  grows := by
    rintro s (op | op) kept may
    · rcases may with covers | ⟨_, ⟨id, rfl⟩ | ⟨id, rfl⟩⟩
      · exact kept.beside.grows covers
      · exact le_rfl
      · exact le_rfl
    · exact le_rfl
  keeps := by
    rintro s (op | op) kept may
    · refine ⟨?_, kept.keys⟩
      rcases may with covers | ⟨_, ⟨id, rfl⟩ | ⟨id, rfl⟩⟩
      · exact kept.beside.step covers
      · exact kept.beside
      · exact kept.beside
    · refine ⟨kept.beside, ?_⟩
      cases op with
      | remember key id =>
          refine List.forall_mem_cons.mpr ⟨fun _ => ?_, kept.keys⟩
          exact (Known.covers_cons.mp (Known.covers_cons.mp may).2).1
      | _ => exact kept.keys
  tells := by
    rintro s (op | op) a k kept may le answer
    · have known (covers : (s.1.beyond (w.owned T) T).Covers op.requires) : k.1.Tells op a := by
        refine Known.Tells.mono (kept.beside.handle_tells separate
          (fun n request now tc given => ?_) covers answer) le
        obtain ⟨same, unused⟩ := echoes n request now tc given
        refine ⟨same, ?_⟩
        cases owned : w.owned T .toolCall tc.toolCallId with
        | false => exact owned
        | true => exact absurd (owned_has owned) (by simp [unused])
      refine ⟨fun outside => ?_, kept.beside.handle_reveals answer⟩
      rcases may with covers | ⟨_, ⟨id, rfl⟩ | ⟨id, rfl⟩⟩
      · exact known covers
      · exact known (Known.covers_one outside)
      · rintro ctx rfl
        have stored : s.1.repo.contexts.get id = some ctx := Except.ok.inj answer
        refine known (Known.covers_one ?_) ctx rfl
        have has : s.1.has .context id = true := congrArg Option.isSome stored
        have out : w.owned T .context id = false := outside
        show (s.1.without (w.owned T)).has .context id = true
        rw [has_without, has, out]
        rfl
    · cases op with
      | lookup key =>
          rintro id rfl
          have found : s.2.idempotency.find key = some id := Except.ok.inj answer
          obtain ⟨⟨key', id'⟩, chosen, rfl⟩ := Option.map_eq_some_iff.mp found
          obtain rfl : key' = key := by simpa using List.find?_some chosen
          exact le _ (kept.keys _ (List.mem_of_find?_eq_some chosen) (Known.covers_cons.mp may).1)
      | _ => trivial

/-- Rows judged by themselves: where those of the tenants are as they were and no others are theirs,
the same rows are theirs. -/
theorem any_eq_of_frozen {α : Type} [Keyed UUID α] {t u : Table UUID α} {inside : UUID → Bool}
    {theirs theirs' : α → Bool} (before : ∀ id, inside id = (u.get id).any theirs)
    (same : ∀ r, theirs' r = theirs r) (frozen : t.only inside = u.only inside)
    (others : ∀ r ∈ t.only fun id => !inside id, theirs' r = false) (id : UUID) :
    (t.get id).any theirs' = inside id := by
  cases owned : inside id with
  | true =>
      have stored : t.get id = u.get id := World.Beside.row frozen owned
      rw [stored, funext same, ← before, owned]
  | false =>
      cases stored : t.get id with
      | none => rfl
      | some r =>
          obtain ⟨member, rfl⟩ := Table.get_eq_some.mp stored
          exact others r (Table.mem_only.mpr ⟨member, congrArg not owned⟩)

/-- The same rows are theirs as before. -/
theorem World.Beside.owned_eq (beside : w.Beside T s) : s.owned T = w.owned T := by
  have context : ∀ id, s.ownsContext T id = w.ownsContext T id := by
    refine any_eq_of_frozen (fun _ => rfl) (fun _ => rfl)
      (congrArg Repository.contexts beside.frozen) fun ctx member => ?_
    exact (Known.covers_cons.mp (beside.within.contexts ctx member)).1
  have execution : ∀ id, s.ownsExecution T id = w.ownsExecution T id := by
    refine any_eq_of_frozen (fun _ => rfl) (fun ex => context _)
      (congrArg Repository.executions beside.frozen) fun ex member => ?_
    exact (context _).trans
      (beyond_slot (Known.covers_cons.mp (beside.within.executions ex member)).1)
  have outside {facts : List Fact} {id : UUID} (covers : (s.beyond (w.owned T) T).Covers
    (.row .execution id :: facts)) :
      s.ownsExecution T id = false := (execution id).trans (row_of covers)
  funext kind id
  cases kind with
  | context => exact context id
  | execution => exact execution id
  | plan =>
      exact any_eq_of_frozen (fun _ => rfl) (fun _ => execution _)
        (congrArg Repository.plans beside.frozen)
        (fun plan member => outside (beside.within.plans plan member)) id
  | step =>
      exact any_eq_of_frozen (fun _ => rfl) (fun _ => execution _)
        (congrArg Repository.steps beside.frozen)
        (fun step member => outside (beside.within.steps step member)) id
  | proposal =>
      exact any_eq_of_frozen (fun _ => rfl) (fun _ => execution _)
        (congrArg Repository.actionProposals beside.frozen)
        (fun p member => outside (beside.within.actionProposals p member)) id
  | evaluation =>
      exact any_eq_of_frozen (fun _ => rfl) (fun _ => execution _)
        (congrArg Repository.policyEvaluations beside.frozen)
        (fun e member => outside (beside.within.policyEvaluations e member)) id
  | approval =>
      exact any_eq_of_frozen (fun _ => rfl) (fun _ => execution _)
        (congrArg Repository.approvals beside.frozen)
        (fun a member => outside (beside.within.approvals a member)) id
  | toolCall =>
      exact any_eq_of_frozen (fun _ => rfl) (fun _ => execution _)
        (congrArg Repository.toolCalls beside.frozen)
        (fun tc member => outside (beside.within.toolCalls tc member)) id

theorem World.Beside.separate (beside : w.Beside T s) (separate : w.Separate T) : s.Separate T := by
  refine ⟨?_, ?_⟩
  · rw [beside.owned_eq]
    exact beside.within
  · rw [beside.owned_eq]
    exact fun kind id other owned => Nat.lt_of_lt_of_le (separate.drawn kind id other owned)
      beside.fresh

end

/-- The idempotency keys of other tenants stand for executions of others. -/
def GatewayState.KeysApart (g : GatewayState) (w : World) (T : String → Bool) : Prop :=
  ∀ e ∈ g.idempotency, T e.1.1 = false → w.owned T .execution e.2 = false

/-- The tools give their rows identifiers that are not in use. -/
def ToolService.Distinct {H : Type} (service : ToolService H) (w : World) : Prop :=
  ∀ n request now tc, service.invoke n request now = .ok tc → w.has .toolCall tc.toolCallId = false

/-- A store with one execution of the tenant t1. -/
def storeOfAlice : World := .created toolEnv genericRequest

def alicesTenant : String → Bool := (· == "t1")

def bob : RequestContext := ⟨⟨"bob", [.operator]⟩, "t2", "r2"⟩

def bobsCreation : ClientRequest :=
  .create ⟨"generic", [], [("policy_scope", .str "default")], some "k1", none⟩

/-- Requests of another tenant, a worker, and a background run. -/
def bobsActivities (requests : List ClientRequest) : Fin 3 → Activity
  | 0 => .client bob requests
  | 1 => .worker "w1" 2
  | 2 => .background ⟨3⟩

theorem alice_separate : storeOfAlice.Separate alicesTenant := by
  have empty {α : Type} [Keyed UUID α] {t : Table UUID α} {p : α → Prop} (none : t.rows = []) :
    ∀ row ∈ t, p row :=
    fun row member => absurd (none ▸ member : row ∈ []) List.not_mem_nil
  constructor
  · constructor
    · exact empty (by decide +kernel)
    · exact empty (by decide +kernel)
    · exact empty rfl
    · exact empty rfl
    · exact empty rfl
    · exact empty rfl
    · exact empty rfl
    · exact empty rfl
    · exact empty rfl
    · exact fun _ no => absurd no List.not_mem_nil
  · intro kind id _ owned
    have has := owned_has owned
    cases kind with
    | context =>
        obtain ⟨row, stored⟩ := Option.isSome_iff_exists.mp has
        obtain ⟨member, rfl⟩ := Table.get_eq_some.mp stored
        obtain rfl := List.mem_singleton.mp member
        decide
    | execution =>
        obtain ⟨row, stored⟩ := Option.isSome_iff_exists.mp has
        obtain ⟨member, rfl⟩ := Table.get_eq_some.mp stored
        obtain rfl := List.mem_singleton.mp member
        decide
    | plan | step | proposal | evaluation | approval | toolCall => cases has

theorem working_distinct : workingTools.Distinct storeOfAlice := fun _ _ _ _ _ => rfl

theorem bobs_apart (requests : List ClientRequest) (i : Fin 3) :
    (bobsActivities requests i).Apart (storeOfAlice.owned alicesTenant) alicesTenant := by
  match i with
  | 0 => exact (by decide : alicesTenant "t2" = false)
  | 1 => trivial
  | 2 => exact (by decide +kernel : storeOfAlice.owned alicesTenant .execution ⟨3⟩ = false)

section
variable {H ι : Type} [DecidableEq ι] (env : Env) (service : ToolService H)
  (engine : ExecutionEngine)
  (settings : GatewaySettings) (fuel : Nat) (T : String → Bool) (activities : ι → Activity)
    {w : World} {g : GatewayState}

variable {T activities} in
omit [DecidableEq ι] in
theorem activities_informed {looks : Prop} (i : ι) (apart : (activities i).Apart (w.owned T) T)
    (unaware : looks ∨ (activities i).Unaware (w.owned T)) :
    Informed (knowOutside w T) (fun K op => K.1.MayAsk looks op)
    (fun K op a => K.1.IsTold (w.owned T) T op a) (w, g)
      ((activities i).program engine settings fuel) :=
  fun K above => Activity.calls K.2 (fun _ outside => above _ outside)
    (fun _ other => above _ other) apart unaware

variable {service} in
omit [DecidableEq ι] in
theorem service_rules (looks : Prop) (separate : w.Separate T) (distinct : service.Distinct w) :
    Learning (gatewayHandle (env.withTools service)) (knowOutside w T) (KeptApart w T)
    (fun K op => K.1.MayAsk looks op)
      (fun K op a => K.1.IsTold (w.owned T) T op a) :=
  outside_rules separate fun n request now tc answer => ⟨service.echoes answer, distinct n request
    now tc answer⟩

/-- However the requests of clients of other tenants interleave with workers and background runs,
the tenants in `T` have the rows that they had and no more, and the rows of the others name none of
theirs. -/
theorem tenant_isolation (separate : w.Separate T) (keys : g.KeysApart w T)
    (distinct : service.Distinct w) (apart : ∀ i, (activities i).Apart (w.owned T) T)
    {d : Sys gateway Exn (World × GatewayState) Unit ι}
    (reach : Sys.Reaches (gatewayHandle (env.withTools service)) (fun _ _ _ => ())
      (fun _ _ _ => True)
      (gatewayOf engine settings fuel activities (w, g)) d) :
    d.shared.1.repo.only (d.shared.1.owned T) = w.repo.only
      (w.owned T) ∧ d.shared.1.Separate T := by
  have start : KeptApart w T (w, g) := ⟨separate.beside, keys⟩
  have informed (i : ι) : Informed (knowOutside w T) (fun K op => K.1.MayAsk True op)
    (fun K op a => K.1.IsTold (w.owned T) T op a)
      (w, g) ((activities i).program engine settings fuel) :=
    activities_informed engine settings fuel i (apart i) (.inl trivial)
  obtain ⟨kept, _⟩ := Sys.Reaches.informed (c := gatewayOf engine settings fuel activities (w, g))
    (service_rules env T True separate distinct) informed start reach
  exact ⟨kept.beside.owned_eq ▸ kept.beside.frozen, kept.beside.separate separate⟩

/-- A client of another tenant tries to cancel the execution and to approve it. -/
theorem tenant_isolation_bob :
    let d := (gatewayOf (.default .flat) manualStart 5
      (bobsActivities [bobsCreation, .cancel ⟨1⟩, .get ⟨1⟩])
      (storeOfAlice, .init)).fires (gatewayHandle toolEnv) (fun _ _ _ => ())
        (List.replicate 20 0 ++ [1, 2, 1, 2])
    d.shared.1.repo.only (d.shared.1.owned alicesTenant) = storeOfAlice.repo.only
      (storeOfAlice.owned alicesTenant) ∧
      d.shared.1.Separate alicesTenant :=
  tenant_isolation (.answering .allow "passed") workingTools _ _ _ _ _ alice_separate
    (fun _ no => absurd no List.not_mem_nil)
    working_distinct (bobs_apart _) (Sys.Reaches.refl.fires _)

/-- Where no request names an execution of a tenant in `T`, every schedule runs as if the tenants
had nothing there: with the same answers, and so with the same rows for all others. -/
theorem tenant_noninterference (separate : w.Separate T) (keys : g.KeysApart w T)
    (distinct : service.Distinct w) (apart : ∀ i, (activities i).Apart (w.owned T) T)
    (unaware : ∀ i, (activities i).Unaware (w.owned T)) (schedule : List ι) :
    let h := gatewayHandle (env.withTools service)
    let d := (gatewayOf engine settings fuel activities (w, g)).fires h (fun _ _ _ => ()) schedule
    let d' := (gatewayOf engine settings fuel activities (w.without (w.owned T), g)).fires h
      (fun _ _ _ => ()) schedule
    d'.threads = d.threads ∧ d'.shared = (d.shared.1.without (w.owned T), d.shared.2) := by
  have hides : Hides (gatewayHandle (env.withTools service))
    (fun s => (s.1.without (w.owned T), s.2)) (KeptApart w T)
      (fun s op => (knowOutside w T s).1.MayAsk False op) := by
    rintro s (op | op) kept may
    · have covers := may.resolve_right fun no => no.1
      have same := @handle_without (env.withTools service) s.1 (w.owned T) T op
        kept.beside.coherent covers
      simp only [gatewayHandle, Handler.plus, same]
    · cases op with
      | listApprovalsForExecution id =>
          have listed := kept.beside.approvals_without (visible_of may)
          simp only [gatewayHandle, Handler.plus, gatewayAnswer, listed]
      | lookup key => simp only [gatewayHandle, Handler.plus, gatewayAnswer]
      | remember key id => simp only [gatewayHandle, Handler.plus, gatewayAnswer]
      | startCallback id => simp only [gatewayHandle, Handler.plus, gatewayAnswer]
      | respond id => simp only [gatewayHandle, Handler.plus, gatewayAnswer]
  have start : KeptApart w T (w, g) := ⟨separate.beside, keys⟩
  have informed (i : ι) : Informed (knowOutside w T) (fun K op => K.1.MayAsk False op)
    (fun K op a => K.1.IsTold (w.owned T) T op a)
      (w, g) ((activities i).program engine settings fuel) :=
    activities_informed engine settings fuel i (apart i) (.inr (unaware i))
  have same : (gatewayOf engine settings fuel activities (w.without (w.owned T), g)).fires
        (gatewayHandle (env.withTools service)) (fun _ _ _ => ()) schedule = _ :=
    Sys.fires_hidden (c := gatewayOf engine settings fuel activities (w, g))
      (service_rules env T False separate distinct)
      hides start informed schedule
  have threads := congrArg Sys.threads same
  have shared := congrArg Sys.shared same
  exact ⟨threads, shared⟩

end

theorem tenant_noninterference_bob :
    let h := gatewayHandle toolEnv
    let d := (gatewayOf (.default .flat) manualStart 5 (bobsActivities [bobsCreation, .get ⟨2⟩])
      (storeOfAlice, .init)).fires h (fun _ _ _ => ()) (List.replicate 20 0 ++ [1, 2, 1, 2])
    let d' := (gatewayOf (.default .flat) manualStart 5 (bobsActivities [bobsCreation, .get ⟨2⟩])
      (storeOfAlice.without (storeOfAlice.owned alicesTenant), .init)).fires h (fun _ _ _ => ())
      (List.replicate 20 0 ++ [1, 2, 1, 2])
    d'.threads = d.threads ∧ d'.shared = (d.shared.1.without (storeOfAlice.owned alicesTenant),
      d.shared.2) := by
  refine tenant_noninterference (.answering .allow "passed") workingTools _ _ _ _ _ alice_separate
    (fun _ no => absurd no List.not_mem_nil) working_distinct (bobs_apart _) (fun i => ?_) _
  match i with
  | 0 =>
      intro request asked id named
      rcases List.mem_cons.mp asked with rfl | asked
      · cases named
      · obtain rfl := List.mem_singleton.mp asked
        obtain rfl := Option.some.inj named
        exact (by decide +kernel : storeOfAlice.owned alicesTenant .execution ⟨2⟩ = false)
  | 1 => trivial
  | 2 => trivial

end AgenticPlatform
