import AgenticPlatform.EngineCalls
import AgenticPlatform.Gateway
import AgenticPlatform.Sessions

/-! Whose name a stored execution context carries. Creation merges the context of the body with the
authenticated request; a replay copies the context of its source. -/
namespace AgenticPlatform
open Interaction ExecutionEngine

/-- Coarse roles for gateway enforcement. -/
inductive Role where
  | viewer | operator | approver | admin
  deriving DecidableEq, Repr

def Role.value : Role → String
  | viewer => "viewer"
  | operator => "operator"
  | approver => "approver"
  | admin => "admin"

/-- Authenticated caller identity. -/
structure Principal where
  principalId : String
  roles : List Role

/-- What the gateway takes from the headers of a request. -/
structure RequestContext where
  principal : Principal
  tenantId : String
  requestId : String

/-- `[r.value for r in auth.principal.roles]`. -/
def RequestContext.roleList (auth : RequestContext) : Json :=
  .arr (auth.principal.roles.map fun r => .str r.value)

/-- The roles of the client's scope stay; where it names none, those of the principal are set. -/
def mergedScope (perms : Json) (auth : RequestContext) : Dict :=
  match perms.asDict.get? "roles" with
  | some _ => perms.asDict
  | none => perms.asDict.set "roles" auth.roleList

/-- Attach trusted tenant and principal; reject a conflicting tenant of the client. -/
def mergeExecutionContext (text : Rendering) (clientContext : Dict) (auth : RequestContext) :
    Except Exn Dict :=
  let clientTenant := clientContext.get "tenant_id"
  if clientTenant ≠ .null ∧ text.str clientTenant ≠ auth.tenantId then
    .error ⟨.valueError, "context.tenant_id must match authenticated tenant"⟩
  else
    let merged := (clientContext.set "tenant_id" (.str auth.tenantId)).set "principal_id"
      (.str auth.principal.principalId)
    let merged := if (merged.get "request_id").truthy then merged
      else merged.set "request_id" (.str auth.requestId)
    .ok (merged.set "permissions_scope" (.obj (mergedScope (merged.get "permissions_scope") auth)))

structure CreateExecutionRequest where
  workflowType : String
  input : Dict
  context : Dict
  idempotencyKey : Option String
  executionMode : Option String

structure ReplayExecutionRequest where
  mode : String
  planId : Option UUID
  environmentTarget : String
  label : Option String
  reason : Option String
  requestedBy : Option String
  inputOverrides : Option Dict
  startExecution : Bool

/-- `ReplayMode(s)`, where it does not raise. -/
def ReplayMode.parse (s : String) : Option ReplayMode :=
  if s = "exact" then some .exact
  else if s = "investigative" then some .investigative
  else none

/-- The context that a creation hands on. -/
def requestedContext (text : Rendering) (body : CreateExecutionRequest) (auth : RequestContext) :
    Except Exn Dict :=
  (mergeExecutionContext text body.context auth).map fun ctx =>
    match body.executionMode with
    | some mode => ctx.set "execution_mode" (.str mode)
    | none => ctx

/-- `POST /executions`. -/
def createExecutionRoute (engine : ExecutionEngine) (settings : GatewaySettings) (fuel : Nat)
    (idem : IdempotencyStore) (auth : RequestContext) (body : CreateExecutionRequest) : M
      (Execution × IdempotencyStore) := do
  let context ← M.ofExcept (requestedContext engine.text body auth)
  facadeCreateExecution engine settings fuel idem
    { workflowType := body.workflowType
      inputPayload := body.input
      context := context
      idempotencyKey := body.idempotencyKey
      scheduleStart := some settings.scheduleExecutionStart
      startCallback := settings.scheduleExecutionStart }

def assertExecutionVisible (executionId : UUID) (auth : RequestContext) : M Execution := do
  match ← M.getExecution executionId with
  | none => M.throw (.other "HTTPException") "execution not found"
  | some ex =>
      match ← M.getContext ex.executionContextId with
      | none => M.throw (.other "HTTPException") "execution not visible for tenant"
      | some ctx =>
          if ctx.tenantId ≠ auth.tenantId then
            M.throw (.other "HTTPException") "execution not visible for tenant"
          else pure ex

def replayRequestOf (executionId : UUID) (mode : ReplayMode) (body : ReplayExecutionRequest) :
    ReplayRequest where
  sourceExecutionId := executionId
  replayMode := mode
  environmentTarget := body.environmentTarget
  anchorPlanId := body.planId
  overridePlan := none
  inputOverrides := body.inputOverrides
  reason := body.reason
  requestedBy := body.requestedBy
  executionMode := none
  label := body.label
  startExecution := body.startExecution

/-- `POST /executions/{id}/replay`. -/
def requestReplayRoute (engine : ExecutionEngine) (fuel : Nat) (auth : RequestContext)
    (executionId : UUID) (body : ReplayExecutionRequest) : M ReplayCreatedResponse := do
  let _ex ← assertExecutionVisible executionId auth
  match ReplayMode.parse body.mode with
  | none => M.throw .valueError ("invalid replay mode: " ++ body.mode)
  | some mode => engine.createReplay fuel (replayRequestOf executionId mode body)

/-- A request to create an execution, over some map of idempotency keys, or to replay one. -/
inductive GatewayRequest where
  | create (idem : IdempotencyStore) (body : CreateExecutionRequest)
  | replay (executionId : UUID) (body : ReplayExecutionRequest)

def GatewayRequest.program (engine : ExecutionEngine) (settings : GatewaySettings) (fuel : Nat)
    (auth : RequestContext) :
    GatewayRequest → M Unit
  | .create idem body => (createExecutionRoute engine settings fuel idem auth body).discard
  | .replay executionId body => (requestReplayRoute engine fuel auth executionId body).discard

/-- The tenant, the principal and the roles of a context. -/
structure Identity where
  tenantId : String
  principalId : Option String
  roles : Option Json
  deriving DecidableEq

def ExecutionContext.identity (ctx : ExecutionContext) : Identity :=
  ⟨ctx.tenantId, ctx.principalId, Dict.get? ctx.permissionsScope "roles"⟩

def RequestContext.identity (auth : RequestContext) : Identity :=
  ⟨auth.tenantId, some auth.principal.principalId, some auth.roleList⟩

/-- The identity of the context of a stored execution. -/
def World.identity (w : World) (executionId : UUID) : Option Identity :=
  (w.execution executionId).bind fun ex => (w.repo.contexts.get ex.executionContextId).map
    ExecutionContext.identity

/-- The identity that a request is entitled to: that of the caller, or that of the source of a
replay. -/
def GatewayRequest.authentic (auth : RequestContext) (w : World) : GatewayRequest → Option Identity
  | .create _ _ => some auth.identity
  | .replay executionId _ => w.identity executionId

/-- The principal has a name and the body names no roles but the principal's; a replay names no
principal but that of its source. -/
def GatewayRequest.Innocent (auth : RequestContext) (w : World) : GatewayRequest → Prop
  | .create _ body => auth.principal.principalId ≠ "" ∧
      ∀ roles, Dict.get? (body.context.get "permissions_scope").asDict "roles" = some roles →
        roles = auth.roleList
  | .replay executionId body => ∀ name identity, body.requestedBy = some name →
    w.identity executionId = some identity →
      name = "" ∨ identity.principalId = some name

/-- The identity of the context that a creation stores. -/
def CreateExecutionRequest.identity (body : CreateExecutionRequest)
    (auth : RequestContext) : Identity :=
  ⟨auth.tenantId, if auth.principal.principalId = "" then none else some auth.principal.principalId,
    Dict.get? (mergedScope (body.context.get "permissions_scope") auth) "roles"⟩

section
variable {env : Env} {engine : ExecutionEngine} {settings : GatewaySettings} {fuel : Nat}
  {idem : IdempotencyStore}
  {auth : RequestContext} {body : CreateExecutionRequest} {text : Rendering}
    {context : Dict} {w : World}

/-- What the merge leaves of the client's context. -/
theorem mergeExecutionContext_fields {clientContext : Dict}
    (merged : mergeExecutionContext text clientContext auth = .ok context) :
    context.get "tenant_id" = .str auth.tenantId ∧ context.get "principal_id" =
      .str auth.principal.principalId ∧
      context.get "permissions_scope" =
        .obj (mergedScope (clientContext.get "permissions_scope") auth) := by
  unfold mergeExecutionContext at merged
  dsimp only at merged
  split at merged
  · cases merged
  · obtain rfl := Except.ok.inj merged
    split <;> simp [Dict.get, Dict.get?_set]

theorem requestedContext_fields (merged : requestedContext text body auth = .ok context) :
    context.get "tenant_id" = .str auth.tenantId ∧ context.get "principal_id" =
      .str auth.principal.principalId ∧
      context.get "permissions_scope" =
        .obj (mergedScope (body.context.get "permissions_scope") auth) := by
  unfold requestedContext at merged
  cases first : mergeExecutionContext text body.context auth with
  | error e =>
      rw [first] at merged
      cases merged
  | ok ctx =>
      have fields := mergeExecutionContext_fields first
      rw [first] at merged
      obtain rfl := Except.ok.inj merged
      cases body.executionMode with
      | none => exact fields
      | some mode => simpa [Dict.get, Dict.get?_set] using fields

theorem newExecutionOf_identity (merged : requestedContext engine.text body auth = .ok context)
    (call : CreateExecutionCall) (passed : call.context = context) (mode : ExecutionMode)
    (contextId : UUID) (ts : Time) :
    (contextOf (newExecutionOf engine.text call mode) contextId ts).identity =
      body.identity auth := by
  obtain ⟨tenant, principal, scope⟩ := requestedContext_fields merged
  simp only [contextOf, newExecutionOf, ExecutionContext.identity, CreateExecutionRequest.identity,
    passed, tenant, principal, scope, Rendering.str, dictOrNone, Option.getD_some]
  by_cases named : auth.principal.principalId = ""
  · simp [named, Json.truthy]
  · simp [named, Json.truthy]

/-- Calls that store no context, or one with that identity. -/
def StoresAs (identity : Identity) (op : Op) : Prop :=
  ∀ ctx, op = .saveContext ctx → ctx.identity = identity

theorem storesAs_ordinary {identity : Identity} {op : Op} (plain : op.ordinary = true) :
    StoresAs identity op := by
  rintro ctx rfl
  cases plain

theorem storesAs_permits {identity : Identity} : Permits engine (StoresAs identity)
    (fun _ _ => True) where
  ordinary _ plain := storesAs_ordinary plain
  gather := by rintro _ _ _ _ _ _ ⟨⟩
  correlate := by rintro _ _ _ _ _ _ ⟨⟩
  saved := by rintro _ _ _ _ _ ⟨⟩

theorem createExecution_calls {identity : Identity} {request : NewExecution} {ts : Time}
    (named : ∀ contextId, (contextOf request contextId ts).identity = identity) :
    Calls (StoresAs identity) (fun _ _ => True) (createExecution request ts) := by
  refine calls_bind (calls_perform (storesAs_ordinary rfl)) fun contextId =>
    calls_bind (calls_perform (storesAs_ordinary rfl)) fun _ => calls_bind
      (calls_perform ?_) fun _ =>
    calls_bind (calls_perform ?_) fun _ => calls_ret _
  · rintro _ ⟨⟩
    exact named contextId
  · rintro _ ⟨⟩

theorem scheduleRun_calls {identity : Identity} {call : CreateExecutionCall} {mode : ExecutionMode}
    {executionId : UUID} :
    Calls (StoresAs identity) (fun _ _ => True)
    (scheduleRun engine settings fuel call mode executionId) :=
  calls_ite
    (fun _ => calls_ite
      (fun _ => calls_bind (enqueueExecution_calls (fun _ plain => storesAs_ordinary plain)
        fun _ _ no => by cases no)
        fun _ => calls_ret _)
      fun _ => calls_ite (fun _ => calls_ret _) fun _ =>
        calls_bind (startExecution_calls storesAs_permits) fun _ => calls_ret _)
    fun _ => calls_ret _

theorem facadeCreateExecution_calls {identity : Identity} {call : CreateExecutionCall}
    (named : ∀ mode contextId ts, (contextOf (newExecutionOf engine.text call mode) contextId
      ts).identity = identity) :
    Calls (StoresAs identity) (fun _ _ => True)
    (facadeCreateExecution engine settings fuel idem call) := by
  refine calls_ite (fun _ => calls_raise _) fun _ => calls_ite (fun _ => calls_raise _) fun _ =>
    calls_bind calls_ofExcept fun mode => calls_bind ?_ fun existing => ?_
  · unfold knownExecution
    split
    · exact calls_perform (storesAs_ordinary rfl)
    · exact calls_ret _
  · cases existing with
    | some ex => exact calls_ret _
    | none =>
        exact calls_bind (calls_perform (storesAs_ordinary rfl)) fun ts =>
          calls_bind (createExecution_calls fun contextId => named mode contextId ts) fun _ =>
          calls_bind scheduleRun_calls fun _ => calls_ret _

/-- Every context that a creation stores has the identity of its body. -/
theorem createExecutionRoute_calls :
    Calls (StoresAs (body.identity auth)) (fun _ _ => True)
    (createExecutionRoute engine settings fuel idem auth body) := by
  unfold createExecutionRoute
  cases merged : requestedContext engine.text body auth with
  | error e => exact calls_raise e
  | ok context =>
      exact facadeCreateExecution_calls fun mode contextId ts =>
        newExecutionOf_identity merged _ rfl mode contextId ts

/-- The identity of the context of a replay, by that of its source. -/
def ReplayExecutionRequest.identity (body : ReplayExecutionRequest)
    (source : Identity) : Identity :=
  { source with principalId := principalOr body.requestedBy source.principalId }

theorem createReplayChild_calls {body : ReplayExecutionRequest} {executionId : UUID}
    {mode : ReplayMode} {source : Execution} {ctx : ExecutionContext} {ts : Time} : Calls
      (StoresAs (body.identity ctx.identity)) (fun _ _ => True)
        (createReplayChild (replayRequestOf executionId mode body) source ctx ts) :=
  calls_bind calls_ofExcept fun _ => calls_bind calls_ofExcept fun _ =>
    calls_bind (createExecution_calls fun _ => rfl) fun _ =>
    calls_bind (calls_perform (storesAs_ordinary rfl)) fun _ => calls_ret _

theorem replayCreated_calls {identity : Identity} {request : ReplayRequest}
    {source child : Execution} {provenance : ReplayProvenance} :
    Calls (StoresAs identity) (fun _ _ => True) (replayCreated request source child provenance) :=
  calls_bind (calls_perform (storesAs_ordinary rfl)) fun _ => calls_ite (fun _ => calls_raise _)
    fun _ => calls_ret _

/-- A run that stores contexts of that identity only. -/
abbrev storing (env : Env) (identity : Identity) : Semantics platform Exn :=
  (handle env).under fun _ op => StoresAs identity op

theorem Calls.storing {identity : Identity} {α : Type} {p : M α}
    (made : Calls (StoresAs identity) (fun _ _ => True) p) :
    wp (storing env identity) p (fun _ _ => True) w :=
  made.under (I := fun _ => True) (fun _ _ allowed _ => ⟨allowed, trivial⟩) trivial

/-- Every context that a replay stores has the identity of its source, under the requested
principal. -/
theorem createReplay_stores {body : ReplayExecutionRequest} {executionId : UUID} {mode : ReplayMode}
    {identity : Identity} (named : ∀ source, w.identity executionId = some source →
      body.identity source = identity) :
    wp (storing env identity) (engine.createReplay fuel (replayRequestOf executionId mode body))
    (fun _ _ => True) w := by
  refine wp_under_ok (storesAs_ordinary rfl) rfl ?_
  cases stored : w.execution executionId with
  | none => exact wp_under_ok (storesAs_ordinary rfl) (congrArg Except.ok stored) trivial
  | some source =>
      refine wp_under_ok (storesAs_ordinary rfl) (congrArg Except.ok stored) ?_
      cases context : w.repo.contexts.get source.executionContextId with
      | none => exact wp_under_ok (storesAs_ordinary rfl) (congrArg Except.ok context) trivial
      | some ctx =>
          refine wp_under_ok (storesAs_ordinary rfl) (congrArg Except.ok context) (Calls.storing ?_)
          have found : w.identity executionId = some ctx.identity := by
            simp only [World.identity, stored, Option.bind_some, context, Option.map_some]
          rw [← named ctx.identity found]
          refine calls_bind createReplayChild_calls fun created => calls_ite (fun _ => ?_) fun _ =>
            replayCreated_calls
          exact calls_bind (startExecution_calls storesAs_permits) fun _ => replayCreated_calls

theorem requestReplayRoute_stores {body : ReplayExecutionRequest} {executionId : UUID}
    {identity : Identity} (named : ∀ source, w.identity executionId = some source →
      body.identity source = identity) :
    wp (storing env identity) (requestReplayRoute engine fuel auth executionId body)
    (fun _ _ => True) w := by
  have asserted : wp (storing env identity) (assertExecutionVisible executionId auth)
    (fun _ t => t = w) w := by
    cases stored : w.execution executionId with
    | none => exact wp_under_ok (storesAs_ordinary rfl) (congrArg Except.ok stored) rfl
    | some source =>
        refine wp_under_ok (storesAs_ordinary rfl) (congrArg Except.ok stored) ?_
        cases context : w.repo.contexts.get source.executionContextId with
        | none => exact wp_under_ok (storesAs_ordinary rfl) (congrArg Except.ok context) rfl
        | some ctx =>
            exact wp_under_ok (storesAs_ordinary rfl) (congrArg Except.ok context)
              (wp_ite (fun _ => rfl) fun _ => rfl)
  rw [requestReplayRoute, wp_bind]
  refine wp_mono ?_ asserted
  rintro o t rfl
  cases o with
  | raise e => trivial
  | halt => trivial
  | ret ex =>
      simp only [andThen_ret]
      split
      · trivial
      · exact createReplay_stores named

end

section
variable {env : Env} {engine : ExecutionEngine} {settings : GatewaySettings} {fuel : Nat}
  {auth : RequestContext} {w : World}

/-- The identity of the contexts that a request stores. -/
def GatewayRequest.stores (auth : RequestContext) (w : World) : GatewayRequest → Option Identity
  | .create _ body => some (body.identity auth)
  | .replay executionId body => (w.identity executionId).map body.identity

theorem program_stores {request : GatewayRequest} {identity : Identity}
    (named : ∀ stored, request.stores auth w = some stored → stored = identity) :
    wp (storing env identity) (request.program engine settings fuel auth) (fun _ _ => True) w := by
  cases request with
  | create idem body =>
      obtain rfl := named _ rfl
      exact wp_discard (I := fun _ => True) (Calls.storing createExecutionRoute_calls)
  | replay executionId body =>
      refine wp_discard (I := fun _ => True)
        (requestReplayRoute_stores fun source found => named _ ?_)
      simp only [GatewayRequest.stores, found, Option.map_some]

/-- A creation stores the identity of the caller exactly when the body names no other roles. -/
theorem create_identity_iff {body : CreateExecutionRequest} {idem : IdempotencyStore} :
    body.identity auth = auth.identity ↔ (GatewayRequest.create idem body).Innocent auth w := by
  simp only [CreateExecutionRequest.identity, RequestContext.identity, Identity.mk.injEq, true_and]
  refine and_congr ?_ ?_
  · by_cases named : auth.principal.principalId = ""
    · simp [named]
    · simp [named]
  · unfold mergedScope
    cases named : Dict.get? (body.context.get "permissions_scope").asDict "roles" with
    | none => simp [Dict.get?_set]
    | some roles => simp [named]

theorem replay_identity_iff {body : ReplayExecutionRequest} {executionId : UUID} {source : Identity}
    (found : w.identity executionId = some source) :
    body.identity source = source ↔ (GatewayRequest.replay executionId body).Innocent auth w := by
  have same : body.identity source = source ↔ principalOr body.requestedBy source.principalId =
    source.principalId :=
    ⟨congrArg Identity.principalId, fun eq => by rw [ReplayExecutionRequest.identity, eq]⟩
  rw [same]
  unfold principalOr
  cases requested : body.requestedBy with
  | none => simp [GatewayRequest.Innocent, requested]
  | some name =>
      by_cases blank : name = ""
      · refine iff_of_true (if_pos blank) fun other _ same _ => .inl ?_
        exact (Option.some.inj (requested.symm.trans same)).symm.trans blank
      · simp [GatewayRequest.Innocent, requested, blank, found, eq_comm]

/-- A request that stores a context has an identity to store. -/
theorem stores_of_visited {request : GatewayRequest} {ctx : ExecutionContext} {t : World}
    {k : Except Exn Unit → M Unit}
    (stored : Visits (handle env).sem (request.program engine settings fuel auth, w)
      (.call (.saveContext ctx) k, t)) :
    request.stores auth w = some ctx.identity := by
  have named (identity : Identity) (spec : ∀ own, request.stores auth w = some own →
    own = identity) :
      ctx.identity = identity := visited_under (program_stores spec) stored ctx rfl
  cases known : request.stores auth w with
  | some own => rw [named own fun other same => Option.some.inj (same.symm.trans known)]
  | none =>
      -- no source, so nothing is stored: every identity would be that of the context
      have one := named ⟨"", none, none⟩ fun own same => by rw [known] at same; cases same
      have other := named ⟨"", none, some .null⟩ fun own same => by rw [known] at same; cases same
      rw [one] at other
      cases other

/-- A stored context has the identity that the request is entitled to, whatever the body, exactly
when the body is innocent. -/
theorem stored_identity_iff (env : Env) (engine : ExecutionEngine)
    (settings : GatewaySettings) (fuel : Nat) (auth : RequestContext) (w : World)
    (request : GatewayRequest) (ctx : ExecutionContext) (t : World) (k : Except Exn Unit → M Unit)
    (stored : Visits (handle env).sem (request.program engine settings fuel auth, w)
      (.call (.saveContext ctx) k, t)) :
    some ctx.identity = request.authentic auth w ↔ request.Innocent auth w := by
  rw [← stores_of_visited stored]
  cases request with
  | create idem body => exact Option.some_inj.trans create_identity_iff
  | replay executionId body =>
      have own := stores_of_visited stored
      obtain ⟨source, found, _⟩ := Option.map_eq_some_iff.mp own
      simp only [GatewayRequest.stores, GatewayRequest.authentic, found, Option.map_some,
        Option.some_inj]
      exact replay_identity_iff found

theorem contexts_kept {s : World} {op : Op} (other : ∀ ctx, op ≠ .saveContext ctx) :
    (handle env s op).2.repo.contexts = s.repo.contexts := by
  cases op with
  | saveContext ctx => exact absurd rfl (other ctx)
  | updateExecution ex =>
      simp only [handle]
      split <;> rfl
  | updateStep step =>
      simp only [handle]
      split <;> rfl
  | _ => rfl

/-- What a request leaves in the store. -/
theorem request_contexts {request : GatewayRequest} (innocent : request.Innocent auth w)
    {ctx : ExecutionContext}
    (found : ctx ∈ (run (handle env) (request.program engine settings fuel auth)
      w).2.repo.contexts) :
    ctx ∈ w.repo.contexts ∨ some ctx.identity = request.authentic auth w := by
  have named (identity : Identity) (spec : ∀ own, request.stores auth w = some own →
    own = identity) :
      ctx ∈ w.repo.contexts ∨ ctx.identity = identity := by
    refine run_under (I := fun t : World => ∀ c ∈ t.repo.contexts, c ∈ w.repo.contexts ∨
      c.identity = identity)
      (program_stores spec) ?_ (fun _ old => .inl old) ctx found
    intro s op allowed all c member
    by_cases saves : ∃ new, op = .saveContext new
    · obtain ⟨new, rfl⟩ := saves
      rcases Store.Table.mem_put.mp member with rfl | ⟨old, _⟩
      · exact .inr (allowed c rfl)
      · exact all c old
    · rw [contexts_kept fun new eq => saves ⟨new, eq⟩] at member
      exact all c member
  cases request with
  | create idem body =>
      rcases named (body.identity auth) fun _ same => (Option.some.inj same).symm with old | new
      · exact .inl old
      · exact .inr (congrArg some (new.trans (create_identity_iff.mpr innocent)))
  | replay executionId body =>
      cases source : w.identity executionId with
      | some identity =>
          have same := (replay_identity_iff source).mpr innocent
          rcases named identity fun own stores => by
            rw [GatewayRequest.stores, source, Option.map_some, same] at stores
            exact (Option.some.inj stores).symm with old | new
          · exact .inl old
          · exact .inr ((congrArg some new).trans source.symm)
      | none =>
          have nothing (identity : Identity) := named identity fun own stores => by
            rw [GatewayRequest.stores, source] at stores
            cases stores
          rcases nothing ⟨"", none, none⟩ with old | one
          · exact .inl old
          · rcases nothing ⟨"", none, some .null⟩ with old | other
            · exact .inl old
            · rw [one] at other
              cases other

end

/-- The world after requests of authenticated callers, one after another. -/
def World.serve (env : Env) (engine : ExecutionEngine) (settings : GatewaySettings)
    (fuel : Nat) (w : World) :
    List (RequestContext × GatewayRequest) → World
  | [] => w
  | (auth, request) :: rest =>
      World.serve env engine settings fuel
        (run (handle env) (request.program engine settings fuel auth) w).2 rest

/-- Every request is innocent when it is made. -/
def Innocently (env : Env) (engine : ExecutionEngine) (settings : GatewaySettings)
    (fuel : Nat) (w : World) :
    List (RequestContext × GatewayRequest) → Prop
  | [] => True
  | (auth, request) :: rest => request.Innocent auth w ∧
      Innocently env engine settings fuel
        (run (handle env) (request.program engine settings fuel auth) w).2 rest

/-- Through any chain of replays, a context carries an identity that was there before or that of the
caller of a creation. -/
theorem stored_identities (env : Env) (engine : ExecutionEngine)
    (settings : GatewaySettings) (fuel : Nat) (requests : List (RequestContext × GatewayRequest))
    (w : World) (innocently : Innocently env engine settings fuel w requests) :
    ∀ ctx ∈ (w.serve env engine settings fuel requests).repo.contexts,
      (∃ old ∈ w.repo.contexts, old.identity = ctx.identity) ∨
        ∃ auth idem body, (auth, GatewayRequest.create idem body) ∈ requests ∧
          ctx.identity = auth.identity := by
  induction requests generalizing w with
  | nil => exact fun ctx member => .inl ⟨ctx, member, rfl⟩
  | cons first rest ih =>
      obtain ⟨auth, request⟩ := first
      intro ctx member
      rcases ih _ innocently.2 ctx member with ⟨old, stored, same⟩ |
        ⟨caller, idem, body, made, same⟩
      · rw [← same]
        rcases request_contexts innocently.1 stored with before | entitled
        · exact .inl ⟨old, before, rfl⟩
        · cases request with
          | create idem body =>
              exact .inr ⟨auth, idem, body, List.mem_cons_self, Option.some.inj entitled⟩
          | replay executionId body =>
              obtain ⟨ex, _, found⟩ := Option.bind_eq_some_iff.mp entitled.symm
              obtain ⟨source, context, same⟩ := Option.map_eq_some_iff.mp found
              exact .inl ⟨source, (Store.Table.get_eq_some.mp context).1, same⟩
      · exact .inr ⟨caller, idem, body, List.mem_cons_of_mem _ made, same⟩

def alice : RequestContext := ⟨⟨"alice", [.operator]⟩, "t1", "r1"⟩

def manualStart : GatewaySettings := ⟨false, false⟩

/-- A creation with that scope in its context. -/
def creationWith (permissionsScope : Json) : GatewayRequest :=
  .create [] ⟨"generic", [], [("policy_scope", .str "default"),
    ("permissions_scope", permissionsScope)], none, none⟩

/-- An exact replay of the first execution, requested by `name`. -/
def replayBy (name : String) : GatewayRequest :=
  .replay ⟨1⟩ ⟨"exact", none, "sandbox", none, none, some name, none, false⟩

theorem stored_identity_plain : ∃ ctx k t, Visits (handle .refusing).sem
    ((creationWith .null).program (.default .flat) manualStart 1 alice, .init)
    (.call (.saveContext ctx) k, t) ∧
    some ctx.identity = some alice.identity := by
  have stored := visits_cut (handle .refusing) 3 ((creationWith .null).program (.default .flat)
    manualStart 1 alice) .init
  refine ⟨_, _, _, stored, ?_⟩
  refine (stored_identity_iff .refusing (.default .flat) manualStart 1 alice .init
    (creationWith .null) _ _ _ stored).mpr ?_
  refine ⟨by decide, fun roles named => ?_⟩
  cases named

/-- A body that names a role, and a replay that names a principal, are believed. -/
theorem stored_identity_forged :
    (∃ ctx k t, Visits (handle .refusing).sem
      ((creationWith (.obj [("roles", .arr [.str "admin"])])).program
        (.default .flat) manualStart 1 alice, .init) (.call (.saveContext ctx) k, t) ∧
      ctx.identity = ⟨"t1", some "alice", some (.arr [.str "admin"])⟩) ∧
    ∃ ctx k t, Visits (handle .refusing).sem
      ((replayBy "mallory").program (.default .flat) manualStart 1 alice,
        .created .refusing genericRequest) (.call (.saveContext ctx) k, t) ∧
      ctx.identity = ⟨"t1", some "mallory", none⟩ :=
  ⟨⟨_, _, _, visits_cut (handle .refusing) 3 _ .init, rfl⟩,
    ⟨_, _, _, visits_cut (handle .refusing) 7 _ _, rfl⟩⟩

end AgenticPlatform
