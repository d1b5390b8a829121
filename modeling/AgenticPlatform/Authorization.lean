import AgenticPlatform.EvaluationMetrics
import AgenticPlatform.Ingestion
import AgenticPlatform.TenantIsolation
import Mathlib.Data.List.TakeWhile

/-! Who may change what a tenant has. The gateway takes the tenant and the roles of a caller from
the headers of each request, and every route asks for one of its roles before it does anything. -/
namespace AgenticPlatform
open Interaction ExecutionEngine Store

/-- The headers that the gateway reads. -/
structure RequestHeaders where
  principalId : Option String
  tenantId : Option String
  roles : Option String
  requestId : Option String

/-- Whom the gateway takes a request without an identity for, if it takes it at all. -/
structure AuthSettings where
  allowDevPrincipalFallback : Bool
  devPrincipalId : String
  devTenantId : String
  devRoles : String

/-- `Role(token)`, where it does not raise. -/
def Role.parse (token : String) : Option Role :=
  [Role.viewer, .operator, .approver, .admin].find? fun role => role.value = token

/-- `raw.split(",")`. -/
def splitCommas : List Char → List (List Char)
  | [] => [[]]
  | c :: rest =>
      if c = ',' then [] :: splitCommas rest
      else
        match splitCommas rest with
        | [] => [[c]]
        | part :: parts => (c :: part) :: parts

def stripText (text : String) : String := String.ofList (Knowledge.strip text.toList)

/-- `part.strip().lower()`. -/
def roleToken (part : List Char) : String := Evaluation.lowerText
    (String.ofList (Knowledge.strip part))

def parseRoles (raw : Option String) : List Role :=
  match raw with
  | none => []
  | some text =>
      -- `not raw.strip()`
      if text.toList.all isSpace then []
      else (splitCommas text.toList).filterMap fun part => Role.parse (roleToken part)

/-- `_parse_roles(raw) or [role]`. -/
def rolesOr (raw : Option String) (role : Role) : List Role :=
  if parseRoles raw = [] then [role] else parseRoles raw

/-- A header that is there and not empty. -/
def filled (header : Option String) : Option String := header.filter (· ≠ "")

/-- The principal and the tenant that the headers name. -/
def RequestHeaders.named (headers : RequestHeaders) : Option (String × String) :=
  (filled headers.principalId).bind fun principal => (filled headers.tenantId).map fun tenant =>
    (stripText principal, stripText tenant)

/-- The schemas bound the lengths of what names the caller. -/
def checkedContext (principalId : String) (roles : List Role) (tenantId requestId : String) :
    Except Exn RequestContext :=
  if 256 < principalId.length then .error
    ⟨.validationError, "String should have at most 256 characters"⟩
  else if 256 < tenantId.length then .error
    ⟨.validationError, "String should have at most 256 characters"⟩
  else if 128 < requestId.length then .error
    ⟨.validationError, "String should have at most 128 characters"⟩
  else .ok ⟨⟨principalId, roles⟩, tenantId, requestId⟩

def resolveRequestContext (settings : AuthSettings) (headers : RequestHeaders) :
    Except Exn RequestContext :=
  let requestId := (filled headers.requestId).getD "gateway"
  match headers.named with
  | some named => checkedContext named.1 (rolesOr headers.roles .viewer) named.2 requestId
  | none =>
      if settings.allowDevPrincipalFallback then
        checkedContext settings.devPrincipalId (rolesOr (some settings.devRoles) .operator)
          settings.devTenantId requestId
      else .error
        ⟨.other "HTTPException", "Missing X-Principal-Id and X-Tenant-Id; dev fallback disabled"⟩

def RequestContext.hasAnyRole (auth : RequestContext) (roles : List Role) : Bool :=
  roles.any fun role => auth.principal.roles.contains role

def requireAnyRole (roles : List Role) (auth : RequestContext) : Except Exn Unit :=
  if auth.hasAnyRole roles then .ok ()
  else .error ⟨.other "HTTPException", "requires one of roles: " ++ ", ".intercalate
    (roles.map Role.value)⟩

/-- The roles of which a route asks one. -/
def ClientRequest.allowedRoles : ClientRequest → List Role
  | .get _ => [.viewer, .operator, .approver, .admin]
  | .create _ | .cancel _ | .replay _ _ => [.operator, .admin]
  | .approve _ => [.approver, .admin]

def ClientRequest.writes : ClientRequest → Bool
  | .get _ => false
  | .create _ | .cancel _ | .approve _ | .replay _ _ => true

/-- A request as it comes in. -/
structure HttpRequest where
  headers : RequestHeaders
  request : ClientRequest

section
variable (settings : AuthSettings) (engine : ExecutionEngine) (gatewaySettings : GatewaySettings)
  (fuel : Nat)

/-- The dependencies of a route, and then the route. -/
def HttpRequest.program (incoming : HttpRequest) : GatewayM Unit := do
  let auth ← M.lift (M.ofExcept (resolveRequestContext settings incoming.headers))
  M.lift (M.ofExcept (requireAnyRole incoming.request.allowedRoles auth))
  incoming.request.program engine gatewaySettings fuel auth

/-- Callers that are not authenticated yet, beside workers and background runs. -/
inductive HttpActivity where
  | caller (incoming : List HttpRequest)
  | worker (workerId : String) (polls : Nat)
  | background (executionId : UUID)

def HttpActivity.program : HttpActivity → GatewayM Unit
  | .caller incoming => inTurn (incoming.map (·.program settings engine gatewaySettings fuel))
  | .worker workerId polls => (Activity.worker workerId polls).program engine gatewaySettings fuel
  | .background executionId => (Activity.background executionId).program engine gatewaySettings fuel

/-- All activities at their beginning. -/
def serverOf {ι : Type} (activities : ι → HttpActivity) (s : World × GatewayState) :
    Sys gateway Exn (World × GatewayState) Unit ι where
  shared := s
  threads := fun i => (activities i).program settings engine gatewaySettings fuel
  ghost := fun _ => ()

end

/-- One of the parts between the commas is the role, but for white space and case. -/
def Mentions (raw : Option String) (role : Role) : Prop :=
  ∃ text, raw = some text ∧ ∃ part ∈ splitCommas text.toList, roleToken part = role.value

/-- The text mentions the role; or it mentions none, and the role is the one that is then given. -/
def Claims (raw : Option String) (given role : Role) : Prop :=
  Mentions raw role ∨ (∀ r, ¬ Mentions raw r) ∧ role = given

/-- The request is one for a tenant in `T`. -/
def RequestHeaders.ActsFor (headers : RequestHeaders) (settings : AuthSettings)
    (T : String → Bool) : Prop :=
  match headers.named with
  | some named => T named.2 = true
  | none => settings.allowDevPrincipalFallback = true ∧ T settings.devTenantId = true

def RequestHeaders.Holds (headers : RequestHeaders) (settings : AuthSettings)
    (role : Role) : Prop :=
  match headers.named with
  | some _ => Claims headers.roles .viewer role
  | none => Claims (some settings.devRoles) .operator role

/-- A request to write for a tenant in `T`, with one of the roles for it. -/
structure HttpRequest.Entitled (incoming : HttpRequest) (settings : AuthSettings)
    (T : String → Bool) : Prop where
  writes : incoming.request.writes = true
  tenant : incoming.headers.ActsFor settings T
  role : ∃ role ∈ incoming.request.allowedRoles, incoming.headers.Holds settings role

section
variable {settings : AuthSettings} {headers : RequestHeaders} {auth : RequestContext}
  {raw : Option String} {role given : Role}

theorem Role.parse_eq_some {token : String} : Role.parse token = some role ↔
    token = role.value := by
  constructor
  · intro parsed
    unfold Role.parse at parsed
    have same := List.find?_some parsed
    exact (of_decide_eq_true same).symm
  · rintro rfl
    cases role <;> decide

theorem mem_splitCommas {l part : List Char} {c : Char} (member : part ∈ splitCommas l)
    (inside : c ∈ part) : c ∈ l := by
  induction l generalizing part with
  | nil =>
      obtain rfl := List.mem_singleton.mp member
      exact inside
  | cons d rest ih =>
      unfold splitCommas at member
      split at member
      · rcases List.mem_cons.mp member with rfl | later
        · cases inside
        · exact List.mem_cons_of_mem _ (ih later inside)
      · split at member
        · obtain rfl := List.mem_singleton.mp member
          exact List.mem_singleton.mp inside ▸ List.mem_cons_self
        · next first parts split =>
            rcases List.mem_cons.mp member with rfl | later
            · rcases List.mem_cons.mp inside with rfl | inside
              · exact List.mem_cons_self
              · exact List.mem_cons_of_mem _ (ih (split ▸ List.mem_cons_self) inside)
            · exact List.mem_cons_of_mem _ (ih (split ▸ List.mem_cons_of_mem _ later) inside)

/-- White space is no role. -/
theorem roleToken_blank {part : List Char} (blank : ∀ c ∈ part, isSpace c = true) :
    roleToken part ≠ role.value := by
  have nothing : Knowledge.strip part = [] := by
    have dropped : part.dropWhile isSpace = [] := List.dropWhile_eq_nil_iff.mpr blank
    simp [Knowledge.strip, dropped]
  rw [roleToken, nothing]
  cases role <;> decide

/-- The roles of a header are those that its text mentions. -/
theorem mem_parseRoles : role ∈ parseRoles raw ↔ Mentions raw role := by
  cases raw with
  | none => simp [parseRoles, Mentions]
  | some text =>
      have named : Mentions (some text) role ↔ ∃ part ∈ splitCommas text.toList, roleToken part =
        role.value := by
        simp [Mentions]
      rw [named]
      simp only [parseRoles]
      split
      · next blank =>
          refine ⟨fun no => absurd no List.not_mem_nil, ?_⟩
          rintro ⟨part, member, same⟩
          refine absurd same (roleToken_blank fun c inside => ?_)
          exact List.all_eq_true.mp blank c (mem_splitCommas member inside)
      · simp only [List.mem_filterMap, Role.parse_eq_some]

theorem mem_rolesOr (member : role ∈ rolesOr raw given) : Claims raw given role := by
  unfold rolesOr at member
  split at member
  · next none =>
      refine .inr ⟨fun r mentioned => ?_, List.mem_singleton.mp member⟩
      rw [← mem_parseRoles, none] at mentioned
      cases mentioned
  · exact .inl (mem_parseRoles.mp member)

theorem checkedContext_ok {principalId tenantId requestId : String} {roles : List Role}
    (checked : checkedContext principalId roles tenantId requestId = .ok auth) :
    auth.tenantId = tenantId ∧ auth.principal.roles = roles := by
  unfold checkedContext at checked
  split at checked
  · cases checked
  · split at checked
    · cases checked
    · split at checked
      · cases checked
      · obtain rfl := Except.ok.inj checked
        exact ⟨rfl, rfl⟩

/-- Whom the gateway takes a request for, it is for by its headers. -/
theorem resolveRequestContext_ok (resolved : resolveRequestContext settings headers = .ok auth) :
    (∀ T : String → Bool, T auth.tenantId = true → headers.ActsFor settings T) ∧
      ∀ role ∈ auth.principal.roles, headers.Holds settings role := by
  unfold resolveRequestContext at resolved
  unfold RequestHeaders.ActsFor RequestHeaders.Holds
  cases named : headers.named with
  | some named' =>
      simp only [named] at resolved
      obtain ⟨tenant, roles⟩ := checkedContext_ok resolved
      refine ⟨fun T inside => show T named'.2 = true from tenant ▸ inside, fun role member => ?_⟩
      rw [roles] at member
      exact mem_rolesOr member
  | none =>
      simp only [named] at resolved
      split at resolved
      · next allowed =>
          obtain ⟨tenant, roles⟩ := checkedContext_ok resolved
          refine ⟨fun T inside => ⟨allowed, show T settings.devTenantId = true from tenant ▸
            inside⟩, fun role member => ?_⟩
          rw [roles] at member
          exact mem_rolesOr member
      · cases resolved

theorem requireAnyRole_ok {roles : List Role} (required : requireAnyRole roles auth = .ok ()) :
    ∃ role ∈ roles, role ∈ auth.principal.roles := by
  unfold requireAnyRole at required
  split at required
  · next any =>
      obtain ⟨role, member, held⟩ := List.any_eq_true.mp any
      exact ⟨role, member, List.contains_iff_mem.mp held⟩
  · cases required

end

section
variable {K : Known} {G : Rows} {T : String → Bool} {settings : AuthSettings}
  {engine : ExecutionEngine}
  {gatewaySettings : GatewaySettings} {fuel : Nat}

/-- Reading an execution looks at it and at its context. -/
theorem get_calls {auth : RequestContext} {id : UUID} :
    Calls (K.MayAsk True) (K.IsTold G T)
    ((ClientRequest.get id).program engine gatewaySettings fuel auth) := by
  have looks : CallsFor (K.MayCall True) (K.Learns G T) (assertExecutionVisible id auth)
    (fun _ => True) := by
    refine Calls.for_all (calls_bind (calls_perform (.inr ⟨trivial, .inl ⟨_, rfl⟩⟩))
      fun found => ?_)
    cases found with
    | none => exact calls_raise _
    | some ex =>
        refine calls_bind (calls_perform (.inr ⟨trivial, .inr ⟨_, rfl⟩⟩)) fun found => ?_
        cases found with
        | none => exact calls_raise _
        | some ctx => exact calls_ite (fun _ => calls_raise _) fun _ => calls_ret _
  exact calls_then (callsFor_lift looks) fun _ _ => (asks_calls Known.covers_nil).calls

/-- A dependency of a route either raises or hands on what it checked. -/
theorem checked_calls {α : Type} {x : Except Exn α} :
    CallsFor (K.MayAsk True) (K.IsTold G T) (M.lift (M.ofExcept x)) (fun a => x = .ok a) := by
  refine callsFor_lift ?_
  cases x with
  | error e => exact callsFor_raise e
  | ok a => exact callsFor_ret rfl

/-- A request that may not write for a tenant in `T` is refused, reads, or is one of another
tenant. -/
theorem HttpRequest.calls {incoming : HttpRequest} (harmless : ¬ incoming.Entitled settings T)
    (sound : K.Sound G) (outside : ∀ id, G .execution id = false → K (.visible id))
    (tenants : ∀ name, T name = false → K (.tenant name)) :
    Calls (K.MayAsk True) (K.IsTold G T)
    (incoming.program settings engine gatewaySettings fuel) := by
  refine calls_then checked_calls fun auth resolved => calls_then checked_calls fun _ required => ?_
  obtain ⟨actsFor, holds⟩ := resolveRequestContext_ok resolved
  obtain ⟨role, allowed, held⟩ := requireAnyRole_ok required
  have other (writes : incoming.request.writes = true) : T auth.tenantId = false := by
    cases inside : T auth.tenantId with
    | false => rfl
    | true => exact absurd ⟨writes, actsFor T inside, role, allowed, holds role held⟩ harmless
  cases route : incoming.request with
  | get id => exact get_calls
  | create body | cancel id | approve request | replay id body =>
      exact ClientRequest.calls sound (other (by rw [route]; rfl)) outside tenants (.inl trivial)

/-- No caller may write for a tenant in `T`, and no background run is one of theirs. -/
def HttpActivity.Harmless (settings : AuthSettings) (G : Rows) (T : String → Bool) :
    HttpActivity → Prop
  | .caller incoming => ∀ one ∈ incoming, ¬ one.Entitled settings T
  | .worker _ _ => True
  | .background id => G .execution id = false

theorem HttpActivity.calls {activity : HttpActivity} (harmless : activity.Harmless settings G T)
    (sound : K.Sound G) (outside : ∀ id, G .execution id = false → K (.visible id))
    (tenants : ∀ name, T name = false → K (.tenant name)) :
    Calls (K.MayAsk True) (K.IsTold G T)
    (activity.program settings engine gatewaySettings fuel) := by
  cases activity with
  | caller incoming =>
      refine calls_inTurn fun p member => ?_
      obtain ⟨one, asked, rfl⟩ := List.mem_map.mp member
      exact HttpRequest.calls (harmless one asked) sound outside tenants
  | worker workerId polls =>
      have apart : (Activity.worker workerId polls).Apart G T := trivial
      exact @Activity.calls K G T True engine gatewaySettings fuel _ sound outside tenants apart
        (.inl trivial)
  | background id =>
      have apart : (Activity.background id).Apart G T := harmless
      exact @Activity.calls K G T True engine gatewaySettings fuel _ sound outside tenants apart
        (.inl trivial)

end

section
variable {H ι : Type} [DecidableEq ι] (env : Env) (service : ToolService H)
  (engine : ExecutionEngine)
  (settings : AuthSettings) (gatewaySettings : GatewaySettings) (fuel : Nat) (T : String → Bool)
  (activities : ι → HttpActivity) {w : World} {g : GatewayState}

/-- However raw requests interleave with workers and background runs, the tenants in `T` have the
rows that they had unless some request that writes names one of them in its headers, or is taken for
one of them without, and holds a role that its route asks for. -/
theorem only_entitled_writes (separate : w.Separate T) (keys : g.KeysApart w T)
    (distinct : service.Distinct w) (harmless : ∀ i, (activities i).Harmless settings (w.owned T) T)
    {d : Sys gateway Exn (World × GatewayState) Unit ι}
    (reach : Sys.Reaches (gatewayHandle (env.withTools service)) (fun _ _ _ => ())
      (fun _ _ _ => True)
      (serverOf settings engine gatewaySettings fuel activities (w, g)) d) :
    d.shared.1.repo.only (d.shared.1.owned T) = w.repo.only
      (w.owned T) ∧ d.shared.1.Separate T := by
  have start : KeptApart w T (w, g) := ⟨separate.beside, keys⟩
  have informed (i : ι) : Informed (knowOutside w T) (fun K op => K.1.MayAsk True op)
    (fun K op a => K.1.IsTold (w.owned T) T op a)
      (w, g) ((activities i).program settings engine gatewaySettings fuel) :=
    fun K above => HttpActivity.calls (harmless i) K.2 (fun _ outside => above _ outside)
      (fun _ other => above _ other)
  obtain ⟨kept, _⟩ := Sys.Reaches.informed (c := serverOf settings engine gatewaySettings fuel
    activities (w, g))
    (service_rules env T True separate distinct) informed start reach
  exact ⟨kept.beside.owned_eq ▸ kept.beside.frozen, kept.beside.separate separate⟩

end

/-- A gateway for the network: no request without an identity. -/
def closedGateway : AuthSettings := ⟨false, "dev-operator", "dev-tenant", "operator,admin"⟩

/-- Someone of the tenant t1 who may only look, and an operator of t2. -/
def viewerHeaders : RequestHeaders := ⟨some "carol", some " t1 ", some "Viewer, auditor", none⟩

def operatorHeaders : RequestHeaders :=
  ⟨some "bob", some "t2", some " OPERATOR ,approver", some "r2"⟩

/-- The operator creates and cancels; the viewer reads, and tries to cancel as well. -/
def mixedCalls : Fin 3 → HttpActivity
  | 0 => .caller [⟨operatorHeaders, bobsCreation⟩, ⟨operatorHeaders, .cancel ⟨1⟩⟩]
  | 1 => .caller [⟨viewerHeaders, .get ⟨1⟩⟩, ⟨viewerHeaders, .cancel ⟨1⟩⟩]
  | 2 => .worker "w1" 2

theorem only_entitled_writes_mixed :
    let d := (serverOf closedGateway (.default .flat) manualStart 5 mixedCalls
      (storeOfAlice, .init)).fires
      (gatewayHandle toolEnv) (fun _ _ _ => ()) (List.replicate 9 1 ++ List.replicate 20
        0 ++ [1, 2, 1, 2])
    d.shared.1.repo.only (d.shared.1.owned alicesTenant) = storeOfAlice.repo.only
      (storeOfAlice.owned alicesTenant) ∧
      d.shared.1.Separate alicesTenant := by
  refine only_entitled_writes (.answering .allow "passed") workingTools _ _ _ _ _ _ alice_separate
    (fun _ no => absurd no List.not_mem_nil) working_distinct (fun i => ?_)
      (Sys.Reaches.refl.fires _)
  have bobs (request : ClientRequest) : ¬ (HttpRequest.mk operatorHeaders request).Entitled
    closedGateway alicesTenant :=
    fun entitled => absurd entitled.tenant (by decide +kernel : ¬ alicesTenant "t2" = true)
  match i with
  | 0 =>
      intro one asked
      rcases List.mem_cons.mp asked with rfl | asked
      · exact bobs _
      · obtain rfl := List.mem_singleton.mp asked
        exact bobs _
  | 1 =>
      intro one asked entitled
      rcases List.mem_cons.mp asked with rfl | asked
      · exact absurd entitled.writes (by decide)
      · obtain rfl := List.mem_singleton.mp asked
        obtain ⟨role, allowed, held⟩ := entitled.role
        have roles : parseRoles viewerHeaders.roles = [.viewer] := by decide +kernel
        have viewer : role = .viewer := by
          rcases held with mentioned | ⟨_, given⟩
          · rw [← mem_parseRoles, roles] at mentioned
            exact List.mem_singleton.mp mentioned
          · exact given
        subst viewer
        exact absurd allowed (by decide)
  | 2 => trivial

end AgenticPlatform
