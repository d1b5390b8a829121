import AgenticPlatform.Gateway
import AgenticPlatform.Interaction.Extension

/-! The gateway in front of the orchestrator. Beside the calls of the platform it keeps a map of
idempotency keys, hands runs to a callback of its caller, lists approvals and responds. -/
namespace AgenticPlatform
open Interaction

/-- The scope of an idempotency key: tenant, workflow and key. -/
abbrev IdempotencyKey := String × String × String

/-- What the gateway calls beside the platform. -/
inductive GatewayOp where
  | lookup (key : IdempotencyKey)
  | remember (key : IdempotencyKey) (executionId : UUID)
  | startCallback (executionId : UUID)
  | listApprovalsForExecution (executionId : UUID)
  | respond (executionId : UUID)

@[reducible] def GatewayOp.Res : GatewayOp → Type
  | lookup _ => Option UUID
  | listApprovalsForExecution _ => List Approval
  | _ => Unit

@[reducible] def gateway : Signature := platform.plus ⟨GatewayOp, GatewayOp.Res⟩

/-- Programs of the gateway. -/
abbrev GatewayM (α : Type) := Prog gateway Exn α

/-- A program of the platform, run by the gateway. -/
@[reducible] def M.lift {α : Type} (p : M α) : GatewayM α := Prog.lift p

namespace GatewayM

@[reducible] def perform (op : GatewayOp) : GatewayM op.Res :=
  @Prog.extra platform ⟨GatewayOp, GatewayOp.Res⟩ Exn op

def throw {α : Type} (cls : ExceptionClass) (text : String) : GatewayM α := .raise ⟨cls, text⟩

def lookup (key : IdempotencyKey) : GatewayM (Option UUID) := perform (.lookup key)
def remember (key : IdempotencyKey) (executionId : UUID) : GatewayM Unit :=
  perform (.remember key executionId)
def startCallback (executionId : UUID) : GatewayM Unit := perform (.startCallback executionId)
def listApprovalsForExecution (executionId : UUID) : GatewayM (List Approval) :=
  perform (.listApprovalsForExecution executionId)
def respond (executionId : UUID) : GatewayM Unit := perform (.respond executionId)

end GatewayM

/-- What the gateway keeps in memory: its map, and the runs that its callers were told to start. -/
structure GatewayState where
  idempotency : IdempotencyStore
  callbacks : List UUID

def GatewayState.init : GatewayState := ⟨[], []⟩

def gatewayAnswer (s : World × GatewayState) (op : GatewayOp) : Except Exn op.Res × GatewayState :=
  match op with
  | .lookup key => (.ok (s.2.idempotency.find key), s.2)
  | .remember key executionId =>
      (.ok (), { s.2 with idempotency := (key, executionId) :: s.2.idempotency })
  | .startCallback executionId => (.ok (), { s.2 with callbacks := s.2.callbacks ++ [executionId] })
  | .listApprovalsForExecution executionId =>
      (.ok (s.1.repo.listApprovalsForExecution executionId), s.2)
  | .respond _ => (.ok (), s.2)

/-- The platform with the gateway before it. -/
def gatewayHandle (env : Env) : Handler gateway Exn (World × GatewayState) :=
  (handle env).plus gatewayAnswer

end AgenticPlatform
