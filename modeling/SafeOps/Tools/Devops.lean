import SafeOps.Concurrent.Pool
import SafeOps.Model.World

/-! `app/tools/devops.py`: deploying a build, and the tables of services and deployments. -/

namespace SafeOps
open Concurrent

inductive DeploymentEnvironment
  | staging | production
  deriving DecidableEq, Repr

def DeploymentEnvironment.value : DeploymentEnvironment → String
  | staging => "STAGING" | production => "PRODUCTION"

structure Service where
  id : Id
  name : String
  deriving DecidableEq

structure Deployment where
  id : Id := 0
  serviceId : Id
  environment : DeploymentEnvironment
  version : String
  idempotencyKey : Option String
  deployedAt : Time := 0
  deriving DecidableEq

/-- The two tables, the deployments in the order of insertion. -/
structure Releases where
  now : Time
  services : List Service
  deployments : List Deployment
  nextId : Id

/-- The statements of the tools. `commitDeployment` is the flush and commit of the new deployment, which
answers with its key; it fails on a constraint. -/
inductive DevopsOp
  | serviceNamed (name : String)
  | deploymentWithKey (idempotencyKey : String)
  | getDeployment (id : Id)
  | commitDeployment (row : Deployment)

@[reducible] def DevopsOp.Reply : DevopsOp → Type
  | serviceNamed _ => Option Service
  | deploymentWithKey _ => Option Deployment
  | getDeployment _ => Option Deployment
  | commitDeployment _ => Option Id

namespace Releases

abbrev statements : Signature := ⟨DevopsOp, DevopsOp.Reply⟩

/-- The unique index lets any number of rows be without a key. -/
def keyTaken (s : Releases) (key : Option String) : Prop :=
  key.isSome ∧ key ∈ s.deployments.map (·.idempotencyKey)

instance (s : Releases) (key : Option String) : Decidable (s.keyTaken key) :=
  inferInstanceAs (Decidable (_ ∧ _))

/-- The unique index on the key and the foreign key of the service guard the insert. -/
def commitDeployment (row : Deployment) (s : Releases) : Option Id × Releases :=
  if s.keyTaken row.idempotencyKey ∨ row.serviceId ∉ s.services.map (·.id) then (none, s)
  else
    (some s.nextId, { s with
      deployments := s.deployments ++ [{ row with id := s.nextId, deployedAt := s.now }]
      nextId := s.nextId + 1 })

def exec : (o : DevopsOp) → Releases → o.Reply × Releases
  | .serviceNamed name, s => (s.services.find? (·.name = name), s)
  | .deploymentWithKey key, s => (s.deployments.find? (·.idempotencyKey = some key), s)
  | .getDeployment id, s => (s.deployments.find? (·.id = id), s)
  | .commitDeployment row, s => s.commitDeployment row

/-- What a statement changes: nothing, or it commits a deployment. -/
theorem exec_cases (o : DevopsOp) (s : Releases) : (exec o s).2 = s ∨ ∃ row, o = .commitDeployment row ∧
    ¬s.keyTaken row.idempotencyKey ∧ HEq (exec o s).1 (some s.nextId) ∧
    (exec o s).2 = { s with
      deployments := s.deployments ++ [{ row with id := s.nextId, deployedAt := s.now }]
      nextId := s.nextId + 1 } := by
  cases o with
  | commitDeployment row =>
    simp only [exec, commitDeployment]
    split
    · exact .inl rfl
    · rename_i hfree
      exact .inr ⟨row, rfl, fun hkey => hfree (.inl hkey), .rfl, rfl⟩
  | _ => exact .inl rfl

end Releases

structure DeployInput where
  serviceName : String
  version : String
  idempotencyKey : Option String := none

structure DeployOutput where
  serviceName : String
  environment : String
  version : String
  deployedAt : Time

namespace DeployTool

abbrev DevopsM := Program Releases.statements ToolFailure

def statement (o : DevopsOp) : DevopsM o.Reply := Program.call (S := Releases.statements) o

/-- `_get_service`. -/
def getService (serviceName : String) : DevopsM Service := do
  let service : Option Service ← statement (.serviceNamed serviceName)
  match service with
  | some service => pure service
  | none => .raise (.toolExecutionError "NOT_FOUND" ("Service '" ++ serviceName ++ "' not found"))

/-- `_output_for`. -/
def outputFor (service : Service) (deployment : Deployment) : DeployOutput where
  serviceName := service.name
  environment := deployment.environment.value
  version := deployment.version
  deployedAt := deployment.deployedAt

/-- `db.scalar` of the deployment with the key, if there is a key. -/
def existing : Option String → DevopsM (Option Deployment)
  | some key => statement (.deploymentWithKey key)
  | none => pure none

/-- The row after the commit: the new one, or the one that a concurrent call has put under the key. -/
def reload (idempotencyKey : Option String) : Option Id → DevopsM (Option Deployment)
  | some id => statement (.getDeployment id)
  | none => existing idempotencyKey

/-- The part of `_deploy` that writes. -/
def create (input : DeployInput) (service : Service) (environment : DeploymentEnvironment) :
    DevopsM DeployOutput := do
  let committed : Option Id ← statement (.commitDeployment
    { serviceId := service.id
      environment := environment
      version := input.version
      idempotencyKey := input.idempotencyKey })
  let deployment ← reload input.idempotencyKey committed
  match deployment with
  | some deployment => pure (outputFor service deployment)
  | none => .raise .other

/-- `_deploy`. -/
def deploy (input : DeployInput) (environment : DeploymentEnvironment) : DevopsM DeployOutput := do
  let service ← getService input.serviceName
  let deployment ← existing input.idempotencyKey
  match deployment with
  | some deployment => pure (outputFor service deployment)
  | none => create input service environment

end DeployTool

/-- A call of `deploy_staging` or of `deploy_production`. -/
structure DeployCall where
  input : DeployInput
  environment : DeploymentEnvironment

/-- Any number of deployments, run at once; the clock of the database moves at will. -/
def deployBuilds : System Releases.statements ToolFailure DeployOutput Releases DeployCall Time where
  exec := Releases.exec
  code call := DeployTool.deploy call.input call.environment
  disturb now s := { s with now }

end SafeOps
