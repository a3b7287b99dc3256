import SafeOps.Model.Enums
import SafeOps.Model.Value
import Mathlib.Logic.Function.Basic
import Mathlib.Data.List.Sort

/-! The database rows the services share, and the tables that hold them. -/

namespace SafeOps

/-- Primary keys. -/
abbrev Id := Nat

/-- Points and spans of time, in microseconds. -/
abbrev Time := Nat

structure Agent where
  name : String
  type : String

structure Tool where
  id : Id
  name : String
  riskCategory : RiskLevel

/-- A tool's row as it is found by its name. -/
abbrev ToolNamed (name : String) := { row : Tool // row.name = name }

structure Policy where
  id : Id
  policyKey : String
  agentType : Option String
  agentId : Option Id
  toolId : Option Id
  priority : Int
  enabled : Bool
  action : PolicyAction
  conditions : Value

structure Execution where
  agentId : Id
  objective : String
  status : ExecutionStatus
  initialContext : Value
  stepping : Bool := false
  steppingClaimId : Option Id := none
  steppingClaimedAt : Option Time := none
  completedAt : Option Time := none

structure ToolError where
  code : String
  message : String

structure ToolRequest where
  executionId : Id
  agentId : Id
  toolId : Option Id
  toolName : String
  arguments : Value
  status : ToolRequestStatus
  requestedAt : Time := 0
  completedAt : Option Time := none
  result : Option Value := none
  error : Option ToolError := none

structure ApprovalRequest where
  executionId : Id
  agentId : Id
  toolRequestId : Id
  policyDecisionId : Id
  toolName : String
  approvedArguments : Value
  riskLevel : RiskLevel
  reason : String
  status : ApprovalStatus
  expiresAt : Time
  resolvedAt : Option Time := none
  resolvedBy : Option String := none
  executedAt : Option Time := none

inductive GatewayStatus
  | executed | requiresApproval | blocked | failed
  deriving DecidableEq, Repr

inductive GatewayDecision
  | allow | deny | block | requireApproval
  deriving DecidableEq, Repr

structure GatewayResult where
  status : GatewayStatus
  toolName : Option String := none
  toolResult : Option Value := none
  decision : Option GatewayDecision := none
  reason : Option String := none
  matchedPolicy : Option String := none
  policyId : Option Id := none
  approvalRequestId : Option Id := none
  riskScore : Option Int := none
  riskLevel : Option RiskLevel := none
  riskSignals : Option (List String) := none

inductive Trust
  | trusted | untrusted
  deriving DecidableEq, Repr

structure Source where
  type : String
  trust : Trust
  content : String

def Source.modelDump (s : Source) : Value :=
  .dict [("type", .str s.type),
    ("trust", .str (match s.trust with | .trusted => "TRUSTED" | .untrusted => "UNTRUSTED")),
    ("content", .str s.content)]

/-- The keys ever present in `ExecutionStep.input`. -/
structure StepInput where
  toolName : Option String := none
  arguments : Option Value := none
  reason : Option String := none
  sources : List Value := []
  retryOfSequence : Option Nat := none
  decision : Option String := none
  code : Option String := none

/-- The keys ever present in `ExecutionStep.output`: those of a dumped `GatewayResult`, and
`resolution` and `code`. -/
structure StepOutput where
  status : Option GatewayStatus := none
  toolName : Option String := none
  toolResult : Option Value := none
  decision : Option GatewayDecision := none
  reason : Option String := none
  matchedPolicy : Option String := none
  policyId : Option Id := none
  approvalRequestId : Option Id := none
  riskScore : Option Int := none
  riskLevel : Option RiskLevel := none
  riskSignals : Option (List String) := none
  resolution : Option String := none
  code : Option String := none

def GatewayResult.modelDump (r : GatewayResult) : StepOutput where
  status := r.status
  toolName := r.toolName
  toolResult := r.toolResult
  decision := r.decision
  reason := r.reason
  matchedPolicy := r.matchedPolicy
  policyId := r.policyId
  approvalRequestId := r.approvalRequestId
  riskScore := r.riskScore
  riskLevel := r.riskLevel
  riskSignals := r.riskSignals

structure ExecutionStep where
  sequence : Nat
  stepType : StepType
  status : StepStatus
  input : StepInput
  output : Option StepOutput := none
  toolRequestId : Option Id := none
  completedAt : Option Time := none

structure AuditEvent where
  sequence : Nat
  eventType : AuditEventType
  actor : String
  metadata : List (String × Value)

structure ExternalActionRequest where
  operatorId : Id
  externalRequestId : String
  integrationType : IntegrationType
  safeopsAgentId : Id
  executionId : Id
  toolName : String
  payloadHash : String
  status : ExternalActionStatus
  toolRequestId : Option Id := none
  approvalRequestId : Option Id := none
  resultSummary : Option Value := none
  errorCode : Option String := none
  completedAt : Option Time := none

/-- Rows that the services only read. -/
structure Directory where
  agents : Id → Option Agent
  tools : (name : String) → Option (ToolNamed name)
  permissions : Id → Id → Option PermissionType
  policies : List Policy
  mappings : Id → Id → Bool

/-- Which of the guarded computations raise when they are next run. -/
structure Faults where
  policyEvaluation : Bool := false
  riskAssessment : Bool := false
  detector : Nat → Bool := fun _ => false

/-- The database, the clock, and the tools' own tables `D`. Steps and audit events are filed
under their execution, steps in the order of their sequence numbers. -/
structure State (D : Type) where
  now : Time
  faults : Faults
  directory : Directory
  executions : Id → Option Execution
  steps : Id → List ExecutionStep
  toolRequests : Id → Option ToolRequest
  approvals : Id → Option ApprovalRequest
  externalRequests : Id → String → Option ExternalActionRequest
  audit : Id → List AuditEvent
  nextId : Id
  domain : D

namespace State

variable {D : Type}

/-- The database before the first call: the services have written nothing yet. -/
structure Fresh (s : State D) : Prop where
  executions : ∀ x, s.executions x = none
  steps : ∀ x, s.steps x = []
  toolRequests : ∀ r, s.toolRequests r = none
  approvals : ∀ a, s.approvals a = none
  externalRequests : ∀ o k, s.externalRequests o k = none
  audit : ∀ x, s.audit x = []

def modifyExecution (s : State D) (x : Id) (f : Execution → Execution) : State D :=
  { s with executions := Function.update s.executions x ((s.executions x).map f) }

def modifyToolRequest (s : State D) (r : Id) (f : ToolRequest → ToolRequest) : State D :=
  { s with toolRequests := Function.update s.toolRequests r ((s.toolRequests r).map f) }

def modifyApproval (s : State D) (a : Id) (f : ApprovalRequest → ApprovalRequest) : State D :=
  { s with approvals := Function.update s.approvals a ((s.approvals a).map f) }

def modifyStep (s : State D) (x : Id) (seq : Nat) (f : ExecutionStep → ExecutionStep) : State D :=
  { s with
    steps := Function.update s.steps x
      ((s.steps x).map fun step => if step.sequence = seq then f step else step) }

def modifyExternalRequest (s : State D) (o : Id) (k : String)
    (f : ExternalActionRequest → ExternalActionRequest) : State D :=
  { s with
    externalRequests := Function.update s.externalRequests o
      (Function.update (s.externalRequests o) k ((s.externalRequests o k).map f)) }

/-- The status column of an execution's row. -/
def status (s : State D) (x : Id) : Option ExecutionStatus := (s.executions x).map (·.status)

/-- `max(sequence)` over an execution's audit events, 0 when it has none. -/
def lastSequence (s : State D) (x : Id) : Nat := (s.audit x).foldl (fun n e => max n e.sequence) 0

/-- `max(sequence)` over an execution's steps, 0 when it has none. -/
def lastStep (s : State D) (x : Id) : Nat := (s.steps x).foldl (fun n e => max n e.sequence) 0

def insertStep (s : State D) (x : Id) (row : ExecutionStep) : State D :=
  { s with
    steps := Function.update s.steps x
      ((s.steps x).orderedInsert (fun a b => a.sequence ≤ b.sequence) row) }

end State
end SafeOps
