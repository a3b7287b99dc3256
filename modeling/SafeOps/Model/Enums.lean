import Mathlib.Logic.Basic

/-! The enumerations of the application's models, restricted to the members its
services read or write. -/

namespace SafeOps

inductive RiskLevel
  | low | medium | high | critical
  deriving DecidableEq, Repr

def RiskLevel.value : RiskLevel → String
  | low => "LOW" | medium => "MEDIUM" | high => "HIGH" | critical => "CRITICAL"

inductive IntegrationType
  | generic | mcp
  deriving DecidableEq, Repr

def IntegrationType.value : IntegrationType → String
  | generic => "GENERIC" | mcp => "MCP"

inductive ExternalActionStatus
  | received | validated | processing | waitingApproval | executed | blocked | failed
  deriving DecidableEq, Repr

def ExternalActionStatus.value : ExternalActionStatus → String
  | received => "RECEIVED" | validated => "VALIDATED" | processing => "PROCESSING"
  | waitingApproval => "WAITING_APPROVAL" | executed => "EXECUTED" | blocked => "BLOCKED"
  | failed => "FAILED"

/-- `_TERMINAL_STATUSES` of the external-action service. -/
def ExternalActionStatus.Terminal (s : ExternalActionStatus) : Prop :=
  s = executed ∨ s = blocked ∨ s = failed

instance : DecidablePred ExternalActionStatus.Terminal := fun s => by
  unfold ExternalActionStatus.Terminal; infer_instance

inductive ExecutionStatus
  | created | running | waitingApproval | completed | failed | blocked | cancelled
  deriving DecidableEq, Repr

def ExecutionStatus.value : ExecutionStatus → String
  | created => "CREATED" | running => "RUNNING" | waitingApproval => "WAITING_APPROVAL"
  | completed => "COMPLETED" | failed => "FAILED" | blocked => "BLOCKED" | cancelled => "CANCELLED"

/-- `TERMINAL_EXECUTION_STATUSES`, and equally `NON_EXECUTABLE_STATUSES` of the gateway. -/
def ExecutionStatus.Terminal (s : ExecutionStatus) : Prop :=
  s = completed ∨ s = failed ∨ s = blocked ∨ s = cancelled

instance : DecidablePred ExecutionStatus.Terminal := fun s => by
  unfold ExecutionStatus.Terminal; infer_instance

inductive ApprovalStatus
  | pending | approved | rejected | expired | executed
  deriving DecidableEq, Repr

def ApprovalStatus.value : ApprovalStatus → String
  | pending => "PENDING" | approved => "APPROVED" | rejected => "REJECTED"
  | expired => "EXPIRED" | executed => "EXECUTED"

inductive AuditEventType
  | executionStarted | toolRequested | permissionChecked | policyEvaluationStarted | policyMatched
  | policyAllowed | policyApprovalRequired | policyBlocked | actionAllowed | actionDenied
  | approvalRequested | approvalApproved | approvalRejected | approvalExpired
  | approvedActionExecutionStarted | approvedActionExecuted | approvedActionFailed
  | riskAssessmentStarted | riskSignalDetected | riskAssessed | riskEscalated
  | actionBlockedByRisk | securityIncidentCreated | toolExecuted | toolFailed
  | executionCompleted | executionStepStarted | executionStepCompleted
  | executionWaitingApproval | executionResumed | executionBlocked | executionFailed
  | executionCancelled | executionStatusAlreadyTerminal
  | externalRequestReceived | externalActionCompleted
  deriving DecidableEq, Repr

inductive PermissionType
  | allow | deny | conditional
  deriving DecidableEq, Repr

inductive PolicyAction
  | allow | requireApproval | block
  deriving DecidableEq, Repr

inductive ToolRequestStatus
  | requested | executed | denied | failed | requiresApproval
  deriving DecidableEq, Repr

inductive StepType
  | toolCall | final
  deriving DecidableEq, Repr

inductive StepStatus
  | pending | completed | waitingApproval | blocked | failed
  deriving DecidableEq, Repr

end SafeOps
