import SafeOps.Services.ToolGateway

/-! `app/services/approval_engine.py`: resolving an approval request, once, and running the
approved action. -/

namespace SafeOps
open Concurrent

variable {W : World}

/-- The authenticated operator who resolves an approval. -/
structure Operator where
  id : Id
  username : String

inductive ApprovalActionStatus
  | notFound | alreadyResolved | invalidState | rejected | executed | failed
  deriving DecidableEq, Repr

structure ApprovalActionResult where
  status : ApprovalActionStatus
  approvalId : Option Id := none
  approvalStatus : Option ApprovalStatus := none
  toolResult : Option Value := none
  reason : Option String := none

namespace ApprovalEngine

def event (seq : Nat) (eventType : AuditEventType) (actor : String)
    (metadata : List (String × Value)) : AuditEvent :=
  ⟨seq, eventType, actor, metadata⟩

/-- The rows of `build_expiry_rows`, from the tool request and the execution it sees. -/
def expiryRows (approvalId : Id) (approval : ApprovalRequest) (now : Time)
    (toolRequest : Option ToolRequest) (execution : Option Execution) (seq : Nat) : Txn where
  executionId := approval.executionId
  audit := [event seq .approvalExpired "system"
    [("approval_id", .id approvalId), ("tool_name", .str approval.toolName)]]
  toolRequest := match toolRequest with
    | some request =>
      if request.executionId = approval.executionId ∧ request.status = .requiresApproval then
        some (.update approval.toolRequestId
          (ToolGateway.closed .denied now ⟨"APPROVAL_EXPIRED", "Approval request expired"⟩))
      else none
    | none => none
  resume := match execution with
    | some execution => execution.status = .waitingApproval
    | none => false

/-- `_lazy_expire`, with the status the caller then finds on the approval. -/
def lazyExpire (approvalId : Id) (approval : ApprovalRequest) (now : Time) :
    Db W ApprovalStatus := do
  if approval.status ≠ .pending ∨ now < approval.expiresAt then pure approval.status
  else do
    let expired : Bool ← write (.expireApproval approvalId now)
    let refreshed : Option ApprovalRequest ← query (.approval approvalId)
    if expired then do
      let toolRequest : Option ToolRequest ← query (.toolRequest approval.toolRequestId)
      let execution : Option Execution ← query (.execution approval.executionId)
      commitRows approval.executionId fun attempt seq =>
        if attempt = 0 then
          pure (.plain (expiryRows approvalId approval now toolRequest execution seq))
        else do
          let toolRequest : Option ToolRequest ← query (.toolRequest approval.toolRequestId)
          let execution : Option Execution ← query (.execution approval.executionId)
          pure (.plain (expiryRows approvalId approval now toolRequest execution seq))
      let reread : Option ApprovalRequest ← query (.approval approvalId)
      pure (reread.elim approval.status (·.status))
    else pure (refreshed.elim approval.status (·.status))

/-- The rows of `build_rejection_rows`. -/
def rejectionRows (approvalId : Id) (approval : ApprovalRequest) (operator : Operator)
    (now : Time) (error : ToolError) (seq : Nat) : Txn where
  executionId := approval.executionId
  audit := [event seq .approvalRejected operator.username
    [("approval_id", .id approvalId), ("tool_name", .str approval.toolName),
      ("actor_type", .str "operator"), ("actor_id", .id operator.id)]]
  toolRequest := some (.update approval.toolRequestId (ToolGateway.closed .denied now error))
  resume := true

/-- The rows of `build_outcome_rows`. -/
def outcomeRows (approvalId : Id) (approval : ApprovalRequest) (agentName : String)
    (result : Option Value) (error : Option ToolError) (success : Bool) (now : Time) (seq : Nat) :
    Txn where
  executionId := approval.executionId
  audit := [event seq (if success then .approvedActionExecuted else .approvedActionFailed) agentName
    (("tool_name", .str approval.toolName) :: (error.map fun e => ("error", e.dump)).toList)]
  toolRequest := some (.update approval.toolRequestId
    { status := if success then .executed else .failed
      completedAt := some now
      result := some result
      error := some error })
  approval := some (.executed approvalId now)
  resume := true

/-- `_finalize_execution_outcome`. -/
def finalizeExecutionOutcome (approvalId : Id) (approval : ApprovalRequest) (agentName : String)
    (success : Bool) (error : Option ToolError) (result : Option Value) :
    Db W ApprovalActionResult := do
  let now ← clock
  commitChunk approval.executionId
    (outcomeRows approvalId approval agentName result error success now)
  pure
    { status := if success then .executed else .failed
      approvalId := some approvalId
      approvalStatus := some .executed
      toolResult := result
      reason := error.map (·.message) }

/-- `_execute_approved_action`. -/
def executeApprovedAction (approvalId : Id) (approval : ApprovalRequest) (agentName : String) :
    Db W ApprovalActionResult := do
  commitChunk approval.executionId fun seq =>
    { executionId := approval.executionId
      audit := [event seq .approvedActionExecutionStarted agentName
        [("tool_name", .str approval.toolName)]] }
  match W.registry approval.toolName with
  | none =>
    finalizeExecutionOutcome approvalId approval agentName false
      (some ⟨"TOOL_NOT_FOUND", "Approved tool is no longer registered"⟩) none
  | some tool => do
    let outcome : Option ToolResult ←
      ((callTool tool ⟨approval.executionId, approval.toolRequestId, some approvalId,
        approval.toolName, approval.approvedArguments⟩).bind fun r => .ret (some r)).tryCatch
        fun _ => pure none
    match outcome with
    | none =>
      finalizeExecutionOutcome approvalId approval agentName false (some toolExecutionError) none
    | some result =>
      if result.success then
        finalizeExecutionOutcome approvalId approval agentName true none result.data
      else
        finalizeExecutionOutcome approvalId approval agentName false
          (some (result.error.getD ⟨"UNKNOWN", ""⟩)) none

def alreadyResolved (approvalId : Id) (status : ApprovalStatus) : ApprovalActionResult where
  status := .alreadyResolved
  approvalId := some approvalId
  approvalStatus := some status
  reason := some s!"Approval request is already {status.value}"

/-- The execution and tool request an approval may be resolved for. -/
def Approvable (approval : ApprovalRequest) (toolRequest : Option ToolRequest)
    (execution : Option Execution) : Prop :=
  ∃ request row, toolRequest = some request ∧ execution = some row ∧
    request.status = .requiresApproval ∧ row.status = .waitingApproval ∧
    request.executionId = approval.executionId

def approvable (approval : ApprovalRequest) (toolRequest : Option ToolRequest)
    (execution : Option Execution) : Bool :=
  match toolRequest, execution with
  | some request, some row =>
    request.status = .requiresApproval ∧ row.status = .waitingApproval ∧
      request.executionId = approval.executionId
  | _, _ => false

theorem approvable_iff {approval : ApprovalRequest} {toolRequest : Option ToolRequest}
    {execution : Option Execution} :
    approvable approval toolRequest execution = true ↔ Approvable approval toolRequest execution := by
  cases toolRequest <;> cases execution <;> simp [approvable, Approvable]

/-- Text that a `jsonb` column holds. -/
def Storable (text : String) : Prop := '\x00' ∉ text.toList

instance (text : String) : Decidable (Storable text) := inferInstanceAs (Decidable (_ ∉ _))

/-- The message of a rejection. -/
def rejectionMessage (rejectionReason : Option String) : String :=
  match rejectionReason with
  | some reason => if reason = "" then "Rejected by approver" else reason
  | none => "Rejected by approver"

/-- What `_resolve` does once its claim has moved the approval out of `PENDING`. -/
def resolveClaimed (approvalId : Id) (approval : ApprovalRequest) (operator : Operator)
    (approve : Bool) (rejectionReason : Option String) (now : Time) :
    Db W ApprovalActionResult := do
  let agent : Option Agent ← query (.agent approval.agentId)
  if approve then do
    commitChunk approval.executionId fun seq =>
      { executionId := approval.executionId
        audit := [event seq .approvalApproved operator.username
          [("approval_id", .id approvalId), ("tool_name", .str approval.toolName),
            ("actor_type", .str "operator"), ("actor_id", .id operator.id)]] }
    executeApprovedAction approvalId approval (agent.elim "unknown-agent" (·.name))
  else if Storable (rejectionMessage rejectionReason) then do
    commitChunk approval.executionId
      (rejectionRows approvalId approval operator now ⟨"APPROVAL_REJECTED", rejectionMessage rejectionReason⟩)
    pure
      { status := .rejected
        approvalId := some approvalId
        approvalStatus := some .rejected }
  else
    -- the database refuses the tool request's error, with a `DataError` that `commit_chunk` does not catch
    .raise .other

/-- `_resolve` from its claim on. -/
def claimAndResolve (approvalId : Id) (approval : ApprovalRequest) (operator : Operator)
    (approve : Bool) (rejectionReason : Option String) (now : Time) :
    Db W ApprovalActionResult := do
  let claimed : Bool ← write (.claimApproval approvalId (if approve then .approved else .rejected)
    now operator.username)
  let refreshed : Option ApprovalRequest ← query (.approval approvalId)
  if claimed then resolveClaimed approvalId approval operator approve rejectionReason now
  else pure (alreadyResolved approvalId (refreshed.elim approval.status (·.status)))

/-- `_resolve`. -/
def resolve (approvalId : Id) (operator : Operator) (approve : Bool)
    (rejectionReason : Option String := none) : Db W ApprovalActionResult := do
  let approval : Option ApprovalRequest ← query (.approval approvalId)
  match approval with
  | none => pure { status := .notFound, reason := some "Approval request not found" }
  | some approval => do
    let now ← clock
    let status ← lazyExpire approvalId approval now
    if status ≠ .pending then pure (alreadyResolved approvalId status)
    else do
      let toolRequest : Option ToolRequest ← query (.toolRequest approval.toolRequestId)
      let execution : Option Execution ← query (.execution approval.executionId)
      if approvable approval toolRequest execution then
        claimAndResolve approvalId approval operator approve rejectionReason now
      else
        pure
          { status := .invalidState
            approvalId := some approvalId
            reason := some "Execution or tool request is not in an approvable state" }

def approve (approvalId : Id) (operator : Operator) : Db W ApprovalActionResult :=
  resolve approvalId operator true

def reject (approvalId : Id) (operator : Operator) (reason : Option String) :
    Db W ApprovalActionResult :=
  resolve approvalId operator false reason

end ApprovalEngine
end SafeOps
