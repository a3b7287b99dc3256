import SafeOps.Services.Audit
import SafeOps.Services.RiskEngine
import SafeOps.Services.PolicyEngine

/-! `app/services/tool_gateway.py`: permission, policy, risk, approval, and only then the
tool; and `app/tools/base.py`. -/

namespace SafeOps
open Concurrent

variable {W : World}

structure ToolResult where
  success : Bool
  data : Option Value := none
  error : Option ToolError := none

def BaseTool.execute (tool : BaseTool W.Tables) (arguments : Value) : Db W ToolResult :=
  match tool.validationError arguments with
  | some message => pure { success := false, error := some ⟨"INVALID_ARGUMENTS", message⟩ }
  | none =>
    (((tool.run arguments).embed (S := W.statements) Op.tool fun _ r => r).bind fun data =>
      .ret { success := true, data := some data }).tryCatch fun
      | .toolExecutionError code message => pure { success := false, error := some ⟨code, message⟩ }
      | .other => .raise .other

def clock : Db W Time := query .clock

def freshId : Db W Id := write .freshId

/-- A tool call, observed as it begins. -/
def callTool (tool : BaseTool W.Tables) (call : ToolCall) : Db W ToolResult := do
  note (.toolExecute call)
  tool.execute call.arguments

/-- The error recorded for a tool that raised. -/
def toolExecutionError : ToolError :=
  ⟨"TOOL_EXECUTION_ERROR", "Tool execution raised an unexpected error"⟩

def ToolError.dump (e : ToolError) : Value :=
  .dict [("code", .str e.code), ("message", .str e.message)]

/-- `_INCIDENT_TYPE_PRIORITY`, which lists every member of `IncidentType`. -/
def incidentTypePriority : List String :=
  ["PROMPT_INJECTION", "PRIVILEGE_ESCALATION", "DATA_EXFILTRATION", "DESTRUCTIVE_ACTION",
    "SCOPE_DEVIATION", "SENSITIVE_DATA_ACCESS", "EXTERNAL_COMMUNICATION", "FINANCIAL_RISK",
    "UNUSUAL_TOOL_SEQUENCE"]

def approvalExpiry : Time := 15 * 60 * 1000000

/-- `ApprovalEngine.create_approval`, at clock reading `now`. -/
def createApproval (executionId agentId toolRequestId policyDecisionId : Id) (toolName : String)
    (arguments : Value) (riskLevel : RiskLevel) (reason : String) (now : Time) : ApprovalRequest where
  executionId := executionId
  agentId := agentId
  toolRequestId := toolRequestId
  policyDecisionId := policyDecisionId
  toolName := toolName
  approvedArguments := arguments
  riskLevel := riskLevel
  reason := reason
  status := .pending
  expiresAt := now + approvalExpiry

namespace ToolGateway

/-- A gateway call past its checks: the JSON-safe call and the rows it has loaded. -/
structure Admitted (W : World) where
  call : GatewayCall
  actor : String
  objective : String
  tool : BaseTool W.Tables
  toolRow : Tool
  named : toolRow.name = call.toolName
  context : Option Value
  /-- The key of the pending `ToolRequest`. -/
  requestId : Id

namespace Admitted

def toolCall (g : Admitted W) : ToolCall where
  executionId := g.call.executionId
  toolRequestId := g.requestId
  approvalId := none
  toolName := g.call.toolName
  arguments := g.call.arguments

def event (g : Admitted W) (seq : Nat) (eventType : AuditEventType)
    (metadata : List (String × Value) := []) : AuditEvent where
  sequence := seq
  eventType := eventType
  actor := g.actor
  metadata := ("tool_name", .str g.call.toolName) :: metadata

/-- A chunk of the call's execution. -/
def txn (g : Admitted W) (audit : List AuditEvent) (toolRequest : Option ToolRequestUpdate := none) :
    Txn where
  executionId := g.call.executionId
  audit := audit
  toolRequest := toolRequest.map (.update g.requestId)

end Admitted

/-- The policy's decision about a call, with the policy that made it. -/
structure Ruling where
  policyDecisionId : Id
  action : PolicyAction
  reason : String
  matchedPolicy : Option String := none
  policyId : Option Id := none

/-- A recorded failure or denial of the tool request. -/
def closed (status : ToolRequestStatus) (now : Time) (error : ToolError) : ToolRequestUpdate where
  status := status
  completedAt := some now
  error := some (some error)

/-- `build_exception_rows` and `build_failure_rows`. -/
def failureRows (g : Admitted W) (now : Time) (error : ToolError) (seq : Nat) : Txn :=
  g.txn [g.event seq .toolFailed [("error", error.dump)]] (closed .failed now error)

def successRows (g : Admitted W) (now : Time) (data : Option Value) (seq : Nat) : Txn :=
  g.txn [g.event seq .toolExecuted]
    (some { status := .executed, completedAt := some now, result := some data })

/-- `_execute_and_record`; `base` carries the decision and the risk of the result. -/
def executeAndRecord (g : Admitted W) (base : GatewayResult) : Db W GatewayResult := do
  let outcome : Option ToolResult ←
    ((callTool g.tool g.toolCall).bind fun r => .ret (some r)).tryCatch fun _ => pure none
  let completedAt ← clock
  match outcome with
  | none => do
    commitChunk g.call.executionId (failureRows g completedAt toolExecutionError)
    pure { base with status := .failed, reason := some toolExecutionError.message }
  | some result =>
    if result.success then do
      commitChunk g.call.executionId (successRows g completedAt result.data)
      pure { base with status := .executed, toolResult := result.data }
    else do
      let error := result.error.getD ⟨"UNKNOWN", ""⟩
      commitChunk g.call.executionId (failureRows g completedAt error)
      pure { base with status := .failed, reason := some error.message }

/-- The rows of `_create_approval_and_commit.build_rows` once the execution has moved from
`RUNNING` to `WAITING_APPROVAL`. -/
def approvalRows (g : Admitted W) (escalated : Bool) (approvalId : Id) (approval : ApprovalRequest)
    (requestedAt : Time) (seq : Nat) : Txn :=
  let requested (seq : Nat) := g.event seq .approvalRequested [("approval_id", .id approvalId)]
  let audit :=
    if escalated then [g.event seq .riskEscalated, requested (seq + 1)] else [requested seq]
  { g.txn audit (some { status := .requiresApproval, completedAt := some requestedAt }) with
    approval := some (.insert approvalId approval) }

def admitApproval : StatusGuard where
  expected := .running
  new := .waitingApproval

def createApprovalAndCommit (g : Admitted W) (ruling : Ruling) (reason : String) (escalated : Bool)
    (base : GatewayResult) : Db W GatewayResult := do
  let approvalRequestedAt ← clock
  let approvalId ← freshId
  let now ← clock
  let approval := createApproval g.call.executionId g.call.agentId g.requestId
    ruling.policyDecisionId g.call.toolName g.call.arguments g.toolRow.riskCategory reason now
  let committed : Bool ←
    ((commitRows g.call.executionId fun _ seq => pure
      (.guarded admitApproval (approvalRows g escalated approvalId approval approvalRequestedAt seq)
        (.raise .approvalStateConflict))).bind fun _ => .ret true).tryCatch fun
      | .approvalStateConflict => pure false
      | e => .raise e
  if committed then
    pure { base with
      status := .requiresApproval
      decision := some .requireApproval
      reason := some reason
      approvalRequestId := some approvalId }
  else
    pure { base with
      status := .failed
      decision := some .requireApproval
      reason := some "Execution is already waiting for approval" }

/-- The type of incident a risk block is filed under, if it is filed. -/
def incidentTypeName (signals : List String) : Option String :=
  (incidentTypePriority.find? (· ∈ signals)).or signals.head?

def riskBlockError (risk : RiskAssessmentResult) : ToolError :=
  ⟨"RISK_BLOCKED", s!"Blocked by risk engine (score={risk.riskScore})"⟩

def riskBlockRows (g : Admitted W) (risk : RiskAssessmentResult) (escalated : Bool) (now : Time)
    (seq : Nat) : Txn :=
  let blockedAt := if escalated then seq + 1 else seq
  let escalation := if escalated then [g.event seq .riskEscalated] else []
  let incident := match incidentTypeName risk.signals with
    | some name => [g.event (blockedAt + 1) .securityIncidentCreated [("incident_type", .str name)]]
    | none => []
  g.txn (escalation ++ g.event blockedAt .actionBlockedByRisk [("risk_score", .int risk.riskScore)] ::
      incident)
    (closed .denied now (riskBlockError risk))

/-- `_finalize_risk_block`. A signal that names no `IncidentType` makes the builder raise. -/
def finalizeRiskBlock (g : Admitted W) (risk : RiskAssessmentResult) (escalated : Bool)
    (base : GatewayResult) : Db W GatewayResult := do
  commitRows g.call.executionId fun _ seq => do
    let now ← clock
    if (incidentTypeName risk.signals).all (· ∈ incidentTypePriority) then
      pure (.plain (riskBlockRows g risk escalated now seq))
    else .raise .other
  pure { base with
    status := .blocked
    decision := some .block
    reason := some (riskBlockError risk).message }

/-- `build_risk_rows`. -/
def riskRows (g : Admitted W) (risk : RiskAssessmentResult) (seq : Nat) : Txn :=
  let signals := (risk.signals.zipIdx (seq + 1)).map fun p =>
    g.event p.2 .riskSignalDetected [("signal", .str p.1)]
  g.txn (g.event seq .riskAssessmentStarted :: signals ++
    [g.event (seq + 1 + risk.signals.length) .riskAssessed
      [("risk_score", .int risk.riskScore), ("risk_level", .str risk.riskLevel.value)]])

/-- What the gateway assumes when the assessment itself raises. -/
def failedAssessment : RiskAssessmentResult where
  riskScore := 100
  riskLevel := .critical
  signals := []
  reasonCodes := ["RISK_ASSESSMENT_ERROR"]
  recommendedAction := .block

def escalationReason (risk : RiskAssessmentResult) : String :=
  let codes := if risk.reasonCodes.isEmpty then ["RISK_ESCALATION"] else risk.reasonCodes
  "Escalated by Risk Engine: " ++ ", ".intercalate codes

/-- `_assess_risk_and_finalize`. -/
def assessRiskAndFinalize (g : Admitted W) (ruling : Ruling) : Db W GatewayResult := do
  let risk : RiskAssessmentResult ←
    (RiskEngine.assess g.call.executionId g.objective g.toolRow.name g.call.arguments
      g.context).tryCatch fun _ => pure failedAssessment
  note (.riskAssessed risk.recommendedAction)
  commitChunk g.call.executionId (riskRows g risk)
  let finalDecision := combineDecisions ruling.action risk.recommendedAction
  let escalated : Bool := finalDecision ≠ ruling.action
  let base : GatewayResult :=
    { status := .failed
      toolName := some g.call.toolName
      matchedPolicy := ruling.matchedPolicy
      policyId := ruling.policyId
      riskScore := some risk.riskScore
      riskLevel := some risk.riskLevel
      riskSignals := some risk.signals }
  match finalDecision with
  | .block => finalizeRiskBlock g risk escalated base
  | .requireApproval =>
    createApprovalAndCommit g ruling (if escalated then escalationReason risk else ruling.reason)
      escalated base
  | .allow => do
    commitChunk g.call.executionId fun seq => g.txn [g.event seq .actionAllowed]
    executeAndRecord g { base with decision := some .allow }

/-- `_policy_outcome_rows`. -/
def policyOutcomeRows (g : Admitted W) (result : PolicyEvaluationResult)
    (terminalEvent : AuditEventType) (update : ToolRequestUpdate) (seq : Nat) : Txn :=
  let terminal (seq : Nat) := g.event seq terminalEvent [("reason", .str result.reason)]
  match result.matchedPolicy with
  | some key =>
    if key = "" then g.txn [terminal seq] update
    else g.txn [g.event seq .policyMatched [("matched_policy", .str key)], terminal (seq + 1)] update
  | none => g.txn [terminal seq] update

/-- The new `ToolRequest` of a call, not yet completed. -/
def pendingRequest (call : GatewayCall) (toolRow : Tool) : ToolRequest where
  executionId := call.executionId
  agentId := call.agentId
  toolId := some toolRow.id
  toolName := call.toolName
  arguments := call.arguments
  status := .requested

/-- The first chunk of a permitted call, which inserts its pending `ToolRequest`. -/
def permissionRows (g : Admitted W) (audit : List AuditEvent) : Txn :=
  { g.txn audit with toolRequest := some (.insert g.requestId (pendingRequest g.call g.toolRow)) }

def permissionEvent (g : Admitted W) (seq : Nat) (permission : String) : AuditEvent :=
  g.event seq .permissionChecked [("permission", .str permission)]

def policyEvaluationError : String := "POLICY_EVALUATION_ERROR: policy evaluation failed"

/-- The policy result of `_handle_conditional`: an exception out of `evaluate` blocks. -/
def policyResult (g : Admitted W) (agent : Agent) : Db W PolicyEvaluationResult :=
  (PolicyEngine.evaluate g.call.agentId agent g.toolRow g.call.arguments g.call.executionId).tryCatch
    fun _ => pure (PolicyEngine.blocked policyEvaluationError)

/-- `_handle_conditional`. -/
def handleConditional (g : Admitted W) (agent : Agent) : Db W GatewayResult := do
  commitChunk g.call.executionId fun seq =>
    permissionRows g [permissionEvent g seq "CONDITIONAL", g.event (seq + 1) .policyEvaluationStarted]
  let result ← policyResult g agent
  note (.policyEvaluated result.decision)
  if result.decision = .block then do
    commitRows g.call.executionId fun _ seq => do
      let now ← clock
      pure (.plain (policyOutcomeRows g result .policyBlocked
        (closed .denied now ⟨"POLICY_BLOCKED", result.reason⟩) seq))
    pure
      { status := .blocked
        toolName := some g.call.toolName
        decision := some .block
        reason := some result.reason
        matchedPolicy := result.matchedPolicy
        policyId := result.policyId }
  else do
    let policyDecisionId ← freshId
    commitChunk g.call.executionId (policyOutcomeRows g result
      (if result.decision = .allow then .policyAllowed else .policyApprovalRequired)
      { status := .requested })
    assessRiskAndFinalize g
      ⟨policyDecisionId, result.decision, result.reason, result.matchedPolicy, result.policyId⟩

/-- `_handle_direct_allow`. -/
def handleDirectAllow (g : Admitted W) : Db W GatewayResult := do
  commitChunk g.call.executionId fun seq => permissionRows g [permissionEvent g seq "ALLOW"]
  let policyDecisionId ← freshId
  assessRiskAndFinalize g
    { policyDecisionId, action := .allow, reason := "Direct permission ALLOW" }

def failed (toolName reason : String) : GatewayResult :=
  { status := .failed, toolName := some toolName, reason := some reason }

/-- A `ToolRequest` that is complete when it is inserted: `audit` says why at each sequence
number. -/
def refuse (call : GatewayCall) (toolRow : Option Tool) (status : ToolRequestStatus)
    (error : ToolError) (audit : Nat → List AuditEvent) : Db W Unit := do
  let requestId ← freshId
  commitRows call.executionId fun _ seq => do
    let now ← clock
    let request : ToolRequest :=
      { executionId := call.executionId
        agentId := call.agentId
        toolId := toolRow.map (·.id)
        toolName := call.toolName
        arguments := call.arguments
        status := status
        completedAt := some now
        error := some error }
    pure (.plain
      { executionId := call.executionId
        audit := audit seq
        toolRequest := some (.insert requestId request) })

/-- The agent's permission row for the tool; a tool without a row has none. -/
def permissionFor (agentId : Id) : Option Tool → Db W (Option PermissionType)
  | some row => query (.permission agentId row.id)
  | none => pure none

/-- The part of `execute` after the status guards, with JSON-safe arguments. -/
def executeAdmitted (call : GatewayCall) (context : Option Value) (agent : Agent)
    (objective : String) : Db W GatewayResult := do
  let event (seq : Nat) (eventType : AuditEventType) (metadata : List (String × Value)) : AuditEvent :=
    ⟨seq, eventType, agent.name, metadata⟩
  commitChunk call.executionId fun seq =>
    { executionId := call.executionId
      audit := [event seq .toolRequested
        [("tool_name", .str call.toolName), ("arguments", call.arguments)]] }
  match W.registry call.toolName with
  | none => do
    refuse call none .failed ⟨"TOOL_NOT_FOUND", s!"No tool named '{call.toolName}'"⟩ fun seq =>
      [event seq .toolFailed [("reason", .str "unknown tool")]]
    pure (failed call.toolName "Unknown tool")
  | some tool => do
    let found : Option (ToolNamed call.toolName) ← query (.tool call.toolName)
    let toolRow := found.map Subtype.val
    match tool.validationError call.arguments with
    | some message => do
      refuse call toolRow .failed ⟨"INVALID_ARGUMENTS", message⟩ fun seq =>
        [event seq .toolFailed [("reason", .str "invalid arguments")]]
      pure (failed call.toolName "Invalid arguments")
    | none => do
      let permission ← permissionFor call.agentId toolRow
      match found, permission with
      | some row, some .conditional => do
        let requestId ← freshId
        handleConditional
          ⟨call, agent.name, objective, tool, row.1, row.2, context, requestId⟩ agent
      | some row, some .allow => do
        let requestId ← freshId
        handleDirectAllow
          ⟨call, agent.name, objective, tool, row.1, row.2, context, requestId⟩
      | _, _ => do
        refuse call toolRow .denied ⟨"PERMISSION_DENIED", "Agent does not have permission"⟩ fun seq =>
          [event seq .permissionChecked
              [("tool_name", .str call.toolName), ("permission", .str "DENY")],
            event (seq + 1) .actionDenied [("tool_name", .str call.toolName)]]
        pure
          { status := .blocked
            toolName := some call.toolName
            decision := some .deny
            reason := some "Agent does not have permission" }

/-- `execute` between the two notes. -/
def executeGuarded (call : GatewayCall) (context : Option Value) : Db W GatewayResult := do
  let agent : Option Agent ← query (.agent call.agentId)
  match agent with
  | none => pure (failed call.toolName "Agent not found")
  | some agent => do
    let execution : Option Execution ← query (.execution call.executionId)
    match execution with
    | none => pure (failed call.toolName "Execution not found")
    | some execution =>
      if execution.agentId ≠ call.agentId then
        pure (failed call.toolName "Execution does not belong to this agent")
      else if execution.status.Terminal then
        pure (failed call.toolName
          s!"Execution is {execution.status.value} and cannot accept new tool calls")
      else if execution.status = .waitingApproval then
        pure (failed call.toolName
          "Execution is waiting for approval and cannot accept new tool calls")
      else
        executeAdmitted { call with arguments := call.arguments.jsonSafe } context agent
          execution.objective

/-- Closes a gateway call that raised. -/
def raised (error : Failure) : Db W GatewayResult := do
  note .gatewayRaise
  .raise error

/-- `ToolGateway.execute`, its beginning and its end observed. -/
def execute (call : GatewayCall) (context : Option Value) : Db W GatewayResult := do
  note (.gatewayEnter call)
  let result ← (executeGuarded call context).tryCatch raised
  note (.gatewayReturn result.status)
  pure result

end ToolGateway
end SafeOps
