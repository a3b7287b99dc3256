import SafeOps.Services.ToolGateway

/-! `app/services/agent_runtime.py`: the stepping lease, the planner loop and the
finalisation of steps. -/

namespace SafeOps
open Concurrent

variable {W : World}

inductive RuntimeStatus
  | created | notFound | noop | conflict | executed | waitingApproval | blocked | failed
  | completed | cancelled
  deriving DecidableEq, Repr

/-- An `executionStatus` of `none` is the text "UNKNOWN". -/
structure RuntimeResult where
  status : RuntimeStatus
  executionStatus : Option ExecutionStatus := none
  executionId : Option Id := none
  reason : Option String := none
  toolName : Option String := none
  approvalRequestId : Option Id := none
  stepSequence : Option Nat := none

/-- `_ResolvedApprovalOutcome`. -/
structure ResolvedApprovalOutcome where
  status : RuntimeStatus
  reason : Option String
  shouldContinue : Bool

namespace AgentRuntime

def readOnlyTools : List String :=
  ["read_customer", "get_payments", "get_support_ticket", "read_logs", "get_deployment"]

def event (seq : Nat) (eventType : AuditEventType) (metadata : List (String × Value)) : AuditEvent :=
  ⟨seq, eventType, "agent-runtime", metadata⟩

/-- A chunk of one event. -/
def eventRows (executionId : Id) (eventType : AuditEventType) (metadata : List (String × Value))
    (seq : Nat) : Txn where
  executionId := executionId
  audit := [event seq eventType metadata]

/-- `execution.status` as the session reads it again after a commit. -/
def currentStatus (executionId : Id) : Db W (Option ExecutionStatus) := do
  let execution : Option Execution ← query (.execution executionId)
  pure (execution.map (·.status))

def notFound (reason : String) : RuntimeResult := { status := .notFound, reason := some reason }

def noop (status : ExecutionStatus) (reason : String) : RuntimeResult :=
  { status := .noop, executionStatus := some status, reason := some reason }

/-- `_conflict_result`. -/
def conflictResult (status : Option ExecutionStatus) : RuntimeResult where
  status := .conflict
  executionStatus := status
  reason := some "Another step is already in progress for this execution"

def startGuard : StatusGuard where
  expected := .created
  new := .running

/-- The new row of `start_execution`; a context that is no dict counts as empty. -/
def newExecution (agentId : Id) (objective : String) (context : Option Value) : Execution where
  agentId := agentId
  objective := objective
  status := .created
  initialContext := match context with
    | some (.dict entries) => Value.jsonSafe (.dict entries)
    | _ => .dict []

def startedRows (executionId : Id) (actor objective : String) (seq : Nat) : Txn where
  executionId := executionId
  audit := [⟨seq, .executionStarted, actor, [("objective", .str objective)]⟩]

def startExecution (agentId : Id) (objective : String) (context : Option Value) :
    Db W RuntimeResult := do
  let agent : Option Agent ← query (.agent agentId)
  match agent with
  | none => pure (notFound "Agent not found")
  | some agent => do
    let executionId : Id ← write (.insertExecution (newExecution agentId objective context))
    commitRows executionId fun _ seq => pure (.guarded startGuard
      (startedRows executionId agent.name objective seq)
      (pure (startedRows executionId agent.name objective seq)))
    let status ← currentStatus executionId
    pure { status := .created, executionStatus := status, executionId := some executionId }

/-- `_claim_step`; `none` when another step took the sequence number. -/
def claimStep (executionId : Id) (stepType : StepType) (input : StepInput) :
    Db W (Option ExecutionStep) := do
  let last : Nat ← query (.stepSequence executionId)
  let step : ExecutionStep := { sequence := last + 1, stepType, status := .pending, input }
  let inserted : Bool ← write (.insertStep executionId step)
  pure (if inserted then some step else none)

/-- What `_finalize` records about a step. -/
structure Finalization where
  executionId : Id
  step : StepUpdate
  eventType : AuditEventType
  metadata : List (String × Value)

/-- The rows of `_finalize.build_rows` with the event it was asked for. -/
def Finalization.rows (f : Finalization) (seq : Nat) : Txn where
  executionId := f.executionId
  audit := [event seq f.eventType f.metadata]
  step := some f.step

/-- The rows when the terminal update matched no row: the event describes the status found. -/
def Finalization.alreadyTerminalRows (f : Finalization) (attempted actual : ExecutionStatus)
    (seq : Nat) : Txn where
  executionId := f.executionId
  audit := [event seq .executionStatusAlreadyTerminal (f.metadata ++
    [("attempted_status", .str attempted.value), ("actual_status", .str actual.value)])]
  step := some f.step

def terminalGuard (status : ExecutionStatus) (completedAt : Time) : StatusGuard where
  expected := .running
  new := status
  completedAt := some completedAt

/-- `_finalize` without a terminal status. -/
def finalize (executionId : Id) (sequence : Nat) (status : StepStatus) (output : StepOutput)
    (eventType : AuditEventType) (metadata : List (String × Value))
    (toolRequestId : Option Id := none) : Db W Unit := do
  let completedAt ← clock
  commitChunk executionId
    (Finalization.rows
      ⟨executionId, ⟨sequence, status, output, completedAt, toolRequestId⟩, eventType, metadata⟩)

/-- `_finalize` with a terminal status, which it sets only on a `RUNNING` execution. -/
def finalizeTerminal (executionId : Id) (sequence : Nat) (status : StepStatus) (output : StepOutput)
    (eventType : AuditEventType) (metadata : List (String × Value)) (terminal : ExecutionStatus)
    (toolRequestId : Option Id := none) : Db W Unit := do
  let completedAt ← clock
  let f : Finalization :=
    ⟨executionId, ⟨sequence, status, output, completedAt, toolRequestId⟩, eventType, metadata⟩
  commitRows executionId fun _ seq => pure (.guarded (terminalGuard terminal completedAt) (f.rows seq) do
    let execution : Option Execution ← query (.execution executionId)
    match execution with
    | some row => pure (f.alreadyTerminalRows terminal row.status seq)
    | none => .raise .other)

/-- `_persist_step_only`. -/
def persistStepOnly (executionId : Id) (sequence : Nat) (status : StepStatus) (output : StepOutput)
    (toolRequestId : Option Id) : Db W Unit := do
  let completedAt ← clock
  write (.saveStep executionId ⟨sequence, status, output, completedAt, toolRequestId⟩)

def stepMetadata (sequence : Nat) (rest : List (String × Value) := []) : List (String × Value) :=
  ("step_sequence", .int sequence) :: rest

/-- A `None` reason is the JSON null. -/
def optionalText : Option String → Value
  | some text => .str text
  | none => .null

/-- The context with which the runtime calls the gateway. -/
def gatewayContext (action : ToolAction) : Value :=
  .dict [("sources", .list (action.sources.map Source.modelDump))]

def gatewayCall (executionId agentId : Id) (action : ToolAction) : GatewayCall where
  agentId := agentId
  executionId := executionId
  toolName := action.toolName
  arguments := action.arguments

/-- The part of `_run_tool_call_step` that finalises the step with the gateway's result. -/
def recordResult (executionId : Id) (action : ToolAction) (step : ExecutionStep)
    (result : GatewayResult) (toolRequestId : Option Id) : Db W RuntimeResult := do
  let output := result.modelDump
  let metadata (rest : List (String × Value)) :=
    stepMetadata step.sequence (("tool_name", .str action.toolName) :: rest)
  let reason := ("reason", optionalText result.reason)
  let base : RuntimeResult :=
    { status := .failed, toolName := some action.toolName, stepSequence := some step.sequence }
  match result.status with
  | .executed => do
    finalize executionId step.sequence .completed output .executionStepCompleted (metadata [])
      toolRequestId
    let status ← currentStatus executionId
    pure { base with status := .executed, executionStatus := status }
  | .requiresApproval => do
    finalize executionId step.sequence .waitingApproval output .executionWaitingApproval
      (metadata [("approval_request_id", (result.approvalRequestId.map Value.id).getD .null)])
      toolRequestId
    let status ← currentStatus executionId
    pure { base with
      status := .waitingApproval
      executionStatus := status
      approvalRequestId := result.approvalRequestId }
  | .blocked => do
    finalizeTerminal executionId step.sequence .blocked output .executionBlocked (metadata [reason])
      .blocked toolRequestId
    let status ← currentStatus executionId
    pure { base with status := .blocked, executionStatus := status, reason := result.reason }
  | .failed => do
    finalizeTerminal executionId step.sequence .failed output .executionFailed (metadata [reason])
      .failed toolRequestId
    let status ← currentStatus executionId
    pure { base with status := .failed, executionStatus := status, reason := result.reason }

/-- `_run_tool_call_step`; `retries` is 1 where the source allows the one retry of a read-only
tool, and 0 within that retry. -/
def runToolCallStep (executionId agentId : Id) (action : ToolAction) :
    Nat → ExecutionStep → Db W RuntimeResult
  | 0, step => do
    let result ← ToolGateway.execute (gatewayCall executionId agentId action)
      (some (gatewayContext action))
    let toolRequestId : Option Id ← query (.newestToolRequest executionId action.toolName)
    recordResult executionId action step result toolRequestId
  | retries + 1, step => do
    let result ← ToolGateway.execute (gatewayCall executionId agentId action)
      (some (gatewayContext action))
    let toolRequestId : Option Id ← query (.newestToolRequest executionId action.toolName)
    if result.status = .failed ∧ action.toolName ∈ readOnlyTools then do
      persistStepOnly executionId step.sequence .failed result.modelDump toolRequestId
      let retryStep ← claimStep executionId .toolCall
        { step.input with retryOfSequence := some step.sequence }
      match retryStep with
      | some retryStep => runToolCallStep executionId agentId action retries retryStep
      | none => recordResult executionId action step result toolRequestId
    else recordResult executionId action step result toolRequestId

def maxStepsReason : String := "Execution exceeded MAX_EXECUTION_STEPS"

/-- Claims the final step of an execution and ends the execution with it. -/
def finalStep (executionId : Id) (decision reason : String) (code : Option String)
    (status : StepStatus) (eventType : AuditEventType) (metadata : Nat → List (String × Value))
    (terminal : ExecutionStatus) (result : RuntimeStatus) : Db W RuntimeResult := do
  let step ← claimStep executionId .final
    { decision := some decision, reason := some reason, code := code }
  match step with
  | none => do
    let current ← currentStatus executionId
    pure (conflictResult current)
  | some step => do
    finalizeTerminal executionId step.sequence status { reason := some reason, code := code }
      eventType (metadata step.sequence) terminal
    let current ← currentStatus executionId
    pure
      { status := result
        executionStatus := current
        reason := some reason
        stepSequence := some step.sequence }

/-- `_fail_max_steps_exceeded`. -/
def failMaxStepsExceeded (executionId : Id) (history : List ExecutionStep) :
    Db W (Option RuntimeResult) :=
  if history.length < W.maxExecutionSteps then pure none
  else do
    let result ← finalStep executionId "FAIL" maxStepsReason (some "MAX_STEPS_EXCEEDED") .failed
      .executionFailed
      (fun sequence => stepMetadata sequence
        [("reason", .str maxStepsReason), ("code", .str "MAX_STEPS_EXCEEDED")])
      .failed .failed
    pure (some result)

/-- A tool action's step: claimed, announced in the log, and run. -/
def toolCallStep (executionId agentId : Id) (action : ToolAction) : Db W RuntimeResult := do
  let step ← claimStep executionId .toolCall
    { toolName := some action.toolName
      arguments := some action.arguments.jsonSafe
      reason := some action.reason
      sources := action.sources.map Source.modelDump }
  match step with
  | none => do
    let current ← currentStatus executionId
    pure (conflictResult current)
  | some step => do
    commitChunk executionId (eventRows executionId .executionStepStarted
      (stepMetadata step.sequence [("tool_name", .str action.toolName)]))
    runToolCallStep executionId agentId action 1 step

/-- What the runtime makes of the planner's answer. -/
def plannerDecision : PlannerOutcome → PlannerDecision
  | .decision d => d
  | .raised => .fail "Planner raised an unexpected error" "PLANNER_ERROR"
  | .malformed => .fail "Planner returned an unrecognized decision type" "PLANNER_MALFORMED_OUTPUT"

/-- `_advance`. -/
def advance (executionId : Id) (execution : Execution) : Db W RuntimeResult := do
  let history : List ExecutionStep ← query (.history executionId)
  let exceeded ← failMaxStepsExceeded executionId history
  match exceeded with
  | some result => pure result
  | none =>
    match plannerDecision (W.nextAction executionId execution history) with
    | .complete reason =>
      finalStep executionId "COMPLETE" reason none .completed .executionCompleted
        (fun _ => [("reason", .str reason)]) .completed .completed
    | .fail reason code =>
      finalStep executionId "FAIL" reason (some code) .failed .executionFailed
        (fun _ => [("reason", .str reason), ("code", .str code)]) .failed .failed
    | .toolAction action => toolCallStep executionId execution.agentId action

/-- `_release_stepping`. -/
def releaseStepping (executionId claimId : Id) : Db W Unit :=
  write (.releaseStepping executionId claimId)

/-- `_claim_stepping`: the new claim id, unless somebody else holds a fresh lease, and the refreshed
row. -/
def claimStepping (executionId : Id) : Db W (Option Id × Execution) := do
  let claimId ← freshId
  let now ← clock
  let claimed : Bool ← write (.claimStepping executionId claimId now W.leaseTtl)
  let execution : Option Execution ← query (.execution executionId)
  match execution with
  | none => .raise .other
  | some execution => pure (if claimed then some claimId else none, execution)

/-- The critical section of the lease: `body` between `_claim_stepping` and the release in `finally`.
`conflict` is the answer when the lease is held. -/
def withStepping {α : Type} (executionId : Id) (conflict : Execution → α)
    (body : Execution → Db W α) : Db W α := do
  let (claim, execution) ← claimStepping executionId
  match claim with
  | some claimId => (body execution).tryFinally (releaseStepping executionId claimId)
  | none => pure (conflict execution)

/-- The two checks for `RUNNING`, before and after the lease is claimed. -/
def whileRunning (executionId : Id) (verb : String) (body : Execution → Db W RuntimeResult) :
    Db W RuntimeResult := do
  let execution : Option Execution ← query (.execution executionId)
  let cannot (status : ExecutionStatus) := noop status s!"Execution is {status.value}, cannot {verb}"
  match execution with
  | none => pure (notFound "Execution not found")
  | some execution =>
    if execution.status ≠ .running then pure (cannot execution.status)
    else
      withStepping executionId (fun execution => conflictResult execution.status) fun execution =>
        if execution.status ≠ .running then pure (cannot execution.status) else body execution

def step (executionId : Id) : Db W RuntimeResult :=
  whileRunning executionId "step" (advance executionId)

/-- `db.get` of the approval a row names, if it names one. -/
def approvalNamed : Option Id → Db W (Option ApprovalRequest)
  | some approvalId => query (.approval approvalId)
  | none => pure none

/-- `_resolve_pending_step`. -/
def resolvePendingStep (executionId : Id) (step : ExecutionStep) :
    Db W ResolvedApprovalOutcome := do
  let stepOutput := step.output.getD {}
  let approval ← approvalNamed stepOutput.approvalRequestId
  match approval with
  | none => pure ⟨.noop, some "Approval not yet resolved", false⟩
  | some approval =>
    match approval.status with
    | .pending => pure ⟨.noop, some "Approval not yet resolved", false⟩
    | .rejected => do
      let _toolRequest : Option ToolRequest ← query (.toolRequest approval.toolRequestId)
      finalizeTerminal executionId step.sequence .blocked
        { stepOutput with resolution := some "REJECTED" } .executionBlocked
        (stepMetadata step.sequence [("reason", .str "Approval rejected")]) .blocked
      pure ⟨.blocked, some "Approval rejected", false⟩
    | .expired => do
      let _toolRequest : Option ToolRequest ← query (.toolRequest approval.toolRequestId)
      finalizeTerminal executionId step.sequence .failed
        { stepOutput with resolution := some "EXPIRED" } .executionFailed
        (stepMetadata step.sequence [("reason", .str "Approval expired")]) .failed
      pure ⟨.failed, some "Approval expired", false⟩
    | .executed => do
      let toolRequest : Option ToolRequest ← query (.toolRequest approval.toolRequestId)
      let toolRequestId := toolRequest.map fun _ => approval.toolRequestId
      let output : StepOutput :=
        { stepOutput with
          resolution := some "EXECUTED"
          toolResult := toolRequest.bind (·.result) }
      if toolRequest.any (·.status = .executed) then do
        finalize executionId step.sequence .completed output .executionStepCompleted
          (stepMetadata step.sequence) toolRequestId
        pure ⟨.completed, none, true⟩
      else do
        finalizeTerminal executionId step.sequence .failed output .executionFailed
          (stepMetadata step.sequence [("reason", .str "Approved action failed")]) .failed toolRequestId
        pure ⟨.failed, some "Approved action failed", false⟩
    | .approved => do
      let _toolRequest : Option ToolRequest ← query (.toolRequest approval.toolRequestId)
      pure ⟨.noop, some "Approval approved but not finished executing yet", false⟩

/-- Settles the pending approval step, if there is one, and announces it in the log. -/
def settlePendingStep (executionId : Id) (pendingStep : ExecutionStep) :
    Db W ResolvedApprovalOutcome := do
  let outcome ← resolvePendingStep executionId pendingStep
  if outcome.status = .noop then pure outcome
  else do
    commitChunk executionId (eventRows executionId .executionResumed
      (stepMetadata pendingStep.sequence))
    pure outcome

/-- The result of a call that ends with the settled step. -/
def settledResult (executionId : Id) (execution : Execution) (pendingStep : ExecutionStep)
    (outcome : ResolvedApprovalOutcome) : Db W RuntimeResult := do
  let result (status : Option ExecutionStatus) : RuntimeResult :=
    { status := outcome.status
      executionStatus := status
      reason := outcome.reason
      stepSequence := some pendingStep.sequence }
  if outcome.status = .noop then pure (result (some execution.status))
  else do
    let status ← currentStatus executionId
    pure (result status)

/-- `resume` within the lease. -/
def resumePending (executionId : Id) (execution : Execution) : Db W RuntimeResult := do
  let pendingStep : Option ExecutionStep ← query (.pendingApprovalStep executionId)
  match pendingStep with
  | none => pure (noop execution.status "No pending approval step to resume from")
  | some pendingStep => do
    let outcome ← settlePendingStep executionId pendingStep
    if outcome.shouldContinue then do
      let execution : Option Execution ← query (.execution executionId)
      match execution with
      | some execution => advance executionId execution
      | none => .raise .other
    else settledResult executionId execution pendingStep outcome

/-- `resume`. Its extra answer for a waiting execution differs from that of `step` in its text
only. -/
def resume (executionId : Id) : Db W RuntimeResult := do
  let execution : Option Execution ← query (.execution executionId)
  match execution with
  | none => pure (notFound "Execution not found")
  | some execution =>
    if execution.status = .waitingApproval then
      pure (noop execution.status "Still waiting for approval")
    else if execution.status ≠ .running then
      pure (noop execution.status s!"Execution is {execution.status.value}, cannot resume")
    else
      withStepping executionId (fun execution => conflictResult execution.status) fun execution =>
        if execution.status ≠ .running then
          pure (noop execution.status s!"Execution is {execution.status.value}, cannot resume")
        else resumePending executionId execution

def cancel (executionId : Id) : Db W RuntimeResult := do
  let execution : Option Execution ← query (.execution executionId)
  match execution with
  | none => pure (notFound "Execution not found")
  | some execution => do
    let now ← clock
    let transitioned : Bool ← write (.cancel executionId now)
    let refreshed : Option Execution ← query (.execution executionId)
    let status := refreshed.elim execution.status (·.status)
    if transitioned then do
      commitChunk executionId (eventRows executionId .executionCancelled [])
      let status ← currentStatus executionId
      pure { status := .cancelled, executionStatus := status }
    else pure (noop status s!"Cannot cancel execution in status {status.value}")

/-- `submit_external_action` within the lease. -/
def submitWithin (executionId : Id) (action : ToolAction) (execution : Execution) :
    Db W RuntimeResult := do
  let history : List ExecutionStep ← query (.history executionId)
  let exceeded ← failMaxStepsExceeded executionId history
  match exceeded with
  | some result => pure result
  | none => toolCallStep executionId execution.agentId action

def submitExternalAction (executionId : Id) (action : ToolAction) : Db W RuntimeResult :=
  whileRunning executionId "accept action" (submitWithin executionId action)

/-- `reconcile_external_step` within the lease. -/
def reconcilePending (executionId : Id) (execution : Execution) : Db W RuntimeResult := do
  let pendingStep : Option ExecutionStep ← query (.pendingApprovalStep executionId)
  match pendingStep with
  | none => pure (noop execution.status "No pending approval step to reconcile")
  | some pendingStep => do
    let outcome ← settlePendingStep executionId pendingStep
    settledResult executionId execution pendingStep outcome

/-- The answer of `reconcile_external_step`, and whether the call committed anything, which
expires the rows its caller has loaded. -/
structure Reconciliation where
  result : RuntimeResult
  committed : Bool

def reconcileExternalStep (executionId : Id) : Db W Reconciliation := do
  let execution : Option Execution ← query (.execution executionId)
  match execution with
  | none => pure ⟨notFound "Execution not found", false⟩
  | some execution =>
    if execution.status ≠ .running ∧ execution.status ≠ .waitingApproval then
      pure ⟨noop execution.status s!"Execution is {execution.status.value}, nothing to reconcile",
        false⟩
    else
      withStepping executionId (fun execution => ⟨conflictResult execution.status, true⟩)
        fun execution => do
          let result ← reconcilePending executionId execution
          pure ⟨result, true⟩

end AgentRuntime
end SafeOps
