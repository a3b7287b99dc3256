import SafeOps.Services.AgentRuntime

/-! `app/services/external_action_service.py`: idempotent submission of actions by
integrations. -/

namespace SafeOps
open Concurrent

variable {W : World}

structure SourceInput where
  type : String
  content : String

structure SubmitActionRequest where
  integrationType : IntegrationType := .generic
  externalRequestId : String
  externalAgentId : Option String := none
  safeopsAgentId : Id
  executionId : Option Id := none
  toolName : String
  arguments : Value
  objective : Option String := none
  sources : List SourceInput := []

inductive ActionStatus
  | executed | requiresApproval | blocked | failed | processing
  deriving DecidableEq, Repr

structure ActionResponse where
  status : ActionStatus
  code : Option String
  message : String
  externalRequestId : String
  executionId : Id
  approvalRequestId : Option Id
  result : Option Value

structure ActionStatusResponse where
  externalRequestId : String
  status : ExternalActionStatus
  executionId : Id
  approvalRequestId : Option Id
  toolName : String
  result : Option Value
  errorCode : Option String
  completedAt : Option Time

/-- A column the ORM flushes only when it differs from the value loaded. -/
def changed {α : Type} [DecidableEq α] (loaded new : α) : Option α :=
  if new = loaded then none else some new

def changedValue : Option Value → Option Value → Option (Option Value)
  | none, none => none
  | some a, some b => if b.same a then none else some (some b)
  | _, new => some new

namespace ExternalActionService

/-- `_require_agent_mapping`. -/
def requireAgentMapping (operatorId agentId : Id) : Db W Agent := do
  let agent : Option Agent ← query (.agent agentId)
  match agent with
  | none => .raise (.externalAction 404 "UNKNOWN_AGENT" "no such SafeOps agent")
  | some agent => do
    let mapped : Bool ← query (.mapping operatorId agentId)
    if mapped then pure agent
    else .raise (.externalAction 403 "AGENT_MAPPING_DENIED"
      "this integration is not authorized to act as the requested SafeOps agent")

/-- `_normalize_sources`: whatever is submitted is untrusted. -/
def normalizeSources (sources : List SourceInput) : List Source :=
  sources.map fun s => ⟨s.type, .untrusted, s.content⟩

def payload (request : SubmitActionRequest) : ActionPayload where
  safeopsAgentId := request.safeopsAgentId
  executionId := request.executionId
  toolName := request.toolName
  arguments := request.arguments
  objective := request.objective
  sources := request.sources.map fun s => (s.type, s.content)

/-- `_check_hash_or_conflict`. -/
def checkHashOrConflict (existing : ExternalActionRequest) (payloadHash : String) : Db W Unit :=
  if existing.payloadHash ≠ payloadHash then
    .raise (.externalAction 409 "IDEMPOTENCY_CONFLICT"
      "external_request_id was already used with a different payload")
  else pure ()

def toActionResponse (row : ExternalActionRequest) : ActionResponse where
  status := match row.status with
    | .executed => .executed
    | .waitingApproval => .requiresApproval
    | .blocked => .blocked
    | .failed => .failed
    | _ => .processing
  code := row.errorCode
  message := match row.status with
    | .executed => "Action executed."
    | .waitingApproval => "Human approval required."
    | .blocked => "Action blocked by SafeOps."
    | .failed => "Action failed."
    | _ => "Action is still processing."
  externalRequestId := row.externalRequestId
  executionId := row.executionId
  approvalRequestId := row.approvalRequestId
  result := row.resultSummary

def toStatusResponse (row : ExternalActionRequest) : ActionStatusResponse where
  externalRequestId := row.externalRequestId
  status := row.status
  executionId := row.executionId
  approvalRequestId := row.approvalRequestId
  toolName := row.toolName
  result := row.resultSummary
  errorCode := row.errorCode
  completedAt := row.completedAt

/-- The metadata both of the service's events share. -/
def metadata (row : ExternalActionRequest) (rest : List (String × Value) := []) :
    List (String × Value) :=
  [("integration_principal_id", .id row.operatorId),
    ("external_request_id", .str row.externalRequestId), ("tool_name", .str row.toolName)] ++ rest

/-- `_emit_audit`. -/
def emitAudit (executionId : Id) (eventType : AuditEventType) (metadata : List (String × Value)) :
    Db W Unit :=
  commitChunk executionId fun seq =>
    { executionId := executionId
      audit := [⟨seq, eventType, "external-action-service", metadata⟩] }

/-- The row as the session loads it again. -/
def reload (row : ExternalActionRequest) : Db W ExternalActionRequest := do
  let current : Option ExternalActionRequest ←
    query (.externalRequest row.operatorId row.externalRequestId)
  pure (current.getD row)

def update (row : ExternalActionRequest) (columns : ExternalActionUpdate) : Db W Unit :=
  write (.updateExternalRequest row.operatorId row.externalRequestId columns)

/-- Flushes the columns, refreshes the row, and announces a terminal status in the log; the
result is the row as it is then loaded. -/
def flushOutcome (row : ExternalActionRequest) (columns : ExternalActionUpdate) :
    Db W ExternalActionRequest := do
  update row columns
  let refreshed ← reload row
  if refreshed.status.Terminal then do
    emitAudit refreshed.executionId .externalActionCompleted
      (metadata refreshed [("outcome", .str refreshed.status.value)])
    reload refreshed
  else pure refreshed

/-- The status of a request whose step reached `status`, and its error code if it gets one. -/
def stepOutcome : StepStatus → Option (ExternalActionStatus × Option String)
  | .completed => some (.executed, none)
  | .waitingApproval => some (.waitingApproval, none)
  | .blocked => some (.blocked, some "ACTION_BLOCKED")
  | .failed => some (.failed, some "TOOL_EXECUTION_FAILED")
  | .pending => none

/-- The columns `_sync_from_step` changes on the row it has loaded. -/
def syncColumns (row : ExternalActionRequest) (step : ExecutionStep) : ExternalActionUpdate :=
  let output := step.output.getD {}
  let status := ((stepOutcome step.status).map Prod.fst).getD row.status
  let errorCode := (stepOutcome step.status).bind Prod.snd
  { status := changed row.status status
    toolRequestId := changed row.toolRequestId step.toolRequestId
    approvalRequestId :=
      if step.status = .waitingApproval ∧ output.approvalRequestId.isSome then
        changed row.approvalRequestId output.approvalRequestId
      else none
    resultSummary :=
      if step.status = .completed then changedValue row.resultSummary output.toolResult else none
    errorCode := if errorCode.isSome then changed row.errorCode errorCode else none
    completedAt := if status.Terminal then changed row.completedAt step.completedAt else none }

/-- `_sync_from_step`. -/
def syncFromStep (row : ExternalActionRequest) (step : ExecutionStep) :
    Db W ExternalActionRequest :=
  flushOutcome row (syncColumns row step)

/-- `_find_matching_step`. -/
def findMatchingStep (row : ExternalActionRequest) : Db W (Option ExecutionStep) :=
  query (.matchingStep row.executionId row.toolName)

/-- The row as the session holds it after a call that may have expired it. -/
def reloadIf (expired : Bool) (row : ExternalActionRequest) : Db W ExternalActionRequest :=
  if expired then reload row else pure row

/-- `_reconcile_if_resolved`, with the row as it is then loaded. -/
def reconcileIfResolved (existing : ExternalActionRequest) : Db W ExternalActionRequest := do
  let approval ← AgentRuntime.approvalNamed existing.approvalRequestId
  match approval with
  | none => pure existing
  | some approval =>
    if approval.status = .pending then pure existing
    else do
      let reconciled ← AgentRuntime.reconcileExternalStep existing.executionId
      let row ← reloadIf reconciled.committed existing
      let step ← findMatchingStep row
      match step with
      | some step => syncFromStep row step
      | none => pure row

/-- The status and the other columns drawn from the runtime's answer; `none` for the answers
that leave the request at `PROCESSING`. -/
def resultColumns (result : RuntimeResult) : Option (ExternalActionStatus × ExternalActionUpdate) :=
  match result.status with
  | .executed => some (.executed, { status := some .executed })
  | .waitingApproval => some (.waitingApproval,
      { status := some .waitingApproval
        approvalRequestId := result.approvalRequestId.map some })
  | .blocked => some (.blocked, { status := some .blocked, errorCode := some (some "ACTION_BLOCKED") })
  | .failed =>
    some (.failed, { status := some .failed, errorCode := some (some "TOOL_EXECUTION_FAILED") })
  | _ => none

/-- The columns added from the matching step, against the row `loaded`. -/
def withStepColumns (columns : ExternalActionUpdate) (status : ExternalActionStatus)
    (loaded : ExternalActionRequest) (step : ExecutionStep) : ExternalActionUpdate :=
  { columns with
    toolRequestId := changed loaded.toolRequestId step.toolRequestId
    resultSummary :=
      match step.status, step.output with
      | .completed, some output => changedValue loaded.resultSummary output.toolResult
      | _, _ => none
    completedAt := if status.Terminal then changed loaded.completedAt step.completedAt else none }

def processingConflict : Failure :=
  .externalAction 503 "ACTION_PROCESSING_CONFLICT"
    "this execution is busy; retry with the same external_request_id"

/-- The row becomes `PROCESSING`, unless the session has just loaded it as such. -/
def markProcessing (row : ExternalActionRequest) (loaded : Bool) : Db W Unit :=
  if loaded = true ∧ row.status = .processing then pure ()
  else update row { status := some .processing }

/-- The first half of `_invoke_and_apply`, up to the answer of the runtime. -/
def invoke (row : ExternalActionRequest) (loaded : Bool) (arguments : Value)
    (sources : List Source) : Db W RuntimeResult := do
  markProcessing row loaded
  AgentRuntime.submitExternalAction row.executionId
    { toolName := row.toolName
      arguments := arguments
      reason := s!"External action via {row.integrationType.value} integration"
      sources := sources }

/-- `_invoke_and_apply`; `loaded` says whether the session holds an unexpired `row`. -/
def invokeAndApply (row : ExternalActionRequest) (loaded : Bool) (arguments : Value)
    (sources : List Source) : Db W ActionResponse := do
  let result ← invoke row loaded arguments sources
  match resultColumns result with
  | none => .raise processingConflict
  | some (status, columns) => do
    let current ← reload row
    let step ← findMatchingStep row
    let columns := match step with
      | some step => withStepColumns columns status current step
      | none => columns
    let final ← flushOutcome row columns
    pure (toActionResponse final)

/-- `_resolve_existing`. -/
def resolveExisting (existing : ExternalActionRequest) (arguments : Value) (sources : List Source) :
    Db W ActionResponse :=
  if existing.status.Terminal then pure (toActionResponse existing)
  else if existing.status = .waitingApproval then do
    let row ← reconcileIfResolved existing
    pure (toActionResponse row)
  else do
    let step ← findMatchingStep existing
    match step with
    | some step => do
      let row ← syncFromStep existing step
      pure (toActionResponse row)
    | none => invokeAndApply existing true arguments sources

/-- A retry, once its row has been found. -/
def retry (existing : ExternalActionRequest) (request : SubmitActionRequest) (payloadHash : String) :
    Db W ActionResponse := do
  checkHashOrConflict existing payloadHash
  resolveExisting existing request.arguments (normalizeSources request.sources)

/-- The execution a first submission belongs to: the one it names, or a new one. -/
def requestedExecution (request : SubmitActionRequest) : Db W Id :=
  match request.executionId with
  | some executionId => do
    let execution : Option Execution ← query (.execution executionId)
    if execution.any (·.agentId = request.safeopsAgentId) then pure executionId
    else .raise (.externalAction 404 "UNKNOWN_EXECUTION" "execution not found for this agent")
  | none => do
    let objective := match request.objective with
      | some objective =>
        if objective = "" then "External action: " ++ request.toolName else objective
      | none => "External action: " ++ request.toolName
    let started ← AgentRuntime.startExecution request.safeopsAgentId objective
      (some (.dict [("integration_type", .str request.integrationType.value),
        ("external_agent_id", AgentRuntime.optionalText request.externalAgentId)]))
    match started.executionId with
    | some executionId => pure executionId
    | none => .raise .other

/-- The row a first submission inserts. -/
def newRequest (operatorId executionId : Id) (request : SubmitActionRequest) (payloadHash : String) :
    ExternalActionRequest where
  operatorId := operatorId
  externalRequestId := request.externalRequestId
  integrationType := request.integrationType
  safeopsAgentId := request.safeopsAgentId
  executionId := executionId
  toolName := request.toolName
  payloadHash := payloadHash
  status := .received

def submit (operatorId : Id) (request : SubmitActionRequest) : Db W ActionResponse := do
  let _agent ← requireAgentMapping operatorId request.safeopsAgentId
  let payloadHash := W.hashPayload (payload request)
  let existing : Option ExternalActionRequest ←
    query (.externalRequest operatorId request.externalRequestId)
  match existing with
  | some existing => retry existing request payloadHash
  | none => do
    let executionId ← requestedExecution request
    let row := newRequest operatorId executionId request payloadHash
    let inserted : Bool ← write (.insertExternalRequest row)
    if inserted then do
      emitAudit executionId .externalRequestReceived (metadata row)
      invokeAndApply row false request.arguments (normalizeSources request.sources)
    else do
      let existing : Option ExternalActionRequest ←
        query (.externalRequest operatorId request.externalRequestId)
      match existing with
      | some existing => retry existing request payloadHash
      | none => .raise .integrityError

def getStatus (operatorId : Id) (externalRequestId : String) : Db W ActionStatusResponse := do
  let existing : Option ExternalActionRequest ← query (.externalRequest operatorId externalRequestId)
  match existing with
  | none =>
    .raise (.externalAction 404 "UNKNOWN_ACTION" "no action found for this external_request_id")
  | some existing =>
    if existing.status = .waitingApproval then do
      let row ← reconcileIfResolved existing
      pure (toStatusResponse row)
    else pure (toStatusResponse existing)

end ExternalActionService
end SafeOps
