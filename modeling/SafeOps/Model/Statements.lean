import SafeOps.Concurrent.Program
import SafeOps.Model.Tables

/-! What the services ask of the database, each request one atomic step: a SELECT sees the
committed rows of its moment, a transaction takes effect when it commits. -/

namespace SafeOps
open Concurrent

/-- The reading statements, and the clock. -/
inductive Query
  | clock
  | faults
  | agent (agentId : Id)
  | execution (executionId : Id)
  | approval (approvalId : Id)
  | toolRequest (toolRequestId : Id)
  | tool (name : String)
  | permission (agentId toolId : Id)
  | policies (toolId : Id)
  | mapping (operatorId agentId : Id)
  | customerDataRead (executionId : Id)
  | auditSequence (executionId : Id)
  | history (executionId : Id)
  | stepSequence (executionId : Id)
  | pendingApprovalStep (executionId : Id)
  | matchingStep (executionId : Id) (toolName : String)
  | newestToolRequest (executionId : Id) (toolName : String)
  | externalRequest (operatorId : Id) (externalRequestId : String)

/-- The answer to `select max(sequence)`, which opens the transaction of a chunk. -/
structure AuditTail where
  sequence : Nat
  startedAt : Time

@[reducible] def Query.Reply : Query → Type
  | clock => Time
  | faults => Faults
  | agent _ => Option Agent
  | execution _ => Option Execution
  | approval _ => Option ApprovalRequest
  | toolRequest _ => Option ToolRequest
  | tool name => Option (ToolNamed name)
  | permission _ _ => Option PermissionType
  | policies _ => List Policy
  | mapping _ _ => Bool
  | customerDataRead _ => Bool
  | auditSequence _ => AuditTail
  | history _ => List ExecutionStep
  | stepSequence _ => Nat
  | pendingApprovalStep _ => Option ExecutionStep
  | matchingStep _ _ => Option ExecutionStep
  | newestToolRequest _ _ => Option Id
  | externalRequest _ _ => Option ExternalActionRequest

/-- `CUSTOMER_DATA_READ_TOOLS`. -/
def customerDataReadTools : List String := ["read_customer", "get_payments", "get_support_ticket"]

/-- The last of the steps in `WAITING_APPROVAL`. -/
def pendingApprovalStep (steps : List ExecutionStep) : Option ExecutionStep :=
  steps.reverse.find? fun step => step.status = .waitingApproval

/-- The loop of `_find_matching_step`: the last tool-call step for the tool that is not
`PENDING`. -/
def findMatchingStep (steps : List ExecutionStep) (toolName : String) : Option ExecutionStep :=
  steps.reverse.find? fun step =>
    step.stepType = .toolCall ∧ step.input.toolName = some toolName ∧ step.status ≠ .pending

namespace State

variable {D : Type}

/-- The keys under which the execution has tool requests for one of `names`. -/
def toolRequestKeys (s : State D) (x : Id) (names : List String) : List (Id × ToolRequest) :=
  (List.range s.nextId).filterMap fun r =>
    match s.toolRequests r with
    | some row => if row.executionId = x ∧ row.toolName ∈ names then some (r, row) else none
    | none => none

/-- `order_by(requested_at.desc()).limit(1)`. -/
def newestToolRequest (s : State D) (x : Id) (toolName : String) : Option Id :=
  ((s.toolRequestKeys x [toolName]).foldl (fun best p =>
    match best with
    | some b => if b.2.requestedAt ≤ p.2.requestedAt then some p else some b
    | none => some p) none).map Prod.fst

def answer (s : State D) : (q : Query) → q.Reply
  | .clock => s.now
  | .faults => s.faults
  | .agent i => s.directory.agents i
  | .execution x => s.executions x
  | .approval a => s.approvals a
  | .toolRequest r => s.toolRequests r
  | .tool name => s.directory.tools name
  | .permission i t => s.directory.permissions i t
  | .policies t => s.directory.policies.filter fun p => p.toolId = some t ∧ p.enabled
  | .mapping o i => s.directory.mappings o i
  | .customerDataRead x => !(s.toolRequestKeys x customerDataReadTools).isEmpty
  | .auditSequence x => ⟨s.lastSequence x, s.now⟩
  | .history x => s.steps x
  | .stepSequence x => s.lastStep x
  | .pendingApprovalStep x => SafeOps.pendingApprovalStep (s.steps x)
  | .matchingStep x name => findMatchingStep (s.steps x) name
  | .newestToolRequest x name => s.newestToolRequest x name
  | .externalRequest o k => s.externalRequests o k

end State

/-- Columns of a tool request that a flush writes; `none` leaves a column alone. -/
structure ToolRequestUpdate where
  status : ToolRequestStatus
  completedAt : Option Time := none
  result : Option (Option Value) := none
  error : Option (Option ToolError) := none

def ToolRequestUpdate.apply (u : ToolRequestUpdate) (row : ToolRequest) : ToolRequest :=
  { row with
    status := u.status
    completedAt := u.completedAt <|> row.completedAt
    result := u.result.getD row.result
    error := u.error.getD row.error }

/-- Columns of a step that a flush writes; a `toolRequestId` of `none` is left alone. -/
structure StepUpdate where
  sequence : Nat
  status : StepStatus
  output : StepOutput
  completedAt : Time
  toolRequestId : Option Id := none

def StepUpdate.apply (u : StepUpdate) (row : ExecutionStep) : ExecutionStep :=
  { row with
    status := u.status
    output := some u.output
    completedAt := some u.completedAt
    toolRequestId := u.toolRequestId <|> row.toolRequestId }

/-- Columns of an external request that a flush writes; `none` leaves a column alone. -/
structure ExternalActionUpdate where
  status : Option ExternalActionStatus := none
  toolRequestId : Option (Option Id) := none
  approvalRequestId : Option (Option Id) := none
  resultSummary : Option (Option Value) := none
  errorCode : Option (Option String) := none
  completedAt : Option (Option Time) := none

def ExternalActionUpdate.apply (u : ExternalActionUpdate) (row : ExternalActionRequest) :
    ExternalActionRequest :=
  { row with
    status := u.status.getD row.status
    toolRequestId := u.toolRequestId.getD row.toolRequestId
    approvalRequestId := u.approvalRequestId.getD row.approvalRequestId
    resultSummary := u.resultSummary.getD row.resultSummary
    errorCode := u.errorCode.getD row.errorCode
    completedAt := u.completedAt.getD row.completedAt }

inductive ToolRequestWrite
  | insert (toolRequestId : Id) (row : ToolRequest)
  | update (toolRequestId : Id) (columns : ToolRequestUpdate)

inductive ApprovalWrite
  | insert (approvalId : Id) (row : ApprovalRequest)
  | executed (approvalId : Id) (executedAt : Time)

/-- The rows of one chunk: audit events, and the other rows flushed with them. `resume` is the
ORM assignment `execution.status = RUNNING`. -/
structure Txn where
  executionId : Id
  audit : List AuditEvent
  toolRequest : Option ToolRequestWrite := none
  approval : Option ApprovalWrite := none
  step : Option StepUpdate := none
  resume : Bool := false

/-- A conditional `UPDATE executions SET status = new WHERE status = expected`. -/
structure StatusGuard where
  expected : ExecutionStatus
  new : ExecutionStatus
  completedAt : Option Time := none

def StatusGuard.apply (g : StatusGuard) (row : Execution) : Execution :=
  { row with status := g.new, completedAt := g.completedAt <|> row.completedAt }

/-- One round of `commit_chunk`: its number in the loop, and the start of its transaction. -/
structure Attempt where
  number : Nat
  startedAt : Time

/-- How a commit ends: `collision` is the unique constraint on (execution, sequence) of the
audit log, `violation` a primary key that is already taken. Both roll back. -/
inductive CommitOutcome
  | committed | collision | violation
  deriving DecidableEq, Repr

inductive GuardedOutcome
  | guardLost | finished (outcome : CommitOutcome)
  deriving DecidableEq, Repr

namespace State

variable {D : Type}

/-- A sequence number of the chunk is in the log already, or occurs twice in the chunk. -/
def Collides (s : State D) (t : Txn) : Prop :=
  ¬((s.audit t.executionId ++ t.audit).map (·.sequence)).Nodup

instance (s : State D) (t : Txn) : Decidable (s.Collides t) :=
  inferInstanceAs (Decidable (¬_))

/-- The chunk inserts a row under a primary key that is already taken. -/
def Violates (s : State D) (t : Txn) : Prop :=
  (∃ r row, t.toolRequest = some (.insert r row) ∧ s.toolRequests r ≠ none) ∨
    ∃ a row, t.approval = some (.insert a row) ∧ s.approvals a ≠ none

def violates (s : State D) (t : Txn) : Bool :=
  (match t.toolRequest with
    | some (.insert r _) => (s.toolRequests r).isSome
    | _ => false) ||
  match t.approval with
    | some (.insert a _) => (s.approvals a).isSome
    | _ => false

theorem violates_iff (s : State D) (t : Txn) : s.violates t = true ↔ s.Violates t := by
  simp only [violates, Violates, Bool.or_eq_true, ← Option.isSome_iff_ne_none]
  refine or_congr ?_ ?_ <;> split <;> simp_all

instance (s : State D) (t : Txn) : Decidable (s.Violates t) :=
  decidable_of_iff _ (s.violates_iff t)

def writeToolRequest (startedAt : Time) : Option ToolRequestWrite → State D → State D
  | none, s => s
  | some (.insert r row), s =>
    { s with toolRequests := Function.update s.toolRequests r (some { row with requestedAt := startedAt }) }
  | some (.update r u), s => s.modifyToolRequest r u.apply

def writeApproval : Option ApprovalWrite → State D → State D
  | none, s => s
  | some (.insert a row), s => { s with approvals := Function.update s.approvals a (some row) }
  | some (.executed a now), s =>
    s.modifyApproval a fun row => { row with status := .executed, executedAt := some now }

def writeStep (x : Id) : Option StepUpdate → State D → State D
  | none, s => s
  | some u, s => s.modifyStep x u.sequence u.apply

def writeResume (x : Id) : Bool → State D → State D
  | false, s => s
  | true, s => s.modifyExecution x fun row => { row with status := .running }

def appendAudit (x : Id) (events : List AuditEvent) (s : State D) : State D :=
  { s with audit := Function.update s.audit x (s.audit x ++ events) }

/-- The effect of a chunk that commits. -/
def applyTxn (startedAt : Time) (t : Txn) (s : State D) : State D :=
  appendAudit t.executionId t.audit <| writeResume t.executionId t.resume <|
    writeStep t.executionId t.step <| writeApproval t.approval <|
      writeToolRequest startedAt t.toolRequest s

def commit (startedAt : Time) (t : Txn) (s : State D) : CommitOutcome × State D :=
  if s.Violates t then (.violation, s)
  else if s.Collides t then (.collision, s)
  else (.committed, s.applyTxn startedAt t)

/-- The conditional update and the chunk commit together: a row that matched stays locked
until the transaction ends, one that did not match has written nothing. -/
def commitIf (startedAt : Time) (g : StatusGuard) (t : Txn) (s : State D) :
    GuardedOutcome × State D :=
  if s.status t.executionId = some g.expected then
    if s.Violates t then (.finished .violation, s)
    else if s.Collides t then (.finished .collision, s)
    else (.finished .committed, (s.modifyExecution t.executionId g.apply).applyTxn startedAt t)
  else (.guardLost, s)

end State

/-- `stepping = false OR stepping_claimed_at < now - LEASE_TTL`; no comparison holds of NULL. -/
def Execution.leaseFree (row : Execution) (now ttl : Time) : Bool :=
  !row.stepping || match row.steppingClaimedAt with
    | some claimedAt => claimedAt + ttl < now
    | none => false

/-- The writing statements, each with the commit that ends its transaction. -/
inductive Write
  | freshId
  | insertExecution (row : Execution)
  | commit (attempt : Attempt) (t : Txn)
  | commitIf (attempt : Attempt) (g : StatusGuard) (t : Txn)
  | claimStepping (executionId claimId : Id) (now ttl : Time)
  | releaseStepping (executionId claimId : Id)
  | cancel (executionId : Id) (now : Time)
  | claimApproval (approvalId : Id) (status : ApprovalStatus) (now : Time) (resolvedBy : String)
  | expireApproval (approvalId : Id) (now : Time)
  | insertStep (executionId : Id) (row : ExecutionStep)
  | saveStep (executionId : Id) (u : StepUpdate)
  | insertExternalRequest (row : ExternalActionRequest)
  | updateExternalRequest (operatorId : Id) (externalRequestId : String) (u : ExternalActionUpdate)

@[reducible] def Write.Reply : Write → Type
  | freshId => Id
  | insertExecution _ => Id
  | commit _ _ => CommitOutcome
  | commitIf _ _ _ => GuardedOutcome
  | claimStepping _ _ _ _ => Bool
  | releaseStepping _ _ => Unit
  | cancel _ _ => Bool
  | claimApproval _ _ _ _ => Bool
  | expireApproval _ _ => Bool
  | insertStep _ _ => Bool
  | saveStep _ _ => Unit
  | insertExternalRequest _ => Bool
  | updateExternalRequest _ _ _ => Unit

namespace State

variable {D : Type}

def claimStepping (x claimId : Id) (now ttl : Time) (s : State D) : Bool × State D :=
  match s.executions x with
  | some row =>
    if row.leaseFree now ttl then
      (true, s.modifyExecution x fun row =>
        { row with stepping := true, steppingClaimId := some claimId, steppingClaimedAt := some now })
    else (false, s)
  | none => (false, s)

def releaseStepping (x claimId : Id) (s : State D) : State D :=
  s.modifyExecution x fun row =>
    if row.steppingClaimId = some claimId then
      { row with stepping := false, steppingClaimId := none, steppingClaimedAt := none }
    else row

def cancel (x : Id) (now : Time) (s : State D) : Bool × State D :=
  if s.status x = some .running ∨ s.status x = some .waitingApproval then
    (true, s.modifyExecution x fun row => { row with status := .cancelled, completedAt := some now })
  else (false, s)

def claimApproval (a : Id) (status : ApprovalStatus) (now : Time) (resolvedBy : String)
    (s : State D) : Bool × State D :=
  match s.approvals a with
  | some row =>
    if row.status = .pending ∧ now < row.expiresAt then
      (true, s.modifyApproval a fun row =>
        { row with status := status, resolvedAt := some now, resolvedBy := some resolvedBy })
    else (false, s)
  | none => (false, s)

def expireApproval (a : Id) (now : Time) (s : State D) : Bool × State D :=
  match s.approvals a with
  | some row =>
    if row.status = .pending then
      (true, s.modifyApproval a fun row => { row with status := .expired, resolvedAt := some now })
    else (false, s)
  | none => (false, s)

/-- An insert under the unique constraint on (execution, sequence) of the steps. -/
def addStep (x : Id) (row : ExecutionStep) (s : State D) : Bool × State D :=
  if row.sequence ∈ (s.steps x).map (·.sequence) then (false, s) else (true, s.insertStep x row)

/-- An insert under the unique constraint on (operator, external request). -/
def insertExternalRequest (row : ExternalActionRequest) (s : State D) : Bool × State D :=
  match s.externalRequests row.operatorId row.externalRequestId with
  | some _ => (false, s)
  | none => (true, { s with
      externalRequests := Function.update s.externalRequests row.operatorId
        (Function.update (s.externalRequests row.operatorId) row.externalRequestId (some row)) })

def perform : (w : Write) → State D → w.Reply × State D
  | .freshId, s => (s.nextId, { s with nextId := s.nextId + 1 })
  | .insertExecution row, s =>
    (s.nextId, { s with
      executions := Function.update s.executions s.nextId (some row)
      nextId := s.nextId + 1 })
  | .commit attempt t, s => s.commit attempt.startedAt t
  | .commitIf attempt g t, s => s.commitIf attempt.startedAt g t
  | .claimStepping x c now ttl, s => s.claimStepping x c now ttl
  | .releaseStepping x c, s => ((), s.releaseStepping x c)
  | .cancel x now, s => s.cancel x now
  | .claimApproval a status now by', s => s.claimApproval a status now by'
  | .expireApproval a now, s => s.expireApproval a now
  | .insertStep x row, s => s.addStep x row
  | .saveStep x u, s => ((), s.modifyStep x u.sequence u.apply)
  | .insertExternalRequest row, s => s.insertExternalRequest row
  | .updateExternalRequest o k u, s => ((), s.modifyExternalRequest o k u.apply)

end State
end SafeOps
