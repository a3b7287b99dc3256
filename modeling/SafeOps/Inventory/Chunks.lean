import SafeOps.System

/-! What the services do to the database: the statements they issue outside chunks, and the
shape of every chunk they commit. -/

namespace SafeOps
open Concurrent Program

variable {W : World}

/-- The event that announces a terminal status. -/
def ExecutionStatus.terminalEvent : ExecutionStatus → Option AuditEventType
  | completed => some .executionCompleted
  | failed => some .executionFailed
  | blocked => some .executionBlocked
  | cancelled => some .executionCancelled
  | _ => none

/-- The event announces a terminal status, or that one was there already. -/
def AuditEventType.AboutStatus (t : AuditEventType) : Prop :=
  t = .executionStatusAlreadyTerminal ∨ ∃ s : ExecutionStatus, s.terminalEvent = some t

theorem AuditEventType.aboutStatus_iff (t : AuditEventType) :
    t.AboutStatus ↔ t = .executionStatusAlreadyTerminal ∨ t = .executionCompleted ∨
      t = .executionFailed ∨ t = .executionBlocked ∨ t = .executionCancelled := by
  constructor
  · rintro (h | ⟨s, h⟩)
    · exact .inl h
    · cases s <;> simp_all [ExecutionStatus.terminalEvent]
  · rintro (h | rfl | rfl | rfl | rfl)
    · exact .inl h
    · exact .inr ⟨.completed, rfl⟩
    · exact .inr ⟨.failed, rfl⟩
    · exact .inr ⟨.blocked, rfl⟩
    · exact .inr ⟨.cancelled, rfl⟩

instance : DecidablePred AuditEventType.AboutStatus :=
  fun t => decidable_of_iff _ t.aboutStatus_iff.symm

/-- The events of the chunk are numbered consecutively from `seq` on. -/
def Txn.Numbered (seq : Nat) (t : Txn) : Prop :=
  t.audit.map (·.sequence) = List.range' seq t.audit.length

def ToolRequestWrite.status : ToolRequestWrite → ToolRequestStatus
  | insert _ row => row.status
  | update _ columns => columns.status

/-- A chunk that records what a call did, and decides nothing about the execution, its steps or
its approvals. -/
structure Routine (x : Id) (seq : Nat) (t : Txn) : Prop where
  execution : t.executionId = x
  numbered : t.Numbered seq
  silent : ∀ e ∈ t.audit, ¬e.eventType.AboutStatus
  toolRequest : ∀ w, t.toolRequest = some w → w.status ≠ .requiresApproval
  approval : t.approval = none
  step : t.step = none
  resume : t.resume = false

/-- The chunks of a gateway call on execution `x`. -/
inductive GatewayChunk (x : Id) (seq : Nat) : Rows W → Prop
  | routine {t : Txn} : Routine x seq t → GatewayChunk x seq (.plain t)
  | approval (g : ToolGateway.Admitted W) (escalated : Bool) (a : Id) (row : ApprovalRequest)
      (requestedAt : Time) : g.call.executionId = x → row.executionId = x → row.status = .pending →
      row.toolRequestId = g.requestId →
      GatewayChunk x seq (.guarded ToolGateway.admitApproval
        (ToolGateway.approvalRows g escalated a row requestedAt seq) (.raise .approvalStateConflict))

/-- The chunks by which the approval engine settles approval `a` of row `row`. -/
inductive ResolutionChunk (a : Id) (row : ApprovalRequest) (seq : Nat) : Txn → Prop
  | expiry (now : Time) (toolRequest : Option ToolRequest) (execution : Option Execution) :
      ResolutionChunk a row seq (ApprovalEngine.expiryRows a row now toolRequest execution seq)
  | rejection (operator : Operator) (now : Time) (error : ToolError) :
      ResolutionChunk a row seq (ApprovalEngine.rejectionRows a row operator now error seq)
  | outcome (agentName : String) (result : Option Value) (error : Option ToolError) (success : Bool)
      (now : Time) :
      ResolutionChunk a row seq (ApprovalEngine.outcomeRows a row agentName result error success now seq)

/-- The rows of `_finalize` with a terminal status. -/
def terminalRows (f : AgentRuntime.Finalization) (status : ExecutionStatus) (completedAt : Time)
    (seq : Nat) : Rows W :=
  .guarded (AgentRuntime.terminalGuard status completedAt) (f.rows seq) do
    let execution : Option Execution ← query (.execution f.executionId)
    match execution with
    | some row => pure (f.alreadyTerminalRows status row.status seq)
    | none => .raise .other

/-- The chunks of the runtime outside its gateway calls, but for that of `cancel`. -/
inductive RuntimeChunk (x : Id) (seq : Nat) : Rows W → Prop
  | routine {t : Txn} : Routine x seq t → t.toolRequest = none → RuntimeChunk x seq (.plain t)
  | started (actor objective : String) :
      RuntimeChunk x seq (.guarded AgentRuntime.startGuard
        (AgentRuntime.startedRows x actor objective seq)
        (pure (AgentRuntime.startedRows x actor objective seq)))
  | finalized (f : AgentRuntime.Finalization) : f.executionId = x → ¬f.eventType.AboutStatus →
      f.step.status = .completed ∨ f.step.status = .waitingApproval →
      RuntimeChunk x seq (.plain (f.rows seq))
  | terminal (f : AgentRuntime.Finalization) (status : ExecutionStatus) (completedAt : Time) :
      f.executionId = x → status.terminalEvent = some f.eventType → status ≠ .cancelled →
      f.step.status ≠ .waitingApproval → f.step.status ≠ .pending →
      RuntimeChunk x seq (terminalRows f status completedAt seq)

/-- The chunk of the lazy expiry of approval `a`. -/
inductive ExpiryChunk (a x : Id) (seq : Nat) : Rows W → Prop
  | expiry (row : ApprovalRequest) (now : Time) (toolRequest : Option ToolRequest)
      (execution : Option Execution) : row.executionId = x →
      ExpiryChunk a x seq (.plain (ApprovalEngine.expiryRows a row now toolRequest execution seq))

/-- The chunks of the resolution of approval `a`. -/
inductive ApprovalChunk (a x : Id) (seq : Nat) : Rows W → Prop
  | routine {t : Txn} : Routine x seq t → t.toolRequest = none → ApprovalChunk a x seq (.plain t)
  | resolution {row : ApprovalRequest} {t : Txn} : row.executionId = x →
      ResolutionChunk a row seq t → ApprovalChunk a x seq (.plain t)

/-- The chunks of `cancel`. -/
inductive CancelChunk (x : Id) (seq : Nat) : Rows W → Prop
  | cancelled : CancelChunk x seq (.plain (AgentRuntime.eventRows x .executionCancelled [] seq))

/-- The chunks of the whole application. -/
inductive Chunk (x : Id) (seq : Nat) : Rows W → Prop
  | gateway {rows : Rows W} : GatewayChunk x seq rows → Chunk x seq rows
  | runtime {rows : Rows W} : RuntimeChunk x seq rows → Chunk x seq rows
  | approval {a : Id} {rows : Rows W} : ApprovalChunk a x seq rows → Chunk x seq rows
  | cancel {rows : Rows W} : CancelChunk x seq rows → Chunk x seq rows

/-- The note is not of a tool call that an approval allowed. -/
def Note.Direct : Note → Prop
  | toolExecute call => call.approvalId = none
  | _ => True

/-- The note is of a tool call that approval `a` allowed. -/
def Note.Approves (a : Id) : Note → Prop
  | toolExecute call => call.approvalId = some a
  | _ => False

/-- The note is of a moment within a gateway call. -/
def Note.Inside : Note → Prop
  | gatewayEnter _ | gatewayReturn _ | gatewayRaise => False
  | n => n.Direct

/-- Statements within a gateway call and outside its chunks. -/
def Inside : Op W.Tables → Prop
  | .query _ | .tool _ | .write .freshId => True
  | .note n => n.Inside
  | _ => False

/-- Statements within a gateway call, outside its chunks and the call of its tool. -/
def Beside : Op W.Tables → Prop
  | .query _ | .write .freshId | .note (.policyEvaluated _) | .note (.riskAssessed _) => True
  | _ => False

/-- Statements of the gateway outside its chunks: they leave every table of the services alone. -/
def Reads : Op W.Tables → Prop
  | .query _ | .tool _ | .write .freshId => True
  | .note n => n.Direct
  | _ => False

/-- What a row builder may ask for while its chunk is open. -/
def IsRead : Op W.Tables → Prop
  | .query (.auditSequence _) => False
  | .query _ => True
  | _ => False

/-- A row with which `_claim_step` enters a step. -/
def NewStep (row : ExecutionStep) : Prop := row.status = .pending ∧ row.output = none

/-- A row with which `start_execution` enters an execution: nobody holds its lease. -/
structure NewExecution (row : Execution) : Prop where
  status : row.status = .created
  stepping : row.stepping = false
  claimId : row.steppingClaimId = none
  claimedAt : row.steppingClaimedAt = none

/-- The statements of the runtime on an execution that is there, outside its chunks, its gateway calls and
the lease. -/
def StepOp : Op W.Tables → Prop
  | .query _ | .write .freshId => True
  | .write (.insertStep _ row) => NewStep row
  | .write (.saveStep _ u) => u.status = .failed
  | _ => False

/-- The statements of the runtime outside its chunks, its gateway calls and the lease. -/
def RuntimeOp : Op W.Tables → Prop
  | .query _ | .write .freshId => True
  | .write (.insertExecution row) => NewExecution row
  | .write (.insertStep _ row) => NewStep row
  | .write (.saveStep _ u) => u.status = .failed
  | _ => False

/-- The statements of the lazy expiry of approval `a`, outside its chunk. -/
def ExpiryOp (a : Id) : Op W.Tables → Prop
  | .query _ => True
  | .write (.expireApproval b _) => b = a
  | _ => False

/-- The statements of the resolution of approval `a`, outside its chunks. -/
def ApprovalOp (a : Id) (approve : Bool) : Op W.Tables → Prop
  | .query _ | .tool _ => True
  | .note n => n.Approves a ∧ approve = true
  | .write (.claimApproval b status _ _) => b = a ∧ status = if approve then .approved else .rejected
  | .write (.expireApproval b _) => b = a
  | _ => False

/-- The statements of the runtime on an execution with those that claim and release the lease. -/
def LeaseOp : Op W.Tables → Prop
  | .write (.claimStepping _ _ _ _) | .write (.releaseStepping _ _) => True
  | o => StepOp o

/-- The statements of the external-action service on a request that has been recorded, outside the chunks. -/
def AmendOp : Op W.Tables → Prop
  | .write (.updateExternalRequest _ _ _) => True
  | o => LeaseOp o

/-- The statements of the external-action service outside the chunks. -/
def ServiceOp : Op W.Tables → Prop
  | .write (.insertExternalRequest _) => True
  | .write (.insertExecution row) => NewExecution row
  | o => AmendOp o

/-- The statements of `cancel` outside its chunk. -/
def CancelOp (x : Id) : Op W.Tables → Prop
  | .query _ => True
  | .write (.cancel y _) => y = x
  | _ => False

/-- The statements of the whole application outside its chunks. -/
def AnyOp : Op W.Tables → Prop
  | .write (.commit _ _) | .write (.commitIf _ _ _) => False
  | .write (.insertExecution row) => NewExecution row
  | .write (.insertStep _ row) => NewStep row
  | .write (.saveStep _ u) => u.status = .failed
  | .write (.claimApproval _ status _ _) => status = .approved ∨ status = .rejected
  | _ => True

theorem Beside.inside {o : Op W.Tables} (h : Beside o) : Inside o := by
  rcases o with _ | (_ | _) | n | _
  case note => cases n <;> first | exact h.elim | trivial
  all_goals first | exact h | trivial

theorem Inside.reads {o : Op W.Tables} (h : Inside o) : Reads o := by
  rcases o with _ | (_ | _) | n | _
  all_goals first | exact h | cases n <;> first | exact h | trivial

theorem Reads.anyOp {o : Op W.Tables} (h : Reads o) : AnyOp o := by
  rcases o with _ | (_ | _) | _ | _ <;> first | exact h.elim | trivial

theorem StepOp.runtimeOp {o : Op W.Tables} (h : StepOp o) : RuntimeOp o := by
  rcases o with _ | w | _ | _
  · trivial
  · cases w <;> first | exact h | exact h.elim
  · exact h
  · exact h

theorem StepOp.leaseOp {o : Op W.Tables} (h : StepOp o) : LeaseOp o := by
  rcases o with _ | w | _ | _
  · trivial
  · cases w <;> first | exact h | trivial
  · exact h
  · trivial

theorem RuntimeOp.serviceOp {o : Op W.Tables} (h : RuntimeOp o) : ServiceOp o := by
  rcases o with _ | w | _ | _
  · trivial
  · cases w <;> first | exact h | trivial
  · exact h
  · exact h

theorem LeaseOp.amendOp {o : Op W.Tables} (h : LeaseOp o) : AmendOp o := by
  rcases o with _ | w | _ | _
  · trivial
  · cases w <;> first | exact h | trivial
  · exact h
  · trivial

theorem AmendOp.serviceOp {o : Op W.Tables} (h : AmendOp o) : ServiceOp o := by
  rcases o with _ | w | _ | _
  · trivial
  · cases w <;> first | exact h | trivial
  · exact h
  · trivial

theorem LeaseOp.serviceOp {o : Op W.Tables} (h : LeaseOp o) : ServiceOp o := h.amendOp.serviceOp

theorem ServiceOp.anyOp {o : Op W.Tables} (h : ServiceOp o) : AnyOp o := by
  rcases o with _ | w | _ | _
  · trivial
  · cases w <;> first | exact h | trivial
  · trivial
  · trivial

theorem ApprovalOp.anyOp {a : Id} {approve : Bool} {o : Op W.Tables} (h : ApprovalOp a approve o) :
    AnyOp o := by
  rcases o with _ | w | _ | _
  · trivial
  · cases w with
    | claimApproval b status now by' =>
      obtain ⟨_, rfl⟩ := h
      cases approve
      · exact .inr rfl
      · exact .inl rfl
    | _ => first | exact h.elim | trivial
  · trivial
  · trivial

theorem ExpiryChunk.approvalChunk {a x : Id} {seq : Nat} {rows : Rows W}
    (h : ExpiryChunk a x seq rows) : ApprovalChunk a x seq rows := by
  obtain ⟨row, now, toolRequest, execution, hx⟩ := h
  exact .resolution hx (.expiry now toolRequest execution)

theorem CancelOp.anyOp {x : Id} {o : Op W.Tables} (h : CancelOp x o) : AnyOp o := by
  rcases o with _ | w | _ | _
  · trivial
  · cases w <;> first | exact h.elim | trivial
  · trivial
  · trivial

/-- A program whose statements outside chunks are in `K` and whose chunks are in `C`, or, where `G`
allows it, a whole call of the gateway. -/
inductive Piece (K : Op W.Tables → Prop) (C : Id → Nat → Rows W → Prop) (G : Prop) :
    ∀ {ε α : Type}, Program W.statements ε α → Prop
  | statements {ε α} {p : Program W.statements ε α} : p.Uses K → Piece K C G p
  | chunk (x : Id) (build : Nat → Nat → Db W (Rows W)) :
      (∀ attempt seq, (build attempt seq).Yields IsRead (C x seq)) → Piece K C G (commitRows x build)
  | gateway (allowed : G) (call : GatewayCall) (context : Option Value) :
      Piece K C G (ToolGateway.execute call context)

/-- The programs built from statements in `K` and chunks in `C`. -/
abbrev Built (K : Op W.Tables → Prop) (C : Id → Nat → Rows W → Prop) {ε α : Type}
    (p : Program W.statements ε α) : Prop :=
  Composed (Piece K C False) p

/-- The programs assembled from statements in `K`, chunks in `C` and calls of the gateway. -/
abbrev Assembled (K : Op W.Tables → Prop) (C : Id → Nat → Rows W → Prop) {ε α : Type}
    (p : Program W.statements ε α) : Prop :=
  Composed (Piece K C True) p

section Rules

variable {K K' : Op W.Tables → Prop} {C C' : Id → Nat → Rows W → Prop} {G : Prop} {ε α : Type}

theorem Piece.mono {p : Program W.statements ε α} (h : Piece K C G p) (hK : ∀ o, K o → K' o)
    (hC : ∀ x seq rows, C x seq rows → C' x seq rows) : Piece K' C' G p := by
  cases h with
  | statements h => exact .statements (h.mono hK)
  | chunk x build h =>
    exact .chunk x build fun attempt seq => (h attempt seq).mono (fun _ h => h) (hC x seq)
  | gateway allowed call context => exact .gateway allowed call context

theorem Built.mono {p : Program W.statements ε α} (h : Built K C p) (hK : ∀ o, K o → K' o)
    (hC : ∀ x seq rows, C x seq rows → C' x seq rows) : Built K' C' p :=
  Composed.mono h fun h => h.mono hK hC

theorem Assembled.mono {p : Program W.statements ε α} (h : Assembled K C p) (hK : ∀ o, K o → K' o)
    (hC : ∀ x seq rows, C x seq rows → C' x seq rows) : Assembled K' C' p :=
  Composed.mono h fun h => h.mono hK hC

theorem Built.assembled {p : Program W.statements ε α} (h : Built K C p) : Assembled K C p :=
  Composed.mono h fun
    | .statements h => .statements h
    | .chunk x build h => .chunk x build h

theorem built_uses {p : Program W.statements ε α} (h : p.Uses K) : Composed (Piece K C G) p :=
  .atom (.statements h)

theorem built_query (q : Query) (h : K (.query q)) :
    Composed (Piece K C G) (query q : Db W q.Reply) :=
  built_uses ((uses_call _).2 h)

theorem built_write (w : Write) (h : K (.write w)) :
    Composed (Piece K C G) (write w : Db W w.Reply) :=
  built_uses ((uses_call _).2 h)

theorem built_note (n : Note) (h : K (.note n)) :
    Composed (Piece K C G) (note n : Db W Unit) :=
  built_uses ((uses_call _).2 h)

theorem toolExecute_uses (tool : BaseTool W.Tables) (arguments : Value) (ht : ∀ o, K (.tool o)) :
    (tool.execute arguments).Uses K := by
  unfold BaseTool.execute
  split
  · trivial
  · exact .tryCatch (.bind (embed_uses _ _ ht _) fun _ => trivial) fun e => by cases e <;> trivial

theorem callTool_uses (tool : BaseTool W.Tables) (call : ToolCall) (hn : K (.note (.toolExecute call)))
    (ht : ∀ o, K (.tool o)) : (callTool tool call).Uses K :=
  Uses.bind ⟨hn, fun _ => trivial⟩ fun _ => toolExecute_uses tool call.arguments ht

theorem built_rows {x : Id} {build : Nat → Nat → Db W (Rows W)}
    (h : ∀ attempt seq, (build attempt seq).Yields IsRead (C x seq)) :
    Composed (Piece K C G) (commitRows x build) :=
  .atom (.chunk x build h)

/-- The call of a registered tool, allowed by the approval `a` if there is one. -/
inductive ToolPart (a : Option Id) : ∀ {ε α : Type}, Program W.statements ε α → Prop
  | call (tool : BaseTool W.Tables) (tc : ToolCall) : W.registry tc.toolName = some tool →
      tc.approvalId = a → ToolPart a (callTool tool tc)

theorem built_chunk {x : Id} {build : Nat → Txn} (h : ∀ seq, C x seq (.plain (build seq))) :
    Composed (Piece K C G) (commitChunk x build : Db W Unit) :=
  built_rows fun _ seq => h seq

end Rules

end SafeOps
