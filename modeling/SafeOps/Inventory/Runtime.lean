import SafeOps.Inventory.Gateway

/-! The statements and chunks of the agent runtime. -/

namespace SafeOps.AgentRuntime
open Concurrent Program

variable {W : World} {G : Prop}

theorem eventRows_routine (x : Id) (seq : Nat) {type : AuditEventType}
    (metadata : List (String × Value)) (ht : ¬type.AboutStatus) :
    Routine x seq (eventRows x type metadata seq) :=
  ⟨rfl, rfl, by simpa [event, eventRows], by simp [eventRows], rfl, rfl, rfl⟩

theorem currentStatus_built (x : Id) :
    Composed (Piece StepOp RuntimeChunk G) (currentStatus x : Db W (Option ExecutionStatus)) :=
  .bind (built_query _ trivial) fun _ => .ret _

theorem startExecution_built (agentId : Id) (objective : String) (context : Option Value) :
    Composed (Piece RuntimeOp RuntimeChunk G) (startExecution agentId objective context : Db W RuntimeResult) := by
  refine .bind (built_query _ trivial) fun agent => ?_
  split
  · exact .ret _
  · exact .bind (built_write _ ⟨rfl, rfl, rfl, rfl⟩) fun x => .bind (built_rows fun _ _ => .started _ _) fun _ =>
      .bind (Composed.mono (currentStatus_built x) fun h => h.mono (fun _ => StepOp.runtimeOp) fun _ _ _ => id)
        fun _ => .ret _

theorem claimStep_built (x : Id) (type : StepType) (input : StepInput) :
    Composed (Piece StepOp RuntimeChunk G) (claimStep x type input : Db W (Option ExecutionStep)) :=
  .bind (built_query _ trivial) fun _ => .bind (built_write _ ⟨rfl, rfl⟩) fun _ => .ret _

theorem finalize_built (x : Id) (sequence : Nat) {status : StepStatus} (output : StepOutput)
    {type : AuditEventType} (metadata : List (String × Value)) (toolRequestId : Option Id)
    (ht : ¬type.AboutStatus) (hs : status = .completed ∨ status = .waitingApproval) :
    Composed (Piece StepOp RuntimeChunk G)
      (finalize x sequence status output type metadata toolRequestId : Db W Unit) :=
  .bind (built_query _ trivial) fun _ => built_chunk fun _ => .finalized _ rfl ht hs

theorem finalizeTerminal_built (x : Id) (sequence : Nat) {status : StepStatus} (output : StepOutput)
    {type : AuditEventType} (metadata : List (String × Value)) {terminal : ExecutionStatus}
    (toolRequestId : Option Id) (ht : terminal.terminalEvent = some type) (hc : terminal ≠ .cancelled)
    (hw : status ≠ .waitingApproval) (hp : status ≠ .pending) :
    Composed (Piece StepOp RuntimeChunk G)
      (finalizeTerminal x sequence status output type metadata terminal toolRequestId : Db W Unit) :=
  .bind (built_query _ trivial) fun now => built_rows fun _ _ =>
    .terminal ⟨x, ⟨sequence, status, output, now, toolRequestId⟩, type, metadata⟩ terminal now rfl ht hc
      hw hp

theorem execute_built (call : GatewayCall) (context : Option Value) :
    Assembled StepOp RuntimeChunk (ToolGateway.execute call context : Db W GatewayResult) :=
  .atom (.gateway trivial call context)

theorem recordResult_built (x : Id) (action : ToolAction) (step : ExecutionStep)
    (result : GatewayResult) (toolRequestId : Option Id) :
    Composed (Piece StepOp RuntimeChunk G)
      (recordResult x action step result toolRequestId : Db W RuntimeResult) := by
  have status (f : Option ExecutionStatus → RuntimeResult) :
      Composed (Piece StepOp RuntimeChunk G)
        ((currentStatus x : Db W _).bind fun s => .ret (f s) : Db W RuntimeResult) :=
    .bind (currentStatus_built x) fun _ => .ret _
  unfold recordResult
  simp only
  split
  · exact .bind (finalize_built _ _ _ _ _ (by decide) (.inl rfl)) fun _ => status _
  · exact .bind (finalize_built _ _ _ _ _ (by decide) (.inr rfl)) fun _ => status _
  · exact .bind (finalizeTerminal_built _ _ _ _ _ rfl (by decide) (by decide) (by decide)) fun _ => status _
  · exact .bind (finalizeTerminal_built _ _ _ _ _ rfl (by decide) (by decide) (by decide)) fun _ => status _

theorem runToolCallStep_built (x agentId : Id) (action : ToolAction) (retries : Nat)
    (step : ExecutionStep) :
    Assembled StepOp RuntimeChunk (runToolCallStep x agentId action retries step : Db W RuntimeResult) := by
  induction retries generalizing step with
  | zero =>
    exact .bind (execute_built _ _) fun _ => .bind (built_query _ trivial) fun _ =>
      recordResult_built x action step _ _
  | succ retries ih =>
    refine .bind (execute_built _ _) fun result => .bind (built_query _ trivial) fun _ => ?_
    split
    · refine .bind (.bind (built_query _ trivial) fun _ => built_write _ rfl) fun _ =>
        .bind (claimStep_built _ _ _) fun retryStep => ?_
      split
      · exact ih _
      · exact recordResult_built x action step _ _
    · exact recordResult_built x action step _ _

theorem finalStep_built (x : Id) (decision reason : String) (code : Option String)
    {status : StepStatus} {type : AuditEventType} (metadata : Nat → List (String × Value))
    {terminal : ExecutionStatus} (result : RuntimeStatus)
    (ht : terminal.terminalEvent = some type) (hc : terminal ≠ .cancelled)
    (hw : status ≠ .waitingApproval) (hp : status ≠ .pending) :
    Composed (Piece StepOp RuntimeChunk G)
      (finalStep x decision reason code status type metadata terminal result : Db W RuntimeResult) := by
  refine .bind (claimStep_built _ _ _) fun step => ?_
  split
  · exact .bind (currentStatus_built x) fun _ => .ret _
  · exact .bind (finalizeTerminal_built _ _ _ _ _ ht hc hw hp) fun _ =>
      .bind (currentStatus_built x) fun _ => .ret _

theorem failMaxStepsExceeded_built (x : Id) (history : List ExecutionStep) :
    Composed (Piece StepOp RuntimeChunk G) (failMaxStepsExceeded x history : Db W (Option RuntimeResult)) := by
  unfold failMaxStepsExceeded
  split
  · exact .ret _
  · exact .bind (finalStep_built x _ _ _ _ _ rfl (by decide) (by decide) (by decide)) fun _ => .ret _

theorem toolCallStep_built (x agentId : Id) (action : ToolAction) :
    Assembled StepOp RuntimeChunk (toolCallStep x agentId action : Db W RuntimeResult) := by
  refine .bind (claimStep_built _ _ _) fun step => ?_
  split
  · exact .bind (currentStatus_built x) fun _ => .ret _
  · exact .bind (built_chunk fun _ => .routine (eventRows_routine _ _ _ (by decide)) rfl) fun _ =>
      runToolCallStep_built x agentId action 1 _

theorem advance_built (x : Id) (execution : Execution) :
    Assembled StepOp RuntimeChunk (advance x execution : Db W RuntimeResult) := by
  refine .bind (built_query _ trivial) fun history =>
    .bind (failMaxStepsExceeded_built x _) fun exceeded => ?_
  split
  · exact .ret _
  · split
    · exact finalStep_built x _ _ _ _ _ rfl (by decide) (by decide) (by decide)
    · exact finalStep_built x _ _ _ _ _ rfl (by decide) (by decide) (by decide)
    · exact toolCallStep_built x _ _

theorem approvalNamed_built (a : Option Id) :
    Composed (Piece StepOp RuntimeChunk G) (approvalNamed a : Db W (Option ApprovalRequest)) := by
  cases a with
  | none => exact .ret _
  | some a => exact built_query _ trivial

theorem resolvePendingStep_built (x : Id) (step : ExecutionStep) :
    Composed (Piece StepOp RuntimeChunk G) (resolvePendingStep x step : Db W ResolvedApprovalOutcome) := by
  refine .bind (approvalNamed_built _) fun approval => ?_
  split
  · exact .ret _
  · split
    · exact .ret _
    · exact .bind (built_query _ trivial) fun _ => .bind
        (finalizeTerminal_built _ _ _ _ _ rfl (by decide) (by decide) (by decide)) fun _ => .ret _
    · exact .bind (built_query _ trivial) fun _ => .bind
        (finalizeTerminal_built _ _ _ _ _ rfl (by decide) (by decide) (by decide)) fun _ => .ret _
    · refine .bind (built_query _ trivial) fun toolRequest => ?_
      simp only
      split
      · exact .bind (finalize_built _ _ _ _ _ (by decide) (.inl rfl)) fun _ => .ret _
      · exact .bind (finalizeTerminal_built _ _ _ _ _ rfl (by decide) (by decide) (by decide))
          fun _ => .ret _
    · exact .bind (built_query _ trivial) fun _ => .ret _

theorem settlePendingStep_built (x : Id) (step : ExecutionStep) :
    Composed (Piece StepOp RuntimeChunk G) (settlePendingStep x step : Db W ResolvedApprovalOutcome) := by
  refine .bind (resolvePendingStep_built x step) fun outcome => ?_
  split
  · exact .ret _
  · exact .bind (built_chunk fun _ => .routine (eventRows_routine _ _ _ (by decide)) rfl) fun _ =>
      .ret _

theorem settledResult_built (x : Id) (execution : Execution) (step : ExecutionStep)
    (outcome : ResolvedApprovalOutcome) :
    Composed (Piece StepOp RuntimeChunk G) (settledResult x execution step outcome : Db W RuntimeResult) := by
  unfold settledResult
  simp only
  split
  · exact .ret _
  · exact .bind (currentStatus_built x) fun _ => .ret _

theorem resumePending_built (x : Id) (execution : Execution) :
    Assembled StepOp RuntimeChunk (resumePending x execution : Db W RuntimeResult) := by
  refine .bind (built_query _ trivial) fun pendingStep => ?_
  split
  · exact .ret _
  · refine .bind (settlePendingStep_built x _) fun outcome => ?_
    split
    · refine .bind (built_query _ trivial) fun execution => ?_
      split
      · exact advance_built x _
      · exact .raise _
    · exact settledResult_built x execution _ outcome

theorem submitWithin_built (x : Id) (action : ToolAction) (execution : Execution) :
    Assembled StepOp RuntimeChunk (submitWithin x action execution : Db W RuntimeResult) := by
  refine .bind (built_query _ trivial) fun history =>
    .bind (failMaxStepsExceeded_built x _) fun exceeded => ?_
  split
  · exact .ret _
  · exact toolCallStep_built x _ action

theorem reconcilePending_built (x : Id) (execution : Execution) :
    Composed (Piece StepOp RuntimeChunk G) (reconcilePending x execution : Db W RuntimeResult) := by
  refine .bind (built_query _ trivial) fun pendingStep => ?_
  split
  · exact .ret _
  · exact .bind (settlePendingStep_built x _) fun outcome => settledResult_built x execution _ outcome

/-- A critical section is built from the statements of its body and those of the lease. -/
theorem withStepping_built {α : Type} (x : Id) (conflict : Execution → α) {body : Execution → Db W α}
    (h : ∀ execution, Composed (Piece StepOp RuntimeChunk G) (body execution)) :
    Composed (Piece LeaseOp RuntimeChunk G) (withStepping x conflict body) := by
  refine .bind (.bind (built_write _ trivial) fun claimId => .bind (built_query _ trivial) fun now =>
    .bind (built_write _ trivial) fun claimed => .bind (built_query _ trivial) fun execution => ?_)
      fun claim => ?_
  · split
    · exact .raise _
    · exact .ret _
  · simp only
    split
    · exact .tryFinally (Composed.mono (h _) fun h => h.mono (fun _ => StepOp.leaseOp) fun _ _ _ => id)
        (built_write _ trivial)
    · exact .ret _

theorem reconcileExternalStep_built (x : Id) :
    Composed (Piece LeaseOp RuntimeChunk G) (reconcileExternalStep x : Db W Reconciliation) := by
  refine .bind (built_query _ trivial) fun execution => ?_
  split
  · exact .ret _
  · split
    · exact .ret _
    · exact withStepping_built x _ fun execution => .bind (reconcilePending_built x execution) fun _ => .ret _

theorem cancel_built (x : Id) :
    Built (CancelOp x) CancelChunk (cancel x : Db W RuntimeResult) := by
  have status : Built (CancelOp x) CancelChunk (currentStatus x : Db W (Option ExecutionStatus)) :=
    .bind (built_query _ trivial) fun _ => .ret _
  refine .bind (built_query _ trivial) fun execution => ?_
  split
  · exact .ret _
  · refine .bind (built_query _ trivial) fun now => .bind (built_write _ rfl) fun transitioned =>
      .bind (built_query _ trivial) fun refreshed => ?_
    simp only
    split
    · exact .bind (built_chunk fun _ => .cancelled) fun _ => .bind status fun _ => .ret _
    · exact .ret _

end SafeOps.AgentRuntime
