import SafeOps.Inventory.Events

/-! What the critical sections of one execution request: everything they do is about that execution. -/

namespace SafeOps
open Concurrent Program

variable {W : World} {ε α : Type} {K : Op W.Tables → Prop} {x : Id}

/-- `K` has room for what happens in a critical section of `x`. -/
structure Sectional (x : Id) (K : Op W.Tables → Prop) : Prop where
  query : ∀ q, K (.query q)
  insertStep : ∀ row, NewStep row → K (.write (.insertStep x row))
  saveStep : ∀ u, u.status = .failed → K (.write (.saveStep x u))
  plain : ∀ attempt seq t, RuntimeTxn x seq t → K (.write (.commit attempt t))
  guarded : ∀ attempt seq g t, GuardedTxn x seq g t → K (.write (.commitIf attempt g t))
  gateway : ∀ (call : GatewayCall) context, call.executionId = x →
    (ToolGateway.execute call context : Db W GatewayResult).Uses K

namespace AgentRuntime

variable (h : Sectional x K)
include h

theorem eventRows_section {type : AuditEventType} (metadata : List (String × Value)) (ht : ¬type.AboutStatus) :
    (commitChunk x (eventRows x type metadata) : Db W Unit).Uses K :=
  commitChunk_uses (h.query _) fun _ _ => h.plain _ _ _ (.routine (eventRows_routine x _ metadata ht))

theorem currentStatus_section : (currentStatus x : Db W (Option ExecutionStatus)).Uses K :=
  .bind ((uses_call _).2 (h.query _)) fun _ => trivial

theorem claimStep_section (type : StepType) (input : StepInput) :
    (claimStep x type input : Db W (Option ExecutionStep)).Uses K :=
  .bind ((uses_call _).2 (h.query _)) fun _ => .bind ((uses_call _).2 (h.insertStep _ ⟨rfl, rfl⟩)) fun _ => trivial

theorem finalize_section (n : Nat) {status : StepStatus} (output : StepOutput) {type : AuditEventType}
    (metadata : List (String × Value)) (toolRequestId : Option Id) (ht : ¬type.AboutStatus)
    (hs : status = .completed ∨ status = .waitingApproval) :
    (finalize x n status output type metadata toolRequestId : Db W Unit).Uses K :=
  .bind ((uses_call _).2 (h.query _)) fun _ => commitChunk_uses (h.query _) fun _ _ =>
    h.plain _ _ _ (.finalized _ rfl ht hs)

theorem finalizeTerminal_section (n : Nat) {status : StepStatus} (output : StepOutput) {type : AuditEventType}
    (metadata : List (String × Value)) {terminal : ExecutionStatus} (toolRequestId : Option Id)
    (ht : terminal.terminalEvent = some type) (hc : terminal ≠ .cancelled) (hw : status ≠ .waitingApproval)
    (hp : status ≠ .pending) :
    (finalizeTerminal x n status output type metadata terminal toolRequestId : Db W Unit).Uses K := by
  refine .bind ((uses_call _).2 (h.query _)) fun completedAt => commitRounds_use (h.query _) fun _ seq attempt => ?_
  refine .bind ((uses_call _).2 (h.guarded _ seq _ _ (.terminal _ _ _ rfl ht hc hw hp))) fun outcome => ?_
  cases outcome with
  | finished outcome => trivial
  | guardLost =>
    refine Yields.uses (P := fun t => RuntimeTxn x seq t) ⟨h.query _, fun execution => ?_⟩ fun t ht =>
      (uses_call _).2 (h.plain _ _ _ ht)
    cases (show Option Execution from execution) with
    | none => trivial
    | some row => exact .alreadyTerminal _ _ _ rfl hw hp

theorem recordResult_section (action : ToolAction) (step : ExecutionStep) (result : GatewayResult)
    (toolRequestId : Option Id) :
    (recordResult x action step result toolRequestId : Db W RuntimeResult).Uses K := by
  have status (f : Option ExecutionStatus → RuntimeResult) :
      ((currentStatus x).bind fun s => .ret (f s) : Db W RuntimeResult).Uses K :=
    .bind (currentStatus_section h) fun _ => trivial
  unfold recordResult
  simp only
  split
  · exact .bind (finalize_section h _ _ _ _ (by decide) (.inl rfl)) fun _ => status _
  · exact .bind (finalize_section h _ _ _ _ (by decide) (.inr rfl)) fun _ => status _
  · exact .bind (finalizeTerminal_section h _ _ _ _ rfl (by decide) (by decide) (by decide)) fun _ => status _
  · exact .bind (finalizeTerminal_section h _ _ _ _ rfl (by decide) (by decide) (by decide)) fun _ => status _

theorem runToolCallStep_section (agentId : Id) (action : ToolAction) (retries : Nat) (step : ExecutionStep) :
    (runToolCallStep x agentId action retries step : Db W RuntimeResult).Uses K := by
  induction retries generalizing step with
  | zero =>
    exact .bind (h.gateway _ _ rfl) fun _ => .bind ((uses_call _).2 (h.query _)) fun _ =>
      recordResult_section h action step _ _
  | succ retries ih =>
    refine .bind (h.gateway _ _ rfl) fun result => .bind ((uses_call _).2 (h.query _)) fun _ => ?_
    split
    · refine .bind (.bind ((uses_call _).2 (h.query _)) fun _ => (uses_call _).2 (h.saveStep _ rfl)) fun _ =>
        .bind (claimStep_section h _ _) fun retryStep => ?_
      split
      · exact ih _
      · exact recordResult_section h action step _ _
    · exact recordResult_section h action step _ _

theorem finalStep_section (decision reason : String) (code : Option String) {status : StepStatus}
    {type : AuditEventType} (metadata : Nat → List (String × Value)) {terminal : ExecutionStatus}
    (result : RuntimeStatus) (ht : terminal.terminalEvent = some type) (hc : terminal ≠ .cancelled)
    (hw : status ≠ .waitingApproval) (hp : status ≠ .pending) :
    (finalStep x decision reason code status type metadata terminal result : Db W RuntimeResult).Uses K := by
  refine .bind (claimStep_section h _ _) fun step => ?_
  split
  · exact .bind (currentStatus_section h) fun _ => trivial
  · exact .bind (finalizeTerminal_section h _ _ _ _ ht hc hw hp) fun _ =>
      .bind (currentStatus_section h) fun _ => trivial

theorem failMaxStepsExceeded_section (history : List ExecutionStep) :
    (failMaxStepsExceeded x history : Db W (Option RuntimeResult)).Uses K := by
  unfold failMaxStepsExceeded
  split
  · trivial
  · exact .bind (finalStep_section h _ _ _ _ _ rfl (by decide) (by decide) (by decide)) fun _ => trivial

theorem toolCallStep_section (agentId : Id) (action : ToolAction) :
    (toolCallStep x agentId action : Db W RuntimeResult).Uses K := by
  refine .bind (claimStep_section h _ _) fun step => ?_
  split
  · exact .bind (currentStatus_section h) fun _ => trivial
  · exact .bind (eventRows_section h _ (by decide)) fun _ => runToolCallStep_section h agentId action 1 _

theorem advance_section (execution : Execution) : (advance x execution : Db W RuntimeResult).Uses K := by
  refine .bind ((uses_call _).2 (h.query _)) fun history => .bind (failMaxStepsExceeded_section h _) fun exceeded => ?_
  split
  · trivial
  · split
    · exact finalStep_section h _ _ _ _ _ rfl (by decide) (by decide) (by decide)
    · exact finalStep_section h _ _ _ _ _ rfl (by decide) (by decide) (by decide)
    · exact toolCallStep_section h _ _

theorem resolvePendingStep_section (step : ExecutionStep) :
    (resolvePendingStep x step : Db W ResolvedApprovalOutcome).Uses K := by
  have named (a : Option Id) : (approvalNamed a : Db W (Option ApprovalRequest)).Uses K := by
    cases a with
    | none => trivial
    | some a => exact (uses_call _).2 (h.query _)
  have read (p : Option ToolRequest → Db W ResolvedApprovalOutcome) (q : Id) (hp : ∀ row, (p row).Uses K) :
      ((query (.toolRequest q) : Db W (Option ToolRequest)).bind p).Uses K :=
    .bind ((uses_call _).2 (h.query _)) hp
  refine .bind (named _) fun approval => ?_
  split
  · trivial
  · split
    · trivial
    · exact read _ _ fun _ => .bind
        (finalizeTerminal_section h _ _ _ _ rfl (by decide) (by decide) (by decide)) fun _ => trivial
    · exact read _ _ fun _ => .bind
        (finalizeTerminal_section h _ _ _ _ rfl (by decide) (by decide) (by decide)) fun _ => trivial
    · refine read _ _ fun toolRequest => ?_
      simp only
      split
      · exact .bind (finalize_section h _ _ _ _ (by decide) (.inl rfl)) fun _ => trivial
      · exact .bind (finalizeTerminal_section h _ _ _ _ rfl (by decide) (by decide) (by decide)) fun _ => trivial
    · exact read _ _ fun _ => trivial

theorem settlePendingStep_section (step : ExecutionStep) :
    (settlePendingStep x step : Db W ResolvedApprovalOutcome).Uses K := by
  refine .bind (resolvePendingStep_section h step) fun outcome => ?_
  split
  · trivial
  · exact .bind (eventRows_section h _ (by decide)) fun _ => trivial

theorem settledResult_section (execution : Execution) (step : ExecutionStep) (outcome : ResolvedApprovalOutcome) :
    (settledResult x execution step outcome : Db W RuntimeResult).Uses K := by
  unfold settledResult
  simp only
  split
  · trivial
  · exact .bind (currentStatus_section h) fun _ => trivial

end AgentRuntime

open AgentRuntime in
theorem Critical.confined {p : Program W.statements ε α} (hp : Critical x p) (h : Sectional x K) : p.Uses K := by
  cases hp with
  | advance execution => exact advance_section h execution
  | submit action execution =>
    refine .bind ((uses_call _).2 (h.query _)) fun history =>
      .bind (failMaxStepsExceeded_section h _) fun exceeded => ?_
    split
    · trivial
    · exact toolCallStep_section h _ action
  | resume execution =>
    refine .bind ((uses_call _).2 (h.query _)) fun pendingStep => ?_
    split
    · trivial
    · refine .bind (settlePendingStep_section h _) fun outcome => ?_
      split
      · refine .bind ((uses_call _).2 (h.query _)) fun execution => ?_
        split
        · exact advance_section h _
        · trivial
      · exact settledResult_section h execution _ outcome
  | reconcile execution =>
    refine .bind ((uses_call _).2 (h.query _)) fun pendingStep => ?_
    split
    · trivial
    · exact .bind (settlePendingStep_section h _) fun outcome => settledResult_section h execution _ outcome

end SafeOps
