import SafeOps.Inventory.Issued

/-! The events about the steps of an execution, and who never appends one: the gateway, the approval engine
and the external-action service. -/

namespace SafeOps
open Concurrent Program

variable {W : World} {ε α : Type}

/-- The events that record what becomes of a step. -/
def stepEvents : List AuditEventType :=
  [.executionStepStarted, .executionStepCompleted, .executionWaitingApproval, .executionBlocked, .executionFailed,
    .executionStatusAlreadyTerminal]

/-- The chunk writes no step and has no event about one. -/
structure Txn.Stepless (t : Txn) : Prop where
  step : t.step = none
  audit : ∀ e ∈ t.audit, e.eventType ∉ stepEvents

/-- The statement has to do with no step. -/
def Stepless : Op W.Tables → Prop
  | .write (.commit _ t) | .write (.commitIf _ _ t) => t.Stepless
  | .write (.insertStep _ _) | .write (.saveStep _ _) | .query (.pendingApprovalStep _) => False
  | _ => True

theorem commitChunk_stepless {x : Id} {build : Nat → Txn} (h : ∀ seq, (build seq).Stepless) :
    (commitChunk x build : Db W Unit).Uses Stepless :=
  commitChunk_uses trivial fun seq _ => h seq

theorem commitRows_stepless {x : Id} {build : Nat → Nat → Db W (Rows W)}
    (h : ∀ number seq, (build number seq).Yields Stepless fun rows => ∃ t, rows = .plain t ∧ t.Stepless) :
    (commitRows x build).Uses Stepless := by
  refine commitRounds_use trivial fun number seq => (h number seq).mono (fun _ h => h) ?_
  rintro _ ⟨t, rfl, ht⟩ attempt
  exact (uses_call _).2 ht

theorem callTool_stepless (tool : BaseTool W.Tables) (tc : ToolCall) : (callTool tool tc : Db W _).Uses Stepless :=
  callTool_uses tool tc trivial fun _ => trivial

namespace ToolGateway

theorem txn_stepless (g : Admitted W) {audit : List AuditEvent} (u : Option ToolRequestUpdate)
    (h : ∀ e ∈ audit, e.eventType ∉ stepEvents) : (g.txn audit u).Stepless :=
  ⟨rfl, h⟩

theorem executeAndRecord_stepless (g : Admitted W) (base : GatewayResult) :
    (executeAndRecord g base : Db W GatewayResult).Uses Stepless := by
  have failure (now : Time) (error : ToolError) (result : GatewayResult) :
      ((commitChunk g.call.executionId (failureRows g now error)).bind fun _ => .ret result :
        Db W GatewayResult).Uses Stepless :=
    .bind (commitChunk_stepless fun _ => txn_stepless g _ (by simp [stepEvents])) fun _ => trivial
  refine .bind (.tryCatch (.bind (callTool_stepless _ _) fun _ => trivial) fun _ => trivial) fun outcome =>
    .bind ⟨trivial, fun _ => trivial⟩ fun completedAt => ?_
  cases outcome with
  | none => exact failure _ _ _
  | some result =>
    simp only
    split
    · exact .bind (commitChunk_stepless fun _ => txn_stepless g _ (by simp [stepEvents])) fun _ => trivial
    · exact failure _ _ _

theorem riskBlockRows_stepless (g : Admitted W) (risk : RiskAssessmentResult) (escalated : Bool) (now : Time)
    (seq : Nat) : (riskBlockRows g risk escalated now seq).Stepless := by
  refine txn_stepless g _ ?_
  cases escalated <;> cases incidentTypeName risk.signals <;> simp [stepEvents]

theorem approvalRows_stepless (g : Admitted W) (escalated : Bool) (a : Id) (row : ApprovalRequest)
    (requestedAt : Time) (seq : Nat) : (approvalRows g escalated a row requestedAt seq).Stepless := by
  refine ⟨rfl, ?_⟩
  cases escalated <;> simp [approvalRows, Admitted.txn, stepEvents]

theorem policyOutcomeRows_stepless (g : Admitted W) (result : PolicyEvaluationResult) {type : AuditEventType}
    (u : ToolRequestUpdate) (seq : Nat) (ht : type ∉ stepEvents) :
    (policyOutcomeRows g result type u seq).Stepless := by
  unfold policyOutcomeRows
  split
  · split
    · exact txn_stepless g _ (by simpa using ht)
    · exact txn_stepless g _ (by simpa [stepEvents] using ht)
  · exact txn_stepless g _ (by simpa using ht)

theorem riskRows_stepless (g : Admitted W) (risk : RiskAssessmentResult) (seq : Nat) :
    (riskRows g risk seq).Stepless := by
  refine txn_stepless g _ fun e he => ?_
  simp only [List.mem_append, List.mem_cons, List.mem_map, List.not_mem_nil, or_false] at he
  rcases he with (rfl | ⟨p, _, rfl⟩) | rfl <;> simp [stepEvents]

theorem finalizeRiskBlock_stepless (g : Admitted W) (risk : RiskAssessmentResult) (escalated : Bool)
    (base : GatewayResult) : (finalizeRiskBlock g risk escalated base).Uses Stepless := by
  refine .bind (commitRows_stepless fun _ seq => ?_) fun _ => trivial
  refine Yields.bind (P := fun _ => True) ⟨trivial, fun _ => trivial⟩ fun now _ => ?_
  split
  · exact ⟨_, rfl, riskBlockRows_stepless g risk escalated now seq⟩
  · trivial

theorem createApprovalAndCommit_stepless (g : Admitted W) (ruling : Ruling) (reason : String) (escalated : Bool)
    (base : GatewayResult) : (createApprovalAndCommit g ruling reason escalated base).Uses Stepless := by
  refine .bind ⟨trivial, fun _ => trivial⟩ fun _ => .bind ⟨trivial, fun _ => trivial⟩ fun a =>
    .bind ⟨trivial, fun _ => trivial⟩ fun now => .bind (.tryCatch (.bind ?_ fun _ => trivial) ?_) fun b => ?_
  · refine commitRounds_use trivial fun number seq attempt => .bind ?_ fun outcome => ?_
    · exact (uses_call _).2 (approvalRows_stepless g escalated a _ _ seq)
    · cases outcome <;> trivial
  · rintro (_ | _ | _ | _) <;> trivial
  · split <;> trivial

theorem assessRiskAndFinalize_stepless (g : Admitted W) (ruling : Ruling) :
    (assessRiskAndFinalize g ruling).Uses Stepless := by
  refine .bind (.tryCatch (assess_uses _ _ _ _ _ trivial trivial) fun _ => trivial) fun risk =>
    .bind ⟨trivial, fun _ => trivial⟩ fun _ => .bind (commitChunk_stepless (riskRows_stepless g risk)) fun _ => ?_
  simp only
  split
  · exact finalizeRiskBlock_stepless g _ _ _
  · exact createApprovalAndCommit_stepless g ruling _ _ _
  · exact .bind (commitChunk_stepless fun _ => txn_stepless g _ (by simp [stepEvents])) fun _ =>
      executeAndRecord_stepless g _

theorem permissionRows_stepless (g : Admitted W) {audit : List AuditEvent}
    (h : ∀ e ∈ audit, e.eventType ∉ stepEvents) : (permissionRows g audit).Stepless :=
  ⟨rfl, h⟩

theorem handleConditional_stepless (g : Admitted W) (agent : Agent) : (handleConditional g agent).Uses Stepless := by
  refine .bind (commitChunk_stepless fun _ => permissionRows_stepless g (by simp [permissionEvent, stepEvents]))
    fun _ => .bind (.tryCatch (evaluate_uses _ _ _ _ _ trivial trivial) fun _ => trivial) fun result =>
      .bind ⟨trivial, fun _ => trivial⟩ fun _ => ?_
  split
  · refine .bind (commitRows_stepless fun _ seq => ?_) fun _ => trivial
    exact Yields.bind (P := fun _ => True) ⟨trivial, fun _ => trivial⟩ fun now _ =>
      ⟨_, rfl, policyOutcomeRows_stepless g result _ seq (by decide)⟩
  · refine .bind ⟨trivial, fun _ => trivial⟩ fun _ => .bind (commitChunk_stepless fun seq => ?_) fun _ =>
      assessRiskAndFinalize_stepless g _
    exact policyOutcomeRows_stepless g result _ seq (by split <;> decide)

theorem handleDirectAllow_stepless (g : Admitted W) : (handleDirectAllow g).Uses Stepless :=
  .bind (commitChunk_stepless fun _ => permissionRows_stepless g (by simp [permissionEvent, stepEvents])) fun _ =>
    .bind ⟨trivial, fun _ => trivial⟩ fun _ => assessRiskAndFinalize_stepless g _

theorem refuse_stepless (call : GatewayCall) (toolRow : Option Tool) (status : ToolRequestStatus)
    (error : ToolError) {audit : Nat → List AuditEvent} (h : ∀ seq, ∀ e ∈ audit seq, e.eventType ∉ stepEvents) :
    (refuse call toolRow status error audit : Db W Unit).Uses Stepless := by
  refine .bind ⟨trivial, fun _ => trivial⟩ fun r => commitRows_stepless fun _ seq => ?_
  exact Yields.bind (P := fun _ => True) ⟨trivial, fun _ => trivial⟩ fun now _ => ⟨_, rfl, rfl, h seq⟩

theorem executeAdmitted_stepless (call : GatewayCall) (context : Option Value) (agent : Agent)
    (objective : String) : (executeAdmitted call context agent objective : Db W GatewayResult).Uses Stepless := by
  refine .bind (commitChunk_stepless fun _ => ⟨rfl, by simp [stepEvents]⟩) fun _ => ?_
  split
  · exact .bind (refuse_stepless _ _ _ _ fun _ => by simp [stepEvents]) fun _ => trivial
  · refine .bind ⟨trivial, fun _ => trivial⟩ fun (found : Option (ToolNamed call.toolName)) => ?_
    split
    · exact .bind (refuse_stepless _ _ _ _ fun _ => by simp [stepEvents]) fun _ => trivial
    · have permission : (permissionFor call.agentId (found.map Subtype.val) : Db W _).Uses Stepless := by
        cases found with
        | none => trivial
        | some row => exact ⟨trivial, fun _ => trivial⟩
      refine .bind permission fun permission => ?_
      split
      · exact .bind ⟨trivial, fun _ => trivial⟩ fun _ => handleConditional_stepless _ _
      · exact .bind ⟨trivial, fun _ => trivial⟩ fun _ => handleDirectAllow_stepless _
      · exact .bind (refuse_stepless _ _ _ _ fun _ => by simp [stepEvents]) fun _ => trivial

theorem execute_stepless (call : GatewayCall) (context : Option Value) :
    (execute call context : Db W GatewayResult).Uses Stepless := by
  have guarded : (executeGuarded call context : Db W GatewayResult).Uses Stepless := by
    refine .bind ⟨trivial, fun _ => trivial⟩ fun agent => ?_
    split
    · trivial
    · refine .bind ⟨trivial, fun _ => trivial⟩ fun execution => ?_
      split
      · trivial
      · repeat' split
        all_goals first | trivial | exact executeAdmitted_stepless _ _ _ _
  exact .bind ⟨trivial, fun _ => trivial⟩ fun _ => .bind
    (.tryCatch guarded fun _ => .bind ⟨trivial, fun _ => trivial⟩ fun _ => trivial) fun _ =>
      .bind ⟨trivial, fun _ => trivial⟩ fun _ => trivial

end ToolGateway

namespace ApprovalEngine

theorem finalizeExecutionOutcome_stepless (a : Id) (approval : ApprovalRequest) (agentName : String)
    (success : Bool) (error : Option ToolError) (result : Option Value) :
    (finalizeExecutionOutcome a approval agentName success error result : Db W _).Uses Stepless := by
  refine .bind ⟨trivial, fun _ => trivial⟩ fun _ => .bind (commitChunk_stepless fun _ => ⟨rfl, ?_⟩) fun _ => trivial
  cases success <;> simp [outcomeRows, event, stepEvents]

theorem executeApprovedAction_stepless (a : Id) (approval : ApprovalRequest) (agentName : String) :
    (executeApprovedAction a approval agentName : Db W _).Uses Stepless := by
  refine .bind (commitChunk_stepless fun _ => ⟨rfl, by simp [event, stepEvents]⟩) fun _ => ?_
  split
  · exact finalizeExecutionOutcome_stepless a approval _ _ _ _
  · refine .bind (.tryCatch (.bind (callTool_stepless _ _) fun _ => trivial) fun _ => trivial) fun outcome => ?_
    split
    · exact finalizeExecutionOutcome_stepless a approval _ _ _ _
    · split <;> exact finalizeExecutionOutcome_stepless a approval _ _ _ _

theorem lazyExpire_stepless (a : Id) (approval : ApprovalRequest) (now : Time) :
    (lazyExpire a approval now : Db W ApprovalStatus).Uses Stepless := by
  unfold lazyExpire
  split
  · trivial
  · refine .bind ⟨trivial, fun _ => trivial⟩ fun expired => .bind ⟨trivial, fun _ => trivial⟩ fun _ => ?_
    split
    · refine .bind ⟨trivial, fun _ => trivial⟩ fun _ => .bind ⟨trivial, fun _ => trivial⟩ fun _ =>
        .bind (commitRows_stepless fun number seq => ?_) fun _ => .bind ⟨trivial, fun _ => trivial⟩ fun _ => trivial
      have rows (request : Option ToolRequest) (execution : Option Execution) :
          (expiryRows a approval now request execution seq).Stepless :=
        ⟨rfl, by simp [expiryRows, event, stepEvents]⟩
      split
      · exact ⟨_, rfl, rows _ _⟩
      · refine Yields.bind (P := fun _ => True) ⟨trivial, fun _ => trivial⟩ fun _ _ => ?_
        exact Yields.bind (P := fun _ => True) ⟨trivial, fun _ => trivial⟩ fun _ _ => ⟨_, rfl, rows _ _⟩
    · trivial

theorem resolve_stepless (a : Id) (operator : Operator) (approve : Bool) (reason : Option String) :
    (resolve a operator approve reason : Db W ApprovalActionResult).Uses Stepless := by
  have claimed (approval : ApprovalRequest) (now : Time) :
      (resolveClaimed a approval operator approve reason now : Db W _).Uses Stepless := by
    refine .bind ⟨trivial, fun _ => trivial⟩ fun agent => ?_
    split
    · exact .bind (commitChunk_stepless fun _ => ⟨rfl, by simp [event, stepEvents]⟩) fun _ =>
        executeApprovedAction_stepless a approval _
    · split
      · exact .bind (commitChunk_stepless fun _ => ⟨rfl, by simp [rejectionRows, event, stepEvents]⟩) fun _ => trivial
      · trivial
  refine .bind ⟨trivial, fun _ => trivial⟩ fun approval => ?_
  split
  · trivial
  · refine .bind ⟨trivial, fun _ => trivial⟩ fun now => .bind (lazyExpire_stepless a _ now) fun status => ?_
    split
    · trivial
    · refine .bind ⟨trivial, fun _ => trivial⟩ fun _ => .bind ⟨trivial, fun _ => trivial⟩ fun _ => ?_
      split
      · refine .bind ⟨trivial, fun _ => trivial⟩ fun _ => .bind ⟨trivial, fun _ => trivial⟩ fun _ => ?_
        split
        · exact claimed _ _
        · trivial
      · trivial

end ApprovalEngine

theorem AgentRuntime.cancel_stepless (x : Id) : (cancel x : Db W RuntimeResult).Uses Stepless := by
  refine .bind ⟨trivial, fun _ => trivial⟩ fun execution => ?_
  split
  · trivial
  · refine .bind ⟨trivial, fun _ => trivial⟩ fun now => .bind ⟨trivial, fun _ => trivial⟩ fun transitioned =>
      .bind ⟨trivial, fun _ => trivial⟩ fun refreshed => ?_
    simp only
    split
    · exact .bind (commitChunk_stepless fun _ => ⟨rfl, by simp [eventRows, event, stepEvents]⟩) fun _ =>
        .bind ⟨trivial, fun _ => trivial⟩ fun _ => trivial
    · trivial

theorem AgentRuntime.startExecution_stepless (agentId : Id) (objective : String) (context : Option Value) :
    (startExecution agentId objective context : Db W RuntimeResult).Uses Stepless := by
  refine .bind ⟨trivial, fun _ => trivial⟩ fun agent => ?_
  split
  · trivial
  · refine .bind ⟨trivial, fun _ => trivial⟩ fun x => .bind ?_ fun _ => .bind ⟨trivial, fun _ => trivial⟩ fun _ => trivial
    have rows (actor : String) (seq : Nat) : (startedRows x actor objective seq).Stepless :=
      ⟨rfl, by simp [startedRows, stepEvents]⟩
    refine commitRounds_use trivial fun _ seq attempt => .bind ((uses_call _).2 (rows _ seq)) fun outcome => ?_
    cases outcome with
    | finished outcome => trivial
    | guardLost => exact (uses_call _).2 (rows _ seq)

end SafeOps
