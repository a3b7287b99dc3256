import SafeOps.Inventory.Issued

/-! Which calls do the things that need a permission: calling tools, deciding approvals, creating and cancelling
executions, and filing external requests. -/

namespace SafeOps
open Concurrent Program

variable {W : World} {ε α β : Type}

/-- The call may have the gateway call a tool. -/
def Call.Directs : Call → Prop
  | gateway _ _ | step _ | resume _ | submitExternalAction _ _ | submit _ _ => True
  | _ => False

/-- The call decides approval `a`, and `resolvedBy` is the name of its operator. -/
def Call.Decides (call : Call) (a : Id) (status : ApprovalStatus) (resolvedBy : String) : Prop :=
  ∃ operator, resolvedBy = operator.username ∧ ((call = .approve a operator ∧ status = .approved) ∨
    ∃ reason, call = .reject a operator reason ∧ status = .rejected)

/-- The call creates an execution of agent `agentId`. -/
def Call.Creates (call : Call) (agentId : Id) : Prop :=
  (∃ objective context, call = .startExecution agentId objective context) ∨
    ∃ operatorId request, call = .submit operatorId request ∧ request.executionId = none ∧
      request.safeopsAgentId = agentId

/-- The call files an external request of operator `operatorId`. -/
def Call.Files (call : Call) (operatorId : Id) (externalRequestId : String) : Prop :=
  ∃ request, call = .submit operatorId request ∧ request.externalRequestId = externalRequestId

/-- What needs a permission is done by the calls that are for it. -/
def Call.Does (call : Call) : Op W.Tables → Prop
  | .note (.toolExecute tc) => (tc.approvalId = none ∧ call.Directs) ∨
      ∃ a operator, tc.approvalId = some a ∧ call = .approve a operator
  | .write (.claimApproval a status _ resolvedBy) => call.Decides a status resolvedBy
  | .write (.insertExecution row) => call.Creates row.agentId
  | .write (.insertExternalRequest row) => call.Files row.operatorId row.externalRequestId
  | .write (.cancel x _) => call = .cancel x
  | _ => True

/-- The statement needs no permission. -/
def Harmless : Op W.Tables → Prop
  | .note (.toolExecute _) | .write (.claimApproval _ _ _ _) | .write (.insertExecution _)
  | .write (.insertExternalRequest _) | .write (.cancel _ _) => False
  | _ => True

theorem Harmless.does {o : Op W.Tables} (h : Harmless o) (call : Call) : call.Does o := by
  rcases o with _ | w | n | _
  · trivial
  · cases w <;> first | exact h.elim | trivial
  · cases n <;> first | exact h.elim | trivial
  · trivial

section Statements

theorem AmendOp.harmless {o : Op W.Tables} (h : AmendOp o) : Harmless o := by
  rcases o with _ | w | _ | _
  · trivial
  · cases w <;> first | exact h.elim | trivial
  · exact h.elim
  · trivial

theorem LeaseOp.harmless {o : Op W.Tables} (h : LeaseOp o) : Harmless o := AmendOp.harmless (LeaseOp.amendOp h)

/-- What a gateway call issues is done by the calls that may have it call a tool. -/
theorem Reads.does {o : Op W.Tables} (h : Reads o) {call : Call} (hc : call.Directs) : call.Does o := by
  rcases o with _ | w | n | _
  · trivial
  · cases w <;> first | exact h.elim | trivial
  · cases n with
    | toolExecute tc => exact .inl ⟨h, hc⟩
    | _ => trivial
  · trivial

theorem Rows.within_harmless {rows : Rows W} {x : Id} {seq : Nat} (h : Chunk x seq rows) {K : Op W.Tables → Prop}
    (hK : ∀ o, Harmless o → K o) : rows.Within (fun t => ∀ attempt, K (.write (.commit attempt t)))
      fun g t => ∀ attempt, K (.write (.commitIf attempt g t)) :=
  h.within.mono (fun _ _ _ => hK _ trivial) fun _ _ _ _ => hK _ trivial

end Statements

section Programs

variable {call : Call}

theorem Uses.does {p : Program W.statements ε α} (h : p.Uses Harmless) : p.Uses call.Does :=
  h.mono fun _ h => h.does call

theorem ToolGateway.execute_does (hc : call.Directs) (gc : GatewayCall) (context : Option Value) :
    (ToolGateway.execute gc context : Db W GatewayResult).Uses call.Does :=
  (ToolGateway.execute_built gc context).uses (fun _ h => h.does hc) (fun _ => trivial) fun _ _ _ h =>
    Rows.within_harmless (.gateway h) fun _ h => h.does call

/-- The parts of a call that may have the gateway call a tool. -/
theorem Assembled.does {p : Program W.statements ε α} (h : Assembled AmendOp RuntimeChunk p)
    (hc : call.Directs) : p.Uses call.Does :=
  pieces_use h (fun _ h => h.harmless.does call) (fun _ => trivial)
    (fun _ _ _ h => Rows.within_harmless (.runtime h) fun _ h => h.does call)
    fun _ gc context => ToolGateway.execute_does hc gc context

theorem Leasing.does {p : Program W.statements ε α} (h : Leasing p) (hc : call.Directs) : p.Uses call.Does :=
  Assembled.does (h.amending.assembled) hc

theorem startExecution_uses {K : Op W.Tables → Prop} (agentId : Id) (objective : String) (context : Option Value)
    (hK : ∀ o, Harmless o → K o) (hrow : ∀ row : Execution, row.agentId = agentId → K (.write (.insertExecution row))) :
    (AgentRuntime.startExecution agentId objective context : Db W RuntimeResult).Uses K := by
  refine .bind ((uses_call _).2 (hK _ trivial)) fun agent => ?_
  split
  · trivial
  · refine .bind ((uses_call _).2 (hrow _ rfl)) fun x => .bind (commitRows_uses ?_ (hK _ trivial) ?_) fun _ =>
      .bind (.bind ((uses_call _).2 (hK _ trivial)) fun _ => trivial) fun _ => trivial
    · intro o ho
      refine hK o ?_
      cases o <;> trivial
    · intro _ _
      exact ⟨fun _ => hK _ trivial, fun _ => hK _ trivial⟩

theorem reconcileIfResolved_harmless (row : ExternalActionRequest) :
    (ExternalActionService.reconcileIfResolved row : Db W ExternalActionRequest).Uses Harmless := by
  have reload (row : ExternalActionRequest) :
      (ExternalActionService.reload row : Db W ExternalActionRequest).Uses Harmless :=
    .bind ((uses_call _).2 trivial) fun _ => trivial
  refine .bind ?_ fun approval => ?_
  · unfold AgentRuntime.approvalNamed
    split
    · exact (uses_call _).2 trivial
    · trivial
  split
  · trivial
  · split
    · trivial
    · refine .bind ?_ fun reconciled => .bind ?_ fun row => .bind ((uses_call _).2 trivial) fun step => ?_
      · exact Built.uses (AgentRuntime.reconcileExternalStep_built _) (fun _ => LeaseOp.harmless) (fun _ => trivial)
          fun _ _ _ h => Rows.within_harmless (.runtime h) fun _ h => h
      · unfold ExternalActionService.reloadIf
        split
        · exact reload _
        · trivial
      · split
        · refine .bind ((uses_call _).2 trivial) fun _ => .bind (reload _) fun refreshed => ?_
          split
          · exact .bind (commitChunk_uses trivial fun _ _ => trivial) fun _ => reload _
          · trivial
        · trivial

theorem submit_does (operatorId : Id) (request : SubmitActionRequest) :
    (ExternalActionService.submit operatorId request : Db W ActionResponse).Uses
      (Call.submit operatorId request).Does := by
  have amending {α : Type} {p : Db W α} (h : Amending p) : p.Uses (Call.submit operatorId request).Does :=
    Assembled.does h.assembled trivial
  refine .bind (amending (ExternalActionService.requireAgentMapping_amending _ _)) fun _ =>
    .bind ((uses_call _).2 trivial) fun existing => ?_
  split
  · exact amending (ExternalActionService.retry_amending _ _ _)
  · refine .bind ?_ fun x => .bind ((uses_call _).2 ⟨request, rfl, rfl⟩) fun inserted => ?_
    · unfold ExternalActionService.requestedExecution
      split
      · refine .bind ((uses_call _).2 trivial) fun execution => ?_
        split <;> trivial
      · rename_i hx
        refine .bind (startExecution_uses _ _ _ (fun _ h => h.does _) fun row hrow =>
          .inr ⟨operatorId, request, rfl, hx, hrow.symm⟩) fun started => ?_
        split <;> trivial
    · split
      · exact .bind (amending (ExternalActionService.emitAudit_amending _ _ (by decide))) fun _ =>
          amending (ExternalActionService.invokeAndApply_amending _ _ _ _)
      · refine .bind ((uses_call _).2 trivial) fun existing => ?_
        split
        · exact amending (ExternalActionService.retry_amending _ _ _)
        · trivial

/-- Nobody but the operator of the call is named as the resolver. -/
def Signed (operator : Operator) : Op W.Tables → Prop
  | .write (.claimApproval _ _ _ resolvedBy) => resolvedBy = operator.username
  | _ => True

theorem ExpiryOp.signed {a : Id} {o : Op W.Tables} (operator : Operator) (h : ExpiryOp a o) : Signed operator o := by
  rcases o with _ | w | _ | _
  · trivial
  · cases w <;> trivial
  · trivial
  · trivial

theorem finalizeExecutionOutcome_signed (operator : Operator) (a : Id) (approval : ApprovalRequest)
    (agentName : String) (success : Bool) (error : Option ToolError) (result : Option Value) :
    (ApprovalEngine.finalizeExecutionOutcome a approval agentName success error result :
      Db W ApprovalActionResult).Uses (Signed operator) :=
  .bind ((uses_call _).2 trivial) fun _ => .bind (commitChunk_uses trivial fun _ _ => trivial) fun _ => trivial

theorem executeApprovedAction_signed (operator : Operator) (a : Id) (approval : ApprovalRequest) (agentName : String) :
    (ApprovalEngine.executeApprovedAction a approval agentName : Db W _).Uses (Signed operator) := by
  refine .bind (commitChunk_uses trivial fun _ _ => trivial) fun _ => ?_
  split
  · exact finalizeExecutionOutcome_signed _ _ _ _ _ _ _
  · refine .bind (.tryCatch (.bind (callTool_uses _ _ trivial fun _ => trivial) fun _ => trivial) fun _ => trivial)
      fun outcome => ?_
    split
    · exact finalizeExecutionOutcome_signed _ _ _ _ _ _ _
    · split <;> exact finalizeExecutionOutcome_signed _ _ _ _ _ _ _

theorem resolve_signed (a : Id) (operator : Operator) (approve : Bool) (reason : Option String) :
    (ApprovalEngine.resolve a operator approve reason : Db W _).Uses (Signed operator) := by
  refine .bind ((uses_call _).2 trivial) fun approval => ?_
  split
  · trivial
  · refine .bind ((uses_call _).2 trivial) fun now => .bind ?_ fun status => ?_
    · exact (ApprovalEngine.lazyExpire_built a _ now).uses (fun _ => ExpiryOp.signed operator) (fun _ => trivial)
        fun _ _ _ h => Rows.within_harmless (.approval (ExpiryChunk.approvalChunk h)) fun o ho => by
          rcases o with _ | w | _ | _
          · trivial
          · cases w <;> trivial
          · trivial
          · trivial
    split
    · trivial
    · refine .bind ((uses_call _).2 trivial) fun toolRequest => .bind ((uses_call _).2 trivial) fun execution => ?_
      split
      · refine .bind ((uses_call _).2 rfl) fun claimed => .bind ((uses_call _).2 trivial) fun refreshed => ?_
        split
        · refine .bind ((uses_call _).2 trivial) fun agent => ?_
          split
          · exact .bind (commitChunk_uses trivial fun _ _ => trivial) fun _ => executeApprovedAction_signed _ _ _ _
          · split
            · exact .bind (commitChunk_uses trivial fun _ _ => trivial) fun _ => trivial
            · trivial
        · trivial
      · trivial

end Programs

section Calls

/-- A statement of the resolution of an approval, made in the operator's name. -/
theorem ApprovalOp.does {a : Id} {approve : Bool} {operator : Operator} {call : Call} {o : Op W.Tables}
    (h : ApprovalOp a approve o) (hs : Signed operator o) (happrove : approve = true → call = .approve a operator)
    (hreject : approve = false → ∃ reason, call = .reject a operator reason) : call.Does o := by
  rcases o with _ | w | n | _
  · trivial
  · cases w with
    | claimApproval b status now resolvedBy =>
      obtain ⟨rfl, hstatus⟩ : b = a ∧ status = if approve then .approved else .rejected := h
      refine ⟨operator, hs, ?_⟩
      cases approve with
      | true => exact .inl ⟨happrove rfl, hstatus⟩
      | false =>
        obtain ⟨reason, hcall⟩ := hreject rfl
        exact .inr ⟨reason, hcall, hstatus⟩
    | _ => first | exact h.elim | trivial
  · cases n with
    | toolExecute tc => exact .inr ⟨a, operator, h.1, happrove h.2⟩
    | _ => trivial
  · trivial

theorem CancelOp.does {x : Id} {o : Op W.Tables} (h : CancelOp x o) : (Call.cancel x).Does o := by
  rcases o with _ | w | n | _
  · trivial
  · cases w with
    | cancel y now => exact congrArg Call.cancel (show y = x from h).symm
    | _ => exact h.elim
  · exact h.elim
  · trivial

/-- What every call does. -/
theorem Call.code_does (call : Call) : (call.code : Db W CallResult).Uses call.Does := by
  have resolves (a : Id) (operator : Operator) (approve : Bool) (reason : Option String) {call : Call}
      (happrove : approve = true → call = .approve a operator)
      (hreject : approve = false → ∃ reason, call = .reject a operator reason) :
      (ApprovalEngine.resolve a operator approve reason : Db W _).Uses call.Does := by
    have statements : (ApprovalEngine.resolve a operator approve reason : Db W _).Uses fun o =>
        ApprovalOp a approve o ∨ Harmless o :=
      (ApprovalEngine.resolve_built a operator approve reason).uses (fun _ => .inl) (fun _ => .inr trivial)
        fun _ _ _ h => Rows.within_harmless (K := fun o => ApprovalOp a approve o ∨ Harmless o) (.approval h)
          fun _ h => .inr h
    exact (statements.and (resolve_signed a operator approve reason)).mono fun o h =>
      h.1.elim (fun ho => ho.does h.2 happrove hreject) fun ho => ho.does call
  cases call with
  | gateway gc context =>
    refine .bind (ToolGateway.execute_does ?_ gc context) fun _ => trivial
    trivial
  | approve a operator =>
    exact .bind (resolves a operator true none (fun _ => rfl) fun h => (by cases h)) fun _ => trivial
  | reject a operator reason =>
    exact .bind (resolves a operator false reason (fun h => (by cases h)) fun _ => ⟨reason, rfl⟩) fun _ => trivial
  | startExecution agentId objective context =>
    exact .bind (startExecution_uses agentId objective context (fun _ h => h.does _) fun row hrow =>
      .inl ⟨objective, context, hrow ▸ rfl⟩) fun _ => trivial
  | step x => exact .bind ((AgentRuntime.step_leasing x).does trivial) fun _ => trivial
  | resume x => exact .bind ((AgentRuntime.resume_leasing x).does trivial) fun _ => trivial
  | cancel x =>
    exact .bind ((AgentRuntime.cancel_built x).uses (fun _ h => h.does) (fun _ => trivial) fun _ _ _ h =>
      Rows.within_harmless (.cancel h) fun _ h => h.does _) fun _ => trivial
  | submitExternalAction x action =>
    exact .bind ((AgentRuntime.submitExternalAction_leasing x action).does trivial) fun _ => trivial
  | reconcileExternalStep x =>
    exact .bind (Built.uses (AgentRuntime.reconcileExternalStep_built x) (fun _ h => h.harmless.does _)
      (fun _ => trivial) fun _ _ _ h => Rows.within_harmless (.runtime h) fun _ h => h.does _) fun _ => trivial
  | submit operatorId request => exact .bind (submit_does operatorId request) fun _ => trivial
  | getStatus operatorId key =>
    refine .bind (.bind ((uses_call _).2 trivial) fun existing => ?_) fun _ => trivial
    split
    · trivial
    · split
      · exact .bind (Uses.does (reconcileIfResolved_harmless _)) fun _ => trivial
      · trivial

end Calls

end SafeOps
