import SafeOps.Inventory.Issued

/-! What a submission has established before it enters the gateway: its operator's mandate to act as the
agent, the execution, and the external request on file. -/

namespace SafeOps
open Concurrent Program

variable {W : World} {ε α : Type}

/-- What a submission has read or written of its mandate. -/
structure Mandate where
  mapped : Bool := false
  executions : List (Id × Execution) := []
  requests : List ExternalActionRequest := []

namespace Mandate

/-- The mandate covers the gateway call: it carries the request's arguments for the execution and the tool
of an external request with the given hash, on behalf of the agent the execution belongs to. -/
structure Covers (m : Mandate) (request : SubmitActionRequest) (payloadHash : String) (call : GatewayCall) :
    Prop where
  mapped : m.mapped = true
  arguments : call.arguments = request.arguments
  execution : ∃ row, (call.executionId, row) ∈ m.executions ∧ row.agentId = call.agentId
  request : ∃ row ∈ m.requests, row.payloadHash = payloadHash ∧ row.executionId = call.executionId ∧
    row.toolName = call.toolName

/-- The row is that of a first submission, for an execution of the requested agent. -/
def Opens (m : Mandate) (o : Id) (request : SubmitActionRequest) (payloadHash : String)
    (row : ExternalActionRequest) : Prop :=
  ∃ x execution, (x, execution) ∈ m.executions ∧ execution.agentId = request.safeopsAgentId ∧
    row = ExternalActionService.newRequest o x request payloadHash

/-- What `m` has established, `m'` has too. -/
structure Since (m m' : Mandate) : Prop where
  mapped : m.mapped = true → m'.mapped = true
  executions : m.executions ⊆ m'.executions
  requests : m.requests ⊆ m'.requests

theorem Since.refl (m : Mandate) : m.Since m := ⟨id, fun _ h => h, fun _ h => h⟩

theorem Since.trans {m₁ m₂ m₃ : Mandate} (h : m₁.Since m₂) (h' : m₂.Since m₃) : m₁.Since m₃ :=
  ⟨h'.mapped ∘ h.mapped, List.Subset.trans h.executions h'.executions,
    List.Subset.trans h.requests h'.requests⟩

variable {m m' : Mandate} {request : SubmitActionRequest} {payloadHash : String}

theorem Covers.since {call : GatewayCall} (h : m.Covers request payloadHash call) (hs : m.Since m') :
    m'.Covers request payloadHash call := by
  obtain ⟨execution, hexecution, ha⟩ := h.execution
  obtain ⟨row, hrow, hr⟩ := h.request
  exact ⟨hs.mapped h.mapped, h.arguments, ⟨execution, hs.executions hexecution, ha⟩,
    ⟨row, hs.requests hrow, hr⟩⟩

end Mandate

/-- Follows a submission of `request` by operator `o`. -/
def mandating (o : Id) (request : SubmitActionRequest) : Monitor W.statements Mandate where
  next m op := match op with
    | .query (.mapping o' agentId) => fun (mapped : Bool) =>
      if o' = o ∧ agentId = request.safeopsAgentId ∧ mapped = true then { m with mapped := true } else m
    | .query (.execution x) => fun (row : Option Execution) =>
      { m with executions := (row.map fun row => (x, row)).toList ++ m.executions }
    | .query (.externalRequest o' key) => fun (row : Option ExternalActionRequest) =>
      if o' = o ∧ key = request.externalRequestId then { m with requests := row.toList ++ m.requests }
      else m
    | .write (.insertExecution row) => fun x => { m with executions := (x, row) :: m.executions }
    | .write (.insertExternalRequest row) => fun (inserted : Bool) =>
      if inserted = true ∧ row.operatorId = o ∧ row.externalRequestId = request.externalRequestId then
        { m with requests := row :: m.requests }
      else m
    | _ => fun _ => m
  ok m op := match op with
    | .note (.gatewayEnter call) =>
      m.Covers request (W.hashPayload (ExternalActionService.payload request)) call
    | .write (.insertExternalRequest row) =>
      m.Opens o request (W.hashPayload (ExternalActionService.payload request)) row
    | _ => True

/-- The gateway is entered with calls in `P` only, and no external request is opened. -/
def Entering (P : GatewayCall → Prop) : Op W.Tables → Prop
  | .note (.gatewayEnter call) => P call
  | .write (.insertExternalRequest _) => False
  | _ => True

/-- Follows any call: only a submission opens an external request. -/
def Call.mandate : Call → Monitor W.statements Mandate
  | submit o submitted => mandating o submitted
  | _ => ⟨fun m _ _ => m, fun _ op => Entering (fun _ => True) op⟩

section Rules

variable {o : Id} {request : SubmitActionRequest} {m : Mandate} {P P' : GatewayCall → Prop}
  {K : Op W.Tables → Prop}

theorem mandating_since (o : Id) (request : SubmitActionRequest) (m : Mandate) (op : Op W.Tables)
    (r : op.Reply) :
    m.Since ((mandating o request).next m op r) := by
  rcases op with q | w | _ | _
  · cases q with
    | mapping o' agentId =>
      simp only [mandating]
      split
      · exact ⟨fun _ => rfl, fun _ h => h, fun _ h => h⟩
      · exact .refl m
    | execution x => exact ⟨id, List.subset_append_right _ _, fun _ h => h⟩
    | externalRequest o' key =>
      simp only [mandating]
      split
      · exact ⟨id, fun _ h => h, List.subset_append_right _ _⟩
      · exact .refl m
    | _ => exact .refl m
  · cases w with
    | insertExecution row => exact ⟨id, List.subset_cons_self _ _, fun _ h => h⟩
    | insertExternalRequest row =>
      simp only [mandating]
      split
      · exact ⟨id, fun _ h => h, List.subset_cons_self _ _⟩
      · exact .refl m
    | _ => exact .refl m
  · exact .refl m
  · exact .refl m

theorem Entering.mono {op : Op W.Tables} (h : Entering P op) (hP : ∀ call, P call → P' call) :
    Entering P' op := by
  rcases op with _ | w | n | _
  · trivial
  · cases w <;> exact h
  · cases n with
    | gatewayEnter call => exact hP call h
    | _ => trivial
  · trivial

/-- A program that enters the gateway under the mandate only, and opens no request, forgets nothing. -/
theorem Uses.mandated {p : Program W.statements ε α}
    (h : p.Uses (Entering (m.Covers request (W.hashPayload (ExternalActionService.payload request))))) :
    p.Obeys (mandating o request) (fun _ => m.Since) (fun _ => m.Since) m := by
  refine h.keeps (I := m.Since) (fun m' op hop hm => ?_) (fun m' op r _ hm => hm.trans (mandating_since o request m' op r))
    (.refl m)
  rcases op with _ | w | n | _
  · trivial
  · cases w with
    | insertExternalRequest row => exact hop.elim
    | _ => trivial
  · cases n with
    | gatewayEnter call => exact Mandate.Covers.since hop hm
    | _ => trivial
  · trivial

theorem LeaseOp.entering {op : Op W.Tables} (h : LeaseOp op) : Entering P op := by
  rcases op with _ | w | _ | _
  · trivial
  · cases w <;> first | exact h.elim | trivial
  · exact h.elim
  · trivial

theorem RuntimeOp.entering {op : Op W.Tables} (h : RuntimeOp op) : Entering P op := by
  rcases op with _ | w | _ | _
  · trivial
  · cases w <;> first | exact h.elim | trivial
  · exact h.elim
  · trivial

/-- Chunks enter no gateway call and open no request. -/
theorem pieces_enter {G : Prop} {p : Program W.statements ε α} {C : Id → Nat → Rows W → Prop}
    (h : Composed (Piece K C G) p) (hK : ∀ op, K op → Entering P op)
    (hC : ∀ x seq rows, C x seq rows → Chunk x seq rows)
    (hgateway : G → ∀ call context, (ToolGateway.execute call context : Db W _).Uses (Entering P)) :
    p.Uses (Entering P) :=
  pieces_use h hK (fun _ => trivial) (fun x seq rows hrows =>
    (hC x seq rows hrows).within.mono (fun _ _ _ => trivial) fun _ _ _ _ => trivial) hgateway

end Rules

section Gateway

variable {P : GatewayCall → Prop}

theorem Inside.entering {op : Op W.Tables} (h : Inside op) : Entering P op := by
  rcases op with _ | w | n | _
  · trivial
  · cases w <;> first | exact h.elim | trivial
  · cases n <;> first | exact h.elim | trivial
  · trivial

/-- A gateway call enters the gateway once, as the call it is. -/
theorem ToolGateway.execute_enters (call : GatewayCall) (context : Option Value) :
    (execute call context : Db W GatewayResult).Uses (Entering (· = call)) := by
  refine .bind ⟨rfl, fun _ => trivial⟩ fun _ => .bind (.tryCatch ?_ fun _ => .bind ⟨trivial, fun _ => trivial⟩
    fun _ => trivial) fun _ => .bind ⟨trivial, fun _ => trivial⟩ fun _ => trivial
  exact pieces_enter (executeGuarded_built call context) (fun _ => Inside.entering) (fun _ _ _ => .gateway)
    False.elim

end Gateway

namespace AgentRuntime

variable {P : GatewayCall → Prop}

theorem runtime_enters {p : Program W.statements ε α}
    (h : Composed (Piece StepOp RuntimeChunk False) p) : p.Uses (Entering P) :=
  pieces_enter h (fun _ h => h.leaseOp.entering) (fun _ _ _ => .runtime) False.elim

/-- A tool-call step enters the gateway with its own call only, also when it retries. -/
theorem runToolCallStep_enters (x agentId : Id) (action : ToolAction) (retries : Nat) (step : ExecutionStep) :
    (runToolCallStep x agentId action retries step : Db W RuntimeResult).Uses
      (Entering (· = gatewayCall x agentId action)) := by
  induction retries generalizing step with
  | zero =>
    exact .bind (ToolGateway.execute_enters _ _) fun _ => .bind ((uses_call _).2 trivial) fun _ =>
      runtime_enters (recordResult_built x action step _ _)
  | succ retries ih =>
    refine .bind (ToolGateway.execute_enters _ _) fun result => .bind ((uses_call _).2 trivial) fun _ => ?_
    split
    · refine .bind (.bind ((uses_call _).2 trivial) fun _ => (uses_call _).2 trivial) fun _ =>
        .bind (runtime_enters (claimStep_built _ _ _)) fun retryStep => ?_
      split
      · exact ih _
      · exact runtime_enters (recordResult_built x action step _ _)
    · exact runtime_enters (recordResult_built x action step _ _)

theorem toolCallStep_enters (x agentId : Id) (action : ToolAction) :
    (toolCallStep x agentId action : Db W RuntimeResult).Uses
      (Entering (· = gatewayCall x agentId action)) := by
  refine .bind (runtime_enters (claimStep_built _ _ _)) fun step => ?_
  split
  · exact .bind (runtime_enters (currentStatus_built x)) fun _ => trivial
  · exact .bind (commitChunk_uses trivial fun _ _ => trivial) fun _ => runToolCallStep_enters x agentId action 1 _

theorem submitWithin_enters (x : Id) (action : ToolAction) (execution : Execution) :
    (submitWithin x action execution : Db W RuntimeResult).Uses
      (Entering (· = gatewayCall x execution.agentId action)) := by
  refine .bind ((uses_call _).2 trivial) fun history =>
    .bind (runtime_enters (failMaxStepsExceeded_built x _)) fun exceeded => ?_
  split
  · trivial
  · exact toolCallStep_enters x _ action

variable {o : Id} {request : SubmitActionRequest} {m : Mandate}

/-- A critical section forgets nothing if its body keeps to the mandate once the execution is read. -/
theorem withStepping_since {x : Id} {conflict : Execution → α} {body : Execution → Db W α}
    (h : ∀ execution m', m.Since m' → (x, execution) ∈ m'.executions → (body execution).Uses
      (Entering (m'.Covers request (W.hashPayload (ExternalActionService.payload request))))) :
    (withStepping x conflict body).Obeys (mandating o request) (fun _ => m.Since) (fun _ => m.Since) m := by
  refine ⟨trivial, fun claimId => ⟨trivial, fun now => ⟨trivial, fun claimed => ⟨trivial, fun execution => ?_⟩⟩⟩⟩
  cases (show Option Execution from execution) with
  | none => exact ⟨id, fun _ h => h, fun _ h => h⟩
  | some execution =>
    have read : m.Since { m with executions := (x, execution) :: m.executions } :=
      ⟨id, List.subset_cons_self _ _, fun _ h => h⟩
    cases (show Bool from claimed) with
    | false => exact read
    | true =>
      refine (obeys_tryFinally _ _).2 ((Uses.mandated (h execution _ read (List.mem_cons_self ..))).mono ?_ ?_)
      · exact fun _ m' hm => ⟨trivial, fun _ => read.trans hm⟩
      · exact fun _ m' hm => ⟨trivial, fun _ => read.trans hm⟩

theorem submitExternalAction_since {x : Id} {action : ToolAction}
    (h : ∀ execution m', m.Since m' → (x, execution) ∈ m'.executions →
      m'.Covers request (W.hashPayload (ExternalActionService.payload request))
        (gatewayCall x execution.agentId action)) :
    (submitExternalAction x action : Db W RuntimeResult).Obeys (mandating o request) (fun _ => m.Since)
      (fun _ => m.Since) m := by
  refine .call_bind trivial fun (execution : Option Execution) => ?_
  have read := mandating_since (W := W) o request m (.query (.execution x)) execution
  cases execution with
  | none => exact read
  | some execution =>
    simp only
    split
    · exact read
    · refine (withStepping_since fun execution m' hm hx => ?_).mono (fun _ _ hm => read.trans hm)
        fun _ _ hm => read.trans hm
      split
      · trivial
      · refine (submitWithin_enters x action execution).mono fun op hop => hop.mono ?_
        rintro call rfl
        exact h execution m' (read.trans hm) hx

theorem startExecution_mandated (agentId : Id) (objective : String) (context : Option Value) :
    (startExecution agentId objective context : Db W RuntimeResult).Obeys (mandating o request)
      (fun result m' => m.Since m' ∧ ∀ x, result.executionId = some x → ∃ execution,
        (x, execution) ∈ m'.executions ∧ execution.agentId = agentId) (fun _ => m.Since) m := by
  refine .call_bind trivial fun (agent : Option Agent) => ?_
  cases agent with
  | none => exact ⟨.refl m, fun x hx => by cases hx⟩
  | some agent =>
    refine .call_bind trivial fun (x : Id) => ?_
    have inserted : m.Since { m with executions := (x, newExecution agentId objective context) :: m.executions } :=
      ⟨id, List.subset_cons_self _ _, fun _ h => h⟩
    refine .bind (Uses.mandated (runtime_enters (built_rows fun _ _ => .started _ _))) (fun _ _ => inserted.trans)
      fun _ m₁ h₁ => .bind (Uses.mandated (runtime_enters (currentStatus_built x)))
        (fun _ _ h => inserted.trans (h₁.trans h)) fun _ m₂ h₂ => ⟨inserted.trans (h₁.trans h₂), ?_⟩
    rintro _ ⟨⟩
    exact ⟨_, (h₁.trans h₂).executions (List.mem_cons_self ..), rfl⟩

end AgentRuntime

namespace ExternalActionService

variable {P : GatewayCall → Prop} {o : Id} {request : SubmitActionRequest} {m : Mandate}

theorem emitAudit_enters (x : Id) (type : AuditEventType) (metadata : List (String × Value)) :
    (emitAudit x type metadata : Db W Unit).Uses (Entering P) :=
  commitChunk_uses trivial fun _ _ => trivial

theorem flushOutcome_enters (row : ExternalActionRequest) (columns : ExternalActionUpdate) :
    (flushOutcome row columns : Db W ExternalActionRequest).Uses (Entering P) := by
  refine .bind ((uses_call _).2 trivial) fun _ => .bind (.bind ((uses_call _).2 trivial) fun _ => trivial)
    fun refreshed => ?_
  split
  · exact .bind (emitAudit_enters _ _ _) fun _ => .bind ((uses_call _).2 trivial) fun _ => trivial
  · trivial

theorem reconcileIfResolved_enters (row : ExternalActionRequest) :
    (reconcileIfResolved row : Db W ExternalActionRequest).Uses (Entering P) := by
  refine .bind (AgentRuntime.runtime_enters (AgentRuntime.approvalNamed_built _)) fun approval => ?_
  split
  · trivial
  · split
    · trivial
    · refine .bind (pieces_enter (AgentRuntime.reconcileExternalStep_built _) (fun _ => LeaseOp.entering)
        (fun _ _ _ => .runtime) False.elim) fun reconciled => .bind ?_ fun row => .bind ((uses_call _).2 trivial)
          fun step => ?_
      · unfold reloadIf
        split
        · exact .bind ((uses_call _).2 trivial) fun _ => trivial
        · trivial
      · split
        · exact flushOutcome_enters _ _
        · trivial

theorem getStatus_enters (key : String) :
    (getStatus o key : Db W ActionStatusResponse).Uses (Entering P) := by
  refine .bind ((uses_call _).2 trivial) fun existing => ?_
  split
  · trivial
  · split
    · exact .bind (reconcileIfResolved_enters _) fun _ => trivial
    · trivial

/-- What the gateway is asked on behalf of a row that is on file. -/
theorem invokeAndApply_since {row : ExternalActionRequest} {loaded : Bool} {sources : List Source}
    (hm : m.mapped = true) (hrow : row ∈ m.requests)
    (hhash : row.payloadHash = W.hashPayload (payload request)) :
    (invokeAndApply row loaded request.arguments sources : Db W ActionResponse).Obeys (mandating o request)
      (fun _ => m.Since) (fun _ => m.Since) m := by
  have marked : (markProcessing row loaded : Db W Unit).Uses
      (Entering (m.Covers request (W.hashPayload (payload request)))) := by
    unfold markProcessing
    split
    · trivial
    · exact (uses_call _).2 trivial
  refine .bind (.bind (Uses.mandated marked) (fun _ _ h => h) fun _ m₁ h₁ =>
    (AgentRuntime.submitExternalAction_since fun execution m₂ h₂ hx => ?_).mono
      (fun _ _ h => h₁.trans h) fun _ _ h => h₁.trans h) (fun _ _ h => h) fun result m₁ h₁ => ?_
  · have h := h₁.trans h₂
    exact ⟨h.mapped hm, rfl, ⟨execution, hx, rfl⟩, ⟨row, h.requests hrow, hhash, rfl, rfl⟩⟩
  · refine (Uses.mandated ?_).mono (fun _ _ h => h₁.trans h) fun _ _ h => h₁.trans h
    split
    · trivial
    · exact .bind (.bind ((uses_call _).2 trivial) fun _ => trivial) fun _ => .bind ((uses_call _).2 trivial)
        fun _ => .bind (flushOutcome_enters _ _) fun _ => trivial

/-- A retry keeps to the mandate, whatever the row it has found: the hash is checked first. -/
theorem retry_since {existing : ExternalActionRequest} (hm : m.mapped = true) (hrow : existing ∈ m.requests) :
    (retry existing request (W.hashPayload (payload request)) : Db W ActionResponse).Obeys
      (mandating o request) (fun _ => m.Since) (fun _ => m.Since) m := by
  unfold retry checkHashOrConflict
  split
  · exact .refl m
  · rename_i hhash
    change (resolveExisting existing request.arguments (normalizeSources request.sources)).Obeys _ _ _ m
    unfold resolveExisting
    split
    · exact .refl m
    · split
      · exact Uses.mandated (.bind (reconcileIfResolved_enters _) fun _ => trivial)
      · refine .call_bind trivial fun (step : Option ExecutionStep) => ?_
        cases step with
        | some step => exact Uses.mandated (.bind (flushOutcome_enters _ _) fun _ => trivial)
        | none => exact invokeAndApply_since hm hrow (not_not.1 hhash)

theorem requestedExecution_mandated :
    (requestedExecution request : Db W Id).Obeys (mandating o request)
      (fun x m' => m.Since m' ∧ ∃ execution, (x, execution) ∈ m'.executions ∧
        execution.agentId = request.safeopsAgentId) (fun _ => m.Since) m := by
  unfold requestedExecution
  split
  · rename_i x _
    refine .call_bind trivial fun (execution : Option Execution) => ?_
    have read := mandating_since (W := W) o request m (.query (.execution x)) execution
    split
    · rename_i hagent
      obtain ⟨row, rfl, ha⟩ := (Option.any_eq_true _ _).1 hagent
      exact ⟨read, row, List.mem_cons_self .., of_decide_eq_true ha⟩
    · exact read
  · refine .bind (AgentRuntime.startExecution_mandated _ _ _) (fun _ _ h => h) fun started m₁ h₁ => ?_
    split
    · rename_i x hx
      exact ⟨h₁.1, h₁.2 x hx⟩
    · exact h₁.1

/-- The mapping is checked before anything else. -/
theorem requireAgentMapping_mandated :
    (requireAgentMapping o request.safeopsAgentId : Db W Agent).Obeys (mandating o request)
      (fun _ m' => m'.mapped = true) (fun _ _ => True) m := by
  refine .call_bind trivial fun (agent : Option Agent) => ?_
  cases agent with
  | none => trivial
  | some agent =>
    refine .call_bind trivial fun (mapped : Bool) => ?_
    cases mapped with
    | false => trivial
    | true => simp [mandating]

theorem submit_mandated :
    (submit o request : Db W ActionResponse).Obeys (mandating o request) (fun _ _ => True) (fun _ _ => True) m := by
  refine .bind requireAgentMapping_mandated (fun _ _ _ => trivial) fun _ m₁ hm₁ =>
    .call_bind trivial fun (existing : Option ExternalActionRequest) => ?_
  have retried {m : Mandate} (hm : m.mapped = true) {existing : ExternalActionRequest} :
      (retry existing request (W.hashPayload (payload request)) : Db W ActionResponse).Obeys
        (mandating o request) (fun _ _ => True) (fun _ _ => True)
        ((mandating o request).next m
          (.query (.externalRequest o request.externalRequestId) : Op W.Tables) (some existing)) := by
    refine (retry_since ?_ ?_).mono (fun _ _ _ => trivial) fun _ _ _ => trivial
    · exact (mandating_since (W := W) o request m (.query (.externalRequest o request.externalRequestId)) _).mapped hm
    · simp [mandating]
  cases existing with
  | some existing => exact retried hm₁
  | none =>
    have read := mandating_since (W := W) o request m₁
      (.query (.externalRequest o request.externalRequestId)) none
    refine .bind requestedExecution_mandated (fun _ _ _ => trivial) fun x m₂ h₂ =>
      .call_bind ?_ fun (inserted : Bool) => ?_
    · obtain ⟨_, execution, hx, ha⟩ := h₂
      exact ⟨x, execution, hx, ha, rfl⟩
    have hm₂ := (read.trans h₂.1).mapped hm₁
    cases inserted with
    | true =>
      refine .bind (Uses.mandated (emitAudit_enters _ _ _)) (fun _ _ _ => trivial) fun _ m₃ h₃ =>
        (invokeAndApply_since ?_ (h₃.requests ?_) rfl).mono (fun _ _ _ => trivial) fun _ _ _ => trivial
      · exact h₃.mapped (by simpa [mandating, newRequest] using hm₂)
      · simp [mandating, newRequest]
    | false =>
      refine .call_bind trivial fun (existing : Option ExternalActionRequest) => ?_
      cases existing with
      | some existing => exact retried (by simpa [mandating] using hm₂)
      | none => trivial

end ExternalActionService

theorem ToolGateway.execute_opens_nothing (call : GatewayCall) (context : Option Value) :
    (execute call context : Db W GatewayResult).Uses (Entering fun _ => True) :=
  (execute_enters call context).mono fun _ h => h.mono fun _ _ => trivial

theorem CancelOp.entering {P : GatewayCall → Prop} {x : Id} {op : Op W.Tables} (h : CancelOp x op) :
    Entering P op := by
  rcases op with _ | w | _ | _
  · trivial
  · cases w <;> first | exact h.elim | trivial
  · exact h.elim
  · trivial

theorem ApprovalOp.entering {P : GatewayCall → Prop} {a : Id} {approve : Bool} {op : Op W.Tables}
    (h : ApprovalOp a approve op) : Entering P op := by
  rcases op with _ | w | n | _
  · trivial
  · cases w <;> first | exact h.elim | trivial
  · cases n <;> first | exact h.1.elim | trivial
  · trivial

/-- Every call keeps to its mandate. -/
theorem Call.code_mandated (call : Call) : (call.code : Db W CallResult).Obeys call.mandate
    (fun _ _ => True) (fun _ _ => True) {} := by
  have others (h : (call.code : Db W CallResult).Uses (Entering fun _ => True))
      (hs : (call.mandate : Monitor W.statements Mandate) =
        ⟨fun m _ _ => m, fun _ op => Entering (fun _ => True) op⟩) :
      (call.code : Db W CallResult).Obeys call.mandate (fun _ _ => True) (fun _ _ => True) {} := by
    rw [hs]
    exact h.keeps (I := fun _ => True) (fun _ _ h _ => h) (fun _ _ _ _ _ => trivial) trivial
  have assembled (hK : ∀ op : Op W.Tables, call.Issues op → Entering (fun _ => True) op) :
      (call.code : Db W CallResult).Uses (Entering fun _ => True) :=
    pieces_enter call.code_assembled hK (fun _ _ _ => Call.Chunks.chunk)
      fun _ call context => ToolGateway.execute_opens_nothing call context
  cases call with
  | submit o request =>
    exact .bind (ExternalActionService.submit_mandated) (fun _ _ h => h) fun _ _ _ => trivial
  | getStatus o key => exact others (.bind (ExternalActionService.getStatus_enters key) fun _ => trivial) rfl
  | gateway => exact others (assembled fun _ h => h.elim) rfl
  | approve | reject => exact others (assembled fun _ => ApprovalOp.entering) rfl
  | startExecution => exact others (assembled fun _ => RuntimeOp.entering) rfl
  | step | resume | submitExternalAction | reconcileExternalStep =>
    exact others (assembled fun _ => LeaseOp.entering) rfl
  | cancel => exact others (assembled fun _ => CancelOp.entering) rfl

end SafeOps
