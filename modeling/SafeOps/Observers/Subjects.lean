import SafeOps.Inventory.Sections

/-! Which executions a call is about: the one it names, those of the rows it goes by, and the one it creates. -/

namespace SafeOps
open Concurrent Program

variable {W : World} {ε α : Type} {x : Id}

/-- What the statement says about executions is about `x`. -/
def About (x : Id) : Op W.Tables → Prop
  | .write (.claimStepping y _ _ _) | .write (.releaseStepping y _) | .write (.cancel y _)
  | .write (.insertStep y _) | .write (.saveStep y _) => y = x
  | .write (.commit _ t) | .write (.commitIf _ _ t) => t.executionId = x
  | .note (.gatewayEnter call) => call.executionId = x
  | _ => True

theorem commitChunk_about {build : Nat → Txn} (h : ∀ seq, (build seq).executionId = x) :
    (commitChunk x build : Db W Unit).Uses (About x) :=
  commitChunk_uses trivial fun seq _ => h seq

/-- A chunk whose builder reads. -/
theorem commitRows_about {build : Nat → Nat → Db W (Rows W)} (h : ∀ number seq, (build number seq).Yields IsRead
    fun rows => rows.Within (·.executionId = x) fun _ t => t.executionId = x) :
    (commitRows x build).Uses (About x) := by
  refine commitRows_uses (fun o ho => ?_) trivial fun number seq => (h number seq).mono (fun _ h => h) fun rows hrows =>
    hrows.mono (fun _ h _ => h) fun _ _ h _ => h
  cases o with
  | query q => trivial
  | _ => exact ho.elim

namespace ToolGateway

variable {g : Admitted W}

theorem executeAndRecord_about (base : GatewayResult) :
    (executeAndRecord g base).Uses (About g.call.executionId) := by
  refine .bind (.tryCatch (.bind (callTool_uses _ _ trivial fun _ => trivial) fun _ => trivial) fun _ => trivial)
    fun outcome => .bind ((uses_call _).2 trivial) fun now => ?_
  cases outcome with
  | none => exact .bind (commitChunk_about fun _ => rfl) fun _ => trivial
  | some result =>
    simp only
    split
    · exact .bind (commitChunk_about fun _ => rfl) fun _ => trivial
    · exact .bind (commitChunk_about fun _ => rfl) fun _ => trivial

theorem finalizeRiskBlock_about (risk : RiskAssessmentResult) (escalated : Bool) (base : GatewayResult) :
    (finalizeRiskBlock g risk escalated base).Uses (About g.call.executionId) := by
  refine .bind (commitRows_about fun _ seq => ?_) fun _ => trivial
  refine Yields.bind (P := fun _ => True) ⟨trivial, fun _ => trivial⟩ fun now _ => ?_
  split
  · exact rfl
  · trivial

theorem createApprovalAndCommit_about (ruling : Ruling) (reason : String) (escalated : Bool) (base : GatewayResult) :
    (createApprovalAndCommit g ruling reason escalated base).Uses (About g.call.executionId) := by
  refine .bind ((uses_call _).2 trivial) fun requestedAt => .bind ((uses_call _).2 trivial) fun a =>
    .bind ((uses_call _).2 trivial) fun now => .bind (.tryCatch (.bind (commitRows_about fun _ seq => ⟨rfl, trivial⟩)
      fun _ => trivial) fun e => ?_) fun committed => ?_
  · cases e <;> trivial
  · split <;> trivial

theorem assessRiskAndFinalize_about (ruling : Ruling) :
    (assessRiskAndFinalize g ruling).Uses (About g.call.executionId) := by
  refine .bind (.tryCatch (assess_uses _ _ _ _ _ trivial trivial) fun _ => trivial) fun risk =>
    .bind ((uses_call _).2 trivial) fun _ => .bind (commitChunk_about fun _ => rfl) fun _ => ?_
  simp only
  split
  · exact finalizeRiskBlock_about _ _ _
  · exact createApprovalAndCommit_about _ _ _ _
  · exact .bind (commitChunk_about fun _ => rfl) fun _ => executeAndRecord_about _

theorem handleConditional_about (agent : Agent) : (handleConditional g agent).Uses (About g.call.executionId) := by
  have rows (result : PolicyEvaluationResult) (type : AuditEventType) (u : ToolRequestUpdate) (seq : Nat) :
      (policyOutcomeRows g result type u seq).executionId = g.call.executionId := by
    unfold policyOutcomeRows
    split
    · split <;> rfl
    · rfl
  refine .bind (commitChunk_about fun _ => rfl) fun _ =>
    .bind (.tryCatch (evaluate_uses _ _ _ _ _ trivial trivial) fun _ => trivial) fun result =>
      .bind ((uses_call _).2 trivial) fun _ => ?_
  split
  · exact .bind (commitRows_about fun _ seq => Yields.bind (P := fun _ => True) ⟨trivial, fun _ => trivial⟩
      fun now _ => rows _ _ _ seq) fun _ => trivial
  · exact .bind ((uses_call _).2 trivial) fun _ => .bind (commitChunk_about fun _ => rows _ _ _ _) fun _ =>
      assessRiskAndFinalize_about _

theorem handleDirectAllow_about : (handleDirectAllow g).Uses (About g.call.executionId) :=
  .bind (commitChunk_about fun _ => rfl) fun _ => .bind ((uses_call _).2 trivial) fun _ =>
    assessRiskAndFinalize_about _

theorem refuse_about (call : GatewayCall) (toolRow : Option Tool) (status : ToolRequestStatus) (error : ToolError)
    (audit : Nat → List AuditEvent) :
    (refuse call toolRow status error audit : Db W Unit).Uses (About call.executionId) :=
  .bind ((uses_call _).2 trivial) fun _ => commitRows_about fun _ _ =>
    Yields.bind (P := fun _ => True) ⟨trivial, fun _ => trivial⟩ fun _ _ => rfl

theorem executeAdmitted_about (call : GatewayCall) (context : Option Value) (agent : Agent) (objective : String) :
    (executeAdmitted call context agent objective : Db W GatewayResult).Uses (About call.executionId) := by
  refine .bind (commitChunk_about fun _ => rfl) fun _ => ?_
  split
  · exact .bind (refuse_about _ _ _ _ _) fun _ => trivial
  · refine .bind ((uses_call _).2 trivial) fun toolRow => ?_
    split
    · exact .bind (refuse_about _ _ _ _ _) fun _ => trivial
    · refine .bind ?_ fun permission => ?_
      · cases toolRow with
        | none => trivial
        | some row => exact (uses_call _).2 trivial
      · split
        · exact .bind ((uses_call _).2 trivial) fun q => handleConditional_about _
        · exact .bind ((uses_call _).2 trivial) fun q => handleDirectAllow_about
        · exact .bind (refuse_about _ _ _ _ _) fun _ => trivial

/-- A gateway call is about its execution. -/
theorem execute_about (call : GatewayCall) (context : Option Value) :
    (execute call context : Db W GatewayResult).Uses (About call.executionId) := by
  refine .bind ((uses_call _).2 rfl) fun _ => .bind (.tryCatch ?_ fun _ => .bind ((uses_call _).2 trivial)
    fun _ => trivial) fun _ => .bind ((uses_call _).2 trivial) fun _ => trivial
  refine .bind ((uses_call _).2 trivial) fun agent => ?_
  split
  · trivial
  · refine .bind ((uses_call _).2 trivial) fun execution => ?_
    split
    · trivial
    · repeat' split
      all_goals first | trivial | exact executeAdmitted_about { call with arguments := call.arguments.jsonSafe } _ _ _

end ToolGateway

namespace AgentRuntime

theorem critical_about {p : Program W.statements ε α} (h : Critical x p) : p.Uses (About x) :=
  h.confined {
    query := fun _ => trivial
    insertStep := fun _ _ => rfl
    saveStep := fun _ _ => rfl
    plain := fun _ _ _ h => h.execution
    guarded := fun _ _ _ _ h => h.execution
    gateway := by
      rintro call context rfl
      exact ToolGateway.execute_about call context }

theorem withStepping_about {conflict : Execution → α} {body : Execution → Db W α}
    (h : ∀ execution, (body execution).Uses (About x)) : (withStepping x conflict body).Uses (About x) := by
  refine .bind (.bind ((uses_call _).2 trivial) fun claimId => .bind ((uses_call _).2 trivial) fun now =>
    .bind ((uses_call _).2 rfl) fun claimed => .bind ((uses_call _).2 trivial) fun execution => ?_) fun claim => ?_
  · split <;> trivial
  · simp only
    split
    · exact .tryFinally (h _) ((uses_call _).2 rfl)
    · trivial

theorem whileRunning_about (verb : String) {body : Execution → Db W RuntimeResult}
    (h : ∀ execution, Critical x (body execution)) : (whileRunning x verb body).Uses (About x) := by
  refine .bind ((uses_call _).2 trivial) fun execution => ?_
  simp only
  split
  · trivial
  · split
    · trivial
    · refine withStepping_about fun execution => ?_
      split
      · trivial
      · exact critical_about (h execution)

theorem resume_about : (resume x : Db W RuntimeResult).Uses (About x) := by
  refine .bind ((uses_call _).2 trivial) fun execution => ?_
  split
  · trivial
  · split
    · trivial
    · split
      · trivial
      · refine withStepping_about fun execution => ?_
        split
        · trivial
        · exact critical_about (.resume execution)

theorem reconcileExternalStep_about : (reconcileExternalStep x : Db W Reconciliation).Uses (About x) := by
  refine .bind ((uses_call _).2 trivial) fun execution => ?_
  split
  · trivial
  · split
    · trivial
    · exact withStepping_about fun execution => .bind (critical_about (.reconcile execution)) fun _ => trivial

theorem cancel_about : (cancel x : Db W RuntimeResult).Uses (About x) := by
  refine .bind ((uses_call _).2 trivial) fun execution => ?_
  split
  · trivial
  · refine .bind ((uses_call _).2 trivial) fun now => .bind ((uses_call _).2 rfl) fun transitioned =>
      .bind ((uses_call _).2 trivial) fun refreshed => ?_
    simp only
    split
    · exact .bind (commitChunk_about fun _ => rfl) fun _ => .bind (.bind ((uses_call _).2 trivial) fun _ => trivial)
        fun _ => trivial
    · trivial

end AgentRuntime

namespace ApprovalEngine

variable {a : Id} {approval : ApprovalRequest}

theorem lazyExpire_about (now : Time) :
    (lazyExpire a approval now : Db W ApprovalStatus).Uses (About approval.executionId) := by
  unfold lazyExpire
  split
  · trivial
  · refine .bind ((uses_call _).2 trivial) fun expired => .bind ((uses_call _).2 trivial) fun refreshed => ?_
    split
    · refine .bind ((uses_call _).2 trivial) fun _ => .bind ((uses_call _).2 trivial) fun _ =>
        .bind (commitRows_about fun number seq => ?_) fun _ => .bind ((uses_call _).2 trivial) fun _ => trivial
      split
      · exact rfl
      · exact ⟨trivial, fun _ => ⟨trivial, fun _ => rfl⟩⟩
    · trivial

theorem finalizeExecutionOutcome_about (agentName : String) (success : Bool) (error : Option ToolError)
    (result : Option Value) : (finalizeExecutionOutcome a approval agentName success error result : Db W _).Uses
      (About approval.executionId) :=
  .bind ((uses_call _).2 trivial) fun _ => .bind (commitChunk_about fun _ => rfl) fun _ => trivial

theorem executeApprovedAction_about (agentName : String) :
    (executeApprovedAction a approval agentName : Db W _).Uses (About approval.executionId) := by
  refine .bind (commitChunk_about fun _ => rfl) fun _ => ?_
  split
  · exact finalizeExecutionOutcome_about _ _ _ _
  · refine .bind (.tryCatch (.bind (callTool_uses _ _ trivial fun _ => trivial) fun _ => trivial) fun _ => trivial)
      fun outcome => ?_
    split
    · exact finalizeExecutionOutcome_about _ _ _ _
    · split <;> exact finalizeExecutionOutcome_about _ _ _ _

theorem claimAndResolve_about (operator : Operator) (approve : Bool) (reason : Option String) (now : Time) :
    (claimAndResolve a approval operator approve reason now : Db W _).Uses (About approval.executionId) := by
  refine .bind ((uses_call _).2 trivial) fun claimed => .bind ((uses_call _).2 trivial) fun refreshed => ?_
  split
  · refine .bind ((uses_call _).2 trivial) fun agent => ?_
    split
    · exact .bind (commitChunk_about fun _ => rfl) fun _ => executeApprovedAction_about _
    · split
      · exact .bind (commitChunk_about fun _ => rfl) fun _ => trivial
      · trivial
  · trivial

end ApprovalEngine

/-- The executions a call has come to be about, the keys of the external requests it goes by, and the approval it
decides. -/
structure Subjects where
  executions : List Id := []
  requests : List (Id × String) := []
  approval : Option Id := none

/-- What `m` is about, `m'` is about too. -/
structure Subjects.Since (m m' : Subjects) : Prop where
  executions : m.executions ⊆ m'.executions
  requests : m.requests ⊆ m'.requests
  approval : m'.approval = m.approval

/-- The row is one the call goes by. -/
structure Subjects.Knows (m : Subjects) (row : ExternalActionRequest) : Prop where
  execution : row.executionId ∈ m.executions
  request : (row.operatorId, row.externalRequestId) ∈ m.requests

/-- What a call is about from its beginning. -/
def Call.subjects : Call → Subjects
  | gateway call _ => { executions := [call.executionId] }
  | approve a _ | reject a _ _ => { approval := some a }
  | startExecution _ _ _ => {}
  | step x | resume x | cancel x | submitExternalAction x _ | reconcileExternalStep x => { executions := [x] }
  | submit operatorId submitted =>
    { executions := submitted.executionId.toList, requests := [(operatorId, submitted.externalRequestId)] }
  | getStatus operatorId key => { requests := [(operatorId, key)] }

/-- A call comes to be about an execution by reading the approval that it decides or an external request that it goes
by, or by creating the execution; what it writes is about these. -/
def concerning : Monitor W.statements Subjects where
  next m o := match o with
    | .query (.approval a) => fun (row : Option ApprovalRequest) =>
      if m.approval = some a then { m with executions := (row.map (·.executionId)).toList ++ m.executions } else m
    | .query (.externalRequest operatorId key) => fun (row : Option ExternalActionRequest) =>
      if (operatorId, key) ∈ m.requests then
        { m with
          executions := (row.map (·.executionId)).toList ++ m.executions
          requests := (row.map fun row => (row.operatorId, row.externalRequestId)).toList ++ m.requests }
      else m
    | .write (.insertExecution _) => fun x => { m with executions := x :: m.executions }
    | _ => fun _ => m
  ok m o := match o with
    | .write (.claimStepping x _ _ _) | .write (.releaseStepping x _) | .write (.cancel x _)
    | .write (.insertStep x _) | .write (.saveStep x _) => x ∈ m.executions
    | .write (.commit _ t) | .write (.commitIf _ _ t) => t.executionId ∈ m.executions
    | .note (.gatewayEnter call) => call.executionId ∈ m.executions
    | _ => True

section Rules

variable {m m' m'' : Subjects} {row : ExternalActionRequest}

theorem Subjects.Since.refl (m : Subjects) : m.Since m := ⟨fun _ h => h, fun _ h => h, rfl⟩

theorem Subjects.Since.then (h : m.Since m') (h' : m'.Since m'') : m.Since m'' :=
  ⟨List.Subset.trans h.executions h'.executions, List.Subset.trans h.requests h'.requests,
    h'.approval.trans h.approval⟩

theorem Subjects.Knows.since (hrow : m.Knows row) (h : m.Since m') : m'.Knows row :=
  ⟨h.executions hrow.execution, h.requests hrow.request⟩

theorem concerning_since (m : Subjects) (o : Op W.Tables) (r : o.Reply) : m.Since (concerning.next m o r) := by
  rcases o with q | w | _ | _
  · cases q with
    | approval a =>
      simp only [concerning]
      split
      · exact ⟨List.subset_append_right _ _, fun _ h => h, rfl⟩
      · exact .refl m
    | externalRequest operatorId key =>
      simp only [concerning]
      split
      · exact ⟨List.subset_append_right _ _, List.subset_append_right _ _, rfl⟩
      · exact .refl m
    | _ => exact .refl m
  · cases w with
    | insertExecution row => exact ⟨List.subset_cons_self _ _, fun _ h => h, rfl⟩
    | _ => exact .refl m
  · exact .refl m
  · exact .refl m

theorem About.ok {o : Op W.Tables} (h : About x o) (hx : x ∈ m.executions) : concerning.ok m o := by
  have mem {y : Id} (hy : y = x) : y ∈ m.executions := hy ▸ hx
  rcases o with _ | w | n | _
  · trivial
  · cases w with
    | claimStepping | releaseStepping | cancel | insertStep | saveStep | commit | commitIf => exact mem h
    | _ => trivial
  · cases n with
    | gatewayEnter call => exact mem h
    | _ => trivial
  · trivial

/-- A part of a call that is about an execution the call is about. -/
theorem Uses.concerned {p : Program W.statements ε α} (h : p.Uses (About x)) (hx : x ∈ m.executions) :
    p.Obeys concerning (fun _ => m.Since) (fun _ => m.Since) m :=
  h.keeps (I := m.Since) (fun _ _ ho hm => ho.ok (hm.executions hx))
    (fun m' o r _ hm => hm.then (concerning_since m' o r)) (.refl m)

/-- A row that is found under a key that the call goes by. -/
theorem Subjects.knows_found {operatorId : Id} {key : String} (hkey : (operatorId, key) ∈ m.requests)
    (row : ExternalActionRequest) :
    (concerning.next m (.query (.externalRequest operatorId key) : Op W.Tables) (some row)).Knows row := by
  simp only [concerning, if_pos hkey]
  exact ⟨List.mem_cons_self, List.mem_cons_self⟩

end Rules

section Services

variable {m : Subjects}

/-- The program is about what the call is about, and forgets nothing of it. -/
abbrev Concerned (p : Program W.statements ε α) (m : Subjects) : Prop :=
  p.Obeys concerning (fun _ => m.Since) (fun _ => m.Since) m

/-- The same of a program that returns a row of an external request. -/
abbrev Rereads (p : Db W ExternalActionRequest) (m : Subjects) : Prop :=
  p.Obeys concerning (fun row m' => m.Since m' ∧ m'.Knows row) (fun _ => m.Since) m

theorem Concerned.mono {m₁ : Subjects} {p : Program W.statements ε α} (hp : Concerned p m₁) (h : m.Since m₁) :
    p.Obeys concerning (fun _ => m.Since) (fun _ => m.Since) m₁ :=
  Obeys.mono hp (fun _ _ h' => h.then h') fun _ _ h' => h.then h'

theorem Concerned.bind {β : Type} {p : Program W.statements ε α} {f : α → Program W.statements ε β}
    (hp : Concerned p m) (hf : ∀ a m', m.Since m' → Concerned (f a) m') : Concerned (p.bind f) m :=
  Obeys.bind hp (fun _ _ h => h) fun a m' h => (hf a m' h).mono h

theorem Rereads.bind {p : Db W ExternalActionRequest} {f : ExternalActionRequest → Db W β} (hp : Rereads p m)
    (hf : ∀ row m', m.Since m' → m'.Knows row → Concerned (f row) m') : Concerned (p.bind f) m :=
  Obeys.bind hp (fun _ _ h => h) fun row m' h => (hf row m' h.1 h.2).mono h.1

theorem Rereads.after {β : Type} {p : Db W β} {f : β → Db W ExternalActionRequest} (hp : Concerned p m)
    (hf : ∀ b m', m.Since m' → Rereads (f b) m') : Rereads (p.bind f) m :=
  Obeys.bind hp (fun _ _ h => h) fun b m' h =>
    (hf b m' h).mono (fun _ _ h' => ⟨h.then h'.1, h'.2⟩) fun _ _ h' => h.then h'

theorem Rereads.then {p : Db W ExternalActionRequest} {f : ExternalActionRequest → Db W ExternalActionRequest}
    (hp : Rereads p m) (hf : ∀ row m', m.Since m' → m'.Knows row → Rereads (f row) m') : Rereads (p.bind f) m :=
  Obeys.bind hp (fun _ _ h => h) fun row m' h =>
    (hf row m' h.1 h.2).mono (fun _ _ h' => ⟨h.1.then h'.1, h'.2⟩) fun _ _ h' => h.1.then h'

theorem concerned_query (q : Query) : Concerned (query q : Db W q.Reply) m :=
  ⟨trivial, fun r => concerning_since m (.query q : Op W.Tables) r⟩

theorem concerned_ret (a : α) : Concerned (.ret a : Program W.statements ε α) m := .refl m

theorem concerned_raise (e : ε) : Concerned (.raise e : Program W.statements ε α) m := .refl m

namespace ExternalActionService

variable {row : ExternalActionRequest}

theorem update_concerned (columns : ExternalActionUpdate) : Concerned (update row columns : Db W Unit) m :=
  ⟨trivial, fun _ => .refl m⟩

theorem emitAudit_concerned (type : AuditEventType) (metadata : List (String × Value)) (hx : x ∈ m.executions) :
    Concerned (emitAudit x type metadata : Db W Unit) m :=
  Uses.concerned (commitChunk_about fun _ => rfl) hx

theorem reload_rereads (hrow : m.Knows row) : Rereads (reload row : Db W ExternalActionRequest) m := by
  refine ⟨trivial, fun (current : Option ExternalActionRequest) => ?_⟩
  have since := concerning_since (W := W) m (.query (.externalRequest row.operatorId row.externalRequestId)) current
  cases current with
  | none => exact ⟨since, hrow.since since⟩
  | some current => exact ⟨since, m.knows_found hrow.request current⟩

theorem flushOutcome_rereads (hrow : m.Knows row) (columns : ExternalActionUpdate) :
    Rereads (flushOutcome row columns : Db W ExternalActionRequest) m := by
  refine Rereads.after (update_concerned columns) fun _ m₁ h₁ =>
    Rereads.then (reload_rereads (hrow.since h₁)) fun refreshed m₂ _ hrefreshed => ?_
  split
  · exact Rereads.after (emitAudit_concerned _ _ hrefreshed.execution) fun _ m₃ h₃ =>
      reload_rereads (hrefreshed.since h₃)
  · exact ⟨.refl m₂, hrefreshed⟩

theorem reconcileIfResolved_rereads (hrow : m.Knows row) :
    Rereads (reconcileIfResolved row : Db W ExternalActionRequest) m := by
  refine Rereads.after ?_ fun approval m₁ h₁ => ?_
  · unfold AgentRuntime.approvalNamed
    split
    · exact concerned_query _
    · exact concerned_ret _
  split
  · exact ⟨.refl m₁, hrow.since h₁⟩
  · split
    · exact ⟨.refl m₁, hrow.since h₁⟩
    · refine Rereads.after (Uses.concerned AgentRuntime.reconcileExternalStep_about (hrow.since h₁).execution)
        fun reconciled m₂ h₂ => Rereads.then ?_ fun row m₃ _ hrow₃ => Rereads.after (concerned_query _)
          fun step m₄ h₄ => ?_
      · have known := (hrow.since h₁).since h₂
        unfold reloadIf
        split
        · exact reload_rereads known
        · exact ⟨.refl m₂, known⟩
      · split
        · exact flushOutcome_rereads (hrow₃.since h₄) _
        · exact ⟨.refl m₄, hrow₃.since h₄⟩

theorem invokeAndApply_concerned (hrow : m.Knows row) (loaded : Bool) (arguments : Value) (sources : List Source) :
    Concerned (invokeAndApply row loaded arguments sources : Db W ActionResponse) m := by
  refine Concerned.bind (Concerned.bind ?_ fun _ m₁ h₁ => ?_) fun result m₂ h₂ => ?_
  · unfold markProcessing
    split
    · exact concerned_ret _
    · exact update_concerned _
  · exact Uses.concerned (AgentRuntime.whileRunning_about _ (.submit _)) (hrow.since h₁).execution
  · split
    · exact concerned_raise _
    · exact Rereads.bind (reload_rereads (hrow.since h₂)) fun current m₃ h₃ _ => Concerned.bind (concerned_query _)
        fun step m₄ h₄ => Rereads.bind (flushOutcome_rereads ((hrow.since h₂).since (h₃.then h₄)) _)
          fun _ _ _ _ => concerned_ret _

theorem retry_concerned (hrow : m.Knows row) (submitted : SubmitActionRequest) (payloadHash : String) :
    Concerned (retry row submitted payloadHash : Db W ActionResponse) m := by
  unfold retry checkHashOrConflict
  split
  · exact concerned_raise _
  · change Concerned (resolveExisting row submitted.arguments (normalizeSources submitted.sources)) m
    unfold resolveExisting
    split
    · exact concerned_ret _
    · split
      · exact Rereads.bind (reconcileIfResolved_rereads hrow) fun _ _ _ _ => concerned_ret _
      · refine Concerned.bind (concerned_query _) fun step m₁ h₁ => ?_
        split
        · exact Rereads.bind (flushOutcome_rereads (hrow.since h₁) _) fun _ _ _ _ => concerned_ret _
        · exact invokeAndApply_concerned (hrow.since h₁) _ _ _

end ExternalActionService

/-- Starting an execution makes the call one about it. -/
theorem startExecution_concerned (agentId : Id) (objective : String) (context : Option Value) :
    (AgentRuntime.startExecution agentId objective context : Db W RuntimeResult).Obeys concerning
      (fun result m' => m.Since m' ∧ ∀ x, result.executionId = some x → x ∈ m'.executions) (fun _ => m.Since) m := by
  refine .call_bind trivial fun (agent : Option Agent) => ?_
  cases agent with
  | none => exact ⟨.refl m, fun x hx => by cases hx⟩
  | some agent =>
    refine .call_bind trivial fun (x : Id) => ?_
    let m₁ : Subjects := { m with executions := x :: m.executions }
    have created : m.Since m₁ := ⟨List.subset_cons_self _ _, fun _ h => h, rfl⟩
    have started : (commitRows x fun _ seq => pure (.guarded AgentRuntime.startGuard
        (AgentRuntime.startedRows x agent.name objective seq)
        (pure (AgentRuntime.startedRows x agent.name objective seq))) : Db W Unit).Uses (About x) :=
      commitRows_about fun _ _ => ⟨rfl, rfl⟩
    have rows := Uses.concerned (m := m₁) started List.mem_cons_self
    refine Obeys.bind rows (fun _ _ h => created.then h) fun _ m₂ h₂ => Obeys.bind (Concerned.bind (concerned_query _)
      fun _ _ _ => concerned_ret _) (fun _ _ h => created.then (h₂.then h)) fun status m₃ h₃ => ?_
    refine ⟨created.then (h₂.then h₃), fun y hy => ?_⟩
    obtain rfl : x = y := Option.some.inj hy
    exact (h₂.then h₃).executions List.mem_cons_self

namespace ExternalActionService

theorem requestedExecution_concerned {submitted : SubmitActionRequest}
    (hx : ∀ x, submitted.executionId = some x → x ∈ m.executions) :
    (requestedExecution submitted : Db W Id).Obeys concerning (fun x m' => m.Since m' ∧ x ∈ m'.executions)
      (fun _ => m.Since) m := by
  unfold requestedExecution
  split
  · rename_i x h
    refine .call_bind trivial fun (execution : Option Execution) => ?_
    split
    · exact ⟨.refl m, hx x h⟩
    · exact .refl m
  · refine Obeys.bind (startExecution_concerned _ _ _) (fun _ _ h => h) fun started m₁ h₁ => ?_
    split
    · exact ⟨h₁.1, h₁.2 _ ‹_›⟩
    · exact h₁.1

theorem submit_concerned {operatorId : Id} {submitted : SubmitActionRequest}
    (hkey : (operatorId, submitted.externalRequestId) ∈ m.requests)
    (hx : ∀ x, submitted.executionId = some x → x ∈ m.executions) :
    Concerned (submit operatorId submitted : Db W ActionResponse) m := by
  have retried {m : Subjects} (hkey : (operatorId, submitted.externalRequestId) ∈ m.requests)
      (existing : ExternalActionRequest) (payloadHash : String) :
      (retry existing submitted payloadHash : Db W ActionResponse).Obeys concerning (fun _ => m.Since)
        (fun _ => m.Since) (concerning.next m
          (.query (.externalRequest operatorId submitted.externalRequestId) : Op W.Tables) (some existing)) :=
    (retry_concerned (m.knows_found hkey existing) submitted payloadHash).mono (concerning_since m _ _)
  refine Concerned.bind ?_ fun _ m₁ h₁ => .call_bind trivial fun (existing : Option ExternalActionRequest) => ?_
  · refine Concerned.bind (concerned_query _) fun agent _ _ => ?_
    split
    · exact concerned_raise _
    · refine Concerned.bind (concerned_query _) fun mapped _ _ => ?_
      split
      · exact concerned_ret _
      · exact concerned_raise _
  · cases existing with
    | some existing => exact retried (h₁.requests hkey) existing _
    | none =>
      have read := concerning_since (W := W) m₁ (.query (.externalRequest operatorId submitted.externalRequestId)) none
      refine Obeys.bind (requestedExecution_concerned fun x hs => read.executions (h₁.executions (hx x hs)))
        (fun _ _ h => read.then h) fun x m₂ h₂ => .call_bind trivial fun (inserted : Bool) => ?_
      have since := read.then h₂.1
      cases inserted with
      | true =>
        have known : m₂.Knows (newRequest operatorId x submitted (W.hashPayload (payload submitted))) :=
          ⟨h₂.2, since.requests (h₁.requests hkey)⟩
        exact (Concerned.bind (emitAudit_concerned _ _ h₂.2) fun _ m₃ h₃ =>
          invokeAndApply_concerned (known.since h₃) _ _ _).mono since
      | false =>
        refine .call_bind trivial fun (existing : Option ExternalActionRequest) => ?_
        cases existing with
        | some existing =>
          exact (retried (since.requests (h₁.requests hkey)) existing _).mono (fun _ _ h => since.then h)
            fun _ _ h => since.then h
        | none => exact since.then (concerning_since (W := W) m₂
            (.query (.externalRequest operatorId submitted.externalRequestId)) none)

theorem getStatus_concerned {operatorId : Id} {key : String} (hkey : (operatorId, key) ∈ m.requests) :
    Concerned (getStatus operatorId key : Db W ActionStatusResponse) m := by
  refine .call_bind trivial fun (existing : Option ExternalActionRequest) => ?_
  have read := concerning_since (W := W) m (.query (.externalRequest operatorId key)) existing
  cases existing with
  | none => exact read
  | some existing =>
    refine Concerned.mono ?_ read
    simp only
    split
    · exact Rereads.bind (reconcileIfResolved_rereads (m.knows_found hkey existing)) fun _ _ _ _ => concerned_ret _
    · exact concerned_ret _

end ExternalActionService

theorem resolve_concerned {a : Id} (ha : m.approval = some a) (operator : Operator) (approve : Bool)
    (reason : Option String) : Concerned (ApprovalEngine.resolve a operator approve reason : Db W _) m := by
  refine .call_bind trivial fun (approval : Option ApprovalRequest) => ?_
  have read := concerning_since (W := W) m (.query (.approval a)) approval
  cases approval with
  | none => exact read
  | some approval =>
    have hx : approval.executionId ∈
        (concerning.next m (.query (.approval a) : Op W.Tables) (some approval)).executions := by
      simp [concerning, ha]
    refine Concerned.mono (Uses.concerned (x := approval.executionId) ?_ hx) read
    refine .bind ((uses_call _).2 trivial) fun now => .bind (ApprovalEngine.lazyExpire_about now) fun status => ?_
    split
    · trivial
    · refine .bind ((uses_call _).2 trivial) fun toolRequest => .bind ((uses_call _).2 trivial) fun execution => ?_
      split
      · exact ApprovalEngine.claimAndResolve_about operator approve reason now
      · trivial

/-- Whatever a call writes is about the executions that the call is about. -/
theorem Call.code_concerning (call : Call) : Concerned (call.code : Db W CallResult) call.subjects := by
  have about {α : Type} {p : Db W α} {f : α → CallResult} {m : Subjects} (hp : Concerned p m) :
      Concerned (p.bind fun a => .ret (f a)) m :=
    Concerned.bind hp fun _ _ _ => concerned_ret _
  cases call with
  | gateway gc context => exact about (Uses.concerned (ToolGateway.execute_about gc context) List.mem_cons_self)
  | approve a operator => exact about (resolve_concerned rfl operator true none)
  | reject a operator reason => exact about (resolve_concerned rfl operator false reason)
  | startExecution agentId objective context =>
    exact about ((startExecution_concerned agentId objective context).mono (fun _ _ h => h.1) fun _ _ h => h)
  | step y => exact about (Uses.concerned (AgentRuntime.whileRunning_about _ .advance) List.mem_cons_self)
  | resume y => exact about (Uses.concerned AgentRuntime.resume_about List.mem_cons_self)
  | cancel y => exact about (Uses.concerned AgentRuntime.cancel_about List.mem_cons_self)
  | submitExternalAction y action =>
    exact about (Uses.concerned (AgentRuntime.whileRunning_about _ (.submit action)) List.mem_cons_self)
  | reconcileExternalStep y =>
    exact about (Uses.concerned AgentRuntime.reconcileExternalStep_about List.mem_cons_self)
  | submit operatorId submitted =>
    refine about (ExternalActionService.submit_concerned List.mem_cons_self fun y hy => ?_)
    simp [subjects, hy]
  | getStatus operatorId key => exact about (ExternalActionService.getStatus_concerned List.mem_cons_self)

end Services

end SafeOps
