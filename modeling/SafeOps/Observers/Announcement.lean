import SafeOps.Observers.Filing

/-! What a call has put in the log about the tool call it is to make. -/

namespace SafeOps
open Concurrent Program

variable {W : World} {ε α β : Type}

/-- The tool a log entry is about. -/
def toolNamed : List (String × Value) → Option String
  | ("tool_name", .str name) :: _ => some name
  | _ => none

/-- The tool that the event says is about to be called. -/
def AuditEvent.toolAnnounced (e : AuditEvent) : Option String :=
  if e.eventType = .actionAllowed ∨ e.eventType = .approvedActionExecutionStarted then toolNamed e.metadata
  else none

/-- The tool call that the chunk announces, by its execution and its tool. -/
def Txn.toolAnnounced (t : Txn) : Option (Id × String) :=
  (t.audit.findSome? (·.toolAnnounced)).map (t.executionId, ·)

/-- The execution and the tool of a tool call. -/
def ToolCall.subject (tc : ToolCall) : Id × String := (tc.executionId, tc.toolName)

/-- The tool call a thread has announced and not made yet. A tool is called only once that is in the log. -/
def announcing : Monitor W.statements (Option (Id × String)) where
  next m o := match o with
    | .write (.commit _ t) => fun (outcome : CommitOutcome) =>
      if outcome = .committed then t.toolAnnounced.or m else m
    | .note (.toolExecute _) => fun _ => none
    | _ => fun _ => m
  ok m
    | .note (.toolExecute tc) => m = some tc.subject
    | _ => True

/-- The statement begins no tool call. -/
def Toolless : Op W.Tables → Prop
  | .note (.toolExecute _) => False
  | _ => True

/-- Whatever it has announced before, the program announces its tool calls. -/
def Announces (p : Program W.statements ε α) : Prop :=
  ∀ m, p.Obeys announcing (fun _ _ => True) (fun _ _ => True) m

section Rules

theorem Uses.announces {p : Program W.statements ε α} (h : p.Uses Toolless) : Announces p := by
  refine fun m => h.keeps (I := fun _ => True) (fun _ o ho _ => ?_) (fun _ _ _ _ _ => trivial) trivial
  rcases o with _ | _ | n | _
  · trivial
  · trivial
  · cases n <;> first | exact ho.elim | trivial
  · trivial

theorem Announces.bind {p : Program W.statements ε α} {f : α → Program W.statements ε β} (h : Announces p)
    (hf : ∀ a, Announces (f a)) : Announces (p.bind f) :=
  fun m => Obeys.bind (h m) (fun _ _ h => h) fun a m _ => hf a m

theorem Announces.tryCatch {ε' : Type} {p : Program W.statements ε α} {k : ε → Program W.statements ε' α}
    (h : Announces p) (hk : ∀ e, Announces (k e)) : Announces (p.tryCatch k) :=
  fun m => Obeys.tryCatch (h m) (fun _ _ h => h) fun e m _ => hk e m

/-- A part of a call without a tool call, and its rest. -/
theorem Uses.announces_bind {p : Program W.statements ε β} {f : β → Program W.statements ε α}
    (h : p.Uses Toolless) (rest : ∀ b, Announces (f b)) : Announces (p.bind f) :=
  (Uses.announces h).bind rest

theorem commitRows_toolless {x : Id} {build : Nat → Nat → Db W (Rows W)}
    (h : ∀ number seq, (build number seq).Yields Toolless fun rows => ∃ t, rows = .plain t) :
    (commitRows x build : Db W Unit).Uses Toolless := by
  refine commitRounds_use trivial fun number seq => (h number seq).mono (fun _ h => h) ?_
  rintro _ ⟨t, rfl⟩ attempt
  exact (uses_call _).2 trivial

theorem commitChunk_toolless {x : Id} {build : Nat → Txn} : (commitChunk x build : Db W Unit).Uses Toolless :=
  commitRows_toolless fun _ _ => ⟨_, rfl⟩

theorem tool_toolless (tool : BaseTool W.Tables) (arguments : Value) :
    (tool.execute arguments).Uses Toolless :=
  toolExecute_uses _ _ fun _ => trivial

/-- A chunk that announces a tool call, and the call. -/
theorem commitChunk_announces {x : Id} {build : Nat → Txn} {tool : BaseTool W.Tables} (tc : ToolCall)
    {f : Option ToolResult → Db W α} (h : ∀ seq, (build seq).toolAnnounced = some tc.subject)
    (rest : ∀ outcome, Announces (f outcome)) :
    Announces ((commitChunk x build).bind fun _ =>
      (((callTool tool tc).bind fun r => .ret (some r)).tryCatch fun _ => pure none).bind f) := by
  intro m
  refine Obeys.bind (R := fun _ m => m = some tc.subject) (Y := fun _ _ => True) ?_ (fun _ _ h => h) ?_
  · refine commitRows_obeys (fun _ => True) (· = some tc.subject) (fun number m _ => ?_) (fun _ _ => trivial) trivial
    refine .call_bind trivial fun (tail : AuditTail) => ⟨trivial, fun (outcome : CommitOutcome) => ?_⟩
    cases outcome with
    | committed =>
      change (build (tail.sequence + 1)).toolAnnounced.or m = some tc.subject
      rw [h]
      rfl
    | collision => trivial
    | violation => trivial
  · rintro _ _ rfl
    refine Obeys.bind (R := fun _ _ => True) (Y := fun _ _ => True) (.tryCatch (R := fun _ _ => True)
      (Y := fun _ _ => True) (.bind (R := fun _ _ => True) (Y := fun _ _ => True)
        (.call_bind rfl fun _ => Uses.announces (tool_toolless _ _) none) (fun _ _ h => h) fun _ _ _ => trivial)
      (fun _ _ h => h) fun _ _ _ => trivial) (fun _ _ h => h) fun outcome m _ => rest outcome m

end Rules

namespace ToolGateway

variable {g : Admitted W}

/-- What follows the tool call of a gateway call. -/
theorem record_announces (base : GatewayResult) (outcome : Option ToolResult) :
    Announces (do
      let completedAt ← clock
      match outcome with
      | none => do
        commitChunk g.call.executionId (failureRows g completedAt toolExecutionError)
        pure { base with status := .failed, reason := some toolExecutionError.message }
      | some result =>
        if result.success then do
          commitChunk g.call.executionId (successRows g completedAt result.data)
          pure { base with status := .executed, toolResult := result.data }
        else do
          let error := result.error.getD ⟨"UNKNOWN", ""⟩
          commitChunk g.call.executionId (failureRows g completedAt error)
          pure { base with status := .failed, reason := some error.message } : Db W GatewayResult) := by
  refine Uses.announces (.bind ⟨trivial, fun _ => trivial⟩ fun completedAt => ?_)
  split
  · exact .bind commitChunk_toolless fun _ => trivial
  · split <;> exact .bind commitChunk_toolless fun _ => trivial

theorem finalizeRiskBlock_toolless (risk : RiskAssessmentResult) (escalated : Bool) (base : GatewayResult) :
    (finalizeRiskBlock g risk escalated base).Uses Toolless := by
  refine .bind (commitRows_toolless fun _ seq => ?_) fun _ => trivial
  refine Yields.bind (P := fun _ => True) ⟨trivial, fun _ => trivial⟩ fun now _ => ?_
  split
  · exact ⟨_, rfl⟩
  · trivial

theorem createApprovalAndCommit_toolless (ruling : Ruling) (reason : String) (escalated : Bool)
    (base : GatewayResult) : (createApprovalAndCommit g ruling reason escalated base).Uses Toolless := by
  refine .bind ⟨trivial, fun _ => trivial⟩ fun requestedAt => .bind ⟨trivial, fun _ => trivial⟩ fun a =>
    .bind ⟨trivial, fun _ => trivial⟩ fun now => .bind (.tryCatch (.bind (commitRounds_use trivial
      fun _ seq attempt => ?_) fun _ => trivial) fun e => ?_) fun committed => ?_
  · refine .bind ⟨trivial, fun _ => trivial⟩ fun outcome => ?_
    cases outcome <;> trivial
  · cases e <;> trivial
  · split <;> trivial

theorem assessRiskAndFinalize_announces (ruling : Ruling) : Announces (assessRiskAndFinalize g ruling) := by
  refine Uses.announces_bind (.tryCatch (assess_uses _ _ _ _ _ trivial trivial) fun _ => trivial) fun risk =>
    Uses.announces_bind ⟨trivial, fun _ => trivial⟩ fun _ => Uses.announces_bind commitChunk_toolless fun _ => ?_
  simp only
  split
  · exact Uses.announces (finalizeRiskBlock_toolless _ _ _)
  · exact Uses.announces (createApprovalAndCommit_toolless _ _ _ _)
  · exact commitChunk_announces g.toolCall (fun _ => rfl) (record_announces _)

theorem handleConditional_announces (agent : Agent) : Announces (handleConditional g agent) := by
  refine Uses.announces_bind commitChunk_toolless fun _ => Uses.announces_bind
    (.tryCatch (evaluate_uses _ _ _ _ _ trivial trivial) fun _ => trivial) fun result =>
      Uses.announces_bind ⟨trivial, fun _ => trivial⟩ fun _ => ?_
  split
  · refine Uses.announces (.bind (commitRows_toolless fun _ seq => ?_) fun _ => trivial)
    exact Yields.bind (P := fun _ => True) ⟨trivial, fun _ => trivial⟩ fun now _ => ⟨_, rfl⟩
  · exact Uses.announces_bind ⟨trivial, fun _ => trivial⟩ fun _ => Uses.announces_bind commitChunk_toolless fun _ =>
      assessRiskAndFinalize_announces _

theorem handleDirectAllow_announces : Announces (handleDirectAllow g) :=
  Uses.announces_bind commitChunk_toolless fun _ => Uses.announces_bind ⟨trivial, fun _ => trivial⟩ fun _ =>
    assessRiskAndFinalize_announces _

theorem refuse_toolless (call : GatewayCall) (toolRow : Option Tool) (status : ToolRequestStatus)
    (error : ToolError) (audit : Nat → List AuditEvent) :
    (refuse call toolRow status error audit : Db W Unit).Uses Toolless :=
  .bind ⟨trivial, fun _ => trivial⟩ fun _ => commitRows_toolless fun _ _ =>
    Yields.bind (P := fun _ => True) ⟨trivial, fun _ => trivial⟩ fun _ _ => ⟨_, rfl⟩

theorem executeAdmitted_announces (call : GatewayCall) (context : Option Value) (agent : Agent)
    (objective : String) : Announces (executeAdmitted call context agent objective : Db W _) := by
  refine Uses.announces_bind commitChunk_toolless fun _ => ?_
  split
  · exact Uses.announces (.bind (refuse_toolless _ _ _ _ _) fun _ => trivial)
  · refine Uses.announces_bind ⟨trivial, fun _ => trivial⟩ fun (found : Option (ToolNamed call.toolName)) => ?_
    simp only
    split
    · exact Uses.announces (.bind (refuse_toolless _ _ _ _ _) fun _ => trivial)
    · refine Uses.announces_bind ?_ fun permission => ?_
      · cases found with
        | none => trivial
        | some row => exact ⟨trivial, fun _ => trivial⟩
      · split
        · exact Uses.announces_bind ⟨trivial, fun _ => trivial⟩ fun _ => handleConditional_announces _
        · exact Uses.announces_bind ⟨trivial, fun _ => trivial⟩ fun _ => handleDirectAllow_announces
        · exact Uses.announces (.bind (refuse_toolless _ _ _ _ _) fun _ => trivial)

theorem executeGuarded_announces (call : GatewayCall) (context : Option Value) :
    Announces (executeGuarded call context : Db W _) := by
  refine Uses.announces_bind ⟨trivial, fun _ => trivial⟩ fun agent => ?_
  split
  · exact fun _ => trivial
  · refine Uses.announces_bind ⟨trivial, fun _ => trivial⟩ fun execution => ?_
    split
    · exact fun _ => trivial
    · repeat' split
      all_goals first | exact fun _ => trivial | exact executeAdmitted_announces _ _ _ _

theorem execute_announces (call : GatewayCall) (context : Option Value) :
    Announces (execute call context : Db W _) :=
  Uses.announces_bind ⟨trivial, fun _ => trivial⟩ fun _ =>
    .bind ((executeGuarded_announces call context).tryCatch fun e =>
      Uses.announces (p := raised e) ⟨trivial, fun _ => trivial⟩) fun _ =>
        Uses.announces ⟨trivial, fun _ => trivial⟩

end ToolGateway

namespace ApprovalEngine

variable {a : Id} {approval : ApprovalRequest}

theorem finalizeExecutionOutcome_toolless (agentName : String) (success : Bool) (error : Option ToolError)
    (result : Option Value) :
    (finalizeExecutionOutcome a approval agentName success error result : Db W _).Uses Toolless :=
  .bind ⟨trivial, fun _ => trivial⟩ fun _ => .bind commitChunk_toolless fun _ => trivial

theorem executeApprovedAction_announces (agentName : String) :
    Announces (executeApprovedAction a approval agentName : Db W _) := by
  unfold executeApprovedAction
  split
  · exact Uses.announces (.bind commitChunk_toolless fun _ => finalizeExecutionOutcome_toolless _ _ _ _)
  · refine commitChunk_announces _ (fun _ => rfl) fun outcome => Uses.announces ?_
    split
    · exact finalizeExecutionOutcome_toolless _ _ _ _
    · split <;> exact finalizeExecutionOutcome_toolless _ _ _ _

theorem resolveClaimed_announces (operator : Operator) (approve : Bool) (reason : Option String) (now : Time) :
    Announces (resolveClaimed a approval operator approve reason now : Db W _) := by
  refine Uses.announces_bind ⟨trivial, fun _ => trivial⟩ fun agent => ?_
  split
  · exact Uses.announces_bind commitChunk_toolless fun _ => executeApprovedAction_announces _
  · split
    · exact Uses.announces (.bind commitChunk_toolless fun _ => trivial)
    · exact fun _ => trivial

theorem lazyExpire_toolless (now : Time) : (lazyExpire a approval now : Db W ApprovalStatus).Uses Toolless := by
  unfold lazyExpire
  split
  · trivial
  · refine .bind ⟨trivial, fun _ => trivial⟩ fun expired => .bind ⟨trivial, fun _ => trivial⟩ fun refreshed => ?_
    split
    · refine .bind ⟨trivial, fun _ => trivial⟩ fun toolRequest => .bind ⟨trivial, fun _ => trivial⟩ fun execution =>
        .bind (commitRows_toolless fun number seq => ?_) fun _ => .bind ⟨trivial, fun _ => trivial⟩ fun _ => trivial
      split
      · exact ⟨_, rfl⟩
      · exact ⟨trivial, fun _ => ⟨trivial, fun _ => ⟨_, rfl⟩⟩⟩
    · trivial

theorem resolve_announces (a : Id) (operator : Operator) (approve : Bool) (reason : Option String) :
    Announces (resolve a operator approve reason : Db W _) := by
  refine Uses.announces_bind ⟨trivial, fun _ => trivial⟩ fun approval => ?_
  split
  · exact fun _ => trivial
  · refine Uses.announces_bind ⟨trivial, fun _ => trivial⟩ fun now => Uses.announces_bind (lazyExpire_toolless now)
      fun status => ?_
    split
    · exact fun _ => trivial
    · refine Uses.announces_bind ⟨trivial, fun _ => trivial⟩ fun toolRequest =>
        Uses.announces_bind ⟨trivial, fun _ => trivial⟩ fun execution => ?_
      split
      · refine Uses.announces_bind ⟨trivial, fun _ => trivial⟩ fun claimed =>
          Uses.announces_bind ⟨trivial, fun _ => trivial⟩ fun refreshed => ?_
        split
        · exact resolveClaimed_announces _ _ _ _
        · exact fun _ => trivial
      · exact fun _ => trivial

end ApprovalEngine

theorem ServiceOp.toolless {o : Op W.Tables} (h : ServiceOp o) : Toolless o := by
  rcases o with _ | _ | _ | _
  · trivial
  · trivial
  · exact h.elim
  · trivial

/-- Outside the gateway, only a call that decides an approval calls a tool. -/
theorem Call.Issues.toolless {call : Call} (hr : call.resolves = false) {o : Op W.Tables} (h : call.Issues o) :
    Toolless o := by
  cases call with
  | gateway => exact h.elim
  | approve | reject => cases hr
  | startExecution => exact (RuntimeOp.serviceOp h).toolless
  | step | resume | submitExternalAction | reconcileExternalStep => exact (LeaseOp.serviceOp h).toolless
  | cancel =>
    rcases o with _ | _ | _ | _
    · trivial
    · trivial
    · exact h.elim
    · trivial
  | submit | getStatus => exact ServiceOp.toolless h

/-- Every call announces the tool calls that it makes. -/
theorem Call.code_announcing (call : Call) :
    (call.code : Db W CallResult).Obeys announcing (fun _ _ => True) (fun _ _ => True) none := by
  cases hr : call.resolves with
  | false =>
    refine Composed.keeps call.code_assembled (I := fun _ => True) (fun {_ _ _} h {m} _ => ?_) trivial
    cases h with
    | statements h => exact Uses.announces (h.mono fun _ => Call.Issues.toolless hr) m
    | chunk x build h =>
      refine Uses.announces (commitRows_uses (fun o ho => ?_) trivial fun attempt seq =>
        (h attempt seq).mono (fun _ h => h) fun rows hrows => hrows.chunk.within.mono (fun _ _ _ => trivial)
          fun _ _ _ _ => trivial) m
      cases o <;> trivial
    | gateway _ call context => exact ToolGateway.execute_announces call context m
  | true =>
    cases call with
    | approve a operator =>
      exact Obeys.bind (ApprovalEngine.resolve_announces a operator true none none) (fun _ _ h => h)
        fun _ _ _ => trivial
    | reject a operator reason =>
      exact Obeys.bind (ApprovalEngine.resolve_announces a operator false reason none) (fun _ _ h => h)
        fun _ _ _ => trivial
    | _ => cases hr

end SafeOps
