import SafeOps.Inventory.Chunks

/-! The statements and chunks of the tool gateway. -/

namespace SafeOps
open Concurrent Program

variable {W : World}

namespace ToolGateway

section Chunks

variable (g : Admitted W) (seq : Nat)

@[simp] theorem event_sequence (type : AuditEventType) (metadata : List (String × Value)) :
    (g.event seq type metadata).sequence = seq := rfl

@[simp] theorem event_eventType (type : AuditEventType) (metadata : List (String × Value)) :
    (g.event seq type metadata).eventType = type := rfl

variable {g seq}

theorem txn_routine {audit : List AuditEvent} {u : Option ToolRequestUpdate}
    (hn : audit.map (·.sequence) = List.range' seq audit.length)
    (hs : ∀ e ∈ audit, ¬e.eventType.AboutStatus) (hu : ∀ c, u = some c → c.status ≠ .requiresApproval) :
    Routine g.call.executionId seq (g.txn audit u) where
  execution := rfl
  numbered := hn
  silent := hs
  toolRequest := by
    intro w hw
    obtain ⟨c, rfl, rfl⟩ := Option.map_eq_some_iff.1 hw
    exact hu c rfl
  approval := rfl
  step := rfl
  resume := rfl

variable (g seq)

theorem failureRows_routine (now : Time) (error : ToolError) :
    Routine g.call.executionId seq (failureRows g now error seq) :=
  txn_routine rfl (by simp [AuditEventType.aboutStatus_iff]) (by simp [closed])

theorem successRows_routine (now : Time) (data : Option Value) :
    Routine g.call.executionId seq (successRows g now data seq) :=
  txn_routine rfl (by simp [AuditEventType.aboutStatus_iff]) (by simp)

theorem riskBlockRows_routine (risk : RiskAssessmentResult) (escalated : Bool) (now : Time) :
    Routine g.call.executionId seq (riskBlockRows g risk escalated now seq) := by
  refine txn_routine ?_ ?_ (by simp [closed]) <;>
    cases escalated <;> cases incidentTypeName risk.signals <;>
      simp [AuditEventType.aboutStatus_iff, List.range'_succ]

theorem zipIdx_events_sequence (signals : List String) (n : Nat)
    (metadata : String → List (String × Value)) :
    ((signals.zipIdx n).map fun p =>
      g.event p.2 .riskSignalDetected (metadata p.1)).map (·.sequence) =
        List.range' n signals.length := by
  induction signals generalizing n with
  | nil => rfl
  | cons signal signals ih =>
    simpa only [List.zipIdx_cons, List.map_cons, List.length_cons, List.range'_succ,
      event_sequence] using congrArg (n :: ·) (ih (n + 1))

theorem riskRows_routine (risk : RiskAssessmentResult) :
    Routine g.call.executionId seq (riskRows g risk seq) := by
  refine txn_routine ?_ ?_ (by simp)
  · have signals := zipIdx_events_sequence g risk.signals (seq + 1) fun s => [("signal", .str s)]
    simp only [List.map_append, List.map_cons, List.map_nil, event_sequence, signals,
      List.length_append, List.length_cons, List.length_map, List.length_zipIdx, List.length_nil]
    rw [List.cons_append, Nat.zero_add, List.range'_succ, List.range'_concat, Nat.one_mul]
  · intro e he
    simp only [List.mem_append, List.mem_cons, List.mem_map, List.not_mem_nil, or_false] at he
    rcases he with (rfl | ⟨p, _, rfl⟩) | rfl <;> simp [AuditEventType.aboutStatus_iff]

theorem permissionRows_routine {audit : List AuditEvent}
    (hn : audit.map (·.sequence) = List.range' seq audit.length)
    (hs : ∀ e ∈ audit, ¬e.eventType.AboutStatus) :
    Routine g.call.executionId seq (permissionRows g audit) where
  execution := rfl
  numbered := hn
  silent := hs
  toolRequest := by rintro w ⟨⟩; simp [ToolRequestWrite.status, pendingRequest]
  approval := rfl
  step := rfl
  resume := rfl

theorem policyOutcomeRows_routine (result : PolicyEvaluationResult) {type : AuditEventType}
    {u : ToolRequestUpdate} (ht : ¬type.AboutStatus) (hu : u.status ≠ .requiresApproval) :
    Routine g.call.executionId seq (policyOutcomeRows g result type u seq) := by
  unfold policyOutcomeRows
  split
  · split
    · exact txn_routine rfl (by simpa) (by simpa)
    · exact txn_routine rfl (by simpa [AuditEventType.aboutStatus_iff] using ht) (by simpa)
  · exact txn_routine rfl (by simpa) (by simpa)

theorem approvalRows_numbered (escalated : Bool) (a : Id) (row : ApprovalRequest)
    (requestedAt : Time) : (approvalRows g escalated a row requestedAt seq).Numbered seq := by
  cases escalated <;> rfl

end Chunks

/-- The parts of a gateway call between its notes. -/
inductive Part : ∀ {ε α : Type}, Program W.statements ε α → Prop
  | piece {ε α : Type} {p : Program W.statements ε α} : Piece Beside GatewayChunk False p → Part p
  | tool {ε α : Type} {p : Program W.statements ε α} : ToolPart none p → Part p

abbrev Parted {ε α : Type} (p : Program W.statements ε α) : Prop := Composed Part p

theorem parted {ε α : Type} {p : Program W.statements ε α} (h : Built Beside GatewayChunk p) : Parted p :=
  Composed.mono h .piece

section Walk

variable {g : Admitted W} (hg : W.registry g.call.toolName = some g.tool)

include hg in
theorem executeAndRecord_parted (base : GatewayResult) : Parted (executeAndRecord g base) := by
  refine .bind (.tryCatch (.bind (.atom (.tool (.call g.tool g.toolCall hg rfl))) fun _ => .ret _)
    fun _ => .ret _) fun outcome => .bind (parted (built_query _ trivial)) fun now => parted ?_
  cases outcome with
  | none => exact .bind (built_chunk fun _ => .routine (failureRows_routine _ _ _ _)) fun _ => .ret _
  | some result =>
    simp only
    split
    · exact .bind (built_chunk fun _ => .routine (successRows_routine _ _ _ _)) fun _ => .ret _
    · exact .bind (built_chunk fun _ => .routine (failureRows_routine _ _ _ _)) fun _ => .ret _

theorem finalizeRiskBlock_built (risk : RiskAssessmentResult) (escalated : Bool)
    (base : GatewayResult) : Built Beside GatewayChunk (finalizeRiskBlock g risk escalated base) := by
  refine .bind (built_rows fun _ seq => ?_) fun _ => .ret _
  refine Yields.bind (P := fun _ => True) ⟨trivial, fun _ => trivial⟩ fun now _ => ?_
  split
  · exact .routine (riskBlockRows_routine g seq risk escalated now)
  · trivial

theorem createApprovalAndCommit_built (ruling : Ruling) (reason : String) (escalated : Bool)
    (base : GatewayResult) :
    Built Beside GatewayChunk (createApprovalAndCommit g ruling reason escalated base) := by
  refine .bind (built_query _ trivial) fun _ => .bind (built_write _ trivial) fun a =>
    .bind (built_query _ trivial) fun now => .bind (.tryCatch (.bind ?_ fun _ => .ret _) ?_) fun b => ?_
  · exact built_rows fun _ seq => .approval g escalated a _ _ rfl rfl rfl rfl
  · rintro (_ | _ | _ | _)
    · exact .raise _
    · exact .ret _
    · exact .raise _
    · exact .raise _
  · split <;> exact .ret _

theorem assess_uses {K : Op W.Tables → Prop} (executionId : Id) (objective toolName : String)
    (arguments : Value) (context : Option Value) (hc : K (.query (.customerDataRead executionId)))
    (hf : K (.query .faults)) :
    (RiskEngine.assess executionId objective toolName arguments context :
      Db W RiskAssessmentResult).Uses K := by
  refine .bind ⟨hc, fun _ => trivial⟩ fun _ => .bind ⟨hf, fun _ => trivial⟩ fun faults => ?_
  split <;> trivial

include hg in
theorem assessRiskAndFinalize_parted (ruling : Ruling) : Parted (assessRiskAndFinalize g ruling) := by
  refine .bind (.tryCatch (parted (built_uses (assess_uses _ _ _ _ _ trivial trivial))) fun _ => .ret _)
    fun risk => .bind (parted (built_note _ trivial)) fun _ => .bind (parted ?_) fun _ => ?_
  · exact built_chunk fun seq => .routine (riskRows_routine g seq risk)
  · simp only
    split
    · exact parted (finalizeRiskBlock_built risk _ _)
    · exact parted (createApprovalAndCommit_built ruling _ _ _)
    · refine .bind (parted (built_chunk fun seq => .routine ?_)) fun _ => executeAndRecord_parted hg _
      exact txn_routine rfl (by simp [AuditEventType.aboutStatus_iff]) (by simp)

theorem evaluate_uses {K : Op W.Tables → Prop} (agentId : Id) (agent : Agent) (tool : Tool)
    (arguments : Value) (executionId : Id) (hp : K (.query (.policies tool.id)))
    (hf : K (.query .faults)) :
    (PolicyEngine.evaluate agentId agent tool arguments executionId :
      Db W PolicyEvaluationResult).Uses K := by
  refine .bind ⟨hp, fun _ => trivial⟩ fun _ => .bind ⟨hf, fun _ => trivial⟩ fun faults => ?_
  split
  · trivial
  · split <;> trivial

include hg in
theorem handleConditional_parted (agent : Agent) : Parted (handleConditional g agent) := by
  refine .bind (parted (built_chunk fun seq => .routine (permissionRows_routine g seq rfl ?_))) fun _ => .bind
    (.tryCatch (parted (built_uses (evaluate_uses _ _ _ _ _ trivial trivial))) fun _ => .ret _) fun result =>
      .bind (parted (built_note _ trivial)) fun _ => ?_
  · simp [permissionEvent, AuditEventType.aboutStatus_iff]
  · split
    · refine parted (.bind (built_rows fun _ seq => ?_) fun _ => .ret _)
      refine Yields.bind (P := fun _ => True) ⟨trivial, fun _ => trivial⟩ fun now _ => ?_
      exact .routine (policyOutcomeRows_routine g seq result (by decide) (by simp [closed]))
    · refine .bind (parted (built_write _ trivial)) fun _ => .bind (parted (built_chunk fun seq =>
        .routine ?_)) fun _ => assessRiskAndFinalize_parted hg _
      exact policyOutcomeRows_routine g seq result (by split <;> decide) (by simp)

include hg in
theorem handleDirectAllow_parted : Parted (handleDirectAllow g) := by
  refine .bind (parted (built_chunk fun seq => .routine (permissionRows_routine g seq rfl ?_))) fun _ =>
    .bind (parted (built_write _ trivial)) fun _ => assessRiskAndFinalize_parted hg _
  simp [permissionEvent, AuditEventType.aboutStatus_iff]

theorem refuse_built (call : GatewayCall) (toolRow : Option Tool) {status : ToolRequestStatus}
    (error : ToolError) {audit : Nat → List AuditEvent} (hr : status ≠ .requiresApproval)
    (hn : ∀ seq, (audit seq).map (·.sequence) = List.range' seq (audit seq).length)
    (hs : ∀ seq, ∀ e ∈ audit seq, ¬e.eventType.AboutStatus) :
    Built Beside GatewayChunk (refuse call toolRow status error audit : Db W Unit) := by
  refine .bind (built_write _ trivial) fun r => built_rows fun _ seq => ?_
  refine Yields.bind (P := fun _ => True) ⟨trivial, fun _ => trivial⟩ fun now _ => .routine ?_
  exact ⟨rfl, hn seq, hs seq, by rintro w ⟨⟩; exact hr, rfl, rfl, rfl⟩

theorem executeAdmitted_parted (call : GatewayCall) (context : Option Value) (agent : Agent)
    (objective : String) : Parted (executeAdmitted call context agent objective : Db W _) := by
  refine .bind (parted (built_chunk fun seq => .routine ⟨rfl, rfl, ?_, by simp, rfl, rfl, rfl⟩)) fun _ => ?_
  · simp [AuditEventType.aboutStatus_iff]
  split
  · refine parted (.bind (refuse_built call _ _ (by decide) (fun _ => rfl) fun _ => ?_) fun _ => .ret _)
    simp [AuditEventType.aboutStatus_iff]
  · rename_i tool hregistered
    refine .bind (parted (built_query _ trivial)) fun toolRow => ?_
    split
    · refine parted (.bind (refuse_built call _ _ (by decide) (fun _ => rfl) fun _ => ?_) fun _ => .ret _)
      simp [AuditEventType.aboutStatus_iff]
    · refine .bind (parted ?_) fun permission => ?_
      · cases toolRow with
        | none => exact .ret _
        | some row => exact built_query _ trivial
      · split
        · exact .bind (parted (built_write _ trivial)) fun _ => handleConditional_parted hregistered _
        · exact .bind (parted (built_write _ trivial)) fun _ => handleDirectAllow_parted hregistered
        · refine parted (.bind (refuse_built call _ _ (by decide) (fun _ => rfl) fun _ => ?_) fun _ => .ret _)
          simp [AuditEventType.aboutStatus_iff]

end Walk

theorem executeGuarded_parted (call : GatewayCall) (context : Option Value) :
    Parted (executeGuarded call context : Db W _) := by
  refine .bind (parted (built_query _ trivial)) fun agent => ?_
  split
  · exact .ret _
  · refine .bind (parted (built_query _ trivial)) fun execution => ?_
    split
    · exact .ret _
    · repeat' split
      all_goals first | exact .ret _ | exact executeAdmitted_parted _ _ _ _

theorem Part.inside {ε α : Type} {p : Program W.statements ε α} (h : Part p) :
    Piece Inside GatewayChunk False p := by
  cases h with
  | piece h => exact h.mono (fun _ => Beside.inside) fun _ _ _ => id
  | tool h =>
    cases h with
    | call tool tc _ ha => exact .statements (callTool_uses tool tc ha fun _ => trivial)

theorem executeGuarded_built (call : GatewayCall) (context : Option Value) :
    Built Inside GatewayChunk (executeGuarded call context : Db W _) :=
  Composed.mono (executeGuarded_parted call context) Part.inside

theorem execute_built (call : GatewayCall) (context : Option Value) :
    Built Reads GatewayChunk (execute call context : Db W _) :=
  .bind (built_note _ trivial) fun _ => .bind (.tryCatch ((executeGuarded_built call context).mono
    (fun _ => Inside.reads) fun _ _ _ h => h)
    fun _ => .bind (built_note _ trivial) fun _ => .raise _) fun _ =>
      .bind (built_note _ trivial) fun _ => .ret _

end ToolGateway
end SafeOps
