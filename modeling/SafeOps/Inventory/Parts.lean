import SafeOps.Inventory.Runtime

/-! The calls of the runtime and of the external-action service, taken apart into critical sections
of the lease and what happens outside them. -/

namespace SafeOps
open Concurrent Program

variable {W : World} {ε α : Type}

/-- What the runtime does to execution `x` while it holds the lease. -/
inductive Critical (x : Id) : ∀ {ε α : Type}, Program W.statements ε α → Prop
  | advance (execution : Execution) : Critical x (AgentRuntime.advance x execution)
  | submit (action : ToolAction) (execution : Execution) :
      Critical x (AgentRuntime.submitWithin x action execution)
  | resume (execution : Execution) : Critical x (AgentRuntime.resumePending x execution)
  | reconcile (execution : Execution) : Critical x (AgentRuntime.reconcilePending x execution)

/-- The parts of a call of the runtime that takes the lease. -/
inductive LeasePart : ∀ {ε α : Type}, Program W.statements ε α → Prop
  | query (q : Query) : LeasePart (query q : Db W q.Reply)
  | critical {α : Type} (x : Id) (conflict : Execution → α) (body : Execution → Db W α) :
      (∀ execution, Composed (Critical x) (body execution)) →
      LeasePart (AgentRuntime.withStepping x conflict body)

/-- What the external-action service does with a request that has been recorded. -/
inductive AmendPart : ∀ {ε α : Type}, Program W.statements ε α → Prop
  | leasing {ε α : Type} {p : Program W.statements ε α} : LeasePart p → AmendPart p
  | update (row : ExternalActionRequest) (columns : ExternalActionUpdate) :
      AmendPart (ExternalActionService.update row columns)
  | audit (x : Id) (type : AuditEventType) (metadata : List (String × Value)) :
      type = .externalRequestReceived ∨ type = .externalActionCompleted →
      AmendPart (ExternalActionService.emitAudit x type metadata)

/-- The parts of a call of the external-action service. -/
inductive ServicePart : ∀ {ε α : Type}, Program W.statements ε α → Prop
  | amend {ε α : Type} {p : Program W.statements ε α} : AmendPart p → ServicePart p
  | insert (row : ExternalActionRequest) :
      ServicePart (write (.insertExternalRequest row) : Db W Bool)
  | start (agentId : Id) (objective : String) (context : Option Value) :
      ServicePart (AgentRuntime.startExecution agentId objective context)

abbrev Leasing (p : Program W.statements ε α) : Prop := Composed LeasePart p

abbrev Amending (p : Program W.statements ε α) : Prop := Composed AmendPart p

abbrev Serviced (p : Program W.statements ε α) : Prop := Composed ServicePart p

theorem leasing_query (q : Query) : Leasing (query q : Db W q.Reply) := .atom (.query q)

theorem amending_query (q : Query) : Amending (query q : Db W q.Reply) := .atom (.leasing (.query q))

theorem Leasing.amending {p : Program W.statements ε α} (h : Leasing p) : Amending p :=
  Composed.mono h .leasing

theorem Amending.serviced {p : Program W.statements ε α} (h : Amending p) : Serviced p :=
  Composed.mono h .amend

namespace AgentRuntime

theorem approvalNamed_leasing (a : Option Id) :
    Leasing (approvalNamed a : Db W (Option ApprovalRequest)) := by
  cases a with
  | none => exact .ret _
  | some a => exact leasing_query _

theorem whileRunning_leasing (x : Id) (verb : String) {body : Execution → Db W RuntimeResult}
    (h : ∀ execution, Critical x (body execution)) : Leasing (whileRunning x verb body) := by
  refine .bind (leasing_query _) fun execution => ?_
  simp only
  split
  · exact .ret _
  · split
    · exact .ret _
    · refine .atom (.critical x _ _ fun execution => ?_)
      split
      · exact .ret _
      · exact .atom (h _)

theorem step_leasing (x : Id) : Leasing (step x : Db W RuntimeResult) :=
  whileRunning_leasing x _ .advance

theorem submitExternalAction_leasing (x : Id) (action : ToolAction) :
    Leasing (submitExternalAction x action : Db W RuntimeResult) :=
  whileRunning_leasing x _ (.submit action)

theorem resume_leasing (x : Id) : Leasing (resume x : Db W RuntimeResult) := by
  refine .bind (leasing_query _) fun execution => ?_
  split
  · exact .ret _
  · split
    · exact .ret _
    · split
      · exact .ret _
      · refine .atom (.critical x _ _ fun execution => ?_)
        split
        · exact .ret _
        · exact .atom (.resume _)

theorem reconcileExternalStep_leasing (x : Id) :
    Leasing (reconcileExternalStep x : Db W Reconciliation) := by
  refine .bind (leasing_query _) fun execution => ?_
  split
  · exact .ret _
  · split
    · exact .ret _
    · exact .atom (.critical x _ _ fun execution => .bind (.atom (.reconcile _)) fun _ => .ret _)

end AgentRuntime

namespace ExternalActionService

theorem emitAudit_amending (x : Id) {type : AuditEventType} (metadata : List (String × Value))
    (ht : type = .externalRequestReceived ∨ type = .externalActionCompleted) :
    Amending (emitAudit x type metadata : Db W Unit) :=
  .atom (.audit x type metadata ht)

theorem reload_amending (row : ExternalActionRequest) :
    Amending (reload row : Db W ExternalActionRequest) :=
  .bind (amending_query _) fun _ => .ret _

theorem flushOutcome_amending (row : ExternalActionRequest) (columns : ExternalActionUpdate) :
    Amending (flushOutcome row columns : Db W ExternalActionRequest) := by
  refine .bind (.atom (.update _ _)) fun _ => .bind (reload_amending row) fun refreshed => ?_
  split
  · exact .bind (emitAudit_amending _ _ (by decide)) fun _ => reload_amending _
  · exact .ret _

theorem requireAgentMapping_amending (operatorId agentId : Id) :
    Amending (requireAgentMapping operatorId agentId : Db W Agent) := by
  refine .bind (amending_query _) fun agent => ?_
  split
  · exact .raise _
  · refine .bind (amending_query _) fun mapped => ?_
    split
    · exact .ret _
    · exact .raise _

theorem reconcileIfResolved_amending (row : ExternalActionRequest) :
    Amending (reconcileIfResolved row : Db W ExternalActionRequest) := by
  refine .bind (Leasing.amending (AgentRuntime.approvalNamed_leasing _)) fun approval => ?_
  split
  · exact .ret _
  · split
    · exact .ret _
    · refine .bind (Leasing.amending (AgentRuntime.reconcileExternalStep_leasing _)) fun reconciled =>
        .bind ?_ fun row => .bind (amending_query _) fun step => ?_
      · unfold reloadIf
        split
        · exact reload_amending _
        · exact .ret _
      · split
        · exact flushOutcome_amending _ _
        · exact .ret _

theorem invoke_amending (row : ExternalActionRequest) (loaded : Bool) (arguments : Value)
    (sources : List Source) :
    Amending (invoke row loaded arguments sources : Db W RuntimeResult) := by
  refine .bind ?_ fun _ => Leasing.amending (AgentRuntime.submitExternalAction_leasing _ _)
  unfold markProcessing
  split
  · exact .ret _
  · exact .atom (.update _ _)

theorem invokeAndApply_amending (row : ExternalActionRequest) (loaded : Bool) (arguments : Value)
    (sources : List Source) :
    Amending (invokeAndApply row loaded arguments sources : Db W ActionResponse) := by
  refine .bind (invoke_amending row loaded arguments sources) fun result => ?_
  split
  · exact .raise _
  · exact .bind (reload_amending row) fun current => .bind (amending_query _) fun step =>
      .bind (flushOutcome_amending row _) fun _ => .ret _

theorem retry_amending (existing : ExternalActionRequest) (request : SubmitActionRequest)
    (payloadHash : String) : Amending (retry existing request payloadHash : Db W _) := by
  refine .bind ?_ fun _ => ?_
  · unfold checkHashOrConflict
    split
    · exact .raise _
    · exact .ret _
  · unfold resolveExisting
    split
    · exact .ret _
    · split
      · exact .bind (reconcileIfResolved_amending _) fun _ => .ret _
      · refine .bind (amending_query _) fun step => ?_
        split
        · exact .bind (flushOutcome_amending _ _) fun _ => .ret _
        · exact invokeAndApply_amending _ _ _ _

theorem requestedExecution_serviced (request : SubmitActionRequest) :
    Serviced (requestedExecution request : Db W Id) := by
  unfold requestedExecution
  split
  · refine .bind (amending_query _).serviced fun execution => ?_
    split
    · exact .ret _
    · exact .raise _
  · refine .bind (.atom (.start _ _ _)) fun started => ?_
    split
    · exact .ret _
    · exact .raise _

theorem submit_serviced (operatorId : Id) (request : SubmitActionRequest) :
    Serviced (submit operatorId request : Db W ActionResponse) := by
  refine .bind (requireAgentMapping_amending _ _).serviced fun _ =>
    .bind (amending_query _).serviced fun existing => ?_
  split
  · exact (retry_amending _ _ _).serviced
  · refine .bind (requestedExecution_serviced request) fun x =>
      .bind (.atom (.insert _)) fun inserted => ?_
    split
    · exact .bind (emitAudit_amending _ _ (by decide)).serviced fun _ =>
        (invokeAndApply_amending _ _ _ _).serviced
    · refine .bind (amending_query _).serviced fun existing => ?_
      split
      · exact (retry_amending _ _ _).serviced
      · exact .raise _

theorem getStatus_amending (operatorId : Id) (key : String) :
    Amending (getStatus operatorId key : Db W ActionStatusResponse) := by
  refine .bind (amending_query _) fun existing => ?_
  split
  · exact .raise _
  · split
    · exact .bind (reconcileIfResolved_amending _) fun _ => .ret _
    · exact .ret _

end ExternalActionService

end SafeOps
