import SafeOps.Inventory.Approvals
import SafeOps.Inventory.Parts

/-! The statements and chunks of the external-action service, and so of every call. -/

namespace SafeOps
open Concurrent Program

variable {W : World}

theorem Critical.assembled {x : Id} {ε α : Type} {p : Program W.statements ε α} (h : Critical x p) :
    Assembled StepOp RuntimeChunk p := by
  cases h with
  | advance execution => exact AgentRuntime.advance_built x execution
  | submit action execution => exact AgentRuntime.submitWithin_built x action execution
  | resume execution => exact AgentRuntime.resumePending_built x execution
  | reconcile execution => exact AgentRuntime.reconcilePending_built x execution

theorem LeasePart.assembled {ε α : Type} {p : Program W.statements ε α} (h : LeasePart p) :
    Assembled LeaseOp RuntimeChunk p := by
  cases h with
  | query q => exact built_query q trivial
  | critical x conflict body h =>
    exact AgentRuntime.withStepping_built x conflict fun execution => (h execution).expand Critical.assembled

theorem AmendPart.assembled {ε α : Type} {p : Program W.statements ε α} (h : AmendPart p) :
    Assembled AmendOp RuntimeChunk p := by
  cases h with
  | leasing h => exact h.assembled.mono (fun _ => LeaseOp.amendOp) fun _ _ _ h => h
  | update row columns => exact built_write _ trivial
  | audit x type metadata ht =>
    refine built_chunk fun _ => .routine ⟨rfl, rfl, ?_, by simp, rfl, rfl, rfl⟩ rfl
    rcases ht with rfl | rfl <;> simp [AuditEventType.aboutStatus_iff]

theorem ServicePart.assembled {ε α : Type} {p : Program W.statements ε α} (h : ServicePart p) :
    Assembled ServiceOp RuntimeChunk p := by
  cases h with
  | amend h => exact h.assembled.mono (fun _ => AmendOp.serviceOp) fun _ _ _ h => h
  | insert row => exact built_write _ trivial
  | start agentId objective context =>
    exact Assembled.mono (AgentRuntime.startExecution_built agentId objective context)
      (fun _ h => h.serviceOp) fun _ _ _ h => h

theorem Leasing.assembled {ε α : Type} {p : Program W.statements ε α} (h : Leasing p) :
    Assembled LeaseOp RuntimeChunk p :=
  h.expand LeasePart.assembled

theorem Amending.assembled {ε α : Type} {p : Program W.statements ε α} (h : Amending p) :
    Assembled AmendOp RuntimeChunk p :=
  h.expand AmendPart.assembled

theorem Serviced.assembled {ε α : Type} {p : Program W.statements ε α} (h : Serviced p) :
    Assembled ServiceOp RuntimeChunk p :=
  h.expand ServicePart.assembled

/-- The parts of a call. -/
inductive CallPart : ∀ {ε α : Type}, Program W.statements ε α → Prop
  | service {ε α : Type} {p : Program W.statements ε α} : ServicePart p → CallPart p
  | gateway (call : GatewayCall) (context : Option Value) : CallPart (ToolGateway.execute call context)
  | resolve (approvalId : Id) (operator : Operator) (approve : Bool) (reason : Option String) :
      CallPart (ApprovalEngine.resolve approvalId operator approve reason)
  | cancel (x : Id) : CallPart (AgentRuntime.cancel x)

theorem Leasing.parts {ε α : Type} {p : Program W.statements ε α} (h : Leasing p) :
    Composed CallPart p :=
  Composed.mono h fun h => .service (.amend (.leasing h))

theorem Call.code_parts (call : Call) : Composed CallPart (call.code : Db W CallResult) := by
  cases call with
  | gateway call context => exact .bind (.atom (.gateway call context)) fun _ => .ret _
  | approve a operator => exact .bind (.atom (.resolve a operator true none)) fun _ => .ret _
  | reject a operator reason => exact .bind (.atom (.resolve a operator false reason)) fun _ => .ret _
  | startExecution agentId objective context =>
    exact .bind (.atom (.service (.start agentId objective context))) fun _ => .ret _
  | step x => exact .bind (AgentRuntime.step_leasing x).parts fun _ => .ret _
  | resume x => exact .bind (AgentRuntime.resume_leasing x).parts fun _ => .ret _
  | cancel x => exact .bind (.atom (.cancel x)) fun _ => .ret _
  | submitExternalAction x action =>
    exact .bind (AgentRuntime.submitExternalAction_leasing x action).parts fun _ => .ret _
  | reconcileExternalStep x =>
    exact .bind (AgentRuntime.reconcileExternalStep_leasing x).parts fun _ => .ret _
  | submit o request =>
    exact .bind (Composed.mono (ExternalActionService.submit_serviced o request) .service) fun _ => .ret _
  | getStatus o key =>
    exact .bind (Composed.mono (Amending.serviced (ExternalActionService.getStatus_amending o key)) .service)
      fun _ => .ret _

/-- The statements each call issues outside its chunks and its gateway calls. -/
def Call.Issues : Call → Op W.Tables → Prop
  | gateway _ _ => fun _ => False
  | approve a _ => ApprovalOp a true
  | reject a _ _ => ApprovalOp a false
  | startExecution _ _ _ => RuntimeOp
  | step _ | resume _ | submitExternalAction _ _ | reconcileExternalStep _ => LeaseOp
  | cancel x => CancelOp x
  | submit _ _ | getStatus _ _ => ServiceOp

/-- The chunks each call commits outside its gateway calls. -/
def Call.Chunks : Call → Id → Nat → Rows W → Prop
  | approve a _ | reject a _ _ => ApprovalChunk a
  | cancel _ => CancelChunk
  | _ => RuntimeChunk

/-- Every call is assembled from its listed statements and chunks, and from gateway calls. -/
theorem Call.code_assembled (call : Call) :
    Assembled call.Issues call.Chunks (call.code : Db W CallResult) := by
  cases call with
  | gateway call context => exact .bind (.atom (.gateway trivial call context)) fun _ => .ret _
  | approve a operator =>
    exact .bind (ApprovalEngine.resolve_built a operator true none).assembled fun _ => .ret _
  | reject a operator reason =>
    exact .bind (ApprovalEngine.resolve_built a operator false reason).assembled fun _ => .ret _
  | startExecution agentId objective context =>
    exact .bind (AgentRuntime.startExecution_built agentId objective context) fun _ => .ret _
  | step x => exact .bind (Leasing.assembled (AgentRuntime.step_leasing x)) fun _ => .ret _
  | resume x => exact .bind (Leasing.assembled (AgentRuntime.resume_leasing x)) fun _ => .ret _
  | cancel x => exact .bind (AgentRuntime.cancel_built x).assembled fun _ => .ret _
  | submitExternalAction x action =>
    exact .bind (Leasing.assembled (AgentRuntime.submitExternalAction_leasing x action)) fun _ => .ret _
  | reconcileExternalStep x =>
    exact .bind (Leasing.assembled (AgentRuntime.reconcileExternalStep_leasing x)) fun _ => .ret _
  | submit o request =>
    exact .bind (Serviced.assembled (ExternalActionService.submit_serviced o request)) fun _ => .ret _
  | getStatus o key =>
    exact .bind (Amending.serviced (ExternalActionService.getStatus_amending o key)).assembled fun _ => .ret _

theorem Call.Issues.anyOp {call : Call} {o : Op W.Tables} (h : call.Issues o) : AnyOp o := by
  cases call with
  | gateway => exact h.elim
  | approve | reject => exact ApprovalOp.anyOp h
  | startExecution => exact (RuntimeOp.serviceOp h).anyOp
  | step | resume | submitExternalAction | reconcileExternalStep =>
    exact (LeaseOp.serviceOp h).anyOp
  | cancel => exact CancelOp.anyOp h
  | submit | getStatus => exact ServiceOp.anyOp h

theorem Call.Chunks.chunk {call : Call} {x : Id} {seq : Nat} {rows : Rows W}
    (h : call.Chunks x seq rows) : Chunk x seq rows := by
  cases call with
  | approve | reject => exact .approval h
  | cancel => exact .cancel h
  | _ => exact .runtime h

/-- The calls together, their gateway calls taken apart. -/
theorem Call.code_built (call : Call) : Built AnyOp Chunk (call.code : Db W CallResult) :=
  Composed.expand call.code_assembled fun
    | .statements h => .atom (.statements (h.mono fun _ => Call.Issues.anyOp))
    | .chunk x build h => .atom (.chunk x build fun attempt seq =>
      (h attempt seq).mono (fun _ h => h) fun _ => Call.Chunks.chunk)
    | .gateway _ call context => (ToolGateway.execute_built call context).mono (fun _ => Reads.anyOp)
      fun _ _ _ => .gateway

end SafeOps
