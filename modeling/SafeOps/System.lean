import SafeOps.Concurrent.Pool
import SafeOps.Services.ApprovalEngine
import SafeOps.Services.ExternalActionService

/-! The running application: every entry point of the services, any number of times, in any
interleaving of their statements, with a clock and a configuration that change at will. -/

namespace SafeOps
open Concurrent

/-- The calls a client, an operator or an integration can make. -/
inductive Call
  | gateway (call : GatewayCall) (context : Option Value)
  | approve (approvalId : Id) (operator : Operator)
  | reject (approvalId : Id) (operator : Operator) (reason : Option String)
  | startExecution (agentId : Id) (objective : String) (context : Option Value)
  | step (executionId : Id)
  | resume (executionId : Id)
  | cancel (executionId : Id)
  | submitExternalAction (executionId : Id) (action : ToolAction)
  | reconcileExternalStep (executionId : Id)
  | submit (operatorId : Id) (request : SubmitActionRequest)
  | getStatus (operatorId : Id) (externalRequestId : String)

inductive CallResult
  | gateway (result : GatewayResult)
  | approval (result : ApprovalActionResult)
  | runtime (result : RuntimeResult)
  | action (response : ActionResponse)
  | actionStatus (response : ActionStatusResponse)

/-- Changes that reach the application from outside its services. -/
inductive Change
  | setClock (now : Time)
  | setFaults (faults : Faults)
  | configure (directory : Directory)

variable {W : World}

def Call.code : Call → Db W CallResult
  | gateway call context => do return .gateway (← ToolGateway.execute call context)
  | approve a operator => do return .approval (← ApprovalEngine.approve a operator)
  | reject a operator reason => do return .approval (← ApprovalEngine.reject a operator reason)
  | startExecution i objective context =>
    do return .runtime (← AgentRuntime.startExecution i objective context)
  | step x => do return .runtime (← AgentRuntime.step x)
  | resume x => do return .runtime (← AgentRuntime.resume x)
  | cancel x => do return .runtime (← AgentRuntime.cancel x)
  | submitExternalAction x action =>
    do return .runtime (← AgentRuntime.submitExternalAction x action)
  | reconcileExternalStep x => do return .runtime (← AgentRuntime.reconcileExternalStep x).result
  | submit o request => do return .action (← ExternalActionService.submit o request)
  | getStatus o key => do return .actionStatus (← ExternalActionService.getStatus o key)

def Change.apply {D : Type} (s : State D) : Change → State D
  | setClock now => { s with now := now }
  | setFaults faults => { s with faults := faults }
  | configure directory => { s with directory := directory }

section Frame

variable {D : Type} (s : State D) (change : Change)

@[simp] theorem Change.apply_executions : (change.apply s).executions = s.executions := by
  cases change <;> rfl

@[simp] theorem Change.apply_status : (change.apply s).status = s.status := by
  cases change <;> rfl

@[simp] theorem Change.apply_steps : (change.apply s).steps = s.steps := by
  cases change <;> rfl

@[simp] theorem Change.apply_toolRequests : (change.apply s).toolRequests = s.toolRequests := by
  cases change <;> rfl

@[simp] theorem Change.apply_approvals : (change.apply s).approvals = s.approvals := by
  cases change <;> rfl

@[simp] theorem Change.apply_externalRequests :
    (change.apply s).externalRequests = s.externalRequests := by
  cases change <;> rfl

@[simp] theorem Change.apply_audit : (change.apply s).audit = s.audit := by
  cases change <;> rfl

@[simp] theorem Change.apply_nextId : (change.apply s).nextId = s.nextId := by
  cases change <;> rfl

end Frame

namespace World

def system (W : World) : System W.statements Failure CallResult (State W.Domain) Call Change where
  exec := W.exec
  code := Call.code
  disturb := fun change s => change.apply s

end World

/-- A configuration of the application. -/
abbrev App (W : World) := Config W.statements Failure CallResult (State W.Domain) Call

section Steps

variable (c : App W) (i : Nat) (call : Call)

@[simp] theorem App.start_state (s : State W.Domain) : (Config.start s : App W).state = s := rfl

@[simp] theorem App.start_history (s : State W.Domain) : (Config.start s : App W).history = [] := rfl

@[simp] theorem App.spawn_state : (c.spawn W.system call).state = c.state := rfl

@[simp] theorem App.spawn_history : (c.spawn W.system call).history = c.history := rfl

@[simp] theorem App.disturb_state (change : Change) :
    (c.disturb W.system change).state = change.apply c.state := rfl

@[simp] theorem App.disturb_history (change : Change) :
    (c.disturb W.system change).history = c.history := rfl

/-- Thread `i` receives the answer `r` to its statement `o`, which leaves the state `s`. -/
def App.next (o : Op W.Tables) (k : o.Reply → Db W CallResult) (r : o.Reply) (s : State W.Domain) :
    App W where
  state := s
  threads := c.threads.set i ⟨call, k r⟩
  history := ⟨i, o, r⟩ :: c.history

variable (o : Op W.Tables) (k : o.Reply → Db W CallResult) (r : o.Reply) (s : State W.Domain)

@[simp] theorem App.next_state : (App.next c i call o k r s).state = s := rfl

@[simp] theorem App.next_threads :
    (App.next c i call o k r s).threads = c.threads.set i ⟨call, k r⟩ := rfl

@[simp] theorem App.next_history : (App.next c i call o k r s).history = ⟨i, o, r⟩ :: c.history := rfl

@[simp] theorem App.next_past {μ : Type} (M : Monitor W.statements μ) (m : μ) (j : Nat) :
    (App.next c i call o k r s).past M m j =
      if i = j then M.next (c.past M m j) o r else c.past M m j := rfl

end Steps

/-- One answered statement of a run. -/
abbrev Statement (W : World) := Entry W.statements

/-- The application before its first call. -/
def App.Initial (c : App W) : Prop := ∃ s : State W.Domain, s.Fresh ∧ c = Config.start s

/-- Configurations reached by a run from a fresh database all of whose steps satisfy `ok`. -/
def ReachableWithin (ok : App W → Statement W → Prop) (c : App W) : Prop :=
  ∃ c₀, App.Initial c₀ ∧ Steps W.system ok c₀ c

/-- Configurations reached by a run from a fresh database. -/
abbrev Reachable : App W → Prop := ReachableWithin fun _ _ => True

end SafeOps
