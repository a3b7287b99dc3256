import SafeOps.Concurrent.Monitor
import SafeOps.Model.Canonical
import SafeOps.Model.Statements

/-! What the services are given: the registered tools, the planner, the risk detectors, the
policy conditions, the hash of payloads and the configured bounds; and the programs they run over the
database. -/

namespace SafeOps
open Concurrent

structure SignalMatch where
  signal : String
  reasonCode : String
  indicator : String

/-- The input of a risk detector, with the one thing a detector reads from the database. -/
structure DetectionInput where
  toolName : String
  arguments : Value
  objective : String
  sources : List Value
  executionId : Id
  customerDataRead : Bool

/-- Ways a call raises. `other` is an exception no service names. -/
inductive Failure
  | integrityError
  | approvalStateConflict
  | externalAction (statusCode : Nat) (code message : String)
  | other

/-- Ways `evaluate_conditions` raises. -/
inductive ConditionFailure
  | policyConditionError
  | other

/-- Ways `BaseTool._run` raises. -/
inductive ToolFailure
  | toolExecutionError (code message : String)
  | other

/-- A tool over the signature `T` of its own tables. `validationError` is the text of the
`ValidationError` its input schema raises, if it raises one. -/
structure BaseTool (T : Signature) where
  validationError : Value → Option String
  run : Value → Program T ToolFailure Value

structure ToolAction where
  toolName : String
  arguments : Value
  reason : String
  sources : List Source

inductive PlannerDecision
  | toolAction (action : ToolAction)
  | complete (reason : String)
  | fail (reason code : String)

/-- How `planner.next_action` ends; `malformed` is a value that is no decision. -/
inductive PlannerOutcome
  | decision (d : PlannerDecision)
  | raised
  | malformed

/-- The collaborators of the services. -/
structure World where
  Tables : Signature
  Domain : Type
  serve : (o : Tables.Op) → Domain → Tables.Reply o × Domain
  registry : String → Option (BaseTool Tables)
  nextAction : Id → Execution → List ExecutionStep → PlannerOutcome
  detectors : List (DetectionInput → Except Unit (Option SignalMatch))
  financialRiskWeight : DetectionInput → Int
  evaluateConditions : Value → Value → Except ConditionFailure Bool
  sha256 : String → String
  reprFloat : Rat → String
  /-- The float nearest to a number. -/
  roundFloat : Rat → Rat
  maxExecutionSteps : Nat
  leaseTtl : Time

/-- The hash of an external action's payload. -/
def World.hashPayload (W : World) (p : ActionPayload) : String := p.hash W.sha256 W.reprFloat

/-- The arguments of `ToolGateway.execute` that say what is to be done for whom. -/
structure GatewayCall where
  agentId : Id
  executionId : Id
  toolName : String
  arguments : Value

/-- One `tool.execute(arguments)`: the tool request it serves, and the approval it was
allowed by when the gateway did not allow it directly. -/
structure ToolCall where
  executionId : Id
  toolRequestId : Id
  approvalId : Option Id
  toolName : String
  arguments : Value

/-- Moments of a call worth observing. They have no effect. -/
inductive Note
  | gatewayEnter (call : GatewayCall)
  | policyEvaluated (decision : PolicyAction)
  | riskAssessed (recommended : PolicyAction)
  | toolExecute (call : ToolCall)
  | gatewayReturn (status : GatewayStatus)
  | gatewayRaise

/-- Everything a service asks for: of the shared database, or within a tool of its tables. -/
inductive Op (T : Signature)
  | query (q : Query)
  | write (w : Write)
  | note (n : Note)
  | tool (o : T.Op)

@[reducible] def Op.Reply {T : Signature} : Op T → Type
  | query q => q.Reply
  | write w => w.Reply
  | note _ => Unit
  | tool o => T.Reply o

namespace World

abbrev statements (W : World) : Signature := ⟨Op W.Tables, Op.Reply⟩

def exec (W : World) : (o : Op W.Tables) → State W.Domain → o.Reply × State W.Domain
  | .query q, s => (s.answer q, s)
  | .write w, s => s.perform w
  | .note _, s => ((), s)
  | .tool o, s => ((W.serve o s.domain).1, { s with domain := (W.serve o s.domain).2 })

end World

/-- A program of a service. -/
abbrev Db (W : World) (α : Type) := Program W.statements Failure α

variable {W : World} {α : Type}

def query (q : Query) : Db W q.Reply := Program.call (S := W.statements) (.query q)
def write (w : Write) : Db W w.Reply := Program.call (S := W.statements) (.write w)
def note (n : Note) : Db W Unit := Program.call (S := W.statements) (.note n)

end SafeOps
