import SafeOps.Services.Planner
import SafeOps.Tools.Devops
import SafeOps.Tools.Payments

/-! `app/tools/__init__.py`: the registered tools over one database, and the application that runs them
under the deterministic planner. -/

namespace SafeOps
open Concurrent

/-- What the application is given besides its planner, its refunds and its deployments. The other tools
may read everything, and write tables of their own. -/
structure Premises where
  text : Text
  patterns : Patterns
  /-- How an input schema reads an amount, if it is one. -/
  amount : Value → Option Decimal
  /-- The text of the `ValidationError` of a tool. -/
  validationText : String → Value → String
  renderTime : Time → String
  /-- The clock of the database at each of the tools' statements. -/
  clock : Nat → Time
  Others : Signature
  Rest : Type
  serveOther : (o : Others.Op) → Ledger → Releases → Rest → Others.Reply o × Rest
  otherTools : String → Option (BaseTool Others)
  detectors : List (DetectionInput → Except Unit (Option SignalMatch))
  financialRiskWeight : DetectionInput → Int
  evaluateConditions : Value → Value → Except ConditionFailure Bool
  sha256 : String → String
  reprFloat : Rat → String
  roundFloat : Rat → Rat
  maxExecutionSteps : Nat
  leaseTtl : Time

/-- A statement of some tool. -/
inductive ToolOp (T : Signature)
  | ledger (o : LedgerOp)
  | devops (o : DevopsOp)
  | other (o : T.Op)

@[reducible] def ToolOp.Reply {T : Signature} : ToolOp T → Type
  | ledger o => o.Reply
  | devops o => o.Reply
  | other o => T.Reply o

/-- A text field of an input schema. -/
def textField (arguments : Value) (key : String) : Option String :=
  match arguments.get? key with
  | some (.str s) => some s
  | _ => none

/-- A text field that may be absent or null. -/
def optionalTextField (arguments : Value) (key : String) : Option (Option String) :=
  match arguments.get? key with
  | none | some .null => some none
  | some (.str s) => some (some s)
  | _ => none

/-- `DeployInput.model_validate`. -/
def DeployInput.validate (arguments : Value) : Option DeployInput := do
  let serviceName ← textField arguments "service_name"
  let version ← textField arguments "version"
  let idempotencyKey ← optionalTextField arguments "idempotency_key"
  pure { serviceName, version, idempotencyKey }

/-- `RefundPaymentInput.model_validate`. -/
def RefundPaymentInput.validate (amountOf : Value → Option Decimal) (arguments : Value) :
    Option RefundPaymentInput := do
  let paymentId ← textField arguments "payment_id"
  let amount ← (arguments.get? "amount").bind amountOf
  let reason ← textField arguments "reason"
  let idempotencyKey ← textField arguments "idempotency_key"
  if positive : 0 < amount.value then
    pure { paymentId, amount, reason, idempotencyKey, positive }
  else none

/-- `model_dump(mode="json")` of a refund. -/
def RefundPaymentOutput.modelDump (renderTime : Time → String) (output : RefundPaymentOutput) : Value :=
  .dict [("payment_id", .str output.paymentId), ("refund_amount", .str output.refundAmount.text),
    ("reason", .str output.reason), ("status", .str output.status),
    ("created_at", .str (renderTime output.createdAt)), ("idempotent_replay", .bool output.idempotentReplay)]

/-- `model_dump(mode="json")` of a deployment. -/
def DeployOutput.modelDump (renderTime : Time → String) (output : DeployOutput) : Value :=
  .dict [("service_name", .str output.serviceName), ("environment", .str output.environment),
    ("version", .str output.version), ("deployed_at", .str (renderTime output.deployedAt))]

namespace Premises

variable (P : Premises)

abbrev tables : Signature := ⟨ToolOp P.Others, ToolOp.Reply⟩

/-- The tables of the tools, and the number of statements they have served. -/
structure Books where
  ledger : Ledger
  releases : Releases
  rest : P.Rest
  served : Nat

/-- The database at its next statement. -/
def Books.tick (s : P.Books) : P.Books where
  ledger := { s.ledger with now := P.clock s.served }
  releases := { s.releases with now := P.clock s.served }
  rest := s.rest
  served := s.served + 1

def exec : (o : ToolOp P.Others) → P.Books → o.Reply × P.Books
  | .ledger o, s => ((s.ledger.exec o).1, { s with ledger := (s.ledger.exec o).2 })
  | .devops o, s => ((s.releases.exec o).1, { s with releases := (s.releases.exec o).2 })
  | .other o, s =>
    ((P.serveOther o s.ledger s.releases s.rest).1,
      { s with rest := (P.serveOther o s.ledger s.releases s.rest).2 })

def refundPaymentTool : BaseTool P.tables where
  validationError arguments :=
    if (RefundPaymentInput.validate P.amount arguments).isSome then none
    else some (P.validationText "refund_payment" arguments)
  run arguments :=
    match RefundPaymentInput.validate P.amount arguments with
    | some input => do
      let output ← (RefundPaymentTool.run input).embed (S := P.tables) ToolOp.ledger fun _ r => r
      pure (output.modelDump P.renderTime)
    | none => .raise .other

/-- `DeployStagingTool` and `DeployProductionTool`. -/
def deployTool (name : String) (environment : DeploymentEnvironment) : BaseTool P.tables where
  validationError arguments :=
    if (DeployInput.validate arguments).isSome then none else some (P.validationText name arguments)
  run arguments :=
    match DeployInput.validate arguments with
    | some input => do
      let output ← (DeployTool.deploy input environment).embed (S := P.tables) ToolOp.devops fun _ r => r
      pure (output.modelDump P.renderTime)
    | none => .raise .other

def otherTool (tool : BaseTool P.Others) : BaseTool P.tables where
  validationError := tool.validationError
  run arguments := (tool.run arguments).embed (S := P.tables) ToolOp.other fun _ r => r

/-- `tool_registry`. -/
def registry (name : String) : Option (BaseTool P.tables) :=
  if name = "refund_payment" then some P.refundPaymentTool
  else if name = "deploy_staging" then some (P.deployTool name .staging)
  else if name = "deploy_production" then some (P.deployTool name .production)
  else (P.otherTools name).map P.otherTool

/-- The application under the deterministic planner. -/
def world : World where
  Tables := P.tables
  Domain := P.Books
  serve o s := P.exec o (s.tick P)
  registry := P.registry
  nextAction := DeterministicPlanner.nextAction P.text P.patterns
  detectors := P.detectors
  financialRiskWeight := P.financialRiskWeight
  evaluateConditions := P.evaluateConditions
  sha256 := P.sha256
  reprFloat := P.reprFloat
  roundFloat := P.roundFloat
  maxExecutionSteps := P.maxExecutionSteps
  leaseTtl := P.leaseTtl

end Premises
end SafeOps
