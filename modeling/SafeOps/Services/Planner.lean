import SafeOps.Model.Text
import SafeOps.Services.AgentRuntime

/-! `app/services/planner.py`: the deterministic planner, which derives every decision from the history. -/

namespace SafeOps

/-- `pattern.search(text)` of the planner's regular expressions, with the text of the match. -/
structure Patterns where
  email : String → Option String
  customerId : String → Option String
  ticketId : String → Option String
  version : String → Option String

def knownServices : List String := ["checkout-service"]

/-- `_completed_step`. -/
def completedStep (history : List ExecutionStep) (toolName : String) : Option ExecutionStep :=
  history.find? fun step =>
    step.stepType = .toolCall ∧ step.status = .completed ∧ step.input.toolName = some toolName

/-- `_attempted`. -/
def attempted (history : List ExecutionStep) (toolName : String) : Option ExecutionStep :=
  history.find? fun step => step.stepType = .toolCall ∧ step.input.toolName = some toolName

/-- `_tool_result`. -/
def toolResult (step : ExecutionStep) : Value :=
  match (step.output.getD {}).toolResult with
  | some result => if result.truthy then result else .dict []
  | none => .dict []

/-- What the planner computes may raise. -/
abbrev Planning := Except Unit

/-- What is computed, if anything is, satisfies `P`. -/
def Planning.Yields {α : Type} (P : α → Prop) : Planning α → Prop
  | .ok a => P a
  | .error _ => True

section Yields

variable {α β : Type} {P : α → Prop} {Q : β → Prop} {p : Planning α} {f : α → Planning β}

theorem Planning.Yields.bind_any (hf : ∀ a, (f a).Yields Q) : (p >>= f).Yields Q := by
  cases p with
  | ok a => exact hf a
  | error => trivial

theorem Planning.Yields.bind (hp : p.Yields P) (hf : ∀ a, P a → (f a).Yields Q) : (p >>= f).Yields Q := by
  cases p with
  | ok a => exact hf a hp
  | error => trivial

end Yields

/-- `value.get(key)`, which only a dict has. -/
def getEntry (value : Value) (key : String) : Planning (Option Value) :=
  match value with
  | .dict entries => .ok (entries.lookup key)
  | _ => .error ()

/-- `value[key]`. -/
def entryOf (value : Value) (key : String) : Planning Value :=
  match value.get? key with
  | some entry => .ok entry
  | none => .error ()

/-- `for item in value`. -/
def itemsOf : Value → Planning (List Value)
  | .list items => .ok items
  | .dict entries => .ok (entries.map fun entry => .str entry.1)
  | .str s => .ok (s.toList.map fun c => .str c.toString)
  | _ => .error ()

/-- `groups.setdefault(key, []).append(item)`. -/
def appendTo {α : Type} (key : String) (item : α) : List (String × List α) → List (String × List α)
  | [] => [(key, [item])]
  | group :: groups =>
    if group.1 = key then (key, group.2 ++ [item]) :: groups else group :: appendTo key item groups

namespace DeterministicPlanner

variable (text : Text) (patterns : Patterns)

/-- The groups `by_amount`, payment after payment. -/
def groupByAmount : List (String × List Value) → List Value → Planning (List (String × List Value))
  | groups, [] => .ok groups
  | groups, payment :: payments => do
    let amount ← getEntry payment "amount"
    match text.decimal (text.str (amount.getD .null)) with
    | some amount => groupByAmount (appendTo (text.decimalText amount) payment groups) payments
    | none => groupByAmount groups payments

/-- `payment.get("status") == "SUCCEEDED"`. -/
def succeeded (payment : Value) : Bool :=
  match payment.get? "status" with
  | some (.str status) => status = "SUCCEEDED"
  | _ => false

/-- `_find_duplicate_payment`. -/
def findDuplicatePayment (payments : Value) : Planning (Option Value) := do
  let groups ← groupByAmount text [] (← itemsOf payments)
  pure ((groups.filter fun group => 2 ≤ group.2.length).findSome? fun group => group.2.find? succeeded)

def refundKey (executionId : Id) : String := "runtime-" ++ toString executionId ++ "-refund"

def refundAction (executionId : Id) (duplicate : Value) : Planning ToolAction := do
  let paymentId ← entryOf duplicate "payment_id"
  let amount ← entryOf duplicate "amount"
  pure
    { toolName := "refund_payment"
      arguments := .dict [("payment_id", paymentId), ("amount", amount),
        ("reason", .str "duplicate payment"), ("idempotency_key", .str (refundKey executionId))]
      reason := "Refunding duplicate payment " ++ text.str paymentId
      sources := [] }

/-- `_refund_duplicate_workflow`. -/
def refundDuplicateWorkflow (executionId : Id) (customerId : String) (history : List ExecutionStep) :
    Planning PlannerDecision :=
  if (completedStep history "read_customer").isNone then
    .ok (.toolAction
      { toolName := "read_customer"
        arguments := .dict [("customer_id", .str customerId)]
        reason := "Need customer details to investigate duplicate payment"
        sources := [] })
  else match completedStep history "get_payments" with
    | none =>
      .ok (.toolAction
        { toolName := "get_payments"
          arguments := .dict [("customer_id", .str customerId)]
          reason := "Need payment history to find the duplicate charge"
          sources := [] })
    | some paymentsStep =>
      if (attempted history "refund_payment").isSome then
        .ok (.complete "Refund already attempted for the duplicate payment")
      else do
        let payments ← getEntry (toolResult paymentsStep) "payments"
        match ← findDuplicatePayment text (payments.getD (.list [])) with
        | none => pure (.complete "No duplicate payment found for this customer")
        | some duplicate => return .toolAction (← refundAction text executionId duplicate)

/-- `_support_ticket_workflow`. -/
def supportTicketWorkflow (ticketId : String) (history : List ExecutionStep) : Planning PlannerDecision :=
  match completedStep history "get_support_ticket" with
  | none =>
    .ok (.toolAction
      { toolName := "get_support_ticket"
        arguments := .dict [("ticket_id", .str ticketId)]
        reason := "Need to read ticket " ++ ticketId ++ " to investigate it"
        sources := [] })
  | some ticketStep =>
    if (attempted history "send_external_email").isSome then
      .ok (.complete "Ticket-driven action already attempted")
    else do
      let body ← getEntry (toolResult ticketStep) "body"
      match body.getD (.str "") with
      | .str body =>
        match patterns.email body with
        | none => pure (.complete ("Ticket " ++ ticketId ++ " reviewed, no further action needed"))
        | some email =>
          pure (.toolAction
            { toolName := "send_external_email"
              arguments := .dict [("to", .str email), ("subject", .str ("Re: " ++ ticketId)),
                ("body", .str "Data requested by the ticket.")]
              reason := "Ticket " ++ ticketId ++ " asked for this data to be sent externally"
              sources := [⟨"support_ticket", .untrusted, body⟩] })
      | _ => .error ()

/-- `target_tool` of the deploy workflow, from the objective in lower case. -/
def deployTool (objectiveLower : String) : String :=
  if within "production" objectiveLower then "deploy_production" else "deploy_staging"

def deployKey (executionId : Id) (targetTool : String) : String :=
  "runtime-" ++ toString executionId ++ "-" ++ targetTool

/-- `_deploy_workflow`. -/
def deployWorkflow (executionId : Id) (objective objectiveLower : String) (history : List ExecutionStep) :
    Planning PlannerDecision :=
  match knownServices.find? (within · objectiveLower), patterns.version objective with
  | some serviceName, some version =>
    let targetTool := deployTool objectiveLower
    if (completedStep history "get_deployment").isNone then
      .ok (.toolAction
        { toolName := "get_deployment"
          arguments := .dict [("service_name", .str serviceName)]
          reason := "Need current deployment state for " ++ serviceName
          sources := [] })
    else if (attempted history targetTool).isSome then
      .ok (.complete ("Deploy of " ++ serviceName ++ " " ++ version ++ " already attempted"))
    else
      let environment := if targetTool = "deploy_production" then "production" else "staging"
      .ok (.toolAction
        { toolName := targetTool
          arguments := .dict [("service_name", .str serviceName), ("version", .str version),
            ("idempotency_key", .str (deployKey executionId targetTool))]
          reason := "Deploy " ++ serviceName ++ " " ++ version ++ " to " ++ environment
          sources := [] })
  | _, _ => .ok (.fail "Could not determine service name or version from objective" "UNSUPPORTED_OBJECTIVE")

/-- `next_action`. -/
def plan (executionId : Id) (execution : Execution) (history : List ExecutionStep) :
    Planning PlannerDecision :=
  let objective := execution.objective
  let objectiveLower := text.lower objective
  let deploy :=
    if within "deploy" objectiveLower then deployWorkflow patterns executionId objective objectiveLower history
    else .ok (.fail "Objective did not match any known deterministic workflow" "UNSUPPORTED_OBJECTIVE")
  match within "ticket" objectiveLower, patterns.ticketId objective with
  | true, some ticketId => supportTicketWorkflow patterns ticketId history
  | _, _ =>
    match within "duplicate" objectiveLower, patterns.customerId objective with
    | true, some customerId => refundDuplicateWorkflow text executionId customerId history
    | _, _ => deploy

/-- How `next_action` ends. -/
def nextAction (executionId : Id) (execution : Execution) (history : List ExecutionStep) : PlannerOutcome :=
  match plan text patterns executionId execution history with
  | .ok decision => .decision decision
  | .error _ => .raised

/-- What the planner may propose: a refund, a deployment, or an action of neither kind. -/
inductive Proposal (executionId : Id) (objectiveLower : String) : ToolAction → Prop
  | refund (paymentId amount : Value) (reason : String) :
      Proposal executionId objectiveLower
        { toolName := "refund_payment"
          arguments := .dict [("payment_id", paymentId), ("amount", amount),
            ("reason", .str "duplicate payment"), ("idempotency_key", .str (refundKey executionId))]
          reason := reason
          sources := [] }
  | deploy (serviceName version reason : String) :
      Proposal executionId objectiveLower
        { toolName := deployTool objectiveLower
          arguments := .dict [("service_name", .str serviceName), ("version", .str version),
            ("idempotency_key", .str (deployKey executionId (deployTool objectiveLower)))]
          reason := reason
          sources := [] }
  | other (action : ToolAction) : action.toolName ∉ ["refund_payment", "deploy_staging", "deploy_production"] →
      Proposal executionId objectiveLower action

/-- A decision that proposes nothing else. -/
def Proposes (executionId : Id) (objectiveLower : String) : PlannerDecision → Prop
  | .toolAction action => Proposal executionId objectiveLower action
  | _ => True

section Proposals

variable {text patterns} {executionId : Id} {objective objectiveLower : String} {history : List ExecutionStep}

theorem refundDuplicateWorkflow_proposes (customerId : String) :
    (refundDuplicateWorkflow text executionId customerId history).Yields
      (Proposes executionId objectiveLower) := by
  unfold refundDuplicateWorkflow
  split
  · exact .other _ (by simp)
  · split
    · exact .other _ (by simp)
    · split
      · trivial
      · refine .bind_any fun payments => .bind_any fun found => ?_
        split
        · trivial
        · refine .bind (P := Proposal executionId objectiveLower) ?_ fun _ h => h
          exact .bind_any fun paymentId => .bind_any fun amount => .refund paymentId amount _

theorem supportTicketWorkflow_proposes (ticketId : String) :
    (supportTicketWorkflow patterns ticketId history).Yields (Proposes executionId objectiveLower) := by
  unfold supportTicketWorkflow
  split
  · exact .other _ (by simp)
  · split
    · trivial
    · refine .bind_any fun body => ?_
      split
      · split
        · trivial
        · exact .other _ (by simp)
      · trivial

theorem deployWorkflow_proposes :
    (deployWorkflow patterns executionId objective objectiveLower history).Yields
      (Proposes executionId objectiveLower) := by
  unfold deployWorkflow
  split
  · simp only
    split
    · exact .other _ (by simp)
    · split
      · trivial
      · exact .deploy _ _ _
  · trivial

/-- The planner refunds and deploys under the keys of the execution only. -/
theorem plan_proposes (execution : Execution) :
    (plan text patterns executionId execution history).Yields
      (Proposes executionId (text.lower execution.objective)) := by
  unfold plan
  simp only
  split
  · exact supportTicketWorkflow_proposes _
  · split
    · exact refundDuplicateWorkflow_proposes _
    · split
      · exact deployWorkflow_proposes
      · trivial

/-- A refund is proposed under the key of the execution. -/
theorem Proposal.refund_key {action : ToolAction} (h : Proposal executionId objectiveLower action)
    (hname : action.toolName = "refund_payment") :
    action.arguments.get? "idempotency_key" = some (.str (refundKey executionId)) := by
  cases h with
  | refund paymentId amount reason => rfl
  | deploy => exact absurd hname (by simp only [deployTool]; split <;> decide)
  | other action hother => exact absurd (hname ▸ hother) (by simp)

/-- A deployment is proposed under the key of the execution and of the tool its objective asks for. -/
theorem Proposal.deploy_key {action : ToolAction} (h : Proposal executionId objectiveLower action)
    (hname : action.toolName = "deploy_staging" ∨ action.toolName = "deploy_production") :
    action.arguments.get? "idempotency_key" = some (.str (deployKey executionId (deployTool objectiveLower))) := by
  cases h with
  | refund => simp at hname
  | deploy => rfl
  | other action hother => rcases hname with h | h <;> exact absurd (h ▸ hother) (by simp)

end Proposals

end DeterministicPlanner

end SafeOps
