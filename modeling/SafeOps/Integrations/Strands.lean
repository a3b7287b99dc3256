import SafeOps.Integrations.Schema

/-! The tools of `integrations/strands/tools.py`, over the client of `integrations/shared/client.py`. -/

namespace SafeOps

namespace Client

/-- The client's own `Source`; what a service has answered need not be text. -/
structure Source where
  type : String
  content : Value

def Source.json (source : Source) : Value :=
  .dict [("type", .str source.type), ("content", source.content)]

/-- A key that is in the body only if there is a value for it. -/
def given (key : String) : Option Value → List (String × Value)
  | some v => [(key, v)]
  | none => []

/-- The body that `submit_action` posts. -/
def submitAction (externalRequestId safeopsAgentId toolName : String) (arguments : Option Value)
    (executionId objective : Option String) (sources : Option (List Source)) (externalAgentId : Option String)
    (integrationType : String) : Value :=
  .dict <|
    [("integration_type", .str integrationType), ("external_request_id", .str externalRequestId),
      ("safeops_agent_id", .str safeopsAgentId), ("tool_name", .str toolName),
      ("arguments", arguments.getD (.dict []))] ++
    given "execution_id" (executionId.map .str) ++ given "objective" (objective.map .str) ++
    given "external_agent_id" (externalAgentId.map .str) ++
    given "sources" ((sources.filter (!·.isEmpty)).map fun sources => .list (sources.map Source.json))

end Client

namespace Strands

/-- A call of one of the tools that `build_tools` returns. -/
inductive ToolUse
  | readCustomer (customerId : String)
  | getPayments (customerId : String)
  | refundPayment (paymentId amount reason : String)
  | getSupportTicket (ticketId : String)
  | sendExternalEmail (recipient subject body : String)
  deriving DecidableEq

/-- What a tool answers: an action, the dict of a `SafeOpsAPIError`, or an exception of the client. -/
inductive Answer
  | action (response : ActionResponse)
  | error (code : Option String) (message : String)
  | raised

namespace ToolUse

def toolName : ToolUse → String
  | readCustomer _ => "read_customer"
  | getPayments _ => "get_payments"
  | refundPayment _ _ _ => "refund_payment"
  | getSupportTicket _ => "get_support_ticket"
  | sendExternalEmail _ _ _ => "send_external_email"

/-- The arguments; `nonce` is the `uuid4` of an idempotency key. -/
def arguments (nonce : String) : ToolUse → Value
  | readCustomer customerId => .dict [("customer_id", .str customerId)]
  | getPayments customerId => .dict [("customer_id", .str customerId)]
  | refundPayment paymentId amount reason =>
    .dict [("payment_id", .str paymentId), ("amount", .str amount), ("reason", .str reason),
      ("idempotency_key", .str ("strands-" ++ nonce))]
  | getSupportTicket ticketId => .dict [("ticket_id", .str ticketId)]
  | sendExternalEmail recipient subject body =>
    .dict [("to", .str recipient), ("subject", .str subject), ("body", .str body)]

def objective : ToolUse → String
  | readCustomer customerId => s!"Strands agent: read_customer({customerId})"
  | getPayments customerId => s!"Strands agent: get_payments({customerId})"
  | refundPayment paymentId amount _ => s!"Strands agent: refund_payment({paymentId}, {amount})"
  | getSupportTicket ticketId => s!"Strands agent: get_support_ticket({ticketId})"
  | sendExternalEmail _ _ _ => "Strands agent: send_external_email"

/-- The body of a ticket, if the tool is the one that reads tickets and its answer has one. -/
def ticketBody : ToolUse → Answer → Option Value
  | getSupportTicket _, .action response => (response.result.bind (·.get? "body")).filter (·.truthy)
  | _, _ => none

end ToolUse

/-- What the tools of one `build_tools` share. -/
structure ToolSet where
  safeopsAgentId : String
  taintedSources : List Client.Source := []

namespace ToolSet

/-- `_submit`, up to the request it sends under a fresh `uuid4`. -/
def submit (tools : ToolSet) (externalRequestId nonce : String) (use : ToolUse) : Value :=
  Client.submitAction externalRequestId tools.safeopsAgentId use.toolName (some (use.arguments nonce))
    none (some use.objective) (some tools.taintedSources) none "GENERIC"

/-- A ticket's body taints what the tools submit from then on. -/
def taint (tools : ToolSet) (body : Option Value) : ToolSet :=
  { tools with taintedSources := tools.taintedSources ++ body.toList.map (⟨"support_ticket", ·⟩) }

end ToolSet

/-- One call of a tool, the body it has posted, and its answer. -/
structure Exchange where
  use : ToolUse
  externalRequestId : String
  nonce : String
  posted : Value
  answer : Answer

def Exchange.ticketBody (e : Exchange) : Option Value := e.use.ticketBody e.answer

/-- The non-empty bodies of the tickets that have been read. -/
def ticketBodies (exchanges : List Exchange) : List Value := exchanges.filterMap Exchange.ticketBody

/-- The calls of a tool set one after the other, where `Answered` says what may be answered to a body. -/
inductive Session (Answered : Value → Answer → Prop) (safeopsAgentId : String) :
    List Exchange → ToolSet → Prop
  | opened : Session Answered safeopsAgentId [] { safeopsAgentId }
  | call {exchanges : List Exchange} {tools : ToolSet} (use : ToolUse) (externalRequestId nonce : String)
      (answer : Answer) : Session Answered safeopsAgentId exchanges tools →
      Answered (tools.submit externalRequestId nonce use) answer →
      Session Answered safeopsAgentId
        (exchanges ++ [⟨use, externalRequestId, nonce, tools.submit externalRequestId nonce use, answer⟩])
        (tools.taint (use.ticketBody answer))

section Sessions

variable {Answered : Value → Answer → Prop} {safeopsAgentId : String} {exchanges earlier later : List Exchange}
  {tools : ToolSet} {e : Exchange}

/-- What taints the tool set is what it has read, in order. -/
theorem Session.tainted (h : Session Answered safeopsAgentId exchanges tools) :
    tools = ⟨safeopsAgentId, (ticketBodies exchanges).map (⟨"support_ticket", ·⟩)⟩ := by
  induction h with
  | opened => rfl
  | call use externalRequestId nonce answer _ _ ih =>
    subst ih
    simp only [ToolSet.taint, ticketBodies, List.filterMap_append, List.map_append, List.filterMap_cons,
      List.filterMap_nil, Exchange.ticketBody]
    cases use.ticketBody answer <;> rfl

/-- Every exchange of a session has been one with the tool set of that moment. -/
theorem Session.exchange (h : Session Answered safeopsAgentId exchanges tools)
    (he : exchanges = earlier ++ e :: later) :
    e.posted = ToolSet.submit ⟨safeopsAgentId, (ticketBodies earlier).map (⟨"support_ticket", ·⟩)⟩
        e.externalRequestId e.nonce e.use ∧
      Answered e.posted e.answer := by
  induction h generalizing later with
  | opened => exact absurd he (by simp)
  | call use externalRequestId nonce answer hsession hanswer ih =>
    rcases List.eq_nil_or_concat' later with rfl | ⟨before, last, rfl⟩
    · obtain ⟨rfl, hlast⟩ := List.append_inj' he rfl
      obtain rfl := (List.cons.inj hlast).1
      rw [hsession.tainted] at hanswer ⊢
      exact ⟨rfl, hanswer⟩
    · rw [← List.cons_append, ← List.append_assoc] at he
      exact ih (List.append_inj' he rfl).1

/-- The sources that a submission carries. -/
theorem submit_sources (safeopsAgentId externalRequestId nonce : String) (sources : List Client.Source) (use : ToolUse) :
    (ToolSet.submit ⟨safeopsAgentId, sources⟩ externalRequestId nonce use).get? "sources" =
      if sources = [] then none else some (.list (sources.map Client.Source.json)) := by
  cases sources <;> rfl

theorem submit_toolName (tools : ToolSet) (externalRequestId nonce : String) (use : ToolUse) :
    (tools.submit externalRequestId nonce use).get? "tool_name" = some (.str use.toolName) := rfl

end Sessions

end Strands
end SafeOps
