import SafeOps.Integrations.Strands
import SafeOps.Model.Text

/-! `integrations/mcp/server.py`: what becomes of a tool call of an MCP client. -/

namespace SafeOps

/-- The status as it is sent. -/
def ActionStatus.value : ActionStatus → String
  | executed => "EXECUTED"
  | requiresApproval => "REQUIRES_APPROVAL"
  | blocked => "BLOCKED"
  | failed => "FAILED"
  | processing => "PROCESSING"

namespace Mcp

/-- `CallToolRequestParams`. -/
structure CallToolRequestParams where
  name : String
  arguments : Option (List (String × Value))

structure CallToolResult where
  text : String
  isError : Bool
  deriving DecidableEq

namespace CallToolRequestParams

variable (params : CallToolRequestParams)

/-- `arguments.pop("_sources", None)`. -/
def rawSources : Value := ((params.arguments.getD []).lookup "_sources").getD .null

/-- What is left of the arguments. -/
def rest : List (String × Value) := (params.arguments.getD []).filter (·.1 ≠ "_sources")

end CallToolRequestParams

/-- One entry of `_sources`, unless `_parse_sources` raises for it. -/
def parseSource : Value → Option Client.Source
  | .dict entries =>
    match entries.lookup "type", entries.lookup "content" with
    | some (.str type), some (.str content) => some ⟨type, .str content⟩
    | _, _ => none
  | _ => none

/-- `_parse_sources`, unless it raises. -/
def parseSources (raw : Value) : Option (Option (List Client.Source)) :=
  if raw.truthy then
    match raw with
    | .list items => (items.mapM parseSource).map some
    | _ => none
  else some none

/-- The body that a tool call posts under a fresh `uuid4`. -/
def post (safeopsAgentId externalRequestId : String) (params : CallToolRequestParams)
    (sources : Option (List Client.Source)) : Value :=
  Client.submitAction externalRequestId safeopsAgentId params.name (some (.dict params.rest)) none
    (some s!"MCP tool call: {params.name}") sources none "MCP"

/-- What the client is told when the handler has caught an exception it does not know. -/
def internalError : CallToolResult := ⟨"INTERNAL_ERROR: the request could not be processed.", true⟩

def approvalText (name externalRequestId : String) (approvalRequestId : Option Id) : String :=
  let approval := approvalRequestId.elim "None" toString
  s!"Tool '{name}' requires human approval before it will run " ++ s!"(approval_request_id={approval}). " ++
    s!"Poll status with external_request_id='{externalRequestId}' " ++
    "once the approval has been granted or denied by an authorized " ++
    "SafeOps operator; this call does not block waiting for that."

/-- The result of a call whose submission has been answered, or has failed. -/
def ofAnswer (text : Text) (name externalRequestId : String) : Strands.Answer → CallToolResult
  | .error code message => ⟨code.getD "None" ++ ": " ++ message, true⟩
  | .raised => internalError
  | .action response =>
    match response.status with
    | .executed => ⟨s!"Tool '{name}' executed. Result: " ++ text.str (response.result.getD .null), false⟩
    | .requiresApproval => ⟨approvalText name externalRequestId response.approvalRequestId, false⟩
    | status => ⟨s!"Tool '{name}' did not execute: {status.value} - {response.message}", true⟩

/-- `on_call_tool`: what it posts, with the answer to it, and what it returns. `Answered` says what may be answered to
a body. -/
inductive Handled (Answered : Value → Strands.Answer → Prop) (text : Text) (safeopsAgentId : String)
    (params : CallToolRequestParams) : Option (Value × Strands.Answer) → CallToolResult → Prop
  | malformed : parseSources params.rawSources = none →
      Handled Answered text safeopsAgentId params none internalError
  | submitted {sources : Option (List Client.Source)} {externalRequestId : String} {answer : Strands.Answer} :
      parseSources params.rawSources = some sources →
      Answered (post safeopsAgentId externalRequestId params sources) answer →
      Handled Answered text safeopsAgentId params
        (some (post safeopsAgentId externalRequestId params sources, answer))
        (ofAnswer text params.name externalRequestId answer)

section Results

variable {text : Text} {name externalRequestId : String} {answer : Strands.Answer}

/-- A result is no error exactly when the action has been executed or waits for its approval. -/
theorem ofAnswer_isError : (ofAnswer text name externalRequestId answer).isError = false ↔
    ∃ response, answer = .action response ∧ (response.status = .executed ∨ response.status = .requiresApproval) := by
  cases answer with
  | action response =>
    simp only [ofAnswer, Strands.Answer.action.injEq, exists_eq_left']
    cases response.status <;> simp
  | error | raised => simp [ofAnswer, internalError]

theorem mapM_source {items : List Value} {parsed : List Client.Source} (h : items.mapM parseSource = some parsed)
    {item : Value} (hitem : item ∈ items) : ∃ source ∈ parsed, parseSource item = some source := by
  induction items generalizing parsed with
  | nil => cases hitem
  | cons first others ih =>
    simp only [List.mapM_cons, Option.bind_eq_bind, Option.bind_eq_some_iff] at h
    obtain ⟨source, hsource, rest, hrest, hparsed⟩ := h
    obtain rfl := Option.some.inj hparsed
    rcases List.mem_cons.1 hitem with rfl | hitem
    · exact ⟨source, List.mem_cons_self, hsource⟩
    · obtain ⟨source', hmem, hsource'⟩ := ih hrest hitem
      exact ⟨source', List.mem_cons_of_mem _ hmem, hsource'⟩

theorem parseSource_content {item : Value} {source : Client.Source} (h : parseSource item = some source) :
    item.get? "content" = some source.content := by
  cases item with
  | dict entries =>
    simp only [parseSource] at h
    split at h
    · rename_i hcontent
      obtain rfl := Option.some.inj h
      exact hcontent
    · cases h
  | _ => cases h

/-- Every entry of a list that is accepted is forwarded with its text. -/
theorem parseSources_content {items : List Value} {sources : Option (List Client.Source)}
    (h : parseSources (.list items) = some sources) {item : Value} (hitem : item ∈ items) {content : Value}
    (hcontent : item.get? "content" = some content) : ∃ source ∈ sources.getD [], source.content = content := by
  have truthy : (Value.list items).truthy = true := by
    cases items with
    | nil => cases hitem
    | cons => rfl
  rw [parseSources, if_pos truthy] at h
  obtain ⟨parsed, hparsed, rfl⟩ := Option.map_eq_some_iff.1 h
  obtain ⟨source, hmem, hsource⟩ := mapM_source hparsed hitem
  exact ⟨source, hmem, Option.some.inj ((parseSource_content hsource).symm.trans hcontent)⟩

end Results

end Mcp
end SafeOps
