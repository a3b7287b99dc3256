import SafeOps.Services.ExternalActionService

/-! `app/schemas/external_action.py`: what the integration API takes for a submission. -/

namespace SafeOps

def maxObjectiveLength : Nat := 4000

def maxSourceContentLength : Nat := 20000

def maxSourceTypeLength : Nat := 100

def maxSources : Nat := 10

def maxArgumentsJsonBytes : Nat := 32768

def maxArgumentNestingDepth : Nat := 6

def maxExternalRequestIdLength : Nat := 255

def maxExternalAgentIdLength : Nat := 255

def maxToolNameLength : Nat := 255

mutual

/-- `_json_depth`. -/
def jsonDepth (current : Nat) : Value → Nat
  | .dict entries => if maxArgumentNestingDepth < current then current else entriesDepth current entries
  | .list xs => if maxArgumentNestingDepth < current then current else listDepth current xs
  | _ => current

def listDepth (current : Nat) : List Value → Nat
  | [] => current
  | x :: xs => max (jsonDepth (current + 1) x) (listDepth current xs)

def entriesDepth (current : Nat) : List (String × Value) → Nat
  | [] => current
  | (_, x) :: entries => max (jsonDepth (current + 1) x) (entriesDepth current entries)

end

/-- What the schema leaves to Python. -/
structure Schema where
  /-- `uuid.UUID(text)`. -/
  uuid : String → Option Id
  /-- `str.isalnum` of one character. -/
  isAlnum : Char → Bool
  /-- `len(json.dumps(value, default=str).encode("utf-8"))`. -/
  dumpedBytes : Value → Nat

namespace Schema

section Fields

variable {α : Type} (read : Value → Option α) (entries : List (String × Value)) (key : String)

def required : Option α := (entries.lookup key).bind read

/-- A field with a default. -/
def optional (default : α) : Option α := (entries.lookup key).elim (some default) read

/-- A field that may also be `None`. -/
def nullable : Value → Option (Option α)
  | .null => some none
  | v => (read v).map some

end Fields

/-- `Field(min_length=least, max_length=most)` of a string. -/
def boundedText (least most : Nat) : Value → Option String
  | .str s => if least ≤ s.length ∧ s.length ≤ most then some s else none
  | _ => none

def integrationType : Value → Option IntegrationType
  | .str s => [.generic, .mcp].find? (·.value = s)
  | _ => none

/-- `SourceInput`. -/
def sourceInput : Value → Option SourceInput
  | .dict entries => do
    let type ← required (boundedText 1 maxSourceTypeLength) entries "type"
    let content ← required (boundedText 0 maxSourceContentLength) entries "content"
    pure ⟨type, content⟩
  | _ => none

def sources : Value → Option (List SourceInput)
  | .list xs => if xs.length ≤ maxSources then xs.mapM sourceInput else none
  | _ => none

variable (schema : Schema)

def identifier : Value → Option Id
  | .str s => schema.uuid s
  | _ => none

/-- The length of the name, and `_tool_name_shape`. -/
def toolName (v : Value) : Option String := do
  let name ← boundedText 1 maxToolNameLength v
  let letters := name.toList.filter (· ≠ '_')
  if letters ≠ [] ∧ letters.all schema.isAlnum then some name else none

/-- `_bounded_arguments`. -/
def arguments : Value → Option Value
  | .dict entries =>
    if schema.dumpedBytes (.dict entries) ≤ maxArgumentsJsonBytes ∧
        jsonDepth 0 (.dict entries) ≤ maxArgumentNestingDepth then some (.dict entries)
    else none
  | _ => none

/-- `SubmitActionRequest` of the body of a request, unless it is refused. -/
def submitActionRequest : Value → Option SubmitActionRequest
  | .dict entries => do
    let integrationType ← optional integrationType entries "integration_type" .generic
    let externalRequestId ← required (boundedText 1 maxExternalRequestIdLength) entries "external_request_id"
    let externalAgentId ← optional (nullable (boundedText 0 maxExternalAgentIdLength)) entries "external_agent_id" none
    let safeopsAgentId ← required schema.identifier entries "safeops_agent_id"
    let executionId ← optional (nullable schema.identifier) entries "execution_id" none
    let toolName ← required schema.toolName entries "tool_name"
    let arguments ← optional schema.arguments entries "arguments" (.dict [])
    let objective ← optional (nullable (boundedText 0 maxObjectiveLength)) entries "objective" none
    let sources ← optional sources entries "sources" []
    pure { integrationType, externalRequestId, externalAgentId, safeopsAgentId, executionId, toolName,
           arguments, objective, sources }
  | _ => none

section Accepted

variable {schema}

theorem boundedText_eq_some {least most : Nat} {v : Value} {s : String} :
    boundedText least most v = some s ↔ v = .str s ∧ least ≤ s.length ∧ s.length ≤ most := by
  cases v with
  | str t =>
    simp only [boundedText, Option.ite_none_right_eq_some, Option.some.injEq, Value.str.injEq]
    constructor
    · rintro ⟨h, rfl⟩
      exact ⟨rfl, h⟩
    · rintro ⟨rfl, h⟩
      exact ⟨h, rfl⟩
  | _ => simp [boundedText]

theorem toolName_eq_some {v : Value} {name : String} (h : schema.toolName v = some name) : v = .str name := by
  simp only [toolName, Option.bind_eq_bind, Option.bind_eq_some_iff, boundedText_eq_some] at h
  obtain ⟨_, ⟨rfl, _⟩, h⟩ := h
  rw [(Option.some.inj (Option.ite_none_right_eq_some.1 h).2)]

/-- The two fields of a source that is accepted. -/
theorem sourceInput_fields {v : Value} {source : SourceInput} (h : sourceInput v = some source) :
    v.get? "type" = some (.str source.type) ∧ v.get? "content" = some (.str source.content) ∧
      source.content.length ≤ maxSourceContentLength := by
  cases v with
  | dict entries =>
    simp only [sourceInput, required, Option.bind_eq_bind, Option.bind_eq_some_iff, boundedText_eq_some] at h
    obtain ⟨type, ⟨_, htype, rfl, _⟩, content, ⟨_, hcontent, rfl, _, hlength⟩, hsource⟩ := h
    obtain rfl := Option.some.inj hsource
    exact ⟨htype, hcontent, hlength⟩
  | _ => cases h

theorem sourceInputs_fields {xs : List Value} {inputs : List SourceInput} (h : xs.mapM sourceInput = some inputs) :
    xs.map (fun x => (x.get? "type", x.get? "content")) =
        inputs.map (fun source => (some (.str source.type), some (.str source.content))) ∧
      ∀ source ∈ inputs, source.content.length ≤ maxSourceContentLength := by
  induction xs generalizing inputs with
  | nil =>
    obtain rfl := Option.some.inj h
    simp
  | cons x xs ih =>
    simp only [List.mapM_cons, Option.bind_eq_bind, Option.bind_eq_some_iff] at h
    obtain ⟨source, hsource, rest, hrest, hinputs⟩ := h
    obtain rfl := Option.some.inj hinputs
    obtain ⟨htype, hcontent, hlength⟩ := sourceInput_fields hsource
    obtain ⟨hfields, hlengths⟩ := ih hrest
    refine ⟨by rw [List.map_cons, List.map_cons, htype, hcontent, hfields], fun s hs => ?_⟩
    rcases List.mem_cons.1 hs with rfl | hs
    · exact hlength
    · exact hlengths s hs

/-- Sources that are accepted are no more than `maxSources`. -/
theorem sources_fields {xs : List Value} {inputs : List SourceInput} (h : sources (.list xs) = some inputs) :
    xs.length ≤ maxSources ∧
      xs.map (fun x => (x.get? "type", x.get? "content")) =
        inputs.map (fun source => (some (.str source.type), some (.str source.content))) ∧
      ∀ source ∈ inputs, source.content.length ≤ maxSourceContentLength := by
  obtain ⟨hlength, hinputs⟩ := Option.ite_none_right_eq_some.1 h
  exact ⟨hlength, sourceInputs_fields hinputs⟩

/-- The tool and the sources of a submission that is accepted. -/
theorem submitActionRequest_fields {v : Value} {request : SubmitActionRequest}
    (h : schema.submitActionRequest v = some request) :
    v.get? "tool_name" = some (.str request.toolName) ∧
      (v.get? "sources").elim (some []) sources = some request.sources := by
  cases v with
  | dict entries =>
    simp only [submitActionRequest, required, Option.bind_eq_bind, Option.bind_eq_some_iff] at h
    obtain ⟨_, _, _, _, _, _, _, _, _, _, _, ⟨tool, hlookup, htool⟩, _, _, _, _, _, hsources, hrequest⟩ := h
    obtain rfl := Option.some.inj hrequest
    exact ⟨hlookup.trans (congrArg some (toolName_eq_some htool)), hsources⟩
  | _ => cases h

end Accepted

end Schema
end SafeOps
