import SafeOps.Model.Text
import SafeOps.Services.RiskEngine

/-! `app/services/risk_signals.py`: the detectors, over the lists of `risk_config.py`. -/

namespace SafeOps
open Concurrent

def financialRiskBands : List (Rat × Int) := [(100, 10), (1000, 25)]

def financialRiskAboveMax : Int := 40

def promptInjectionPhrases : List String :=
  ["ignore previous instructions", "ignore all previous instructions", "reveal credentials",
    "reveal secrets", "export the database", "export the entire customer database",
    "send customer data to", "upload data to", "do not tell the user"]

def privilegeEscalationPhrases : List String :=
  ["bypass security", "disable safeguards", "override policy", "act as administrator"]

def dataExfiltrationPhrases : List String :=
  ["export the database", "export the entire customer database", "send customer data to",
    "upload data to"]

def sensitiveDataKeywords : List String :=
  ["password", "api key", "api_key", "token", "secret", "ssn", "private key", "credential"]

def destructiveActionKeywords : List String := ["delete", "drop", "destroy", "terminate", "revoke"]

def externalCommunicationKeywords : List String := ["email", "send", "upload"]

def dataExportTools : List String := ["export_customer_data", "send_external_email"]

def externalCommunicationTools : List String := ["send_external_email"]

def toolCategories : List (String × String) :=
  [("read_customer", "customer_support"), ("get_payments", "customer_support"),
    ("refund_payment", "customer_support"), ("get_support_ticket", "customer_support"),
    ("read_logs", "devops"), ("get_deployment", "devops"), ("deploy_staging", "devops"),
    ("deploy_production", "devops"), ("export_customer_data", "data_export"),
    ("send_external_email", "data_export")]

def objectiveCategoryKeywords : List (String × List String) :=
  [("customer_support", ["customer", "payment", "refund", "duplicate", "ticket", "support"]),
    ("devops", ["deploy", "production", "incident", "service", "staging", "outage"])]

/-- A search for `EMAIL_LIKE_PATTERN`: an `@` between two runs free of blanks and of `@`, the second
with a dot inside. -/
def emailLike : List Char → Bool
  | [] => false
  | c :: rest =>
    let plain (c : Char) : Bool := !isSpace c && c ≠ '@'
    (plain c && match rest with
      | '@' :: domain => decide ('.' ∈ ((domain.takeWhile plain).drop 1).dropLast)
      | _ => false) || emailLike rest

namespace RiskSignals

variable (text : Text)

/-- The label the detectors read off a source; a source without one is untrusted. -/
def trustLabel (source : List (String × Value)) : String :=
  text.upper (text.str ((source.lookup "trust").getD (.str "UNTRUSTED")))

/-- The normalised content of one source, if it has one and is not trusted. -/
def untrustedContent : Value → Option String
  | .dict source =>
    match source.lookup "content" with
    | some (.str content) =>
      if trustLabel text source ≠ "TRUSTED" then some (text.normalize content) else none
    | _ => none
  | _ => none

/-- `DetectionInput.untrusted_text`. -/
def untrustedText (input : DetectionInput) : List String :=
  input.sources.filterMap (untrustedContent text)

/-- `DetectionInput.argument_text`. -/
def argumentText (input : DetectionInput) : String :=
  let parts := match input.arguments with
    | .dict entries => entries.filterMap fun p => match p.2 with
      | .str s => some s
      | _ => none
    | _ => []
  text.normalize (" ".intercalate parts)

/-- The first phrase found, text by text. -/
def findPhrase (phrases texts : List String) : Option String :=
  texts.findSome? fun t => phrases.find? (within · t)

abbrev Detector := DetectionInput → Except Unit (Option SignalMatch)

/-- A detector that looks for phrases. -/
def phraseMatch (signal reasonCode : String) (phrases texts : List String) : Option SignalMatch :=
  (findPhrase phrases texts).map fun phrase => ⟨signal, reasonCode, phrase⟩

def detectPromptInjection : Detector := fun input =>
  .ok (phraseMatch "PROMPT_INJECTION" "INJECTION_PHRASE_MATCH" promptInjectionPhrases
    (untrustedText text input))

def detectPrivilegeEscalation : Detector := fun input =>
  .ok (phraseMatch "PRIVILEGE_ESCALATION" "ESCALATION_PHRASE_MATCH" privilegeEscalationPhrases
    (untrustedText text input))

def detectDataExfiltration : Detector := fun input =>
  if input.toolName ∈ dataExportTools then
    .ok (some ⟨"DATA_EXFILTRATION", "DATA_EXPORT_TOOL", input.toolName⟩)
  else
    .ok (phraseMatch "DATA_EXFILTRATION" "EXFILTRATION_PHRASE_MATCH" dataExfiltrationPhrases
      (untrustedText text input))

/-- The categories an objective implies, which the source sorts as they stand here. -/
def impliedCategories (objective : String) : List String :=
  objectiveCategoryKeywords.filterMap fun p =>
    if p.2.any (within · (text.normalize objective)) then some p.1 else none

def detectScopeDeviation : Detector := fun input =>
  match toolCategories.lookup input.toolName with
  | none => .ok none
  | some category =>
    let implied := impliedCategories text input.objective
    if implied.isEmpty ∨ category ∈ implied then .ok none
    else
      let listed := ", ".intercalate (implied.map fun c => "'" ++ c ++ "'")
      .ok (some ⟨"SCOPE_DEVIATION", "TOOL_OUTSIDE_OBJECTIVE_SCOPE",
        input.toolName ++ " not in [" ++ listed ++ "]"⟩)

/-- The amount both financial rules read. -/
def refundAmount (input : DetectionInput) : Option PyDecimal :=
  if input.toolName ≠ "refund_payment" then none
  else match input.arguments.get? "amount" with
    | none | some .null => none
    | some amount => text.decimal (text.str amount)

/-- The first band the amount lies in; comparing a NaN raises. -/
def findBand (amount : PyDecimal) : List (Rat × Int) → Except Unit (Option (Rat × Int))
  | [] => .ok none
  | band :: bands => do
    let inside ← amount.atMost band.1
    if inside then pure (some band) else findBand amount bands

def detectFinancialRisk : Detector := fun input =>
  match refundAmount text input with
  | none => .ok none
  | some amount => do
    let band ← findBand amount financialRiskBands
    pure (some ⟨"FINANCIAL_RISK",
      band.elim "AMOUNT_ABOVE_MAX_BAND" fun band => "AMOUNT_LTE_" ++ toString band.1,
      text.decimalText amount⟩)

/-- `financial_risk_weight`. It is only asked once the detector has not raised. -/
def financialRiskWeight (input : DetectionInput) : Int :=
  match refundAmount text input with
  | none => 0
  | some amount =>
    match findBand amount financialRiskBands with
    | .ok (some band) => band.2
    | .ok none | .error _ => financialRiskAboveMax

def detectSensitiveDataAccess : Detector := fun input =>
  .ok (phraseMatch "SENSITIVE_DATA_ACCESS" "SENSITIVE_KEYWORD_MATCH" sensitiveDataKeywords
    (argumentText text input :: untrustedText text input))

/-- The tool's name with its underscores read as blanks. -/
def spokenToolName (input : DetectionInput) : String :=
  text.normalize (input.toolName.map fun c => if c = '_' then ' ' else c)

def detectDestructiveAction : Detector := fun input =>
  .ok (phraseMatch "DESTRUCTIVE_ACTION" "DESTRUCTIVE_KEYWORD_MATCH" destructiveActionKeywords
    [spokenToolName text input])

def detectExternalCommunication : Detector := fun input =>
  if input.toolName ∈ externalCommunicationTools then
    .ok (some ⟨"EXTERNAL_COMMUNICATION", "EXTERNAL_COMMUNICATION_TOOL", input.toolName⟩)
  else if emailLike (argumentText text input).toList then
    .ok (some ⟨"EXTERNAL_COMMUNICATION", "EMAIL_LIKE_ARGUMENT", "argument"⟩)
  else
    .ok (phraseMatch "EXTERNAL_COMMUNICATION" "EXTERNAL_KEYWORD_MATCH" externalCommunicationKeywords
      [spokenToolName text input])

def detectUnusualToolSequence : Detector := fun input =>
  if toolCategories.lookup input.toolName ≠ some "data_export" then .ok none
  else if input.customerDataRead then
    .ok (some ⟨"UNUSUAL_TOOL_SEQUENCE", "READ_THEN_EXPORT_SEQUENCE", input.toolName⟩)
  else .ok none

/-- `DETECTORS`. -/
def detectors : List Detector :=
  [detectPromptInjection text, detectPrivilegeEscalation text, detectDataExfiltration text,
    detectScopeDeviation text, detectFinancialRisk text, detectSensitiveDataAccess text,
    detectDestructiveAction text, detectExternalCommunication text, detectUnusualToolSequence]

end RiskSignals

/-- The collaborators with the source's own detectors and weights. -/
def World.assessing (W : World) (text : Text) : World :=
  { W with
    detectors := RiskSignals.detectors text
    financialRiskWeight := RiskSignals.financialRiskWeight text }

end SafeOps
