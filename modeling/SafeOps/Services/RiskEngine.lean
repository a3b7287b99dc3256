import SafeOps.Model.World

/-! `app/services/risk_engine.py`, over the weights of `risk_config.py`. -/

namespace SafeOps
open Concurrent

def signalWeights : List (String × Int) :=
  [("PROMPT_INJECTION", 60), ("DATA_EXFILTRATION", 50), ("PRIVILEGE_ESCALATION", 50),
    ("DESTRUCTIVE_ACTION", 40), ("SENSITIVE_DATA_ACCESS", 35), ("SCOPE_DEVIATION", 35),
    ("EXTERNAL_COMMUNICATION", 20), ("UNUSUAL_TOOL_SEQUENCE", 20)]

def mediumRequireApprovalThreshold : Int := 45

def PolicyAction.severity : PolicyAction → Nat
  | allow => 0
  | requireApproval => 1
  | block => 2

/-- `max(policy_decision, risk_recommendation, key=severity)`; `max` keeps the first of equals. -/
def combineDecisions (policyDecision riskRecommendation : PolicyAction) : PolicyAction :=
  if policyDecision.severity < riskRecommendation.severity then riskRecommendation else policyDecision

theorem combineDecisions_eq_allow {p r : PolicyAction} (h : combineDecisions p r = .allow) :
    p = .allow ∧ r = .allow := by
  cases p <;> cases r <;> simp_all [combineDecisions, PolicyAction.severity]

theorem combineDecisions_eq_requireApproval {p r : PolicyAction}
    (h : combineDecisions p r = .requireApproval) : p ≠ .block ∧ r ≠ .block := by
  cases p <;> cases r <;> simp_all [combineDecisions, PolicyAction.severity]

def riskLevelForScore (score : Int) : RiskLevel :=
  if score ≤ 29 then .low
  else if score ≤ 59 then .medium
  else if score ≤ 84 then .high
  else .critical

def recommendedActionFor (score : Int) : RiskLevel → PolicyAction
  | .low => .allow
  | .medium => if mediumRequireApprovalThreshold ≤ score then .requireApproval else .allow
  | .high => .requireApproval
  | .critical => .block

structure RiskAssessmentResult where
  riskScore : Int
  riskLevel : RiskLevel
  signals : List String
  reasonCodes : List String
  recommendedAction : PolicyAction

namespace RiskEngine

variable {W : World}

/-- What the loop over the detectors has gathered. -/
structure Findings where
  signals : List String := []
  reasonCodes : List String := []
  score : Int := 0
  assessmentFailed : Bool := false

/-- One round of the loop; `none` is a detector that raised. -/
def Findings.add (financialWeight : Int) (f : Findings) : Option (Option SignalMatch) → Findings
  | none => { f with assessmentFailed := true }
  | some none => f
  | some (some found) =>
    { f with
      signals := f.signals ++ [found.signal]
      reasonCodes := f.reasonCodes ++ [found.reasonCode]
      score := f.score +
        if found.signal = "FINANCIAL_RISK" then financialWeight
        else (signalWeights.lookup found.signal).getD 0 }

/-- The result drawn from the findings: bands, hard blocks, and the fail-closed override. -/
def conclude (f : Findings) : RiskAssessmentResult :=
  let score := max 0 (min 100 f.score)
  let hardBlock := ("PROMPT_INJECTION" ∈ f.signals ∧ "DATA_EXFILTRATION" ∈ f.signals) ∨
    "PRIVILEGE_ESCALATION" ∈ f.signals
  if f.assessmentFailed then
    { riskScore := 100
      riskLevel := .critical
      signals := f.signals
      reasonCodes := f.reasonCodes ++ ["RISK_ASSESSMENT_ERROR"]
      recommendedAction := .block }
  else if hardBlock then
    { riskScore := max score 100
      riskLevel := .critical
      signals := f.signals
      reasonCodes := f.reasonCodes
      recommendedAction := .block }
  else
    { riskScore := score
      riskLevel := riskLevelForScore score
      signals := f.signals
      reasonCodes := f.reasonCodes
      recommendedAction := recommendedActionFor score (riskLevelForScore score) }

/-- `context.get("sources")` when the context is a dict and the entry a list. -/
def contextSources (context : Option Value) : List Value :=
  match context.bind (·.get? "sources") with
  | some (.list sources) => sources
  | _ => []

/-- How the `i`-th detector ends: a fault of its own or an exception of its rule raises. -/
def detect (W : World) (faults : Faults) (input : DetectionInput) (i : Nat) :
    Option (Option SignalMatch) :=
  if faults.detector i then none
  else match W.detectors[i]? with
    | some detector => (detector input).toOption
    | none => some none

def assess (executionId : Id) (objective toolName : String) (arguments : Value)
    (context : Option Value) : Db W RiskAssessmentResult := do
  let customerDataRead : Bool ← query (.customerDataRead executionId)
  let faults : Faults ← query .faults
  let input : DetectionInput :=
    { toolName, arguments, objective, sources := contextSources context, executionId, customerDataRead }
  if faults.riskAssessment then .raise .other
  else
    let findings := (List.range W.detectors.length).foldl (fun f i =>
      f.add (W.financialRiskWeight input) (detect W faults input i)) {}
    pure (conclude findings)

end RiskEngine
end SafeOps
