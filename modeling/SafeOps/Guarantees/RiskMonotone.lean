import SafeOps.Bench
import SafeOps.Services.RiskSignals

/-! More untrusted context never lowers the risk of a call. -/

namespace SafeOps
open Concurrent Program

def RiskLevel.severity : RiskLevel → Nat
  | low => 0
  | medium => 1
  | high => 2
  | critical => 3

/-- The second assessment has the signals of the first, and is nowhere less severe. -/
structure RiskAssessmentResult.AtMost (r r' : RiskAssessmentResult) : Prop where
  signals : r.signals ⊆ r'.signals
  score : r.riskScore ≤ r'.riskScore
  level : r.riskLevel.severity ≤ r'.riskLevel.severity
  action : r.recommendedAction.severity ≤ r'.recommendedAction.severity

theorem combineDecisions_severity (p r : PolicyAction) :
    (combineDecisions p r).severity = max p.severity r.severity := by
  unfold combineDecisions
  split <;> omega

section Bands

variable {score score' : Int}

theorem riskLevelForScore_mono (h : score ≤ score') :
    (riskLevelForScore score).severity ≤ (riskLevelForScore score').severity := by
  unfold riskLevelForScore
  repeat' split
  all_goals simp only [RiskLevel.severity]; omega

/-- The bands together with the threshold inside the second one. -/
theorem recommendedActionFor_severity (score : Int) :
    (recommendedActionFor score (riskLevelForScore score)).severity =
      if score ≤ 44 then 0 else if score ≤ 84 then 1 else 2 := by
  unfold riskLevelForScore
  by_cases h29 : score ≤ 29
  · rw [if_pos h29, if_pos (by omega)]
    rfl
  rw [if_neg h29]
  by_cases h59 : score ≤ 59
  · rw [if_pos h59, if_pos (show score ≤ 84 by omega)]
    unfold recommendedActionFor mediumRequireApprovalThreshold
    by_cases h44 : score ≤ 44
    · rw [if_pos h44, if_neg (by omega)]
      rfl
    · rw [if_neg h44, if_pos (by omega)]
      rfl
  rw [if_neg h59, if_neg (show ¬score ≤ 44 by omega)]
  by_cases h84 : score ≤ 84
  · rw [if_pos h84, if_pos h84]
    rfl
  · rw [if_neg h84, if_neg h84]
    rfl

theorem recommendedActionFor_mono (h : score ≤ score') :
    (recommendedActionFor score (riskLevelForScore score)).severity ≤
      (recommendedActionFor score' (riskLevelForScore score')).severity := by
  rw [recommendedActionFor_severity, recommendedActionFor_severity]
  repeat' split
  all_goals omega

theorem PolicyAction.severity_le (a : PolicyAction) : a.severity ≤ PolicyAction.block.severity := by
  cases a <;> decide

theorem RiskLevel.severity_le (l : RiskLevel) : l.severity ≤ RiskLevel.critical.severity := by
  cases l <;> decide

end Bands

namespace RiskEngine

/-- How the second run of a detector may differ from the first: it may find what the first has not. -/
inductive Escalates : Option (Option SignalMatch) → Option (Option SignalMatch) → Prop
  | raised : Escalates none none
  | silent (outcome) : Escalates (some none) outcome
  | found {m m' : SignalMatch} : m.signal = m'.signal → Escalates (some (some m)) (some (some m'))

structure Findings.AtMost (f f' : Findings) : Prop where
  signals : f.signals ⊆ f'.signals
  score : f.score ≤ f'.score
  assessmentFailed : f.assessmentFailed = true → f'.assessmentFailed = true

theorem weight_nonneg {financialWeight : Int} (hw : 0 ≤ financialWeight) (signal : String) :
    0 ≤ if signal = "FINANCIAL_RISK" then financialWeight
      else (signalWeights.lookup signal).getD 0 := by
  split
  · exact hw
  · simp only [signalWeights, List.lookup_cons, List.lookup_nil]
    repeat' split
    all_goals decide

variable {f f' : Findings} {financialWeight weight weight' : Int} {outcome outcome' : Option (Option SignalMatch)}

theorem Findings.AtMost.add_right (h : f.AtMost f') (hw : 0 ≤ financialWeight) :
    f.AtMost (f'.add financialWeight outcome') := by
  rcases outcome' with _ | _ | found
  · exact ⟨h.signals, h.score, fun _ => rfl⟩
  · exact h
  · refine ⟨fun s hs => List.mem_append_left _ (h.signals hs), ?_, h.assessmentFailed⟩
    have := weight_nonneg hw found.signal
    have := h.score
    simp only [Findings.add]
    omega

theorem Findings.AtMost.add (h : f.AtMost f') (hw : 0 ≤ weight) (hle : weight ≤ weight')
    (he : Escalates outcome outcome') : (f.add weight outcome).AtMost (f'.add weight' outcome') := by
  cases he with
  | raised => exact ⟨h.signals, h.score, fun _ => rfl⟩
  | silent => exact h.add_right (hw.trans hle)
  | @found m m' hm =>
    refine ⟨fun s hs => ?_, ?_, h.assessmentFailed⟩
    · rcases List.mem_append.1 hs with hs | hs
      · exact List.mem_append_left _ (h.signals hs)
      · exact List.mem_append_right _ (hm ▸ hs)
    · have := h.score
      simp only [Findings.add, hm]
      split <;> omega

/-- The combinations of signals that block whatever the score. -/
def HardBlock (signals : List String) : Prop :=
  ("PROMPT_INJECTION" ∈ signals ∧ "DATA_EXFILTRATION" ∈ signals) ∨ "PRIVILEGE_ESCALATION" ∈ signals

theorem HardBlock.mono {signals signals' : List String} (h : HardBlock signals)
    (hs : signals ⊆ signals') : HardBlock signals' := by
  rcases h with h | h
  · exact .inl ⟨hs h.1, hs h.2⟩
  · exact .inr (hs h)

theorem conclude_signals (f : Findings) : (conclude f).signals = f.signals := by
  unfold conclude
  simp only
  split
  · rfl
  · split <;> rfl

/-- The two ways an assessment ends. -/
theorem conclude_cases (f : Findings) :
    ((f.assessmentFailed = true ∨ HardBlock f.signals) ∧ (conclude f).riskScore = 100 ∧
      (conclude f).riskLevel = .critical ∧ (conclude f).recommendedAction = .block) ∨
    (¬(f.assessmentFailed = true ∨ HardBlock f.signals) ∧
      (conclude f).riskScore = max 0 (min 100 f.score) ∧
      (conclude f).riskLevel = riskLevelForScore (max 0 (min 100 f.score)) ∧
      (conclude f).recommendedAction = recommendedActionFor (max 0 (min 100 f.score))
        (riskLevelForScore (max 0 (min 100 f.score)))) := by
  unfold conclude HardBlock
  simp only
  split
  · rename_i hfailed
    exact .inl ⟨.inl hfailed, rfl, rfl, rfl⟩
  · rename_i hfailed
    split
    · rename_i hblock
      exact .inl ⟨.inr hblock, by simp only; omega, rfl, rfl⟩
    · rename_i hblock
      exact .inr ⟨fun h => h.elim hfailed hblock, rfl, rfl, rfl⟩

/-- Clamping, bands, hard blocks and the fail-closed override preserve the order. -/
theorem conclude_mono (h : f.AtMost f') : (conclude f).AtMost (conclude f') := by
  have signals : (conclude f).signals ⊆ (conclude f').signals := by
    rw [conclude_signals, conclude_signals]
    exact h.signals
  rcases conclude_cases f' with ⟨_, hscore', hlevel', haction'⟩ | ⟨quiet', hscore', hlevel', haction'⟩
  · refine ⟨signals, ?_, ?_, ?_⟩
    · rcases conclude_cases f with ⟨_, hscore, _, _⟩ | ⟨_, hscore, _, _⟩
      · rw [hscore, hscore']
      · rw [hscore, hscore']
        omega
    · rw [hlevel']
      exact RiskLevel.severity_le _
    · rw [haction']
      exact PolicyAction.severity_le _
  · rcases conclude_cases f with ⟨loud, _⟩ | ⟨_, hscore, hlevel, haction⟩
    · refine absurd ?_ quiet'
      rcases loud with hfailed | hblock
      · exact .inl (h.assessmentFailed hfailed)
      · exact .inr (hblock.mono h.signals)
    · have clamped : max 0 (min 100 f.score) ≤ max 0 (min 100 f'.score) := by
        have := h.score
        omega
      exact ⟨signals, by rw [hscore, hscore']; exact clamped,
        by rw [hlevel, hlevel']; exact riskLevelForScore_mono clamped,
        by rw [haction, haction']; exact recommendedActionFor_mono clamped⟩

end RiskEngine

namespace RiskSignals
open RiskEngine

/-- The second input shows the detectors everything untrusted that the first one does, in the same
circumstances. -/
structure Exposed (text : Text) (input input' : DetectionInput) : Prop where
  toolName : input'.toolName = input.toolName
  arguments : input'.arguments = input.arguments
  objective : input'.objective = input.objective
  customerDataRead : input'.customerDataRead = input.customerDataRead
  untrusted : untrustedText text input ⊆ untrustedText text input'

variable {text : Text} {input input' : DetectionInput}

theorem findPhrase_isSome {phrases texts : List String} :
    (findPhrase phrases texts).isSome ↔ ∃ t ∈ texts, ∃ phrase ∈ phrases, within phrase t = true := by
  simp [findPhrase, List.findSome?_isSome_iff]

/-- Every phrase found in the first texts is found in the second. -/
theorem phraseMatch_covers {signal reasonCode : String} {phrases texts texts' : List String}
    (h : ∀ t ∈ texts, ∀ phrase ∈ phrases, within phrase t = true → ∃ t' ∈ texts', within phrase t' = true) :
    Escalates (some (phraseMatch signal reasonCode phrases texts))
      (some (phraseMatch signal reasonCode phrases texts')) := by
  cases hf : findPhrase phrases texts with
  | none =>
    rw [phraseMatch, hf]
    exact .silent _
  | some phrase =>
    obtain ⟨t, ht, phrase, hphrase, hmatch⟩ := findPhrase_isSome.1 (by rw [hf]; rfl)
    obtain ⟨t', ht', hmatch'⟩ := h t ht phrase hphrase hmatch
    have hfound := findPhrase_isSome.2 ⟨t', ht', phrase, hphrase, hmatch'⟩
    obtain ⟨phrase', hf'⟩ := Option.isSome_iff_exists.1 hfound
    rw [phraseMatch, phraseMatch, hf, hf']
    exact .found rfl

theorem phraseMatch_escalates {signal reasonCode : String} {phrases texts texts' : List String}
    (h : texts ⊆ texts') : Escalates (some (phraseMatch signal reasonCode phrases texts))
      (some (phraseMatch signal reasonCode phrases texts')) :=
  phraseMatch_covers fun t ht _ _ hmatch => ⟨t, h ht, hmatch⟩

theorem escalates_same (outcome : Option (Option SignalMatch)) : Escalates outcome outcome := by
  rcases outcome with _ | _ | found
  · exact .raised
  · exact .silent _
  · exact .found rfl

/-- A detector that reads no source. -/
theorem escalates_of_eq {outcome outcome' : Option (Option SignalMatch)} (h : outcome' = outcome) :
    Escalates outcome outcome' :=
  h ▸ escalates_same outcome

theorem Exposed.argumentText (h : Exposed text input input') :
    argumentText text input' = argumentText text input := by
  simp only [RiskSignals.argumentText, h.arguments]

theorem Exposed.spokenToolName (h : Exposed text input input') :
    spokenToolName text input' = spokenToolName text input := by
  simp only [RiskSignals.spokenToolName, h.toolName]

theorem Exposed.refundAmount (h : Exposed text input input') :
    refundAmount text input' = refundAmount text input := by
  simp only [RiskSignals.refundAmount, h.toolName, h.arguments]

/-- No detector finds less when more untrusted text is in view. -/
theorem Exposed.escalates (h : Exposed text input input') {detector : Detector}
    (hd : detector ∈ detectors text) :
    Escalates (detector input).toOption (detector input').toOption := by
  simp only [detectors, List.mem_cons, List.not_mem_nil, or_false] at hd
  rcases hd with rfl | rfl | rfl | rfl | rfl | rfl | rfl | rfl | rfl
  · exact phraseMatch_escalates h.untrusted
  · exact phraseMatch_escalates h.untrusted
  · unfold detectDataExfiltration
    rw [h.toolName]
    split
    · exact .found rfl
    · exact phraseMatch_escalates h.untrusted
  · exact escalates_of_eq (by simp only [detectScopeDeviation, h.toolName, h.objective])
  · exact escalates_of_eq (by simp only [detectFinancialRisk, h.refundAmount])
  · refine phraseMatch_escalates ?_
    rw [h.argumentText]
    exact List.cons_subset_cons _ h.untrusted
  · exact escalates_of_eq (by simp only [detectDestructiveAction, h.spokenToolName])
  · exact escalates_of_eq (by
      simp only [detectExternalCommunication, h.toolName, h.argumentText, h.spokenToolName])
  · exact escalates_of_eq (by
      simp only [detectUnusualToolSequence, h.toolName, h.customerDataRead])

theorem Exposed.weight (h : Exposed text input input') :
    financialRiskWeight text input' = financialRiskWeight text input := by
  simp only [financialRiskWeight, h.refundAmount]

theorem financialRiskWeight_nonneg (input : DetectionInput) : 0 ≤ financialRiskWeight text input := by
  have bands : ∀ {amount bands band}, findBand amount bands = .ok (some band) →
      (∀ b ∈ bands, 0 ≤ b.2) → 0 ≤ band.2 := by
    intro amount bands band hf hb
    induction bands with
    | nil => cases hf
    | cons b bands ih =>
      rw [findBand] at hf
      cases hi : amount.atMost b.1 with
      | error => rw [hi] at hf; cases hf
      | ok inside =>
        rw [hi] at hf
        cases inside with
        | true =>
          cases hf
          exact hb band (by simp)
        | false => exact ih hf fun b' hb' => hb b' (by simp [hb'])
  unfold financialRiskWeight
  split
  · decide
  · split
    · rename_i band hf
      exact bands hf (by decide)
    · decide
    · decide

/-- What the assessment makes of an input, when it does not raise. -/
def assessment (W : World) (faults : Faults) (input : DetectionInput) : RiskAssessmentResult :=
  conclude ((List.range W.detectors.length).foldl (fun f i =>
    f.add (W.financialRiskWeight input) (detect W faults input i)) {})

/-- An assessment is no milder when no detector finds less and the financial weight is no smaller. -/
theorem assessment_atMost {W : World} {faults : Faults} (hnonneg : 0 ≤ W.financialRiskWeight input)
    (hweight : W.financialRiskWeight input ≤ W.financialRiskWeight input')
    (hdetectors : ∀ detector ∈ W.detectors, Escalates (detector input).toOption (detector input').toOption) :
    (assessment W faults input).AtMost (assessment W faults input') := by
  have detected (i : Nat) : Escalates (detect W faults input i) (detect W faults input' i) := by
    unfold detect
    split
    · exact .raised
    · cases hd : W.detectors[i]? with
      | none => exact .silent _
      | some detector => exact hdetectors detector (List.mem_of_getElem? hd)
  have folded : ∀ (indices : List Nat) (f f' : Findings), f.AtMost f' →
      (indices.foldl (fun f i => f.add (W.financialRiskWeight input) (detect W faults input i)) f).AtMost
      (indices.foldl (fun f i => f.add (W.financialRiskWeight input') (detect W faults input' i)) f') := by
    intro indices
    induction indices with
    | nil => exact fun f f' hf => hf
    | cons i indices ih => exact fun f f' hf => ih _ _ (hf.add hnonneg hweight (detected i))
  exact conclude_mono (folded _ _ _ ⟨List.Subset.refl _, le_refl _, fun h => h⟩)

theorem Exposed.assessment (h : Exposed text input input') (W : World) (faults : Faults) :
    (assessment (W.assessing text) faults input).AtMost
      (assessment (W.assessing text) faults input') :=
  assessment_atMost (financialRiskWeight_nonneg input) h.weight.ge fun _ hd => h.escalates hd

/-- An entry as it stands, or with its label changed from trusted to any other or removed. -/
inductive Relabels (text : Text) : Value → Value → Prop
  | same (entry : Value) : Relabels text entry entry
  | changed {source source' : List (String × Value)} : trustLabel text source = "TRUSTED" →
      (∀ key, key ≠ "trust" → source'.lookup key = source.lookup key) →
      Relabels text (.dict source) (.dict source')

/-- Every source of the first list is in the second, possibly trusted less. -/
def Extends (text : Text) (sources sources' : List Value) : Prop :=
  ∀ entry ∈ sources, ∃ entry' ∈ sources', Relabels text entry entry'

theorem Extends.untrusted {sources sources' : List Value} (h : Extends text sources sources') :
    sources.filterMap (untrustedContent text) ⊆ sources'.filterMap (untrustedContent text) := by
  intro content hc
  obtain ⟨entry, he, hcontent⟩ := List.mem_filterMap.1 hc
  obtain ⟨entry', he', hr⟩ := h entry he
  refine List.mem_filterMap.2 ⟨entry', he', ?_⟩
  cases hr with
  | same => exact hcontent
  | changed htrusted =>
    -- a trusted source has contributed nothing
    exfalso
    simp only [untrustedContent, htrusted] at hcontent
    split at hcontent
    · simp at hcontent
    · cases hcontent

end RiskSignals

open RiskEngine RiskSignals

variable {text : Text} {W : World}

/-- How the assessment ends in given states. -/
theorem assess_trace {x : Id} {objective toolName : String} {arguments : Value} {context : Option Value}
    {steps : List (Op W.Tables × State W.Domain)} {ending : Except Failure RiskAssessmentResult}
    (h : Trace W.exec (assess x objective toolName arguments context) steps ending) :
    ∃ s s', steps = [(.query (.customerDataRead x), s), (.query .faults, s')] ∧
      ending = if s'.faults.riskAssessment then .error .other
        else .ok (assessment W s'.faults ⟨toolName, arguments, objective, contextSources context, x,
          s.answer (.customerDataRead x)⟩) := by
  cases h with
  | request s h =>
    cases h with
    | request s' h =>
      refine ⟨s, s', ?_⟩
      change Trace W.exec (if s'.faults.riskAssessment then .raise .other
        else .ret (assessment W s'.faults ⟨toolName, arguments, objective, contextSources context, x,
          s.answer (.customerDataRead x)⟩) : Db W RiskAssessmentResult) _ _ at h
      split at h
      · cases h
        exact ⟨rfl, (if_pos ‹_›).symm⟩
      · cases h
        exact ⟨rfl, (if_neg ‹_›).symm⟩

/-- Assessed for the same call, after the same tool requests and under the same faults, a call with
the second context gets no milder an assessment, nor a milder decision under any policy. -/
def NoMilder (W : World) (context context' : Option Value) : Prop :=
  ∀ (x : Id) (objective toolName : String) (arguments : Value) (s₁ s₂ s₁' s₂' : State W.Domain)
    (r : RiskAssessmentResult) (ending : Except Failure RiskAssessmentResult),
    s₁'.answer (.customerDataRead x) = s₁.answer (.customerDataRead x) → s₂'.faults = s₂.faults →
    Trace W.exec (assess x objective toolName arguments context)
      [(.query (.customerDataRead x), s₁), (.query .faults, s₂)] (.ok r) →
    Trace W.exec (assess x objective toolName arguments context')
      [(.query (.customerDataRead x), s₁'), (.query .faults, s₂')] ending →
    ∃ r', ending = .ok r' ∧ r.AtMost r' ∧ ∀ policyDecision,
      (combineDecisions policyDecision r.recommendedAction).severity ≤
        (combineDecisions policyDecision r'.recommendedAction).severity

theorem noMilder_of_extends {context context' : Option Value}
    (h : Extends text (contextSources context) (contextSources context')) :
    NoMilder (W.assessing text) context context' := by
  intro x objective toolName arguments s₁ s₂ s₁' s₂' r ending hread hfaults htrace htrace'
  obtain ⟨_, _, hsteps, hending⟩ := assess_trace htrace
  obtain ⟨_, _, hsteps', hending'⟩ := assess_trace htrace'
  cases hsteps
  cases hsteps'
  rw [hfaults, hread] at hending'
  split at hending
  · cases hending
  · rename_i hf
    rw [if_neg hf] at hending'
    obtain rfl := Except.ok.inj hending
    have exposed : Exposed text
        ⟨toolName, arguments, objective, contextSources context, x, s₁.answer (.customerDataRead x)⟩
        ⟨toolName, arguments, objective, contextSources context', x, s₁.answer (.customerDataRead x)⟩ :=
      ⟨rfl, rfl, rfl, rfl, h.untrusted⟩
    have order := exposed.assessment W s₂.faults
    refine ⟨_, hending', order, fun policyDecision => ?_⟩
    have := order.action
    rw [combineDecisions_severity, combineDecisions_severity]
    omega

/-- The context in which the runtime submits an action with the sources of an integration. -/
def submittedContext (action : ToolAction) (sources : List SourceInput) : Option Value :=
  some (AgentRuntime.gatewayContext
    { action with sources := ExternalActionService.normalizeSources sources })

/-- Every submitted source reaches the assessment verbatim, as untrusted. -/
theorem contextSources_submitted (action : ToolAction) (sources : List SourceInput) :
    contextSources (submittedContext action sources) = sources.map fun source =>
      .dict [("type", .str source.type), ("trust", .str "UNTRUSTED"), ("content", .str source.content)] := by
  simp [contextSources, submittedContext, AgentRuntime.gatewayContext, Value.get?,
    ExternalActionService.normalizeSources, Source.modelDump, Function.comp_def]

/-- More untrusted context never lowers the risk of a call: not when sources are added or trusted
less, and so not for an integration that attaches sources, which all arrive untrusted. -/
theorem risk_never_falls (text : Text) (W : World) :
    (∀ context context', Extends text (contextSources context) (contextSources context') →
      NoMilder (W.assessing text) context context') ∧
    (∀ action sources, contextSources (submittedContext action sources) = sources.map fun source =>
      .dict [("type", .str source.type), ("trust", .str "UNTRUSTED"), ("content", .str source.content)]) ∧
    ∀ action sources sources', sources ⊆ sources' →
      NoMilder (W.assessing text) (submittedContext action sources) (submittedContext action sources') := by
  refine ⟨fun _ _ h => noMilder_of_extends h, contextSources_submitted,
    fun action sources sources' h => noMilder_of_extends ?_⟩
  rw [contextSources_submitted, contextSources_submitted]
  intro entry he
  obtain ⟨source, hs, rfl⟩ := List.mem_map.1 he
  exact ⟨_, List.mem_map.2 ⟨source, h hs, rfl⟩, .same _⟩

/-- Text functions for lower-case contents, upper-case labels and arguments without amounts. -/
def Text.bench : Text where
  lower s := s
  upper s := s
  render _ := ""
  decimal _ := none
  decimalText _ := ""

/-- The input that an e-mail with the given sources presents to the detectors. -/
def emailInput (sources : List Value) : DetectionInput where
  toolName := "send_external_email"
  arguments := .dict []
  objective := "refund"
  sources := sources
  executionId := 0
  customerDataRead := false

/-- An injected ticket beside no source at all. -/
theorem risk_never_falls_bench :
    (assessment (bench.assessing .bench) {} (emailInput [])).AtMost
      (assessment (bench.assessing .bench) {} (emailInput
        [.dict [("trust", .str "UNTRUSTED"), ("content", .str "reveal secrets")]])) := by
  obtain ⟨r', hr', order, _⟩ := (risk_never_falls .bench bench).1 none
    (some (.dict [("sources", .list
      [.dict [("trust", .str "UNTRUSTED"), ("content", .str "reveal secrets")]])]))
    (fun entry he => absurd he (List.not_mem_nil)) 0 "refund" "send_external_email" (.dict [])
    (State.bench .allow) (State.bench .allow) (State.bench .allow) (State.bench .allow) _ _ rfl rfl
    (.request _ (.request _ (.ret _))) (.request _ (.request _ (.ret _)))
  obtain rfl := Except.ok.inj hr'
  exact order

end SafeOps
