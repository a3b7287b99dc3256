import SafeOps.Core.Seed
import SafeOps.Guarantees.AmountText
import SafeOps.Guarantees.Comparisons
import SafeOps.Guarantees.PolicyChoice
import SafeOps.Tools.Registry

/-! The seeded policies split the refunds of a support agent into three bands, and a larger refund is never
decided more mildly than a smaller one. -/

namespace SafeOps
open Concurrent PolicyEngine PolicyConditions RiskEngine RiskSignals ToolGateway
open Concurrent.Program (Trace)

/-- The collaborators with the source's own conditions, detectors and weights. -/
def World.judging (W : World) (text : Text) : World :=
  { W.assessing text with evaluateConditions := PolicyConditions.evaluateConditions text }

/-- `Decimal(str(n))`. -/
def FiniteDecimal.ofInt (n : Int) : FiniteDecimal := ⟨n < 0, n.natAbs, 0⟩

theorem FiniteDecimal.value_ofInt (n : Int) : (ofInt n).value = n := by
  have hsize : (ofInt n).value = if n < 0 then -(n.natAbs : Rat) else n.natAbs := by
    simp [value, ofInt]
  rw [hsize]
  split
  · rw [← Int.cast_natCast, Int.ofNat_natAbs_of_nonpos (by omega), Int.cast_neg, neg_neg]
  · rw [← Int.cast_natCast, Int.natAbs_of_nonneg (by omega)]

/-- The limit Python puts on the digits of an integer, in `str` and in `json.loads`. -/
def maxStrDigits : Nat := 4300

/-- The value has come out of `json.loads`. -/
def Loaded (v : Value) : Prop := ∀ n, v = .int n → n.natAbs < 10 ^ maxStrDigits

/-- A number or a text that is read as a finite amount. -/
structure IsAmount (text : Text) (v : Value) (x : Rat) : Prop where
  kind : v.kind = .int ∨ v.kind = .float ∨ v.kind = .str
  decimal : ∃ d, text.decimal (text.str v) = some (.finite d) ∧ d.value = x

/-- What is taken from Python's `str`, `lower` and `Decimal`, and from the schema's decimals. -/
structure ReadsAmounts (text : Text) (amountOf : Value → Option Decimal) : Prop where
  lower : ∀ s t, text.lower (s ++ " " ++ t) = text.lower s ++ " " ++ text.lower t
  written : ∀ s d, text.decimal s = some (.finite d) → Nonempty (AmountText text s)
  int : ∀ n : Int, n.natAbs < 10 ^ maxStrDigits → text.decimal (text.str (.int n)) = some (.finite (.ofInt n))
  /-- The schema takes integers, floats and texts, and reads each as `Decimal(str(v))`. -/
  amount : ∀ v d, Loaded v → amountOf v = some d → IsAmount text v d.value

/-- The action of the band an amount lies in. -/
def refundBand (x : Rat) : PolicyAction :=
  if x ≤ 100 then .allow else if x ≤ 1000 then .requireApproval else .block

theorem refundBand_mono {x y : Rat} (h : x ≤ y) : (refundBand x).severity ≤ (refundBand y).severity := by
  unfold refundBand
  by_cases hy : y ≤ 100
  · rw [if_pos hy, if_pos (h.trans hy)]
  · rw [if_neg hy]
    by_cases hy' : y ≤ 1000
    · rw [if_pos hy', if_pos (h.trans hy')]
      split <;> decide
    · rw [if_neg hy']
      exact PolicyAction.severity_le _

theorem refundBand_iff (x : Rat) : (refundBand x = .allow ↔ x ≤ 100) ∧
    (refundBand x = .requireApproval ↔ 100 < x ∧ x ≤ 1000) ∧ (refundBand x = .block ↔ 1000 < x) := by
  unfold refundBand
  by_cases h : x ≤ 100
  · have h' : x ≤ 1000 := by linarith
    simp [h, h'.not_gt]
  · by_cases h' : x ≤ 1000
    · simp [h, h', not_le.1 h]
    · simp [h, h', not_le.1 h']

section Conditions

variable {text : Text} {amountOf : Value → Option Decimal} (hreads : ReadsAmounts text amountOf) {v : Value}
  {context : Value} {x : Rat}
include hreads

theorem reading_int {n : Int} (h : n.natAbs < 10 ^ maxStrDigits) : reading text (.int n) = some (n : Rat) := by
  simp [reading, asDecimal, hreads.int n h, Except.toOption, FiniteDecimal.value_ofInt]

omit hreads in
theorem IsAmount.reading (h : IsAmount text v x) : reading text v = some x := by
  obtain ⟨d, hd, hvalue⟩ := h.decimal
  cases v with
  | int | float | str => simp [PolicyConditions.reading, asDecimal, hd, hvalue, Except.toOption]
  | _ => simpa [Value.kind] using h.kind

omit hreads in
theorem evaluate_amountCondition {name : String} {operator : PolicyConditions.Operator} (hoperator : Operator.named name = some operator)
    (hfield : resolveField (.str "arguments.amount") context = .ok v) (n : Int) :
    evaluateNode text context (amountCondition name n) = operator.apply text v (.int n) := by
  have hkeys : LeafKeys [("field", .str "arguments.amount"), ("operator", .str name), ("value", .int n)] := by
    constructor <;> simp [leafKeys]
  have hlookup : operatorOf (.str name) = .ok operator := by rw [operatorOf, hoperator]
  simp [amountCondition, evaluateNode, evaluateLeaf, hkeys, List.lookup_cons, hlookup, hfield, bind, Except.bind]

/-- The conditions of a seeded refund policy hold exactly in its band, and never raise. -/
theorem evaluate_seeded (hx : reading text v = some x)
    (hfield : resolveField (.str "arguments.amount") context = .ok v) {data : SeedPolicy} (hdata : data ∈ seedPolicies)
    (hname : data.toolName = "refund_payment") :
    evaluateConditions text data.conditions context = .ok (decide (refundBand x = data.action)) := by
  have hhundred : reading text (.int 100) = some 100 :=
    reading_int hreads (lt_of_le_of_lt (by decide) (Nat.pow_lt_pow_right (by decide : 1 < 10) (by decide : 2 < maxStrDigits)))
  have hthousand : reading text (.int 1000) = some 1000 :=
    reading_int hreads (lt_of_le_of_lt (by decide) (Nat.pow_lt_pow_right (by decide : 1 < 10) (by decide : 3 < maxStrDigits)))
  have hlte {n : Int} {y : Rat} (hy : reading text (.int n) = some y) :
      evaluateNode text context (amountCondition "lte" n) = .ok (decide (x ≤ y)) := by
    rw [evaluate_amountCondition (show PolicyConditions.Operator.named "lte" = some .lte from rfl) hfield]
    exact compare_eq _ hx hy
  have hgt {n : Int} {y : Rat} (hy : reading text (.int n) = some y) :
      evaluateNode text context (amountCondition "gt" n) = .ok (decide (y < x)) := by
    rw [evaluate_amountCondition (show PolicyConditions.Operator.named "gt" = some .gt from rfl) hfield]
    exact compare_eq _ hx hy
  obtain ⟨hallow, happroval, hblock⟩ := refundBand_iff x
  simp only [seedPolicies, List.mem_cons, List.not_mem_nil, or_false] at hdata
  rcases hdata with rfl | rfl | rfl | rfl | rfl
  · simp only [hallow, evaluateConditions, evaluateNode, evaluateAll, hlte hhundred]
    by_cases h : x ≤ 100 <;> simp [h]
  · simp only [happroval, evaluateConditions, evaluateNode, evaluateAll, hgt hhundred, hlte hthousand]
    by_cases h : 100 < x <;> by_cases h' : x ≤ 1000 <;> simp [h, h']
  · simp only [hblock, evaluateConditions, evaluateNode, evaluateAll, hgt hthousand]
    by_cases h : 1000 < x <;> simp [h]
  · exact absurd hname (by decide)
  · exact absurd hname (by decide)

end Conditions

section Policies

variable {text : Text} {amountOf : Value → Option Decimal} {W : World} {g : Admitted (W.judging text)}
  {agent : Agent}

theorem resolveField_amount {agentId executionId : Id} {tool : Tool} {arguments v : Value}
    (h : arguments.get? "amount" = some v) (hnull : v ≠ .null) :
    resolveField (.str "arguments.amount") (evaluationContext agentId agent tool arguments executionId) = .ok v := by
  have hsegments : segments "arguments.amount".toList = ["arguments".toList, "amount".toList] := by decide
  have hwalk : walk (evaluationContext agentId agent tool arguments executionId)
      (segments "arguments.amount".toList) = some v := by
    have hfirst : (evaluationContext agentId agent tool arguments executionId).get? "arguments" = some arguments := by
      simp [evaluationContext, Value.get?]
    simp only [hsegments, walk, String.ofList_toList, hfirst, Option.bind_some, h]
  rw [resolveField, if_neg (by decide), hwalk]
  cases v <;> first | rfl | exact absurd rfl hnull

theorem seeded_eq {data data' : SeedPolicy} (hdata : data ∈ seedPolicies)
    (hname : data.toolName = "refund_payment") (hdata' : data' ∈ seedPolicies)
    (hname' : data'.toolName = "refund_payment")
    (h : data.action = data'.action ∨ data.policyKey = data'.policyKey) : data = data' := by
  simp only [seedPolicies, List.mem_cons, List.not_mem_nil, or_false] at hdata hdata'
  rcases hdata with rfl | rfl | rfl | rfl | rfl <;> rcases hdata' with rfl | rfl | rfl | rfl | rfl <;>
    first | rfl | exact absurd hname (by decide) | exact absurd hname' (by decide) | exact absurd h (by decide)

theorem exists_seeded (x : Rat) : ∃ data ∈ seedPolicies, data.toolName = "refund_payment" ∧
    data.agentType = "support" ∧ data.action = refundBand x := by
  cases refundBand x with
  | allow => exact ⟨seedPolicies[0], by simp [seedPolicies], rfl, rfl, rfl⟩
  | requireApproval => exact ⟨seedPolicies[1], by simp [seedPolicies], rfl, rfl, rfl⟩
  | block => exact ⟨seedPolicies[2], by simp [seedPolicies], rfl, rfl, rfl⟩

/-- Seeded policies choose the one of the amount's band. -/
theorem seeded_decides (hreads : ReadsAmounts text amountOf) (hagent : agent.type = "support") {v : Value} {x : Rat}
    (hx : reading text v = some x)
    (hfield : resolveField (.str "arguments.amount") (g.question agent).context = .ok v) {policies : List Policy}
    (hseeded : Seeded "refund_payment" g.toolRow.id policies) :
    ∃ p, p.action = refundBand x ∧ outcome (resolveRanks (g.question agent).evaluateConditions
      (g.question agent).context (ranks g.call.agentId agent policies)) = .of p := by
  obtain ⟨idOf, hrows⟩ := hseeded
  obtain ⟨data, hdata, hname, htype, haction⟩ := exists_seeded x
  set band := data.row (idOf data.policyKey) g.toolRow.id
  have hband : band ∈ policies := (hrows _).2 ⟨data, hdata, hname, rfl⟩
  have hevaluate {data : SeedPolicy} (hdata : data ∈ seedPolicies) (hname : data.toolName = "refund_payment") :
      (g.question agent).evaluateConditions data.conditions (g.question agent).context =
        .ok (decide (refundBand x = data.action)) := evaluate_seeded hreads hx hfield hdata hname
  -- only the policy of the band holds, and none raises
  have hholds {p : Policy} (hp : p ∈ policies) (h : (g.question agent).Holds p) : p = band := by
    obtain ⟨data', hdata', hname', rfl⟩ := (hrows p).1 hp
    have hdecided := Except.ok.inj ((hevaluate hdata' hname').symm.trans h)
    have haction' : refundBand x = data'.action := of_decide_eq_true hdecided
    rw [seeded_eq hdata' hname' hdata hname (.inl (haction'.symm.trans haction.symm))]
  have hbandHolds : (g.question agent).Holds band :=
    (hevaluate hdata hname).trans (by rw [haction, decide_eq_true rfl])
  have hquiet {p : Policy} (hp : p ∈ policies) : ¬(g.question agent).Raises p := by
    obtain ⟨data', hdata', hname', rfl⟩ := (hrows p).1 hp
    rintro ⟨e, he⟩
    exact nomatch (hevaluate hdata' hname').symm.trans he
  have hranked : band ∈ (g.question agent).rank {p | p ∈ policies} .agentType := by
    refine ⟨hband, rfl, ?_⟩
    rw [show (g.question agent).agent.type = "support" from hagent]
    exact congrArg some htype
  have htop : ∀ p ∈ (g.question agent).top ((g.question agent).rank {p | p ∈ policies} .agentType), p = band :=
    fun p hp => hholds hp.1.1 hp.2.1
  have hdecides : (g.question agent).Decides {p | p ∈ policies} (.of band) := by
    refine .ranked .agentType ⟨band, hranked, .inl hbandHolds⟩ (fun r hr => ?_) ?_
    · cases r with
      | agentId =>
        rintro ⟨p, ⟨hp, hpinned⟩, -⟩
        obtain ⟨data', -, -, rfl⟩ := (hrows p).1 hp
        cases hpinned
      | agentType => exact absurd hr (Nat.lt_irrefl _)
      | toolOnly => exact absurd hr (by decide)
    · have hmaximal : band ∈ (g.question agent).top ((g.question agent).rank {p | p ∈ policies} .agentType) :=
        ⟨hranked, hbandHolds, fun p hp h => (congrArg Policy.priority (hholds hp.1 h)).le⟩
      exact .agreed (fun p hp => hquiet hp.1) hmaximal (fun p hp => congrArg Policy.action (htop p hp))
        fun p hp => (congrArg Policy.policyKey (htop p hp)).ge
  have hkeys : Set.InjOn Policy.policyKey {p | p ∈ policies} := by
    intro p hp p' hp' h
    obtain ⟨data₁, hdata₁, hname₁, rfl⟩ := (hrows p).1 hp
    obtain ⟨data₂, hdata₂, hname₂, rfl⟩ := (hrows p').1 hp'
    rw [seeded_eq hdata₁ hname₁ hdata₂ hname₂ (.inr h)]
  exact ⟨band, haction, (resolveRanks_decides policies).unique hkeys hdecides⟩

end Policies

section Assessments

variable {text : Text} {amountOf : Value → Option Decimal}

theorem findBand_finite (d : FiniteDecimal) : findBand (.finite d) financialRiskBands =
    .ok (if d.value ≤ 100 then some (100, 10) else if d.value ≤ 1000 then some (1000, 25) else none) := by
  simp only [financialRiskBands, findBand, PyDecimal.atMost, bind, Except.bind, pure, Except.pure]
  by_cases h : d.value ≤ 100 <;> by_cases h' : d.value ≤ 1000 <;> simp [h, h']

theorem refundAmount_eq {input : DetectionInput} {v : Value} {x : Rat} (hname : input.toolName = "refund_payment")
    (hv : input.arguments.get? "amount" = some v) (hx : IsAmount text v x) :
    ∃ d, refundAmount text input = some (.finite d) ∧ d.value = x := by
  obtain ⟨d, hd, hvalue⟩ := hx.decimal
  refine ⟨d, ?_, hvalue⟩
  rw [refundAmount, if_neg (not_not.2 hname), hv, ← hd]
  cases v with
  | null => simpa [Value.kind] using hx.kind
  | _ => rfl

/-- Two assessments of one refund that differ in its amount. -/
structure Larger (text : Text) (x y : Rat) (input input' : DetectionInput) : Prop where
  toolName : input.toolName = "refund_payment"
  toolName' : input'.toolName = "refund_payment"
  objective : input'.objective = input.objective
  sources : input'.sources = input.sources
  arguments : ∃ before after v v', input.arguments = .dict (before ++ ("amount", v) :: after) ∧
    input'.arguments = .dict (before ++ ("amount", v') :: after) ∧ "amount" ∉ before.map (·.1) ∧
    v.kind = v'.kind ∧ IsAmount text v x ∧ IsAmount text v' y

theorem get?_amount {before after : List (String × Value)} (h : "amount" ∉ before.map (·.1)) (v : Value) :
    (Value.dict (before ++ ("amount", v) :: after)).get? "amount" = some v := by
  have hnone : before.lookup "amount" = none := by
    rw [List.lookup_eq_none_iff]
    intro entry hentry
    exact bne_iff_ne.2 fun heq => h (List.mem_map.2 ⟨entry, hentry, heq.symm⟩)
  rw [Value.get?, List.lookup_append, hnone, Option.none_or, List.lookup_cons_self]

/-- The texts among the entries of a dict. -/
def textsOf (entries : List (String × Value)) : List String :=
  entries.filterMap fun p => match p.2 with
    | .str s => some s
    | _ => none

theorem argumentText_eq {input : DetectionInput} {entries : List (String × Value)} (h : input.arguments = .dict entries) :
    argumentText text input = text.normalize (" ".intercalate (textsOf entries)) := by
  rw [argumentText, h]
  rfl

theorem textsOf_amount (before after : List (String × Value)) (v : Value) :
    textsOf (before ++ ("amount", v) :: after) = textsOf before ++ (textsOf [("amount", v)] ++ textsOf after) := by
  rw [textsOf, List.filterMap_append, ← List.singleton_append, List.filterMap_append]
  rfl

theorem textsOf_number {v : Value} (h : v.kind = .int ∨ v.kind = .float) : textsOf [("amount", v)] = [] := by
  cases v with
  | int | float => rfl
  | _ => simp [Value.kind] at h

variable {x y : Rat} {input input' : DetectionInput}

/-- The amount's own text makes no difference to what is found in the arguments. -/
theorem Larger.search (hreads : ReadsAmounts text amountOf) (h : Larger text x y input input') :
    (∀ phrase ∈ sensitiveDataKeywords,
      within phrase (argumentText text input) = within phrase (argumentText text input')) ∧
    emailLike (argumentText text input).toList = emailLike (argumentText text input').toList := by
  obtain ⟨before, after, v, v', harguments, harguments', -, hkind, hx, hy⟩ := h.arguments
  rw [argumentText_eq harguments, argumentText_eq harguments', textsOf_amount, textsOf_amount]
  by_cases hnumber : v.kind = .int ∨ v.kind = .float
  · rw [textsOf_number hnumber, textsOf_number (hkind ▸ hnumber)]
    exact ⟨fun _ _ => rfl, rfl⟩
  · have hstr : v.kind = .str := by
      have := hx.kind
      tauto
    have hstr' : v'.kind = .str := hkind ▸ hstr
    cases v with
    | str s =>
      cases v' with
      | str s' =>
        obtain ⟨d, hd, -⟩ := hx.decimal
        obtain ⟨d', hd', -⟩ := hy.decimal
        obtain ⟨amount⟩ := hreads.written s d hd
        obtain ⟨amount'⟩ := hreads.written s' d' hd'
        obtain ⟨opening, closing, hopens, hcloses, hwords⟩ :=
          normalize_amount hreads.lower (textsOf before) (textsOf after)
        obtain ⟨word, hword, htext⟩ := hwords s amount
        obtain ⟨word', hword', htext'⟩ := hwords s' amount'
        obtain ⟨hphrases, hemail⟩ := search_between hopens hcloses hword hword'
        have hcons (s : String) : textsOf [("amount", .str s)] ++ textsOf after = s :: textsOf after := rfl
        rw [hcons, hcons]
        refine ⟨fun phrase hphrase => ?_, by rw [htext, htext', hemail]⟩
        rw [within, within, htext, htext']
        exact decide_eq_decide.2 (hphrases phrase hphrase)
      | _ => cases hstr'
    | _ => cases hstr

theorem Larger.refundAmounts (h : Larger text x y input input') :
    (∃ d, refundAmount text input = some (.finite d) ∧ d.value = x) ∧
      ∃ d', refundAmount text input' = some (.finite d') ∧ d'.value = y := by
  obtain ⟨before, after, v, v', harguments, harguments', hfirst, -, hx, hy⟩ := h.arguments
  constructor
  · exact refundAmount_eq h.toolName (harguments ▸ get?_amount hfirst v) hx
  · exact refundAmount_eq h.toolName' (harguments' ▸ get?_amount hfirst v') hy

theorem Larger.weight (hxy : x ≤ y) (h : Larger text x y input input') :
    financialRiskWeight text input ≤ financialRiskWeight text input' := by
  obtain ⟨⟨d, hx, rfl⟩, d', hy, rfl⟩ := h.refundAmounts
  rw [financialRiskWeight, financialRiskWeight, hx, hy]
  simp only [findBand_finite]
  by_cases hy100 : d'.value ≤ 100
  · simp [hy100, hxy.trans hy100]
  · by_cases hy1000 : d'.value ≤ 1000
    · by_cases hx100 : d.value ≤ 100 <;> simp [hy100, hy1000, hx100, hxy.trans hy1000]
    · by_cases hx100 : d.value ≤ 100 <;> by_cases hx1000 : d.value ≤ 1000 <;>
        simp [hy100, hy1000, hx100, hx1000, financialRiskAboveMax]

theorem Larger.escalates (hreads : ReadsAmounts text amountOf) (h : Larger text x y input input')
    {detector : Detector} (hd : detector ∈ detectors text) :
    Escalates (detector input).toOption (detector input').toOption := by
  have huntrusted : untrustedText text input' = untrustedText text input := by
    rw [untrustedText, untrustedText, h.sources]
  have hname : input'.toolName = input.toolName := h.toolName'.trans h.toolName.symm
  have hspoken : spokenToolName text input' = spokenToolName text input := by
    rw [spokenToolName, spokenToolName, hname]
  obtain ⟨hphrases, hemail⟩ := h.search hreads
  simp only [detectors, List.mem_cons, List.not_mem_nil, or_false] at hd
  rcases hd with rfl | rfl | rfl | rfl | rfl | rfl | rfl | rfl | rfl
  · exact escalates_of_eq (by simp only [detectPromptInjection, huntrusted])
  · exact escalates_of_eq (by simp only [detectPrivilegeEscalation, huntrusted])
  · exact escalates_of_eq (by simp only [detectDataExfiltration, hname, huntrusted])
  · exact escalates_of_eq (by simp only [detectScopeDeviation, hname, h.objective])
  · obtain ⟨⟨d, hx, -⟩, d', hy, -⟩ := h.refundAmounts
    simp only [detectFinancialRisk, hx, hy, findBand_finite]
    exact .found rfl
  · refine phraseMatch_covers fun t ht phrase hphrase hmatch => ?_
    rcases List.mem_cons.1 ht with rfl | ht
    · exact ⟨_, List.mem_cons_self, hphrases phrase hphrase ▸ hmatch⟩
    · exact ⟨t, List.mem_cons_of_mem _ (huntrusted.symm ▸ ht), hmatch⟩
  · exact escalates_of_eq (by simp only [detectDestructiveAction, hspoken])
  · exact escalates_of_eq (by simp only [detectExternalCommunication, hname, hspoken, hemail])
  · have hcategory : toolCategories.lookup "refund_payment" ≠ some "data_export" := by decide
    refine escalates_of_eq ?_
    rw [detectUnusualToolSequence, detectUnusualToolSequence, h.toolName, h.toolName', if_pos hcategory, if_pos hcategory]

end Assessments

section Decisions

variable {W : World}

/-- The assessment of a call as the gateway takes it, one that raises included. -/
def assessed (g : Admitted W) : Db W RiskAssessmentResult :=
  (RiskEngine.assess g.call.executionId g.objective g.toolRow.name g.call.arguments g.context).tryCatch
    fun _ => pure failedAssessment

/-- What the gateway decides about a conditional call, as policies, faults and earlier requests are read:
the policies' decision, combined with the risk unless it blocks. -/
inductive FinalDecision (g : Admitted W) (agent : Agent) (s₁ s₂ s₃ s₄ : State W.Domain) : PolicyAction → Prop
  | blocked {result : PolicyEvaluationResult} :
      Trace W.exec (policyResult g agent) [(.query (.policies g.toolRow.id), s₁), (.query .faults, s₂)] (.ok result) →
      result.decision = .block → FinalDecision g agent s₁ s₂ s₃ s₄ .block
  | combined {result : PolicyEvaluationResult} {risk : RiskAssessmentResult} :
      Trace W.exec (policyResult g agent) [(.query (.policies g.toolRow.id), s₁), (.query .faults, s₂)] (.ok result) →
      result.decision ≠ .block →
      Trace W.exec (assessed g)
        [(.query (.customerDataRead g.call.executionId), s₃), (.query .faults, s₄)] (.ok risk) →
      FinalDecision g agent s₁ s₂ s₃ s₄ (combineDecisions result.decision risk.recommendedAction)

/-- What the detectors are shown of a call. -/
def detectionInput (g : Admitted W) (customerDataRead : Bool) : DetectionInput :=
  ⟨g.toolRow.name, g.call.arguments, g.objective, contextSources g.context, g.call.executionId, customerDataRead⟩

theorem assessed_trace {g : Admitted W} {s₃ s₄ : State W.Domain} {risk : RiskAssessmentResult}
    (h : Trace W.exec (assessed g)
      [(.query (.customerDataRead g.call.executionId), s₃), (.query .faults, s₄)] (.ok risk)) :
    risk = if s₄.faults.riskAssessment then failedAssessment
      else assessment W s₄.faults (detectionInput g (s₃.answer (.customerDataRead g.call.executionId))) := by
  cases h with
  | request _ h =>
    cases h with
    | request _ h =>
      change Trace W.exec (((if s₄.faults.riskAssessment then .raise .other
        else .ret (assessment W s₄.faults (detectionInput g (s₃.answer (.customerDataRead g.call.executionId))))) :
          Db W RiskAssessmentResult).tryCatch fun _ => pure failedAssessment) _ _ at h
      split at h <;> cases h <;> simp_all

/-- The call with an amount among its other arguments. -/
def refunding (g : Admitted W) (before : List (String × Value)) (amount : Value) (after : List (String × Value)) :
    Admitted W :=
  { g with call := { g.call with arguments := .dict (before ++ ("amount", amount) :: after) } }

end Decisions

section Bands

variable {text : Text} {amountOf : Value → Option Decimal} {W : World} {g : Admitted (W.judging text)}
  {agent : Agent}

/-- The policies' decision about a refund, unless a fault blocks it. -/
theorem policyResult_refund (hreads : ReadsAmounts text amountOf) (hagent : agent.type = "support") {v : Value} {x : Rat}
    (hv : g.call.arguments.get? "amount" = some v) (hx : IsAmount text v x) {s s' : State W.Domain}
    {ending : Except Failure PolicyEvaluationResult}
    (h : Trace (W.judging text).exec (policyResult g agent)
      [(.query (.policies g.toolRow.id), s), (.query .faults, s')] ending)
    (hseeded : Seeded "refund_payment" g.toolRow.id (s.directory.enabled g.toolRow.id)) :
    ∃ result, ending = .ok result ∧
      result.decision = (if s'.faults.policyEvaluation then .block else refundBand x) ∧
      (s'.faults.policyEvaluation = false → result.matchedPolicy.isSome) := by
  obtain ⟨_, _, result, hsteps, hending, hchoice⟩ := policyResult_trace h
  cases hsteps
  refine ⟨result, hending, ?_⟩
  split at hchoice
  · rename_i hfault
    exact ⟨by rw [if_pos hfault]; exact congrArg Choice.decision hchoice, fun h => by rw [hfault] at h; cases h⟩
  · rename_i hfault
    have hnull : v ≠ .null := by
      rintro rfl
      simpa [Value.kind] using hx.kind
    obtain ⟨p, haction, hdecides⟩ :=
      seeded_decides hreads hagent hx.reading (resolveField_amount hv hnull) hseeded
    have hresult : choice result = .of p := hchoice.trans hdecides
    rw [if_neg hfault, ← haction]
    exact ⟨congrArg Choice.decision hresult, fun _ => by rw [show result.matchedPolicy = _ from congrArg Choice.matchedPolicy hresult]; rfl⟩

/-- The assessment of a larger refund is nowhere less severe. -/
theorem assessed_refund (hreads : ReadsAmounts text amountOf) (hname : g.call.toolName = "refund_payment")
    {before after : List (String × Value)} {v v' : Value} {x y : Rat} (hfirst : "amount" ∉ before.map (·.1))
    (hkind : v.kind = v'.kind) (hx : IsAmount text v x) (hy : IsAmount text v' y) (hxy : x ≤ y)
    {s₃ s₄ s₃' s₄' : State W.Domain} (hfaults : s₄'.faults = s₄.faults) {risk risk' : RiskAssessmentResult}
    (h : Trace (W.judging text).exec (assessed (refunding g before v after))
      [(.query (.customerDataRead g.call.executionId), s₃), (.query .faults, s₄)] (.ok risk))
    (h' : Trace (W.judging text).exec (assessed (refunding g before v' after))
      [(.query (.customerDataRead g.call.executionId), s₃'), (.query .faults, s₄')] (.ok risk')) :
    risk.recommendedAction.severity ≤ risk'.recommendedAction.severity := by
  rw [assessed_trace h, assessed_trace h', hfaults]
  split
  · exact le_refl _
  · have hlarger : Larger text x y
        (detectionInput (refunding g before v after) (s₃.answer (.customerDataRead g.call.executionId)))
        (detectionInput (refunding g before v' after) (s₃'.answer (.customerDataRead g.call.executionId))) :=
      { toolName := g.named.trans hname
        toolName' := g.named.trans hname
        objective := rfl
        sources := rfl
        arguments := ⟨before, after, v, v', rfl, rfl, hfirst, hkind, hx, hy⟩ }
    exact (assessment_atMost (financialRiskWeight_nonneg _) (hlarger.weight hxy)
      fun _ hd => hlarger.escalates hreads hd).action

end Bands

section Examples

theorem policyResult_runs {W : World} (g : Admitted W) (agent : Agent) (s : State W.Domain) :
    ∃ result, Trace W.exec (policyResult g agent)
      [(.query (.policies g.toolRow.id), s), (.query .faults, s)] (.ok result) := by
  have htrace := Program.solo_trace W.exec s (policyResult g agent)
  have hstates := Program.solo_states W.exec s (policyResult g agent)
  obtain ⟨s₁, s₂, result, hsteps, hending, -⟩ := policyResult_trace htrace
  rw [hsteps] at hstates
  have hs₁ : s₁ = s := hstates _ List.mem_cons_self
  have hs₂ : s₂ = s := hstates _ (List.mem_cons_of_mem _ List.mem_cons_self)
  rw [hsteps, hending, hs₁, hs₂] at htrace
  exact ⟨result, htrace⟩

theorem assessed_runs {W : World} (g : Admitted W) (s s' : State W.Domain) :
    ∃ risk, Trace W.exec (assessed g)
      [(.query (.customerDataRead g.call.executionId), s), (.query .faults, s')] (.ok risk) := by
  have hrest : ∃ risk, Trace W.exec (((if s'.faults.riskAssessment then .raise .other
      else .ret (assessment W s'.faults (detectionInput g (s.answer (.customerDataRead g.call.executionId))))) :
        Db W RiskAssessmentResult).tryCatch fun _ => pure failedAssessment) [] (.ok risk : Except Failure _) := by
    split <;> exact ⟨_, .ret _⟩
  obtain ⟨risk, h⟩ := hrest
  exact ⟨risk, .request _ (.request _ h)⟩

/-- Every call comes to a decision. -/
theorem exists_finalDecision {W : World} (g : Admitted W) (agent : Agent) (s : State W.Domain) :
    ∃ decision, FinalDecision g agent s s s s decision := by
  obtain ⟨result, hpolicy⟩ := policyResult_runs g agent s
  obtain ⟨risk, hrisk⟩ := assessed_runs g s s
  by_cases hblock : result.decision = .block
  · exact ⟨_, .blocked hpolicy hblock⟩
  · exact ⟨_, .combined hpolicy hblock hrisk⟩

/-- The number written as a sign, if any, and digits. -/
def signedDigits : List Char → Int
  | '-' :: digits => -(Nat.ofDigitChars 10 digits 0 : Nat)
  | digits => (Nat.ofDigitChars 10 digits 0 : Nat)

theorem signedDigits_intText (n : Int) : signedDigits (Serial.intText n) = n := by
  rcases n with n | n
  · rw [Int.ofNat_eq_natCast, Serial.intText_ofNat, signedDigits, Nat.ofDigitChars_ten_toDigits]
    intro digits h
    have hdigit := Nat.isDigit_of_mem_toDigits (by decide) (by decide) (h ▸ List.mem_cons_self)
    exact absurd hdigit (by decide)
  · rw [Serial.intText_negSucc, signedDigits, Nat.ofDigitChars_ten_toDigits]
    rfl

/-- The whole number a text stands for. -/
def wholeOf (s : String) : Option Int :=
  if Serial.intText (signedDigits s.toList) = s.toList then some (signedDigits s.toList) else none

theorem wholeOf_intText (n : Int) : wholeOf (String.ofList (Serial.intText n)) = some n := by
  rw [wholeOf, String.toList_ofList, signedDigits_intText, if_pos rfl]

/-- Texts in lower case, and amounts that are whole numbers. -/
def wholeAmounts : Text where
  lower s := s
  upper s := s
  render
    | .int n => String.ofList (Serial.intText n)
    | _ => ""
  decimal s := (wholeOf s).map fun n : Int => .finite (.ofInt n)
  decimalText _ := ""

def wholeAmount : Value → Option Decimal
  | .int n => some ⟨n, toString n⟩
  | .str s => (wholeOf s).map fun n : Int => ⟨n, s⟩
  | _ => none

theorem amountLetter_digit {c : Char} (h : c.isDigit = true ∨ c = '-') : AmountLetter c := by
  rcases h with h | rfl
  · have hbounds : 48 ≤ c.val.toNat ∧ c.val.toNat ≤ 57 := Char.isDigit_iff_toNat.1 h
    have hcode : c.toNat = c.val.toNat := rfl
    refine ⟨?_, ?_, fun halpha => ?_⟩
    · simp only [isSpace, decide_eq_false_iff_not]
      omega
    · rintro rfl
      exact absurd h (by decide)
    · have hcases : c.isAlpha = (decide ('A'.val ≤ c.val ∧ c.val ≤ 'Z'.val) ||
          (decide ('a'.val ≤ c.val) && decide (c.val ≤ 'z'.val))) := rfl
      rw [hcases, Bool.or_eq_true, Bool.and_eq_true, decide_eq_true_iff, decide_eq_true_iff, decide_eq_true_iff]
        at halpha
      have hletters : (65 ≤ c.val.toNat ∧ c.val.toNat ≤ 90) ∨ (97 ≤ c.val.toNat ∧ c.val.toNat ≤ 122) := halpha
      omega
  · decide

theorem readsAmounts_whole : ReadsAmounts wholeAmounts wholeAmount where
  lower _ _ := rfl
  written s x h := by
    obtain ⟨n, hn, -⟩ := Option.map_eq_some_iff.1 h
    rw [wholeOf] at hn
    split at hn
    · rename_i htext
      have hletters : ∀ c ∈ s.toList, AmountLetter c := by
        rw [← htext]
        exact fun c hc => amountLetter_digit (Serial.intText_digits _ c hc)
      exact ⟨{
        left := []
        word := s.toList
        right := []
        split := by simp
        leftBlank := by simp
        rightBlank := by simp
        nonempty := htext ▸ Serial.intText_ne_nil _
        unbroken := fun c hc => (hletters c hc).1
        letters := by simpa [wholeAmounts] using hletters }⟩
    · cases hn
  int n _ := by simp only [wholeAmounts, Text.str, wholeOf_intText, Option.map_some]
  amount v d _ h := by
    cases v with
    | int n =>
      obtain rfl := Option.some.inj h
      refine ⟨.inl rfl, .ofInt n, ?_, FiniteDecimal.value_ofInt n⟩
      simp only [wholeAmounts, Text.str, wholeOf_intText, Option.map_some]
    | str s =>
      obtain ⟨n, hn, rfl⟩ := Option.map_eq_some_iff.1 h
      refine ⟨.inr (.inr rfl), .ofInt n, ?_, FiniteDecimal.value_ofInt n⟩
      simp only [wholeAmounts, Text.str, hn, Option.map_some]
    | _ => cases h

/-- An installation with the seeded refund policies. -/
def State.seeded : State Unit where
  __ := State.bench .allow
  directory :=
    { Directory.bench .allow with
      policies := (seedPolicies.filter (·.toolName = "refund_payment")).map fun data => data.row 0 0 }

theorem State.seeded_policies : Seeded "refund_payment" 0 (State.seeded.directory.enabled 0) := by
  refine ⟨fun _ => 0, fun p => ?_⟩
  simp only [State.seeded, Directory.enabled, List.mem_filter, List.mem_map, decide_eq_true_eq]
  constructor
  · rintro ⟨⟨data, ⟨hdata, hname⟩, rfl⟩, -⟩
    exact ⟨data, hdata, hname, rfl⟩
  · rintro ⟨data, hdata, hname, rfl⟩
    exact ⟨⟨data, ⟨hdata, hname⟩, rfl⟩, rfl, rfl⟩

def supportAgent : Agent := ⟨"support-agent", "support"⟩

/-- A refund that the support agent asks for. -/
def supportRefund : Admitted (bench.judging wholeAmounts) where
  call := ⟨0, 0, "refund_payment", .dict [("payment_id", .str "pay-1"), ("amount", .str "50")]⟩
  actor := "support-agent"
  objective := "refund a duplicate payment"
  tool := ⟨fun _ => none, fun _ => .ret .null⟩
  toolRow := ⟨0, "refund_payment", .medium⟩
  named := rfl
  context := none
  requestId := 1

end Examples

variable {text : Text} {amountOf : Value → Option Decimal} {W : World} {g : Admitted (W.judging text)}
  {agent : Agent}

/-- A refund of a support agent is allowed up to 100, needs approval up to 1000 and is blocked beyond, and no
larger refund with the same arguments besides is decided more mildly. -/
theorem refund_bands (hreads : ReadsAmounts text amountOf) (hagent : agent.type = "support")
    (hname : g.call.toolName = "refund_payment") :
    (∀ (v : Value) (d : Decimal) (s s' : State W.Domain) (ending : Except Failure PolicyEvaluationResult),
      g.call.arguments.get? "amount" = some v → Loaded v → amountOf v = some d →
      Seeded "refund_payment" g.toolRow.id (s.directory.enabled g.toolRow.id) → s'.faults.policyEvaluation = false →
      Trace (W.judging text).exec (policyResult g agent)
        [(.query (.policies g.toolRow.id), s), (.query .faults, s')] ending →
      ∃ result, ending = .ok result ∧ result.matchedPolicy.isSome ∧
        (result.decision = .allow ↔ d.value ≤ 100) ∧
        (result.decision = .requireApproval ↔ 100 < d.value ∧ d.value ≤ 1000) ∧
        (result.decision = .block ↔ 1000 < d.value)) ∧
    ∀ (before after : List (String × Value)) (v v' : Value) (d d' : Decimal)
      (s₁ s₂ s₃ s₄ s₁' s₂' s₃' s₄' : State W.Domain) (decision decision' : PolicyAction),
      "amount" ∉ before.map (·.1) → v.kind = v'.kind → Loaded v → Loaded v' →
      amountOf v = some d → amountOf v' = some d' → d.value ≤ d'.value →
      Seeded "refund_payment" g.toolRow.id (s₁.directory.enabled g.toolRow.id) →
      Seeded "refund_payment" g.toolRow.id (s₁'.directory.enabled g.toolRow.id) →
      s₂'.faults = s₂.faults → s₄'.faults = s₄.faults →
      FinalDecision (refunding g before v after) agent s₁ s₂ s₃ s₄ decision →
      FinalDecision (refunding g before v' after) agent s₁' s₂' s₃' s₄' decision' →
      decision.severity ≤ decision'.severity := by
  constructor
  · intro v d s s' ending hv hloaded hd hseeded hfault htrace
    obtain ⟨result, hending, hdecision, hmatched⟩ :=
      policyResult_refund hreads hagent hv (hreads.amount v d hloaded hd) htrace hseeded
    rw [hfault, if_neg Bool.false_ne_true] at hdecision
    exact ⟨result, hending, hmatched hfault, hdecision ▸ refundBand_iff d.value⟩
  · intro before after v v' d d' s₁ s₂ s₃ s₄ s₁' s₂' s₃' s₄' decision decision' hfirst hkind hloaded hloaded'
      hd hd' hle hseeded hseeded' hfaults hfaults' hfinal hfinal'
    have hx := hreads.amount v d hloaded hd
    have hy := hreads.amount v' d' hloaded' hd'
    have hpolicies {result result' : PolicyEvaluationResult}
        (h : Trace (W.judging text).exec (policyResult (refunding g before v after) agent)
          [(.query (.policies g.toolRow.id), s₁), (.query .faults, s₂)] (.ok result))
        (h' : Trace (W.judging text).exec (policyResult (refunding g before v' after) agent)
          [(.query (.policies g.toolRow.id), s₁'), (.query .faults, s₂')] (.ok result')) :
        result.decision.severity ≤ result'.decision.severity := by
      obtain ⟨_, hresult, hdecision, -⟩ := policyResult_refund hreads hagent (get?_amount hfirst v) hx h hseeded
      obtain ⟨_, hresult', hdecision', -⟩ := policyResult_refund hreads hagent (get?_amount hfirst v') hy h' hseeded'
      rw [Except.ok.inj hresult, Except.ok.inj hresult', hdecision, hdecision', hfaults]
      split
      · exact le_refl _
      · exact refundBand_mono hle
    cases hfinal' with
    | blocked => exact PolicyAction.severity_le _
    | combined hpolicy' hopen' hrisk' =>
      cases hfinal with
      | blocked hpolicy hblock =>
        have hsevere := hpolicies hpolicy hpolicy'
        rw [hblock] at hsevere
        rw [combineDecisions_severity]
        exact hsevere.trans (le_max_left _ _)
      | combined hpolicy _ hrisk =>
        rw [combineDecisions_severity, combineDecisions_severity]
        exact max_le_max (hpolicies hpolicy hpolicy')
          (assessed_refund hreads hname hfirst hkind hx hy hle hfaults' hrisk hrisk')

/-- A refund of 50 is allowed, and one of 2000 is decided no more mildly. -/
theorem refund_bands_support :
    (∃ result, Trace (bench.judging wholeAmounts).exec (policyResult supportRefund supportAgent)
      [(.query (.policies 0), .seeded), (.query .faults, .seeded)] (.ok result) ∧ result.decision = .allow) ∧
    ∃ decision decision',
      FinalDecision (refunding supportRefund [("payment_id", .str "pay-1")] (.str "50") [])
        supportAgent .seeded .seeded .seeded .seeded decision ∧
      FinalDecision (refunding supportRefund [("payment_id", .str "pay-1")] (.str "2000") [])
        supportAgent .seeded .seeded .seeded .seeded decision' ∧
      decision.severity ≤ decision'.severity := by
  have hsupport : supportAgent.type = "support" := rfl
  have hbands := refund_bands (g := supportRefund) readsAmounts_whole hsupport rfl
  have hfifty : wholeAmount (.str "50") = some ⟨50, "50"⟩ := by
    have hwhole : wholeOf "50" = some 50 := by decide +kernel
    simp [wholeAmount, hwhole]
  have hlarge : wholeAmount (.str "2000") = some ⟨2000, "2000"⟩ := by
    have hwhole : wholeOf "2000" = some 2000 := by decide +kernel
    simp [wholeAmount, hwhole]
  have hloaded (s : String) : Loaded (.str s) := fun n h => nomatch h
  constructor
  · obtain ⟨result, htrace⟩ :=
      policyResult_runs supportRefund supportAgent State.seeded
    obtain ⟨_, hresult, -, hallow, -, -⟩ := hbands.1 (.str "50") ⟨50, "50"⟩ _ _ _ rfl (hloaded _) hfifty
      State.seeded_policies rfl htrace
    obtain rfl := Except.ok.inj hresult
    exact ⟨_, htrace, hallow.2 (by norm_num)⟩
  · obtain ⟨decision, hdecision⟩ := exists_finalDecision
      (refunding supportRefund [("payment_id", .str "pay-1")] (.str "50") []) supportAgent State.seeded
    obtain ⟨decision', hdecision'⟩ := exists_finalDecision
      (refunding supportRefund [("payment_id", .str "pay-1")] (.str "2000") []) supportAgent State.seeded
    refine ⟨decision, decision', hdecision, hdecision', ?_⟩
    exact hbands.2 [("payment_id", .str "pay-1")] [] (.str "50") (.str "2000") ⟨50, "50"⟩ ⟨2000, "2000"⟩
      _ _ _ _ _ _ _ _ _ _ (by decide) rfl (hloaded _) (hloaded _) hfifty hlarge (by norm_num)
      State.seeded_policies State.seeded_policies rfl rfl hdecision hdecision'

end SafeOps
