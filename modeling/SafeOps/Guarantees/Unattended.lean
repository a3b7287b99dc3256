import SafeOps.Guarantees.RiskMonotone

/-! Data exports and injected calls never run unattended: what a gateway call can come to when the risk
engine does not recommend to allow it. -/

namespace SafeOps
open Concurrent Program RiskEngine RiskSignals

variable {W : World} {ε α β : Type}

/-- The statement is part of a tool call. -/
def CallsTool : Op W.Tables → Prop
  | .note (.toolExecute _) | .tool _ => True
  | _ => False

/-- The statement inserts an approval request, if it commits. -/
def RequestsApproval : Op W.Tables → Prop
  | .write (.commit _ t) | .write (.commitIf _ _ t) => t.approval ≠ none
  | _ => False

/-- The statement reports a risk assessment. -/
def Assesses : Op W.Tables → Prop
  | .note (.riskAssessed _) => True
  | _ => False

/-- What a gateway call does that ends without a tool call, and if `blocking` also without asking for
approval, but for reporting the assessment. -/
def Restrained (blocking : Bool) (o : Op W.Tables) : Prop :=
  ¬CallsTool o ∧ (blocking = true → ¬RequestsApproval o)

/-- Follows whether the call has been assessed. -/
def attending (blocking : Bool) : Monitor W.statements Prop where
  next assessed o _ := assessed ∨ Assesses o
  ok _ o := Restrained blocking o

/-- What a restrained call may answer. -/
def Answers (blocking : Bool) (result : GatewayResult) (assessed : Prop) : Prop :=
  result.status ≠ .executed ∧
    (blocking = true → result.status = .blocked ∨ result.status = .failed ∧ ¬assessed)

/-- A program that obeys the monitor, and raises only what the database makes it raise. -/
abbrev Ends (p : Db W GatewayResult) (blocking : Bool) (assessed : Prop) : Prop :=
  p.Obeys (attending blocking) (Answers blocking) (fun e _ => e = .integrityError) assessed

/-- Statements other than the report of an assessment. -/
def Quiet (blocking : Bool) (o : Op W.Tables) : Prop := Restrained blocking o ∧ ¬Assesses o

/-- Admits quiet statements only. -/
def quieting (blocking : Bool) : Monitor W.statements Unit where
  next _ _ _ := ()
  ok _ o := Quiet blocking o

/-- A part of the call that stays quiet and returns a value with `P`. -/
abbrev Hushed (p : Db W β) (blocking : Bool) (P : β → Prop) : Prop :=
  p.Obeys (quieting blocking) (fun b _ => P b) (fun e _ => e = .integrityError) ()

section Rules

variable {blocking : Bool} {assessed : Prop} {P : β → Prop} {X : Failure → Unit → Prop}

theorem Hushed.bind {p : Db W β} {f : β → Db W GatewayResult} (hp : Hushed p blocking P)
    (hf : ∀ b, P b → Ends (f b) blocking assessed) : Ends (p.bind f) blocking assessed := by
  induction p with
  | ret b => exact hf b hp
  | raise e => exact hp
  | request o k ih =>
    refine ⟨hp.1.1, fun r => ?_⟩
    have same : (attending blocking).next assessed o r = assessed :=
      propext ⟨fun h => h.elim id fun ha => absurd ha hp.1.2, .inl⟩
    rw [same]
    exact ih r (hp.2 r)

theorem quiet_query (q : Query) : Quiet (W := W) blocking (.query q) :=
  ⟨⟨id, fun _ => id⟩, id⟩

theorem hush_query (q : Query) : Hushed (query q : Db W q.Reply) blocking fun _ => True :=
  ⟨quiet_query q, fun _ => trivial⟩

theorem hush_freshId : Hushed (freshId : Db W Id) blocking fun _ => True :=
  ⟨⟨⟨id, fun _ => id⟩, id⟩, fun _ => trivial⟩

/-- A note that is neither part of a tool call nor reports an assessment. -/
theorem hush_note (n : Note) (ht : ¬CallsTool (.note n : Op W.Tables))
    (hn : ¬Assesses (.note n : Op W.Tables)) :
    Hushed (note n : Db W Unit) blocking fun _ => True :=
  ⟨⟨⟨ht, fun _ => id⟩, hn⟩, fun _ => trivial⟩

theorem quiet_commit {t : Txn} (h : blocking = true → t.approval = none) (attempt : Attempt) :
    Quiet (W := W) blocking (.write (.commit attempt t)) :=
  ⟨⟨id, fun hb ha => ha (h hb)⟩, id⟩

theorem hush_rows {x : Id} {build : Nat → Nat → Db W (Rows W)} (spent : X .integrityError ())
    (h : ∀ number seq, (build number seq).Obeys (quieting blocking) (fun rows _ => ∀ attempt,
      (rows.commit attempt).Obeys (quieting blocking) (fun _ _ => True) X ()) X ()) :
    (commitRows x build).Obeys (quieting blocking) (fun _ _ => True) X () := by
  refine commitRows_obeys (fun _ => True) (fun _ => True) (fun number _ _ => ?_) (fun _ _ => spent) trivial
  refine .call_bind (quiet_query _) fun tail => .bind (h number _) (fun _ _ h => h) ?_
  intro rows _ hrows
  refine (hrows _).mono (fun outcome _ _ => ?_) fun _ _ h => h
  cases outcome
  · trivial
  · trivial
  · exact spent

theorem hush_chunk {x : Id} {build : Nat → Txn} (h : ∀ seq, (build seq).approval = none) :
    Hushed (commitChunk x build : Db W Unit) blocking fun _ => True :=
  hush_rows rfl fun _ seq attempt => ⟨quiet_commit (fun _ => h seq) attempt, fun _ => trivial⟩

/-- A chunk whose builder reads the clock. -/
theorem hush_timed {x : Id} {rows : Time → Nat → Txn} (h : ∀ now seq, (rows now seq).approval = none) :
    Hushed (commitRows x fun _ seq => clock.bind fun now => .ret (.plain (rows now seq)) : Db W Unit)
      blocking fun _ => True :=
  hush_rows rfl fun _ seq => ⟨quiet_query _, fun _ attempt =>
    ⟨quiet_commit (fun _ => h _ seq) attempt, fun _ => trivial⟩⟩

/-- What is confined to quiet statements, its exceptions answered with a value. -/
theorem hush_tryCatch {p : Program W.statements ε β} {handler : ε → β} (hp : p.Uses (Quiet blocking))
    (hP : ∀ b, P b) : Hushed (p.tryCatch fun e => pure (handler e) : Db W β) blocking P :=
  .tryCatch (hp.keeps (I := fun _ => True) (fun _ _ ho _ => ho) (fun _ _ _ _ _ => trivial) trivial)
    (fun b _ _ => hP b) fun e _ _ => hP (handler e)

end Rules

namespace ToolGateway

variable {blocking : Bool} {g : Admitted W}

/-- What the assessment has to recommend; each of its signals names a type of incident. -/
def Recommends (blocking : Bool) (risk : RiskAssessmentResult) : Prop :=
  risk.recommendedAction ≠ .allow ∧ (blocking = true → risk.recommendedAction = .block) ∧
    ∀ signal ∈ risk.signals, signal ∈ incidentTypePriority

theorem combineDecisions_block (p : PolicyAction) : combineDecisions p .block = .block := by
  cases p <;> rfl

theorem incidentTypeName_known {signals : List String}
    (h : ∀ signal ∈ signals, signal ∈ incidentTypePriority) :
    (incidentTypeName signals).all (· ∈ incidentTypePriority) = true := by
  unfold incidentTypeName
  cases hf : incidentTypePriority.find? (· ∈ signals) with
  | some name => simpa using List.mem_of_find?_eq_some hf
  | none =>
    cases signals with
    | nil => rfl
    | cons signal signals => simpa using h signal (by simp)

theorem finalizeRiskBlock_ends {risk : RiskAssessmentResult}
    (h : ∀ signal ∈ risk.signals, signal ∈ incidentTypePriority) (escalated : Bool)
    (base : GatewayResult) (assessed : Prop) :
    Ends (finalizeRiskBlock g risk escalated base) blocking assessed := by
  refine Hushed.bind (P := fun _ => True) ?_ fun _ _ => ⟨by simp, fun _ => .inl rfl⟩
  refine hush_rows rfl fun _ seq => ⟨quiet_query _, fun now => ?_⟩
  change (if (incidentTypeName risk.signals).all (· ∈ incidentTypePriority) then
    .ret (.plain (riskBlockRows g risk escalated now seq)) else .raise .other : Db W (Rows W)).Obeys _ _ _ _
  rw [if_pos (incidentTypeName_known h)]
  exact fun attempt => ⟨quiet_commit (fun _ => rfl) attempt, fun _ => trivial⟩

theorem createApprovalAndCommit_ends (ruling : Ruling) (reason : String) (escalated : Bool)
    (base : GatewayResult) (assessed : Prop) :
    Ends (createApprovalAndCommit g ruling reason escalated base) false assessed := by
  refine Hushed.bind (hush_query _) fun requestedAt _ => Hushed.bind hush_freshId fun a _ =>
    Hushed.bind (hush_query _) fun now _ => Hushed.bind (P := fun _ => True) ?_ fun committed _ => ?_
  · refine .tryCatch (R := fun _ _ => True)
      (Y := fun e _ => e = .integrityError ∨ e = .approvalStateConflict) (.bind (R := fun _ _ => True)
        (hush_rows (.inl rfl) fun _ seq attempt => ?_) (fun _ _ h => h) fun _ _ _ => trivial)
      (fun _ _ _ => trivial) ?_
    · refine ⟨⟨⟨id, by simp⟩, id⟩, fun outcome => ?_⟩
      cases outcome with
      | finished => trivial
      | guardLost => exact .inr rfl
    · rintro e _ (rfl | rfl)
      · rfl
      · trivial
  · cases committed
    · exact ⟨by simp, by simp⟩
    · exact ⟨by simp, by simp⟩

theorem policyOutcomeRows_approval (result : PolicyEvaluationResult) (event : AuditEventType)
    (update : ToolRequestUpdate) (seq : Nat) :
    (policyOutcomeRows g result event update seq).approval = none := by
  unfold policyOutcomeRows
  simp only
  split
  · split <;> rfl
  · rfl

/-- The assessment of a call as the gateway takes it, an exception counting as a block. -/
def Assessed (blocking : Bool) (g : Admitted W) : Prop :=
  Hushed ((assess g.call.executionId g.objective g.toolRow.name g.call.arguments g.context).tryCatch
    fun _ => pure failedAssessment : Db W RiskAssessmentResult) blocking (Recommends blocking)

theorem assessRiskAndFinalize_ends (h : Assessed blocking g) (ruling : Ruling) (assessed : Prop) :
    Ends (assessRiskAndFinalize g ruling) blocking assessed := by
  refine Hushed.bind h fun risk hr => .call_bind ⟨id, fun _ => id⟩ fun _ =>
    Hushed.bind (hush_chunk fun _ => rfl) fun _ _ => ?_
  obtain ⟨hallow, hblock, hknown⟩ := hr
  simp only
  cases hd : combineDecisions ruling.action risk.recommendedAction with
  | allow => exact absurd (combineDecisions_eq_allow hd).2 hallow
  | block => exact finalizeRiskBlock_ends hknown _ _ _
  | requireApproval =>
    cases blocking with
    | false => exact createApprovalAndCommit_ends ruling _ _ _ _
    | true =>
      rw [hblock rfl, combineDecisions_block] at hd
      cases hd

theorem handleConditional_ends (h : Assessed blocking g) (agent : Agent) :
    Ends (handleConditional g agent) blocking False := by
  refine Hushed.bind (hush_chunk fun _ => rfl) fun _ _ => Hushed.bind (P := fun _ => True)
    (hush_tryCatch (evaluate_uses _ _ _ _ _ (quiet_query _) (quiet_query _)) fun _ => trivial)
    fun result _ => Hushed.bind (hush_note _ id id) fun _ _ => ?_
  split
  · exact Hushed.bind (hush_timed fun _ _ => policyOutcomeRows_approval _ _ _ _) fun _ _ =>
      ⟨by simp, fun _ => .inl rfl⟩
  · exact Hushed.bind hush_freshId fun _ _ => Hushed.bind
      (hush_chunk fun _ => policyOutcomeRows_approval _ _ _ _) fun _ _ => assessRiskAndFinalize_ends h _ _

theorem handleDirectAllow_ends (h : Assessed blocking g) :
    Ends (handleDirectAllow g) blocking False :=
  Hushed.bind (hush_chunk fun _ => rfl) fun _ _ => Hushed.bind hush_freshId fun _ _ =>
    assessRiskAndFinalize_ends h _ _

theorem refuse_ends (call : GatewayCall) (toolRow : Option Tool) (status : ToolRequestStatus)
    (error : ToolError) (audit : Nat → List AuditEvent) {result : GatewayResult}
    (hr : result.status = .blocked ∨ result.status = .failed) :
    Ends ((refuse call toolRow status error audit).bind fun _ => .ret result : Db W _) blocking False := by
  have answer : Answers blocking result False := by
    rcases hr with hr | hr
    · exact ⟨by simp [hr], fun _ => .inl hr⟩
    · exact ⟨by simp [hr], fun _ => .inr ⟨hr, id⟩⟩
  refine Hushed.bind (P := fun _ => True) (Obeys.bind hush_freshId (fun _ _ h => h) fun r _ _ => ?_)
    fun _ _ => answer
  exact hush_timed fun _ _ => rfl

theorem failed_answers (toolName reason : String) :
    Answers blocking (failed toolName reason) False :=
  ⟨by simp [failed], fun _ => .inr ⟨rfl, id⟩⟩

theorem executeAdmitted_ends {call : GatewayCall} {context : Option Value}
    (h : ∀ g : Admitted W, g.call = call → g.context = context → Assessed blocking g) (agent : Agent)
    (objective : String) :
    Ends (executeAdmitted call context agent objective : Db W _) blocking False := by
  refine Hushed.bind (hush_chunk fun _ => rfl) fun _ _ => ?_
  split
  · exact refuse_ends call _ _ _ _ (.inr rfl)
  · refine Hushed.bind (hush_query _) fun found _ => ?_
    simp only
    split
    · exact refuse_ends call _ _ _ _ (.inr rfl)
    · refine Hushed.bind (P := fun _ => True) ?_ fun permission _ => ?_
      · cases found with
        | none => trivial
        | some row => exact hush_query _
      · split
        · exact Hushed.bind hush_freshId fun _ _ => handleConditional_ends (h _ rfl rfl) _
        · exact Hushed.bind hush_freshId fun _ _ => handleDirectAllow_ends (h _ rfl rfl)
        · exact refuse_ends call _ _ _ _ (.inl rfl)

theorem executeGuarded_ends {call : GatewayCall} {context : Option Value}
    (h : ∀ g : Admitted W, g.call = { call with arguments := call.arguments.jsonSafe } →
      g.context = context → Assessed blocking g) :
    Ends (executeGuarded call context : Db W _) blocking False := by
  refine Hushed.bind (hush_query _) fun agent _ => ?_
  split
  · exact failed_answers _ _
  · refine Hushed.bind (hush_query _) fun execution _ => ?_
    split
    · exact failed_answers _ _
    · repeat' split
      all_goals first | exact failed_answers _ _ | exact executeAdmitted_ends h _ _

/-- A call whose assessment cannot recommend to allow it ends restrained. -/
theorem execute_ends {call : GatewayCall} {context : Option Value}
    (h : ∀ g : Admitted W, g.call = { call with arguments := call.arguments.jsonSafe } →
      g.context = context → Assessed blocking g) :
    Ends (execute call context : Db W _) blocking False := by
  refine Hushed.bind (hush_note _ id id) fun _ _ => ?_
  refine .bind (R := Answers blocking) (Y := fun e _ => e = .integrityError) ?_ (fun _ _ h => h)
    fun result m hm => Hushed.bind (hush_note _ id id) fun _ _ => hm
  refine .tryCatch (R := Answers blocking) (Y := fun e _ => e = .integrityError)
    (executeGuarded_ends h) (fun _ _ hm => hm) ?_
  rintro e m rfl
  exact ⟨⟨id, fun _ => id⟩, fun _ => rfl⟩

end ToolGateway

namespace RiskSignals

variable {text : Text} {input : DetectionInput}

theorem phraseMatch_signal {signal reasonCode : String} {phrases texts : List String} {found : SignalMatch}
    (h : phraseMatch signal reasonCode phrases texts = some found) : found.signal = signal := by
  obtain ⟨phrase, _, rfl⟩ := Option.map_eq_some_iff.1 h
  rfl

/-- Every signal names a type of incident. -/
theorem detectors_known {detector : Detector} (hd : detector ∈ detectors text) {found : SignalMatch}
    (h : detector input = .ok (some found)) : found.signal ∈ incidentTypePriority := by
  have phrase {signal reasonCode : String} {phrases texts : List String}
      (h : (.ok (phraseMatch signal reasonCode phrases texts) : Except Unit _) = .ok (some found))
      (hs : signal ∈ incidentTypePriority) : found.signal ∈ incidentTypePriority :=
    phraseMatch_signal (Except.ok.inj h) ▸ hs
  simp only [detectors, List.mem_cons, List.not_mem_nil, or_false] at hd
  rcases hd with rfl | rfl | rfl | rfl | rfl | rfl | rfl | rfl | rfl
  · exact phrase h (by decide)
  · exact phrase h (by decide)
  · unfold detectDataExfiltration at h
    split at h
    · cases h
      simp [incidentTypePriority]
    · exact phrase h (by decide)
  · unfold detectScopeDeviation at h
    split at h
    · cases h
    · simp only at h
      split at h <;> cases h
      simp [incidentTypePriority]
  · unfold detectFinancialRisk at h
    split at h
    · cases h
    · rename_i amount _
      cases hb : findBand amount financialRiskBands with
      | error =>
        rw [hb] at h
        cases h
      | ok band =>
        rw [hb] at h
        cases h
        simp [incidentTypePriority]
  · exact phrase h (by decide)
  · exact phrase h (by decide)
  · unfold detectExternalCommunication at h
    split at h
    · cases h
      simp [incidentTypePriority]
    split at h
    · cases h
      simp [incidentTypePriority]
    · exact phrase h (by decide)
  · unfold detectUnusualToolSequence at h
    split at h
    · cases h
    split at h <;> cases h
    simp [incidentTypePriority]

theorem phraseMatch_found {signal reasonCode : String} {phrases texts : List String} {content : String}
    (hc : content ∈ texts) (h : ∃ phrase ∈ phrases, within phrase content = true) :
    ∃ phrase, phraseMatch signal reasonCode phrases texts = some ⟨signal, reasonCode, phrase⟩ := by
  obtain ⟨phrase, hf⟩ := Option.isSome_iff_exists.1 (findPhrase_isSome.2 ⟨content, hc, h⟩)
  exact ⟨phrase, by rw [phraseMatch, hf]; rfl⟩

end RiskSignals

namespace RiskEngine

variable {text : Text} {faults : Faults} {input : DetectionInput}

theorem Findings.AtMost.fold {financialWeight : Int} (hw : 0 ≤ financialWeight)
    (outcome : Nat → Option (Option SignalMatch)) {f f' : Findings} (h : f.AtMost f') (indices : List Nat) :
    f.AtMost (indices.foldl (fun f i => f.add financialWeight (outcome i)) f') := by
  induction indices generalizing f' with
  | nil => exact h
  | cons i indices ih => exact ih (h.add_right hw)

/-- What one detector contributes is among the findings of the whole loop. -/
theorem fold_reports {financialWeight : Int} (hw : 0 ≤ financialWeight)
    (outcome : Nat → Option (Option SignalMatch)) {indices : List Nat} {i : Nat} (hi : i ∈ indices) :
    (Findings.add financialWeight {} (outcome i)).AtMost
      (indices.foldl (fun f i => f.add financialWeight (outcome i)) {}) := by
  have empty : Findings.AtMost {} {} := ⟨List.Subset.refl _, le_refl _, fun h => h⟩
  obtain ⟨before, after, rfl⟩ := List.append_of_mem hi
  rw [List.foldl_append, List.foldl_cons]
  refine .fold hw outcome (Findings.AtMost.add (.fold hw outcome empty before) hw le_rfl ?_) after
  exact RiskSignals.escalates_same _

/-- The findings of the loop over the source's detectors. -/
def findings (W : World) (faults : Faults) (input : DetectionInput) : Findings :=
  (List.range W.detectors.length).foldl (fun f i =>
    f.add (W.financialRiskWeight input) (detect W faults input i)) {}

/-- A detector that finds something makes the assessment fail or is heard. -/
theorem detector_heard (W : World) (faults : Faults) {i : Nat} {detector : RiskSignals.Detector}
    {found : SignalMatch} (hi : (RiskSignals.detectors text)[i]? = some detector) (hd : detector input = .ok (some found)) :
    (findings (W.assessing text) faults input).assessmentFailed = true ∨
      found.signal ∈ (findings (W.assessing text) faults input).signals ∧
      (Findings.add (RiskSignals.financialRiskWeight text input) {} (some (some found))).score ≤
        (findings (W.assessing text) faults input).score := by
  have hlt : i ∈ List.range (W.assessing text).detectors.length :=
    List.mem_range.2 (List.getElem?_eq_some_iff.1 hi).1
  have order := fold_reports (RiskSignals.financialRiskWeight_nonneg input : 0 ≤ RiskSignals.financialRiskWeight text input)
    (detect (W.assessing text) faults input) hlt
  unfold detect at order
  split at order
  · exact .inl (order.assessmentFailed rfl)
  · rw [show (W.assessing text).detectors[i]? = some detector from hi] at order
    simp only [hd, Except.toOption] at order
    exact .inr ⟨order.signals (by simp [Findings.add]), order.score⟩

theorem detect_known {i : Nat} {found : SignalMatch}
    (hd : detect (W.assessing text) faults input i = some (some found)) :
    found.signal ∈ incidentTypePriority := by
  unfold detect at hd
  split at hd
  · cases hd
  split at hd
  · rename_i detector hi
    cases ho : detector input with
    | error =>
      rw [ho] at hd
      cases hd
    | ok outcome =>
      rw [ho] at hd
      cases hd
      exact RiskSignals.detectors_known (List.mem_of_getElem? hi) ho
  · cases hd

theorem signals_known :
    ∀ signal ∈ (assessment (W.assessing text) faults input).signals, signal ∈ incidentTypePriority := by
  unfold assessment
  rw [conclude_signals]
  have folded : ∀ (indices : List Nat) (f : Findings), (∀ signal ∈ f.signals, signal ∈ incidentTypePriority) →
      ∀ signal ∈ (indices.foldl (fun f i => f.add ((W.assessing text).financialRiskWeight input)
        (detect (W.assessing text) faults input i)) f).signals, signal ∈ incidentTypePriority := by
    intro indices
    induction indices with
    | nil => exact fun f hf => hf
    | cons i indices ih =>
      intro f hf
      refine ih _ ?_
      simp only
      rcases hd : detect (W.assessing text) faults input i with _ | _ | found
      · exact hf
      · exact hf
      · intro signal hs
        rcases List.mem_append.1 hs with hs | hs
        · exact hf signal hs
        · exact List.mem_singleton.1 hs ▸ detect_known hd
  exact folded _ {} (by simp)

theorem conclude_block {f : Findings} (h : f.assessmentFailed = true ∨ HardBlock f.signals) :
    (conclude f).recommendedAction = .block := by
  rcases conclude_cases f with ⟨_, _, _, haction⟩ | ⟨hn, _⟩
  · exact haction
  · exact absurd h hn

/-- A tool that exports data is never recommended to be allowed: its signal alone weighs 50. -/
theorem export_restrained (h : input.toolName ∈ dataExportTools) :
    (assessment (W.assessing text) faults input).recommendedAction ≠ .allow := by
  have found : RiskSignals.detectDataExfiltration text input =
    .ok (some ⟨"DATA_EXFILTRATION", "DATA_EXPORT_TOOL", input.toolName⟩) := if_pos h
  have heard := detector_heard W faults (rfl : (RiskSignals.detectors text)[2]? = some _) found
  change (conclude (findings (W.assessing text) faults input)).recommendedAction ≠ .allow
  rcases conclude_cases (findings (W.assessing text) faults input) with
    ⟨_, _, _, haction⟩ | ⟨hn, _, _, haction⟩
  · rw [haction]
    decide
  · rcases heard with failed | ⟨_, weight⟩
    · exact absurd (.inl failed) hn
    have hscore : 50 ≤ (findings (W.assessing text) faults input).score := weight
    intro hallow
    have severity := recommendedActionFor_severity
      (max 0 (min 100 (findings (W.assessing text) faults input).score))
    rw [← haction, hallow, if_neg (by omega)] at severity
    split at severity <;> cases severity

end RiskEngine

open ToolGateway

section Injection

variable {text : Text} {toolName : String} {context : Option Value}

/-- Some source of the context that is not labelled as trusted contains one of the phrases. -/
def Tainted (text : Text) (phrases : List String) (context : Option Value) : Prop :=
  ∃ source content, .dict source ∈ contextSources context ∧
    source.lookup "content" = some (.str content) ∧ trustLabel text source ≠ "TRUSTED" ∧
    ∃ phrase ∈ phrases, within phrase (text.normalize content) = true

/-- A context injected against the tool. -/
def Injected (text : Text) (toolName : String) (context : Option Value) : Prop :=
  toolName ∈ dataExportTools ∧ Tainted text promptInjectionPhrases context ∨
    Tainted text privilegeEscalationPhrases context

theorem Tainted.found {signal reasonCode : String} {phrases : List String} {input : DetectionInput}
    (h : Tainted text phrases context) (hs : input.sources = contextSources context) :
    ∃ phrase, phraseMatch signal reasonCode phrases (untrustedText text input) =
      some ⟨signal, reasonCode, phrase⟩ := by
  obtain ⟨source, content, hsource, hcontent, htrust, hphrase⟩ := h
  refine phraseMatch_found (List.mem_filterMap.2 ⟨_, hs ▸ hsource, ?_⟩) hphrase
  simp only [untrustedContent, hcontent]
  exact if_pos htrust

theorem injected_blocks (W : World) (faults : Faults) (input : DetectionInput) (ht : input.toolName = toolName)
    (hs : input.sources = contextSources context) (h : Injected text toolName context) :
    (assessment (W.assessing text) faults input).recommendedAction = .block := by
  refine conclude_block (?_ : (findings (W.assessing text) faults input).assessmentFailed = true ∨
    HardBlock (findings (W.assessing text) faults input).signals)
  rcases h with ⟨hexport, htainted⟩ | htainted
  · obtain ⟨phrase, hphrase⟩ := htainted.found hs
    have exported : detectDataExfiltration text input =
      .ok (some ⟨"DATA_EXFILTRATION", "DATA_EXPORT_TOOL", input.toolName⟩) := if_pos (ht ▸ hexport)
    rcases detector_heard W faults (rfl : (detectors text)[0]? = some _)
      (congrArg Except.ok hphrase : detectPromptInjection text input = _) with failed | injection
    · exact .inl failed
    rcases detector_heard W faults (rfl : (detectors text)[2]? = some _) exported with failed | exfiltration
    · exact .inl failed
    · exact .inr (.inl ⟨injection.1, exfiltration.1⟩)
  · obtain ⟨phrase, hphrase⟩ := htainted.found hs
    rcases detector_heard W faults (rfl : (detectors text)[1]? = some _)
      (congrArg Except.ok hphrase : detectPrivilegeEscalation text input = _) with failed | escalation
    · exact .inl failed
    · exact .inr (.inr escalation.1)

end Injection

/-- If every input of the call is assessed as required, so is the call. -/
theorem assessed_of {blocking : Bool} {g : Admitted W}
    (h : ∀ faults customerDataRead, Recommends blocking (assessment W faults ⟨g.call.toolName,
      g.call.arguments, g.objective, contextSources g.context, g.call.executionId, customerDataRead⟩)) :
    Assessed blocking g := by
  refine ⟨quiet_query _, fun customerDataRead => ⟨quiet_query _, fun faults => ?_⟩⟩
  rw [g.named]
  change (Program.tryCatch (if faults.riskAssessment then .raise .other
    else .ret (assessment W faults ⟨g.call.toolName, g.call.arguments, g.objective, contextSources g.context,
      g.call.executionId, customerDataRead⟩) : Db W RiskAssessmentResult)
    fun _ => .ret failedAssessment).Obeys _ _ _ _
  split
  · exact ⟨by simp [failedAssessment], fun _ => rfl, by simp [failedAssessment]⟩
  · exact h faults customerDataRead

section Runs

variable {blocking : Bool} {call : GatewayCall} {context : Option Value}
  {steps : List (Op W.Tables × State W.Domain)} {ending : Except Failure GatewayResult}

theorem attending_kept {assessed : Prop} (h : assessed) :
    (attending blocking).along W.exec assessed steps := by
  induction steps generalizing assessed with
  | nil => exact h
  | cons step steps ih => exact ih (.inl h)

/-- A call that counts as not assessed in the end has reported no assessment. -/
theorem attending_unassessed {assessed : Prop} (h : ¬(attending blocking).along W.exec assessed steps) :
    ∀ step ∈ steps, ¬Assesses step.1 := by
  induction steps generalizing assessed with
  | nil => exact fun _ hs => absurd hs List.not_mem_nil
  | cons head steps ih =>
    intro step hs ha
    rcases List.mem_cons.1 hs with rfl | hs
    · have kept : (attending blocking).along W.exec (assessed ∨ Assesses step.1) steps :=
        attending_kept (.inr ha)
      exact h kept
    · exact ih h step hs ha

/-- How a call ends: with such a result, or with an exception of the database. -/
def Returns (ending : Except Failure GatewayResult) (P : GatewayResult → Prop) : Prop :=
  ending = .error .integrityError ∨ ∃ result, ending = .ok result ∧ P result

/-- What a call comes to that ends restrained. -/
theorem ends_trace (h : Ends (execute call context : Db W _) blocking False)
    (he : Trace W.exec (execute call context) steps ending) :
    (∀ step ∈ steps, Restrained blocking step.1) ∧ Returns ending fun result =>
      result.status ≠ .executed ∧ (blocking = true → result.status = .blocked ∨
        result.status = .failed ∧ ∀ step ∈ steps, ¬Assesses step.1) := by
  refine ⟨fun step hs => (h.trace_ok he hs).elim fun _ ok => ok, ?_⟩
  have hpost := h.trace he
  cases ending with
  | error e => exact .inl (congrArg _ hpost)
  | ok result =>
    refine .inr ⟨result, rfl, hpost.1, fun hb => (hpost.2 hb).imp_right fun hfailed => ⟨hfailed.1, ?_⟩⟩
    exact attending_unassessed hfailed.2

end Runs

/-- Whatever the agent, the permissions, the policies, the objective and the arguments: a call of a tool
that exports data calls no tool, and a call with an injected context neither calls a tool nor asks for
approval; it is blocked, or it has failed without being assessed. -/
theorem unattended {text : Text} {call : GatewayCall} {context : Option Value}
    {steps : List (Op (W.assessing text).Tables × State (W.assessing text).Domain)}
    {ending : Except Failure GatewayResult}
    (he : Trace (W.assessing text).exec (execute call context) steps ending) :
    (call.toolName ∈ dataExportTools → (∀ step ∈ steps, ¬CallsTool step.1) ∧ Returns ending fun result =>
      result.status = .failed ∨ result.status = .blocked ∨ result.status = .requiresApproval) ∧
    (Injected text call.toolName context →
      (∀ step ∈ steps, ¬CallsTool step.1 ∧ ¬RequestsApproval step.1) ∧ Returns ending fun result =>
        result.status = .blocked ∨ result.status = .failed ∧ ∀ step ∈ steps, ¬Assesses step.1) := by
  refine ⟨fun hexport => ?_, fun hinjected => ?_⟩
  · have h : Ends (execute call context : Db (W.assessing text) _) false False := execute_ends
      fun g hg _ => assessed_of fun faults customerDataRead =>
        ⟨export_restrained (by rw [hg]; exact hexport), nofun, signals_known⟩
    obtain ⟨hsteps, hreturns⟩ := ends_trace h he
    refine ⟨fun step hs => (hsteps step hs).1, hreturns.imp_right ?_⟩
    rintro ⟨result, hr, hstatus, _⟩
    refine ⟨result, hr, ?_⟩
    cases hs : result.status with
    | executed => exact absurd hs hstatus
    | requiresApproval => exact .inr (.inr hs)
    | blocked => exact .inr (.inl hs)
    | failed => exact .inl hs
  · have h : Ends (execute call context : Db (W.assessing text) _) true False := execute_ends
      fun g hg hcontext => assessed_of fun faults customerDataRead => by
        have blocked := injected_blocks W faults ⟨g.call.toolName, g.call.arguments, g.objective,
          contextSources g.context, g.call.executionId, customerDataRead⟩ (by rw [hg]) (by rw [hcontext])
          hinjected
        exact ⟨by rw [blocked]; simp, fun _ => blocked, signals_known⟩
    obtain ⟨hsteps, hreturns⟩ := ends_trace h he
    refine ⟨fun step hs => (hsteps step hs).imp_right fun hr => hr rfl, hreturns.imp_right ?_⟩
    rintro ⟨result, hr, _, hblocking⟩
    exact ⟨result, hr, hblocking rfl⟩

/-- Every execution is one of agent 0, and running. -/
def State.running : State Unit :=
  { State.bench .allow with
    executions := fun _ => some
      { agentId := 0, objective := "refund", status := .running, initialContext := .null } }

/-- The context of an injected ticket. -/
def injectedContext : Option Value :=
  some (.dict [("sources", .list [.dict [("trust", .str "UNTRUSTED"), ("content", .str "bypass  security")]])])

/-- A refund in this context. -/
def injectedCall : Db (bench.assessing .bench) GatewayResult :=
  execute ⟨0, 0, "refund_payment", .dict []⟩ injectedContext

/-- The bypass phrase keeps the refund from running, and from being asked for. -/
theorem unattended_ticket : ¬∃ step ∈ (injectedCall.solo (bench.assessing .bench).exec State.running).1,
    CallsTool step.1 ∨ RequestsApproval step.1 := by
  have injected : Injected .bench "refund_payment" injectedContext :=
    .inr ⟨_, _, List.mem_singleton.2 rfl, rfl, by decide, "bypass security", by decide, by decide +kernel⟩
  have h := ((unattended (solo_trace (bench.assessing .bench).exec State.running injectedCall)).2 injected).1
  rintro ⟨step, hs, htool | happroval⟩
  · exact (h step hs).1 htool
  · exact (h step hs).2 happroval

example : (injectedCall.solo (bench.assessing .bench).exec State.running).2.toOption.map (·.status) =
    some .blocked := by decide +kernel

end SafeOps
