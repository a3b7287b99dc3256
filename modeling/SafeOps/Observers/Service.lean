import SafeOps.Observers.Docket
import SafeOps.Observers.Filing

/-! Which tool request a call may write: the one that its open gateway call has filed and not closed yet,
and that of an approval it settles. -/

namespace SafeOps
open Concurrent Program

variable {W : World} {ε α β : Type}

/-- The tool request that the open gateway call has left in `REQUESTED`, and whether the call has expired an
approval without having recorded that. -/
structure Server where
  pending : Option Id := none
  expired : Bool := false

namespace Server

/-- The tool request left in `REQUESTED` by a chunk. -/
def left (pending : Option Id) : Option ToolRequestWrite → Option Id
  | some (.insert q row) => if row.status = .requested then some q else none
  | some (.update _ u) => if u.status = .requested then pending else none
  | none => pending

/-- The chunk updates the tool request left in `REQUESTED`, if it updates one. -/
def Owns (m : Server) (t : Txn) : Prop := ∀ q u, t.toolRequest = some (.update q u) → m.pending = some q

end Server

/-- The outcomes of a tool request. -/
def ToolRequestStatus.Closed (s : ToolRequestStatus) : Prop := s = executed ∨ s = denied ∨ s = failed

instance : DecidablePred ToolRequestStatus.Closed := fun s => by
  unfold ToolRequestStatus.Closed; infer_instance

/-- The chunk closes the tool request that it updates, if it updates one. -/
def Txn.Closes (t : Txn) : Prop := ∀ q u, t.toolRequest = some (.update q u) → u.status.Closed

/-- A tool request is updated by the gateway call that has left it in `REQUESTED`; otherwise it is closed, together
with the return of its execution to `RUNNING` or to record an expiry. -/
def serving : Monitor W.statements Server where
  next m o := match o with
    | .write (.expireApproval _ _) => fun (expired : Bool) => if expired then { m with expired := true } else m
    | .write (.commit _ t) => fun (outcome : CommitOutcome) =>
      if outcome = .committed then { pending := Server.left m.pending t.toolRequest } else m
    | .write (.commitIf _ _ t) => fun (outcome : GuardedOutcome) =>
      if outcome = .finished .committed then { m with pending := Server.left m.pending t.toolRequest } else m
    | .note (.gatewayEnter _) | .note (.gatewayReturn _) | .note .gatewayRaise => fun _ =>
      { m with pending := none }
    | _ => fun _ => m
  ok m
    | .write (.commit _ t) => m.Owns t ∨ t.Closes ∧ (t.resume = true ∨ m.expired = true)
    | .write (.commitIf _ _ t) => m.Owns t
    | _ => True

/-- The statement writes no tool request, expires no approval, and neither begins nor ends a gateway call. -/
def Unserved : Op W.Tables → Prop
  | .write (.expireApproval _ _) => False
  | .write (.commit _ t) | .write (.commitIf _ _ t) => t.toolRequest = none
  | .note (.gatewayEnter _) | .note (.gatewayReturn _) | .note .gatewayRaise => False
  | _ => True

/-- The call has no expiry to record. -/
def Unexpired {γ : Type} (_ : γ) (m : Server) : Prop := m.expired = false

section Rules

variable {m : Server} {o : Op W.Tables}

theorem Server.owns_none {t : Txn} (h : t.toolRequest = none) (m : Server) : m.Owns t := by
  simp [Server.Owns, h]

theorem Unserved.ok (h : Unserved o) (m : Server) : serving.ok m o := by
  rcases o with _ | w | _ | _
  · trivial
  · cases w with
    | commit => exact .inl (m.owns_none h)
    | commitIf => exact m.owns_none h
    | _ => trivial
  · trivial
  · trivial

theorem Unserved.next (h : Unserved o) (hm : m.expired = false) (r : o.Reply) : serving.next m o r = m := by
  have kept {t : Txn} (ht : t.toolRequest = none) : ({ pending := Server.left m.pending t.toolRequest } : Server) = m := by
    rw [ht, ← hm]
    rfl
  rcases o with _ | w | n | _
  · rfl
  · cases w with
    | commit attempt t =>
      cases (show CommitOutcome from r) with
      | committed => exact kept h
      | collision | violation => rfl
    | commitIf attempt g t =>
      simp only [serving]
      split
      · rw [hm]
        exact kept h
      · rfl
    | expireApproval => exact h.elim
    | _ => rfl
  · cases n <;> first | rfl | exact h.elim
  · rfl

theorem Uses.unserved {p : Program W.statements ε α} (h : p.Uses Unserved) (hm : m.expired = false) :
    p.Obeys serving (fun _ m' => m' = m) (fun _ m' => m' = m) m :=
  h.keeps (I := (· = m)) (fun m' _ ho _ => ho.ok m') (fun _ _ r ho he => by
    subst he
    exact ho.next hm r) rfl

theorem commitChunk_unserved {x : Id} {build : Nat → Txn} (h : ∀ seq, (build seq).toolRequest = none) :
    (commitChunk x build : Db W Unit).Uses Unserved :=
  commitChunk_uses trivial fun seq _ => h seq

/-- A chunk each of whose rows leaves `p` in `REQUESTED`; a chunk that is given up changes nothing. -/
theorem commitRows_serving {x : Id} {build : Nat → Nat → Db W (Rows W)} {p : Option Id} (hm : m.expired = false)
    (h : ∀ number seq, (build number seq).Yields Unserved fun rows => ∃ t, rows = .plain t ∧ m.Owns t ∧
      Server.left m.pending t.toolRequest = p) :
    (commitRows x build).Obeys serving (fun _ m' => m' = { pending := p }) (fun _ m' => m' = m) m := by
  refine commitRows_obeys (· = m) (· = { pending := p }) (fun number m₂ he => ?_) (fun _ he => he) rfl
  subst he
  refine .call_bind trivial fun (tail : AuditTail) => .bind ((h number (tail.sequence + 1)).keeps
    (I := (· = m₂)) (fun m' _ ho _ => ho.ok m') (fun _ _ r ho he => ?_) rfl) (fun _ _ he => he) ?_
  · subst he
    exact ho.next hm r
  · rintro rows m₃ ⟨⟨t, rfl, howns, hleft⟩, he⟩
    obtain rfl : m₃ = m₂ := he
    refine ⟨.inl howns, fun (outcome : CommitOutcome) => ?_⟩
    cases outcome with
    | committed =>
      change ({ pending := Server.left m₃.pending t.toolRequest } : Server) = { pending := p }
      rw [hleft]
    | collision => rfl
    | violation => rfl

/-- The program serves the gateway call it is part of. -/
abbrev Serves (p : Db W GatewayResult) (m : Server) : Prop := p.Obeys serving Unexpired Unexpired m

theorem Uses.serves_bind {p : Db W β} {k : β → Db W GatewayResult} (h : p.Uses Unserved)
    (hm : m.expired = false) (rest : ∀ b, Serves (k b) m) : Serves (p.bind k) m :=
  .bind (Uses.unserved h hm) (fun _ _ he => he ▸ hm) fun b _ he => he ▸ rest b

theorem commitRows_serves {x : Id} {build : Nat → Nat → Db W (Rows W)} {k : Unit → Db W GatewayResult}
    {p : Option Id} (hm : m.expired = false)
    (h : ∀ number seq, (build number seq).Yields Unserved fun rows => ∃ t, rows = .plain t ∧ m.Owns t ∧
      Server.left m.pending t.toolRequest = p)
    (rest : Serves (k ()) { pending := p }) : Serves ((commitRows x build).bind k) m :=
  .bind (commitRows_serving hm h) (fun _ _ he => he ▸ hm) fun _ _ he => he ▸ rest

end Rules

namespace ToolGateway

variable {g : Admitted W}

/-- The tool request of the call is still to be closed. -/
def Admitted.server (g : Admitted W) : Server where
  pending := some g.requestId

theorem Admitted.owns (g : Admitted W) {t : Txn} {u : ToolRequestUpdate}
    (ht : t.toolRequest = some (.update g.requestId u)) : g.server.Owns t := by
  intro q u' h
  obtain ⟨rfl, _⟩ := ToolRequestWrite.update.inj (Option.some.inj (ht.symm.trans h))
  rfl

/-- The chunk that closes the tool request of the call. -/
theorem Admitted.closes (g : Admitted W) {t : Txn} {u : ToolRequestUpdate}
    (ht : t.toolRequest = some (.update g.requestId u)) (hu : u.status ≠ .requested) :
    g.server.Owns t ∧ Server.left g.server.pending t.toolRequest = none :=
  ⟨g.owns ht, by rw [ht]; exact if_neg hu⟩

theorem executeAndRecord_serves (base : GatewayResult) : Serves (executeAndRecord g base) g.server := by
  have record (rows : Nat → Txn) (result : GatewayResult) (h : ∀ seq, ∃ u,
      (rows seq).toolRequest = some (.update g.requestId u) ∧ u.status ≠ .requested) :
      Serves ((commitChunk g.call.executionId rows).bind fun _ => .ret result : Db W _) g.server := by
    refine commitRows_serves (p := none) rfl (fun _ seq => ⟨_, rfl, ?_⟩) rfl
    obtain ⟨u, ht, hu⟩ := h seq
    exact g.closes ht hu
  refine Uses.serves_bind (.tryCatch (.bind (callTool_uses _ _ trivial fun _ => trivial) fun _ => trivial)
    fun _ => trivial) rfl fun outcome => Uses.serves_bind ⟨trivial, fun _ => trivial⟩ rfl fun now => ?_
  cases outcome with
  | none => exact record _ _ fun _ => ⟨_, rfl, nofun⟩
  | some result =>
    simp only
    split
    · exact record _ _ fun _ => ⟨_, rfl, nofun⟩
    · exact record _ _ fun _ => ⟨_, rfl, nofun⟩

theorem finalizeRiskBlock_serves (risk : RiskAssessmentResult) (escalated : Bool) (base : GatewayResult) :
    Serves (finalizeRiskBlock g risk escalated base) g.server := by
  unfold finalizeRiskBlock
  refine commitRows_serves (p := none) rfl (fun _ seq => ?_) rfl
  refine Yields.bind (P := fun _ => True) ⟨trivial, fun _ => trivial⟩ fun now _ => ?_
  split
  · exact ⟨_, rfl, g.closes rfl nofun⟩
  · trivial

theorem createApprovalAndCommit_serves (ruling : Ruling) (reason : String) (escalated : Bool)
    (base : GatewayResult) : Serves (createApprovalAndCommit g ruling reason escalated base) g.server := by
  refine Uses.serves_bind ⟨trivial, fun _ => trivial⟩ rfl fun requestedAt =>
    Uses.serves_bind ⟨trivial, fun _ => trivial⟩ rfl fun a =>
      Uses.serves_bind ⟨trivial, fun _ => trivial⟩ rfl fun now => ?_
  refine .bind (R := Unexpired) (Y := Unexpired) (.tryCatch (R := Unexpired) (Y := Unexpired)
    (.bind (R := Unexpired) (Y := Unexpired) ?_ (fun _ _ h => h) fun _ _ h => h) (fun _ _ h => h) ?_)
    (fun _ _ h => h) ?_
  · refine commitRows_obeys (· = g.server) (Unexpired ()) (fun number m hm => ?_) (fun _ hm => hm ▸ rfl) rfl
    subst hm
    refine .call_bind trivial fun (tail : AuditTail) =>
      .call_bind (g.owns rfl) fun (outcome : GuardedOutcome) => ?_
    rcases outcome with _ | (_ | _ | _) <;> exact rfl
  · intro e m hm
    cases e <;> exact hm
  · rintro (_ | _) m hm <;> exact hm

theorem assessRiskAndFinalize_serves (ruling : Ruling) : Serves (assessRiskAndFinalize g ruling) g.server := by
  refine Uses.serves_bind (.tryCatch (assess_uses _ _ _ _ _ trivial trivial) fun _ => trivial) rfl fun risk =>
    Uses.serves_bind ⟨trivial, fun _ => trivial⟩ rfl fun _ =>
      Uses.serves_bind (commitChunk_unserved fun _ => rfl) rfl fun _ => ?_
  simp only
  split
  · exact finalizeRiskBlock_serves _ _ _
  · exact createApprovalAndCommit_serves _ _ _ _
  · exact Uses.serves_bind (commitChunk_unserved fun _ => rfl) rfl fun _ => executeAndRecord_serves _

/-- The first chunk of a permitted call leaves its tool request to be closed. -/
theorem permissionRows_serves (audit : Nat → List AuditEvent) {k : Unit → Db W GatewayResult}
    (rest : Serves (k ()) g.server) :
    Serves ((commitChunk g.call.executionId fun seq => permissionRows g (audit seq)).bind k) {} :=
  commitRows_serves rfl (fun _ _ => ⟨_, rfl, nofun, rfl⟩) rest

theorem handleConditional_serves (agent : Agent) : Serves (handleConditional g agent) {} := by
  refine permissionRows_serves (fun seq => [permissionEvent g seq "CONDITIONAL",
    g.event (seq + 1) .policyEvaluationStarted]) ?_
  refine Uses.serves_bind (.tryCatch (evaluate_uses _ _ _ _ _ trivial trivial) fun _ => trivial) rfl
    fun result => Uses.serves_bind ⟨trivial, fun _ => trivial⟩ rfl fun _ => ?_
  split
  · refine commitRows_serves (p := none) rfl (fun _ seq => ?_) rfl
    exact Yields.bind (P := fun _ => True) ⟨trivial, fun _ => trivial⟩ fun now _ =>
      ⟨_, rfl, g.closes (policyOutcomeRows_shape g _ _ _ seq).1 nofun⟩
  · refine Uses.serves_bind ⟨trivial, fun _ => trivial⟩ rfl fun _ =>
      commitRows_serves rfl (fun _ seq => ⟨_, rfl, ?_⟩) (assessRiskAndFinalize_serves _)
    have shape := (policyOutcomeRows_shape g result
      (if result.decision = .allow then .policyAllowed else .policyApprovalRequired)
      { status := .requested } seq).1
    exact ⟨g.owns shape, by rw [shape]; rfl⟩

theorem handleDirectAllow_serves : Serves (handleDirectAllow g) {} :=
  permissionRows_serves (fun seq => [permissionEvent g seq "ALLOW"])
    (Uses.serves_bind ⟨trivial, fun _ => trivial⟩ rfl fun _ => assessRiskAndFinalize_serves _)

theorem refuse_serves (call : GatewayCall) (toolRow : Option Tool) {status : ToolRequestStatus}
    (hs : status ≠ .requested) (error : ToolError) (audit : Nat → List AuditEvent) (result : GatewayResult) :
    Serves ((refuse call toolRow status error audit).bind fun _ => .ret result : Db W _) {} := by
  refine .bind (R := Unexpired) (Y := Unexpired) (.call_bind trivial fun (q : Id) =>
    (commitRows_serving (p := none) rfl fun _ seq => ?_).mono (fun _ _ he => he ▸ rfl) fun _ _ he => he ▸ rfl)
    (fun _ _ h => h) fun _ _ h => h
  exact ⟨trivial, fun now => ⟨_, rfl, nofun, if_neg hs⟩⟩

theorem executeAdmitted_serves (call : GatewayCall) (context : Option Value) (agent : Agent)
    (objective : String) : Serves (executeAdmitted call context agent objective : Db W _) {} := by
  refine Uses.serves_bind (commitChunk_unserved fun _ => rfl) rfl fun _ => ?_
  split
  · exact refuse_serves _ _ (by decide) _ _ _
  · refine Uses.serves_bind ⟨trivial, fun _ => trivial⟩ rfl fun (found : Option (ToolNamed call.toolName)) => ?_
    simp only
    split
    · exact refuse_serves _ _ (by decide) _ _ _
    · refine Uses.serves_bind ?_ rfl fun permission => ?_
      · cases found with
        | none => trivial
        | some row => exact ⟨trivial, fun _ => trivial⟩
      · split
        · exact Uses.serves_bind ⟨trivial, fun _ => trivial⟩ rfl fun _ => handleConditional_serves _
        · exact Uses.serves_bind ⟨trivial, fun _ => trivial⟩ rfl fun _ => handleDirectAllow_serves
        · exact refuse_serves _ _ (by decide) _ _ _

theorem executeGuarded_serves (call : GatewayCall) (context : Option Value) :
    Serves (executeGuarded call context : Db W _) {} := by
  refine Uses.serves_bind ⟨trivial, fun _ => trivial⟩ rfl fun agent => ?_
  split
  · rfl
  · refine Uses.serves_bind ⟨trivial, fun _ => trivial⟩ rfl fun execution => ?_
    split
    · rfl
    · repeat' split
      all_goals first | rfl | exact executeAdmitted_serves _ _ _ _

/-- A gateway call serves the tool request that it files, and forgets it in the end. -/
theorem execute_serving (call : GatewayCall) (context : Option Value) :
    (execute call context : Db W GatewayResult).Obeys serving (fun _ m => m = {}) (fun _ m => m = {}) {} := by
  have closed {m : Server} (hm : m.expired = false) : ({ m with pending := none } : Server) = {} := by
    rw [hm]
  refine .call_bind trivial fun _ => ?_
  refine .bind (R := Unexpired) (Y := fun _ m => m = {}) (.tryCatch (executeGuarded_serves call context)
    (fun _ _ h => h) fun e m hm => ?_) (fun _ _ h => h) fun result m hm => ?_
  · exact .call_bind trivial fun _ => closed hm
  · exact .call_bind trivial fun _ => closed hm

end ToolGateway

/-- A decision closes the tool request, and so does an expiry. -/
theorem ResolutionChunk.closes {a : Id} {row : ApprovalRequest} {seq : Nat} {t : Txn}
    (h : ResolutionChunk a row seq t) : t.Closes := by
  intro q u ht
  cases h with
  | expiry now toolRequest =>
    simp only [ApprovalEngine.expiryRows] at ht
    repeat' split at ht
    all_goals first
      | (obtain ⟨_, rfl⟩ := ToolRequestWrite.update.inj (Option.some.inj ht); exact .inr (.inl rfl))
      | cases ht
  | rejection =>
    obtain ⟨_, rfl⟩ := ToolRequestWrite.update.inj (Option.some.inj ht)
    exact .inr (.inl rfl)
  | outcome _ _ _ success =>
    obtain ⟨_, rfl⟩ := ToolRequestWrite.update.inj (Option.some.inj ht)
    cases success
    · exact .inr (.inr rfl)
    · exact .inl rfl

namespace ApprovalEngine

variable {a : Id} {approval : ApprovalRequest} {m : Server}

/-- A chunk that sets the execution to `RUNNING`, or that records an expiry, leaves nothing to record. -/
theorem commitRows_settled (a : Id) (approval : ApprovalRequest) {x : Id} {build : Nat → Nat → Db W (Rows W)} {R : Rows W → Prop}
    (hm : m.pending = none) (hread : ∀ number seq, (build number seq).Yields IsRead R)
    (h : ∀ rows, R rows → ∃ t seq, rows = .plain t ∧ ResolutionChunk a approval seq t ∧
      (t.resume = true ∨ m.expired = true)) :
    (commitRows x build).Obeys serving (fun _ m => m = {}) (fun _ m => m.pending = none) m := by
  have left (t : Txn) (ht : t.InsertsNothing) : Server.left none t.toolRequest = none := by
    rcases hw : t.toolRequest with _ | ⟨q, row⟩ | ⟨q, u⟩
    · rfl
    · exact absurd hw (ht.1 q row)
    · exact ite_self none
  refine commitRows_obeys (· = m) (· = {}) (fun number m' he => ?_) (fun _ he => he ▸ hm) rfl
  obtain rfl : m' = m := he
  refine .call_bind trivial fun (tail : AuditTail) => .bind ((hread number (tail.sequence + 1)).keeps
    (I := (· = m')) (fun _ o ho _ => ?_) (fun _ o r ho he => ?_) rfl) (fun _ _ he => he ▸ hm) ?_
  · cases o <;> trivial
  · cases o <;> first | exact he | exact ho.elim
  · rintro rows m₂ ⟨hrows, he⟩
    obtain rfl : m₂ = m' := he
    obtain ⟨t, seq, rfl, ht, hset⟩ := h rows hrows
    refine ⟨.inr ⟨ht.closes, hset⟩, fun (outcome : CommitOutcome) => ?_⟩
    cases outcome with
    | committed =>
      change ({ pending := Server.left m₂.pending t.toolRequest } : Server) = {}
      rw [hm, left t ht.insertsNothing]
    | collision => rfl
    | violation => exact hm

/-- A call that decides an approval is outside the gateway. -/
abbrev Settles (p : Db W ApprovalActionResult) (m : Server) : Prop :=
  p.Obeys serving (fun _ m => m = {}) (fun _ m => m.pending = none) m

theorem finalizeExecutionOutcome_served (agentName : String) (success : Bool) (error : Option ToolError)
    (result : Option Value) :
    Settles (finalizeExecutionOutcome a approval agentName success error result : Db W _) {} := by
  refine .call_bind trivial fun (now : Time) => .bind (commitRows_settled a approval (R := fun rows => ∃ seq, rows =
    .plain (outcomeRows a approval agentName result error success now seq)) rfl (fun _ seq => ⟨seq, rfl⟩) ?_)
    (fun _ _ h => h) fun _ _ h => h
  rintro _ ⟨seq, rfl⟩
  exact ⟨_, seq, rfl, .outcome agentName result error success now, .inl rfl⟩

theorem executeApprovedAction_served (agentName : String) :
    Settles (executeApprovedAction a approval agentName : Db W _) {} := by
  refine .bind (Uses.unserved (commitChunk_unserved fun _ => rfl) rfl) (fun _ _ he => he ▸ rfl) ?_
  rintro _ _ rfl
  split
  · exact finalizeExecutionOutcome_served _ _ _ _
  · refine .bind (Uses.unserved (.tryCatch (.bind (callTool_uses _ _ trivial fun _ => trivial) fun _ => trivial)
      fun _ => trivial) rfl) (fun _ _ he => he ▸ rfl) ?_
    rintro outcome _ rfl
    split
    · exact finalizeExecutionOutcome_served _ _ _ _
    · split
      · exact finalizeExecutionOutcome_served _ _ _ _
      · exact finalizeExecutionOutcome_served _ _ _ _

theorem resolveClaimed_served (operator : Operator) (approve : Bool) (reason : Option String) (now : Time) :
    Settles (resolveClaimed a approval operator approve reason now : Db W _) {} := by
  refine .call_bind trivial fun (agent : Option Agent) => ?_
  split
  · refine .bind (Uses.unserved (commitChunk_unserved fun _ => rfl) rfl) (fun _ _ he => he ▸ rfl) ?_
    rintro _ _ rfl
    exact executeApprovedAction_served _
  · split
    · refine .bind (commitRows_settled a approval (R := fun rows => ∃ seq error, rows =
        .plain (rejectionRows a approval operator now error seq)) rfl (fun _ seq => ⟨seq, _, rfl⟩) ?_)
        (fun _ _ h => h) fun _ _ h => h
      rintro _ ⟨seq, error, rfl⟩
      exact ⟨_, seq, rfl, .rejection operator now error, .inl rfl⟩
    · rfl

/-- What the lazy expiry expires it records, or raises. -/
theorem lazyExpire_served (now : Time) :
    (lazyExpire a approval now : Db W ApprovalStatus).Obeys serving (fun _ m => m = {})
      (fun _ m => m.pending = none) {} := by
  unfold lazyExpire
  split
  · rfl
  · refine .call_bind trivial fun (expired : Bool) => .call_bind trivial
      fun (refreshed : Option ApprovalRequest) => ?_
    cases expired with
    | false => rfl
    | true =>
      refine .call_bind trivial fun (toolRequest : Option ToolRequest) =>
        .call_bind trivial fun (execution : Option Execution) => ?_
      refine .bind (commitRows_settled a approval (R := fun rows => ∃ toolRequest execution seq, rows =
        .plain (expiryRows a approval now toolRequest execution seq)) rfl (fun number seq => ?_) ?_)
        (fun _ _ h => h) fun _ m hm => .call_bind trivial fun (reread : Option ApprovalRequest) => hm
      · split
        · exact ⟨_, _, seq, rfl⟩
        · exact ⟨trivial, fun toolRequest => ⟨trivial, fun execution => ⟨toolRequest, execution, seq, rfl⟩⟩⟩
      · rintro _ ⟨toolRequest, execution, seq, rfl⟩
        exact ⟨_, seq, rfl, .expiry now toolRequest execution, .inr rfl⟩

theorem resolve_serving (a : Id) (operator : Operator) (approve : Bool) (reason : Option String) :
    Settles (resolve a operator approve reason : Db W _) {} := by
  refine .call_bind trivial fun (approval : Option ApprovalRequest) => ?_
  split
  · rfl
  · refine .call_bind trivial fun (now : Time) => .bind (lazyExpire_served now) (fun _ _ h => h) ?_
    rintro status _ rfl
    split
    · rfl
    · refine .call_bind trivial fun (toolRequest : Option ToolRequest) =>
        .call_bind trivial fun (execution : Option Execution) => ?_
      split
      · refine .call_bind trivial fun (claimed : Bool) => .call_bind trivial
          fun (refreshed : Option ApprovalRequest) => ?_
        split
        · exact resolveClaimed_served operator approve reason now
        · rfl
      · rfl

end ApprovalEngine

theorem Call.Issues.unserved {call : Call} (hr : call.resolves = false) {o : Op W.Tables} (h : call.Issues o) :
    Unserved o := by
  have unsettling := Call.Issues.unsettling hr h
  have outside := h.outside
  rcases o with _ | w | n | _
  · trivial
  · cases w with
    | commit | commitIf => exact unsettling.toolRequest
    | expireApproval => exact unsettling.elim
    | _ => trivial
  · cases n with
    | gatewayEnter | gatewayReturn | gatewayRaise => exact outside.elim
    | _ => trivial
  · trivial

/-- No call leaves a tool request open when it returns, or an expiry unrecorded. -/
theorem Call.code_serving (call : Call) :
    (call.code : Db W CallResult).Obeys serving (fun _ m => m = {}) (fun _ m => m.pending = none) {} := by
  cases hr : call.resolves with
  | false =>
    refine (Composed.keeps call.code_assembled (I := (· = {})) (fun {_ _ _} h {m} hm => ?_) rfl).mono
      (fun _ _ h => h) fun _ _ h => h ▸ rfl
    subst hm
    cases h with
    | statements h => exact Uses.unserved (h.mono fun _ => Call.Issues.unserved hr) rfl
    | chunk x build h =>
      refine Uses.unserved (commitRows_uses (fun o ho => ?_) trivial fun attempt seq =>
        (h attempt seq).mono (fun _ h => h) fun rows hrows => (Call.Chunks.unsettling hr hrows).mono
          (fun _ h _ => h.toolRequest) fun _ _ h _ => h.toolRequest) rfl
      cases o <;> trivial
    | gateway _ call context => exact ToolGateway.execute_serving call context
  | true =>
    cases call with
    | approve a operator =>
      exact .bind (ApprovalEngine.resolve_serving a operator true none) (fun _ _ h => h) fun _ _ h => h
    | reject a operator reason =>
      exact .bind (ApprovalEngine.resolve_serving a operator false reason) (fun _ _ h => h) fun _ _ h => h
    | _ => cases hr

end SafeOps
