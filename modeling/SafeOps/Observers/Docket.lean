import SafeOps.Observers.Frame

/-! What a gateway call puts on file: its tool request, and the last event of its log. -/

namespace SafeOps
open Concurrent Program

variable {W : World} {ε α : Type}

/-- An open gateway call: whether it has found its agent, the execution it has read, the keys of the tool
requests it has inserted, the row as it has last committed it, the last event it has appended, and whether its
execution was not `RUNNING` when it came to ask for an approval. -/
structure Docket where
  call : GatewayCall
  agent : Bool := false
  execution : Option Execution := none
  created : List Id := []
  request : Option (Id × ToolRequest) := none
  lastEvent : Option AuditEventType := none
  conflict : Bool := false

/-- The status of a tool request whose call answers `status`. -/
def GatewayStatus.recorded : GatewayStatus → ToolRequestStatus
  | executed => .executed
  | blocked => .denied
  | requiresApproval => .requiresApproval
  | failed => .failed

theorem GatewayStatus.recorded_ne_requested (status : GatewayStatus) : status.recorded ≠ .requested := by
  cases status <;> exact nofun

/-- The events that announce an answer. -/
def GatewayStatus.events : GatewayStatus → List AuditEventType
  | executed => [.toolExecuted]
  | blocked => [.actionDenied, .policyBlocked, .actionBlockedByRisk, .securityIncidentCreated]
  | requiresApproval => [.approvalRequested]
  | failed => [.toolFailed]

namespace Docket

/-- A tool request as a chunk leaves it. -/
def write (request : Option (Id × ToolRequest)) : Option ToolRequestWrite → Option (Id × ToolRequest)
  | some (.insert q row) => some (q, row)
  | some (.update q u) => request.map fun p => if p.1 = q then (p.1, u.apply p.2) else p
  | none => request

def commit (d : Docket) (t : Txn) : Docket :=
  { d with
    created := match t.toolRequest with
      | some (.insert q _) => q :: d.created
      | _ => d.created
    request := write d.request t.toolRequest
    lastEvent := (t.audit.getLast?.map (·.eventType)).or d.lastEvent }

/-- What the docket shows after the answer to one of the statements of its call. -/
def observe (d : Docket) : (o : Op W.Tables) → o.Reply → Docket
  | .query (.agent i) => fun (agent : Option Agent) =>
    if i = d.call.agentId then { d with agent := agent.isSome } else d
  | .query (.execution x) => fun (row : Option Execution) =>
    if x = d.call.executionId then { d with execution := row } else d
  | .write (.commit _ t) => fun (outcome : CommitOutcome) =>
    if outcome = .committed then d.commit t else d
  | .write (.commitIf _ _ t) => fun (outcome : GuardedOutcome) =>
    match outcome with
    | .guardLost => { d with conflict := true }
    | .finished outcome => if outcome = .committed then d.commit t else d
  | _ => fun _ => d

/-- The call has passed the guards for its agent, its execution and the status of that. -/
def Admitted (d : Docket) : Prop :=
  d.agent = true ∧ ∃ row, d.execution = some row ∧ row.agentId = d.call.agentId ∧ ¬row.status.Terminal ∧
    row.status ≠ .waitingApproval

instance : DecidablePred Admitted := fun d =>
  decidable_of_iff (d.agent = true ∧ d.execution.any fun row =>
    row.agentId = d.call.agentId ∧ ¬row.status.Terminal ∧ row.status ≠ .waitingApproval) (by
      simp only [Admitted, Option.any_eq_true, decide_eq_true_eq])

/-- There is one tool request, closed as the answer says, and the last event announces the answer. -/
structure Agrees (d : Docket) (status : GatewayStatus) : Prop where
  request : ∃ q row, d.created = [q] ∧ d.request = some (q, row) ∧ row.status = status.recorded ∧
    row.completedAt ≠ none
  event : ∃ type ∈ status.events, d.lastEvent = some type

/-- The chunk puts a tool request into `REQUESTED` only if it is there already. -/
def Allows (d : Docket) (t : Txn) : Prop :=
  ∀ q u, t.toolRequest = some (.update q u) → u.status = .requested →
    ∃ row, d.request = some (q, row) ∧ row.status = .requested

end Docket

/-- The chunk puts no tool request back into `REQUESTED`. -/
def Txn.Closing (t : Txn) : Prop := ∀ q u, t.toolRequest = some (.update q u) → u.status ≠ .requested

theorem Txn.Closing.allowed {t : Txn} (h : t.Closing) (d : Docket) : d.Allows t :=
  fun q u ht hu => absurd hu (h q u ht)

/-- Follows the gateway call a thread is in. A call past its guards returns in agreement with its docket,
unless it found its execution in conflict; no closed tool request is opened again. -/
def docketing : Monitor W.statements (Option Docket) where
  next m o := match o with
    | .note (.gatewayEnter call) => fun _ => some { call }
    | .note (.gatewayReturn _) => fun _ => none
    | .note .gatewayRaise => fun _ => none
    | o => fun r => m.map (·.observe o r)
  ok m o := match o with
    | .note (.gatewayReturn status) =>
      ∃ d, m = some d ∧ (d.Admitted → (d.Agrees status ↔ d.conflict = false))
    | .write (.commit _ t) | .write (.commitIf _ _ t) => t.Closing ∨ ∃ d, m = some d ∧ d.Allows t
    | _ => True

/-- What a call may request outside the gateway. -/
def Elsewhere : Op W.Tables → Prop
  | .write (.commit _ t) | .write (.commitIf _ _ t) => t.Closing
  | o => Outside o

theorem Elsewhere.ok {o : Op W.Tables} (h : Elsewhere o) : docketing.ok none o := by
  rcases o with _ | w | n | _
  · trivial
  · cases w with
    | commit | commitIf => exact .inl h
    | _ => trivial
  · cases n with
    | gatewayReturn => exact h.elim
    | _ => trivial
  · trivial

theorem Elsewhere.next {o : Op W.Tables} (h : Elsewhere o) (r : o.Reply) : docketing.next none o r = none := by
  rcases o with _ | _ | n | _
  · rfl
  · rfl
  · cases n <;> first | rfl | exact h.elim
  · rfl

/-- The open call has the docket `d`, of which `P` is true. -/
def On (P : Docket → Prop) {α : Type} (_ : α) (m : Option Docket) : Prop := ∃ d, m = some d ∧ P d

/-- What a gateway call may request without a change of its docket. -/
def Undocketed : Op W.Tables → Prop
  | .query (.agent _) | .query (.execution _) => False
  | .query _ | .tool _ | .write .freshId => True
  | .note (.policyEvaluated _) | .note (.riskAssessed _) | .note (.toolExecute _) => True
  | _ => False

section Rules

variable {P P' : Docket → Prop} {m : Option Docket}

theorem Undocketed.ok {o : Op W.Tables} (h : Undocketed o) (m : Option Docket) : docketing.ok m o := by
  rcases o with _ | w | n | _
  · trivial
  · cases w with
    | freshId => trivial
    | _ => exact h.elim
  · cases n with
    | policyEvaluated | riskAssessed | toolExecute => trivial
    | _ => exact h.elim
  · trivial

theorem Undocketed.next {o : Op W.Tables} (h : Undocketed o) (d : Docket) (r : o.Reply) :
    docketing.next (some d) o r = some d := by
  rcases o with q | w | n | _
  · cases q <;> first | rfl | exact h.elim
  · cases w <;> first | rfl | exact h.elim
  · cases n <;> first | rfl | exact h.elim
  · rfl

theorem Uses.undocketed {p : Program W.statements ε α} (h : p.Uses Undocketed) (hm : On P () m) :
    p.Obeys docketing (On P) (On P) m := by
  refine h.keeps (I := On P ()) (fun m _ ho _ => ho.ok m) (fun m _ r ho hm => ?_) hm
  obtain ⟨d, rfl, hd⟩ := hm
  exact ⟨d, ho.next d r, hd⟩

/-- One round of a chunk whose rows are committed in a docket that has `P`. -/
theorem commitRound_docketing {x : Id} {build : Nat → Nat → Db W (Rows W)} {R : Rows W → Prop} {number : Nat}
    {Q : CommitOutcome → Option Docket → Prop} (hm : On P () m)
    (h : ∀ seq, (build number seq).Yields Undocketed R)
    (commits : ∀ attempt rows d, R rows → P d → (rows.commit attempt).Obeys docketing Q (On P) (some d)) :
    (commitRound x build number).Obeys docketing Q (On P) m := by
  refine .call_bind trivial fun (tail : AuditTail) => ?_
  obtain ⟨d, rfl, hd⟩ := hm
  have started : On P () (docketing.next (some d) (.query (.auditSequence x) : Op W.Tables) tail) := ⟨d, rfl, hd⟩
  refine .bind ((h (tail.sequence + 1)).keeps (I := On P ()) (fun m _ ho _ => ho.ok m)
    (fun m _ r ho hm => ?_) started) (fun _ _ hm => hm) ?_
  · obtain ⟨d, rfl, hd⟩ := hm
    exact ⟨d, ho.next d r, hd⟩
  · rintro rows _ ⟨hrows, d, rfl, hd⟩
    exact commits _ rows d hrows hd

/-- A chunk each of whose rows leads from `P` to `P'`; a chunk that is given up ends the call. -/
theorem commitRows_docketing {x : Id} {build : Nat → Nat → Db W (Rows W)} (hm : On P () m)
    (h : ∀ number seq, (build number seq).Yields Undocketed fun rows =>
      ∃ t, rows = .plain t ∧ ∀ d, P d → d.Allows t ∧ P' (d.commit t)) :
    (commitRows x build).Obeys docketing (On P') (On P) m := by
  refine commitRows_obeys (On P ()) (On P' ()) (fun number m hm => ?_) (fun _ hm => hm) hm
  refine commitRound_docketing hm (h number) fun attempt rows d ⟨t, hrows, ht⟩ hd => ?_
  subst hrows
  refine ⟨.inr ⟨d, rfl, (ht d hd).1⟩, fun (outcome : CommitOutcome) => ?_⟩
  cases outcome with
  | committed => exact ⟨_, rfl, (ht d hd).2⟩
  | violation => exact ⟨d, rfl, hd⟩
  | collision => exact ⟨d, rfl, hd⟩

end Rules

/-- The call has filed the tool request `q`, and not closed it yet. -/
structure Docket.Pending (q : Id) (d : Docket) : Prop where
  created : d.created = [q]
  request : ∃ row, d.request = some (q, row) ∧ row.status = .requested
  quiet : d.conflict = false

/-- The call may answer `status`. -/
structure Docket.Closed (status : GatewayStatus) (d : Docket) : Prop where
  agrees : d.Agrees status
  quiet : d.conflict = false

/-- The call has left its tool request pending, and can no longer ask for an approval. -/
structure Docket.Stuck (d : Docket) : Prop where
  request : ∃ q row, d.request = some (q, row) ∧ row.status = .requested
  conflict : d.conflict = true

/-- The call has filed nothing. -/
structure Docket.Bare (d : Docket) : Prop where
  created : d.created = []
  quiet : d.conflict = false

theorem Docket.Stuck.disagrees {d : Docket} (h : d.Stuck) (status : GatewayStatus) : ¬d.Agrees status := by
  rintro ⟨⟨q, row, _, hrow, hs, _⟩, _⟩
  obtain ⟨q', row', hrow', hs'⟩ := h.request
  obtain ⟨_, rfl⟩ := Prod.mk.inj (Option.some.inj (hrow.symm.trans hrow'))
  exact status.recorded_ne_requested (hs.symm.trans hs')

namespace Docket

variable {d : Docket} {t : Txn} {q : Id} {u : ToolRequestUpdate} {status : GatewayStatus}

theorem Pending.silent (h : d.Pending q) (ht : t.toolRequest = none) : (d.commit t).Pending q := by
  refine ⟨?_, ?_, h.quiet⟩
  · simpa [commit, ht] using h.created
  · simpa [commit, ht, write] using h.request

theorem Pending.updated (h : d.Pending q) (ht : t.toolRequest = some (.update q u)) :
    (d.commit t).created = [q] ∧ ∃ row, (d.commit t).request = some (q, u.apply row) := by
  obtain ⟨row, hrow, _⟩ := h.request
  exact ⟨by simpa [commit, ht] using h.created, row, by simp [commit, ht, write, hrow]⟩

theorem Pending.again (h : d.Pending q) (ht : t.toolRequest = some (.update q u)) (hu : u.status = .requested) :
    d.Allows t ∧ (d.commit t).Pending q := by
  obtain ⟨hc, row, hrow⟩ := h.updated ht
  refine ⟨fun q' u' ht' _ => ?_, hc, ⟨_, hrow, hu⟩, h.quiet⟩
  obtain ⟨rfl, rfl⟩ := ToolRequestWrite.update.inj (Option.some.inj (ht.symm.trans ht'))
  exact h.request

/-- The last chunk of a call that has not yet closed its tool request. -/
theorem Pending.close (h : d.Pending q) (ht : t.toolRequest = some (.update q u)) (hu : u.status = status.recorded)
    {now : Time} (hnow : u.completedAt = some now) {e : AuditEvent} (he : t.audit.getLast? = some e)
    (hs : e.eventType ∈ status.events) : d.Allows t ∧ (d.commit t).Closed status := by
  obtain ⟨hc, row, hrow⟩ := h.updated ht
  refine ⟨Txn.Closing.allowed (fun q' u' ht' => ?_) d, ⟨⟨q, _, hc, hrow, hu, ?_⟩, e.eventType, hs, ?_⟩, h.quiet⟩
  · obtain ⟨rfl, rfl⟩ := ToolRequestWrite.update.inj (Option.some.inj (ht.symm.trans ht'))
    exact hu ▸ status.recorded_ne_requested
  · simp [ToolRequestUpdate.apply, hnow]
  · simp [commit, he]

/-- The chunk that files the call's tool request. -/
theorem Bare.file (h : d.Bare) {row : ToolRequest} (ht : t.toolRequest = some (.insert q row)) :
    d.Allows t ∧ (d.commit t).created = [q] ∧ (d.commit t).request = some (q, row) :=
  ⟨Txn.Closing.allowed (by simp [Txn.Closing, ht]) d, by simp [commit, ht, h.created], by simp [commit, ht, write]⟩

end Docket

/-- The gateway call may return `result`. -/
def Answered (result : GatewayResult) (m : Option Docket) : Prop :=
  ∃ d, m = some d ∧ (d.Admitted → (d.Agrees result.status ↔ d.conflict = false))

/-- The program ends a gateway call whose docket has `P`. -/
abbrev Replies (p : Db W GatewayResult) (P : Docket → Prop) : Prop :=
  ∀ m, On P () m → p.Obeys docketing Answered (On fun _ => True) m

section Replies

variable {P P' : Docket → Prop}

theorem replies_closed (result : GatewayResult) :
    Replies (.ret result : Db W GatewayResult) (Docket.Closed result.status) := by
  rintro _ ⟨d, rfl, hd⟩
  exact ⟨d, rfl, fun _ => iff_of_true hd.agrees hd.quiet⟩

theorem replies_stuck (result : GatewayResult) : Replies (.ret result : Db W GatewayResult) Docket.Stuck := by
  rintro _ ⟨d, rfl, hd⟩
  exact ⟨d, rfl, fun _ => iff_of_false (hd.disagrees _) (by simp [hd.conflict])⟩

/-- A part of a gateway call that its docket does not show, and the rest of the call. -/
theorem Uses.docketed_bind {p : Db W α} {k : α → Db W GatewayResult} (h : p.Uses Undocketed)
    (rest : ∀ a, Replies (k a) P) : Replies (p.bind k) P :=
  fun _ hm => .bind (Uses.undocketed h hm) (fun _ _ ⟨d, hm, _⟩ => ⟨d, hm, trivial⟩) fun a _ hm => rest a _ hm

/-- A chunk of a gateway call, and the rest of the call. -/
theorem commitRows_docketed_bind {x : Id} {build : Nat → Nat → Db W (Rows W)} {k : Unit → Db W GatewayResult}
    (h : ∀ number seq, (build number seq).Yields Undocketed fun rows =>
      ∃ t, rows = .plain t ∧ ∀ d, P d → d.Allows t ∧ P' (d.commit t))
    (rest : Replies (k ()) P') : Replies ((commitRows x build).bind k) P :=
  fun _ hm => .bind (commitRows_docketing hm h) (fun _ _ ⟨d, hm, _⟩ => ⟨d, hm, trivial⟩) fun _ _ hm => rest _ hm

theorem commitChunk_docketed_bind {x : Id} {build : Nat → Txn} {k : Unit → Db W GatewayResult}
    (h : ∀ seq d, P d → d.Allows (build seq) ∧ P' (d.commit (build seq)))
    (rest : Replies (k ()) P') : Replies ((commitChunk x build).bind k) P :=
  commitRows_docketed_bind (fun _ seq => ⟨_, rfl, h seq⟩) rest

/-- The last chunk of a gateway call. -/
theorem commitRows_replies {x : Id} {build : Nat → Nat → Db W (Rows W)} {result : GatewayResult}
    (h : ∀ number seq, (build number seq).Yields Undocketed fun rows =>
      ∃ t, rows = .plain t ∧ ∀ d, P d → d.Allows t ∧ (d.commit t).Closed result.status) :
    Replies ((commitRows x build).bind fun _ => .ret result) P :=
  commitRows_docketed_bind h (replies_closed result)

end Replies

namespace ToolGateway

/-- A chunk of the call without its tool request. -/
theorem txn_pending {g : Admitted W} (audit : List AuditEvent) (d : Docket) (h : d.Pending g.requestId) :
    d.Allows (g.txn audit) ∧ (d.commit (g.txn audit)).Pending g.requestId :=
  ⟨Txn.Closing.allowed (by simp [Txn.Closing, Admitted.txn]) d, h.silent rfl⟩

theorem executeAndRecord_docketing (g : Admitted W) (base : GatewayResult) :
    Replies (executeAndRecord g base) (Docket.Pending g.requestId) := by
  have called : (callTool g.tool g.toolCall).Uses Undocketed :=
    .bind ⟨trivial, fun _ => trivial⟩ fun _ => toolExecute_uses _ _ fun _ => trivial
  refine Uses.docketed_bind (.tryCatch (called.bind fun _ => trivial) fun _ => trivial) fun outcome =>
    Uses.docketed_bind ⟨trivial, fun _ => trivial⟩ fun (completedAt : Time) => ?_
  have failure (error : ToolError) (reason : String) :
      Replies ((commitChunk g.call.executionId (failureRows g completedAt error)).bind fun _ =>
        .ret { base with status := .failed, reason := some reason } : Db W GatewayResult)
          (Docket.Pending g.requestId) :=
    commitRows_replies fun _ _ => ⟨_, rfl, fun _ hd => hd.close rfl rfl rfl rfl (List.mem_singleton.2 rfl)⟩
  cases outcome with
  | none => exact failure _ _
  | some result =>
    simp only
    split
    · exact commitRows_replies fun _ _ => ⟨_, rfl, fun _ hd => hd.close rfl rfl rfl rfl (List.mem_singleton.2 rfl)⟩
    · exact failure _ _

theorem finalizeRiskBlock_docketing (g : Admitted W) (risk : RiskAssessmentResult) (escalated : Bool)
    (base : GatewayResult) :
    Replies (finalizeRiskBlock g risk escalated base) (Docket.Pending g.requestId) := by
  unfold finalizeRiskBlock
  refine commitRows_replies fun _ seq => ?_
  refine Yields.bind (P := fun _ => True) ⟨trivial, fun _ => trivial⟩ fun now _ => ?_
  split
  · refine ⟨_, rfl, fun d hd => ?_⟩
    obtain ⟨e, he, hs⟩ : ∃ e, (riskBlockRows g risk escalated now seq).audit.getLast? = some e ∧
        e.eventType ∈ GatewayStatus.blocked.events := by
      simp only [riskBlockRows, Admitted.txn]
      cases incidentTypeName risk.signals with
      | none => simp [GatewayStatus.events]
      | some name => simp [GatewayStatus.events]
    exact hd.close rfl rfl rfl he hs
  · trivial

/-- The chunk that asks for an approval: it is committed, or finds the execution in conflict. -/
theorem commitRows_asked (g : Admitted W) (escalated : Bool) (a : Id) (row : ApprovalRequest) (requestedAt : Time)
    {m : Option Docket} (hm : On (Docket.Pending g.requestId) () m) :
    (commitRows g.call.executionId fun _ seq => pure (.guarded admitApproval
      (approvalRows g escalated a row requestedAt seq) (.raise .approvalStateConflict)) : Db W Unit).Obeys docketing
        (On (Docket.Closed .requiresApproval))
        (fun e => On (fun d => e = .approvalStateConflict → d.Stuck) e) m := by
  have asked (seq : Nat) (d : Docket) (hd : d.Pending g.requestId) :
      d.Allows (approvalRows g escalated a row requestedAt seq) ∧
        (d.commit (approvalRows g escalated a row requestedAt seq)).Closed .requiresApproval := by
    obtain ⟨e, he, hs⟩ : ∃ e, (approvalRows g escalated a row requestedAt seq).audit.getLast? = some e ∧
        e.eventType ∈ GatewayStatus.requiresApproval.events := by
      cases escalated
      · exact ⟨_, rfl, List.mem_singleton.2 rfl⟩
      · exact ⟨_, rfl, List.mem_singleton.2 rfl⟩
    exact hd.close rfl rfl rfl he hs
  refine commitRows_obeys (On (Docket.Pending g.requestId) ()) (On (Docket.Closed .requiresApproval) ())
    (fun number m hm => ?_) (fun _ ⟨d, hm, _⟩ => ⟨d, hm, nofun⟩) hm
  refine .call_bind trivial fun (tail : AuditTail) => ?_
  obtain ⟨d, rfl, hd⟩ := hm
  refine .call_bind (.inr ⟨d, rfl, (asked _ d hd).1⟩) fun (outcome : GuardedOutcome) => ?_
  rcases outcome with _ | (_ | _ | _)
  · exact ⟨{ d with conflict := true }, rfl, fun _ => ⟨⟨_, hd.request⟩, rfl⟩⟩
  · exact ⟨_, rfl, (asked _ d hd).2⟩
  · exact ⟨d, rfl, hd⟩
  · exact ⟨d, rfl, nofun⟩

theorem createApprovalAndCommit_docketing (g : Admitted W) (ruling : Ruling) (reason : String) (escalated : Bool)
    (base : GatewayResult) :
    Replies (createApprovalAndCommit g ruling reason escalated base) (Docket.Pending g.requestId) := by
  refine Uses.docketed_bind ⟨trivial, fun _ => trivial⟩ fun (requestedAt : Time) =>
    Uses.docketed_bind ⟨trivial, fun _ => trivial⟩ fun (a : Id) =>
      Uses.docketed_bind ⟨trivial, fun _ => trivial⟩ fun (now : Time) => fun m hm => ?_
  let asked (committed : Bool) : Option Docket → Prop :=
    On (if committed then Docket.Closed .requiresApproval else Docket.Stuck) ()
  refine .bind (R := asked) (Y := On fun _ => True)
    (.tryCatch (R := asked) (Y := fun e => On (fun d => e = .approvalStateConflict → d.Stuck) e)
      (.bind (commitRows_asked g escalated a _ requestedAt hm) (fun _ _ h => h) fun _ _ h => h)
      (fun _ _ h => h) ?_) (fun _ _ h => h) ?_
  · rintro e _ ⟨d, rfl, hd⟩
    cases e with
    | approvalStateConflict => exact ⟨d, rfl, hd rfl⟩
    | _ => exact ⟨d, rfl, trivial⟩
  · rintro (_ | _) m hm
    · exact replies_stuck _ m hm
    · exact replies_closed { base with
        status := .requiresApproval
        decision := some .requireApproval
        reason := some reason
        approvalRequestId := some a } m hm

theorem assessRiskAndFinalize_docketing (g : Admitted W) (ruling : Ruling) :
    Replies (assessRiskAndFinalize g ruling) (Docket.Pending g.requestId) := by
  refine Uses.docketed_bind (.tryCatch (assess_uses _ _ _ _ _ trivial trivial) fun _ => trivial) fun risk =>
    Uses.docketed_bind ⟨trivial, fun _ => trivial⟩ fun _ =>
      commitChunk_docketed_bind (fun _ d hd => txn_pending _ d hd) ?_
  simp only
  split
  · exact finalizeRiskBlock_docketing g _ _ _
  · exact createApprovalAndCommit_docketing g ruling _ _ _
  · exact commitChunk_docketed_bind (fun _ d hd => txn_pending _ d hd) (executeAndRecord_docketing g _)

/-- The first chunk of a permitted call files its tool request. -/
theorem permissionRows_docketing (g : Admitted W) (audit : Nat → List AuditEvent) {k : Unit → Db W GatewayResult}
    (rest : Replies (k ()) (Docket.Pending g.requestId)) :
    Replies ((commitChunk g.call.executionId fun seq => permissionRows g (audit seq)).bind k) Docket.Bare := by
  refine commitChunk_docketed_bind (fun seq d hd => ?_) rest
  obtain ⟨hallows, hc, hr⟩ := hd.file (t := permissionRows g (audit seq)) rfl
  exact ⟨hallows, hc, ⟨_, hr, rfl⟩, hd.quiet⟩

theorem policyOutcomeRows_shape (g : Admitted W) (result : PolicyEvaluationResult) (type : AuditEventType)
    (u : ToolRequestUpdate) (seq : Nat) :
    (policyOutcomeRows g result type u seq).toolRequest = some (.update g.requestId u) ∧
      ∃ e, (policyOutcomeRows g result type u seq).audit.getLast? = some e ∧ e.eventType = type := by
  unfold policyOutcomeRows
  repeat' split
  all_goals exact ⟨rfl, _, rfl, rfl⟩

theorem handleConditional_docketing (g : Admitted W) (agent : Agent) :
    Replies (handleConditional g agent) Docket.Bare := by
  refine permissionRows_docketing g (fun seq => [permissionEvent g seq "CONDITIONAL",
    g.event (seq + 1) .policyEvaluationStarted]) ?_
  refine Uses.docketed_bind (.tryCatch (evaluate_uses _ _ _ _ _ trivial trivial) fun _ => trivial) fun result =>
    Uses.docketed_bind ⟨trivial, fun _ => trivial⟩ fun _ => ?_
  split
  · refine commitRows_replies fun _ seq => ?_
    refine Yields.bind (P := fun _ => True) ⟨trivial, fun _ => trivial⟩ fun now _ => ⟨_, rfl, fun d hd => ?_⟩
    obtain ⟨ht, e, he, htype⟩ := policyOutcomeRows_shape g result .policyBlocked
      (closed .denied now ⟨"POLICY_BLOCKED", result.reason⟩) seq
    exact hd.close ht rfl rfl he (by simp [htype, GatewayStatus.events])
  · refine Uses.docketed_bind ⟨trivial, fun _ => trivial⟩ fun _ => commitChunk_docketed_bind (fun seq d hd => ?_)
      (assessRiskAndFinalize_docketing g _)
    exact hd.again (policyOutcomeRows_shape g result _ _ seq).1 rfl

theorem handleDirectAllow_docketing (g : Admitted W) : Replies (handleDirectAllow g) Docket.Bare :=
  permissionRows_docketing g (fun seq => [permissionEvent g seq "ALLOW"])
    (Uses.docketed_bind ⟨trivial, fun _ => trivial⟩ fun _ => assessRiskAndFinalize_docketing g _)

theorem refuse_docketing (call : GatewayCall) (toolRow : Option Tool) {status : ToolRequestStatus}
    (error : ToolError) {audit : Nat → List AuditEvent} {result : GatewayResult}
    (hs : status = result.status.recorded)
    (ha : ∀ seq, ∃ e, (audit seq).getLast? = some e ∧ e.eventType ∈ result.status.events) :
    Replies ((refuse call toolRow status error audit).bind fun _ => .ret result : Db W GatewayResult)
      Docket.Bare := by
  intro m hm
  refine .bind (R := On (Docket.Closed result.status)) (Y := On Docket.Bare) ?_ (fun _ _ ⟨d, hm, _⟩ => ⟨d, hm, trivial⟩)
    fun _ m hm => replies_closed result m hm
  refine .bind (Uses.undocketed ⟨trivial, fun _ => trivial⟩ hm) (fun _ _ hm => hm) fun (r : Id) m hm => ?_
  refine commitRows_docketing hm fun _ seq => ?_
  refine Yields.bind (P := fun _ => True) ⟨trivial, fun _ => trivial⟩ fun now _ => ⟨_, rfl, fun d hd => ?_⟩
  obtain ⟨e, he, htype⟩ := ha seq
  obtain ⟨hallows, hc, hr⟩ := hd.file (q := r) (t := ⟨call.executionId, audit seq, _, none, none, false⟩) rfl
  exact ⟨hallows, ⟨⟨r, _, hc, hr, hs, nofun⟩, e.eventType, htype, by simp [Docket.commit, he]⟩, hd.quiet⟩

theorem executeAdmitted_docketing (call : GatewayCall) (context : Option Value) (agent : Agent)
    (objective : String) :
    Replies (executeAdmitted call context agent objective : Db W GatewayResult) Docket.Bare := by
  have requested {t : Txn} (ht : t.toolRequest = none) (d : Docket) (hd : d.Bare) :
      d.Allows t ∧ (d.commit t).Bare :=
    ⟨Txn.Closing.allowed (by simp [Txn.Closing, ht]) d, by simpa [Docket.commit, ht] using hd.created, hd.quiet⟩
  unfold executeAdmitted
  refine commitChunk_docketed_bind (fun _ d hd => requested rfl d hd) ?_
  split
  · exact refuse_docketing _ _ _ rfl fun seq => ⟨_, rfl, List.mem_singleton.2 rfl⟩
  · rename_i tool _
    refine Uses.docketed_bind ⟨trivial, fun _ => trivial⟩ fun (found : Option (ToolNamed call.toolName)) => ?_
    split
    · exact refuse_docketing _ _ _ rfl fun seq => ⟨_, rfl, List.mem_singleton.2 rfl⟩
    · have permission : (permissionFor call.agentId (found.map Subtype.val) : Db W _).Uses Undocketed := by
        cases found with
        | none => trivial
        | some row => exact ⟨trivial, fun _ => trivial⟩
      refine Uses.docketed_bind permission fun permission => ?_
      split
      · exact Uses.docketed_bind ⟨trivial, fun _ => trivial⟩ fun _ => handleConditional_docketing _ _
      · exact Uses.docketed_bind ⟨trivial, fun _ => trivial⟩ fun _ => handleDirectAllow_docketing _
      · exact refuse_docketing _ _ _ rfl fun seq => ⟨_, rfl, List.mem_cons_self⟩

/-- A call that is not admitted may answer anything. -/
theorem answered_unadmitted {d : Docket} (h : ¬d.Admitted) (result : GatewayResult) :
    Answered result (some d) :=
  ⟨d, rfl, fun hd => absurd hd h⟩

theorem executeGuarded_docketing (call : GatewayCall) (context : Option Value) :
    (executeGuarded call context : Db W GatewayResult).Obeys docketing Answered (On fun _ => True)
      (some { call }) := by
  refine .call_bind trivial fun (agent : Option Agent) => ?_
  have read : docketing.next (some { call }) (.query (.agent call.agentId) : Op W.Tables) agent =
      some { call, agent := agent.isSome } := by simp [docketing, Docket.observe]
  rw [read]
  cases agent with
  | none => exact answered_unadmitted (fun h => Bool.false_ne_true h.1) _
  | some agent =>
    refine .call_bind trivial fun (execution : Option Execution) => ?_
    have read' : docketing.next (some { call, agent := true })
        (.query (.execution call.executionId) : Op W.Tables) execution =
          some { call, agent := true, execution } := by simp [docketing, Docket.observe]
    rw [Option.isSome_some, read']
    cases execution with
    | none =>
      refine answered_unadmitted ?_ _
      rintro ⟨_, _, h, _⟩
      cases h
    | some row =>
      have admitted (h : Docket.Admitted { call, agent := true, execution := some row }) :
          row.agentId = call.agentId ∧ ¬row.status.Terminal ∧ row.status ≠ .waitingApproval := by
        obtain ⟨_, _, hrow, h⟩ := h
        exact Option.some.inj hrow ▸ h
      simp only
      split
      · exact answered_unadmitted (fun h => absurd (admitted h).1 ‹_›) _
      · split
        · exact answered_unadmitted (fun h => (admitted h).2.1 ‹_›) _
        · split
          · exact answered_unadmitted (fun h => (admitted h).2.2 ‹_›) _
          · exact executeAdmitted_docketing _ _ _ _ _ ⟨_, rfl, rfl, rfl⟩

theorem execute_docketing (call : GatewayCall) (context : Option Value) :
    (execute call context : Db W GatewayResult).Obeys docketing (fun _ m => m = none)
      (fun _ m => m = none) none := by
  refine .call_bind trivial fun _ => ?_
  change Program.Obeys _ _ _ _ (some ({ call } : Docket))
  refine .bind (R := Answered) (Y := fun _ m => m = none)
    (.tryCatch (executeGuarded_docketing call context) (fun _ _ h => h) ?_) (fun _ _ h => h) ?_
  · exact fun e _ _ => .call_bind trivial fun _ => rfl
  · exact fun result _ h => .call_bind h fun _ => rfl

end ToolGateway

theorem RuntimeChunk.closing {x : Id} {seq : Nat} {rows : Rows W} (h : RuntimeChunk x seq rows) :
    rows.Within Txn.Closing fun _ t => t.Closing := by
  have silent {t : Txn} (ht : t.toolRequest = none) : t.Closing := by simp [Txn.Closing, ht]
  cases h with
  | routine h hr => exact silent hr
  | started => exact ⟨silent rfl, silent rfl⟩
  | finalized => exact silent rfl
  | terminal =>
    refine ⟨silent rfl, trivial, fun execution => ?_⟩
    cases execution with
    | none => trivial
    | some row => exact silent rfl

theorem ResolutionChunk.closing {a : Id} {row : ApprovalRequest} {seq : Nat} {t : Txn}
    (h : ResolutionChunk a row seq t) : t.Closing := by
  intro q u ht
  cases h with
  | expiry now toolRequest =>
    simp only [ApprovalEngine.expiryRows] at ht
    repeat' split at ht
    all_goals first
      | (obtain ⟨_, rfl⟩ := ToolRequestWrite.update.inj (Option.some.inj ht); exact nofun)
      | cases ht
  | rejection =>
    obtain ⟨_, rfl⟩ := ToolRequestWrite.update.inj (Option.some.inj ht)
    exact nofun
  | outcome _ _ _ success =>
    obtain ⟨_, rfl⟩ := ToolRequestWrite.update.inj (Option.some.inj ht)
    cases success <;> exact nofun

theorem Call.Chunks.closing {call : Call} {x : Id} {seq : Nat} {rows : Rows W} (h : call.Chunks x seq rows) :
    rows.Within Txn.Closing fun _ t => t.Closing := by
  cases call with
  | approve | reject =>
    cases h with
    | routine h hr => exact fun q u ht => nomatch hr.symm.trans ht
    | resolution _ h => exact h.closing
  | cancel =>
    cases h with
    | cancelled => exact fun q u ht => nomatch ht
  | _ => exact RuntimeChunk.closing h

theorem Call.Issues.elsewhere {call : Call} {o : Op W.Tables} (h : call.Issues o) : Elsewhere o := by
  rcases o with _ | w | _ | _
  · exact h.outside
  · cases w with
    | commit | commitIf => exact h.anyOp.elim
    | _ => exact h.outside
  · exact h.outside
  · exact h.outside

/-- Every call of the gateway keeps its docket as it should. -/
theorem Call.code_docketing (call : Call) :
    (call.code : Db W CallResult).Obeys docketing (fun _ m => m = none) (fun _ m => m = none) none :=
  call.code_gatewaying (fun _ => Elsewhere.ok) (fun _ r h => h.next r) Call.Issues.elsewhere (fun _ => trivial)
    (fun h => h.closing.mono (fun _ h _ => h) fun _ _ h _ => h) ToolGateway.execute_docketing

end SafeOps
