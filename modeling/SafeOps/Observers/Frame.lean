import SafeOps.Inventory.Issued

/-! What an open call of the gateway has read, decided and written so far, and what that allows it
to do next. -/

namespace SafeOps
open Concurrent Program

variable {W : World}

/-- An open gateway call: the rows read for its checks, the decisions it has come to, the keys of the
rows it has inserted, and whether it has called the tool. -/
structure Frame where
  call : GatewayCall
  execution : Option Execution := none
  tool : Option Tool := none
  permission : Option PermissionType := none
  policy : Option PolicyAction := none
  risk : Option PolicyAction := none
  request : Option Id := none
  approval : Option Id := none
  called : Bool := false

namespace Frame

def commit (f : Frame) (t : Txn) : Frame :=
  { f with
    request := match t.toolRequest with
      | some (.insert r _) => some r
      | _ => f.request
    approval := match t.approval with
      | some (.insert a _) => some a
      | _ => f.approval }

/-- What the call learns from the answer to one of its statements. -/
def observe (f : Frame) : (o : Op W.Tables) → o.Reply → Frame
  | .query (.execution x) => fun (row : Option Execution) =>
    if x = f.call.executionId then { f with execution := row } else f
  | .query (.tool name) => fun (row : Option (ToolNamed name)) =>
    if name = f.call.toolName then { f with tool := row.map Subtype.val } else f
  | .query (.permission i t) => fun (permission : Option PermissionType) =>
    if i = f.call.agentId ∧ f.tool.map (·.id) = some t then { f with permission } else f
  | .note (.policyEvaluated decision) => fun _ => { f with policy := some decision }
  | .note (.riskAssessed recommended) => fun _ => { f with risk := some recommended }
  | .note (.toolExecute _) => fun _ => { f with called := true }
  | .write (.commit _ t) => fun (outcome : CommitOutcome) =>
    if outcome = .committed then f.commit t else f
  | .write (.commitIf _ _ t) => fun (outcome : GuardedOutcome) =>
    if outcome = .finished .committed then f.commit t else f
  | _ => fun _ => f

/-- The row describes the call. -/
structure Files (f : Frame) (row : ToolRequest) : Prop where
  execution : row.executionId = f.call.executionId
  agent : row.agentId = f.call.agentId
  tool : row.toolName = f.call.toolName
  arguments : row.arguments = f.call.arguments.jsonSafe

/-- The execution that was read belongs to the agent and can accept a tool call. -/
def Live (f : Frame) : Prop :=
  ∃ row, f.execution = some row ∧ row.agentId = f.call.agentId ∧ ¬row.status.Terminal ∧
    row.status ≠ .waitingApproval

/-- Permission and policy together came to `decision`. -/
def Ruled (f : Frame) (decision : PolicyAction) : Prop :=
  f.permission = some .allow ∧ decision = .allow ∨
    f.permission = some .conditional ∧ f.policy = some decision

/-- The checks of the call allow the tool call. -/
structure Admits (f : Frame) (tc : ToolCall) : Prop where
  live : f.Live
  ruled : f.Ruled .allow
  risk : f.risk = some .allow
  request : f.request = some tc.toolRequestId
  execution : tc.executionId = f.call.executionId
  tool : tc.toolName = f.call.toolName
  arguments : tc.arguments = f.call.arguments.jsonSafe
  fresh : f.called = false
  undecided : f.approval = none

/-- The checks of the call leave the decision to a human, who is asked about this very call. -/
structure Escalates (f : Frame) (row : ApprovalRequest) : Prop where
  live : f.Live
  ruled : ∃ decision, f.Ruled decision ∧ decision ≠ .block
  risk : ∃ recommended, f.risk = some recommended ∧ recommended ≠ .block
  request : f.request = some row.toolRequestId
  execution : row.executionId = f.call.executionId
  agent : row.agentId = f.call.agentId
  tool : row.toolName = f.call.toolName
  arguments : row.approvedArguments = f.call.arguments.jsonSafe
  fresh : f.called = false
  undecided : f.approval = none

end Frame

/-- Tool requests and approvals are inserted, and tools called without an approval, only by a gateway
call whose checks came to that; a call that asks for an approval says so. The gateway moves an execution
nowhere but into `WAITING_APPROVAL`. -/
def Framed (m : Option Frame) : Op W.Tables → Prop
  | .note (.toolExecute tc) => tc.approvalId = none → ∃ f, m = some f ∧ f.Admits tc
  | .note (.gatewayReturn status) => ∃ f, m = some f ∧ (status = .requiresApproval ↔ f.approval ≠ none)
  | .write (.commit _ t) => (∀ a row, t.approval ≠ some (.insert a row)) ∧
    ∀ r row, t.toolRequest = some (.insert r row) → ∃ f, m = some f ∧ f.request = none ∧ f.Files row
  | .write (.commitIf _ g t) => (m = none ∨ g = ToolGateway.admitApproval) ∧
    (∀ r row, t.toolRequest ≠ some (.insert r row)) ∧
    ∀ a row, t.approval = some (.insert a row) → ∃ f, m = some f ∧ f.Escalates row
  | .write (.cancel _ _) => m = none
  | _ => True

/-- Follows the gateway call a thread is in. Once it has inserted an approval, it only returns. -/
def framing : Monitor W.statements (Option Frame) where
  next m o := match o with
    | .note (.gatewayEnter call) => fun _ => some { call }
    | .note (.gatewayReturn _) => fun _ => none
    | .note .gatewayRaise => fun _ => none
    | o => fun r => m.map (·.observe o r)
  ok m o := (∀ f, m = some f → f.approval ≠ none → o = .note (.gatewayReturn .requiresApproval)) ∧
    Framed m o

/-- The chunk inserts neither a tool request nor an approval. -/
def Txn.InsertsNothing (t : Txn) : Prop :=
  (∀ r row, t.toolRequest ≠ some (.insert r row)) ∧ ∀ a row, t.approval ≠ some (.insert a row)

theorem Txn.insertsNothing {t : Txn}
    (hr : t.toolRequest = none ∨ ∃ r u, t.toolRequest = some (.update r u))
    (ha : t.approval = none ∨ ∃ a now, t.approval = some (.executed a now)) : t.InsertsNothing := by
  constructor
  · rcases hr with hr | ⟨r, u, hr⟩ <;> simp [hr]
  · rcases ha with ha | ⟨a, now, ha⟩ <;> simp [ha]

theorem Txn.InsertsNothing.commit {t : Txn} (h : t.InsertsNothing) (f : Frame) : f.commit t = f := by
  unfold Frame.commit
  split
  · exact absurd ‹_› (h.1 _ _)
  · split
    · exact absurd ‹_› (h.2 _ _)
    · rfl

/-- What a call may request outside the gateway. -/
def Outside : Op W.Tables → Prop
  | .note (.toolExecute tc) => tc.approvalId ≠ none
  | .note _ => False
  | .write (.commit _ t) | .write (.commitIf _ _ t) => t.InsertsNothing
  | _ => True

/-- What a gateway call may request without learning or deciding anything. -/
def Unframed : Op W.Tables → Prop
  | .query (.execution _) | .query (.tool _) | .query (.permission _ _) => False
  | .query _ | .tool _ | .write .freshId => True
  | .write (.commit _ t) => t.InsertsNothing
  | _ => False

theorem Outside.ok {o : Op W.Tables} (h : Outside o) : framing.ok none o := by
  refine ⟨by simp, ?_⟩
  rcases o with _ | w | n | _
  · trivial
  · cases w with
    | commit => exact ⟨h.2, fun r row ht => absurd ht (h.1 r row)⟩
    | commitIf => exact ⟨.inl rfl, h.1, fun a row ht => absurd ht (h.2 a row)⟩
    | cancel => rfl
    | _ => trivial
  · cases n with
    | toolExecute tc => exact fun hn => absurd hn h
    | _ => exact h.elim
  · trivial

theorem Outside.next {o : Op W.Tables} (h : Outside o) (r : o.Reply) : framing.next none o r = none := by
  rcases o with _ | _ | n | _
  · rfl
  · rfl
  · cases n <;> first | rfl | exact h.elim
  · rfl

theorem framing_ok {f : Frame} (hf : f.approval = none) {o : Op W.Tables} (h : Framed (some f) o) :
    framing.ok (some f) o :=
  ⟨fun _ he ha => absurd (Option.some.inj he ▸ hf) ha, h⟩

theorem Unframed.ok {o : Op W.Tables} (h : Unframed o) {f : Frame} (hf : f.approval = none) :
    framing.ok (some f) o := by
  refine framing_ok hf ?_
  rcases o with _ | w | _ | _
  · trivial
  · cases w with
    | commit => exact ⟨h.2, fun r row ht => absurd ht (h.1 r row)⟩
    | freshId => trivial
    | _ => exact h.elim
  · exact h.elim
  · trivial

theorem Unframed.next {o : Op W.Tables} (h : Unframed o) (f : Frame) (r : o.Reply) :
    framing.next (some f) o r = some f := by
  rcases o with q | w | _ | _
  · cases q <;> first | rfl | exact h.elim
  · cases w with
    | commit =>
      simp only [framing, Option.map_some, Frame.observe, Txn.InsertsNothing.commit h, ite_self]
    | freshId => rfl
    | _ => exact h.elim
  · exact h.elim
  · rfl

/-- The open call is as `f` says. -/
def At (f : Frame) {α : Type} (_ : α) (m : Option Frame) : Prop := m = some f

theorem Uses.unframed {ε α : Type} {p : Program W.statements ε α} (h : p.Uses Unframed) {f : Frame}
    (hf : f.approval = none) : p.Obeys framing (At f) (At f) (some f) :=
  h.keeps (I := (· = some f)) (fun _ _ ho hm => hm ▸ ho.ok hf) (fun _ _ r ho hm => hm ▸ ho.next f r) rfl

/-- The gateway call may still raise. -/
def Unasked (m : Option Frame) : Prop := ∃ f, m = some f ∧ f.approval = none

/-- The gateway call may return `result`. -/
def Settled (result : GatewayResult) (m : Option Frame) : Prop :=
  ∃ f, m = some f ∧ (result.status = .requiresApproval ↔ f.approval ≠ none)

/-- The program ends a gateway call. -/
abbrev Settles (p : Db W GatewayResult) (f : Frame) : Prop :=
  p.Obeys framing Settled (fun _ => Unasked) (some f)

section Rules

variable {f : Frame} (hf : f.approval = none)
include hf

theorem Frame.settled {result : GatewayResult} (h : result.status ≠ .requiresApproval) :
    Settled result (some f) :=
  ⟨f, rfl, by simp [hf, h]⟩

/-- A part of a gateway call that decides nothing, and the rest of the call. -/
theorem Uses.unframed_bind {α : Type} {p : Db W α} {k : α → Db W GatewayResult}
    (h : p.Uses Unframed) (rest : ∀ a, Settles (k a) f) : Settles (p.bind k) f :=
  .bind (Uses.unframed h hf) (fun _ _ hm => ⟨f, hm, hf⟩) fun a _ hm => hm ▸ rest a

theorem commitRound_framing {x : Id} {build : Nat → Nat → Db W (Rows W)} {P : Rows W → Prop}
    {Q : CommitOutcome → Option Frame → Prop} {X : Failure → Option Frame → Prop} {number : Nat}
    (h : ∀ seq, (build number seq).Yields Unframed P) (raises : ∀ e, X e (some f))
    (commits : ∀ attempt rows, P rows → (rows.commit attempt).Obeys framing Q X (some f)) :
    (commitRound x build number).Obeys framing Q X (some f) := by
  refine .call_bind (Unframed.ok (o := .query (.auditSequence x)) trivial hf)
    fun (tail : AuditTail) => ?_
  refine .bind ((h _).keeps (I := (· = some f)) (fun _ _ ho hm => hm ▸ ho.ok hf)
    (fun _ _ r ho hm => hm ▸ ho.next f r) rfl) (fun e _ hm => hm ▸ raises e) ?_
  rintro rows _ ⟨hrows, rfl⟩
  exact commits _ rows hrows

/-- The chunk that files the call's tool request. -/
theorem commitRows_files {x : Id} {build : Nat → Nat → Db W (Rows W)} {r : Id}
    (hr : f.request = none) (h : ∀ number seq, (build number seq).Yields Unframed fun rows =>
      ∃ t row, rows = .plain t ∧ t.toolRequest = some (.insert r row) ∧ t.approval = none ∧
        f.Files row) :
    (commitRows x build).Obeys framing (At { f with request := some r }) (fun _ => Unasked) (some f) := by
  refine commitRows_obeys (· = some f) (· = some { f with request := some r })
    (fun number m hm => ?_) (fun _ hm => ⟨f, hm, hf⟩) rfl
  subst hm
  refine commitRound_framing hf (h number) (fun _ => ⟨f, rfl, hf⟩) fun attempt rows hrows => ?_
  obtain ⟨t, row, rfl, ht, ha, hrow⟩ := hrows
  refine ⟨framing_ok hf ⟨by simp [ha], fun r' row' ht' => ?_⟩, fun (outcome : CommitOutcome) => ?_⟩
  · obtain ⟨rfl, rfl⟩ := ToolRequestWrite.insert.inj (Option.some.inj (ht.symm.trans ht'))
    exact ⟨f, rfl, hr, hrow⟩
  · cases outcome with
    | committed => simp [framing, Frame.observe, Frame.commit, ht, ha]
    | collision => rfl
    | violation => exact ⟨f, rfl, hf⟩

end Rules

theorem commitChunk_unframed {x : Id} {build : Nat → Txn} (h : ∀ seq, (build seq).InsertsNothing) :
    (commitChunk x build : Db W Unit).Uses Unframed :=
  commitChunk_uses trivial fun seq _ => h seq

namespace ToolGateway

theorem txn_insertsNothing (g : Admitted W) (audit : List AuditEvent) (u : Option ToolRequestUpdate) :
    (g.txn audit u).InsertsNothing := by
  cases u with
  | none => exact Txn.insertsNothing (.inl rfl) (.inl rfl)
  | some u => exact Txn.insertsNothing (.inr ⟨_, _, rfl⟩) (.inl rfl)

/-- The open call is the one that `g` describes, its tool not yet called. -/
structure Admitted.Of (g : Admitted W) (f : Frame) : Prop where
  call : g.call = { f.call with arguments := f.call.arguments.jsonSafe }
  live : f.Live
  request : f.request = some g.requestId
  fresh : f.called = false
  unasked : f.approval = none

theorem Admitted.Of.admits {g : Admitted W} {f : Frame} (h : g.Of f) (hr : f.Ruled .allow)
    (hs : f.risk = some .allow) : f.Admits g.toolCall where
  live := h.live
  ruled := hr
  risk := hs
  request := h.request
  execution := by rw [Admitted.toolCall, h.call]
  tool := by rw [Admitted.toolCall, h.call]
  arguments := by rw [Admitted.toolCall, h.call]
  fresh := h.fresh
  undecided := h.unasked

theorem executeAndRecord_framing {g : Admitted W} {f : Frame} (ha : f.Admits g.toolCall)
    (base : GatewayResult) : Settles (executeAndRecord g base) f := by
  have unasked : { f with called := true }.approval = none := ha.undecided
  have called : (callTool g.tool g.toolCall).Obeys framing (At { f with called := true })
      (At { f with called := true }) (some f) :=
    .call_bind (framing_ok ha.undecided fun _ => ⟨f, rfl, ha⟩) fun _ =>
      Uses.unframed (toolExecute_uses _ _ fun _ => trivial) unasked
  have record (rows : Nat → Txn) (hrows : ∀ seq, (rows seq).InsertsNothing) (result : GatewayResult)
      (hs : result.status ≠ .requiresApproval) :
      Settles ((commitChunk g.call.executionId rows).bind fun _ => .ret result : Db W GatewayResult)
        { f with called := true } :=
    Uses.unframed_bind unasked (commitChunk_unframed hrows) fun _ => Frame.settled unasked hs
  refine .bind (R := At { f with called := true }) (Y := At { f with called := true })
    (.tryCatch (R := At { f with called := true }) (Y := At { f with called := true })
      (.bind called (fun _ _ h => h) fun _ _ h => h) (fun _ _ h => h) fun _ _ h => h)
    (fun _ _ h => ⟨_, h, unasked⟩) ?_
  rintro outcome _ rfl
  refine Uses.unframed_bind unasked ⟨trivial, fun _ => trivial⟩ fun (completedAt : Time) => ?_
  cases outcome with
  | none => exact record _ (fun _ => txn_insertsNothing _ _ _) _ nofun
  | some result =>
    simp only
    split
    · exact record _ (fun _ => txn_insertsNothing _ _ _) _ nofun
    · exact record _ (fun _ => txn_insertsNothing _ _ _) _ nofun

theorem finalizeRiskBlock_framing {g : Admitted W} {f : Frame} (hf : f.approval = none)
    (risk : RiskAssessmentResult) (escalated : Bool) (base : GatewayResult) :
    Settles (finalizeRiskBlock g risk escalated base) f := by
  refine Uses.unframed_bind hf (commitRounds_use trivial fun number seq => ?_) fun _ =>
    Frame.settled hf nofun
  refine Yields.bind (P := fun _ => True) ⟨trivial, fun _ => trivial⟩ fun now _ => ?_
  split
  · exact fun attempt => (uses_call _).2 (txn_insertsNothing _ _ _)
  · trivial

/-- The chunk that asks for an approval. -/
theorem commitRows_asks {g : Admitted W} {f : Frame} {row : ApprovalRequest} (h : f.Escalates row)
    (escalated : Bool) (a : Id) (requestedAt : Time) :
    (commitRows g.call.executionId fun _ seq => pure (.guarded admitApproval
      (approvalRows g escalated a row requestedAt seq) (.raise .approvalStateConflict)) : Db W Unit).Obeys
        framing (At { f with approval := some a }) (At f) (some f) := by
  refine commitRows_obeys (· = some f) (· = some { f with approval := some a }) (fun number m hm => ?_)
    (fun _ hm => hm) rfl
  subst hm
  refine commitRound_framing h.undecided (P := fun rows => ∃ seq, rows = .guarded admitApproval
    (approvalRows g escalated a row requestedAt seq) (.raise .approvalStateConflict))
    (fun seq => ⟨seq, rfl⟩) (fun _ => rfl) ?_
  rintro attempt _ ⟨seq, rfl⟩
  refine .call_bind (framing_ok h.undecided ⟨.inr rfl, nofun, fun b row' hb => ?_⟩) fun (outcome : GuardedOutcome) => ?_
  · obtain ⟨_, rfl⟩ := ApprovalWrite.insert.inj (Option.some.inj hb)
    exact ⟨f, rfl, h⟩
  · rcases outcome with _ | (_ | _ | _) <;> rfl

theorem createApprovalAndCommit_framing {g : Admitted W} {f : Frame} (h : g.Of f) (ruling : Ruling)
    (reason : String) (escalated : Bool) (base : GatewayResult)
    (hr : ∃ decision, f.Ruled decision ∧ decision ≠ .block)
    (hs : ∃ recommended, f.risk = some recommended ∧ recommended ≠ .block) :
    Settles (createApprovalAndCommit g ruling reason escalated base) f := by
  refine Uses.unframed_bind h.unasked ⟨trivial, fun _ => trivial⟩ fun (requestedAt : Time) =>
    Uses.unframed_bind h.unasked ⟨trivial, fun _ => trivial⟩ fun (a : Id) =>
      Uses.unframed_bind h.unasked ⟨trivial, fun _ => trivial⟩ fun (now : Time) => ?_
  have escalates : f.Escalates (createApproval g.call.executionId g.call.agentId g.requestId
      ruling.policyDecisionId g.call.toolName g.call.arguments g.toolRow.riskCategory reason now) :=
    ⟨h.live, hr, hs, h.request, by rw [h.call]; rfl, by rw [h.call]; rfl, by rw [h.call]; rfl,
      by rw [h.call]; rfl, h.fresh, h.unasked⟩
  let asked (committed : Bool) (m : Option Frame) : Prop :=
    m = some (if committed then { f with approval := some a } else f)
  refine .bind (R := asked) (Y := At f)
    (.tryCatch (R := asked) (Y := At f)
      (.bind (commitRows_asks escalates escalated a requestedAt) (fun _ _ h => h) fun _ _ h => h)
      (fun _ _ h => h) (by rintro e _ rfl; cases e <;> rfl))
    (fun _ _ h' => ⟨f, h', h.unasked⟩) ?_
  rintro (_ | _) _ rfl
  · exact Frame.settled h.unasked nofun
  · exact ⟨_, rfl, by simp⟩

theorem assessRiskAndFinalize_framing {g : Admitted W} {f : Frame} (h : g.Of f) {ruling : Ruling}
    (hr : f.Ruled ruling.action) : Settles (assessRiskAndFinalize g ruling) f := by
  refine Uses.unframed_bind h.unasked (.tryCatch (assess_uses _ _ _ _ _ trivial trivial)
    fun _ => trivial) fun risk => .call_bind (framing_ok h.unasked trivial) fun _ => ?_
  change Settles _ { f with risk := some risk.recommendedAction }
  have of : g.Of { f with risk := some risk.recommendedAction } :=
    ⟨h.call, h.live, h.request, h.fresh, h.unasked⟩
  refine Uses.unframed_bind of.unasked (commitChunk_unframed fun _ => txn_insertsNothing _ _ _) fun _ => ?_
  simp only
  split
  · exact finalizeRiskBlock_framing of.unasked _ _ _
  · rename_i hd
    obtain ⟨hp, hs⟩ := combineDecisions_eq_requireApproval hd
    exact createApprovalAndCommit_framing of ruling _ _ _ ⟨_, hr, hp⟩ ⟨_, rfl, hs⟩
  · rename_i hd
    obtain ⟨hp, hs⟩ := combineDecisions_eq_allow hd
    exact Uses.unframed_bind of.unasked (commitChunk_unframed fun _ => txn_insertsNothing _ _ _) fun _ =>
      executeAndRecord_framing (of.admits (hp ▸ hr) (congrArg some hs)) _

/-- The open call is `call`, its execution checked and its tool request not yet filed. -/
structure Checked (call : GatewayCall) (f : Frame) : Prop where
  call : call = { f.call with arguments := f.call.arguments.jsonSafe }
  live : f.Live
  request : f.request = none
  fresh : f.called = false
  unasked : f.approval = none

/-- The first chunk of a permitted call files its tool request. -/
theorem permissionRows_framing {g : Admitted W} {f : Frame} (h : Checked g.call f)
    (audit : Nat → List AuditEvent) {k : Unit → Db W GatewayResult}
    (rest : g.Of { f with request := some g.requestId } →
      Settles (k ()) { f with request := some g.requestId }) :
    Settles ((commitChunk g.call.executionId fun seq => permissionRows g (audit seq)).bind k) f := by
  refine .bind (commitRows_files h.unasked h.request (r := g.requestId) fun _ seq => ⟨_, _, rfl, rfl, rfl, ?_⟩)
    (fun _ _ h => h) ?_
  · exact ⟨by rw [pendingRequest, h.call], by rw [pendingRequest, h.call], by rw [pendingRequest, h.call],
      by rw [pendingRequest, h.call]⟩
  · rintro _ _ rfl
    exact rest ⟨h.call, h.live, rfl, h.fresh, h.unasked⟩

theorem policyOutcomeRows_insertsNothing (g : Admitted W) (result : PolicyEvaluationResult)
    (type : AuditEventType) (u : ToolRequestUpdate) (seq : Nat) :
    (policyOutcomeRows g result type u seq).InsertsNothing := by
  unfold policyOutcomeRows
  repeat' split
  all_goals exact txn_insertsNothing _ _ _

theorem handleConditional_framing {g : Admitted W} {f : Frame} (h : Checked g.call f)
    (hp : f.permission = some .conditional) (agent : Agent) : Settles (handleConditional g agent) f := by
  refine permissionRows_framing h (fun seq => [permissionEvent g seq "CONDITIONAL",
    g.event (seq + 1) .policyEvaluationStarted]) fun of => ?_
  refine Uses.unframed_bind of.unasked (.tryCatch (evaluate_uses _ _ _ _ _ trivial trivial)
    fun _ => trivial) fun result => .call_bind (framing_ok of.unasked trivial) fun _ => ?_
  change Settles _ { f with request := some g.requestId, policy := some result.decision }
  have of' : g.Of { f with request := some g.requestId, policy := some result.decision } :=
    ⟨of.call, of.live, rfl, of.fresh, of.unasked⟩
  split
  · refine Uses.unframed_bind of'.unasked (commitRounds_use trivial fun number seq => ?_) fun _ =>
      Frame.settled of'.unasked nofun
    refine Yields.bind (P := fun _ => True) ⟨trivial, fun _ => trivial⟩ fun now _ => ?_
    exact fun attempt => (uses_call _).2 (policyOutcomeRows_insertsNothing _ _ _ _ _)
  · exact Uses.unframed_bind of'.unasked ⟨trivial, fun _ => trivial⟩ fun _ =>
      Uses.unframed_bind of'.unasked
        (commitChunk_unframed fun _ => policyOutcomeRows_insertsNothing _ _ _ _ _) fun _ =>
        assessRiskAndFinalize_framing of' (.inr ⟨hp, rfl⟩)

theorem handleDirectAllow_framing {g : Admitted W} {f : Frame} (h : Checked g.call f)
    (hp : f.permission = some .allow) : Settles (handleDirectAllow g) f :=
  permissionRows_framing h (fun seq => [permissionEvent g seq "ALLOW"]) fun of =>
    Uses.unframed_bind of.unasked ⟨trivial, fun _ => trivial⟩ fun _ =>
      assessRiskAndFinalize_framing of (.inl ⟨hp, rfl⟩)

theorem refuse_framing {call : GatewayCall} {f : Frame} (h : Checked call f) (toolRow : Option Tool)
    (status : ToolRequestStatus) (error : ToolError) (audit : Nat → List AuditEvent)
    {result : GatewayResult} (hs : result.status ≠ .requiresApproval) :
    Settles ((refuse call toolRow status error audit).bind fun _ => .ret result : Db W GatewayResult) f := by
  have filed : (refuse call toolRow status error audit : Db W Unit).Obeys framing (fun _ => Unasked)
      (fun _ => Unasked) (some f) := by
    refine .call_bind (Unframed.ok (o := .write .freshId) trivial h.unasked) fun (r : Id) => ?_
    refine (commitRows_files h.unasked h.request (r := r) fun _ seq => ?_).mono
      (fun _ _ hm => ⟨_, hm, h.unasked⟩) fun _ _ hm => hm
    refine Yields.bind (P := fun _ => True) ⟨trivial, fun _ => trivial⟩ fun now _ => ⟨_, _, rfl, rfl, rfl, ?_⟩
    exact ⟨by rw [h.call], by rw [h.call], by rw [h.call], by rw [h.call]⟩
  refine .bind filed (fun _ _ hm => hm) ?_
  rintro _ _ ⟨f', rfl, hf'⟩
  exact Frame.settled hf' hs

theorem executeAdmitted_framing {call : GatewayCall} {f : Frame} (h : Checked call f)
    (context : Option Value) (agent : Agent) (objective : String) :
    Settles (executeAdmitted call context agent objective : Db W GatewayResult) f := by
  refine Uses.unframed_bind h.unasked (commitChunk_unframed fun _ => Txn.insertsNothing (.inl rfl) (.inl rfl)) fun _ => ?_
  split
  · exact refuse_framing h _ _ _ _ (by simp [failed])
  · rename_i tool _
    refine .call_bind (framing_ok h.unasked trivial) fun (found : Option (ToolNamed call.toolName)) => ?_
    have read : framing.next (some f) (.query (.tool call.toolName) : Op W.Tables) found =
        some { f with tool := found.map Subtype.val } := by simp [framing, Frame.observe, h.call]
    rw [read]
    have h' : Checked call { f with tool := found.map Subtype.val } := ⟨h.call, h.live, h.request, h.fresh, h.unasked⟩
    split
    · exact refuse_framing h' _ _ _ _ (by simp [failed])
    · cases found with
      | none => exact refuse_framing h' _ _ _ _ (by simp)
      | some row =>
        refine .call_bind (framing_ok h'.unasked trivial) fun (permission : Option PermissionType) => ?_
        have read' : framing.next (some { f with tool := some row.1 })
            (.query (.permission call.agentId row.1.id) : Op W.Tables) permission =
              some { f with tool := some row.1, permission } := by
          simp [framing, Frame.observe, h.call]
        rw [Option.map_some, read']
        have h'' : Checked call { f with tool := some row.1, permission } :=
          ⟨h.call, h.live, h.request, h.fresh, h.unasked⟩
        rcases permission with _ | _ | _ | _
        · exact refuse_framing h'' _ _ _ _ (by simp)
        · exact Uses.unframed_bind h''.unasked ⟨trivial, fun _ => trivial⟩ fun _ =>
            handleDirectAllow_framing h'' rfl
        · exact refuse_framing h'' _ _ _ _ (by simp)
        · exact Uses.unframed_bind h''.unasked ⟨trivial, fun _ => trivial⟩ fun _ =>
            handleConditional_framing h'' rfl agent

theorem executeGuarded_framing (call : GatewayCall) (context : Option Value) :
    Settles (executeGuarded call context : Db W GatewayResult) { call } := by
  refine Uses.unframed_bind rfl ⟨trivial, fun _ => trivial⟩ fun (agent : Option Agent) => ?_
  split
  · exact Frame.settled rfl (by simp [failed])
  · refine .call_bind (framing_ok rfl trivial) fun (execution : Option Execution) => ?_
    have read : framing.next (some { call }) (.query (.execution call.executionId) : Op W.Tables) execution =
        some { call, execution } := by simp [framing, Frame.observe]
    rw [read]
    cases execution with
    | none => exact Frame.settled rfl (by simp [failed])
    | some row =>
      simp only
      split
      · exact Frame.settled rfl (by simp [failed])
      · split
        · exact Frame.settled rfl (by simp [failed])
        · split
          · exact Frame.settled rfl (by simp [failed])
          · exact executeAdmitted_framing ⟨rfl, ⟨row, rfl, not_not.1 ‹_›, ‹_›, ‹_›⟩, rfl, rfl, rfl⟩ _ _ _

theorem execute_framing (call : GatewayCall) (context : Option Value) :
    (execute call context : Db W GatewayResult).Obeys framing (fun _ m => m = none)
      (fun _ m => m = none) none := by
  refine .call_bind ⟨by simp, trivial⟩ fun _ => ?_
  change Program.Obeys _ _ _ _ (some ({ call } : Frame))
  refine .bind (R := Settled) (Y := fun _ m => m = none)
    (.tryCatch (executeGuarded_framing call context) (fun _ _ h => h) ?_) (fun _ _ h => h) ?_
  · rintro e _ ⟨f, rfl, hf⟩
    exact .call_bind (framing_ok hf trivial) fun _ => rfl
  · rintro result _ ⟨f, rfl, hs⟩
    refine .call_bind ⟨?_, f, rfl, hs⟩ fun _ => rfl
    rintro _ ⟨⟩ ha
    rw [hs.2 ha]

end ToolGateway

theorem RuntimeChunk.insertsNothing {x : Id} {seq : Nat} {rows : Rows W} (h : RuntimeChunk x seq rows) :
    rows.Within Txn.InsertsNothing fun _ t => t.InsertsNothing := by
  have plain {t : Txn} (hr : t.toolRequest = none) (ha : t.approval = none) : t.InsertsNothing :=
    Txn.insertsNothing (.inl hr) (.inl ha)
  cases h with
  | routine h hr => exact plain hr h.approval
  | started => exact ⟨plain rfl rfl, plain rfl rfl⟩
  | finalized => exact plain rfl rfl
  | terminal =>
    refine ⟨plain rfl rfl, trivial, fun execution => ?_⟩
    cases execution with
    | none => trivial
    | some row => exact plain rfl rfl

theorem ResolutionChunk.insertsNothing {a : Id} {row : ApprovalRequest} {seq : Nat} {t : Txn}
    (h : ResolutionChunk a row seq t) : t.InsertsNothing := by
  cases h with
  | expiry now toolRequest =>
    refine Txn.insertsNothing ?_ (.inl rfl)
    unfold ApprovalEngine.expiryRows
    simp only
    repeat' split
    · exact .inr ⟨_, _, rfl⟩
    · exact .inl rfl
    · exact .inl rfl
  | rejection => exact Txn.insertsNothing (.inr ⟨_, _, rfl⟩) (.inl rfl)
  | outcome => exact Txn.insertsNothing (.inr ⟨_, _, rfl⟩) (.inr ⟨_, _, rfl⟩)

theorem Call.Chunks.insertsNothing {call : Call} {x : Id} {seq : Nat} {rows : Rows W}
    (h : call.Chunks x seq rows) : rows.Within Txn.InsertsNothing fun _ t => t.InsertsNothing := by
  cases call with
  | approve | reject =>
    cases h with
    | routine h hr => exact Txn.insertsNothing (.inl hr) (.inl h.approval)
    | resolution _ h => exact h.insertsNothing
  | cancel =>
    cases h with
    | cancelled => exact Txn.insertsNothing (.inl rfl) (.inl rfl)
  | _ => exact RuntimeChunk.insertsNothing h

theorem ServiceOp.outside {o : Op W.Tables} (h : ServiceOp o) : Outside o := by
  rcases o with _ | w | _ | _
  · trivial
  · cases w <;> trivial
  · exact h.elim
  · trivial

theorem ApprovalOp.outside {a : Id} {approve : Bool} {o : Op W.Tables} (h : ApprovalOp a approve o) :
    Outside o := by
  rcases o with _ | w | n | _
  · trivial
  · cases w <;> trivial
  · cases n with
    | toolExecute tc => exact fun hn => nomatch hn.symm.trans h.1
    | _ => exact h.1.elim
  · trivial

theorem CancelOp.outside {x : Id} {o : Op W.Tables} (h : CancelOp x o) : Outside o := by
  rcases o with _ | w | _ | _
  · trivial
  · cases w <;> trivial
  · exact h.elim
  · trivial

theorem Call.Issues.outside {call : Call} {o : Op W.Tables} (h : call.Issues o) : Outside o := by
  cases call with
  | gateway => exact h.elim
  | approve | reject => exact ApprovalOp.outside h
  | startExecution => exact (RuntimeOp.serviceOp h).outside
  | step | resume | submitExternalAction | reconcileExternalStep => exact (LeaseOp.serviceOp h).outside
  | cancel => exact CancelOp.outside h
  | submit | getStatus => exact ServiceOp.outside h

/-- A monitor that sees nothing of the statements `K` outside the gateway follows every call, if it follows
the gateway. -/
theorem Call.code_gatewaying {β : Type} {M : Monitor W.statements (Option β)} {K : Op W.Tables → Prop}
    (ok : ∀ o, K o → M.ok none o) (next : ∀ o r, K o → M.next none o r = none)
    (issues : ∀ {call : Call} {o}, call.Issues o → K o) (reads : ∀ q, K (.query q))
    (chunks : ∀ {call : Call} {x seq} {rows : Rows W}, call.Chunks x seq rows →
      rows.Within (fun t => ∀ attempt, K (.write (.commit attempt t)))
        fun g t => ∀ attempt, K (.write (.commitIf attempt g t)))
    (gateway : ∀ call context, (ToolGateway.execute call context : Db W GatewayResult).Obeys M
      (fun _ m => m = none) (fun _ m => m = none) none) (call : Call) :
    (call.code : Db W CallResult).Obeys M (fun _ m => m = none) (fun _ m => m = none) none := by
  have outside {ε α : Type} {p : Program W.statements ε α} (h : p.Uses K) :
      p.Obeys M (fun _ m => m = none) (fun _ m => m = none) none :=
    h.keeps (I := (· = none)) (fun _ o ho hm => hm ▸ ok o ho) (fun _ o r ho hm => hm ▸ next o r ho) rfl
  refine Composed.keeps call.code_assembled (I := (· = none)) (fun {_ _ _} h {m} hm => ?_) rfl
  subst hm
  cases h with
  | statements h => exact outside (h.mono fun _ => issues)
  | chunk x build h =>
    refine outside (commitRows_uses (fun o ho => ?_) (reads _) fun attempt seq =>
      (h attempt seq).mono (fun _ h => h) fun rows hrows => chunks hrows)
    cases o with
    | query => exact reads _
    | _ => exact ho.elim
  | gateway _ call context => exact gateway call context

/-- Every call opens and closes its gateway calls, and does what the gateway decides only there. -/
theorem Call.code_framing (call : Call) :
    (call.code : Db W CallResult).Obeys framing (fun _ m => m = none) (fun _ m => m = none) none :=
  call.code_gatewaying (fun _ => Outside.ok) (fun _ r h => h.next r) Call.Issues.outside (fun _ => trivial)
    (fun h => h.insertsNothing.mono (fun _ h _ => h) fun _ _ h _ => h) ToolGateway.execute_framing

end SafeOps
