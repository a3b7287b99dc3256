import SafeOps.Concurrent.Isolation
import SafeOps.Guarantees.AuditLog
import SafeOps.Guarantees.Stranded
import SafeOps.Observers.Resolver

/-! Nothing is ever stuck: whatever has been left half done, one call by itself ends an execution or settles an
approval. -/

namespace SafeOps
open Concurrent Program

variable {W : World} {s : State W.Domain} {α : Type} {x a : Id}

section Statements

variable {Q : α → State W.Domain → Prop}

theorem query_ends {q : Query} {f : q.Reply → Db W α} {r : q.Reply} (hr : s.answer q = r)
    (h : (f r).Ends W.exec s Q) : ((query q : Db W q.Reply).bind f).Ends W.exec s Q := by
  change (f (s.answer q)).Ends W.exec s Q
  rwa [hr]

theorem write_ends {w : Write} {f : w.Reply → Db W α} {r : w.Reply} {s' : State W.Domain}
    (hw : s.perform w = (r, s')) (h : (f r).Ends W.exec s' Q) : ((write w : Db W w.Reply).bind f).Ends W.exec s Q := by
  change (f (s.perform w).1).Ends W.exec (s.perform w).2 Q
  rwa [hw]

/-- A chunk numbered from the end of a consecutive log on takes no number twice. -/
theorem State.Consecutive.free {t : Txn} (hlog : s.Consecutive t.executionId)
    (hn : t.Numbered ((s.audit t.executionId).length + 1)) : ¬s.Collides t := by
  unfold State.Collides
  rw [not_not, List.map_append, hlog, hn, Nat.add_comm _ 1, List.range'_append_1]
  exact List.nodup_range'

theorem State.Consecutive.applyTxn {t : Txn} {startedAt : Time} (hlog : s.Consecutive t.executionId)
    (hn : t.Numbered ((s.audit t.executionId).length + 1)) : (s.applyTxn startedAt t).Consecutive t.executionId := by
  unfold State.Consecutive
  rw [State.applyTxn_audit, if_pos rfl, List.map_append, hlog, hn, Nat.add_comm _ 1, List.range'_append_1,
    List.length_append]

/-- A chunk that nobody interferes with is committed in the first round. -/
theorem commitRows_ends {build : Nat → Nat → Db W (Rows W)} {f : Unit → Db W α} {t : Txn}
    (hlog : s.Consecutive t.executionId) (hn : t.Numbered ((s.audit t.executionId).length + 1)) (hv : ¬s.Violates t)
    (hbuild : build 0 ((s.audit t.executionId).length + 1) = .ret (.plain t))
    (h : (f ()).Ends W.exec (s.applyTxn s.now t) Q) :
    ((commitRows t.executionId build).bind f).Ends W.exec s Q := by
  rw [← hlog.lastSequence] at hbuild
  have commits : s.perform (.commit ⟨0, s.now⟩ t) = (CommitOutcome.committed, s.applyTxn s.now t) := by
    simp only [State.perform, State.commit, if_neg hv, if_neg (hlog.free hn)]
  refine .bind (R := fun _ s' => s' = s.applyTxn s.now t) (.bind (R := fun outcome s' =>
    outcome = .committed ∧ s' = s.applyTxn s.now t) ?_ ?_) (fun _ _ hs' => hs' ▸ h)
  · refine query_ends (q := .auditSequence t.executionId) rfl ?_
    change ((build 0 (s.lastSequence t.executionId + 1)).bind fun rows => rows.commit ⟨0, s.now⟩).Ends W.exec s _
    rw [hbuild]
    exact ⟨.committed, s.applyTxn s.now t, congrArg (fun p => (Except.ok p.1, p.2)) commits, rfl, rfl⟩
  · rintro _ _ ⟨rfl, rfl⟩
    exact .ret rfl

/-- A chunk that a call builds from its own arguments, and that inserts no row. -/
theorem commitChunk_ends {rows : Nat → Txn} {f : Unit → Db W α} {t : Txn} (hlog : s.Consecutive t.executionId)
    (ht : rows ((s.audit t.executionId).length + 1) = t) (hn : t.Numbered ((s.audit t.executionId).length + 1))
    (hv : ¬s.Violates t) (h : (f ()).Ends W.exec (s.applyTxn s.now t) Q) :
    ((commitChunk t.executionId rows).bind f).Ends W.exec s Q :=
  commitRows_ends hlog hn hv (by rw [ht]; rfl) h

end Statements

/-- The chunk inserts no row. -/
theorem State.not_violates {t : Txn} (hr : ∀ r row, t.toolRequest ≠ some (.insert r row))
    (ha : ∀ b row, t.approval ≠ some (.insert b row)) : ¬s.Violates t := by
  rintro (⟨r, row, h, _⟩ | ⟨b, row, h, _⟩)
  · exact hr r row h
  · exact ha b row h

/-- A call to cancel an execution that runs or waits, with nobody else at work. -/
structure Cancelled (s s' : State W.Domain) (x : Id) (result : RuntimeResult) : Prop where
  answer : result.status = .cancelled
  status : s'.status x = some .cancelled
  log : ∃ e, s'.audit x = s.audit x ++ [e] ∧ e.eventType = .executionCancelled
  others : ∀ y, y ≠ x → s'.executions y = s.executions y ∧ s'.audit y = s.audit y

theorem cancel_ends (hlog : s.Consecutive x) (hx : s.status x = some .running ∨ s.status x = some .waitingApproval) :
    (AgentRuntime.cancel x).Ends W.exec s fun result s' => Cancelled s s' x result := by
  obtain ⟨row, hrow⟩ : ∃ row, s.executions x = some row := by
    rw [← Option.ne_none_iff_exists']
    rintro hnone
    simp [State.status, hnone] at hx
  let s₁ := s.modifyExecution x fun row => { row with status := .cancelled, completedAt := some s.now }
  let t := AgentRuntime.eventRows x .executionCancelled [] ((s.audit x).length + 1)
  refine query_ends hrow <| query_ends (q := .clock) rfl <| write_ends (w := .cancel x s.now)
    (show _ = (true, s₁) from if_pos hx) <| query_ends (q := .execution x) rfl <|
    commitChunk_ends (t := t) hlog rfl rfl (State.not_violates (fun _ _ h => by cases h) fun _ _ h => by cases h) <|
    query_ends (q := .execution x) rfl <| .ret ⟨rfl, ?_, ?_, fun y hy => ⟨?_, ?_⟩⟩
  · simp [s₁, t, AgentRuntime.eventRows, hrow]
  · exact ⟨AgentRuntime.event ((s.audit x).length + 1) .executionCancelled [],
      (State.applyTxn_audit ..).trans (if_pos rfl), rfl⟩
  · simp [s₁, t, AgentRuntime.eventRows, hy]
  · exact (State.applyTxn_audit ..).trans (if_neg hy)

/-- What a decision on the approval `a`, whose row was `row`, leaves behind: the approval has left `PENDING`, its
tool request is closed, and an execution that waited for it runs again. -/
structure Closes (s s' : State W.Domain) (a : Id) (row : ApprovalRequest) (status : ApprovalStatus)
    (closed : ToolRequestStatus) : Prop where
  approval : ∃ row', s'.approvals a = some row' ∧ row'.status = status
  toolRequest : ∃ request, s'.toolRequests row.toolRequestId = some request ∧ request.status = closed
  execution : s'.status row.executionId =
    if s.status row.executionId = some .waitingApproval then some .running else s.status row.executionId

/-- How a decision ends that nobody interferes with. -/
inductive Outcome (s s' : State W.Domain) (a : Id) (row : ApprovalRequest) :
    ApprovalStatus → ApprovalActionStatus → Prop
  | expired {status : ApprovalStatus} : row.expiresAt ≤ s.now → Closes s s' a row .expired .denied →
    Outcome s s' a row status .alreadyResolved
  | rejected : s.now < row.expiresAt → Closes s s' a row .rejected .denied →
    Outcome s s' a row .rejected .rejected
  | executed : s.now < row.expiresAt → Closes s s' a row .executed .executed →
    Outcome s s' a row .approved .executed
  | failed : s.now < row.expiresAt → Closes s s' a row .executed .failed → Outcome s s' a row .approved .failed
  | ended {status : ApprovalStatus} {execution : ExecutionStatus} : s.now < row.expiresAt →
    s.status row.executionId = some execution → execution.Terminal → s' = s → Outcome s s' a row status .invalidState

section Resolve

variable {row : ApprovalRequest} {request : ToolRequest} {execution : Execution}

/-- The rows a pending approval `a` belongs to. -/
structure Pends (s : State W.Domain) (a : Id) (row : ApprovalRequest) (request : ToolRequest)
    (execution : Execution) : Prop where
  approval : s.approvals a = some row
  pending : row.status = .pending
  toolRequest : s.toolRequests row.toolRequestId = some request
  own : request.executionId = row.executionId
  waits : request.status = .requiresApproval
  execution : s.executions row.executionId = some execution
  log : s.Consecutive row.executionId

/-- The state `s₁` is `s` but for what a call does once it has taken `a` out of `PENDING`, until it closes the tool
request. -/
structure Taken (s s₁ : State W.Domain) (a : Id) (row : ApprovalRequest) (status : ApprovalStatus) : Prop where
  approval : ∃ row', s₁.approvals a = some row' ∧ row'.status = status
  toolRequests : s₁.toolRequests = s.toolRequests
  status : s₁.status = s.status
  log : s₁.Consecutive row.executionId

variable {s₁ : State W.Domain} {status : ApprovalStatus} {t : Txn}

/-- A chunk of events. -/
theorem Taken.chunk (h : Taken s s₁ a row status) (hx : t.executionId = row.executionId)
    (hn : t.Numbered ((s₁.audit row.executionId).length + 1)) (hr : t.toolRequest = none) (ha : t.approval = none)
    (hresume : t.resume = false) : Taken s (s₁.applyTxn s₁.now t) a row status where
  approval := by rw [State.applyTxn_approvals, ha]; exact h.approval
  toolRequests := by rw [State.applyTxn_toolRequests, hr]; exact h.toolRequests
  status := funext fun y => by simp [hresume, h.status]
  log := hx ▸ State.Consecutive.applyTxn (hx ▸ h.log) (hx ▸ hn)

/-- The chunk that closes the tool request. -/
theorem Taken.closes (h : Taken s s₁ a row status) {u : ToolRequestUpdate} {final : ApprovalStatus}
    (hx : t.executionId = row.executionId) (hr : t.toolRequest = some (.update row.toolRequestId u))
    (hreq : s.toolRequests row.toolRequestId = some request)
    (happ : ∃ row', (State.writeApproval t.approval s₁).approvals a = some row' ∧ row'.status = final)
    (hresume : t.resume = decide (s.status row.executionId = some .waitingApproval)) :
    Closes s (s₁.applyTxn s₁.now t) a row final u.status where
  approval := by rwa [State.applyTxn_approvals]
  toolRequest := ⟨u.apply request, by simp [hr, State.writeToolRequest, State.modifyToolRequest, h.toolRequests, hreq],
    rfl⟩
  execution := by
    by_cases hwaits : s.status row.executionId = some .waitingApproval
    · simp [hx, hresume, hwaits, h.status]
    · simp [hresume, hwaits, h.status]

/-- Taking an approval out of `PENDING`. -/
theorem Pends.taken (h : Pends s a row request execution) {f : ApprovalRequest → ApprovalRequest}
    (hf : (f row).status = status) : Taken s (s.modifyApproval a f) a row status where
  approval := ⟨f row, by simp [State.modifyApproval, h.approval], hf⟩
  toolRequests := rfl
  status := rfl
  log := h.log

namespace ApprovalEngine

theorem lazyExpire_settles (h : Pends s a row request execution) (hexpires : row.expiresAt ≤ s.now) :
    (lazyExpire a row s.now).Ends W.exec s fun status s' => status = .expired ∧ Closes s s' a row .expired .denied := by
  have live : ¬(row.status ≠ .pending ∨ s.now < row.expiresAt) := by
    simp [h.pending, hexpires]
  let s₁ := s.modifyApproval a fun row => { row with status := .expired, resolvedAt := some s.now }
  have taken : Taken s s₁ a row .expired := h.taken rfl
  let t := expiryRows a row s.now (some request) (some execution) ((s₁.audit row.executionId).length + 1)
  have denies : t.toolRequest = some (.update row.toolRequestId
      (ToolGateway.closed .denied s.now ⟨"APPROVAL_EXPIRED", "Approval request expired"⟩)) :=
    if_pos ⟨h.own, h.waits⟩
  have closes : Closes s (s₁.applyTxn s₁.now t) a row .expired .denied :=
    taken.closes rfl denies h.toolRequest taken.approval (by simp [t, expiryRows, State.status, h.execution])
  obtain ⟨row', hrow', hstatus⟩ := closes.approval
  have expires : s.perform (.expireApproval a s.now) = (true, s₁) := by
    simp only [State.perform, State.expireApproval, h.approval, if_pos h.pending, s₁]
  rw [lazyExpire, if_neg live]
  refine write_ends expires <| query_ends rfl <| query_ends h.toolRequest <| query_ends h.execution <|
    commitRows_ends (t := t) taken.log rfl ?_ rfl <| query_ends hrow' <| .ret ⟨hstatus, closes⟩
  · exact State.not_violates (fun _ _ hr => by cases denies.symm.trans hr) fun _ _ ha => by cases ha

theorem finalizeExecutionOutcome_settles (h : Pends s a row request execution) (hs : Taken s s₁ a row .approved)
    (hwaits : s.status row.executionId = some .waitingApproval) (agentName : String) (success : Bool)
    (error : Option ToolError) (result : Option Value) :
    (finalizeExecutionOutcome a row agentName success error result).Ends W.exec s₁ fun answer s' =>
      answer.status = (if success then .executed else .failed) ∧
        Closes s s' a row .executed (if success then .executed else .failed) := by
  let t := outcomeRows a row agentName result error success s₁.now ((s₁.audit row.executionId).length + 1)
  have settled : ∃ row', (State.writeApproval t.approval s₁).approvals a = some row' ∧ row'.status = .executed := by
    obtain ⟨row', hrow', _⟩ := hs.approval
    exact ⟨{ row' with status := .executed, executedAt := some s₁.now },
      by simp [t, outcomeRows, State.writeApproval, State.modifyApproval, hrow'], rfl⟩
  exact query_ends (q := .clock) rfl <| commitChunk_ends (t := t) hs.log rfl rfl
    (State.not_violates (fun _ _ h => by cases h) fun _ _ h => by cases h) <|
    .ret ⟨rfl, hs.closes rfl rfl h.toolRequest settled (decide_eq_true hwaits).symm⟩

theorem executeApprovedAction_settles (h : Pends s a row request execution) (hs : Taken s s₁ a row .approved)
    (hwaits : s.status row.executionId = some .waitingApproval) (agentName : String) :
    (executeApprovedAction a row agentName : Db W ApprovalActionResult).Ends W.exec s₁ fun answer s' =>
      ∃ success : Bool, answer.status = (if success then .executed else .failed) ∧
        Closes s s' a row .executed (if success then .executed else .failed) := by
  have finalizes {s₂ : State W.Domain} (hs : Taken s s₂ a row .approved) (success : Bool) (error : Option ToolError)
      (result : Option Value) : (finalizeExecutionOutcome a row agentName success error result).Ends W.exec s₂
        fun answer s' => ∃ success : Bool, answer.status = (if success then .executed else .failed) ∧
          Closes s s' a row .executed (if success then .executed else .failed) :=
    (finalizeExecutionOutcome_settles h hs hwaits agentName success error result).mono fun _ _ h => ⟨success, h⟩
  let t : Txn := { executionId := row.executionId, audit := [event ((s₁.audit row.executionId).length + 1)
    .approvedActionExecutionStarted agentName [("tool_name", .str row.toolName)]] }
  unfold executeApprovedAction
  refine commitChunk_ends (t := t) hs.log rfl rfl
    (State.not_violates (fun _ _ h => by cases h) fun _ _ h => by cases h) ?_
  have started : Taken s (s₁.applyTxn s₁.now t) a row .approved := hs.chunk rfl rfl rfl rfl rfl
  cases W.registry row.toolName with
  | none => exact finalizes started _ _ _
  | some tool =>
    refine .bind (R := fun _ s₂ => Taken s s₂ a row .approved) (.tryCatch
      (K := fun o => ∀ s : State W.Domain, ∃ domain, (W.exec o s).2 = { s with domain := domain })
      (.bind (callTool_uses tool _ (fun s => ⟨s.domain, rfl⟩) fun o s => ⟨_, rfl⟩) fun _ => trivial)
      (fun o s₂ hk hs => ?_) started (fun _ _ hs => hs) fun _ _ hs => .ret hs) ?_
    · obtain ⟨domain, hdomain⟩ := hk s₂
      rw [hdomain]
      exact ⟨hs.approval, hs.toolRequests, hs.status, hs.log⟩
    · rintro (_ | result) s₂ hs
      · exact finalizes hs _ _ _
      · dsimp only
        split <;> exact finalizes hs _ _ _

/-- The message of a rejection is storable when the reason given for it is. -/
theorem storable_rejectionMessage {reason : Option String} (h : ∀ text, reason = some text → Storable text) :
    Storable (rejectionMessage reason) := by
  cases reason with
  | none => decide
  | some text =>
    unfold rejectionMessage
    dsimp only
    split
    · decide
    · exact h text rfl

theorem resolveClaimed_settles (h : Pends s a row request execution) (hlive : s.now < row.expiresAt) {approving : Bool}
    (hs : Taken s s₁ a row (if approving then .approved else .rejected))
    (hwaits : s.status row.executionId = some .waitingApproval) (operator : Operator) {reason : Option String}
    (hreason : approving = true ∨ ∀ text, reason = some text → Storable text) (now : Time) :
    (resolveClaimed a row operator approving reason now : Db W ApprovalActionResult).Ends W.exec s₁
      fun answer s' => Outcome s s' a row (if approving then .approved else .rejected) answer.status := by
  refine query_ends (q := .agent row.agentId) rfl ?_
  cases approving with
  | true =>
    rw [if_pos rfl] at hs ⊢
    let t : Txn := { executionId := row.executionId, audit := [event ((s₁.audit row.executionId).length + 1)
      .approvalApproved operator.username [("approval_id", .id a), ("tool_name", .str row.toolName),
        ("actor_type", .str "operator"), ("actor_id", .id operator.id)]] }
    refine commitChunk_ends (t := t) hs.log rfl rfl
      (State.not_violates (fun _ _ h => by cases h) fun _ _ h => by cases h) ?_
    refine (executeApprovedAction_settles h (hs.chunk (t := t) rfl rfl rfl rfl rfl) hwaits _).mono ?_
    rintro answer s' ⟨_ | _, hanswer, hcloses⟩
    · exact hanswer ▸ .failed hlive hcloses
    · exact hanswer ▸ .executed hlive hcloses
  | false =>
    rw [if_neg Bool.false_ne_true] at hs ⊢
    rw [if_pos (storable_rejectionMessage (hreason.resolve_left Bool.false_ne_true))]
    refine commitChunk_ends (t := rejectionRows a row operator now _ ((s₁.audit row.executionId).length + 1)) hs.log rfl
      rfl (State.not_violates (fun _ _ h => by cases h) fun _ _ h => by cases h) (.ret (.rejected hlive ?_))
    exact hs.closes (t := rejectionRows a row operator now _ ((s₁.audit row.executionId).length + 1)) rfl rfl
      h.toolRequest hs.approval (decide_eq_true hwaits).symm

theorem resolve_settles (h : Pends s a row request execution)
    (hor : s.status row.executionId = some .waitingApproval ∨ execution.status.Terminal) (operator : Operator)
    {approving : Bool} {reason : Option String}
    (hreason : approving = true ∨ ∀ text, reason = some text → Storable text) :
    (resolve a operator approving reason).Ends W.exec s fun answer s' =>
      Outcome s s' a row (if approving then .approved else .rejected) answer.status := by
  refine query_ends h.approval <| query_ends (q := .clock) rfl ?_
  by_cases hexpires : row.expiresAt ≤ s.now
  · refine (lazyExpire_settles h hexpires).bind ?_
    rintro _ s' ⟨rfl, hcloses⟩
    exact .ret (.expired hexpires hcloses)
  have hlive : s.now < row.expiresAt := Nat.not_le.1 hexpires
  have live : (lazyExpire a row s.now : Db W ApprovalStatus) = .ret .pending := by
    rw [lazyExpire, if_pos (.inr hlive), h.pending]
    rfl
  refine .bind (R := fun status s' => status = .pending ∧ s' = s) (live ▸ .ret ⟨rfl, rfl⟩) ?_
  rintro _ s₁ ⟨rfl, hsame⟩
  subst s₁
  refine query_ends h.toolRequest <| query_ends h.execution ?_
  by_cases hwaits : execution.status = .waitingApproval
  · have able : approvable row (some request) (some execution) = true :=
      approvable_iff.2 ⟨_, _, rfl, rfl, h.waits, hwaits, h.own⟩
    have taken := h.taken (f := fun row => { row with
      status := if approving then .approved else .rejected
      resolvedAt := some s.now
      resolvedBy := some operator.username }) rfl
    rw [if_pos able]
    refine write_ends (w := .claimApproval a (if approving then .approved else .rejected) s.now operator.username)
      (r := true) ?_ <| query_ends rfl <| resolveClaimed_settles h hlive taken ?_ operator hreason s.now
    · simp only [State.perform, State.claimApproval, h.approval, if_pos (And.intro h.pending hlive)]
    · simp [State.status, h.execution, hwaits]
  · have unable : ¬approvable row (some request) (some execution) = true := fun hable => by
      obtain ⟨_, _, hr, he, _, hw, _⟩ := approvable_iff.1 hable
      cases he
      exact hwaits hw
    rw [if_neg unable]
    have hstatus : s.status row.executionId = some execution.status := by simp [State.status, h.execution]
    exact .ret (.ended hlive hstatus (hor.resolve_left (by simp [hstatus, hwaits])) rfl)

end ApprovalEngine

end Resolve

section Calls

variable {ok : App W → Statement W → Prop} {c : App W} {row : ApprovalRequest}

/-- A pending approval and the rows it belongs to. -/
theorem ReachableWithin.pends (h : ReachableWithin ok c) (ha : c.state.approvals a = some row)
    (hp : row.status = .pending) : ∃ request execution, Pends c.state a row request execution ∧
      (c.state.status row.executionId = some .waitingApproval ∨ execution.status.Terminal) := by
  obtain ⟨request, hrequest, hown, hwaits⟩ := h.requestsAgree.asked a row ha
  obtain ⟨status, hstatus, hor⟩ := h.approvalsAgree.waits row.executionId a ⟨row, ha, rfl, .inl hp⟩
  obtain ⟨execution, hexecution, rfl⟩ := Option.map_eq_some_iff.1 hstatus
  exact ⟨request, execution, ⟨ha, hp, hrequest, hown, hwaits hp, hexecution, h.logsConsecutive.log _⟩,
    hor.imp_left fun hw => hstatus.trans (congrArg some hw)⟩

theorem App.uninterrupted {call : Call} {Q : CallResult → State W.Domain → Prop}
    (h : (call.code : Db W CallResult).Ends W.exec c.state Q) :
    ∃ answer d, c.Uninterrupted W.system call answer d ∧ Q answer d.state :=
  Ends.uninterrupted _ _ h

/-- A reason that the call gives for a rejection is text that the database holds. -/
def Call.Sayable (call : Call) : Prop :=
  ∀ a operator text, call = .reject a operator (some text) → ApprovalEngine.Storable text

/-- At every moment of every run, whatever other calls have left half done: an execution that runs or waits can be
cancelled, and a pending approval can be decided, each by one call that is run to its end. -/
theorem never_stuck {c : App W} (h : Reachable c) :
    (∀ x, c.state.status x = some .running ∨ c.state.status x = some .waitingApproval →
      ∃ result d, c.Uninterrupted W.system (.cancel x) (.runtime result) d ∧ Cancelled c.state d.state x result) ∧
    ∀ a row call status, c.state.approvals a = some row → row.status = .pending → call.decides = some (a, status) →
      call.Sayable → ∃ result d, c.Uninterrupted W.system call (.approval result) d ∧
        Outcome c.state d.state a row status result.status := by
  constructor
  · intro x hx
    have ends : (Call.code (.cancel x) : Db W CallResult).Ends W.exec c.state fun answer s' =>
        ∃ result, answer = .runtime result ∧ Cancelled c.state s' x result :=
      (cancel_ends (h.logsConsecutive.log x) hx).bind fun result s' hs' => .ret ⟨result, rfl, hs'⟩
    obtain ⟨_, d, hrun, result, rfl, hcancelled⟩ := App.uninterrupted ends
    exact ⟨result, d, hrun, hcancelled⟩
  · intro a row call status ha hp hdecides hsayable
    obtain ⟨request, execution, hpends, hor⟩ := h.pends ha hp
    have ends : (call.code : Db W CallResult).Ends W.exec c.state fun answer s' =>
        ∃ result, answer = .approval result ∧ Outcome c.state s' a row status result.status := by
      cases call with
      | approve b operator =>
        obtain ⟨rfl, rfl⟩ := Prod.mk.inj (Option.some.inj hdecides)
        exact (ApprovalEngine.resolve_settles hpends hor operator (.inl rfl)).bind
          fun result s' hs' => .ret ⟨result, rfl, hs'⟩
      | reject b operator reason =>
        obtain ⟨rfl, rfl⟩ := Prod.mk.inj (Option.some.inj hdecides)
        exact (ApprovalEngine.resolve_settles hpends hor operator (.inr fun text htext =>
          hsayable _ _ text (by rw [htext]))).bind fun result s' hs' => .ret ⟨result, rfl, hs'⟩
      | _ => cases hdecides
    obtain ⟨_, d, hrun, result, rfl, houtcome⟩ := App.uninterrupted ends
    exact ⟨result, d, hrun, houtcome⟩

/-- The execution that a crashed rejection has stranded can still be cancelled, and the approval that a gateway call
has just asked for can be rejected. -/
theorem never_stuck_stranded :
    (∃ result d, afterColliding.Uninterrupted bench.system (.cancel 0) (.runtime result) d ∧
      Cancelled afterColliding.state d.state 0 result) ∧
    ∃ row result d, (afterMoves .requireApproval (startMoves ++ gatewayMoves 27)).state.approvals 3 = some row ∧
      (afterMoves .requireApproval (startMoves ++ gatewayMoves 27)).Uninterrupted bench.system
        (.reject 3 ⟨7, "operator"⟩ (some "no such payment")) (.approval result) d ∧
      Outcome (afterMoves .requireApproval (startMoves ++ gatewayMoves 27)).state d.state 3 row .rejected
        result.status := by
  refine ⟨(never_stuck afterColliding_reachable).1 0 (.inr (by decide +kernel)), ?_⟩
  have hpending : ((afterMoves .requireApproval (startMoves ++ gatewayMoves 27)).state.approvals 3).map (·.status) =
      some .pending := by decide +kernel
  obtain ⟨row, hrow, hstatus⟩ := Option.map_eq_some_iff.1 hpending
  have hsayable : (Call.reject 3 ⟨7, "operator"⟩ (some "no such payment")).Sayable := by
    rintro _ _ _ ⟨⟩
    decide
  obtain ⟨result, d, hrun, houtcome⟩ :=
    (never_stuck (afterMoves_reachable _ _)).2 3 row (.reject 3 ⟨7, "operator"⟩ (some "no such payment")) .rejected
      hrow hstatus rfl hsayable
  exact ⟨row, result, d, hrow, hrun, houtcome⟩

end Calls

end SafeOps
