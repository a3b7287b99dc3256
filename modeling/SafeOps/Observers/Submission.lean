import SafeOps.Inventory.Issued

/-! A first submission of a request, followed from the execution it creates to the row that names it. -/

namespace SafeOps
open Concurrent Program

variable {W : World} {ε α : Type}

/-- The transaction announces that an execution has started. -/
def Txn.announcesStart (t : Txn) : Bool := t.audit.any (·.eventType = .executionStarted)

/-- How far a submission has come. -/
inductive Submission
  | idle
  | started (executionId : Id)
  | recorded
  | thwarted
  deriving DecidableEq

namespace Submission

/-- A commit, by which only a submission that has started can fail. -/
def tried (m : Submission) (attempt : Attempt) (outcome : CommitOutcome) : Submission :=
  match m with
  | started x => if attempt.givesUp outcome then thwarted else started x
  | m => m

/-- The row of the request is there, or will not be written by this call. -/
def Closed (m : Submission) : Prop := m = recorded ∨ m = thwarted

theorem Closed.tried {m : Submission} (h : m.Closed) (attempt : Attempt) (outcome : CommitOutcome) :
    (m.tried attempt outcome).Closed := by
  rcases h with rfl | rfl
  · exact .inl rfl
  · exact .inr rfl

theorem Closed.not_started {m : Submission} (h : m.Closed) (x : Id) : m ≠ started x := by
  rcases h with rfl | rfl <;> simp

end Submission

/-- Follows a submission of the request `k` of operator `o`: it creates at most one execution, announces it,
and the row it inserts then names that one. -/
def submitting (o : Id) (k : String) : Monitor W.statements Submission where
  next m op := match op with
    | .write (.insertExecution _) => fun (x : Id) => .started x
    | .write (.insertExternalRequest _) => fun (inserted : Bool) => if inserted then .recorded else .thwarted
    | .write (.commit attempt _) => fun (outcome : CommitOutcome) => m.tried attempt outcome
    | .write (.commitIf attempt _ _) => fun (outcome : GuardedOutcome) =>
      match outcome with
      | .guardLost => m
      | .finished outcome => m.tried attempt outcome
    | .query (.externalRequest o' k') => fun (row : Option ExternalActionRequest) =>
      if m = .idle ∧ row.isSome ∧ o' = o ∧ k' = k then .recorded else m
    | _ => fun _ => m
  ok m op := match op with
    | .write (.insertExecution _) => m = .idle
    | .write (.insertExternalRequest row) =>
      row.operatorId = o ∧ row.externalRequestId = k ∧ m = .started row.executionId
    | .write (.commit _ t) | .write (.commitIf _ _ t) => ∀ x, m = .started x → t.announcesStart
    | _ => True

/-- Neither an execution nor a request is inserted. -/
def Amends : Op W.Tables → Prop
  | .write (.insertExecution _) | .write (.insertExternalRequest _) => False
  | _ => True

section Rules

variable {o : Id} {k : String} {m : Submission}

theorem AmendOp.amends {op : Op W.Tables} (h : AmendOp op) : Amends op := by
  rcases op with _ | w | _ | _
  · trivial
  · cases w <;> first | exact h.elim | trivial
  · trivial
  · trivial

theorem Amending.amends {p : Program W.statements ε α} (h : Amending p) : p.Uses Amends := by
  refine pieces_use h.assembled (fun _ => AmendOp.amends) (fun _ => trivial) (fun x seq rows hrows =>
    (Chunk.runtime hrows).within.mono (fun _ _ _ => trivial) fun _ _ _ _ => trivial) fun _ call context => ?_
  refine (ToolGateway.execute_built call context).uses (fun op hop => ?_) (fun _ => trivial)
    fun _ _ _ h => h.within.mono (fun _ _ _ => trivial) fun _ _ _ _ => trivial
  rcases op with _ | (_ | _) | _ | _ <;> first | exact hop.elim | trivial

theorem Amends.closed {op : Op W.Tables} (h : Amends op) (hm : m.Closed) (r : op.Reply) :
    ((submitting o k).next m op r).Closed := by
  have hidle : m ≠ .idle := by rcases hm with rfl | rfl <;> simp
  rcases op with q | w | n | _
  · cases q with
    | externalRequest o' k' => simpa [submitting, hidle] using hm
    | _ => exact hm
  · cases w with
    | insertExecution | insertExternalRequest => exact h.elim
    | commit attempt t => exact hm.tried attempt _
    | commitIf attempt g t =>
      cases (show GuardedOutcome from r) with
      | guardLost => exact hm
      | finished outcome => exact hm.tried attempt outcome
    | _ => exact hm
  · exact hm
  · exact hm

theorem Amends.allowed {op : Op W.Tables} (h : Amends op) (hm : m.Closed) : (submitting o k).ok m op := by
  rcases op with q | w | n | _
  · trivial
  · cases w with
    | insertExecution | insertExternalRequest => exact h.elim
    | commit | commitIf => exact fun x hx => absurd hx (hm.not_started x)
    | _ => trivial
  · trivial
  · trivial

/-- What follows the insert, or the row that has been found, leaves a submission as it is. -/
theorem Amending.closed {p : Program W.statements ε α} (h : Amending p) (hm : m.Closed) :
    p.Obeys (submitting o k) (fun _ m => m.Closed) (fun _ m => m.Closed) m :=
  h.amends.keeps (I := Submission.Closed)
    (fun _ _ hop hm => hop.allowed hm) (fun _ _ r hop hm => hop.closed hm r) hm

/-- The rounds of the chunk that starts an execution: the last one to collide thwarts the submission. -/
theorem startedRows_submitting (x : Id) (actor objective : String) :
    (commitRows x fun _ seq => pure (.guarded AgentRuntime.startGuard
        (AgentRuntime.startedRows x actor objective seq)
        (pure (AgentRuntime.startedRows x actor objective seq))) : Db W Unit).Obeys (submitting o k)
      (fun _ m => m = .started x) (fun _ m => m = .thwarted) (.started x) := by
  refine commitAttempts_obeys (fun attempts m => attempts <:+ [0, 1, 2, 3, 4] ∧
    m = if attempts = [] then .thwarted else .started x) ?_ (fun m h => h.2) ⟨List.suffix_refl _, rfl⟩
  rintro number later m ⟨hsuffix, rfl⟩
  have rest : later <:+ [0, 1, 2, 3, 4] := (List.suffix_cons number later).trans hsuffix
  have hlast := last_round hsuffix
  refine .call_bind trivial fun (tail : AuditTail) => ?_
  have committed : Submission.tried (.started x) ⟨number, tail.startedAt⟩ .committed = .started x := by
    simp [Submission.tried, Attempt.givesUp]
  have violation : Submission.tried (.started x) ⟨number, tail.startedAt⟩ .violation = .thwarted := by
    simp [Submission.tried, Attempt.givesUp]
  have collision : Submission.tried (.started x) ⟨number, tail.startedAt⟩ .collision =
      if later = [] then .thwarted else .started x := by
    simp [Submission.tried, Attempt.givesUp, hlast]
  refine .call_bind (fun _ _ => rfl) fun (outcome : GuardedOutcome) => ?_
  cases outcome with
  | finished outcome =>
    cases outcome with
    | committed => exact committed
    | violation => exact violation
    | collision => exact ⟨rest, collision⟩
  | guardLost =>
    refine .call_bind (fun _ _ => rfl) fun (outcome : CommitOutcome) => ?_
    cases outcome with
    | committed => exact committed
    | violation => exact violation
    | collision => exact ⟨rest, collision⟩

theorem startExecution_submitting (agentId : Id) (objective : String) (context : Option Value) :
    (AgentRuntime.startExecution agentId objective context : Db W RuntimeResult).Obeys (submitting o k)
      (fun result m => (result.executionId = none ∧ m = .idle) ∨
        ∃ x, result.executionId = some x ∧ m = .started x) (fun _ m => m = .thwarted) .idle := by
  refine .call_bind trivial fun (agent : Option Agent) => ?_
  cases agent with
  | none => exact .inl ⟨rfl, rfl⟩
  | some agent =>
    refine .call_bind rfl fun (x : Id) => .bind (startedRows_submitting x _ _) (fun _ _ h => h) ?_
    rintro _ m rfl
    exact .call_bind trivial fun (execution : Option Execution) => .inr ⟨x, rfl, rfl⟩

theorem requestedExecution_submitting {request : SubmitActionRequest} (h : request.executionId = none) :
    (ExternalActionService.requestedExecution request : Db W Id).Obeys (submitting o k)
      (fun x m => m = .started x) (fun _ m => ∀ x, m ≠ .started x) .idle := by
  unfold ExternalActionService.requestedExecution
  rw [h]
  refine .bind (startExecution_submitting _ _ _) (fun _ m hm x => by simp [hm]) ?_
  rintro result m (⟨hnone, rfl⟩ | ⟨x, hsome, rfl⟩)
  · rw [hnone]
    exact fun x => by simp
  · rw [hsome]
    exact rfl

theorem requireAgentMapping_submitting (operatorId agentId : Id) :
    (ExternalActionService.requireAgentMapping operatorId agentId : Db W Agent).Obeys (submitting o k)
      (fun _ m => m = .idle) (fun _ m => ∀ x, m ≠ .started x) .idle := by
  refine .call_bind trivial fun (agent : Option Agent) => ?_
  cases agent with
  | none => exact fun x => by simp [submitting]
  | some agent =>
    refine .call_bind trivial fun (mapped : Bool) => ?_
    cases mapped
    · exact fun x => by simp [submitting]
    · exact rfl

theorem retry_submitting (existing : ExternalActionRequest) (request : SubmitActionRequest)
    (payloadHash : String) (hm : m.Closed) :
    (ExternalActionService.retry existing request payloadHash : Db W ActionResponse).Obeys (submitting o k)
      (fun _ m => m.Closed) (fun _ m => ∀ x, m ≠ .started x) m :=
  (Amending.closed (ExternalActionService.retry_amending existing request payloadHash) hm).mono
    (fun _ _ h => h) fun _ _ h => h.not_started

/-- A submission that names no execution ends with its request recorded, or before it has created one,
unless it is thwarted. -/
theorem submit_submitting (operatorId : Id) {request : SubmitActionRequest} (h : request.executionId = none) :
    (ExternalActionService.submit operatorId request : Db W ActionResponse).Obeys
      (submitting operatorId request.externalRequestId) (fun _ m => m.Closed) (fun _ m => ∀ x, m ≠ .started x)
      .idle := by
  refine .bind (requireAgentMapping_submitting _ _) (fun _ _ h => h) ?_
  rintro _ m rfl
  refine .call_bind trivial fun (existing : Option ExternalActionRequest) => ?_
  cases existing with
  | some existing => exact retry_submitting existing request _ (.inl (by simp [submitting]))
  | none =>
    refine .bind (requestedExecution_submitting h) (fun _ _ h => h) ?_
    rintro x m hm
    obtain rfl : m = .started x := hm
    refine .call_bind ⟨rfl, rfl, rfl⟩ fun (inserted : Bool) => ?_
    cases inserted with
    | true =>
      refine .bind (Amending.closed (ExternalActionService.emitAudit_amending _ _ (by decide)) (.inl rfl))
        (fun _ _ h => h.not_started) fun _ m hm => ?_
      exact (Amending.closed (ExternalActionService.invokeAndApply_amending _ _ _ _) hm).mono
        (fun _ _ h => h) fun _ _ h => h.not_started
    | false =>
      refine .call_bind trivial fun (existing : Option ExternalActionRequest) => ?_
      cases existing with
      | some existing => exact retry_submitting existing request _ (.inr rfl)
      | none => exact fun x => by simp [submitting]

end Rules

end SafeOps
