import SafeOps.Inventory.Issued

/-! The events about the status of an execution: which chunks announce one, which announcement a call
still owes, and what it has read before it reports that an execution had ended already. -/

namespace SafeOps
open Concurrent Program

variable {W : World}

/-- The terminal status that an event announces. -/
def AuditEventType.announces : AuditEventType → Option ExecutionStatus
  | executionCompleted => some .completed
  | executionFailed => some .failed
  | executionBlocked => some .blocked
  | executionCancelled => some .cancelled
  | _ => none

theorem AuditEventType.announces_iff {type : AuditEventType} {s : ExecutionStatus} :
    type.announces = some s ↔ s.terminalEvent = some type := by
  constructor
  · intro h
    unfold announces at h
    split at h <;> cases h <;> rfl
  · intro h
    unfold ExecutionStatus.terminalEvent at h
    split at h <;> cases h <;> rfl

theorem AuditEventType.announces_none {type : AuditEventType} (h : ¬type.AboutStatus) :
    type.announces = none := by
  rcases hs : type.announces with _ | s
  · rfl
  · exact absurd (.inr ⟨s, announces_iff.1 hs⟩) h

/-- The terminal statuses that a log announces, in order. -/
def announced (log : List AuditEvent) : List ExecutionStatus :=
  log.filterMap fun e => e.eventType.announces

@[simp] theorem announced_nil : announced [] = [] := rfl

@[simp] theorem announced_append (log later : List AuditEvent) :
    announced (log ++ later) = announced log ++ announced later :=
  List.filterMap_append

/-- The value under `actual_status`, the last key written into the metadata. -/
def AuditEvent.actualStatus (e : AuditEvent) : Option Value :=
  e.metadata.reverse.lookup "actual_status"

section Chunks

variable {x : Id} {seq : Nat} {t : Txn}

theorem Routine.announced (h : Routine x seq t) : announced t.audit = [] :=
  List.filterMap_eq_nil_iff.2 fun e he => AuditEventType.announces_none (h.silent e he)

theorem RuntimeTxn.announced (h : RuntimeTxn x seq t) : announced t.audit = [] := by
  cases h with
  | routine h => exact h.announced
  | startedLate | alreadyTerminal => rfl
  | finalized f _ ht =>
    simp [SafeOps.announced, AgentRuntime.Finalization.rows, AgentRuntime.event,
      AuditEventType.announces_none ht]

theorem ResolutionChunk.announced {a : Id} {row : ApprovalRequest} (h : ResolutionChunk a row seq t) :
    announced t.audit = [] := by
  cases h with
  | outcome _ _ _ success => cases success <;> rfl
  | _ => rfl

/-- A chunk that moves an execution announces the status it moves it to, if that is terminal. -/
theorem GuardedTxn.announced {g : StatusGuard} (h : GuardedTxn x seq g t) :
    announced t.audit = if g.new.Terminal then [g.new] else [] := by
  cases h with
  | approval _ escalated => cases escalated <;> rfl
  | started => rfl
  | terminal f status _ _ ht =>
    have hs : status.Terminal := by cases status <;> first | decide | cases ht
    simp [SafeOps.announced, AgentRuntime.Finalization.rows, AgentRuntime.event,
      AuditEventType.announces_iff.2 ht, AgentRuntime.terminalGuard, hs]

end Chunks

/-- The chunk announces a cancellation. -/
def Txn.Cancels (t : Txn) : Prop := ExecutionStatus.cancelled ∈ announced t.audit

instance (t : Txn) : Decidable t.Cancels := inferInstanceAs (Decidable (_ ∈ _))

/-- A cancelled execution whose cancellation the call has yet to announce. The call gives up when its
fifth attempt collides. -/
def owing : Monitor W.statements (Option Id) where
  next m o := match o with
    | .write (.cancel x _) => fun (transitioned : Bool) => if transitioned then some x else m
    | .write (.commit attempt t) => fun (outcome : CommitOutcome) =>
      if t.Cancels ∧ (outcome = .collision → attempt.number = 4) then none else m
    | _ => fun _ => m
  ok m
    | .write (.cancel _ _) => m = none
    | .write (.commit _ t) => t.Cancels → m = some t.executionId
    | .write (.commitIf _ _ t) => ¬t.Cancels
    | _ => True

/-- What no call but `cancel` goes beyond. -/
def Uncancelling : Op W.Tables → Prop
  | .write (.cancel _ _) => False
  | .write (.commit _ t) | .write (.commitIf _ _ t) => ¬t.Cancels
  | _ => True

theorem Uncancelling.owing_ok {o : Op W.Tables} (h : Uncancelling o) (m : Option Id) : owing.ok m o := by
  rcases o with _ | w | _ | _
  · trivial
  · cases w with
    | commit => exact fun hc => absurd hc h
    | commitIf => exact h
    | cancel => exact h.elim
    | _ => trivial
  · trivial
  · trivial

theorem Uncancelling.owing_next {o : Op W.Tables} (h : Uncancelling o) (m : Option Id) (r : o.Reply) :
    owing.next m o r = m := by
  rcases o with _ | w | _ | _
  · rfl
  · cases w with
    | commit => exact if_neg fun hc => h hc.1
    | cancel => exact h.elim
    | _ => rfl
  · rfl
  · rfl

theorem uncancelling_of_announced {t : Txn} (h : announced t.audit = []) : ¬t.Cancels := by
  simp [Txn.Cancels, h]

theorem GuardedTxn.uncancelling {x : Id} {seq : Nat} {g : StatusGuard} {t : Txn}
    (h : GuardedTxn x seq g t) : ¬t.Cancels := by
  have hg : g.new ≠ .cancelled := by
    cases h with
    | terminal _ _ _ _ _ hc => exact hc
    | _ => simp [ToolGateway.admitApproval, AgentRuntime.startGuard]
  unfold Txn.Cancels
  rw [h.announced]
  split
  · simpa using hg.symm
  · simp

theorem RuntimeChunk.uncancelling {x : Id} {seq : Nat} {rows : Rows W} (h : RuntimeChunk x seq rows) :
    rows.Within (fun t => ¬t.Cancels) fun _ t => ¬t.Cancels :=
  h.within.mono (fun _ h => uncancelling_of_announced h.announced) fun _ _ => GuardedTxn.uncancelling

theorem ApprovalChunk.uncancelling {a x : Id} {seq : Nat} {rows : Rows W}
    (h : ApprovalChunk a x seq rows) : rows.Within (fun t => ¬t.Cancels) fun _ t => ¬t.Cancels := by
  cases h with
  | routine h => exact uncancelling_of_announced h.announced
  | resolution _ h => exact uncancelling_of_announced h.announced

theorem ToolGateway.execute_uncancelling (call : GatewayCall) (context : Option Value) :
    (execute call context : Db W GatewayResult).Uses Uncancelling := by
  refine (execute_built call context).uses (fun o ho => ?_) (fun _ => trivial) fun x seq rows h =>
    h.within.mono (fun _ h _ => uncancelling_of_announced h.announced) fun _ _ h _ => h.uncancelling
  rcases o with _ | w | _ | _
  · trivial
  · cases w <;> trivial
  · trivial
  · trivial

theorem ServiceOp.uncancelling {o : Op W.Tables} (h : ServiceOp o) : Uncancelling o := by
  rcases o with _ | w | _ | _
  · trivial
  · cases w <;> trivial
  · trivial
  · trivial

theorem ApprovalOp.uncancelling {a : Id} {approve : Bool} {o : Op W.Tables} (h : ApprovalOp a approve o) :
    Uncancelling o := by
  rcases o with _ | w | _ | _
  · trivial
  · cases w <;> trivial
  · trivial
  · trivial

theorem Call.code_uncancelling {call : Call} (hc : ∀ x, call ≠ .cancel x) :
    (call.code : Db W CallResult).Uses Uncancelling := by
  refine pieces_use call.code_assembled (fun o ho => ?_) (fun _ => trivial) (fun x seq rows h => ?_)
    fun _ => ToolGateway.execute_uncancelling
  · cases call with
    | gateway => exact ho.elim
    | approve | reject => exact ApprovalOp.uncancelling ho
    | startExecution => exact (RuntimeOp.serviceOp ho).uncancelling
    | step | resume | submitExternalAction | reconcileExternalStep =>
      exact (LeaseOp.serviceOp ho).uncancelling
    | cancel x => exact absurd rfl (hc x)
    | submit | getStatus => exact ServiceOp.uncancelling ho
  · suffices rows.Within (fun t => ¬t.Cancels) fun _ t => ¬t.Cancels from
      this.mono (fun _ h _ => h) fun _ _ h _ => h
    cases call with
    | approve | reject => exact ApprovalChunk.uncancelling h
    | cancel x => exact absurd rfl (hc x)
    | _ => exact RuntimeChunk.uncancelling h

/-- `cancel` announces what it has cancelled, or gives up after five attempts. -/
theorem AgentRuntime.cancel_owing (x : Id) : (cancel x : Db W RuntimeResult).Obeys owing
    (fun _ m => m = none) (fun _ m => m = none) none := by
  refine .call_bind trivial fun (execution : Option Execution) => ?_
  cases execution with
  | none => rfl
  | some execution =>
    refine .call_bind trivial fun now => .call_bind rfl fun (transitioned : Bool) =>
      .call_bind trivial fun (refreshed : Option Execution) => ?_
    cases transitioned with
    | false => rfl
    | true =>
      refine .bind (R := fun _ m => m = none) (Y := fun _ m => m = none) ?_ (fun _ _ h => h)
        fun _ m hm => .call_bind trivial fun _ => hm
      -- before each round the event is owed, and some suffix of the attempts is left
      refine commitAttempts_obeys
        (fun attempts m => attempts <:+ [0, 1, 2, 3, 4] ∧ m = if attempts = [] then none else some x)
        (fun number later m h => ?_) (fun m h => h.2) ⟨List.suffix_refl _, rfl⟩
      obtain ⟨hsuffix, rfl⟩ := h
      have hlast : later = [] ↔ number = 4 := by
        simp only [List.suffix_cons_iff, List.cons.injEq, List.suffix_nil] at hsuffix
        rcases hsuffix with ⟨rfl, rfl⟩ | ⟨rfl, rfl⟩ | ⟨rfl, rfl⟩ | ⟨rfl, rfl⟩ | ⟨rfl, rfl⟩ | h
        all_goals simp_all
      refine .call_bind trivial fun tail => ⟨fun _ => rfl, fun (outcome : CommitOutcome) => ?_⟩
      have hcancels : (eventRows x .executionCancelled [] (tail.sequence + 1)).Cancels := by
        simp [Txn.Cancels, announced, eventRows, event, AuditEventType.announces]
      cases outcome with
      | committed | violation => simp [owing, hcancels]
      | collision =>
        refine ⟨(List.suffix_cons number later).trans hsuffix, ?_⟩
        simp [owing, hcancels, hlast]

theorem Call.code_owing (call : Call) : (call.code : Db W CallResult).Obeys owing
    (fun _ m => m = none) (fun _ m => m = none) none := by
  by_cases hc : ∃ x, call = .cancel x
  · obtain ⟨x, rfl⟩ := hc
    exact .bind (AgentRuntime.cancel_owing x) (fun _ _ h => h) fun _ _ h => h
  · exact (code_uncancelling fun x hx => hc ⟨x, hx⟩).keeps (fun m _ ho _ => ho.owing_ok m)
      (fun m _ r ho hm => (ho.owing_next m r).trans hm) rfl

/-- A terminal status update that matched no row, and the status that its call has read since. -/
structure LostEnding where
  executionId : Id
  found : Option ExecutionStatus := none

/-- A call reports that an execution had ended already only after its own update was lost, and with the
status it then found. -/
def losing : Monitor W.statements (Option LostEnding) where
  next m o := match o with
    | .write (.commitIf _ g t) => fun (outcome : GuardedOutcome) =>
      if outcome = .guardLost ∧ g.new.Terminal then some { executionId := t.executionId } else m
    | .query (.execution x) => fun (row : Option Execution) => m.map fun lost =>
      if lost.executionId = x then { lost with found := row.map (·.status) } else lost
    | _ => fun _ => m
  ok m
    | .write (.commit _ t) | .write (.commitIf _ _ t) => ∀ e ∈ t.audit,
      e.eventType = .executionStatusAlreadyTerminal →
        ∃ lost s, m = some lost ∧ lost.found = some s ∧ e.actualStatus = some (.str s.value)
    | _ => True

/-- The chunk does not report that an execution had ended already. -/
def Txn.Unrelated (t : Txn) : Prop := ∀ e ∈ t.audit, e.eventType ≠ .executionStatusAlreadyTerminal

theorem AnyOp.losing_ok {o : Op W.Tables} (h : AnyOp o) (m : Option LostEnding) : losing.ok m o := by
  rcases o with _ | w | _ | _
  · trivial
  · cases w <;> trivial
  · trivial
  · trivial

theorem Routine.unrelated {x : Id} {seq : Nat} {t : Txn} (h : Routine x seq t) : t.Unrelated :=
  fun e he hs => h.silent e he (.inl hs)

theorem ResolutionChunk.unrelated {a : Id} {row : ApprovalRequest} {seq : Nat} {t : Txn}
    (h : ResolutionChunk a row seq t) : t.Unrelated := by
  cases h with
  | expiry | rejection =>
    simp [Txn.Unrelated, ApprovalEngine.expiryRows, ApprovalEngine.rejectionRows, ApprovalEngine.event]
  | outcome _ _ _ success =>
    cases success <;> simp [Txn.Unrelated, ApprovalEngine.outcomeRows, ApprovalEngine.event]

theorem GuardedTxn.unrelated {x : Id} {seq : Nat} {g : StatusGuard} {t : Txn}
    (h : GuardedTxn x seq g t) : t.Unrelated := by
  cases h with
  | approval _ escalated =>
    cases escalated <;>
      simp [Txn.Unrelated, ToolGateway.approvalRows, ToolGateway.Admitted.txn, ToolGateway.Admitted.event]
  | started => simp [Txn.Unrelated, AgentRuntime.startedRows]
  | terminal f status _ _ ht =>
    have := AuditEventType.announces_iff.2 ht
    intro e he hs
    obtain rfl := List.mem_singleton.1 he
    rw [show f.eventType = .executionStatusAlreadyTerminal from hs] at this
    cases this

/-- Only a terminal status update that was lost has its chunk report so. -/
theorem Chunk.losing_cases {x : Id} {seq : Nat} {rows : Rows W} (h : Chunk x seq rows) :
    rows.Within Txn.Unrelated (fun _ => Txn.Unrelated) ∨
      ∃ f status completedAt, rows = terminalRows f status completedAt seq ∧ status.Terminal ∧
        (f.rows seq).Unrelated := by
  cases h with
  | gateway h =>
    left
    cases h with
    | routine h => exact h.unrelated
    | approval g escalated a row now hg hx hs hr =>
      have hguarded : GuardedTxn x seq _ _ := .approval g escalated a row now hg hx hs hr
      exact ⟨hguarded.unrelated, trivial⟩
  | runtime h =>
    cases h with
    | routine h => exact .inl h.unrelated
    | started actor objective =>
      have hs : (AgentRuntime.startedRows x actor objective seq).Unrelated :=
        (GuardedTxn.started actor objective).unrelated
      exact .inl ⟨hs, hs⟩
    | finalized f _ ht =>
      refine .inl fun e he hs => ht (.inl ?_)
      obtain rfl := List.mem_singleton.1 he
      exact hs
    | terminal f status now hx ht hc hw hp =>
      have hs : status.Terminal := by cases status <;> first | decide | cases ht
      have hguarded : GuardedTxn x seq _ (f.rows seq) := .terminal f status now hx ht hc hw hp
      exact .inr ⟨f, status, now, rfl, hs, hguarded.unrelated⟩
  | approval h =>
    left
    cases h with
    | routine h => exact h.unrelated
    | resolution _ h => exact h.unrelated
  | cancel h =>
    cases h
    refine .inl fun e he => ?_
    obtain rfl := List.mem_singleton.1 he
    exact nofun

theorem Txn.Unrelated.losing_ok {t : Txn} (h : t.Unrelated) {P : AuditEvent → Prop} :
    ∀ e ∈ t.audit, e.eventType = .executionStatusAlreadyTerminal → P e :=
  fun e he hs => absurd hs (h e he)

theorem commitRound_losing {x : Id} {build : Nat → Nat → Db W (Rows W)}
    (h : ∀ attempt seq, (build attempt seq).Yields IsRead (Chunk x seq)) (number : Nat)
    (m : Option LostEnding) :
    (commitRound x build number).Obeys losing (fun _ _ => True) (fun _ _ => True) m := by
  refine .call_bind trivial fun (tail : AuditTail) => ?_
  refine .bind (((h number _).keeps (I := fun _ => True) (fun m o ho _ => ?_) (fun _ _ _ _ _ => trivial)
    trivial)) (fun _ _ _ => trivial) fun rows m hrows => ?_
  · cases o with
    | query => trivial
    | _ => exact ho.elim
  · rcases hrows.1.losing_cases with hin | ⟨f, status, now, rfl, hs, hf⟩
    · cases rows with
      | plain t => exact ⟨hin.losing_ok, fun _ => trivial⟩
      | guarded g won lost =>
        refine .call_bind hin.1.losing_ok fun (outcome : GuardedOutcome) => ?_
        cases outcome with
        | finished outcome => trivial
        | guardLost =>
          refine .bind (hin.2.keeps (I := fun _ => True) (fun m o ho _ => ?_) (fun _ _ _ _ _ => trivial)
            trivial) (fun _ _ _ => trivial) fun t m ht => ⟨ht.1.losing_ok, fun _ => trivial⟩
          cases o with
          | query => trivial
          | _ => exact ho.elim
    · refine .call_bind hf.losing_ok fun (outcome : GuardedOutcome) => ?_
      cases outcome with
      | finished outcome => trivial
      | guardLost =>
        refine (obeys_bind _ _).2 (.call_bind trivial fun (execution : Option Execution) => ?_)
        cases execution with
        | none => trivial
        | some row =>
          refine ⟨fun e he _ => ?_, fun _ => trivial⟩
          obtain rfl := List.mem_singleton.1 he
          refine ⟨⟨f.executionId, some row.status⟩, row.status, ?_, rfl, ?_⟩
          · simp [losing, hs, AgentRuntime.terminalGuard, AgentRuntime.Finalization.rows]
          · simp [AuditEvent.actualStatus, AgentRuntime.event]

theorem Call.code_losing (call : Call) : (call.code : Db W CallResult).Obeys losing
    (fun _ _ => True) (fun _ _ => True) none := by
  refine call.code_built.keeps (I := fun _ => True) (fun {_ _ _} h {m} _ => ?_) trivial
  cases h with
  | statements h => exact h.keeps (fun m _ ho _ => ho.losing_ok m) (fun _ _ _ _ _ => trivial) trivial
  | chunk x build h =>
    refine commitRows_obeys (fun _ => True) (fun _ => True) (fun number m _ => ?_) (fun _ _ => trivial)
      trivial
    exact (commitRound_losing h number m).mono (fun outcome _ _ => by cases outcome <;> trivial)
      fun _ _ _ => trivial
  | gateway allowed => exact allowed.elim

end SafeOps
