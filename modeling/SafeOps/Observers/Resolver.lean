import SafeOps.Inventory.Issued

/-! What a call has done towards resolving an approval: the clock readings it holds, the claim it
has won, and whether it has called the tool. -/

namespace SafeOps
open Concurrent Program

variable {W : World}

/-- An update that moved an approval out of `PENDING`, at its caller's clock reading `now`. -/
structure Claim where
  approvalId : Id
  status : ApprovalStatus
  now : Time

structure Resolver where
  readings : List Time := []
  claim : Option Claim := none
  called : Bool := false

/-- A call claims once, at a clock reading of its own; only what it has claimed as `APPROVED` does it
execute, once, and record as `EXECUTED`. -/
def resolving : Monitor W.statements Resolver where
  next m o := match o with
    | .query .clock => fun (now : Time) => { m with readings := now :: m.readings }
    | .write (.claimApproval a status now _) => fun (claimed : Bool) =>
      if claimed then { m with claim := some ⟨a, status, now⟩ } else m
    | .note (.toolExecute call) => fun _ =>
      if call.approvalId.isSome then { m with called := true } else m
    | _ => fun _ => m
  ok m
    | .write (.claimApproval _ _ now _) => m.claim = none ∧ now ∈ m.readings
    | .note (.toolExecute call) => ∀ a, call.approvalId = some a →
      m.called = false ∧ ∃ now, m.claim = some ⟨a, .approved, now⟩
    | .write (.commit _ t) => ∀ a now, t.approval = some (.executed a now) →
      ∃ now, m.claim = some ⟨a, .approved, now⟩
    | _ => True

theorem resolving_readings (m : Resolver) (o : Op W.Tables) (r : o.Reply) :
    m.readings ⊆ (resolving.next m o r).readings := by
  rcases o with q | w | n | _
  · cases q with
    | clock => exact fun _ h => List.mem_cons_of_mem _ h
    | _ => exact fun _ h => h
  · cases w with
    | claimApproval a status now by' => cases (show Bool from r) <;> exact fun _ h => h
    | _ => exact fun _ h => h
  · cases n with
    | toolExecute call =>
      simp only [resolving]
      split <;> exact fun _ h => h
    | _ => exact fun _ h => h
  · exact fun _ h => h

theorem resolving_called {m : Resolver} (hm : m.called = true) (o : Op W.Tables) (r : o.Reply) :
    (resolving.next m o r).called = true := by
  rcases o with q | w | n | _
  · cases q <;> exact hm
  · cases w with
    | claimApproval a status now by' => cases (show Bool from r) <;> exact hm
    | _ => exact hm
  · cases n with
    | toolExecute call =>
      simp only [resolving]
      split
      · rfl
      · exact hm
    | _ => exact hm
  · exact hm

/-- A claim is won once, on an approval then pending, at a reading before its deadline. -/
theorem Effect.claim {s s' : State W.Domain} {o : Op W.Tables} {r : o.Reply} (h : Effect s o r s')
    {m : Resolver} (hok : resolving.ok m o) (hi : Issued o) :
    (resolving.next m o r).claim = m.claim ∨
      m.claim = none ∧ ∃ claim row row', (resolving.next m o r).claim = some claim ∧
        claim.now ∈ m.readings ∧
        (claim.status = .approved ∨ claim.status = .rejected) ∧
        s.approvals claim.approvalId = some row ∧ row.status = .pending ∧
        claim.now < row.expiresAt ∧ s'.approvals claim.approvalId = some row' ∧
        row'.status = claim.status ∧ row'.expiresAt = row.expiresAt := by
  cases h with
  | claimApproval a status now by' row hrow hp hnow =>
    exact .inr ⟨hok.1, ⟨a, status, now⟩, row,
      { row with status := status, resolvedAt := some now, resolvedBy := some by' }, rfl, hok.2, hi,
      hrow, hp, hnow, by simp [State.modifyApproval, hrow], rfl, rfl⟩
  | idle h =>
    left
    cases h with
    | query q => cases q <;> rfl
    | note n =>
      cases n with
      | toolExecute call =>
        simp only [resolving]
        split <;> rfl
      | _ => rfl
    | _ => rfl
  | commit _ hc => cases hc <;> exact .inl rfl
  | _ => exact .inl rfl

theorem resolving_entry (m : Resolver) (e : Statement W) :
    (resolving.next m e.op e.reply).claim = m.claim ∨ ∃ a status now by',
      e = ⟨e.thread, .write (.claimApproval a status now by'), true⟩ ∧
        (resolving.next m e.op e.reply).claim = some ⟨a, status, now⟩ := by
  obtain ⟨i, o, r⟩ := e
  rcases o with q | w | n | _
  · cases q <;> exact .inl rfl
  · cases w with
    | claimApproval a status now by' =>
      rcases (show Bool from r) with _ | _
      · exact .inl rfl
      · exact .inr ⟨a, status, now, by', rfl, rfl⟩
    | _ => exact .inl rfl
  · cases n with
    | toolExecute call =>
      simp only [resolving]
      split <;> exact .inl rfl
    | _ => exact .inl rfl
  · exact .inl rfl

/-- A claim held is one that the history records as won. -/
theorem claim_recorded {h : List (Statement W)} {i : Nat} {claim : Claim}
    (hc : (resolving.after {} i h).claim = some claim) :
    ∃ by', (⟨i, .write (.claimApproval claim.approvalId claim.status claim.now by'), true⟩ :
      Statement W) ∈ h := by
  induction h with
  | nil => cases hc
  | cons e h ih =>
    by_cases hi : e.thread = i
    · subst hi
      rw [Monitor.after_self] at hc
      rcases resolving_entry (resolving.after {} e.thread h) e with hm | ⟨a, status, now, by', he, hm⟩
      · obtain ⟨by', hmem⟩ := ih (hm ▸ hc)
        exact ⟨by', List.mem_cons_of_mem _ hmem⟩
      · obtain rfl := Option.some.inj (hm.symm.trans hc)
        exact ⟨by', List.mem_cons.2 (.inl he.symm)⟩
    · rw [Monitor.after_other hi] at hc
      obtain ⟨by', hmem⟩ := ih hc
      exact ⟨by', List.mem_cons_of_mem _ hmem⟩

theorem reading_entry {m : Resolver} {e : Statement W} {now : Time}
    (h : now ∈ (resolving.next m e.op e.reply).readings) :
    now ∈ m.readings ∨ e = ⟨e.thread, .query .clock, now⟩ := by
  obtain ⟨i, o, r⟩ := e
  rcases o with q | w | n | _
  · cases q with
    | clock =>
      rcases List.mem_cons.1 h with rfl | h
      · exact .inr rfl
      · exact .inl h
    | _ => exact .inl h
  · cases w with
    | claimApproval =>
      simp only [resolving] at h
      split at h <;> exact .inl h
    | _ => exact .inl h
  · cases n with
    | toolExecute call =>
      simp only [resolving] at h
      split at h <;> exact .inl h
    | _ => exact .inl h
  · exact .inl h

/-- A reading held is one that the history records. -/
theorem reading_recorded {h : List (Statement W)} {i : Nat} {now : Time}
    (hr : now ∈ (resolving.after {} i h).readings) :
    (⟨i, .query .clock, now⟩ : Statement W) ∈ h := by
  induction h with
  | nil => cases hr
  | cons e h ih =>
    by_cases hi : e.thread = i
    · subst hi
      rw [Monitor.after_self] at hr
      rcases reading_entry hr with hr | he
      · exact List.mem_cons_of_mem _ (ih hr)
      · exact List.mem_cons.2 (.inl he.symm)
    · rw [Monitor.after_other hi] at hr
      exact List.mem_cons_of_mem _ (ih hr)

/-- The statement is none of those that decide an approval or act on the decision. -/
def Undecided : Op W.Tables → Prop
  | .write (.claimApproval _ _ _ _) => False
  | .note (.toolExecute call) => call.approvalId = none
  | .write (.commit _ t) => ∀ a now, t.approval ≠ some (.executed a now)
  | _ => True

/-- Nothing but clock readings has been added. -/
structure Resolver.Since (before m : Resolver) : Prop where
  readings : before.readings ⊆ m.readings
  claim : m.claim = before.claim
  called : m.called = before.called

theorem Resolver.Since.refl (m : Resolver) : m.Since m := ⟨fun _ h => h, rfl, rfl⟩

theorem Undecided.ok {o : Op W.Tables} (h : Undecided o) (m : Resolver) : resolving.ok m o := by
  rcases o with _ | w | n | _
  · trivial
  · cases w with
    | claimApproval => exact h.elim
    | commit attempt t => exact fun a now ht => absurd ht (h a now)
    | _ => trivial
  · cases n with
    | toolExecute call => exact fun a ha => nomatch (show call.approvalId = none from h).symm.trans ha
    | _ => trivial
  · trivial

theorem Undecided.next {o : Op W.Tables} (h : Undecided o) {before m : Resolver}
    (hm : before.Since m) (r : o.Reply) : before.Since (resolving.next m o r) := by
  rcases o with q | w | n | _
  · cases q with
    | clock => exact ⟨fun t ht => List.mem_cons_of_mem _ (hm.readings ht), hm.claim, hm.called⟩
    | _ => exact hm
  · cases w with
    | claimApproval => exact h.elim
    | _ => exact hm
  · cases n with
    | toolExecute call =>
      have hn : call.approvalId = none := h
      simpa [resolving, hn] using hm
    | _ => exact hm
  · exact hm

theorem Uses.since {ε α : Type} {p : Program W.statements ε α} (h : p.Uses Undecided)
    {before m : Resolver} (hm : before.Since m) :
    p.Obeys resolving (fun _ m => before.Since m) (fun _ m => before.Since m) m :=
  h.keeps (fun m _ ho _ => ho.ok m) (fun _ _ r ho hm => ho.next hm r) hm

theorem RuntimeTxn.undecided {x : Id} {seq : Nat} {t : Txn} (h : RuntimeTxn x seq t)
    (attempt : Attempt) : Undecided (W := W) (.write (.commit attempt t)) := by
  intro a now ht
  rw [h.approval] at ht
  cases ht

theorem ServiceOp.undecided {o : Op W.Tables} (h : ServiceOp o) : Undecided o := by
  rcases o with _ | w | n | _
  · trivial
  · cases w <;> trivial
  · exact h.elim
  · trivial

theorem ToolGateway.execute_undecided (call : GatewayCall) (context : Option Value) :
    (execute call context : Db W GatewayResult).Uses Undecided := by
  refine (execute_built call context).uses (fun o ho => ?_) (fun _ => trivial) fun _ _ _ h =>
    h.within.mono (fun _ h attempt => h.undecided attempt) fun _ _ _ _ => trivial
  rcases o with _ | (_ | _) | n | _
  all_goals first | trivial | cases n <;> exact ho

theorem Assembled.undecided {ε α : Type} {p : Program W.statements ε α}
    (h : Assembled ServiceOp RuntimeChunk p) : p.Uses Undecided :=
  pieces_use h (fun _ => ServiceOp.undecided) (fun _ => trivial) (fun _ _ _ h =>
    h.within.mono (fun _ h attempt => h.undecided attempt) fun _ _ _ _ => trivial)
    fun _ => ToolGateway.execute_undecided

theorem AgentRuntime.cancel_undecided {x : Id} {ε α : Type} {p : Program W.statements ε α}
    (h : Assembled (CancelOp x) CancelChunk p) : p.Uses Undecided := by
  refine pieces_use h (fun o ho => ?_) (fun _ => trivial) (fun _ _ _ h => ?_)
    fun _ => ToolGateway.execute_undecided
  · rcases o with _ | w | _ | _
    · trivial
    · cases w <;> first | exact ho.elim | trivial
    · exact ho.elim
    · trivial
  · cases h with
    | cancelled => exact fun _ a now => nofun

namespace ApprovalEngine

/-- The status a decision claims. -/
def decided (approve : Bool) : ApprovalStatus := if approve then .approved else .rejected

theorem lazyExpire_undecided (a : Id) (approval : ApprovalRequest) (now : Time) :
    (lazyExpire a approval now : Db W ApprovalStatus).Uses Undecided := by
  refine (lazyExpire_built a approval now).uses (fun o ho => ?_) (fun _ => trivial) fun x seq rows h => ?_
  · rcases o with _ | w | _ | _
    · trivial
    · cases w <;> first | exact ho.elim | trivial
    · exact ho.elim
    · trivial
  · cases h with
    | expiry row now toolRequest execution => exact fun _ a now => nofun

/-- The statements that follow a claim, the tool call apart. -/
def Recording (a : Id) : Op W.Tables → Prop
  | .query _ | .tool _ => True
  | .write (.commit _ t) => ∀ b now, t.approval = some (.executed b now) → b = a
  | _ => False

section Claimed

variable {a : Id} {status : ApprovalStatus} {now : Time} {m : Resolver}

theorem Recording.ok {o : Op W.Tables} (h : Recording a o) (hm : m.claim = some ⟨a, .approved, now⟩) :
    resolving.ok m o := by
  rcases o with _ | w | _ | _
  · trivial
  · cases w with
    | commit attempt t => exact fun b at' ht => ⟨now, by rw [hm, h b at' ht]⟩
    | _ => exact h.elim
  · exact h.elim
  · trivial

theorem Recording.next {o : Op W.Tables} (h : Recording a o) (m : Resolver) (r : o.Reply) :
    (resolving.next m o r).claim = m.claim := by
  rcases o with q | w | _ | _
  · cases q <;> rfl
  · cases w <;> first | exact h.elim | rfl
  · exact h.elim
  · rfl

theorem Recording.keeps {ε α : Type} {p : Program W.statements ε α} (h : p.Uses (Recording a))
    (hm : m.claim = some ⟨a, .approved, now⟩) :
    p.Obeys resolving (fun _ m => m.claim = some ⟨a, .approved, now⟩)
      (fun _ m => m.claim = some ⟨a, .approved, now⟩) m :=
  h.keeps (I := fun m => m.claim = some ⟨a, .approved, now⟩) (fun _ _ ho hm => ho.ok hm)
    (fun m _ r ho hm => (ho.next m r).trans hm) hm

theorem finalizeExecutionOutcome_recording (approval : ApprovalRequest) (agentName : String)
    (success : Bool) (error : Option ToolError) (result : Option Value) :
    (finalizeExecutionOutcome a approval agentName success error result :
      Db W ApprovalActionResult).Uses (Recording a) := by
  refine .bind ⟨trivial, fun _ => trivial⟩ fun (completedAt : Time) => .bind ?_ fun _ => trivial
  refine commitChunk_uses trivial fun seq _ b at' ht => ?_
  obtain ⟨rfl, _⟩ := ApprovalWrite.executed.inj (Option.some.inj ht)
  rfl

theorem commitChunk_undecided {x : Id} {build : Nat → Txn}
    (h : ∀ seq a now, (build seq).approval ≠ some (.executed a now)) :
    (commitChunk x build : Db W Unit).Uses Undecided :=
  commitChunk_uses trivial fun seq _ => h seq

/-- The approval has been claimed; more may have happened since. -/
def Holds (a : Id) (status : ApprovalStatus) (now : Time) {α : Type} (_ : α) (m : Resolver) : Prop :=
  m.claim = some ⟨a, status, now⟩

theorem executeApprovedAction_resolving (approval : ApprovalRequest) (agentName : String)
    (hm : m.claim = some ⟨a, .approved, now⟩) (hc : m.called = false) :
    (executeApprovedAction a approval agentName : Db W ApprovalActionResult).Obeys resolving
      (Holds a .approved now) (Holds a .approved now) m := by
  have finish (m : Resolver) (success : Bool) (error : Option ToolError) (result : Option Value)
      (hm : m.claim = some ⟨a, .approved, now⟩) :=
    Recording.keeps (W := W)
      (finalizeExecutionOutcome_recording approval agentName success error result) hm
  refine .bind (Uses.since (commitChunk_undecided (by intro _ _ _ h; cases h)) (.refl m))
    (fun _ m' hs => hs.claim.trans hm) fun _ m' hs => ?_
  have hclaim := hs.claim.trans hm
  split
  · exact finish m' _ _ _ hclaim
  · rename_i tool _
    have called : (callTool tool ⟨approval.executionId, approval.toolRequestId, some a,
        approval.toolName, approval.approvedArguments⟩).Obeys resolving (Holds a .approved now)
        (Holds a .approved now) m' :=
      .call_bind (fun b hb => ⟨hs.called.trans hc, now, Option.some.inj hb ▸ hclaim⟩) fun _ =>
        Recording.keeps (toolExecute_uses tool _ fun _ => trivial) hclaim
    refine .bind (R := Holds a .approved now) (Y := Holds a .approved now)
      (.tryCatch (R := Holds a .approved now) (Y := Holds a .approved now)
        (.bind called (fun _ _ h => h) fun _ _ h => h) (fun _ _ h => h) fun _ _ h => h)
      (fun _ _ h => h) fun outcome m'' h => ?_
    split
    · exact finish m'' _ _ _ h
    · split
      · exact finish m'' _ _ _ h
      · exact finish m'' _ _ _ h

theorem resolveClaimed_resolving (approval : ApprovalRequest) (operator : Operator) (approve : Bool)
    (reason : Option String) (hm : m.claim = some ⟨a, decided approve, now⟩) (hc : m.called = false) :
    (resolveClaimed a approval operator approve reason now : Db W ApprovalActionResult).Obeys resolving
      (Holds a (decided approve) now) (Holds a (decided approve) now) m := by
  refine .call_bind trivial fun (agent : Option Agent) => ?_
  split
  · rename_i happrove
    subst happrove
    exact .bind (Uses.since (commitChunk_undecided (by intro _ _ _ h; cases h)) (.refl m))
      (fun _ m' hs => hs.claim.trans hm) fun _ m' hs =>
        executeApprovedAction_resolving approval _ (hs.claim.trans hm) (hs.called.trans hc)
  · split
    · exact .bind (Uses.since (commitChunk_undecided (by intro _ _ _ h; cases h)) (.refl m))
        (fun _ m' hs => hs.claim.trans hm) fun _ m' hs => hs.claim.trans hm
    · exact hm

end Claimed

/-- The statuses of a call that has decided the approval. -/
def Acted (status : ApprovalActionStatus) : Prop :=
  status ≠ .notFound ∧ status ≠ .alreadyResolved ∧ status ≠ .invalidState

theorem alreadyResolved_not_acted (a : Id) (status : ApprovalStatus) :
    ¬Acted (alreadyResolved a status).status := fun h => h.2.1 rfl

theorem resolve_resolving (a : Id) (operator : Operator) (approve : Bool) (reason : Option String) :
    (resolve a operator approve reason : Db W ApprovalActionResult).Obeys resolving
      (fun result m => Acted result.status → ∃ now, m.claim = some ⟨a, decided approve, now⟩)
      (fun _ _ => True) {} := by
  refine .call_bind trivial fun (approval : Option ApprovalRequest) => ?_
  split
  · exact fun h => absurd rfl h.1
  · rename_i approval
    refine .call_bind trivial fun (now : Time) => ?_
    refine .bind (Uses.since (lazyExpire_undecided a approval now) (.refl { readings := [now] }))
      (fun _ _ _ => trivial) fun status m hs => ?_
    split
    · exact fun h => absurd h (alreadyResolved_not_acted _ _)
    · refine .call_bind trivial fun (toolRequest : Option ToolRequest) =>
        .call_bind trivial fun (execution : Option Execution) => ?_
      split
      · refine .call_bind ⟨hs.claim, hs.readings (by simp)⟩ fun (claimed : Bool) =>
          .call_bind trivial fun (refreshed : Option ApprovalRequest) => ?_
        split
        · rename_i hclaimed
          subst hclaimed
          refine Obeys.mono (@resolveClaimed_resolving W a now _ approval operator approve reason rfl
            hs.called) (fun _ _ h _ => ⟨now, h⟩) fun _ _ _ => trivial
        · exact fun h => absurd h (alreadyResolved_not_acted _ _)
      · exact fun h => absurd rfl h.2.2

end ApprovalEngine

/-- The approval a call is to decide, and how. -/
def Call.decides : Call → Option (Id × ApprovalStatus)
  | approve a _ => some (a, .approved)
  | reject a _ _ => some (a, .rejected)
  | _ => none

/-- The call ended with an answer that only the call that decides an approval gets. -/
def CallResult.Acted : CallResult → Prop
  | approval result => ApprovalEngine.Acted result.status
  | _ => False

theorem Call.code_resolving (call : Call) :
    (call.code : Db W CallResult).Obeys resolving
      (fun result m => ∀ a status, call.decides = some (a, status) → result.Acted →
        ∃ now, m.claim = some ⟨a, status, now⟩) (fun _ _ => True) {} := by
  have neutral (hb : (call.code : Db W CallResult).Uses Undecided) (hd : call.decides = none) :
      (call.code : Db W CallResult).Obeys resolving
        (fun result m => ∀ a status, call.decides = some (a, status) → result.Acted →
          ∃ now, m.claim = some ⟨a, status, now⟩) (fun _ _ => True) {} :=
    (Uses.since hb (.refl _)).mono (fun _ _ _ a status h => by rw [hd] at h; cases h) fun _ _ _ => trivial
  have hb : Assembled call.Issues call.Chunks (call.code : Db W CallResult) := call.code_assembled
  cases call with
  | approve a operator =>
    refine .bind (ApprovalEngine.resolve_resolving a operator true none) (fun _ _ _ => trivial)
      fun result m h b status hd hacted => ?_
    obtain ⟨rfl, rfl⟩ := Prod.mk.inj (Option.some.inj hd)
    exact h hacted
  | reject a operator reason =>
    refine .bind (ApprovalEngine.resolve_resolving a operator false reason) (fun _ _ _ => trivial)
      fun result m h b status hd hacted => ?_
    obtain ⟨rfl, rfl⟩ := Prod.mk.inj (Option.some.inj hd)
    exact h hacted
  | gateway => exact neutral (hb.mono (fun _ h => h.elim) fun _ _ _ h => h).undecided rfl
  | startExecution => exact neutral (hb.mono (fun _ h => RuntimeOp.serviceOp h)
      fun _ _ _ h => h).undecided rfl
  | step | resume | submitExternalAction | reconcileExternalStep =>
    exact neutral (hb.mono (fun _ h => LeaseOp.serviceOp h) fun _ _ _ h => h).undecided rfl
  | submit | getStatus => exact neutral (Assembled.undecided hb) rfl
  | cancel x => exact neutral (AgentRuntime.cancel_undecided hb) rfl

end SafeOps
