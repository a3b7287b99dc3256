import SafeOps.Guarantees.Approvals

/-! Where the rows of the tables come from: each goes back to one statement of one call. -/

namespace SafeOps
open Concurrent Program

variable {W : World} {ok : App W → Statement W → Prop} {c d : App W}

/-- The approval has been approved or rejected. -/
def ApprovalRequest.Resolved (row : ApprovalRequest) : Prop :=
  row.status = .approved ∨ row.status = .executed ∨ row.status = .rejected

/-- Thread `i` has taken the approval to what it is, for the operator that it names. -/
def Resolves (history : List (Statement W)) (a : Id) (row : ApprovalRequest) (i : Nat) : Prop :=
  ∃ status now resolvedBy, (⟨i, .write (.claimApproval a status now resolvedBy), true⟩ : Statement W) ∈ history ∧
    row.resolvedBy = some resolvedBy ∧ (row.status = .rejected → status = .rejected) ∧
    (row.status ≠ .rejected → status = .approved)

theorem Resolves.cons {history : List (Statement W)} {a : Id} {row : ApprovalRequest} {i : Nat}
    (h : Resolves history a row i) (e : Statement W) : Resolves (e :: history) a row i := by
  obtain ⟨status, now, resolvedBy, hmem, hrest⟩ := h
  exact ⟨status, now, resolvedBy, List.mem_cons_of_mem _ hmem, hrest⟩

/-- A resolved approval has been claimed by some call, and carries the name it gave. -/
theorem ReachableWithin.resolved (h : ReachableWithin ok c) {a : Id} {row : ApprovalRequest}
    (hrow : c.state.approvals a = some row) (hr : row.Resolved) : ∃ i, Resolves c.history a row i := by
  refine h.invariant (I := fun c => ∀ row, c.state.approvals a = some row → row.Resolved →
    ∃ i, Resolves c.history a row i) ?_ (fun _ _ h => h) ?_ ?_ row hrow hr
  · intro s hs row hrow
    simp [hs.approvals] at hrow
  · exact fun d change h row hrow => h row (by simpa using hrow)
  · intro d i call o k r s hd hw hi _ heff ih row hrow hr
    rw [App.next_state] at hrow
    rw [App.next_history]
    rcases heff.approvals a with he | ⟨row', hchange, he⟩
    · obtain ⟨j, hj⟩ := ih row (he.symm.trans hrow) hr
      exact ⟨j, hj.cons _⟩
    obtain rfl : row' = row := Option.some.inj (he.symm.trans hrow)
    cases hchange with
    | inserted _ hc ht hfree =>
      cases hc with
      | plain attempt t =>
        obtain ⟨_, _, hplain⟩ := hi
        exact absurd ht (hplain.inserts a _)
      | guarded attempt g t =>
        obtain ⟨_, _, hguarded⟩ := hi
        obtain ⟨_, _, hw, hpending, _⟩ := hguarded.inserts ht
        cases hw
        rcases hr with hs | hs | hs <;> cases hpending.symm.trans hs
    | claimed status now by' row₀ hrow₀ hp hlt =>
      refine ⟨i, status, now, by', List.mem_cons_self, rfl, fun h => h, fun h => ?_⟩
      rcases hi with hs | hs
      · exact hs
      · exact absurd hs h
    | expired now row₀ hrow₀ hp => rcases hr with hs | hs | hs <;> cases hs
    | executed now row₀ hc ht hrow₀ =>
      -- what is executed has been approved by this very call
      obtain ⟨at', hclaim⟩ : ∃ at', (d.past resolving {} i).claim = some ⟨a, .approved, at'⟩ := by
        cases hc with
        | plain => exact (hd.monitored Call.code_resolving).allowed hw a now ht
        | guarded =>
          obtain ⟨_, _, hi⟩ := hi
          obtain ⟨_, _, hw, _⟩ := hi.inserts ht
          cases hw
      obtain ⟨_, _, row₁, hrow₁, _, hmoves⟩ := hd.claimsHold.claimed i _ hclaim
      obtain rfl : row₁ = row₀ := Option.some.inj (hrow₁.symm.trans hrow₀)
      have approved := ApprovalStatus.moves_of_approved hmoves
      obtain ⟨j, status, at'', resolvedBy, hmem, hby, _, hstatus⟩ :=
        ih row₁ hrow₀ (approved.elim .inl fun h => .inr (.inl h))
      refine ⟨j, status, at'', resolvedBy, List.mem_cons_of_mem _ hmem, hby, fun h => (by cases h), fun _ => hstatus ?_⟩
      rcases approved with hs | hs <;> rw [hs] <;> decide

/-- Every execution was created by some call, for the agent and with the objective that it still has. -/
theorem ReachableWithin.created (h : ReachableWithin ok c) {x : Id} {row : Execution}
    (hrow : c.state.executions x = some row) : ∃ i opened reply,
      (⟨i, .write (.insertExecution opened), reply⟩ : Statement W) ∈ c.history ∧ opened.opening = row.opening := by
  suffices ∀ opening, c.state.opening x = some opening → ∃ i opened reply,
      (⟨i, .write (.insertExecution opened), reply⟩ : Statement W) ∈ c.history ∧ opened.opening = opening from
    this _ (by rw [State.opening, hrow]; rfl)
  refine h.invariant (I := fun c => ∀ opening, c.state.opening x = some opening → ∃ i opened reply,
    (⟨i, .write (.insertExecution opened), reply⟩ : Statement W) ∈ c.history ∧ opened.opening = opening)
      ?_ (fun _ _ h => h) ?_ ?_
  · intro s hs opening hx
    simp [State.opening, hs.executions] at hx
  · exact fun d change h opening hx => h opening (by simpa [State.opening] using hx)
  · intro d i call o k r s hd hw hi _ heff ih opening hx
    rcases heff.opening x with he | ⟨opened, rfl, _, hrow⟩
    · obtain ⟨j, opened, reply, hmem, hopened⟩ := ih opening (he ▸ hx)
      exact ⟨j, opened, reply, List.mem_cons_of_mem _ hmem, hopened⟩
    · rw [App.next_state, State.opening, hrow] at hx
      exact ⟨i, opened, r, List.mem_cons_self, Option.some.inj hx⟩

/-- Every external request was filed by some call, in the name of its operator. -/
theorem ReachableWithin.filed (h : ReachableWithin ok c) {operatorId : Id} {key : String} {row : ExternalActionRequest}
    (hrow : c.state.externalRequests operatorId key = some row) : ∃ i filed reply,
      (⟨i, .write (.insertExternalRequest filed), reply⟩ : Statement W) ∈ c.history ∧
        filed.operatorId = operatorId ∧ filed.externalRequestId = key := by
  suffices c.state.externalRequests operatorId key ≠ none → ∃ i filed reply,
      (⟨i, .write (.insertExternalRequest filed), reply⟩ : Statement W) ∈ c.history ∧
        filed.operatorId = operatorId ∧ filed.externalRequestId = key from this (by simp [hrow])
  refine h.invariant (I := fun c => c.state.externalRequests operatorId key ≠ none → ∃ i filed reply,
    (⟨i, .write (.insertExternalRequest filed), reply⟩ : Statement W) ∈ c.history ∧
      filed.operatorId = operatorId ∧ filed.externalRequestId = key) ?_ (fun _ _ h => h) ?_ ?_
  · exact fun s hs hn => absurd (hs.externalRequests operatorId key) hn
  · exact fun d change h hn => h (by simpa using hn)
  · intro d i call o k r s hd hw hi _ heff ih hn
    have before (hd : d.state.externalRequests operatorId key ≠ none) : ∃ j filed reply,
        (⟨j, .write (.insertExternalRequest filed), reply⟩ : Statement W) ∈ (App.next d i call o k r s).history ∧
          filed.operatorId = operatorId ∧ filed.externalRequestId = key := by
      obtain ⟨j, filed, reply, hmem, hrest⟩ := ih hd
      exact ⟨j, filed, reply, List.mem_cons_of_mem _ hmem, hrest⟩
    rcases heff.externalRequests operatorId key with he | ⟨filed, rfl, ho, hk, _⟩ | ⟨u, _, he⟩
    · exact before (he ▸ hn)
    · exact ⟨i, filed, r, List.mem_cons_self, ho, hk⟩
    · refine before fun hnone => hn ?_
      rw [App.next_state, he, hnone]
      rfl

end SafeOps
