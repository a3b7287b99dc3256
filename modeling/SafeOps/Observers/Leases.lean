import SafeOps.Concurrent.Lease
import SafeOps.Inventory.Issued

/-! The lease of an execution: what its columns record, what every statement makes of it, and what
the calls read before they claim it. -/

namespace SafeOps
open Concurrent Program

variable {W : World}

/-- The lease that a row records. -/
def Execution.lease (row : Execution) : Lease Id :=
  match row.steppingClaimId, row.steppingClaimedAt with
  | some claimId, some claimedAt => some (claimId, claimedAt)
  | _, _ => none

/-- The three columns of the lease agree on whether it is held. -/
structure Execution.LeaseAgrees (row : Execution) : Prop where
  claimId : row.stepping = true ↔ row.steppingClaimId ≠ none
  claimedAt : row.steppingClaimId ≠ none ↔ row.steppingClaimedAt ≠ none

theorem NewExecution.leaseAgrees {row : Execution} (h : NewExecution row) : row.LeaseAgrees :=
  ⟨by simp [h.stepping, h.claimId], by simp [h.claimId, h.claimedAt]⟩

theorem NewExecution.lease {row : Execution} (h : NewExecution row) : row.lease = none := by
  simp [Execution.lease, h.claimId]

theorem Execution.LeaseAgrees.free {row : Execution} (h : row.LeaseAgrees) {now ttl : Time}
    (hfree : row.leaseFree now ttl = true) : row.lease.Free ttl now := by
  intro holder hl
  unfold Execution.lease at hl
  split at hl
  · rename_i c t hc ht
    obtain rfl := Option.some.inj hl
    have held : row.stepping = true := h.claimId.2 (by simp [hc])
    simpa [Execution.leaseFree, held, ht] using hfree
  · cases hl

/-- The key of the lease is the claim id. -/
theorem Execution.LeaseAgrees.key_iff {row : Execution} (h : row.LeaseAgrees) (c : Id) :
    (∃ holder ∈ row.lease, holder.1 = c) ↔ row.steppingClaimId = some c := by
  unfold Execution.lease
  constructor
  · rintro ⟨holder, hl, rfl⟩
    split at hl
    · rename_i hc ht
      obtain rfl := Option.some.inj hl
      exact hc
    · cases hl
  · intro hc
    obtain ⟨t, ht⟩ := Option.ne_none_iff_exists'.1 (h.claimedAt.1 (by simp [hc]))
    exact ⟨(c, t), by simp [hc, ht], rfl⟩

/-- The columns of the lease. -/
def Execution.leaseColumns (row : Execution) : Bool × Option Id × Option Time :=
  (row.stepping, row.steppingClaimId, row.steppingClaimedAt)

theorem Execution.lease_congr {row row' : Execution} (h : row'.leaseColumns = row.leaseColumns) :
    row'.lease = row.lease := by
  simp only [leaseColumns, Prod.mk.injEq] at h
  simp only [lease, h.2.1, h.2.2]

theorem Execution.LeaseAgrees.congr {row row' : Execution} (h : row'.leaseColumns = row.leaseColumns)
    (hr : row.LeaseAgrees) : row'.LeaseAgrees := by
  simp only [leaseColumns, Prod.mk.injEq] at h
  exact ⟨by rw [h.1, h.2.1]; exact hr.claimId, by rw [h.2.1, h.2.2]; exact hr.claimedAt⟩

/-- What a statement and its reply mean for the lease of execution `x`. -/
def leaseEvent (x : Id) : (o : Op W.Tables) → o.Reply → Option (Lease.Event Id)
  | .write (.claimStepping y claimId now _), claimed =>
    if y = x ∧ claimed = true then some (.taken claimId now) else none
  | .write (.releaseStepping y claimId), _ => if y = x then some (.released claimId) else none
  | _, _ => none

/-- What a statement makes of the lease columns of an execution that is there already. -/
inductive LeaseChange (x : Id) (row row' : Execution) : (o : Op W.Tables) → o.Reply → Prop
  | kept {o : Op W.Tables} {r : o.Reply} : leaseEvent x o r = none →
      row'.leaseColumns = row.leaseColumns → LeaseChange x row row' o r
  | claimed (c : Id) (now ttl : Time) : row.leaseFree now ttl = true →
      row'.leaseColumns = (true, some c, some now) →
      LeaseChange x row row' (.write (.claimStepping x c now ttl)) true
  | released (c : Id) : row.steppingClaimId = some c → row'.leaseColumns = (false, none, none) →
      LeaseChange x row row' (.write (.releaseStepping x c)) ()
  | stray (c : Id) : row.steppingClaimId ≠ some c → row' = row →
      LeaseChange x row row' (.write (.releaseStepping x c)) ()

section Effects

variable {s s' : State W.Domain} {o : Op W.Tables} {r : o.Reply} {x : Id}

/-- The lease is changed by claims and releases only. -/
theorem Effect.leaseChange (h : Effect s o r s') {row' : Execution} (h' : s'.executions x = some row') :
    (∃ row, s.executions x = some row ∧ LeaseChange x row row' o r) ∨
      (x = s.nextId ∧ o = .write (.insertExecution row')) := by
  have kept : leaseEvent x o r = none → s'.executions x = s.executions x →
      (∃ row, s.executions x = some row ∧ LeaseChange x row row' o r) ∨
        (x = s.nextId ∧ o = .write (.insertExecution row')) := fun he hx =>
    .inl ⟨row', hx ▸ h', .kept he rfl⟩
  cases h with
  | idle hi => exact kept (by cases hi <;> simp [leaseEvent]) rfl
  | tool | freshId | claimApproval | expireApproval | insertStep | saveStep | updateExternalRequest =>
    exact kept rfl rfl
  | insertExternalRequest row =>
    refine kept rfl ?_
    unfold State.insertExternalRequest
    split <;> rfl
  | insertExecution row =>
    by_cases hx : x = s.nextId
    · subst hx
      obtain rfl : row = row' := by simpa using h'
      exact .inr ⟨rfl, rfl⟩
    · exact kept rfl (by simp [Function.update_of_ne hx])
  | @commit o r g t startedAt hc hcol hv hg =>
    have silent : leaseEvent x o r = none := by cases hc <;> rfl
    have guarded : ∀ row', (World.guarded s t g).executions x = some row' →
        ∃ row, s.executions x = some row ∧ row'.leaseColumns = row.leaseColumns := by
      intro row' h'
      cases g with
      | none => exact ⟨row', h', rfl⟩
      | some g =>
        rw [World.guarded, State.modifyExecution_executions] at h'
        split at h'
        · rename_i hx
          obtain ⟨row, hrow, rfl⟩ := Option.map_eq_some_iff.1 h'
          exact ⟨row, hx ▸ hrow, rfl⟩
        · exact ⟨row', h', rfl⟩
    rw [State.applyTxn_executions] at h'
    split at h'
    · obtain ⟨row₁, hrow₁, rfl⟩ := Option.map_eq_some_iff.1 h'
      obtain ⟨row, hrow, hcols⟩ := guarded row₁ hrow₁
      exact .inl ⟨row, hrow, .kept silent hcols⟩
    · obtain ⟨row, hrow, hcols⟩ := guarded row' h'
      exact .inl ⟨row, hrow, .kept silent hcols⟩
  | claimStepping y c now ttl row hrow hfree =>
    by_cases hx : x = y
    · subst hx
      rw [State.modifyExecution_executions, if_pos rfl, hrow] at h'
      obtain rfl := Option.some.inj h'
      exact .inl ⟨row, hrow, .claimed c now ttl hfree rfl⟩
    · exact kept (by simp [leaseEvent, Ne.symm hx]) (by simp [hx])
  | releaseStepping y c =>
    by_cases hx : x = y
    · subst hx
      rw [State.releaseStepping, State.modifyExecution_executions, if_pos rfl] at h'
      obtain ⟨row, hrow, rfl⟩ := Option.map_eq_some_iff.1 h'
      refine .inl ⟨row, hrow, ?_⟩
      by_cases hc : row.steppingClaimId = some c
      · exact .released c hc (by simp [hc, Execution.leaseColumns])
      · exact .stray c hc (by simp [hc])
    · exact kept (by simp [leaseEvent, Ne.symm hx]) (by simp [State.releaseStepping, hx])
  | cancel y now hy =>
    rw [State.modifyExecution_executions] at h'
    split at h'
    · rename_i hx
      obtain ⟨row, hrow, rfl⟩ := Option.map_eq_some_iff.1 h'
      exact .inl ⟨row, hx ▸ hrow, .kept rfl rfl⟩
    · exact .inl ⟨row', h', .kept rfl rfl⟩

/-- In every row the columns of the lease agree. -/
def State.LeasesAgree (s : State W.Domain) : Prop :=
  ∀ x row, s.executions x = some row → row.LeaseAgrees

/-- The lease of an execution, free when there is no such execution. -/
def State.lease (s : State W.Domain) (x : Id) : Lease Id := (s.executions x).bind Execution.lease

theorem LeaseChange.leaseAgrees {row row' : Execution} (h : LeaseChange x row row' o r)
    (hr : row.LeaseAgrees) : row'.LeaseAgrees := by
  cases h with
  | kept _ h => exact hr.congr h
  | claimed c now ttl _ h =>
    simp only [Execution.leaseColumns, Prod.mk.injEq] at h
    exact ⟨by simp [h.1, h.2.1], by simp [h.2.1, h.2.2]⟩
  | released c _ h =>
    simp only [Execution.leaseColumns, Prod.mk.injEq] at h
    exact ⟨by simp [h.1, h.2.1], by simp [h.2.1, h.2.2]⟩
  | stray c _ h => exact h ▸ hr

theorem Effect.leasesAgree (h : Effect s o r s') (hs : s.LeasesAgree)
    (hn : ∀ row, o = .write (.insertExecution row) → NewExecution row) : s'.LeasesAgree := by
  intro x row' h'
  rcases h.leaseChange h' with ⟨row, hrow, hc⟩ | ⟨_, ho⟩
  · exact hc.leaseAgrees (hs x row hrow)
  · exact (hn row' ho).leaseAgrees

/-- Statement for statement, the rows' leases move as leases do. -/
theorem Effect.lease (h : Effect s o r s') (hs : s.LeasesAgree)
    (hids : ∀ x, s.nextId ≤ x → s.executions x = none)
    (hn : ∀ row, o = .write (.insertExecution row) → NewExecution row)
    (httl : ∀ c now ttl, o = .write (.claimStepping x c now ttl) → ttl = W.leaseTtl) :
    match leaseEvent x o r with
    | none => s'.lease x = s.lease x
    | some e => Lease.Moves W.leaseTtl (s.lease x) e (s'.lease x) := by
  cases h' : s'.executions x with
  | none =>
    have hx : s.executions x = none := by
      rcases h.executions x with hx | ⟨row, _, _, hrow, _⟩
      · exact hx.1 h'
      · rw [hrow] at h'; cases h'
    have hl : s.lease x = none := by simp [State.lease, hx]
    have hl' : s'.lease x = none := by simp [State.lease, h']
    cases he : leaseEvent x o r with
    | none => exact hl'.trans hl.symm
    | some e =>
      rw [hl, hl']
      cases h with
      | claimStepping y c now ttl row hrow =>
        simp only [leaseEvent] at he
        split at he
        · rename_i hy
          rw [hy.1, hx] at hrow
          cases hrow
        · cases he
      | releaseStepping y c =>
        simp only [leaseEvent] at he
        split at he
        · obtain rfl := Option.some.inj he
          exact .stray (by simp)
        · cases he
      | idle hi => cases hi <;> simp [leaseEvent] at he
      | commit startedAt hc => cases hc <;> cases he
      | _ => cases he
  | some row' =>
    rcases h.leaseChange h' with ⟨row, hrow, hc⟩ | ⟨hx, rfl⟩
    · have agrees := hs x row hrow
      have hl : s.lease x = row.lease := by simp [State.lease, hrow]
      have hl' : s'.lease x = row'.lease := by simp [State.lease, h']
      rw [hl, hl']
      cases hc with
      | kept he hcols => rw [he]; exact Execution.lease_congr hcols
      | claimed c now ttl hfree hcols =>
        obtain rfl := httl c now ttl rfl
        simp only [Execution.leaseColumns, Prod.mk.injEq] at hcols
        have : row'.lease = some (c, now) := by simp [Execution.lease, hcols.2.1, hcols.2.2]
        simp only [leaseEvent, and_self, if_true, this]
        exact .taken (agrees.free hfree)
      | released c hkey hcols =>
        simp only [Execution.leaseColumns, Prod.mk.injEq] at hcols
        have : row'.lease = none := by simp [Execution.lease, hcols.2.1]
        simp only [leaseEvent, if_true, this]
        exact .released ((agrees.key_iff c).2 hkey)
      | stray c hkey hrow' =>
        subst hrow'
        simp only [leaseEvent, if_true]
        exact .stray fun holder hl hk => hkey ((agrees.key_iff c).1 ⟨holder, hl, hk⟩)
    · have hl : s.lease x = none := by simp [State.lease, hids x hx.ge]
      have hl' : s'.lease x = none := by simp [State.lease, h', (hn row' rfl).lease]
      simp only [leaseEvent]
      exact hl'.trans hl.symm

end Effects

/-- The time a statement has read off the clock. -/
def clockReading : (o : Op W.Tables) → o.Reply → Option Time
  | .query .clock, now => some now
  | _, _ => none

/-- Follows a call's clock readings: it claims the lease at one of them, with the configured time to
live. -/
def timely : Monitor W.statements (List Time) where
  next readings o r := (clockReading o r).toList ++ readings
  ok readings
    | .write (.claimStepping _ _ now ttl) => now ∈ readings ∧ ttl = W.leaseTtl
    | _ => True

/-- Statements that do not claim the lease. -/
def Unclaiming : Op W.Tables → Prop
  | .write (.claimStepping _ _ _ _) => False
  | _ => True

theorem uses_timely {ε α : Type} {p : Program W.statements ε α} (h : p.Uses Unclaiming)
    (readings : List Time) : p.Obeys timely (fun _ _ => True) (fun _ _ => True) readings := by
  refine h.keeps (I := fun _ => True) (fun m o ho _ => ?_) (fun _ _ _ _ _ => trivial) trivial
  rcases o with _ | w | _ | _
  · trivial
  · cases w <;> first | exact ho.elim | trivial
  · trivial
  · trivial

section Parts

variable {ε α : Type} {p : Program W.statements ε α} {K : Op W.Tables → Prop}
  {C : Id → Nat → Rows W → Prop} {G : Prop}

/-- No chunk and no gateway call claims the lease. -/
theorem pieces_unclaiming (h : Composed (Piece K C G) p) (hK : ∀ o, K o → Unclaiming o)
    (hC : ∀ x seq rows, C x seq rows → Chunk x seq rows) : p.Uses Unclaiming := by
  refine pieces_use h hK (fun _ => trivial) (fun x seq rows h => (hC x seq rows h).within.mono
    (fun _ _ _ => trivial) fun _ _ _ _ => trivial) fun _ call context => ?_
  refine (ToolGateway.execute_built call context).uses (fun o ho => ?_) (fun _ => trivial)
    fun _ _ _ h => h.within.mono (fun _ _ _ => trivial) fun _ _ _ _ => trivial
  rcases o with _ | (_ | _) | _ | _ <;> first | exact ho.elim | trivial

theorem RuntimeOp.unclaiming {o : Op W.Tables} (h : RuntimeOp o) : Unclaiming o := by
  rcases o with _ | w | _ | _
  · trivial
  · cases w <;> first | exact h.elim | trivial
  · trivial
  · trivial

theorem Critical.unclaiming {x : Id} (h : Critical x p) : p.Uses Unclaiming :=
  pieces_unclaiming h.assembled (fun _ h => h.runtimeOp.unclaiming) fun _ _ _ => .runtime

/-- The lease is claimed at the reading just made. -/
theorem AgentRuntime.claimStepping_timely (x : Id) (readings : List Time) :
    (claimStepping x : Db W (Option Id × Execution)).Obeys timely (fun _ _ => True) (fun _ _ => True)
      readings := by
  refine .call_bind trivial fun claimId => .call_bind trivial fun now =>
    .call_bind ⟨by simp [timely, clockReading], rfl⟩ fun claimed => .call_bind trivial fun execution => ?_
  cases execution <;> trivial

theorem AgentRuntime.withStepping_timely {x : Id} {conflict : Execution → α}
    {body : Execution → Db W α} (h : ∀ execution, Composed (Critical x) (body execution))
    (readings : List Time) : (withStepping x conflict body).Obeys timely (fun _ _ => True)
      (fun _ _ => True) readings := by
  refine .bind (R := fun _ _ => True) (Y := fun _ _ => True) (claimStepping_timely x readings)
    (fun _ _ h => h) ?_
  rintro ⟨claim, execution⟩ readings _
  cases claim with
  | none => trivial
  | some claimId =>
    have hbody : (body execution).Uses Unclaiming := (h execution).uses Critical.unclaiming
    exact uses_timely (hbody.tryFinally (show (releaseStepping x claimId : Db W Unit).Uses Unclaiming
      from (uses_call _).2 trivial)) readings

/-- Only the critical sections of a call claim the lease. -/
theorem CallPart.unclaiming (h : CallPart p) : p.Uses Unclaiming ∨ ServicePart p := by
  cases h with
  | service h => exact .inr h
  | gateway call context =>
    refine .inl (pieces_unclaiming (ToolGateway.execute_built call context) (fun o ho => ?_)
      fun _ _ _ => .gateway)
    rcases o with _ | (_ | _) | _ | _ <;> first | exact ho.elim | trivial
  | resolve a operator approve reason =>
    refine .inl (pieces_unclaiming (ApprovalEngine.resolve_built a operator approve reason)
      (fun o ho => ?_) fun _ _ _ => .approval)
    rcases o with _ | w | _ | _
    · trivial
    · cases w <;> first | exact ho.elim | trivial
    · trivial
    · trivial
  | cancel x =>
    refine .inl (pieces_unclaiming (AgentRuntime.cancel_built x) (fun o ho => ?_) fun _ _ _ => .cancel)
    rcases o with _ | w | _ | _
    · trivial
    · cases w <;> first | exact ho.elim | trivial
    · trivial
    · trivial

theorem CallPart.timely (h : CallPart p) (readings : List Time) :
    p.Obeys timely (fun _ _ => True) (fun _ _ => True) readings := by
  rcases h.unclaiming with hu | hs
  · exact uses_timely hu readings
  cases hs with
  | amend ha =>
    cases ha with
    | leasing hl =>
      cases hl with
      | query q => exact ⟨trivial, fun _ => trivial⟩
      | critical x conflict body hbody => exact AgentRuntime.withStepping_timely hbody readings
    | update row columns => exact ⟨trivial, fun _ => trivial⟩
    | audit x type metadata ht => exact uses_timely (commitChunk_uses trivial fun _ _ => trivial) readings
  | insert row => exact ⟨trivial, fun _ => trivial⟩
  | start agentId objective context =>
    exact uses_timely (pieces_unclaiming (AgentRuntime.startExecution_built (G := False) _ _ _)
      (fun _ => RuntimeOp.unclaiming) fun _ _ _ => .runtime) readings

theorem Call.code_timely (call : Call) : (call.code : Db W CallResult).Obeys timely
    (fun _ _ => True) (fun _ _ => True) [] :=
  call.code_parts.keeps (I := fun _ => True) (fun h _ _ => h.timely _) trivial

end Parts
end SafeOps
