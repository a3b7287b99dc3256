import SafeOps.Observers.Endorsement

/-! What a call owes an approval that it has taken out of `PENDING`: the chunk that settles it. -/

namespace SafeOps
open Concurrent Program

variable {W : World} {ε α : Type}

/-- An approval taken out of `PENDING`, by a decision or because it has expired. -/
structure Debt where
  approvalId : Id
  expired : Bool

/-- The approvals a call has read, the one it has moved out of `PENDING` and not settled yet, the
execution it has last looked at since, with its status, and the tool request that its open gateway call
has filed. -/
structure Settler where
  approvals : List (Id × ApprovalRequest) := []
  debt : Option Debt := none
  seen : Option (Id × Option ExecutionStatus) := none
  request : Option Id := none

namespace Settler

/-- The chunk settles the debt: it sets the execution to `RUNNING`, or records the expiry. -/
def settles (m : Settler) (t : Txn) : Bool := t.resume || m.debt.any (·.expired)

/-- The chunk is about the execution, the tool request and the row of the approval owed, and leaves the
execution alone only if that was found elsewhere than in `WAITING_APPROVAL`. -/
structure PaysFor (m : Settler) (a : Id) (row : ApprovalRequest) (t : Txn) : Prop where
  debt : ∃ expired, m.debt = some ⟨a, expired⟩
  read : (a, row) ∈ m.approvals
  execution : t.executionId = row.executionId
  toolRequest : ∀ q u, t.toolRequest = some (.update q u) → q = row.toolRequestId
  approval : ∀ b now, t.approval = some (.executed b now) → b = a
  resume : t.resume = false →
    ∃ status, m.seen = some (row.executionId, status) ∧ status ≠ some .waitingApproval

/-- The chunk pays what the call owes. -/
def Pays (m : Settler) (t : Txn) : Prop := ∃ a row, m.PaysFor a row t

/-- The tool request on file for the open gateway call once the chunk is committed. -/
def filed (m : Settler) (t : Txn) : Option Id :=
  match t.toolRequest with
  | some (.insert q _) => some q
  | _ => m.request

end Settler

/-- A call moves an approval out of `PENDING` only when it owes nothing, and what it then commits as a
settlement settles that approval. Tool requests are updated so, or by the gateway call that filed them. -/
def settling : Monitor W.statements Settler where
  next m o := match o with
    | .query (.approval a) => fun (row : Option ApprovalRequest) =>
      { m with approvals := row.toList.map (a, ·) ++ m.approvals }
    | .query (.execution x) => fun (row : Option Execution) => { m with seen := some (x, row.map (·.status)) }
    | .write (.claimApproval a _ _ _) => fun (claimed : Bool) =>
      if claimed then { m with debt := some ⟨a, false⟩, seen := none } else m
    | .write (.expireApproval a _) => fun (expired : Bool) =>
      if expired then { m with debt := some ⟨a, true⟩, seen := none } else m
    | .write (.commit _ t) => fun (outcome : CommitOutcome) =>
      if outcome = .committed then
        { m with debt := if m.settles t then none else m.debt, request := m.filed t }
      else m
    | .write (.commitIf _ _ t) => fun (outcome : GuardedOutcome) =>
      if outcome = .finished .committed then { m with request := m.filed t } else m
    | .note (.gatewayEnter _) | .note (.gatewayReturn _) | .note .gatewayRaise => fun _ =>
      { m with request := none }
    | _ => fun _ => m
  ok m
    | .write (.claimApproval _ _ _ _) | .write (.expireApproval _ _) => m.debt = none
    | .write (.commit _ t) => (m.settles t = true → m.Pays t) ∧
      ∀ q u, t.toolRequest = some (.update q u) → m.request = some q ∨ m.Pays t
    | .write (.commitIf _ _ t) => t.resume = false ∧
      ∀ q u, t.toolRequest = some (.update q u) → m.request = some q
    | _ => True

/-- The chunk sets no execution to `RUNNING` and touches no tool request. -/
structure Txn.Unsettling (t : Txn) : Prop where
  resume : t.resume = false
  toolRequest : t.toolRequest = none

/-- The statement neither takes an approval out of `PENDING` nor settles one. -/
def Unsettling : Op W.Tables → Prop
  | .write (.claimApproval _ _ _ _) | .write (.expireApproval _ _) => False
  | .write (.commit _ t) | .write (.commitIf _ _ t) => t.Unsettling
  | _ => True

section Unsettling

variable {o : Op W.Tables} {m : Settler}

theorem Unsettling.ok (h : Unsettling o) (hm : m.debt.any (·.expired) = false) : settling.ok m o := by
  rcases o with _ | w | _ | _
  · trivial
  · cases w with
    | commit attempt t =>
      obtain ⟨hr, ht⟩ : t.Unsettling := h
      refine ⟨fun hs => ?_, by simp [ht]⟩
      rw [Settler.settles, hr, hm] at hs
      cases hs
    | commitIf attempt g t =>
      obtain ⟨hr, ht⟩ : t.Unsettling := h
      exact ⟨hr, by simp [ht]⟩
    | claimApproval | expireApproval => exact h.elim
    | _ => trivial
  · trivial
  · trivial

/-- An unsettling statement leaves the debt as it is, and forgets no approval read. -/
theorem Unsettling.next (h : Unsettling o) (hm : m.debt.any (·.expired) = false) (r : o.Reply) :
    (settling.next m o r).debt = m.debt ∧ m.approvals ⊆ (settling.next m o r).approvals := by
  rcases o with q | w | _ | _
  · cases q with
    | approval a => exact ⟨rfl, List.subset_append_right _ _⟩
    | _ => exact ⟨rfl, fun _ h => h⟩
  · cases w with
    | commit attempt t =>
      obtain ⟨hr, ht⟩ : t.Unsettling := h
      have hs : m.settles t = false := by rw [Settler.settles, hr, hm]; rfl
      cases (show CommitOutcome from r) <;> simp [settling, hs]
    | commitIf attempt g t =>
      simp only [settling]
      split <;> exact ⟨rfl, fun _ h => h⟩
    | claimApproval | expireApproval => exact h.elim
    | _ => exact ⟨rfl, fun _ h => h⟩
  · rename_i n
    cases n <;> exact ⟨rfl, fun _ h => h⟩
  · exact ⟨rfl, fun _ h => h⟩

end Unsettling

/-- The approval of this row has been read, and `debt` is what the call owes. -/
def Owes (a : Id) (approval : ApprovalRequest) (debt : Option Debt) {γ : Type} (_ : γ) (m : Settler) :
    Prop :=
  m.debt = debt ∧ (a, approval) ∈ m.approvals

/-- The call owes nothing. -/
def Clear {γ : Type} (_ : γ) (m : Settler) : Prop := m.debt = none

/-- The call has taken the approval out of `PENDING` and not settled it. -/
def Owing (a : Id) {γ : Type} (_ : γ) (m : Settler) : Prop := ∃ expired, m.debt = some ⟨a, expired⟩

theorem Owes.owing {a : Id} {approval : ApprovalRequest} {expired : Bool} {m : Settler}
    (h : Owes a approval (some ⟨a, expired⟩) () m) : Owing a () m := ⟨expired, h.1⟩

theorem Uses.unsettling {p : Program W.statements ε α} (h : p.Uses Unsettling) {a : Id}
    {approval : ApprovalRequest} {debt : Option Debt} (hd : debt.any (·.expired) = false) {m : Settler}
    (hm : Owes a approval debt () m) :
    p.Obeys settling (Owes a approval debt) (Owes a approval debt) m :=
  h.keeps (I := Owes a approval debt ()) (fun m _ ho hm => ho.ok (by rw [hm.1, hd])) (fun m _ r ho hm =>
    have kept := ho.next (by rw [hm.1, hd]) r
    ⟨kept.1.trans hm.1, kept.2 hm.2⟩) hm

theorem Uses.clear {p : Program W.statements ε α} (h : p.Uses Unsettling) {m : Settler}
    (hm : Clear () m) : p.Obeys settling Clear Clear m :=
  h.keeps (I := Clear ()) (fun m _ ho hm => ho.ok (by rw [hm]; rfl))
    (fun m _ r ho hm => (ho.next (by rw [hm]; rfl) r).1.trans hm) hm

theorem commitChunk_unsettling {x : Id} {build : Nat → Txn} (h : ∀ seq, (build seq).Unsettling) :
    (commitChunk x build : Db W Unit).Uses Unsettling :=
  commitChunk_uses trivial fun seq _ => h seq

namespace ApprovalEngine

variable {a : Id} {approval : ApprovalRequest} {m : Settler}

/-- The chunk that settles a decision. -/
theorem commitChunk_settles {x : Id} {build : Nat → Txn} (hm : Owes a approval (some ⟨a, false⟩) () m)
    (hresume : ∀ seq, (build seq).resume = true)
    (hexecution : ∀ seq, (build seq).executionId = approval.executionId)
    (hrequest : ∀ seq q u, (build seq).toolRequest = some (.update q u) → q = approval.toolRequestId)
    (happroval : ∀ seq b now, (build seq).approval = some (.executed b now) → b = a) :
    (commitChunk x build : Db W Unit).Obeys settling Clear (Owing a) m := by
  refine commitRows_obeys (Owes a approval (some ⟨a, false⟩) ()) (Clear ()) (fun number m hm => ?_)
    (fun _ hm => hm.owing) hm
  refine .call_bind trivial fun (tail : AuditTail) => ?_
  have pays : m.Pays (build (tail.sequence + 1)) := by
    refine ⟨a, approval, ⟨false, hm.1⟩, hm.2, hexecution _, hrequest _, happroval _, fun hr => ?_⟩
    rw [hresume] at hr
    cases hr
  refine ⟨⟨fun _ => pays, fun _ _ _ => .inr pays⟩, fun (outcome : CommitOutcome) => ?_⟩
  cases outcome with
  | committed =>
    have settles : m.settles (build (tail.sequence + 1)) = true := by
      rw [Settler.settles, hresume]
      rfl
    exact if_pos settles
  | collision => exact hm
  | violation => exact hm.owing

theorem finalizeExecutionOutcome_settling (agentName : String) (success : Bool) (error : Option ToolError)
    (result : Option Value) (hm : Owes a approval (some ⟨a, false⟩) () m) :
    (finalizeExecutionOutcome a approval agentName success error result :
      Db W ApprovalActionResult).Obeys settling Clear (Owing a) m := by
  refine .call_bind trivial fun (now : Time) => .bind (commitChunk_settles hm (fun _ => rfl) (fun _ => rfl)
    (fun seq q u ht => ?_) fun seq b at' ht => ?_) (fun _ _ hm => hm) fun _ _ hm => hm
  · exact (ToolRequestWrite.update.inj (Option.some.inj ht)).1.symm
  · exact (ApprovalWrite.executed.inj (Option.some.inj ht)).1.symm

theorem executeApprovedAction_settling (agentName : String)
    (hm : Owes a approval (some ⟨a, false⟩) () m) :
    (executeApprovedAction a approval agentName : Db W ApprovalActionResult).Obeys settling Clear
      (Owing a) m := by
  refine .bind (Uses.unsettling (commitChunk_unsettling fun _ => ⟨rfl, rfl⟩) rfl hm)
    (fun _ _ hm => hm.owing) fun _ m hm => ?_
  split
  · exact finalizeExecutionOutcome_settling _ _ _ _ hm
  · refine .bind (R := Owes a approval (some ⟨a, false⟩)) (Y := Owing a) (.tryCatch
      (R := Owes a approval (some ⟨a, false⟩)) (Y := Owes a approval (some ⟨a, false⟩))
      (.bind (Uses.unsettling (callTool_uses _ _ trivial fun _ => trivial) rfl hm) (fun _ _ h => h)
        fun _ _ h => h) (fun _ _ h => h) fun _ _ h => h) (fun _ _ h => h) fun outcome m hm => ?_
    split
    · exact finalizeExecutionOutcome_settling _ _ _ _ hm
    · split
      · exact finalizeExecutionOutcome_settling _ _ _ _ hm
      · exact finalizeExecutionOutcome_settling _ _ _ _ hm

theorem resolveClaimed_settling (operator : Operator) (approve : Bool) (reason : Option String) (now : Time)
    (hm : Owes a approval (some ⟨a, false⟩) () m) :
    (resolveClaimed a approval operator approve reason now : Db W ApprovalActionResult).Obeys settling Clear
      (Owing a) m := by
  refine .call_bind trivial fun (agent : Option Agent) => ?_
  split
  · exact .bind (Uses.unsettling (commitChunk_unsettling fun _ => ⟨rfl, rfl⟩) rfl hm)
      (fun _ _ hm => hm.owing) fun _ _ hm => executeApprovedAction_settling _ hm
  · split
    · refine .bind (commitChunk_settles hm (fun _ => rfl) (fun _ => rfl) (fun seq q u ht => ?_) ?_)
        (fun _ _ hm => hm) fun _ _ hm => hm
      · exact (ToolRequestWrite.update.inj (Option.some.inj ht)).1.symm
      · intro seq b at' ht
        cases ht
    · exact hm.owing

/-- An expiry is paid by its rows, drawn from the execution last looked at. -/
theorem expiryRows_pays {now : Time} {toolRequest : Option ToolRequest} {execution : Option Execution}
    {seq : Nat} (hm : Owes a approval (some ⟨a, true⟩) () m)
    (hs : m.seen = some (approval.executionId, execution.map (·.status))) :
    m.Pays (expiryRows a approval now toolRequest execution seq) := by
  refine ⟨a, approval, ⟨true, hm.1⟩, hm.2, rfl, fun q u ht => ?_, by simp [expiryRows], fun hr => ⟨_, hs, ?_⟩⟩
  · unfold expiryRows at ht
    simp only at ht
    split at ht
    · split at ht
      · obtain ⟨rfl, _⟩ := ToolRequestWrite.update.inj (Option.some.inj ht)
        rfl
      · cases ht
    · cases ht
  · cases execution with
    | none => simp
    | some row => simpa [expiryRows] using hr

theorem expiryRows_settling {now : Time} {toolRequest : Option ToolRequest} {execution : Option Execution}
    {seq : Nat} {attempt : Attempt} (hm : Owes a approval (some ⟨a, true⟩) () m)
    (hs : m.seen = some (approval.executionId, execution.map (·.status))) :
    ((Rows.plain (expiryRows a approval now toolRequest execution seq)).commit attempt :
      Db W CommitOutcome).Obeys settling (fun outcome m' => match outcome with
        | .committed => Owes a approval none () m'
        | .violation => Owing a () m'
        | .collision => m' = m) (Owing a) m := by
  have pays : m.Pays (expiryRows a approval now toolRequest execution seq) := expiryRows_pays hm hs
  refine ⟨⟨fun _ => pays, fun _ _ _ => .inr pays⟩, fun (outcome : CommitOutcome) => ?_⟩
  cases outcome with
  | committed =>
    have settles : m.settles (expiryRows a approval now toolRequest execution seq) = true := by
      rw [Settler.settles, hm.1]
      exact Bool.or_true _
    exact ⟨if_pos settles, hm.2⟩
  | violation => exact hm.owing
  | collision => rfl

/-- The rounds of a lazy expiry: the first one uses the rows loaded before, a later one its own. -/
theorem expiryRounds_settling {now : Time} {toolRequest : Option ToolRequest}
    {execution : Option Execution} (hm : Owes a approval (some ⟨a, true⟩) () m)
    (hs : m.seen = some (approval.executionId, execution.map (·.status))) :
    (commitRows approval.executionId fun attempt seq =>
        if attempt = 0 then pure (.plain (expiryRows a approval now toolRequest execution seq))
        else do
          let toolRequest : Option ToolRequest ← query (.toolRequest approval.toolRequestId)
          let execution : Option Execution ← query (.execution approval.executionId)
          pure (.plain (expiryRows a approval now toolRequest execution seq)) : Db W Unit).Obeys settling
      (fun _ => Owes a approval none ()) (Owing a) m := by
  refine commitAttempts_obeys (fun attempts m => Owes a approval (some ⟨a, true⟩) () m ∧
    (0 ∈ attempts → m.seen = some (approval.executionId, execution.map (·.status))) ∧ 0 ∉ attempts.tail)
    ?_ (fun _ h => h.1.owing) ⟨hm, fun _ => hs, by decide⟩
  rintro number later m ⟨hm, hs, hlater⟩
  refine .call_bind trivial fun (tail : AuditTail) => ?_
  have rest : 0 ∉ later.tail := fun h => hlater (List.mem_of_mem_tail h)
  simp only
  split
  · rename_i hnumber
    refine (expiryRows_settling hm (hs (by simp [hnumber]))).mono (fun outcome m' h => ?_) fun _ _ h => h
    cases outcome with
    | committed => exact h
    | violation => exact h
    | collision =>
      obtain rfl : m' = m := h
      exact ⟨hm, fun h => absurd h hlater, rest⟩
  · refine .call_bind trivial fun (toolRequest : Option ToolRequest) =>
      .call_bind trivial fun (execution : Option Execution) => ?_
    refine (expiryRows_settling (m := { m with seen := some (approval.executionId, execution.map (·.status)) })
      hm rfl).mono (fun outcome m' h => ?_) fun _ _ h => h
    cases outcome with
    | committed => exact h
    | violation => exact h
    | collision =>
      obtain rfl := h
      exact ⟨hm, fun h => absurd h hlater, rest⟩

/-- The lazy expiry settles what it expires, or raises owing it. -/
theorem lazyExpire_settling (now : Time) (hm : Owes a approval none () m) :
    (lazyExpire a approval now : Db W ApprovalStatus).Obeys settling (Owes a approval none)
      (Owing a) m := by
  unfold lazyExpire
  split
  · exact hm
  · refine .call_bind hm.1 fun (expired : Bool) => .call_bind trivial
      fun (refreshed : Option ApprovalRequest) => ?_
    cases expired with
    | false => exact ⟨hm.1, List.mem_append_right _ hm.2⟩
    | true =>
      refine .call_bind trivial fun (toolRequest : Option ToolRequest) =>
        .call_bind trivial fun (execution : Option Execution) => ?_
      exact .bind (expiryRounds_settling ⟨rfl, List.mem_append_right _ hm.2⟩ rfl) (fun _ _ h => h)
        fun _ m hm => .call_bind trivial fun (reread : Option ApprovalRequest) =>
          ⟨hm.1, List.mem_append_right _ hm.2⟩

theorem resolve_settling (a : Id) (operator : Operator) (approve : Bool) (reason : Option String) :
    (resolve a operator approve reason : Db W ApprovalActionResult).Obeys settling Clear
      (Owing a) {} := by
  refine .call_bind trivial fun (approval : Option ApprovalRequest) => ?_
  split
  · rfl
  · rename_i approval
    have owes : Owes a approval none () { approvals := [(a, approval)] } := ⟨rfl, by simp⟩
    refine .call_bind trivial fun (now : Time) => .bind (lazyExpire_settling now owes)
      (fun _ _ h => h) fun status m hm => ?_
    split
    · exact hm.1
    · refine .call_bind trivial fun (toolRequest : Option ToolRequest) =>
        .call_bind trivial fun (execution : Option Execution) => ?_
      split
      · refine .call_bind hm.1 fun (claimed : Bool) => .call_bind trivial
          fun (refreshed : Option ApprovalRequest) => ?_
        split
        · rename_i hclaimed
          subst hclaimed
          exact resolveClaimed_settling operator approve reason now ⟨rfl, List.mem_append_right _ hm.2⟩
        · rename_i hlost
          cases claimed with
          | true => exact absurd rfl hlost
          | false => exact hm.1
      · exact hm.1

end ApprovalEngine

end SafeOps
