import SafeOps.Bench
import SafeOps.Model.Effects
import SafeOps.Observers.Endorsement
import Mathlib.Logic.Relation

/-! Approvals: each is decided once, acted on once, and only on the decision to approve it. -/

namespace SafeOps
open Concurrent Program

variable {W : World} {ok : App W → Statement W → Prop} {c d : App W}

/-- The life of an approval request, whoever moves it along. -/
inductive ApprovalStatus.Moves : ApprovalStatus → ApprovalStatus → Prop
  | approve : Moves .pending .approved
  | reject : Moves .pending .rejected
  | expire : Moves .pending .expired
  | execute : Moves .approved .executed

namespace ApprovalStatus

theorem moves_final {s s' : ApprovalStatus} (h : Relation.ReflTransGen Moves s s')
    (hs : s = .rejected ∨ s = .expired ∨ s = .executed) : s' = s := by
  induction h with
  | refl => rfl
  | tail _ hm ih =>
    subst ih
    rcases hs with rfl | rfl | rfl <;> cases hm

theorem moves_of_approved {s : ApprovalStatus} (h : Relation.ReflTransGen Moves .approved s) :
    s = .approved ∨ s = .executed := by
  induction h with
  | refl => exact .inl rfl
  | tail _ hm ih => rcases ih with rfl | rfl <;> cases hm; exact .inr rfl

theorem moves_pending {s s' : ApprovalStatus} (h : Relation.ReflTransGen Moves s s')
    (hs : s ≠ .pending) : s' ≠ .pending := by
  induction h with
  | refl => exact hs
  | tail _ hm => cases hm <;> exact nofun

end ApprovalStatus

/-- The statement begins the tool call that approval `a` allows. -/
def callsTool (a : Id) (e : Statement W) : Bool :=
  match e.op with
  | .note (.toolExecute call) => call.approvalId = some a
  | _ => false

/-- The statement has moved approval `a` out of `PENDING`. -/
def leavesPending (a : Id) (e : Statement W) : Bool :=
  match e with
  | ⟨_, .write (.claimApproval b _ _ _), claimed⟩ => decide (b = a) && (claimed : Bool)
  | ⟨_, .write (.expireApproval b _), expired⟩ => decide (b = a) && (expired : Bool)
  | _ => false

theorem callsTool_iff {a : Id} {e : Statement W} :
    callsTool a e = true ↔ ∃ call, e.op = .note (.toolExecute call) ∧ call.approvalId = some a := by
  unfold callsTool
  split
  · rename_i call he
    simp [he]
  · rename_i he
    simp only [Bool.false_eq_true, false_iff, not_exists, not_and]
    exact fun call hc => absurd hc (he call)

/-- The claims of all calls agree with the table of approvals and with the history. -/
structure ClaimsHold (c : App W) : Prop where
  claimed : ∀ i claim, (c.past resolving {} i).claim = some claim →
    claim.now ∈ (c.past resolving {} i).readings ∧
      (claim.status = .approved ∨ claim.status = .rejected) ∧
      ∃ row, c.state.approvals claim.approvalId = some row ∧ claim.now < row.expiresAt ∧
        Relation.ReflTransGen ApprovalStatus.Moves claim.status row.status
  recorded : ∀ i a status now by',
    (⟨i, .write (.claimApproval a status now by'), true⟩ : Statement W) ∈ c.history →
      (c.past resolving {} i).claim = some ⟨a, status, now⟩
  unique : ∀ i j claim claim', (c.past resolving {} i).claim = some claim →
    (c.past resolving {} j).claim = some claim' → claim.approvalId = claim'.approvalId → i = j
  called : ∀ e ∈ c.history, ∀ a, callsTool a e = true →
    (c.past resolving {} e.thread).called = true ∧
      ∃ now, (c.past resolving {} e.thread).claim = some ⟨a, .approved, now⟩
  calledOnce : ∀ a, (c.history.filter (callsTool a)).length ≤ 1
  left : ∀ a, c.history.filter (leavesPending a) ≠ [] →
    ∃ row, c.state.approvals a = some row ∧ row.status ≠ .pending
  leftOnce : ∀ a, (c.history.filter (leavesPending a)).length ≤ 1

namespace ClaimsHold

variable {i : Nat} {call : Call} {o : Op W.Tables} {k : o.Reply → Db W CallResult} {r : o.Reply}
  {s : State W.Domain}

/-- What has been claimed is not pending. -/
theorem not_pending (h : ClaimsHold c) {claim : Claim}
    (hc : (c.past resolving {} i).claim = some claim) {row : ApprovalRequest}
    (hrow : c.state.approvals claim.approvalId = some row) : row.status ≠ .pending := by
  obtain ⟨_, hs, row', hrow', _, hm⟩ := h.claimed i claim hc
  obtain rfl := Option.some.inj (hrow.symm.trans hrow')
  exact ApprovalStatus.moves_pending hm (by rcases hs with hs | hs <;> rw [hs] <;> exact nofun)

/-- A row is never deleted, keeps its deadline, and moves along its life cycle. -/
theorem moves (h : ClaimsHold d) (hok : resolving.ok (d.past resolving {} i) o) (hi : Issued o)
    (heff : Effect d.state o r s) {a : Id} {row : ApprovalRequest}
    (hrow : d.state.approvals a = some row) : ∃ row', s.approvals a = some row' ∧
      row'.expiresAt = row.expiresAt ∧
      Relation.ReflTransGen ApprovalStatus.Moves row.status row'.status := by
  rcases heff.approvals a with he | ⟨row', hchange, he⟩
  · exact ⟨row, he.trans hrow, rfl, .refl⟩
  refine ⟨row', he, ?_⟩
  cases hchange with
  | inserted _ _ _ hfree => exact absurd hrow (by simp [hfree])
  | claimed status now by' row' hrow' hp _ =>
    obtain rfl := Option.some.inj (hrow.symm.trans hrow')
    refine ⟨rfl, .single ?_⟩
    rw [hp]
    rcases hi with rfl | rfl
    · exact .approve
    · exact .reject
  | expired now row' hrow' hp =>
    obtain rfl := Option.some.inj (hrow.symm.trans hrow')
    exact ⟨rfl, .single (hp ▸ .expire)⟩
  | executed now row' hc ht hrow' =>
    obtain rfl := Option.some.inj (hrow.symm.trans hrow')
    refine ⟨rfl, ?_⟩
    obtain ⟨at', hclaim⟩ : ∃ at', (d.past resolving {} i).claim = some ⟨a, .approved, at'⟩ := by
      cases hc with
      | plain => exact hok a now ht
      | guarded =>
        obtain ⟨_, _, hi⟩ := hi
        obtain ⟨_, _, hw, _⟩ := hi.inserts ht
        cases hw
    obtain ⟨_, _, row'', hrow'', _, hm⟩ := h.claimed i _ hclaim
    obtain rfl := Option.some.inj (hrow.symm.trans hrow'')
    rcases ApprovalStatus.moves_of_approved hm with hs | hs <;> rw [hs]
    exact .single .execute

/-- A statement that leaves `PENDING` finds the approval pending, and no longer so afterwards. -/
theorem left_of_effect (hi : Issued o) (heff : Effect d.state o r s) {a : Id}
    (hl : leavesPending a (⟨i, o, r⟩ : Statement W) = true) :
    (∃ row, d.state.approvals a = some row ∧ row.status = .pending) ∧
      ∃ row, s.approvals a = some row ∧ row.status ≠ .pending := by
  cases heff with
  | claimApproval b status now by' row hrow hp _ =>
    obtain rfl : b = a := by simpa [leavesPending] using hl
    refine ⟨⟨row, hrow, hp⟩,
      { row with status := status, resolvedAt := some now, resolvedBy := some by' },
      by simp [State.modifyApproval, hrow], ?_⟩
    rcases hi with rfl | rfl <;> simp
  | expireApproval b now row hrow hp =>
    obtain rfl : b = a := by simpa [leavesPending] using hl
    exact ⟨⟨row, hrow, hp⟩, { row with status := .expired, resolvedAt := some now },
      by simp [State.modifyApproval, hrow], by simp⟩
  | idle h => cases h <;> simp [leavesPending] at hl
  | commit _ hc => cases hc <;> simp [leavesPending] at hl
  | _ => simp [leavesPending] at hl

/-- The claim of a thread after the step: the one it had, or one that it has just won. -/
theorem claim_next (hok : resolving.ok (d.past resolving {} i) o) (hi : Issued o)
    (heff : Effect d.state o r s) {j : Nat} {claim : Claim}
    (hc : ((App.next d i call o k r s).past resolving {} j).claim = some claim) :
    (d.past resolving {} j).claim = some claim ∨ i = j ∧ claim.now ∈ (d.past resolving {} i).readings ∧
      (claim.status = .approved ∨ claim.status = .rejected) ∧
      (∃ row, d.state.approvals claim.approvalId = some row ∧ row.status = .pending) ∧
      ∃ row, s.approvals claim.approvalId = some row ∧ claim.now < row.expiresAt ∧
        row.status = claim.status := by
  rw [App.next_past] at hc
  split at hc
  · rename_i hij
    subst hij
    rcases heff.claim hok hi with
      he | ⟨_, claim', row, row', hnext, hnow, hs, hrow, hp, hlt, hrow', hs', he⟩
    · exact .inl (he ▸ hc)
    · obtain rfl := Option.some.inj (hc.symm.trans hnext)
      exact .inr ⟨rfl, hnow, hs, ⟨row, hrow, hp⟩, row', hrow', he ▸ hlt, hs'⟩
  · exact .inl hc

/-- A claim once won stays. -/
theorem claim_kept (hok : resolving.ok (d.past resolving {} i) o) (hi : Issued o)
    (heff : Effect d.state o r s) {j : Nat} {claim : Claim}
    (hc : (d.past resolving {} j).claim = some claim) :
    ((App.next d i call o k r s).past resolving {} j).claim = some claim := by
  rw [App.next_past]
  split
  · rename_i hij
    subst hij
    rcases heff.claim hok hi with he | ⟨hnone, _⟩
    · exact he.trans hc
    · exact absurd hc (by simp [hnone])
  · exact hc

/-- The thread that begins the approved tool call has claimed the approval and not called before. -/
theorem calls_allowed (hok : resolving.ok (d.past resolving {} i) o) {a : Id}
    (ha : callsTool a (⟨i, o, r⟩ : Statement W) = true) :
    (d.past resolving {} i).called = false ∧
      (∃ now, (d.past resolving {} i).claim = some ⟨a, .approved, now⟩) ∧
      (resolving.next (d.past resolving {} i) o r).called = true := by
  obtain ⟨tc, ho, htc⟩ := callsTool_iff.1 ha
  obtain rfl : o = .note (.toolExecute tc) := ho
  obtain ⟨hcalled, hclaim⟩ := hok a htc
  exact ⟨hcalled, hclaim, by simp [resolving, htc]⟩

theorem next (h : ClaimsHold d) (hok : resolving.ok (d.past resolving {} i) o) (hi : Issued o)
    (heff : Effect d.state o r s) : ClaimsHold (App.next d i call o k r s) := by
  have readings (j : Nat) : (d.past resolving {} j).readings ⊆
      ((App.next d i call o k r s).past resolving {} j).readings := by
    rw [App.next_past]
    split
    · exact resolving_readings _ _ _
    · exact fun _ h => h
  refine ⟨fun j claim hc => ?_, fun j a status now by' hmem => ?_,
    fun j j' claim claim' hc hc' ha => ?_, fun e he a ha => ?_, fun a => ?_, fun a hl => ?_, fun a => ?_⟩
  · rcases claim_next hok hi heff hc with hold | ⟨rfl, hnow, hs, _, row, hrow, hlt, hs'⟩
    · obtain ⟨hnow, hs, row, hrow, hlt, hm⟩ := h.claimed j claim hold
      obtain ⟨row', hrow', he, hm'⟩ := h.moves hok hi heff hrow
      exact ⟨readings j hnow, hs, row', hrow', he ▸ hlt, hm.trans hm'⟩
    · exact ⟨readings i hnow, hs, row, hrow, hlt, hs' ▸ .refl⟩
  · rcases List.mem_cons.1 hmem with he | hmem
    · cases he
      rw [App.next_past, if_pos rfl]
      rfl
    · exact claim_kept hok hi heff (h.recorded j a status now by' hmem)
  · rcases claim_next hok hi heff hc with hold | ⟨rfl, _, _, ⟨row, hrow, hp⟩, _⟩ <;>
      rcases claim_next hok hi heff hc' with hold' | ⟨rfl, _, _, ⟨row', hrow', hp'⟩, _⟩
    · exact h.unique j j' claim claim' hold hold' ha
    · exact absurd hp' (h.not_pending hold (ha ▸ hrow'))
    · exact absurd hp (h.not_pending hold' (ha ▸ hrow))
    · rfl
  · rcases List.mem_cons.1 he with rfl | he
    · obtain ⟨_, ⟨now, hclaim⟩, hcalled⟩ := calls_allowed hok ha
      exact ⟨by rw [App.next_past, if_pos rfl]; exact hcalled, now, claim_kept hok hi heff hclaim⟩
    · obtain ⟨hcalled, now, hclaim⟩ := h.called e he a ha
      refine ⟨?_, now, claim_kept hok hi heff hclaim⟩
      rw [App.next_past]
      split
      · exact resolving_called hcalled o r
      · exact hcalled
  · rw [App.next_history, List.filter_cons]
    split
    · rename_i ha
      obtain ⟨hfresh, ⟨now, hclaim⟩, _⟩ := calls_allowed hok ha
      have none : d.history.filter (callsTool a) = [] := by
        refine List.filter_eq_nil_iff.2 fun e he hcall => ?_
        obtain ⟨hcalled, now', hclaim'⟩ := h.called e he a hcall
        have hthread := h.unique e.thread i _ _ hclaim' hclaim rfl
        rw [hthread, hfresh] at hcalled
        cases hcalled
      simp [none]
    · exact h.calledOnce a
  · rw [App.next_history, List.filter_cons] at hl
    split at hl
    · rename_i hleft
      exact (left_of_effect hi heff hleft).2
    · obtain ⟨row, hrow, hp⟩ := h.left a hl
      obtain ⟨row', hrow', _, hm⟩ := h.moves hok hi heff hrow
      exact ⟨row', hrow', ApprovalStatus.moves_pending hm hp⟩
  · rw [App.next_history, List.filter_cons]
    split
    · rename_i hleft
      obtain ⟨row, hrow, hp⟩ := (left_of_effect hi heff hleft).1
      have none : d.history.filter (leavesPending a) = [] := by
        by_contra hl
        obtain ⟨row', hrow', hp'⟩ := h.left a hl
        exact hp' (Option.some.inj (hrow.symm.trans hrow') ▸ hp)
      simp [none]
    · exact h.leftOnce a

end ClaimsHold

theorem ReachableWithin.claimsHold (h : ReachableWithin ok c) : ClaimsHold c := by
  refine h.invariant ?_ ?_ ?_ ?_
  · intro s hs
    exact ⟨by simp, by simp, by simp, by simp, by simp, by simp, by simp⟩
  · exact fun d call h => ⟨h.claimed, h.recorded, h.unique, h.called, h.calledOnce, h.left, h.leftOnce⟩
  · intro d change h
    exact ⟨by simpa using h.claimed, h.recorded, h.unique, h.called, h.calledOnce, by simpa using h.left, h.leftOnce⟩
  · intro d i call o k r s hd hw hi _ heff h
    exact h.next ((hd.monitored Call.code_resolving).allowed hw) hi heff

/-- A run moves every approval along its life cycle. -/
theorem ReachableWithin.approval_moves (hc : ReachableWithin ok c) (h : Steps W.system ok c d) {a : Id}
    {row : ApprovalRequest} (hrow : c.state.approvals a = some row) :
    ∃ row', d.state.approvals a = some row' ∧ row'.expiresAt = row.expiresAt ∧
      Relation.ReflTransGen ApprovalStatus.Moves row.status row'.status := by
  refine hc.onwards h (I := fun d : App W => ∃ row', d.state.approvals a = some row' ∧
    row'.expiresAt = row.expiresAt ∧ Relation.ReflTransGen ApprovalStatus.Moves row.status row'.status)
    ⟨row, hrow, rfl, .refl⟩ (fun _ _ h => h) (fun d change h => by simpa using h) ?_
  rintro d i call o k r s hd hw hi _ heff ⟨row', hrow', he, hm⟩
  obtain ⟨row'', hrow'', he', hm'⟩ :=
    hd.claimsHold.moves ((hd.monitored Call.code_resolving).allowed hw) hi heff hrow'
  exact ⟨row'', hrow'', he'.trans he, hm.trans hm'⟩

/-- Thread `i` ran a call about approval `a` that ended otherwise than with `ALREADY_RESOLVED`,
`INVALID_STATE` or `NOT_FOUND`. -/
def Decided (c : App W) (a : Id) (i : Nat) : Prop :=
  ∃ call status result, c.Returned i call result ∧ call.decides = some (a, status) ∧ result.Acted

theorem ReachableWithin.decided_unique (h : ReachableWithin ok c) {a : Id} {i j : Nat}
    (hi : Decided c a i) (hj : Decided c a j) : i = j := by
  obtain ⟨call, status, result, hr, hd, ha⟩ := hi
  obtain ⟨call', status', result', hr', hd', ha'⟩ := hj
  have hm := h.monitored Call.code_resolving
  obtain ⟨now, hclaim⟩ := hm.returned hr a status hd ha
  obtain ⟨now', hclaim'⟩ := hm.returned hr' a status' hd' ha'
  exact h.claimsHold.unique i j _ _ hclaim hclaim' rfl

/-- The call behind a tool call that approval `a` allowed. -/
theorem ReachableWithin.approved_call (h : ReachableWithin ok c) {a : Id} {e : Statement W}
    {later earlier : List (Statement W)} (hist : c.history = later ++ e :: earlier)
    (ha : callsTool a e = true) :
    ∃ operator now by' row, (c.threads[e.thread]?).map (·.call) = some (.approve a operator) ∧
      ⟨e.thread, .query .clock, now⟩ ∈ earlier ∧
      ⟨e.thread, .write (.claimApproval a .approved now by'), true⟩ ∈ earlier ∧
      c.state.approvals a = some row ∧ now < row.expiresAt ∧
      (row.status = .approved ∨ row.status = .executed) := by
  have sub : earlier ⊆ c.history := fun e he => by simp [hist, he]
  obtain ⟨tc, htc, hid⟩ := callsTool_iff.1 ha
  obtain ⟨t, ht, happrove⟩ := h.attributed Call.code_approving e (by simp [hist])
  have hok := h.lawful Call.code_resolving hist
  rw [htc] at happrove hok
  obtain ⟨operator, hcall⟩ := happrove a hid
  obtain ⟨_, now, hthen⟩ := hok a hid
  obtain ⟨by', hby⟩ : ∃ by', (⟨e.thread, .write (.claimApproval a .approved now by'), true⟩ :
      Statement W) ∈ earlier := claim_recorded hthen
  obtain ⟨_, _, row, hrow, hlt, hm⟩ :=
    h.claimsHold.claimed _ _ (h.claimsHold.recorded _ _ _ _ _ (sub hby))
  obtain ⟨later', earlier', hsplit⟩ := List.append_of_mem hby
  have hclaimed := h.lawful Call.code_resolving
    (show c.history = (later ++ e :: later') ++
      (⟨e.thread, .write (.claimApproval a .approved now by'), true⟩ : Statement W) :: earlier' by
        rw [hist, hsplit, List.append_assoc, List.cons_append])
  refine ⟨operator, now, by', row, by rw [ht, Option.map_some, hcall], ?_, hby, hrow, hlt,
    ApprovalStatus.moves_of_approved hm⟩
  rw [hsplit]
  exact List.mem_append_right _ (List.mem_cons_of_mem _ (reading_recorded hclaimed.2))

/-- An approval leaves `PENDING` at most once and its final statuses never; one call at most decides
it; its tool is called at most once, by the call whose claim approved it in time; and never once it
has been rejected or has expired. -/
theorem approval_resolved_once (W : World) (a : Id) :
    (∀ c d : App W, Reachable c → Run W.system c d → ∀ row, c.state.approvals a = some row →
      ∃ row', d.state.approvals a = some row' ∧ (row.status ≠ .pending → row'.status ≠ .pending) ∧
        (row.status = .rejected ∨ row.status = .expired ∨ row.status = .executed →
          row'.status = row.status)) ∧
    (∀ c : App W, Reachable c →
      (c.history.filter (leavesPending a)).length ≤ 1 ∧
      (∀ i j, Decided c a i → Decided c a j → i = j) ∧
      (c.history.filter (callsTool a)).length ≤ 1 ∧
      (∀ later e earlier, c.history = later ++ e :: earlier → callsTool a e = true →
        ∃ operator now by' row, (c.threads[e.thread]?).map (·.call) = some (.approve a operator) ∧
        ⟨e.thread, .query .clock, now⟩ ∈ earlier ∧
        ⟨e.thread, .write (.claimApproval a .approved now by'), true⟩ ∈ earlier ∧
        c.state.approvals a = some row ∧ now < row.expiresAt) ∧
      ∀ row, c.state.approvals a = some row → row.status = .rejected ∨ row.status = .expired →
        c.history.filter (callsTool a) = []) := by
  refine ⟨fun c d hc h row hrow => ?_, fun c hc => ⟨hc.claimsHold.leftOnce a,
    fun i j hi hj => hc.decided_unique hi hj, hc.claimsHold.calledOnce a,
    fun later e earlier hist ha => ?_, fun row hrow hs => ?_⟩⟩
  · obtain ⟨row', hrow', _, hm⟩ := hc.approval_moves h hrow
    exact ⟨row', hrow', ApprovalStatus.moves_pending hm, ApprovalStatus.moves_final hm⟩
  · obtain ⟨operator, now, by', row, hcall, hclock, hclaim, hrow, hlt, _⟩ := hc.approved_call hist ha
    exact ⟨operator, now, by', row, hcall, hclock, hclaim, hrow, hlt⟩
  · refine List.filter_eq_nil_iff.2 fun e he ha => ?_
    obtain ⟨later, earlier, hist⟩ := List.append_of_mem he
    obtain ⟨_, _, _, row', _, _, _, hrow', _, hs'⟩ := hc.approved_call hist ha
    obtain rfl := Option.some.inj (hrow.symm.trans hrow')
    rcases hs with hs | hs <;> rw [hs] at hs' <;> rcases hs' with hs' | hs' <;> cases hs'

theorem approval_resolved_once_race :
    ((afterMoves .requireApproval (startMoves ++ gatewayMoves 26 ++
      arrival (.approve 3 ⟨0, "operator"⟩) 2 15 ++ arrival (.approve 3 ⟨1, "operator"⟩) 3 15)).history.filter
        (callsTool 3)).length ≤ 1 :=
  ((approval_resolved_once bench 3).2 _ (replay_reachable (State.bench_fresh _) _)).2.2.1

end SafeOps
