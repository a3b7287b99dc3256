import SafeOps.Guarantees.OneApproval
import SafeOps.Guarantees.PlannedOnce

/-! A decision on an approval that ends with an exception: what it leaves behind, and who can still move the
execution on. -/

namespace SafeOps
open Concurrent Program

variable {W : World} {ok : App W → Statement W → Prop} {c d : App W} {i : Nat} {call : Call} {o : Op W.Tables}
  {k : o.Reply → Db W CallResult} {r : o.Reply} {s : State W.Domain} {x a : Id}

/-- The statement cancels the execution. -/
def cancels (x : Id) : (o : Op W.Tables) → o.Reply → Bool
  | .write (.cancel y _), won => y = x && won
  | _, _ => false

/-- The execution has been cancelled since the approval was asked for. -/
def App.cancelledSince (c : App W) (a x : Id) : Bool :=
  (c.history.takeWhile fun e => !asksFor a e).any fun e => cancels x e.op e.reply

@[simp] theorem App.next_cancelledSince :
    (App.next d i call o k r s).cancelledSince a x =
      (!asksFor a ⟨i, o, r⟩ && (cancels x o r || d.cancelledSince a x)) := by
  unfold cancelledSince
  rw [App.next_history, List.takeWhile_cons]
  cases asksFor a (⟨i, o, r⟩ : Statement W) <;> simp

section Rows

/-- Who asks for an approval puts its execution into `WAITING_APPROVAL`. -/
theorem asked_waits (hi : Issued o) (heff : Effect d.state o r s)
    (hasks : asksFor a (⟨i, o, r⟩ : Statement W) = true) :
    ∃ row, s.approvals a = some row ∧ s.status row.executionId = some .waitingApproval := by
  obtain ⟨g, t, row, hc, ht⟩ := asksFor_iff.1 hasks
  obtain ⟨_, _, hg, startedAt, rfl⟩ := heff.of_commits hc
  refine ⟨row, by simp [ht, State.writeApproval], ?_⟩
  cases hc with
  | plain attempt t =>
    obtain ⟨y, seq, hplain⟩ := hi
    exact absurd ht (hplain.inserts a row)
  | guarded attempt g t =>
    obtain ⟨y, seq, hguarded⟩ := hi
    have hx : row.executionId = t.executionId := by
      obtain ⟨_, _, hwrite, _, hx⟩ := hguarded.inserts ht
      obtain ⟨rfl, rfl⟩ := ApprovalWrite.insert.inj hwrite
      exact hx.trans hguarded.execution.symm
    rw [State.applyTxn_status, if_neg (by simp [hguarded.resume]), guarded_status t (some g) _ hg, if_pos hx]
    cases hguarded with
    | started | terminal => cases ht
    | approval => rfl

theorem cancelled_status (heff : Effect d.state o r s) (hcancels : cancels x o r = true) :
    s.status x = some .cancelled := by
  rcases o with _ | w | _ | _
  · cases hcancels
  · cases w with
    | cancel y now =>
      obtain ⟨hy, hwon⟩ := Bool.and_eq_true_iff.1 hcancels
      obtain rfl : y = x := by simpa using hy
      obtain rfl : r = true := hwon
      cases heff with
      | idle h => cases h
      | commit _ hc => cases hc
      | cancel _ _ h =>
        rcases h with h | h <;> obtain ⟨row, hrow, _⟩ := Option.map_eq_some_iff.1 h <;> simp [hrow]
    | _ => cases hcancels
  · cases hcancels
  · cases hcancels

/-- No row goes back to `PENDING`. -/
theorem pending_before (hi : Issued o) (heff : Effect d.state o r s)
    (hasks : ¬asksFor a (⟨i, o, r⟩ : Statement W) = true) {row : ApprovalRequest}
    (hrow : s.approvals a = some row) (hp : row.status = .pending) : d.state.approvals a = some row := by
  rcases heff.approvals a with he | ⟨row', hchange, hrow'⟩
  · exact he.symm.trans hrow
  · obtain rfl := Option.some.inj (hrow'.symm.trans hrow)
    cases hchange with
    | inserted row hc ht => exact absurd (asksFor_iff.2 ⟨_, _, _, hc, ht⟩) hasks
    | claimed => rcases hi with rfl | rfl <;> cases hp
    | expired | executed => cases hp

/-- The statement takes the approval out of `PENDING`. -/
def takesOut (a : Id) : (o : Op W.Tables) → o.Reply → Bool
  | .write (.claimApproval b _ _ _), claimed => b = a && claimed
  | .write (.expireApproval b _), expired => b = a && expired
  | _, _ => false

theorem takesOut_pending (heff : Effect d.state o r s) (htakes : takesOut a o r = true) :
    ∃ row, d.state.approvals a = some row ∧ row.status = .pending := by
  rcases o with _ | w | _ | _
  · cases htakes
  · cases w with
    | claimApproval b status now resolver =>
      obtain ⟨hb, hclaimed⟩ := Bool.and_eq_true_iff.1 htakes
      obtain rfl : b = a := by simpa using hb
      obtain rfl : r = true := hclaimed
      cases heff with
      | idle h => cases h
      | commit _ hc => cases hc
      | claimApproval _ _ _ _ row hrow hp => exact ⟨row, hrow, hp⟩
    | expireApproval b now =>
      obtain ⟨hb, hexpired⟩ := Bool.and_eq_true_iff.1 htakes
      obtain rfl : b = a := by simpa using hb
      obtain rfl : r = true := hexpired
      cases heff with
      | idle h => cases h
      | commit _ hc => cases hc
      | expireApproval _ _ row hrow hp => exact ⟨row, hrow, hp⟩
    | _ => cases htakes
  · cases htakes
  · cases htakes

/-- A debt is an old one, or of an approval that has just been taken out of `PENDING`. -/
theorem owed_before {m : Settler} {expired : Bool} (h : (settling.next m o r).debt = some ⟨a, expired⟩) :
    m.debt = some ⟨a, expired⟩ ∨ takesOut a o r = true := by
  rcases o with q | w | n | _
  · cases q <;> exact .inl h
  · cases w with
    | claimApproval b | expireApproval b =>
      simp only [settling] at h
      split at h
      · rename_i hr
        obtain rfl : b = a := congrArg Debt.approvalId (Option.some.inj h)
        exact .inr (by simpa [takesOut] using hr)
      · exact .inl h
    | commit attempt t =>
      simp only [settling] at h
      split at h
      · simp only at h
        split at h
        · cases h
        · exact .inl h
      · exact .inl h
    | commitIf attempt g t =>
      simp only [settling] at h
      split at h <;> exact .inl h
    | _ => exact .inl h
  · cases n <;> exact .inl h
  · exact .inl h

end Rows

/-- An approval that is open has been open before, unless it has just been asked for. -/
theorem open_before (hd : ReachableWithin ok d) (hi : Issued o) (heff : Effect d.state o r s)
    (hasks : ¬asksFor a (⟨i, o, r⟩ : Statement W) = true)
    (hopen : OpenApproval (App.next d i call o k r s) x a) : OpenApproval d x a := by
  obtain ⟨row', hrow', hx, hp | ⟨j, expired, hdebt⟩⟩ := hopen
  · exact ⟨row', pending_before hi heff hasks hrow' hp, hx, .inl hp⟩
  · have kept {row : ApprovalRequest} (hrow : d.state.approvals a = some row) : row.executionId = x := by
      obtain ⟨row'', hrow'', hasked⟩ := heff.asked hrow
      obtain rfl := Option.some.inj (hrow'.symm.trans hrow'')
      exact (congrArg (·.executionId) hasked).symm.trans hx
    have older (hdebt : (d.past settling {} j).debt = some ⟨a, expired⟩) : OpenApproval d x a := by
      obtain ⟨row, hrow, _⟩ := hd.approvalsAgree.owed j _ hdebt
      exact ⟨row, hrow, kept hrow, .inr ⟨j, expired, hdebt⟩⟩
    rw [App.next_past] at hdebt
    split at hdebt
    · rcases owed_before hdebt with hdebt | htakes
      · rename_i hij
        exact older (hij ▸ hdebt)
      · obtain ⟨row, hrow, hp⟩ := takesOut_pending heff htakes
        exact ⟨row, hrow, kept hrow, .inl hp⟩
    · exact older hdebt

/-- What settles an approval closes it. -/
theorem settled_closed (hd : ReachableWithin ok d) (hi : Issued o) (heff : Effect d.state o r s)
    (hset : settling.ok (d.past settling {} i) o) (hasks : ¬asksFor a (⟨i, o, r⟩ : Statement W) = true)
    {g : Option StatusGuard} {t : Txn} (hc : Commits o r g t) (hr : t.resume = true)
    (hx : x = t.executionId) : ¬OpenApproval (App.next d i call o k r s) x a := by
  intro hopen
  have agree := hd.approvalsAgree
  cases hc with
  | guarded attempt g t =>
    obtain ⟨y, seq, hguarded⟩ := hi
    rw [hguarded.resume] at hr
    cases hr
  | plain attempt t =>
    have settles : (d.past settling {} i).settles t = true := Bool.or_eq_true_iff.2 (.inl hr)
    obtain ⟨b, row, hpays⟩ := hset.1 settles
    obtain ⟨expired, hdebt⟩ := hpays.debt
    obtain ⟨row', hrow', hasked⟩ := hd.endorsed (i := i) (settling_approvals d.history i ▸ hpays.read)
    have hx' : row'.executionId = x :=
      (congrArg (·.executionId) hasked).trans (hpays.execution.symm.trans hx.symm)
    -- only this approval of the execution is open, and the call owes nothing any more
    obtain rfl : a = b := agree.unique x a b (open_before hd hi heff hasks hopen)
      ⟨row', hrow', hx', .inr ⟨i, expired, hdebt⟩⟩
    obtain ⟨row₀, hrow₀, hp₀⟩ := agree.owed i _ hdebt
    obtain ⟨row₁, hrow₁, _, hp | ⟨j, expired', hdebt'⟩⟩ := hopen
    · obtain rfl := Option.some.inj (hrow₀.symm.trans (pending_before hi heff hasks hrow₁ hp))
      exact hp₀ hp
    · rw [App.next_past] at hdebt'
      split at hdebt'
      · rename_i hij
        subst hij
        have paid : ((settling (W := W)).next (d.past settling {} i) (.write (.commit attempt t))
            CommitOutcome.committed).debt = none := if_pos settles
        cases paid.symm.trans hdebt'
      · rename_i hij
        exact hij (agree.owner i j _ _ hdebt hdebt' rfl)

/-- The execution of an open approval waits for it, unless it has been cancelled since. -/
theorem ReachableWithin.waits_or_cancelled (h : ReachableWithin ok c) : ∀ x a, OpenApproval c x a →
    (c.state.status x = some .waitingApproval ↔ c.cancelledSince a x = false) := by
  refine h.invariant (I := fun c => ∀ x a, OpenApproval c x a →
    (c.state.status x = some .waitingApproval ↔ c.cancelledSince a x = false)) ?_ (fun _ _ h => h) ?_ ?_
  · rintro s hs x a ⟨row, hrow, _⟩
    rw [App.start_state, hs.approvals] at hrow
    cases hrow
  · intro d change h x a hopen
    have hopen : OpenApproval d x a := by simpa [OpenApproval] using hopen
    simpa [App.cancelledSince] using h x a hopen
  · intro d i call o k r s hd hw hi _ heff h x a hopen
    have hset := (hd.monitored Call.code_settling).allowed hw
    rw [App.next_cancelledSince, App.next_state]
    by_cases hasks : asksFor a (⟨i, o, r⟩ : Statement W) = true
    · obtain ⟨row, hrow, hwaits⟩ := asked_waits hi heff hasks
      obtain ⟨row', hrow', rfl, _⟩ := hopen
      obtain rfl := Option.some.inj (hrow.symm.trans hrow')
      simp [hasks, hwaits]
    · have hopen' := open_before hd hi heff hasks hopen
      by_cases hcancels : cancels x o r = true
      · simp [hasks, hcancels, cancelled_status heff hcancels]
      · have same : s.status x = d.state.status x := by
          obtain ⟨status, hstatus, hor⟩ := hd.approvalsAgree.waits x a hopen'
          rcases heff.status x with he | ⟨_, hchange, _⟩
          · exact he
          exfalso
          cases hchange with
          | inserted row hx =>
            rw [State.status, hd.allocated x hx.ge] at hstatus
            cases hstatus
          | cancelled => exact hcancels (by simp [cancels])
          | moved hc hr hx hg =>
            cases hc with
            | guarded attempt g t =>
              obtain ⟨y, seq, hguarded⟩ := hi
              obtain rfl := Option.some.inj (hg.symm.trans hstatus)
              rcases hor with hwaits | hended
              · cases hguarded <;> cases hwaits
              · exact hguarded.expected hended
          | resumed hc hr hx => exact settled_closed hd hi heff hset hasks hc hr hx hopen
        simpa [hasks, hcancels, same] using h x a hopen'

/-- The approval can still be decided, or its execution does not wait for it any more. -/
def App.CanMoveOn (c : App W) (a : Id) : Prop :=
  ∃ row, c.state.approvals a = some row ∧
    (row.status = .pending ∨ c.state.status row.executionId ≠ some .waitingApproval)

/-- An approve or reject that ends with an exception strands the execution, unless this has been cancelled. -/
theorem stranded_unless_cancelled (h : ReachableWithin ok c) {status : ApprovalStatus} {failure : Failure}
    (hdecides : call.decides = some (a, status)) (hraised : c.threads[i]? = some ⟨call, .raise failure⟩) :
    c.CanMoveOn a ↔ ∃ row, c.state.approvals a = some row ∧ c.cancelledSince a row.executionId = true := by
  obtain ⟨expired, hdebt⟩ : Owing a failure _ := (h.monitored Call.code_settling).2 i _ hraised a status hdecides
  obtain ⟨row, hrow, hp⟩ := h.approvalsAgree.owed i _ hdebt
  have waits := h.waits_or_cancelled row.executionId a ⟨row, hrow, rfl, .inr ⟨i, expired, hdebt⟩⟩
  have moves : c.state.status row.executionId ≠ some .waitingApproval ↔
      c.cancelledSince a row.executionId = true := by
    rw [Ne, waits, Bool.not_eq_false]
  constructor
  · rintro ⟨row', hrow', hor⟩
    obtain rfl := Option.some.inj (hrow.symm.trans hrow')
    exact ⟨row, hrow, moves.1 (hor.resolve_left hp)⟩
  · rintro ⟨row', hrow', hcancelled⟩
    obtain rfl := Option.some.inj (hrow.symm.trans hrow')
    exact ⟨row, hrow, .inr (moves.2 hcancelled)⟩

/-- A further submission for execution 0, which puts one event into its log before it is turned away. -/
def followUp (n : Nat) : SubmitActionRequest where
  externalRequestId := toString n
  safeopsAgentId := 0
  executionId := some 0
  toolName := "refund_payment"
  arguments := .dict []

/-- Thread 2 rejects approval 3, while a submission gets its event in before each round of the rejection. -/
def collidingMoves : List (Move Call Change) :=
  startMoves ++ gatewayMoves 27 ++ arrival (.reject 3 ⟨7, "operator"⟩ none) 2 8 ++
    (List.range 5).flatMap fun n => arrival (.submit 0 (followUp n)) (3 + n) 7 ++ [.run 2, .run 2]

/-- The installation there. -/
def afterColliding : App bench := afterMoves .requireApproval collidingMoves

theorem afterColliding_reachable : Reachable afterColliding := afterMoves_reachable _ _

theorem afterColliding_raised :
    ∃ failure, afterColliding.threads[2]? = some ⟨.reject 3 ⟨7, "operator"⟩ none, .raise failure⟩ :=
  raised_at rfl (by decide +kernel)

theorem stranded_unless_cancelled_rejected : ¬afterColliding.CanMoveOn 3 := by
  obtain ⟨failure, hraised⟩ := afterColliding_raised
  intro hmoves
  obtain ⟨row, hrow, hcancelled⟩ := (stranded_unless_cancelled afterColliding_reachable rfl hraised).1 hmoves
  have never : (afterColliding.state.approvals 3).all
      fun row => !afterColliding.cancelledSince 3 row.executionId := by decide +kernel
  simp [hrow, hcancelled] at never

/-- The approval has been rejected then, and its execution still waits for it. -/
theorem rejection_strands :
    ¬∀ (c : App bench) (i : Nat) (a : Id) (operator : Operator) (reason : Option String) (failure : Failure),
      Reachable c → c.threads[i]? = some ⟨.reject a operator reason, .raise failure⟩ → c.CanMoveOn a := by
  intro h
  obtain ⟨failure, hraised⟩ := afterColliding_raised
  obtain ⟨row, hrow, hor⟩ := h _ _ _ _ _ _ afterColliding_reachable hraised
  have strands : (afterColliding.state.approvals 3).all fun row => row.status ≠ .pending ∧
      afterColliding.state.status row.executionId = some .waitingApproval := by decide +kernel
  rw [hrow] at strands
  simp only [Option.all_some, decide_eq_true_eq] at strands
  exact hor.elim strands.1 fun hmoved => hmoved strands.2

end SafeOps
