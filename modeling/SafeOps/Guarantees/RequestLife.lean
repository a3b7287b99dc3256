import SafeOps.Concurrent.Records
import SafeOps.Guarantees.OneApproval
import SafeOps.Observers.Service

/-! The life of a tool request: it is answered at once or sent for an approval, and what it was answered
stays on file. -/

namespace SafeOps
open Concurrent Program

variable {W : World} {ok : App W → Statement W → Prop} {c d : App W}

/-- A tool request is closed by its gateway call, or sent for the approval that closes it. -/
inductive ToolRequestStatus.Moves : ToolRequestStatus → ToolRequestStatus → Prop
  | answer {s : ToolRequestStatus} : s.Closed → Moves .requested s
  | ask : Moves .requested .requiresApproval
  | resolve {s : ToolRequestStatus} : s.Closed → Moves .requiresApproval s

namespace ToolRequestStatus

theorem moves_requested (s : ToolRequestStatus) : Relation.ReflTransGen Moves .requested s := by
  cases s with
  | requested => exact .refl
  | requiresApproval => exact .single .ask
  | executed => exact .single (.answer (.inl rfl))
  | denied => exact .single (.answer (.inr (.inl rfl)))
  | failed => exact .single (.answer (.inr (.inr rfl)))

end ToolRequestStatus

section Agreement

variable {m : Server} {n : Settler}

/-- The tool request left in `REQUESTED` is the one on file for the open gateway call, and an expiry to record
is owed. -/
structure FollowsSettler (m : Server) (n : Settler) : Prop where
  pending : ∀ q, m.pending = some q → n.request = some q
  expired : m.expired = true → n.debt.any (·.expired) = true

theorem FollowsSettler.left (h : FollowsSettler m n) {t : Txn} {q : Id}
    (hq : Server.left m.pending t.toolRequest = some q) : n.filed t = some q := by
  unfold Settler.filed
  rcases ht : t.toolRequest with _ | ⟨q', row⟩ | ⟨q', u⟩
  · rw [ht] at hq
    exact h.pending q hq
  · rw [ht] at hq
    exact (Option.ite_none_right_eq_some.1 hq).2
  · rw [ht] at hq
    exact h.pending q (Option.ite_none_right_eq_some.1 hq).2

theorem FollowsSettler.next (h : FollowsSettler m n) {o : Op W.Tables} (hok : settling.ok n o) (r : o.Reply) :
    FollowsSettler (serving.next m o r) (settling.next n o r) := by
  rcases o with q | w | e | _
  · cases q <;> exact ⟨h.pending, h.expired⟩
  · cases w with
    | commit attempt t =>
      cases (show CommitOutcome from r) with
      | committed => exact ⟨fun q hq => h.left hq, fun he => by cases he⟩
      | collision | violation => exact h
    | commitIf attempt g t =>
      simp only [serving, settling]
      split
      · exact ⟨fun q hq => h.left hq, h.expired⟩
      · exact h
    | claimApproval a status now by' =>
      cases (show Bool from r) with
      | false => exact h
      | true =>
        refine ⟨h.pending, fun hm => ?_⟩
        have owed := h.expired hm
        rw [show n.debt = none from hok] at owed
        cases owed
    | expireApproval a now =>
      cases (show Bool from r) with
      | false => exact h
      | true => exact ⟨h.pending, fun _ => rfl⟩
    | _ => exact h
  · cases e with
    | gatewayEnter | gatewayReturn | gatewayRaise => exact ⟨fun _ hq => (by cases hq), h.expired⟩
    | _ => exact h
  · exact h

/-- A tool request left in `REQUESTED` was so before, or has just been filed. -/
theorem serving_pending {o : Op W.Tables} {r : o.Reply} {q : Id} (h : (serving.next m o r).pending = some q) :
    (m.pending = some q ∧ ∀ g t p u, Commits o r g t → t.toolRequest = some (.update p u) →
      u.status = .requested) ∨
    ∃ g t row, Commits o r g t ∧ t.toolRequest = some (.insert q row) ∧ row.status = .requested := by
  have chunk {g : Option StatusGuard} {t : Txn} (hc : Commits o r g t)
      (h : Server.left m.pending t.toolRequest = some q) :
      (m.pending = some q ∧ ∀ g t p u, Commits o r g t → t.toolRequest = some (.update p u) →
        u.status = .requested) ∨
      ∃ g t row, Commits o r g t ∧ t.toolRequest = some (.insert q row) ∧ row.status = .requested := by
    rcases ht : t.toolRequest with _ | ⟨p, row⟩ | ⟨p, u⟩ <;> rw [ht] at h
    · refine .inl ⟨h, fun g' t' p u hc' ht' => ?_⟩
      obtain ⟨_, rfl⟩ := hc.unique hc'
      cases ht.symm.trans ht'
    · obtain ⟨hs, hq⟩ := Option.ite_none_right_eq_some.1 h
      obtain rfl := Option.some.inj hq
      exact .inr ⟨g, t, row, hc, ht, hs⟩
    · obtain ⟨hs, hq⟩ := Option.ite_none_right_eq_some.1 h
      refine .inl ⟨hq, fun g' t' p' u' hc' ht' => ?_⟩
      obtain ⟨_, rfl⟩ := hc.unique hc'
      obtain ⟨_, rfl⟩ := ToolRequestWrite.update.inj (Option.some.inj (ht.symm.trans ht'))
      exact hs
  have silent (hn : ∀ g t, ¬Commits o r g t) (h : m.pending = some q) :
      (m.pending = some q ∧ ∀ g t p u, Commits o r g t → t.toolRequest = some (.update p u) →
        u.status = .requested) ∨
      ∃ g t row, Commits o r g t ∧ t.toolRequest = some (.insert q row) ∧ row.status = .requested :=
    .inl ⟨h, fun g t _ _ hc => absurd hc (hn g t)⟩
  rcases o with _ | w | e | _
  · exact silent (fun _ _ hc => by cases hc) h
  · cases w with
    | commit attempt t =>
      cases hr : (show CommitOutcome from r) with
      | committed =>
        obtain rfl : r = CommitOutcome.committed := hr
        exact chunk (.plain attempt t) h
      | collision | violation =>
        subst hr
        exact silent (fun _ _ hc => by cases hc) h
    | commitIf attempt g t =>
      by_cases hr : (show GuardedOutcome from r) = .finished .committed
      · obtain rfl : r = GuardedOutcome.finished .committed := hr
        exact chunk (.guarded attempt g t) h
      · simp only [serving, if_neg hr] at h
        refine silent (fun _ _ hc => ?_) h
        cases hc
        exact hr rfl
    | expireApproval a now =>
      refine silent (fun _ _ hc => by cases hc) ?_
      cases hr : (show Bool from r) <;> subst hr <;> exact h
    | _ => exact silent (fun _ _ hc => by cases hc) h
  · cases e with
    | gatewayEnter | gatewayReturn | gatewayRaise => cases h
    | _ => exact silent (fun _ _ hc => by cases hc) h
  · exact silent (fun _ _ hc => by cases hc) h

/-- What a call owes it owed before, or it has just taken that approval out of `PENDING`. -/
theorem settling_owed {o : Op W.Tables} {r : o.Reply} {debt : Debt} (h : (settling.next n o r).debt = some debt) :
    n.debt = some debt ∧ (∀ t, Commits o r none t → n.settles t = false) ∨
      leavesPending debt.approvalId (⟨0, o, r⟩ : Statement W) = true := by
  rcases o with q | w | e | _
  · cases q <;> exact .inl ⟨h, fun _ hc => by cases hc⟩
  · cases w with
    | commit attempt t =>
      cases hr : (show CommitOutcome from r) with
      | committed =>
        obtain rfl : r = CommitOutcome.committed := hr
        have h : (if n.settles t then none else n.debt) = some debt := h
        split at h
        · cases h
        · refine .inl ⟨h, fun t' hc => ?_⟩
          cases hc
          exact Bool.eq_false_iff.2 ‹_›
      | collision | violation =>
        subst hr
        exact .inl ⟨h, fun _ hc => by cases hc⟩
    | commitIf attempt g t =>
      refine .inl ⟨?_, fun _ hc => by cases hc⟩
      simp only [settling] at h
      split at h <;> exact h
    | claimApproval a status now by' | expireApproval a now =>
      cases hr : (show Bool from r) with
      | false =>
        subst hr
        exact .inl ⟨h, fun _ hc => by cases hc⟩
      | true =>
        subst hr
        obtain rfl := Option.some.inj h
        exact .inr (by simp [leavesPending])
    | _ => exact .inl ⟨h, fun _ hc => by cases hc⟩
  · cases e <;> exact .inl ⟨h, fun _ hc => by cases hc⟩
  · exact .inl ⟨h, fun _ hc => by cases hc⟩

end Agreement

/-- Tool requests left in `REQUESTED` are found so by the gateway calls that close them, and those of open
approvals wait for a decision. -/
structure RequestsServed (c : App W) : Prop where
  follows : ∀ i, FollowsSettler (c.past serving {} i) (c.past settling {} i)
  pending : ∀ i q, (c.past serving {} i).pending = some q →
    ∃ request, c.state.toolRequests q = some request ∧ request.status = .requested
  waits : ∀ x a row, OpenApproval c x a → c.state.approvals a = some row →
    ∃ request, c.state.toolRequests row.toolRequestId = some request ∧ request.status = .requiresApproval

/-- The call of thread `i` settles the approval it owes, and thereby closes its tool request `q`. -/
structure Concludes (d : App W) (i : Nat) (t : Txn) (q a : Id) : Prop where
  debt : ∃ expired, (d.past settling {} i).debt = some ⟨a, expired⟩
  row : ∃ row, d.state.approvals a = some row ∧ row.toolRequestId = q
  settles : (d.past settling {} i).settles t = true
  closes : t.Closes

namespace RequestsServed

variable {i : Nat} {call : Call} {o : Op W.Tables} {k : o.Reply → Db W CallResult} {r : o.Reply}
  {s : State W.Domain} {q a : Id}

section Step

variable (h : RequestsServed d) (hd : ReachableWithin ok d)
include h hd

/-- At most one call is to close a tool request. -/
theorem owner {j : Nat} (hi : (d.past serving {} i).pending = some q)
    (hj : (d.past serving {} j).pending = some q) : i = j := by
  obtain ⟨f, hf, hfq⟩ := hd.requestsAgree.follows i q ((h.follows i).pending q hi)
  obtain ⟨f', hf', hfq'⟩ := hd.requestsAgree.follows j q ((h.follows j).pending q hj)
  exact hd.requestsHold.owner i j f f' q hf hf' hfq hfq'

/-- Who updates a tool request: the call that filed it, or the one that settles its approval. -/
theorem updates (hserve : serving.ok (d.past serving {} i) o) (hset : settling.ok (d.past settling {} i) o)
    {g : Option StatusGuard} {t : Txn} {u : ToolRequestUpdate} (hc : Commits o r g t)
    (ht : t.toolRequest = some (.update q u)) :
    (d.past serving {} i).pending = some q ∨ g = none ∧ ∃ a, Concludes d i t q a := by
  cases hc with
  | guarded attempt g t => exact .inl (hserve q u ht)
  | plain attempt t =>
    rcases hserve with howns | ⟨hcloses, hor⟩
    · exact .inl (howns q u ht)
    · have settles : (d.past settling {} i).settles t = true := by
        rcases hor with hr | he
        · simp [Settler.settles, hr]
        · simp [Settler.settles, (h.follows i).expired he]
      obtain ⟨a, row, hpays⟩ := hset.1 settles
      obtain ⟨row', hrow', hasked⟩ := hd.endorsed (i := i) (settling_approvals d.history i ▸ hpays.read)
      exact .inr ⟨rfl, a, hpays.debt, ⟨row', hrow', (ApprovalRequest.toolRequestId_congr hasked).trans
        (hpays.toolRequest q u ht).symm⟩, settles, hcloses⟩

/-- The tool request of an approval owed waits. -/
theorem Concludes.waits {t : Txn} (hcon : Concludes d i t q a) :
    ∃ request, d.state.toolRequests q = some request ∧ request.status = .requiresApproval := by
  obtain ⟨expired, hdebt⟩ := hcon.debt
  obtain ⟨row, hrow, rfl⟩ := hcon.row
  obtain ⟨_, _, _, hopen⟩ := hd.approvalsAgree.open_of_debt hdebt
  exact h.waits _ a row hopen hrow

theorem pending_next (hserve : serving.ok (d.past serving {} i) o) (hset : settling.ok (d.past settling {} i) o)
    (heff : Effect d.state o r s) {j : Nat} (hq : ((App.next d i call o k r s).past serving {} j).pending = some q) :
    ∃ request, s.toolRequests q = some request ∧ request.status = .requested := by
  have older (hj : (d.past serving {} j).pending = some q) (hown : i = j → ∀ g t p u, Commits o r g t →
      t.toolRequest = some (.update p u) → u.status = .requested) :
      ∃ request, s.toolRequests q = some request ∧ request.status = .requested := by
    obtain ⟨request, hrequest, hs⟩ := h.pending j q hj
    rcases heff.toolRequest q with he | ⟨g, t, hc, ⟨_, _, _, hfree, _⟩ | ⟨u, ht, he⟩⟩
    · exact ⟨request, he.trans hrequest, hs⟩
    · rw [hfree] at hrequest
      cases hrequest
    · refine ⟨u.apply request, by rw [he, hrequest]; rfl, ?_⟩
      rcases h.updates hd hserve hset hc ht with hi | ⟨_, a, hcon⟩
      · exact hown (h.owner hd hi hj) g t q u hc ht
      · obtain ⟨request', hrequest', hs'⟩ := Concludes.waits h hd hcon
        obtain rfl := Option.some.inj (hrequest.symm.trans hrequest')
        cases hs.symm.trans hs'
  rw [App.next_past] at hq
  split at hq
  · rename_i hij
    subst hij
    rcases serving_pending hq with ⟨hi, hown⟩ | ⟨g, t, row, hc, ht, hs⟩
    · exact older hi fun _ => hown
    · obtain ⟨_, _, _, startedAt, rfl⟩ := heff.of_commits hc
      exact ⟨{ row with requestedAt := startedAt }, by simp [ht, State.writeToolRequest], hs⟩
  · exact older hq fun hij => absurd hij ‹_›

omit h in
/-- An approval that is open after the step, and was on file before it, was open before it, and the step has not
settled it. -/
theorem open_before (hi : Issued o) (heff : Effect d.state o r s) {x : Id} {row : ApprovalRequest} (hrow : d.state.approvals a = some row)
    (hopen : OpenApproval (App.next d i call o k r s) x a) :
    OpenApproval d row.executionId a ∧ ∀ t expired, Commits o r none t →
      (d.past settling {} i).debt = some ⟨a, expired⟩ → (d.past settling {} i).settles t = false := by
  obtain ⟨row', hrow', _, hor⟩ := hopen
  have unowed (hp : row.status = .pending) (expired : Bool) :
      (d.past settling {} i).debt ≠ some ⟨a, expired⟩ := by
    intro hdebt
    obtain ⟨row₀, hrow₀, hp₀⟩ := hd.approvalsAgree.owed i _ hdebt
    exact hp₀ (Option.some.inj (hrow.symm.trans hrow₀) ▸ hp)
  have pending (hp : row.status = .pending) : OpenApproval d row.executionId a ∧ ∀ t expired,
      Commits o r none t → (d.past settling {} i).debt = some ⟨a, expired⟩ →
        (d.past settling {} i).settles t = false :=
    ⟨⟨row, hrow, rfl, .inl hp⟩, fun _ expired _ hdebt => absurd hdebt (unowed hp expired)⟩
  rcases hor with hp | ⟨j, expired, hdebt⟩
  · rcases heff.approvals a with he | ⟨row₂, hchange, he⟩
    · exact pending (Option.some.inj (hrow.symm.trans (he.symm.trans hrow')) ▸ hp)
    · obtain rfl := Option.some.inj (he.symm.trans hrow')
      cases hchange with
      | inserted _ _ _ hfree => exact absurd hrow (by simp [hfree])
      | claimed => rcases hi with rfl | rfl <;> cases hp
      | expired | executed => cases hp
  · rw [App.next_past] at hdebt
    split at hdebt
    · rename_i hij
      subst hij
      rcases settling_owed hdebt with ⟨hold, hkept⟩ | hleaves
      · exact ⟨⟨row, hrow, rfl, .inr ⟨i, expired, hold⟩⟩, fun t _ hc _ => hkept t hc⟩
      · obtain ⟨row₀, hrow₀, hp₀⟩ := (ClaimsHold.left_of_effect (i := 0) hi heff hleaves).1
        exact pending (Option.some.inj (hrow.symm.trans hrow₀) ▸ hp₀)
    · rename_i hij
      exact ⟨⟨row, hrow, rfl, .inr ⟨j, expired, hdebt⟩⟩, fun t _ _ howed =>
        absurd (hd.approvalsAgree.owner i j _ _ howed hdebt rfl) hij⟩

theorem waits_next (hok : framing.ok (d.past framing none i) o) (hserve : serving.ok (d.past serving {} i) o)
    (hset : settling.ok (d.past settling {} i) o) (hi : Issued o) (heff : Effect d.state o r s) {x : Id}
    {row' : ApprovalRequest} (hopen : OpenApproval (App.next d i call o k r s) x a)
    (hrow' : s.approvals a = some row') :
    ∃ request, s.toolRequests row'.toolRequestId = some request ∧ request.status = .requiresApproval := by
  have older {row : ApprovalRequest} (hrow : d.state.approvals a = some row)
      (hq : row'.toolRequestId = row.toolRequestId) :
      ∃ request, s.toolRequests row'.toolRequestId = some request ∧ request.status = .requiresApproval := by
    obtain ⟨hbefore, hkept⟩ := open_before hd hi heff hrow hopen
    obtain ⟨request, hrequest, hs⟩ := h.waits _ a row hbefore hrow
    rw [hq]
    rcases heff.toolRequest row.toolRequestId with he | ⟨g, t, hc, ⟨_, _, _, hfree, _⟩ | ⟨u, ht, he⟩⟩
    · exact ⟨request, he.trans hrequest, hs⟩
    · rw [hfree] at hrequest
      cases hrequest
    · rcases h.updates hd hserve hset hc ht with hpending | ⟨rfl, b, hcon⟩
      · obtain ⟨request', hrequest', hs'⟩ := h.pending i _ hpending
        obtain rfl := Option.some.inj (hrequest.symm.trans hrequest')
        cases hs.symm.trans hs'
      · -- the approval settled is this one, as the tool request has no other
        obtain ⟨row₀, hrow₀, hq₀⟩ := hcon.row
        obtain ⟨expired, hdebt⟩ := hcon.debt
        obtain rfl := hd.requestsHold.askedOnce a b row row₀ hrow hrow₀ hq₀.symm
        cases hcon.settles.symm.trans (hkept t expired hc hdebt)
  rcases heff.approvals a with he | ⟨row, hchange, he⟩
  · exact older (he.symm.trans hrow') rfl
  obtain rfl := Option.some.inj (he.symm.trans hrow')
  cases hchange with
  | claimed status now resolver row hrow => exact older hrow rfl
  | expired now row hrow => exact older hrow rfl
  | executed now row _ _ hrow => exact older hrow rfl
  | @inserted o r g t row hc ht hfree =>
    obtain ⟨f, hf, hesc⟩ := framing_approval hok hc ht
    obtain ⟨request, hrequest, _⟩ := hd.requestsAgree.filed i f _ hf hesc.request
    obtain ⟨_, _, _, startedAt, rfl⟩ := heff.of_commits hc
    cases hc with
    | plain attempt t =>
      obtain ⟨x, seq, hplain⟩ := hi
      exact absurd ht (hplain.inserts a row)
    | guarded attempt g t =>
      obtain ⟨x, seq, hguarded⟩ := hi
      obtain ⟨completedAt, hu⟩ := hguarded.requests ht
      refine ⟨ToolRequestUpdate.apply { status := .requiresApproval, completedAt } request, ?_, rfl⟩
      simp [hu, World.guarded, State.writeToolRequest, State.modifyToolRequest, State.modifyExecution, hrequest]

theorem next (hok : framing.ok (d.past framing none i) o) (hserve : serving.ok (d.past serving {} i) o)
    (hset : settling.ok (d.past settling {} i) o) (hi : Issued o) (heff : Effect d.state o r s) :
    RequestsServed (App.next d i call o k r s) := by
  refine ⟨fun j => ?_, fun j q hq => h.pending_next hd hserve hset heff hq,
    fun x a row hopen hrow => h.waits_next hd hok hserve hset hi heff hopen hrow⟩
  rw [App.next_past, App.next_past]
  split
  · rename_i hij
    subst hij
    exact (h.follows i).next hset r
  · exact h.follows j

end Step

end RequestsServed

theorem ReachableWithin.requestsServed (h : ReachableWithin ok c) : RequestsServed c := by
  refine h.invariant ?_ ?_ ?_ ?_
  · intro s hs
    refine ⟨fun i => ⟨fun _ hq => (by cases hq), fun he => (by cases he)⟩, fun i q hq => (by cases hq),
      fun x a row _ hrow => ?_⟩
    simp [hs.approvals] at hrow
  · exact fun d call h => ⟨h.follows, h.pending, h.waits⟩
  · intro d change h
    exact ⟨h.follows, by simpa using h.pending, fun x a row hopen hrow => by
      simpa using h.waits x a row (by simpa [OpenApproval] using hopen) (by simpa using hrow)⟩
  · intro d i call o k r s hd hw hi _ heff h
    exact h.next hd ((hd.monitored Call.code_framing).allowed hw) ((hd.monitored Call.code_serving).allowed hw)
      ((hd.monitored Call.code_settling).allowed hw) hi heff

/-- What a tool request asks for, apart from what became of it. -/
def ToolRequest.filing (row : ToolRequest) : ToolRequest :=
  { row with status := .requested, completedAt := none, result := none, error := none }

/-- A tool request later on: it asks the same, has moved along its life, and once closed is left alone. -/
structure ToolRequest.Becomes (row row' : ToolRequest) : Prop where
  filing : row'.filing = row.filing
  moves : Relation.ReflTransGen ToolRequestStatus.Moves row.status row'.status
  final : row.status.Closed → row' = row

namespace ToolRequest.Becomes

theorem refl (row : ToolRequest) : row.Becomes row := ⟨rfl, .refl, fun _ => rfl⟩

theorem trans {row row' row'' : ToolRequest} (h : row.Becomes row') (h' : row'.Becomes row'') :
    row.Becomes row'' where
  filing := h'.filing.trans h.filing
  moves := h.moves.trans h'.moves
  final hs := by
    obtain rfl := h.final hs
    exact h'.final hs

end ToolRequest.Becomes

/-- One statement keeps every tool request on file and moves at most one, along its life. -/
theorem RequestsServed.becomes (h : RequestsServed d) (hd : ReachableWithin ok d) {i : Nat} {o : Op W.Tables}
    {r : o.Reply} {s : State W.Domain} (hserve : serving.ok (d.past serving {} i) o)
    (hset : settling.ok (d.past settling {} i) o) (heff : Effect d.state o r s) :
    Evolves ToolRequest.Becomes d.state.toolRequests s.toolRequests := by
  refine .of_rows .refl fun q => ?_
  rcases heff.toolRequest q with he | ⟨g, t, hc, ⟨_, _, _, hfree, _⟩ | ⟨u, ht, he⟩⟩
  · exact .inl he
  · exact .inr (.inl hfree)
  · right; right
    rcases h.updates hd hserve hset hc ht with hpending | ⟨_, a, hcon⟩
    · obtain ⟨request, hrequest, hs⟩ := h.pending i q hpending
      refine ⟨request, u.apply request, hrequest, by rw [he, hrequest]; rfl, rfl, ?_, fun hclosed => ?_⟩
      · rw [hs]
        exact ToolRequestStatus.moves_requested _
      · rw [hs] at hclosed
        rcases hclosed with hs | hs | hs <;> cases hs
    · obtain ⟨request, hrequest, hs⟩ := Concludes.waits h hd hcon
      refine ⟨request, u.apply request, hrequest, by rw [he, hrequest]; rfl, rfl, ?_, fun hclosed => ?_⟩
      · rw [hs]
        exact .single (.resolve (hcon.closes q u ht))
      · rw [hs] at hclosed
        rcases hclosed with hs | hs | hs <;> cases hs

/-- In every run a tool request stays on file as it was asked; it is closed by its gateway call or sent for an
approval that closes it, and once closed its row never changes. As long as its approval is pending, or taken out of
`PENDING` and not settled, it waits. -/
theorem tool_request_life {c d : App W} (hc : Reachable c) (h : Run W.system c d) :
    Evolves ToolRequest.Becomes c.state.toolRequests d.state.toolRequests ∧
      ∀ x a row, OpenApproval d x a → d.state.approvals a = some row →
        ∃ request, d.state.toolRequests row.toolRequestId = some request ∧ request.status = .requiresApproval := by
  refine ⟨?_, ?_⟩
  · refine hc.onwards (I := fun d => Evolves ToolRequest.Becomes c.state.toolRequests d.state.toolRequests) h
      (.refl .refl _) (fun _ _ h => h) (fun d change h => by simpa using h) ?_
    intro d i call o k r s hd hw _ _ heff h
    exact h.trans .trans (hd.requestsServed.becomes hd ((hd.monitored Call.code_serving).allowed hw)
      ((hd.monitored Call.code_settling).allowed hw) heff)
  · obtain ⟨c₀, h₀, hsteps⟩ := hc
    have hd : Reachable d := ⟨c₀, h₀, hsteps.trans h⟩
    exact hd.requestsServed.waits

theorem tool_request_life_approved :
    ((afterMoves .requireApproval (startMoves ++ gatewayMoves 27)).state.toolRequests 1).any
      (·.status = .requiresApproval) = true ∧
    (((afterMoves .requireApproval (startMoves ++ gatewayMoves 27)).replay bench.system
      (arrival (.approve 3 ⟨0, "operator"⟩) 2 15)).state.toolRequests 1).any (·.status = .executed) = true ∧
    Evolves ToolRequest.Becomes
      (afterMoves .requireApproval (startMoves ++ gatewayMoves 27)).state.toolRequests
      ((afterMoves .requireApproval (startMoves ++ gatewayMoves 27)).replay bench.system
        (arrival (.approve 3 ⟨0, "operator"⟩) 2 15)).state.toolRequests :=
  ⟨by decide +kernel, by decide +kernel, (tool_request_life (afterMoves_reachable _ _) (run_replay _ .refl)).1⟩

end SafeOps
