import SafeOps.Observers.Filing
import SafeOps.Guarantees.Mediation
import SafeOps.Guarantees.TerminalStatus

/-! At most one open approval: an execution waits exactly for the one approval that is not settled yet. -/

namespace SafeOps
open Concurrent Program

variable {W : World} {ok : App W → Statement W → Prop} {c d : App W}

section Agreement

/-- Both monitors have read the same approvals. -/
theorem settling_approvals (h : List (Statement W)) (i : Nat) :
    (settling.after {} i h).approvals = (endorsing.after {} i h).approvals := by
  induction h with
  | nil => rfl
  | cons e h ih =>
    by_cases hi : e.thread = i
    · subst hi
      rw [Monitor.after_self, Monitor.after_self]
      obtain ⟨i, o, r⟩ := e
      rcases o with q | w | n | _
      · cases q <;> first | exact ih | exact congrArg _ ih
      · cases w <;> simp only [settling, endorsing] <;> (try split) <;> exact ih
      · cases n <;> exact ih
      · exact ih
    · rw [Monitor.after_other hi, Monitor.after_other hi]
      exact ih

section Requests

variable {m : Settler} {f : Option Frame} {q : Id} {t : Txn}

/-- The tool request followed is that of the open gateway call. -/
def FollowsFrame (m : Settler) (f : Option Frame) : Prop :=
  ∀ q, m.request = some q → ∃ g, f = some g ∧ g.request = some q

theorem FollowsFrame.filed (h : FollowsFrame m f)
    (hfiles : ∀ q row, t.toolRequest = some (.insert q row) → ∃ g, f = some g) (hq : m.filed t = some q) :
    ∃ g, f = some g ∧ (g.commit t).request = some q := by
  unfold Settler.filed at hq
  unfold Frame.commit
  rcases ht : t.toolRequest with _ | ⟨q', row⟩ | ⟨q', u⟩
  · rw [ht] at hq
    exact h q hq
  · rw [ht] at hq
    obtain ⟨g, hg⟩ := hfiles q' row ht
    exact ⟨g, hg, hq⟩
  · rw [ht] at hq
    exact h q hq

theorem FollowsFrame.next (h : FollowsFrame m f) {o : Op W.Tables} (hok : framing.ok f o) (r : o.Reply) :
    FollowsFrame (settling.next m o r) (framing.next f o r) := by
  have observed {f' : Option Frame} {q : Id}
      (hf : ∀ g, f = some g → ∃ g', f' = some g' ∧ g'.request = g.request) (hq : m.request = some q) :
      ∃ g, f' = some g ∧ g.request = some q := by
    obtain ⟨g, hg, hgq⟩ := h q hq
    obtain ⟨g', hf', he⟩ := hf g hg
    exact ⟨g', hf', he.trans hgq⟩
  intro q
  rcases o with q' | w | n | _
  · cases q' <;> refine observed ?_ <;> rintro g rfl <;> refine ⟨_, rfl, ?_⟩ <;>
      simp only [Frame.observe] <;> split <;> rfl
  · cases w with
    | commit attempt t =>
      cases (show CommitOutcome from r) with
      | committed =>
        intro hq
        obtain ⟨g, rfl, hg⟩ := h.filed (t := t) (fun q' row ht => (hok.2.2 q' row ht).imp fun _ hg => hg.1) hq
        exact ⟨_, rfl, hg⟩
      | collision | violation =>
        refine observed ?_
        rintro g rfl
        exact ⟨g, rfl, rfl⟩
    | commitIf attempt g t =>
      by_cases hr : (show GuardedOutcome from r) = .finished .committed
      · intro hq
        obtain rfl : r = GuardedOutcome.finished .committed := hr
        obtain ⟨g, rfl, hg⟩ := h.filed (t := t) (fun q' row ht => absurd ht (hok.2.2.1 q' row)) hq
        exact ⟨_, rfl, hg⟩
      · simp only [settling]
        rw [if_neg hr]
        refine observed ?_
        rintro g rfl
        exact ⟨g, by simp only [framing, Option.map_some, Frame.observe]; rw [if_neg hr], rfl⟩
    | claimApproval | expireApproval =>
      simp only [settling]
      split <;> refine observed ?_ <;> rintro g rfl <;> exact ⟨g, rfl, rfl⟩
    | _ =>
      refine observed ?_
      rintro g rfl
      exact ⟨g, rfl, rfl⟩
  · cases n with
    | gatewayEnter | gatewayReturn | gatewayRaise =>
      intro hq
      cases hq
    | _ =>
      refine observed ?_
      rintro g rfl
      exact ⟨_, rfl, rfl⟩
  · refine observed ?_
    rintro g rfl
    exact ⟨g, rfl, rfl⟩

end Requests

end Agreement

theorem PlainTxn.approval_of_resume {x : Id} {seq : Nat} {t : Txn} (h : PlainTxn x seq t)
    (hr : t.resume = false) : t.approval = none := by
  cases h with
  | runtime h => exact h.approval
  | resolution _ h => cases h <;> first | rfl | cases hr
  | cancelled => rfl

/-- The chunk that asks for an approval leaves its tool request waiting for it. -/
theorem GuardedTxn.requests {x : Id} {seq : Nat} {g : StatusGuard} {t : Txn} (h : GuardedTxn x seq g t)
    {a : Id} {row : ApprovalRequest} (ht : t.approval = some (.insert a row)) :
    ∃ completedAt, t.toolRequest =
      some (.update row.toolRequestId { status := .requiresApproval, completedAt }) := by
  cases h with
  | started | terminal => cases ht
  | approval g escalated b row₀ requestedAt _ _ _ hq =>
    obtain ⟨_, rfl⟩ := ApprovalWrite.insert.inj (Option.some.inj ht)
    exact ⟨some requestedAt, by rw [hq]; rfl⟩

/-- The statement has taken an approval out of `PENDING`. -/
def takesApproval : (o : Op W.Tables) → o.Reply → Bool
  | .write (.claimApproval _ _ _ _), claimed => claimed
  | .write (.expireApproval _ _), expired => expired
  | _, _ => false

theorem ApprovalChange.taken {s : State W.Domain} {a : Id} {o : Op W.Tables} {r : o.Reply}
    {row : ApprovalRequest} (h : ApprovalChange s a o r row) :
    takesApproval o r = true ∨ ∃ g t w, Commits o r g t ∧ t.approval = some w := by
  cases h with
  | inserted _ hc ht | executed _ _ hc ht => exact .inr ⟨_, _, _, hc, ht⟩
  | claimed | expired => exact .inl rfl

/-- Approval `a` of execution `x` is not settled yet: it is pending, or a call has taken it out of
`PENDING` and has still to commit what follows. -/
def OpenApproval (c : App W) (x a : Id) : Prop :=
  ∃ row, c.state.approvals a = some row ∧ row.executionId = x ∧
    (row.status = .pending ∨ ∃ i expired, (c.past settling {} i).debt = some ⟨a, expired⟩)

/-- The open approvals, the debts of the calls and the statuses of the executions agree. -/
structure ApprovalsAgree (c : App W) : Prop where
  owed : ∀ i debt, (c.past settling {} i).debt = some debt →
    ∃ row, c.state.approvals debt.approvalId = some row ∧ row.status ≠ .pending
  owner : ∀ i j debt debt', (c.past settling {} i).debt = some debt →
    (c.past settling {} j).debt = some debt' → debt.approvalId = debt'.approvalId → i = j
  unique : ∀ x a b, OpenApproval c x a → OpenApproval c x b → a = b
  waits : ∀ x a, OpenApproval c x a →
    ∃ status, c.state.status x = some status ∧ (status = .waitingApproval ∨ status.Terminal)
  waited : ∀ x, c.state.status x = some .waitingApproval → ∃ a, OpenApproval c x a
  ended : ∀ i debt row status, (c.past settling {} i).debt = some debt →
    c.state.approvals debt.approvalId = some row →
    (c.past settling {} i).seen = some (row.executionId, status) → status ≠ some .waitingApproval →
    ∃ status, c.state.status row.executionId = some status ∧ status.Terminal

namespace ApprovalsAgree

variable {i : Nat} {call : Call} {o : Op W.Tables} {k : o.Reply → Db W CallResult} {r : o.Reply}
  {s : State W.Domain}

/-- A debt is of an open approval. -/
theorem open_of_debt (h : ApprovalsAgree c) {a : Id} {expired : Bool}
    (hd : (c.past settling {} i).debt = some ⟨a, expired⟩) :
    ∃ row, c.state.approvals a = some row ∧ row.status ≠ .pending ∧ OpenApproval c row.executionId a := by
  obtain ⟨row, hrow, hp⟩ := h.owed i _ hd
  exact ⟨row, hrow, hp, row, hrow, rfl, .inr ⟨i, expired, hd⟩⟩

/-- A step that leaves the approvals and the debts alone, and moves the status only of executions without
an open approval, or to a terminal status. -/
theorem kept (h : ApprovalsAgree d) (ha : ∀ a, s.approvals a = d.state.approvals a)
    (hdebt : ∀ j, ((App.next d i call o k r s).past settling {} j).debt = (d.past settling {} j).debt)
    (hseen : ∀ j seen, ((App.next d i call o k r s).past settling {} j).seen = some seen →
      (d.past settling {} j).seen = some seen ∨ seen.2 = d.state.status seen.1)
    (hstatus : ∀ x, s.status x = d.state.status x ∨ ∃ new, s.status x = some new ∧
      new ≠ .waitingApproval ∧ (new.Terminal ∨ ∀ a, ¬OpenApproval d x a) ∧
      ∀ old, d.state.status x = some old → ¬old.Terminal) :
    ApprovalsAgree (App.next d i call o k r s) := by
  have same {x a : Id} : OpenApproval (App.next d i call o k r s) x a ↔ OpenApproval d x a := by
    unfold OpenApproval
    simp only [App.next_state, ha, hdebt]
  have terminal {x : Id} (hx : ∃ status, d.state.status x = some status ∧ status.Terminal) :
      ∃ status, s.status x = some status ∧ status.Terminal := by
    obtain ⟨old, hold, ht⟩ := hx
    rcases hstatus x with he | ⟨_, _, _, _, hlive⟩
    · exact ⟨old, he.trans hold, ht⟩
    · exact absurd ht (hlive old hold)
  refine ⟨fun j debt hd => ?_, fun j j' debt debt' hd hd' he => ?_, fun x a b hx hx' =>
    h.unique x a b (same.1 hx) (same.1 hx'), fun x a hx => ?_, fun x hw => ?_,
    fun j debt row status hd hrow hs hne => ?_⟩
  · rw [App.next_state, ha]
    exact h.owed j debt ((hdebt j).symm.trans hd)
  · exact h.owner j j' debt debt' ((hdebt j).symm.trans hd) ((hdebt j').symm.trans hd') he
  · obtain ⟨old, hold, hor⟩ := h.waits x a (same.1 hx)
    rcases hstatus x with he | ⟨new, hnew, _, hor', _⟩
    · exact ⟨old, he.trans hold, hor⟩
    · exact ⟨new, hnew, .inr (hor'.resolve_right fun hn => hn a (same.1 hx))⟩
  · rcases hstatus x with he | ⟨new, hnew, hne, _⟩
    · obtain ⟨a, hx⟩ := h.waited x (he.symm.trans hw)
      exact ⟨a, same.2 hx⟩
    · exact absurd (Option.some.inj (hnew.symm.trans hw)) hne
  · have hd' := (hdebt j).symm.trans hd
    have hrow' : d.state.approvals debt.approvalId = some row := (ha _).symm.trans hrow
    refine terminal ?_
    rcases hseen j _ hs with hs | hs
    · exact h.ended j debt row status hd' hrow' hs hne
    · obtain ⟨status', hs', hor⟩ := h.waits row.executionId debt.approvalId
        ⟨row, hrow', rfl, .inr ⟨j, debt.expired, hd'⟩⟩
      refine ⟨status', hs', hor.resolve_left fun hw => hne ?_⟩
      rw [← hw, ← hs']
      exact hs

/-- A call takes a pending approval out of `PENDING`, and owes it from then on. -/
theorem claimed (h : ApprovalsAgree d) {a : Id} (expired : Bool) {row : ApprovalRequest}
    (row' : ApprovalRequest) (hrow : d.state.approvals a = some row) (hp : row.status = .pending) (hrow' : s.approvals a = some row')
    (hx : row'.executionId = row.executionId) (hp' : row'.status ≠ .pending)
    (hothers : ∀ b, b ≠ a → s.approvals b = d.state.approvals b)
    (hstatus : ∀ x, s.status x = d.state.status x)
    (hdebt : ∀ j, ((App.next d i call o k r s).past settling {} j).debt =
      if i = j then some ⟨a, expired⟩ else (d.past settling {} j).debt)
    (hfree : (d.past settling {} i).debt = none)
    (hseen : ∀ j, ((App.next d i call o k r s).past settling {} j).seen =
      if i = j then none else (d.past settling {} j).seen) :
    ApprovalsAgree (App.next d i call o k r s) := by
  have debt_cases {j : Nat} {debt : Debt}
      (hd : ((App.next d i call o k r s).past settling {} j).debt = some debt) :
      i = j ∧ debt = ⟨a, expired⟩ ∨ i ≠ j ∧ (d.past settling {} j).debt = some debt := by
    rw [hdebt] at hd
    split at hd
    · exact .inl ⟨‹_›, (Option.some.inj hd).symm⟩
    · exact .inr ⟨‹_›, hd⟩
  have unclaimed {j : Nat} {debt : Debt} (hd : (d.past settling {} j).debt = some debt) :
      debt.approvalId ≠ a := by
    rintro rfl
    obtain ⟨row₀, hrow₀, hp₀⟩ := h.owed j debt hd
    exact hp₀ (Option.some.inj (hrow.symm.trans hrow₀) ▸ hp)
  have same {x b : Id} : OpenApproval (App.next d i call o k r s) x b ↔ OpenApproval d x b := by
    by_cases hb : b = a
    · subst hb
      constructor
      · rintro ⟨row₁, hrow₁, rfl, _⟩
        obtain rfl := Option.some.inj (hrow'.symm.trans hrow₁)
        exact ⟨row, hrow, hx.symm, .inl hp⟩
      · rintro ⟨row₁, hrow₁, rfl, _⟩
        obtain rfl := Option.some.inj (hrow.symm.trans hrow₁)
        exact ⟨row', hrow', hx, .inr ⟨i, expired, by rw [hdebt, if_pos rfl]⟩⟩
    · constructor
      · rintro ⟨row₁, hrow₁, he, hor⟩
        refine ⟨row₁, (hothers b hb).symm.trans hrow₁, he, hor.imp_right ?_⟩
        rintro ⟨j, e, hd⟩
        rcases debt_cases hd with ⟨_, heq⟩ | ⟨_, hd⟩
        · exact absurd (congrArg Debt.approvalId heq) hb
        · exact ⟨j, e, hd⟩
      · rintro ⟨row₁, hrow₁, he, hor⟩
        refine ⟨row₁, (hothers b hb).trans hrow₁, he, hor.imp_right ?_⟩
        rintro ⟨j, e, hd⟩
        refine ⟨j, e, (hdebt j).trans ((if_neg fun hij => ?_).trans hd)⟩
        rw [hij, hd] at hfree
        cases hfree
  refine ⟨fun j debt hd => ?_, fun j j' debt debt' hd hd' he => ?_, fun x b b' hb hb' =>
    h.unique x b b' (same.1 hb) (same.1 hb'), fun x b hb => ?_, fun x hw => ?_,
    fun j debt row₁ status hd hrow₁ hs hne => ?_⟩
  · rcases debt_cases hd with ⟨_, rfl⟩ | ⟨_, hd⟩
    · exact ⟨row', hrow', hp'⟩
    · obtain ⟨row₀, hrow₀, hp₀⟩ := h.owed j debt hd
      exact ⟨row₀, (hothers _ (unclaimed hd)).trans hrow₀, hp₀⟩
  · rcases debt_cases hd with ⟨hij, rfl⟩ | ⟨_, hd⟩ <;> rcases debt_cases hd' with ⟨hij', rfl⟩ | ⟨_, hd'⟩
    · exact hij.symm.trans hij'
    · exact absurd he.symm (unclaimed hd')
    · exact absurd he (unclaimed hd)
    · exact h.owner j j' debt debt' hd hd' he
  · obtain ⟨status, hs, hor⟩ := h.waits x b (same.1 hb)
    exact ⟨status, (hstatus x).trans hs, hor⟩
  · obtain ⟨b, hb⟩ := h.waited x ((hstatus x).symm.trans hw)
    exact ⟨b, same.2 hb⟩
  · rw [App.next_state, hstatus]
    rw [hseen] at hs
    rcases debt_cases hd with ⟨hij, _⟩ | ⟨hij, hd⟩
    · rw [if_pos hij] at hs
      cases hs
    · rw [if_neg hij] at hs
      exact h.ended j debt row₁ status hd ((hothers _ (unclaimed hd)).symm.trans hrow₁) hs hne

/-- A gateway call asks for an approval, and its execution, which was running, waits for it. -/
theorem asked (h : ApprovalsAgree d) {a : Id} {row : ApprovalRequest}
    (hfree : d.state.approvals a = none) (hrow : s.approvals a = some row) (hp : row.status = .pending)
    (hothers : ∀ b, b ≠ a → s.approvals b = d.state.approvals b)
    (hrunning : d.state.status row.executionId = some .running)
    (hwaiting : s.status row.executionId = some .waitingApproval)
    (hstatus : ∀ x, x ≠ row.executionId → s.status x = d.state.status x)
    (hdebt : ∀ j, ((App.next d i call o k r s).past settling {} j).debt = (d.past settling {} j).debt)
    (hseen : ∀ j, ((App.next d i call o k r s).past settling {} j).seen = (d.past settling {} j).seen) :
    ApprovalsAgree (App.next d i call o k r s) := by
  have unasked {j : Nat} {debt : Debt} (hd : (d.past settling {} j).debt = some debt) :
      debt.approvalId ≠ a := by
    rintro rfl
    obtain ⟨row₀, hrow₀, _⟩ := h.owed j debt hd
    rw [hfree] at hrow₀
    cases hrow₀
  have none_open {b : Id} (hb : OpenApproval d row.executionId b) : False := by
    obtain ⟨status, hs, hor⟩ := h.waits _ b hb
    obtain rfl := Option.some.inj (hrunning.symm.trans hs)
    rcases hor with hw | ht
    · cases hw
    · rcases ht with ht | ht | ht | ht <;> cases ht
  have open_cases {x b : Id} (hb : OpenApproval (App.next d i call o k r s) x b) :
      b = a ∧ x = row.executionId ∨ OpenApproval d x b := by
    obtain ⟨row₁, hrow₁, rfl, hor⟩ := hb
    by_cases hba : b = a
    · subst hba
      obtain rfl := Option.some.inj (hrow.symm.trans hrow₁)
      exact .inl ⟨rfl, rfl⟩
    · refine .inr ⟨row₁, (hothers b hba).symm.trans hrow₁, rfl, hor.imp_right ?_⟩
      rintro ⟨j, e, hd⟩
      exact ⟨j, e, (hdebt j).symm.trans hd⟩
  refine ⟨fun j debt hd => ?_, fun j j' debt debt' hd hd' he => ?_, fun x b b' hb hb' => ?_,
    fun x b hb => ?_, fun x hw => ?_, fun j debt row₁ status hd hrow₁ hs hne => ?_⟩
  · rw [hdebt] at hd
    obtain ⟨row₀, hrow₀, hp₀⟩ := h.owed j debt hd
    exact ⟨row₀, (hothers _ (unasked hd)).trans hrow₀, hp₀⟩
  · exact h.owner j j' debt debt' ((hdebt j).symm.trans hd) ((hdebt j').symm.trans hd') he
  · rcases open_cases hb with ⟨rfl, rfl⟩ | hb <;> rcases open_cases hb' with ⟨rfl, hx⟩ | hb'
    · rfl
    · exact (none_open hb').elim
    · exact (none_open (hx ▸ hb)).elim
    · exact h.unique x b b' hb hb'
  · rcases open_cases hb with ⟨rfl, rfl⟩ | hb
    · exact ⟨_, hwaiting, .inl rfl⟩
    · obtain ⟨status, hs, hor⟩ := h.waits x b hb
      refine ⟨status, (hstatus x fun hx => ?_).trans hs, hor⟩
      exact none_open (hx ▸ hb)
  · by_cases hx : x = row.executionId
    · exact ⟨a, row, hrow, hx.symm, .inl hp⟩
    · obtain ⟨b, row₁, hrow₁, he, hor⟩ := h.waited x ((hstatus x hx).symm.trans hw)
      have hba : b ≠ a := by
        rintro rfl
        rw [hfree] at hrow₁
        cases hrow₁
      refine ⟨b, row₁, (hothers b hba).trans hrow₁, he, hor.imp_right ?_⟩
      rintro ⟨j, e, hd⟩
      exact ⟨j, e, (hdebt j).trans hd⟩
  · rw [hdebt] at hd
    rw [hseen] at hs
    have hrow₀ := (hothers _ (unasked hd)).symm.trans hrow₁
    have hopen : OpenApproval d row₁.executionId debt.approvalId :=
      ⟨row₁, hrow₀, rfl, .inr ⟨j, debt.expired, hd⟩⟩
    rw [App.next_state, hstatus _ fun hx => none_open (hx ▸ hopen)]
    exact h.ended j debt row₁ status hd hrow₀ hs hne

/-- A call settles the approval it owes. -/
theorem settled (h : ApprovalsAgree d) {a : Id} {expired : Bool} {row : ApprovalRequest}
    (howed : (d.past settling {} i).debt = some ⟨a, expired⟩) (hrow : d.state.approvals a = some row)
    (hafter : ∀ row', s.approvals a = some row' → row'.status ≠ .pending)
    (hothers : ∀ b, b ≠ a → s.approvals b = d.state.approvals b)
    (hresumed : s.status row.executionId = some .running ∨
      s.status row.executionId = d.state.status row.executionId ∧
        ∃ status, (d.past settling {} i).seen = some (row.executionId, status) ∧
          status ≠ some .waitingApproval)
    (hstatus : ∀ x, x ≠ row.executionId → s.status x = d.state.status x)
    (hdebt : ∀ j, ((App.next d i call o k r s).past settling {} j).debt =
      if i = j then none else (d.past settling {} j).debt)
    (hseen : ∀ j, ((App.next d i call o k r s).past settling {} j).seen = (d.past settling {} j).seen) :
    ApprovalsAgree (App.next d i call o k r s) := by
  have hopen : OpenApproval d row.executionId a := ⟨row, hrow, rfl, .inr ⟨i, expired, howed⟩⟩
  have debt_cases {j : Nat} {debt : Debt}
      (hd : ((App.next d i call o k r s).past settling {} j).debt = some debt) :
      i ≠ j ∧ (d.past settling {} j).debt = some debt ∧ debt.approvalId ≠ a := by
    rw [hdebt] at hd
    split at hd
    · cases hd
    · rename_i hij
      exact ⟨hij, hd, fun he => hij (h.owner i j _ debt howed hd he.symm)⟩
  have open_cases {x b : Id} (hb : OpenApproval (App.next d i call o k r s) x b) :
      OpenApproval d x b ∧ b ≠ a ∧ x ≠ row.executionId := by
    obtain ⟨row₁, hrow₁, rfl, hor⟩ := hb
    have hba : b ≠ a := by
      rintro rfl
      rcases hor with hp | ⟨j, e, hd⟩
      · exact hafter row₁ hrow₁ hp
      · exact (debt_cases hd).2.2 rfl
    have hb' : OpenApproval d row₁.executionId b := by
      refine ⟨row₁, (hothers b hba).symm.trans hrow₁, rfl, hor.imp_right ?_⟩
      rintro ⟨j, e, hd⟩
      exact ⟨j, e, (debt_cases hd).2.1⟩
    exact ⟨hb', hba, fun hx => hba (h.unique _ b a (hx ▸ hb') hopen)⟩
  refine ⟨fun j debt hd => ?_, fun j j' debt debt' hd hd' he => ?_, fun x b b' hb hb' => ?_,
    fun x b hb => ?_, fun x hw => ?_, fun j debt row₁ status hd hrow₁ hs hne => ?_⟩
  · obtain ⟨_, hd, hne⟩ := debt_cases hd
    obtain ⟨row₀, hrow₀, hp₀⟩ := h.owed j debt hd
    exact ⟨row₀, (hothers _ hne).trans hrow₀, hp₀⟩
  · exact h.owner j j' debt debt' (debt_cases hd).2.1 (debt_cases hd').2.1 he
  · exact h.unique x b b' (open_cases hb).1 (open_cases hb').1
  · obtain ⟨hb, _, hx⟩ := open_cases hb
    obtain ⟨status, hs, hor⟩ := h.waits x b hb
    exact ⟨status, (hstatus x hx).trans hs, hor⟩
  · rw [App.next_state] at hw
    by_cases hx : x = row.executionId
    · -- the execution is running again, or has ended before
      exfalso
      subst hx
      rcases hresumed with hr | ⟨he, status, hs, hne⟩
      · rw [hr] at hw
        cases hw
      · obtain ⟨status', hs', ht⟩ := h.ended i _ row status howed hrow hs hne
        obtain rfl := Option.some.inj ((he.symm.trans hw).symm.trans hs')
        rcases ht with ht | ht | ht | ht <;> cases ht
    · obtain ⟨b, row₁, hrow₁, he, hor⟩ := h.waited x ((hstatus x hx).symm.trans hw)
      have hba : b ≠ a := by
        rintro rfl
        exact hx (Option.some.inj (hrow.symm.trans hrow₁) ▸ he.symm)
      refine ⟨b, row₁, (hothers b hba).trans hrow₁, he, hor.imp_right ?_⟩
      rintro ⟨j, e, hd⟩
      refine ⟨j, e, (hdebt j).trans ((if_neg fun hij => ?_).trans hd)⟩
      subst hij
      exact hba (congrArg Debt.approvalId (Option.some.inj (howed.symm.trans hd))).symm
  · obtain ⟨_, hd, hne'⟩ := debt_cases hd
    rw [hseen] at hs
    have hrow₀ := (hothers _ hne').symm.trans hrow₁
    have hx : row₁.executionId ≠ row.executionId := fun hx =>
      hne' (h.unique _ _ a (hx ▸ ⟨row₁, hrow₀, rfl, .inr ⟨j, debt.expired, hd⟩⟩) hopen)
    rw [App.next_state, hstatus _ hx]
    exact h.ended j debt row₁ status hd hrow₀ hs hne

/-- A step that writes no approval, resumes no execution and leaves the debt of its call as it is. -/
theorem quiet (h : ApprovalsAgree d) (hd : ReachableWithin ok d) (hi : Issued o) (heff : Effect d.state o r s)
    (htakes : takesApproval o r = false)
    (hresume : ∀ g t, Commits o r g t → t.resume = false ∧ t.approval = none)
    (hdebt : (settling.next (d.past settling {} i) o r).debt = (d.past settling {} i).debt)
    (hseen : ∀ seen, (settling.next (d.past settling {} i) o r).seen = some seen →
      (d.past settling {} i).seen = some seen ∨ seen.2 = d.state.status seen.1) :
    ApprovalsAgree (App.next d i call o k r s) := by
  refine h.kept (fun a => ?_) (fun j => ?_) (fun j seen hs => ?_) fun x => ?_
  · refine (heff.approvals a).resolve_right fun ⟨row, hchange, _⟩ => ?_
    rcases hchange.taken with ht | ⟨g, t, w, hc, hw⟩
    · rw [htakes] at ht
      cases ht
    · rw [(hresume g t hc).2] at hw
      cases hw
  · rw [App.next_past]
    split
    · rename_i hij
      exact hij ▸ hdebt
    · rfl
  · rw [App.next_past] at hs
    split at hs
    · rename_i hij
      subst hij
      exact hseen seen hs
    · exact .inl hs
  · have closed {old : ExecutionStatus} (hs : d.state.status x = some old) (hw : old ≠ .waitingApproval)
        (ht : ¬old.Terminal) (a : Id) : ¬OpenApproval d x a := by
      intro hopen
      obtain ⟨status, hs', hor⟩ := h.waits x a hopen
      obtain rfl := Option.some.inj (hs.symm.trans hs')
      exact hor.elim hw ht
    refine (heff.status x).imp_right ?_
    rintro ⟨new, hchange, hnew⟩
    refine ⟨new, hnew, ?_⟩
    cases hchange with
    | inserted row hx =>
      have hnone : d.state.status x = none := by rw [State.status, hd.allocated x hx.ge]; rfl
      obtain ⟨hstatus, _⟩ : NewExecution row := hi
      refine ⟨by rw [hstatus]; decide, .inr fun a hopen => ?_, fun old hs => ?_⟩
      · obtain ⟨status, hs, _⟩ := h.waits x a hopen
        rw [hnone] at hs
        cases hs
      · rw [hnone] at hs
        cases hs
    | cancelled now hs =>
      refine ⟨by decide, .inl (by decide), fun old ho => ?_⟩
      rcases hs with hs | hs <;> rw [ho] at hs <;> obtain rfl := Option.some.inj hs <;> decide
    | @moved o r g t hc hr hx hg =>
      have hasks := (hresume _ _ hc).2
      cases hc with
      | guarded attempt g t =>
        obtain ⟨_, seq, hguarded⟩ := hi
        have new : g.new ≠ .waitingApproval ∧ (g.new.Terminal ∨ ∀ a, ¬OpenApproval d x a) := by
          cases hguarded with
          | approval f escalated a row => cases hasks
          | started => exact ⟨by decide, .inr (closed hg (by decide) (by decide))⟩
          | terminal f status completedAt _ ht =>
            change status ≠ _ ∧ (status.Terminal ∨ _)
            cases status <;> first | cases ht | exact ⟨by decide, .inl (by decide)⟩
        refine ⟨new.1, new.2, fun old ho => ?_⟩
        obtain rfl := Option.some.inj (hg.symm.trans ho)
        exact hguarded.expected
    | resumed hc hr => rw [(hresume _ _ hc).1] at hr; cases hr

/-- A chunk that settles an approval. -/
theorem settled_next (h : ApprovalsAgree d) (hd : ReachableWithin ok d) {attempt : Attempt} {t : Txn}
    {k : CommitOutcome → Db W CallResult} (hpays : (d.past settling {} i).Pays t)
    (hs : (d.past settling {} i).settles t = true) {x : Id} {seq : Nat} (hi : PlainTxn x seq t)
    (heff : Effect (W := W) d.state (.write (.commit attempt t)) CommitOutcome.committed s) :
    ApprovalsAgree (App.next d i call (.write (.commit attempt t)) k CommitOutcome.committed s) := by
  obtain ⟨a, row, hp⟩ := hpays
  obtain ⟨expired, hdebt⟩ := hp.debt
  obtain ⟨row', hrow', hasked⟩ := hd.endorsed (i := i) (settling_approvals d.history i ▸ hp.read)
  have hx : t.executionId = row'.executionId := hp.execution.trans (congrArg (·.executionId) hasked).symm
  obtain ⟨-, -, -, startedAt, rfl⟩ := heff.of_commits (.plain attempt t)
  have happrovals : ((World.guarded d.state t none).applyTxn startedAt t).approvals =
      (State.writeApproval t.approval d.state).approvals := State.applyTxn_approvals _ _ _
  have hstatus := State.applyTxn_status d.state startedAt t
  refine h.settled hdebt hrow' (fun row'' hrow'' => ?_) (fun b hb => ?_) ?_ (fun y hy => ?_) (fun j => ?_)
    fun j => ?_
  · obtain ⟨row₀, hrow₀, hp₀⟩ := h.owed i _ hdebt
    rw [happrovals] at hrow''
    rcases ht : t.approval with _ | ⟨b, new⟩ | ⟨b, now⟩
    · rw [ht] at hrow''
      exact Option.some.inj (hrow₀.symm.trans hrow'') ▸ hp₀
    · exact absurd ht (hi.inserts b new)
    · obtain rfl := hp.approval b now ht
      simp only [ht, State.writeApproval, State.modifyApproval, Function.update_self, hrow',
        Option.map_some, Option.some.injEq] at hrow''
      subst hrow''
      intro hp
      cases hp
  · rw [happrovals]
    rcases ht : t.approval with _ | ⟨c, new⟩ | ⟨c, now⟩
    · rfl
    · exact absurd ht (hi.inserts c new)
    · obtain rfl := hp.approval c now ht
      exact Function.update_of_ne hb _ _
  · obtain ⟨status, hold, _⟩ := h.waits row'.executionId a ⟨row', hrow', rfl, .inr ⟨i, expired, hdebt⟩⟩
    cases hr : t.resume with
    | true => exact .inl ((hstatus _).trans (by rw [if_pos ⟨hr, hx.symm⟩, hold]; rfl))
    | false =>
      obtain ⟨status, hseen, hne⟩ := hp.resume hr
      refine .inr ⟨(hstatus _).trans (if_neg (by simp [hr])), status, ?_, hne⟩
      rw [← hx, hp.execution]
      exact hseen
  · exact (hstatus y).trans (if_neg fun hy' => hy (hy'.2.trans hx))
  · rw [App.next_past]
    split
    · rename_i hij
      subst hij
      exact if_pos hs
    · rfl
  · rw [App.next_past]
    split
    · rename_i hij
      subst hij
      rfl
    · rfl

/-- A chunk that a guard protects and that asks for an approval. -/
theorem asked_next (h : ApprovalsAgree d) {attempt : Attempt} {t : Txn} {k : GuardedOutcome → Db W CallResult}
    {a : Id} {row : ApprovalRequest} (ht : t.approval = some (.insert a row)) {x : Id} {seq : Nat}
    {g : StatusGuard} (hi : GuardedTxn x seq g t)
    (heff : Effect (W := W) d.state (.write (.commitIf attempt g t)) (GuardedOutcome.finished .committed) s) :
    ApprovalsAgree (App.next d i call (.write (.commitIf attempt g t)) k
      (GuardedOutcome.finished .committed) s) := by
  obtain ⟨-, hv, hg, startedAt, rfl⟩ := heff.of_commits (.guarded attempt g t)
  obtain ⟨a', row', hwrite, hp, hx⟩ := hi.inserts ht
  obtain ⟨rfl, rfl⟩ := ApprovalWrite.insert.inj hwrite
  have hx' : t.executionId = row.executionId := hi.execution.trans hx.symm
  have hrunning := hg g rfl
  have happrovals : ((World.guarded d.state t (some g)).applyTxn startedAt t).approvals =
      (State.writeApproval t.approval d.state).approvals :=
    (State.applyTxn_approvals _ _ _).trans (by rw [ht]; rfl)
  have hstatus (y : Id) := guarded_status t (some g) y hg
  have happlied (y : Id) : ((World.guarded d.state t (some g)).applyTxn startedAt t).status y =
      (World.guarded d.state t (some g)).status y :=
    (State.applyTxn_status _ _ _ _).trans (if_neg (by simp [hi.resume]))
  rw [ht] at happrovals
  cases hi with
  | started => cases ht
  | terminal => cases ht
  | approval f escalated b row₀ requestedAt _ _ _ _ =>
    have free : d.state.approvals a = none := by
      by_contra hne
      exact hv (.inr ⟨a, row, ht, hne⟩)
    refine h.asked free ?_ hp (fun b hb => ?_) ?_ ?_ (fun y hy => ?_) (fun j => ?_) fun j => ?_
    · rw [happrovals]
      exact Function.update_self _ _ _
    · rw [happrovals]
      exact Function.update_of_ne hb _ _
    · exact hx' ▸ hrunning
    · rw [happlied, hstatus, if_pos hx'.symm]
      rfl
    · rw [happlied, hstatus, if_neg fun hy' => hy (hy'.trans hx')]
    · rw [App.next_past]
      split
      · rename_i hij
        subst hij
        rfl
      · rfl
    · rw [App.next_past]
      split
      · rename_i hij
        subst hij
        rfl
      · rfl

theorem next (h : ApprovalsAgree d) (hd : ReachableWithin ok d) (hset : settling.ok (d.past settling {} i) o)
    (hi : Issued o) (heff : Effect d.state o r s) : ApprovalsAgree (App.next d i call o k r s) := by
  rcases o with q | w | n | o
  · obtain ⟨rfl, rfl⟩ := heff.of_query
    refine h.quiet hd hi heff rfl (by rintro _ _ ⟨⟩) ?_ fun seen hs => ?_
    · cases q <;> rfl
    · cases q with
      | execution x =>
        obtain rfl := Option.some.inj hs
        exact .inr rfl
      | _ => exact .inl hs
  · cases w with
    | commit attempt t =>
      obtain ⟨x, seq, hplain⟩ := hi
      by_cases hs : r = CommitOutcome.committed ∧ (d.past settling {} i).settles t = true
      · obtain ⟨rfl, hs⟩ := hs
        exact h.settled_next hd (hset.1 hs) hs hplain heff
      · refine h.quiet hd ⟨x, seq, hplain⟩ heff rfl (fun g t' hc => ?_) ?_ fun seen hs' => ?_
        · cases hc
          have hs := Bool.eq_false_iff.2 fun ht => hs ⟨rfl, ht⟩
          have hr : t.resume = false := (Bool.or_eq_false_iff.1 hs).1
          exact ⟨hr, hplain.approval_of_resume hr⟩
        · revert hs
          cases (show CommitOutcome from r) with
          | committed => exact fun hs => if_neg fun ht => hs ⟨rfl, ht⟩
          | collision | violation => exact fun _ => rfl
        · revert hs'
          cases (show CommitOutcome from r) <;> exact .inl
    | commitIf attempt g t =>
      obtain ⟨x, seq, hguarded⟩ := hi
      by_cases hr : r = GuardedOutcome.finished .committed ∧ ∃ w, t.approval = some w
      · obtain ⟨rfl, w, ht⟩ := hr
        obtain ⟨a, row, rfl, _⟩ := hguarded.inserts ht
        exact h.asked_next ht hguarded heff
      · refine h.quiet hd ⟨x, seq, hguarded⟩ heff rfl (fun g t' hc => ?_) ?_ fun seen hs => ?_
        · cases hc
          refine ⟨hguarded.resume, ?_⟩
          by_contra hne
          exact hr ⟨rfl, Option.ne_none_iff_exists'.1 hne⟩
        · simp only [settling]
          split <;> rfl
        · simp only [settling] at hs
          split at hs <;> exact .inl hs
    | claimApproval a status now resolver =>
      revert heff
      cases (show Bool from r) with
      | true =>
        intro heff
        cases heff with
        | idle h => cases h
        | commit _ hc => cases hc
        | claimApproval _ _ _ _ row hrow hp =>
          refine h.claimed false { row with status := status, resolvedAt := some now, resolvedBy := some resolver }
            hrow hp (by simp [State.modifyApproval, hrow]) rfl ?_ (fun b hb => ?_) (fun _ => rfl) (fun j => ?_) hset
            fun j => ?_
          · intro hp
            rcases hi with rfl | rfl <;> cases hp
          · exact Function.update_of_ne hb _ _
          · rw [App.next_past]
            split <;> rfl
          · rw [App.next_past]
            split <;> rfl
      | false => exact fun heff => h.quiet hd hi heff rfl (by rintro _ _ ⟨⟩) rfl fun _ => .inl
    | expireApproval a now =>
      revert heff
      cases (show Bool from r) with
      | true =>
        intro heff
        cases heff with
        | idle h => cases h
        | commit _ hc => cases hc
        | expireApproval _ _ row hrow hp =>
          refine h.claimed true { row with status := .expired, resolvedAt := some now } hrow hp
            (by simp [State.modifyApproval, hrow]) rfl (by rintro ⟨⟩) (fun b hb => ?_) (fun _ => rfl) (fun j => ?_) hset
            fun j => ?_
          · exact Function.update_of_ne hb _ _
          · rw [App.next_past]
            split <;> rfl
          · rw [App.next_past]
            split <;> rfl
      | false => exact fun heff => h.quiet hd hi heff rfl (by rintro _ _ ⟨⟩) rfl fun _ => .inl
    | _ => exact h.quiet hd hi heff rfl (by rintro _ _ ⟨⟩) rfl fun _ => .inl
  · refine h.quiet hd hi heff rfl (by rintro _ _ ⟨⟩) ?_ fun seen hs => ?_
    · cases n <;> rfl
    · cases n <;> exact .inl hs
  · exact h.quiet hd hi heff rfl (by rintro _ _ ⟨⟩) rfl fun _ => .inl

end ApprovalsAgree

theorem ReachableWithin.approvalsAgree (h : ReachableWithin ok c) : ApprovalsAgree c := by
  refine h.invariant ?_ ?_ ?_ ?_
  · intro s hs
    have closed (x a : Id) : ¬OpenApproval (Config.start s : App W) x a := by
      rintro ⟨row, hrow, _⟩
      rw [App.start_state, hs.approvals] at hrow
      cases hrow
    refine ⟨by simp, by simp, fun x a b ha => (closed x a ha).elim, fun x a ha => (closed x a ha).elim,
      fun x hx => ?_, by simp⟩
    rw [App.start_state, State.status, hs.executions] at hx
    cases hx
  · exact fun d call h => ⟨h.owed, h.owner, h.unique, h.waits, h.waited, h.ended⟩
  · intro d change h
    have same {x a : Id} : OpenApproval (d.disturb W.system change) x a ↔ OpenApproval d x a := by
      simp [OpenApproval]
    exact ⟨by simpa using h.owed, by simpa using h.owner,
      fun x a b ha hb => h.unique x a b (same.1 ha) (same.1 hb),
      fun x a ha => by simpa using h.waits x a (same.1 ha),
      fun x hx => (h.waited x (by simpa using hx)).imp fun _ => same.2, by simpa using h.ended⟩
  · intro d i call o k r s hd hw hi _ heff h
    exact h.next hd ((hd.monitored Call.code_settling).allowed hw) hi heff

theorem Frame.observe_call (f : Frame) (o : Op W.Tables) (r : o.Reply) : (f.observe o r).call = f.call := by
  rcases o with q | w | n | _
  · cases q <;> simp only [observe] <;> (try split) <;> rfl
  · cases w <;> simp only [observe] <;> (try split) <;> rfl
  · cases n <;> rfl
  · rfl

/-- A gateway call that has filed a tool request filed it for itself. -/
theorem framing_filed {m : Option Frame} {o : Op W.Tables} {r : o.Reply} {f' : Frame} {q : Id}
    (hok : framing.ok m o) (h : framing.next m o r = some f') (hq : f'.request = some q) :
    ∃ f, m = some f ∧ f'.call = f.call ∧ (f.request = some q ∨ ∃ g t row, Commits o r g t ∧
      t.toolRequest = some (.insert q row) ∧ f.Files row) := by
  have grown (h : m.map (·.observe o r) = some f') :
      ∃ f, m = some f ∧ f'.call = f.call ∧ (f.request = some q ∨ ∃ g t row, Commits o r g t ∧
        t.toolRequest = some (.insert q row) ∧ f.Files row) := by
    obtain ⟨f, rfl, rfl⟩ := Option.map_eq_some_iff.1 h
    refine ⟨f, rfl, f.observe_call o r, ?_⟩
    rcases (f.extends_observe o r).request with he | ⟨g, t, q', row, hc, ht, he⟩
    · exact .inl (he ▸ hq)
    · obtain rfl := Option.some.inj (he.symm.trans hq)
      obtain ⟨f₂, hf₂, _, hfiles⟩ := framing_toolRequest hok hc ht
      obtain rfl := Option.some.inj hf₂
      exact .inr ⟨g, t, row, hc, ht, hfiles⟩
  rcases o with _ | _ | n | _
  · exact grown h
  · exact grown h
  · cases n with
    | gatewayEnter call =>
      obtain rfl := Option.some.inj h
      cases hq
    | gatewayReturn | gatewayRaise => cases h
    | _ => exact grown h
  · exact grown h

/-- Tool requests belong to the execution of the gateway call that filed them and of the approval that
was asked for them, and wait for the latter. -/
structure RequestsAgree (c : App W) : Prop where
  follows : ∀ i, FollowsFrame (c.past settling {} i) (c.past framing none i)
  filed : ∀ i f q, c.past framing none i = some f → f.request = some q →
    ∃ request, c.state.toolRequests q = some request ∧ request.executionId = f.call.executionId
  asked : ∀ a row, c.state.approvals a = some row →
    ∃ request, c.state.toolRequests row.toolRequestId = some request ∧
      request.executionId = row.executionId ∧ (row.status = .pending → request.status = .requiresApproval)

namespace RequestsAgree

variable {i : Nat} {call : Call} {o : Op W.Tables} {k : o.Reply → Db W CallResult} {r : o.Reply}
  {s : State W.Domain}

/-- A tool request never changes its execution. -/
theorem execution_kept (heff : Effect d.state o r s) {q : Id} {request : ToolRequest}
    (hq : d.state.toolRequests q = some request) :
    ∃ request', s.toolRequests q = some request' ∧ request'.executionId = request.executionId := by
  rcases heff.toolRequest q with he | ⟨g, t, _, ⟨row, _, _, hfree, _⟩ | ⟨u, _, he⟩⟩
  · exact ⟨request, he.trans hq, rfl⟩
  · rw [hfree] at hq
    cases hq
  · exact ⟨u.apply request, by rw [he, hq]; rfl, rfl⟩

/-- No chunk updates the tool request of a pending approval. -/
theorem undisturbed (h : RequestsAgree d) (hd : ReachableWithin ok d)
    (hok : framing.ok (d.past framing none i) o) (hset : settling.ok (d.past settling {} i) o) {a : Id}
    {row : ApprovalRequest} (hrow : d.state.approvals a = some row) (hp : row.status = .pending)
    {g : Option StatusGuard} {t : Txn} (hc : Commits o r g t) (u : ToolRequestUpdate) :
    t.toolRequest ≠ some (.update row.toolRequestId u) := by
  intro ht
  have filed : (d.past settling {} i).request ≠ some row.toolRequestId := by
    -- the gateway call that asked for the approval only returns
    intro hq
    obtain ⟨f, hf, hfq⟩ := h.follows i _ hq
    have returns := hok.1 f hf ((hd.requestsHold.asked a row hrow).2 i f hf hfq)
    cases hc <;> cases returns
  cases hc with
  | guarded => exact filed (hset.2 _ u ht)
  | plain =>
    rcases hset.2 _ u ht with hq | ⟨b, row₀, hpays⟩
    · exact filed hq
    · obtain ⟨expired, hdebt⟩ := hpays.debt
      obtain ⟨row', hrow', hasked⟩ := hd.endorsed (i := i) (settling_approvals d.history i ▸ hpays.read)
      obtain ⟨row'', hrow'', hp''⟩ := hd.approvalsAgree.owed i _ hdebt
      have hq : row.toolRequestId = row'.toolRequestId :=
        (hpays.toolRequest _ u ht).trans (ApprovalRequest.toolRequestId_congr hasked).symm
      obtain rfl := hd.requestsHold.askedOnce a b row row' hrow hrow' hq
      exact hp'' (Option.some.inj (hrow.symm.trans hrow'') ▸ hp)

theorem filed_next (h : RequestsAgree d) (hok : framing.ok (d.past framing none i) o)
    (heff : Effect d.state o r s) {j : Nat} {f' : Frame} {q : Id}
    (hf : (App.next d i call o k r s).past framing none j = some f') (hq : f'.request = some q) :
    ∃ request, s.toolRequests q = some request ∧ request.executionId = f'.call.executionId := by
  have older {f : Frame} (hf : d.past framing none j = some f) (hq : f.request = some q) :
      ∃ request, s.toolRequests q = some request ∧ request.executionId = f.call.executionId := by
    obtain ⟨request, hrequest, hx⟩ := h.filed j f q hf hq
    obtain ⟨request', hrequest', hx'⟩ := execution_kept heff hrequest
    exact ⟨request', hrequest', hx'.trans hx⟩
  rw [App.next_past] at hf
  split at hf
  · rename_i hij
    subst hij
    obtain ⟨f, hm, hcall, hq | ⟨g, t, row, hc, ht, hfiles⟩⟩ := framing_filed hok hf hq
    · rw [hcall]
      exact older hm hq
    · rw [hcall]
      obtain ⟨_, _, _, startedAt, rfl⟩ := heff.of_commits hc
      exact ⟨{ row with requestedAt := startedAt }, by simp [ht, State.writeToolRequest], hfiles.execution⟩
  · exact older hf hq

theorem asked_next (h : RequestsAgree d) (hd : ReachableWithin ok d)
    (hok : framing.ok (d.past framing none i) o) (hset : settling.ok (d.past settling {} i) o)
    (hi : Issued o) (heff : Effect d.state o r s) {a : Id} {row' : ApprovalRequest}
    (hrow' : s.approvals a = some row') :
    ∃ request, s.toolRequests row'.toolRequestId = some request ∧
      request.executionId = row'.executionId ∧
      (row'.status = .pending → request.status = .requiresApproval) := by
  have older {row : ApprovalRequest} (hrow : d.state.approvals a = some row)
      (hp : row'.status = .pending → row.status = .pending) (hq : row'.toolRequestId = row.toolRequestId)
      (hx : row'.executionId = row.executionId) :
      ∃ request, s.toolRequests row'.toolRequestId = some request ∧
        request.executionId = row'.executionId ∧
        (row'.status = .pending → request.status = .requiresApproval) := by
    obtain ⟨request, hrequest, hx', hs⟩ := h.asked a row hrow
    rw [hq, hx]
    rcases heff.toolRequest row.toolRequestId with he | ⟨g, t, hc, ⟨_, _, _, hfree, _⟩ | ⟨u, ht, he⟩⟩
    · exact ⟨request, he.trans hrequest, hx', fun h => hs (hp h)⟩
    · rw [hfree] at hrequest
      cases hrequest
    · refine ⟨u.apply request, by rw [he, hrequest]; rfl, hx', fun hpending => ?_⟩
      exact absurd ht (h.undisturbed hd hok hset hrow (hp hpending) hc u)
  rcases heff.approvals a with he | ⟨row, hchange, he⟩
  · exact older (he.symm.trans hrow') id rfl rfl
  obtain rfl := Option.some.inj (he.symm.trans hrow')
  cases hchange with
  | claimed status now resolver row hrow =>
    refine older hrow (fun hp => ?_) rfl rfl
    rcases hi with rfl | rfl <;> cases hp
  | expired now row hrow => exact older hrow nofun rfl rfl
  | executed now row _ _ hrow => exact older hrow nofun rfl rfl
  | @inserted o r g t row hc ht hfree =>
    obtain ⟨f, hf, hesc⟩ := framing_approval hok hc ht
    obtain ⟨request, hrequest, hx⟩ := h.filed i f _ hf hesc.request
    obtain ⟨_, _, _, startedAt, rfl⟩ := heff.of_commits hc
    cases hc with
    | plain attempt t =>
      obtain ⟨x, seq, hplain⟩ := hi
      exact absurd ht (hplain.inserts a row)
    | guarded attempt g t =>
      obtain ⟨x, seq, hguarded⟩ := hi
      obtain ⟨completedAt, hu⟩ := hguarded.requests ht
      refine ⟨ToolRequestUpdate.apply { status := .requiresApproval, completedAt } request, ?_,
        hx.trans hesc.execution.symm, fun _ => rfl⟩
      simp [hu, World.guarded, State.writeToolRequest, State.modifyToolRequest, State.modifyExecution, hrequest]

/-- The request followed by the debts' monitor stays that of the gateway call. -/
theorem next (h : RequestsAgree d) (hd : ReachableWithin ok d)
    (hok : framing.ok (d.past framing none i) o) (hset : settling.ok (d.past settling {} i) o)
    (hi : Issued o) (heff : Effect d.state o r s) : RequestsAgree (App.next d i call o k r s) := by
  refine ⟨fun j => ?_, fun j f' q hf hq => h.filed_next hok heff hf hq, fun a row hrow =>
    h.asked_next hd hok hset hi heff hrow⟩
  rw [App.next_past, App.next_past]
  split
  · rename_i hij
    subst hij
    exact (h.follows i).next hok r
  · exact h.follows j

end RequestsAgree

theorem ReachableWithin.requestsAgree (h : ReachableWithin ok c) : RequestsAgree c := by
  refine h.invariant ?_ ?_ ?_ ?_
  · intro s hs
    exact ⟨fun i q hq => (nomatch hq), by simp, fun a row hrow => by simp [hs.approvals] at hrow⟩
  · exact fun d call h => ⟨h.follows, h.filed, h.asked⟩
  · intro d change h
    exact ⟨h.follows, by simpa using h.filed, by simpa using h.asked⟩
  · intro d i call o k r s hd hw hi _ heff h
    exact h.next hd ((hd.monitored Call.code_framing).allowed hw)
      ((hd.monitored Call.code_settling).allowed hw) hi heff

/-- No call that decides an approval is in flight: each has returned its answer. -/
def DecisionsReturned (c : App W) : Prop :=
  ∀ t ∈ c.threads, t.call.resolves = true → ∃ result, t.program = .ret result

/-- With no decision in flight, nothing is owed. -/
theorem ReachableWithin.nothingOwed (h : ReachableWithin ok c) (hret : DecisionsReturned c) (i : Nat) :
    (c.past settling {} i).debt = none := by
  by_contra hne
  obtain ⟨debt, hdebt⟩ := Option.ne_none_iff_exists'.1 hne
  obtain ⟨e, he, rfl, htakes⟩ := settling_debt hdebt
  obtain ⟨⟨call, program⟩, ht, htaking⟩ := h.attributed Call.code_taking e he
  obtain ⟨result, hres⟩ := hret _ (List.mem_of_getElem? ht) (htakes _ htaking)
  obtain rfl : program = .ret result := hres
  exact hne ((h.monitored Call.code_settling).returned ht)

/-- An execution never has two pending approvals; and while no decision on an approval is in flight, an
execution in `WAITING_APPROVAL` has exactly one, whose tool request is its own and waits for it. -/
theorem one_open_approval {c : App W} (h : Reachable c) :
    (∀ a b row row', c.state.approvals a = some row → c.state.approvals b = some row' →
      row.executionId = row'.executionId → row.status = .pending → row'.status = .pending → a = b) ∧
    (DecisionsReturned c → ∀ x, c.state.status x = some .waitingApproval → ∃! a, ∃ row request,
      c.state.approvals a = some row ∧ row.executionId = x ∧ row.status = .pending ∧
        c.state.toolRequests row.toolRequestId = some request ∧ request.executionId = x ∧
          request.status = .requiresApproval) := by
  have unique : ∀ a b row row', c.state.approvals a = some row → c.state.approvals b = some row' →
      row.executionId = row'.executionId → row.status = .pending → row'.status = .pending → a = b :=
    fun a b row row' hrow hrow' hx hp hp' => h.approvalsAgree.unique row'.executionId a b
      ⟨row, hrow, hx, .inl hp⟩ ⟨row', hrow', rfl, .inl hp'⟩
  refine ⟨unique, fun hret x hx => ?_⟩
  obtain ⟨a, row, hrow, rfl, hp | ⟨i, expired, hdebt⟩⟩ := h.approvalsAgree.waited x hx
  · obtain ⟨request, hrequest, he, hs⟩ := h.requestsAgree.asked a row hrow
    refine ⟨a, ⟨row, request, hrow, rfl, hp, hrequest, he, hs hp⟩, ?_⟩
    rintro b ⟨row', _, hrow', he', hp', _⟩
    exact unique b a row' row hrow' hrow he' hp' hp
  · rw [h.nothingOwed hret i] at hdebt
    cases hdebt

theorem one_open_approval_requested :
    ∃! a, ∃ row request,
      (afterMoves .requireApproval (startMoves ++ gatewayMoves 27)).state.approvals a = some row ∧
        row.executionId = 0 ∧ row.status = .pending ∧
        (afterMoves .requireApproval (startMoves ++ gatewayMoves 27)).state.toolRequests row.toolRequestId =
          some request ∧ request.executionId = 0 ∧ request.status = .requiresApproval := by
  have undecided : ∀ t ∈ (afterMoves .requireApproval (startMoves ++ gatewayMoves 27)).threads,
      t.call.resolves = false := by decide +kernel
  refine (one_open_approval (replay_reachable (State.bench_fresh _) _)).2 (fun t ht hr => ?_) 0
    (by decide +kernel)
  rw [undecided t ht] at hr
  cases hr

end SafeOps
