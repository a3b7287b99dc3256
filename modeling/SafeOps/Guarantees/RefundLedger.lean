import SafeOps.Tools.Payments

/-! At most one refund for every payment, whatever calls of the tool run at once. -/

namespace SafeOps
open Concurrent Program

/-- A configuration of refunds being made. -/
abbrev Till := Config Ledger.statements ToolFailure RefundPaymentOutput Ledger RefundPaymentInput

namespace Ledger

def refundsOf (s : Ledger) (id : Id) : List Refund := s.refunds.filter (·.paymentId = id)

/-- The payments as they are before any refund, under the primary and the unique key of their table. -/
structure Unspent (s : Ledger) : Prop where
  refunds : s.refunds = []
  succeeded : ∀ p ∈ s.payments, p.status = .succeeded
  ids : (s.payments.map (·.id)).Nodup
  names : (s.payments.map (·.paymentId)).Nodup

/-- What the two tables say about payment `p` together. -/
structure Settled (s : Ledger) (p : Payment) : Prop where
  once : (s.refundsOf p.id).length ≤ 1
  status : p.status = .refunded ↔ (s.refundsOf p.id).length = 1
  covered : ((s.refundsOf p.id).map (·.amount)).sum ≤ p.amount

@[simp] theorem setRefunded_id (id : Id) (p : Payment) : (setRefunded id p).id = p.id := by
  unfold setRefunded
  split <;> rfl

@[simp] theorem setRefunded_amount (id : Id) (p : Payment) : (setRefunded id p).amount = p.amount := by
  unfold setRefunded
  split <;> rfl

end Ledger

/-- The payment a call has read, against which it has checked the amount. -/
def paying : Monitor Ledger.statements (Option Payment) where
  next m o := match o with
    | .paymentNamed _ => fun (row : Option Payment) => row
    | _ => fun _ => m
  ok m
    | .commitRefund row => ∃ p, m = some p ∧ row.paymentId = p.id ∧ row.amount ≤ p.amount
    | _ => True

namespace RefundPaymentTool

theorem replay_paying (refund : Refund) (m : Option Payment) :
    (replay refund).Obeys paying (fun _ _ => True) (fun _ _ => True) m :=
  .call_bind trivial fun _ => trivial

theorem refund_paying (input : RefundPaymentInput) {payment : Payment}
    (h : input.amount.value ≤ (Decimal.ofCents payment.amount).value) :
    (refund input payment).Obeys paying (fun _ _ => True) (fun _ _ => True) (some payment) := by
  refine .call_bind ⟨payment, rfl, rfl, Decimal.cents_le h⟩ fun (committed : Bool) => ?_
  cases committed with
  | true =>
    refine .call_bind trivial fun (refund : Option Refund) => .call_bind trivial
      fun (payment : Option Payment) => ?_
    cases refund <;> cases payment <;> trivial
  | false =>
    refine .call_bind trivial fun (existing : Option Refund) => ?_
    cases existing with
    | none => trivial
    | some existing => exact replay_paying existing _

/-- The tool writes only what it has checked against the payment it read. -/
theorem run_paying (input : RefundPaymentInput) :
    (run input).Obeys paying (fun _ _ => True) (fun _ _ => True) none := by
  refine .call_bind trivial fun (existing : Option Refund) => ?_
  cases existing with
  | some existing => exact replay_paying existing _
  | none =>
    refine .call_bind trivial fun (payment : Option Payment) => ?_
    cases payment with
    | none => trivial
    | some payment =>
      change (ite _ _ _ : LedgerM _).Obeys _ _ _ (some payment)
      split
      · trivial
      · split
        · trivial
        · exact refund_paying input (not_lt.1 ‹_›)

end RefundPaymentTool

/-- The statement commits a refund for a payment that has been refunded already. -/
def secondRefund (c : Till) (e : Entry Ledger.statements) : Bool :=
  match e with
  | ⟨_, .commitRefund row, committed⟩ =>
    committed && c.state.payments.any fun p => p.id = row.paymentId ∧ p.status = .refunded
  | _ => false

/-- A refund is committed only while its payment has not been refunded. -/
def FindsUnrefunded (c : Till) (e : Entry Ledger.statements) : Prop := secondRefund c e = false

instance (c : Till) (e : Entry Ledger.statements) : Decidable (FindsUnrefunded c e) :=
  inferInstanceAs (Decidable (_ = _))

/-- Every payment is settled, and a payment once read has kept its amount. -/
structure Balanced (c : Till) : Prop where
  ids : (c.state.payments.map (·.id)).Nodup
  settled : ∀ p ∈ c.state.payments, c.state.Settled p
  read : ∀ i p, c.past paying none i = some p → ∃ q ∈ c.state.payments, q.id = p.id ∧ q.amount = p.amount

theorem eq_of_id {payments : List Payment} (h : (payments.map (·.id)).Nodup) {p q : Payment}
    (hp : p ∈ payments) (hq : q ∈ payments) (hid : p.id = q.id) : p = q :=
  List.inj_on_of_nodup_map h hp hq hid

/-- The commit of a refund settles its payment and leaves the others as they are. -/
theorem Ledger.Settled.commit {s : Ledger} {row : Refund} {q : Payment} (hids : (s.payments.map (·.id)).Nodup)
    (hq : q ∈ s.payments) (hrow : row.paymentId = q.id) (hamount : row.amount ≤ q.amount)
    (hfree : q.status ≠ .refunded) (h : ∀ p ∈ s.payments, s.Settled p) {p : Payment}
    (hp : p ∈ s.payments.map (setRefunded row.paymentId)) :
    ({ s with
      payments := s.payments.map (setRefunded row.paymentId)
      refunds := s.refunds ++ [{ row with createdAt := s.now }] } : Ledger).Settled p := by
  obtain ⟨p₀, hp₀, rfl⟩ := List.mem_map.1 hp
  have hsettled := h p₀ hp₀
  by_cases hid : p₀.id = row.paymentId
  · obtain rfl := eq_of_id hids hp₀ hq (hid.trans hrow)
    have hnone : s.refundsOf p₀.id = [] := by
      have hne : (s.refundsOf p₀.id).length ≠ 1 := fun hl => hfree (hsettled.status.2 hl)
      have := hsettled.once
      exact List.length_eq_zero_iff.1 (by omega)
    unfold refundsOf at hnone
    constructor <;> simp [refundsOf, List.filter_append, hnone, hrow, setRefunded, hamount]
  · have hid' : row.paymentId ≠ p₀.id := fun he => hid he.symm
    have hsame : setRefunded row.paymentId p₀ = p₀ := if_neg hid
    rw [hsame]
    have := hsettled.once
    have := hsettled.status
    have := hsettled.covered
    constructor <;> simp_all [refundsOf, List.filter_append]

theorem Balanced.answer {c : Till} (h : Balanced c) {i : Nat} {call : RefundPaymentInput} {o : LedgerOp}
    {k : o.Reply → RefundPaymentTool.LedgerM RefundPaymentOutput}
    (hok : FindsUnrefunded c (c.entry refundPayments i o)) (hm : paying.ok (c.past paying none i) o) :
    Balanced (c.answer refundPayments i call o k) := by
  have hread (j : Nat) (p : Payment) (hp : (c.answer refundPayments i call o k).past paying none j = some p) :
      ∃ q ∈ c.state.payments, q.id = p.id ∧ q.amount = p.amount := by
    rw [Config.past_answer] at hp
    split at hp
    · cases o with
      | paymentNamed name => exact ⟨p, List.mem_of_find?_eq_some hp, rfl, rfl⟩
      | _ => exact h.read j p hp
    · exact h.read j p hp
  have hstate : (c.answer refundPayments i call o k).state = (Ledger.exec o c.state).2 := rfl
  rcases Ledger.exec_cases o c.state with hs | ⟨row, rfl, _, hr, hs⟩
  · refine ⟨?_, ?_, ?_⟩ <;> rw [hstate, hs]
    · exact h.ids
    · exact h.settled
    · exact hread
  · obtain ⟨p, hp, hrow, hamount⟩ := hm
    obtain ⟨q, hq, hid, hqa⟩ := h.read i p hp
    have hfree : q.status ≠ .refunded := by
      intro hst
      have hany : c.state.payments.any (fun p => p.id = row.paymentId ∧ p.status = .refunded) = true :=
        List.any_eq_true.2 ⟨q, hq, by simp [hid, hrow, hst]⟩
      have hcommitted : (Ledger.exec (.commitRefund row) c.state).1 = true := eq_of_heq hr
      have : secondRefund c (c.entry refundPayments i (.commitRefund row)) = true := by
        simp only [secondRefund, Config.entry]
        exact Bool.and_eq_true_iff.2 ⟨hcommitted, hany⟩
      exact Bool.noConfusion (this.symm.trans hok)
    refine ⟨?_, ?_, ?_⟩ <;> rw [hstate, hs]
    · simpa [Function.comp_def] using h.ids
    · exact fun p' hp' => Ledger.Settled.commit h.ids hq (hrow.trans hid.symm) (hqa ▸ hamount) hfree h.settled hp'
    · intro j p' hp'
      obtain ⟨q', hq', hid', ha'⟩ := hread j p' hp'
      exact ⟨_, List.mem_map_of_mem hq', by simpa using hid', by simpa using ha'⟩

/-- While every refund finds its payment not yet refunded, each payment has at most one refund, is
`REFUNDED` exactly when it has one, and is never paid back beyond its amount. -/
theorem refund_ledger {s : Ledger} (hs : s.Unspent) {c : Till}
    (h : Steps refundPayments FindsUnrefunded (Config.start s) c) :
    ∀ p ∈ c.state.payments, c.state.Settled p := by
  refine Balanced.settled (h.invariant (I := Balanced) ?_ (fun _ _ h => ⟨h.1, h.2, h.3⟩)
    (fun _ _ h => ⟨h.1, fun p hp => ⟨(h.2 p hp).1, (h.2 p hp).2, (h.2 p hp).3⟩, h.3⟩) ?_)
  · refine ⟨hs.ids, fun p hp => ?_, fun i p hp => by simp at hp⟩
    constructor <;> simp [Config.start, Ledger.refundsOf, hs.refunds, hs.succeeded p hp]
  · intro d i call o k hd hw hok h
    exact h.answer hok ((hd.monitored (Config.monitored_start s) RefundPaymentTool.run_paying).allowed hw)

/-- One payment of 10.00. -/
def Ledger.bench : Ledger where
  now := 0
  payments := [⟨0, "PAY-1", 1000, .succeeded⟩]
  refunds := []

theorem Ledger.bench_unspent : Ledger.bench.Unspent where
  refunds := rfl
  succeeded := by decide
  ids := by decide
  names := by decide

/-- A refund of the whole payment. -/
def wholeRefund (idempotencyKey : String) : RefundPaymentInput where
  paymentId := "PAY-1"
  amount := ⟨10, "10.00"⟩
  reason := "duplicate"
  idempotencyKey := idempotencyKey
  positive := by norm_num

/-- Two calls with different keys, one after the other. -/
def afterRefunds : Till :=
  (Config.start Ledger.bench).replay refundPayments
    (.spawn (wholeRefund "a") :: List.replicate 5 (.run 0) ++ .spawn (wholeRefund "b") :: List.replicate 2 (.run 1))

/-- The second call is turned away once the first has committed. -/
theorem refund_ledger_once : afterRefunds.threads[1]?.any (·.program.raises) = true ∧
    afterRefunds.state.Settled ⟨0, "PAY-1", 1000, .refunded⟩ :=
  ⟨by decide +kernel, refund_ledger Ledger.bench_unspent (Allowed.steps .refl (by decide +kernel)) _ (by decide +kernel)⟩

/-- Two calls with different keys that both read the payment before either commits refund it twice. -/
theorem refunded_twice :
    ¬∀ (s : Ledger) (c : Till), s.Unspent → Run refundPayments (Config.start s) c →
      ∀ p ∈ c.state.payments, c.state.Settled p := by
  intro h
  let moves : List (Move RefundPaymentInput Time) :=
    [.spawn (wholeRefund "a"), .spawn (wholeRefund "b"), .run 0, .run 0, .run 1, .run 1, .run 0, .run 1]
  have settled := h Ledger.bench _ Ledger.bench_unspent (run_replay moves .refl) ⟨0, "PAY-1", 1000, .refunded⟩
    (by decide +kernel)
  exact absurd settled.once (by decide +kernel)

end SafeOps
