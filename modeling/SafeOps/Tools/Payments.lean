import SafeOps.Concurrent.Pool
import SafeOps.Model.World
import Mathlib.Data.Rat.Floor

/-! `app/tools/payments.py`: refunding a payment, and the tables of payments and refunds. -/

namespace SafeOps
open Concurrent

inductive PaymentStatus
  | succeeded | refunded
  deriving DecidableEq, Repr

def PaymentStatus.value : PaymentStatus → String
  | succeeded => "SUCCEEDED" | refunded => "REFUNDED"

/-- A decimal number, and the text Python renders it as. -/
structure Decimal where
  value : Rat
  text : String

/-- What a `NUMERIC(10, 2)` column keeps of an amount, in cents; ties are rounded up. -/
def Decimal.cents (d : Decimal) : Nat := ⌊d.value * 100 + 1 / 2⌋₊

/-- The amount a `NUMERIC(10, 2)` column holds. -/
def Decimal.ofCents (n : Nat) : Decimal where
  value := n / 100
  text := toString (n / 100) ++ "." ++ toString (n % 100 / 10) ++ toString (n % 10)

/-- Amounts are stored in cents. -/
structure Payment where
  id : Id
  paymentId : String
  amount : Nat
  status : PaymentStatus
  deriving DecidableEq

structure Refund where
  paymentId : Id
  amount : Nat
  reason : String
  idempotencyKey : String
  createdAt : Time := 0

/-- The two tables, in the order of insertion. -/
structure Ledger where
  now : Time
  payments : List Payment
  refunds : List Refund

/-- The statements of the tool. `commitRefund` is the flush and commit of the new refund together with
`payment.status = REFUNDED`; it fails on a constraint. -/
inductive LedgerOp
  | refundWithKey (idempotencyKey : String)
  | paymentNamed (paymentId : String)
  | getPayment (id : Id)
  | commitRefund (row : Refund)

@[reducible] def LedgerOp.Reply : LedgerOp → Type
  | refundWithKey _ => Option Refund
  | paymentNamed _ => Option Payment
  | getPayment _ => Option Payment
  | commitRefund _ => Bool

namespace Ledger

abbrev statements : Signature := ⟨LedgerOp, LedgerOp.Reply⟩

/-- `UPDATE payments SET status = 'REFUNDED' WHERE id = …`, whatever the status was. -/
def setRefunded (id : Id) (p : Payment) : Payment :=
  if p.id = id then { p with status := .refunded } else p

/-- The unique index on the key and the foreign key of the payment guard the insert. -/
def commitRefund (row : Refund) (s : Ledger) : Bool × Ledger :=
  if row.idempotencyKey ∈ s.refunds.map (·.idempotencyKey) ∨ row.paymentId ∉ s.payments.map (·.id) then
    (false, s)
  else
    (true, { s with
      payments := s.payments.map (setRefunded row.paymentId)
      refunds := s.refunds ++ [{ row with createdAt := s.now }] })

def exec : (o : LedgerOp) → Ledger → o.Reply × Ledger
  | .refundWithKey key, s => (s.refunds.find? (·.idempotencyKey = key), s)
  | .paymentNamed name, s => (s.payments.find? (·.paymentId = name), s)
  | .getPayment id, s => (s.payments.find? (·.id = id), s)
  | .commitRefund row, s => s.commitRefund row

/-- What a statement changes: nothing, or it commits a refund. -/
theorem exec_cases (o : LedgerOp) (s : Ledger) : (exec o s).2 = s ∨ ∃ row, o = .commitRefund row ∧
    row.idempotencyKey ∉ s.refunds.map (·.idempotencyKey) ∧ HEq (exec o s).1 true ∧
    (exec o s).2 = { s with
      payments := s.payments.map (setRefunded row.paymentId)
      refunds := s.refunds ++ [{ row with createdAt := s.now }] } := by
  cases o with
  | commitRefund row =>
    simp only [exec, commitRefund]
    split
    · exact .inl rfl
    · rename_i hfree
      exact .inr ⟨row, rfl, fun hkey => hfree (.inl hkey), .rfl, rfl⟩
  | _ => exact .inl rfl

end Ledger

/-- The validated input; the schema asks for a positive amount. -/
structure RefundPaymentInput where
  paymentId : String
  amount : Decimal
  reason : String
  idempotencyKey : String
  positive : 0 < amount.value

structure RefundPaymentOutput where
  paymentId : String
  refundAmount : Decimal
  reason : String
  status : String
  createdAt : Time
  idempotentReplay : Bool

namespace RefundPaymentTool

abbrev LedgerM := Program Ledger.statements ToolFailure

def statement (o : LedgerOp) : LedgerM o.Reply := Program.call (S := Ledger.statements) o

/-- `_replay`. -/
def replay (refund : Refund) : LedgerM RefundPaymentOutput := do
  let payment : Option Payment ← statement (.getPayment refund.paymentId)
  pure
    { paymentId := payment.elim (toString refund.paymentId) (·.paymentId)
      refundAmount := .ofCents refund.amount
      reason := refund.reason
      status := PaymentStatus.refunded.value
      createdAt := refund.createdAt
      idempotentReplay := true }

/-- The answer once the commit has gone through, from the rows as they are loaded again. -/
def refunded (payment : Payment) (idempotencyKey : String) : LedgerM RefundPaymentOutput := do
  let refund : Option Refund ← statement (.refundWithKey idempotencyKey)
  let payment : Option Payment ← statement (.getPayment payment.id)
  match refund, payment with
  | some refund, some payment =>
    pure
      { paymentId := payment.paymentId
        refundAmount := .ofCents refund.amount
        reason := refund.reason
        status := payment.status.value
        createdAt := refund.createdAt
        idempotentReplay := false }
  | _, _ => .raise .other

/-- The part of `_run` that writes. -/
def refund (input : RefundPaymentInput) (payment : Payment) : LedgerM RefundPaymentOutput := do
  let committed : Bool ← statement (.commitRefund
    { paymentId := payment.id
      amount := input.amount.cents
      reason := input.reason
      idempotencyKey := input.idempotencyKey })
  if committed then refunded payment input.idempotencyKey
  else do
    let existing : Option Refund ← statement (.refundWithKey input.idempotencyKey)
    match existing with
    | some existing => replay existing
    | none => .raise .other

/-- `_run`. -/
def run (input : RefundPaymentInput) : LedgerM RefundPaymentOutput := do
  let existing : Option Refund ← statement (.refundWithKey input.idempotencyKey)
  match existing with
  | some existing => replay existing
  | none => do
    let payment : Option Payment ← statement (.paymentNamed input.paymentId)
    match payment with
    | none =>
      .raise (.toolExecutionError "NOT_FOUND" ("Payment '" ++ input.paymentId ++ "' not found"))
    | some payment =>
      if payment.status = .refunded then
        .raise (.toolExecutionError "ALREADY_REFUNDED"
          ("Payment '" ++ input.paymentId ++ "' has already been refunded"))
      else if input.amount.value > (Decimal.ofCents payment.amount).value then
        .raise (.toolExecutionError "INVALID_AMOUNT"
          ("Refund amount " ++ input.amount.text ++ " exceeds original payment amount " ++
            (Decimal.ofCents payment.amount).text))
      else refund input payment

end RefundPaymentTool

/-- Any number of refunds, run at once; the clock of the database moves at will. -/
def refundPayments :
    System Ledger.statements ToolFailure RefundPaymentOutput Ledger RefundPaymentInput Time where
  exec := Ledger.exec
  code := RefundPaymentTool.run
  disturb now s := { s with now }

/-- An amount within what was paid is stored as one: rounding never passes a whole number of cents. -/
theorem Decimal.cents_le {d : Decimal} {n : Nat} (h : d.value ≤ (ofCents n).value) : d.cents ≤ n := by
  have hn : d.value * 100 ≤ n := by
    have : d.value ≤ n / 100 := h
    linarith
  have hlt : d.value * 100 + 1 / 2 < ((n + 1 : Nat) : Rat) := by
    push_cast
    linarith
  exact Nat.lt_succ_iff.1 ((Nat.floor_lt' (Nat.succ_ne_zero n)).2 hlt)

theorem Decimal.cents_ofCents {d : Decimal} {n : Nat} (h : d.value = (ofCents n).value) : d.cents = n := by
  have hvalue : d.value * 100 + 1 / 2 = n + 1 / 2 := by
    rw [h, ofCents]
    ring
  rw [cents, hvalue]
  exact Nat.floor_eq_iff (by positivity) |>.2 ⟨by linarith, by linarith⟩

end SafeOps
