import SafeOps.Tools.Payments

/-! `app/tools/customer.py`: reading a customer and the history of the customer's payments. -/

namespace SafeOps

structure Customer where
  id : Id
  customerId : String
  name : String
  email : String
  createdAt : Time

/-- The customers, and the columns of the payments that nothing changes. -/
structure Accounts where
  customers : List Customer
  customerOf : Id → Id
  createdAt : Id → Time

namespace Accounts

variable (accounts : Accounts)

def named (customerId : String) : Option Customer := accounts.customers.find? (·.customerId = customerId)

def paymentsOf (customer : Customer) (s : Ledger) : List Payment :=
  s.payments.filter fun p => accounts.customerOf p.id = customer.id

/-- `select(Payment).where(…).order_by(Payment.created_at.asc())`, which leaves the order of payments of one
time open. -/
structure Selects (customer : Customer) (s : Ledger) (rows : List Payment) : Prop where
  perm : rows.Perm (accounts.paymentsOf customer s)
  ordered : rows.Pairwise fun p q => accounts.createdAt p.id ≤ accounts.createdAt q.id

end Accounts

variable (renderTime : Time → String)

/-- `model_dump(mode="json")` of `ReadCustomerOutput`. -/
def ReadCustomerTool.modelDump (customer : Customer) : Value :=
  .dict [("customer_id", .str customer.customerId), ("name", .str customer.name), ("email", .str customer.email),
    ("created_at", .str (renderTime customer.createdAt))]

/-- `model_dump(mode="json")` of a `PaymentSummary`. -/
def paymentSummary (accounts : Accounts) (p : Payment) : Value :=
  .dict [("payment_id", .str p.paymentId), ("amount", .str (Decimal.ofCents p.amount).text),
    ("status", .str p.status.value), ("created_at", .str (renderTime (accounts.createdAt p.id)))]

/-- `model_dump(mode="json")` of `GetPaymentsOutput`. -/
def GetPaymentsTool.modelDump (accounts : Accounts) (customer : Customer) (rows : List Payment) : Value :=
  .dict [("customer_id", .str customer.customerId),
    ("payments", .list (rows.map (paymentSummary renderTime accounts)))]

end SafeOps
