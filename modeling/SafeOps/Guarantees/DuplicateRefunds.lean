import SafeOps.Concurrent.Alone
import SafeOps.Guarantees.RefundLedger
import SafeOps.Tools.Customer
import SafeOps.Tools.Registry
import Mathlib.Logic.Relation

/-! Successive executions of the refund workflow on one customer: what each of them refunds, and what they
leave of a group of equal amounts. -/

namespace SafeOps
open Concurrent

section Tool

namespace RefundPaymentTool

theorem refunded_alone (payment : Payment) (key : String) (s : Ledger) :
    ((refunded payment key).alone Ledger.exec s).2 = s := by
  simp only [refunded, statement, Program.call, Program.bind_eq, Program.bind, Program.alone, Ledger.exec]
  split <;> rfl

/-- After the commit the tool only reads. -/
theorem committed_alone (input : RefundPaymentInput) (payment : Payment) (s : Ledger) : ∀ committed : Bool,
    ((if committed then refunded payment input.idempotencyKey
      else do
        let existing : Option Refund ← statement (.refundWithKey input.idempotencyKey)
        match existing with
        | some existing => replay existing
        | none => .raise .other : LedgerM RefundPaymentOutput).alone Ledger.exec s).2 = s
  | true => refunded_alone _ _ _
  | false => by
    simp only [Bool.false_eq_true, if_false, statement, Program.call, Program.bind_eq, Program.bind,
      Program.alone, Ledger.exec]
    split <;> rfl

theorem refund_alone (input : RefundPaymentInput) (payment : Payment) (s : Ledger) :
    ((refund input payment).alone Ledger.exec s).2 =
      (s.commitRefund ⟨payment.id, input.amount.cents, input.reason, input.idempotencyKey, 0⟩).2 :=
  committed_alone input payment _ _

/-- What a call of the tool leaves of the ledger: all of it, or one more refund. -/
theorem alone_cases (input : RefundPaymentInput) (s : Ledger) :
    ((run input).alone Ledger.exec s).2 = s ∨ ∃ p, s.payments.find? (·.paymentId = input.paymentId) = some p ∧
      p.status ≠ .refunded ∧ ((run input).alone Ledger.exec s).2 =
        (s.commitRefund ⟨p.id, input.amount.cents, input.reason, input.idempotencyKey, 0⟩).2 := by
  simp only [run, statement, Program.call, Program.bind_eq, Program.bind, Program.alone, Ledger.exec]
  split
  · exact .inl rfl
  · simp only [Program.alone, Ledger.exec]
    split
    · exact .inl rfl
    · rename_i payment hpayment
      split
      · exact .inl rfl
      · rename_i hstatus
        split
        · exact .inl rfl
        · exact .inr ⟨payment, hpayment, hstatus, refund_alone input payment s⟩

end RefundPaymentTool

end Tool

section Grouping

/-- The decimal of an amount that is written with two decimal places. -/
def FiniteDecimal.ofCents (n : Nat) : FiniteDecimal := ⟨false, n, -2⟩

/-- What is taken from Python's decimals: amounts of whole cents are read for what they are, and written
differently where they differ. -/
structure ReadsCents (text : Text) (amountOf : Value → Option Decimal) : Prop where
  decimal : ∀ n, text.decimal (Decimal.ofCents n).text = some (.finite (.ofCents n))
  decimalText : ∀ m n, text.decimalText (.finite (.ofCents m)) = text.decimalText (.finite (.ofCents n)) → m = n
  amount : ∀ n, ∃ d, amountOf (.str (Decimal.ofCents n).text) = some d ∧ d.value = (Decimal.ofCents n).value

/-- The key under which a payment is grouped. -/
def amountKey (text : Text) (p : Payment) : String := text.decimalText (.finite (.ofCents p.amount))

section Append

variable {α : Type} {key : String} {item : α} {groups : List (String × List α)}

theorem appendTo_keys : (appendTo key item groups).map (·.1) =
    if key ∈ groups.map (·.1) then groups.map (·.1) else groups.map (·.1) ++ [key] := by
  induction groups with
  | nil => rfl
  | cons group groups ih =>
    rw [appendTo]
    by_cases hkey : group.1 = key
    · simp [hkey]
    · rw [if_neg hkey, List.map_cons, ih]
      by_cases hmem : key ∈ groups.map (·.1)
      · simp [hmem]
      · simp [hmem, Ne.symm hkey]

/-- A group of the key has gained the item, or is new; the others are as they were. -/
theorem mem_appendTo {group : String × List α} (hkeys : (groups.map (·.1)).Nodup)
    (h : group ∈ appendTo key item groups) :
    (∃ members, (key, members) ∈ groups ∧ group = (key, members ++ [item])) ∨
      (key ∉ groups.map (·.1) ∧ group = (key, [item])) ∨ (group.1 ≠ key ∧ group ∈ groups) := by
  induction groups with
  | nil => exact .inr (.inl ⟨List.not_mem_nil, List.mem_singleton.1 h⟩)
  | cons first groups ih =>
    obtain ⟨hfirst, hkeys⟩ := List.nodup_cons.1 hkeys
    rw [appendTo] at h
    by_cases hkey : first.1 = key
    · rw [if_pos hkey] at h
      rcases List.mem_cons.1 h with rfl | h
      · exact .inl ⟨first.2, hkey ▸ List.mem_cons_self, rfl⟩
      · refine .inr (.inr ⟨fun hgroup => hfirst ?_, List.mem_cons_of_mem _ h⟩)
        exact List.mem_map.2 ⟨group, h, hgroup.trans hkey.symm⟩
    · rw [if_neg hkey] at h
      rcases List.mem_cons.1 h with rfl | h
      · exact .inr (.inr ⟨hkey, List.mem_cons_self⟩)
      · rcases ih hkeys h with ⟨members, hmem, rfl⟩ | ⟨hnew, rfl⟩ | ⟨hne, hmem⟩
        · exact .inl ⟨members, List.mem_cons_of_mem _ hmem, rfl⟩
        · refine .inr (.inl ⟨?_, rfl⟩)
          rw [List.map_cons, List.mem_cons]
          exact fun h => h.elim (Ne.symm hkey) hnew
        · exact .inr (.inr ⟨hne, List.mem_cons_of_mem _ hmem⟩)

end Append

/-- Each group holds the payments of one key. -/
structure Grouped (key : Payment → String) (summary : Payment → Value) (rows : List Payment)
    (groups : List (String × List Value)) : Prop where
  keys : (groups.map (·.1)).Nodup
  members : ∀ group ∈ groups, group.2 = (rows.filter fun p => key p = group.1).map summary
  complete : ∀ p ∈ rows, key p ∈ groups.map (·.1)

theorem Grouped.append {key : Payment → String} {summary : Payment → Value} {rows : List Payment}
    {groups : List (String × List Value)} (h : Grouped key summary rows groups) (p : Payment) :
    Grouped key summary (rows ++ [p]) (appendTo (key p) (summary p) groups) where
  keys := by
    rw [appendTo_keys]
    split
    · exact h.keys
    · rename_i hnew
      rw [List.nodup_append_comm, List.singleton_append]
      exact List.nodup_cons.2 ⟨hnew, h.keys⟩
  members := by
    intro group hgroup
    rw [List.filter_append, List.map_append]
    rcases mem_appendTo h.keys hgroup with ⟨members, hmem, rfl⟩ | ⟨hnew, rfl⟩ | ⟨hne, hmem⟩
    · rw [← h.members _ hmem]
      simp
    · have hnone : rows.filter (fun q => key q = key p) = [] := by
        refine List.filter_eq_nil_iff.2 fun q hq hkey => hnew ?_
        exact of_decide_eq_true hkey ▸ h.complete q hq
      simp [hnone]
    · rw [← h.members group hmem]
      simp [Ne.symm hne]
  complete := by
    intro q hq
    rw [appendTo_keys]
    rcases List.mem_append.1 hq with hq | hq
    · split
      · exact h.complete q hq
      · exact List.mem_append_left _ (h.complete q hq)
    · rw [List.mem_singleton.1 hq]
      split
      · assumption
      · exact List.mem_append_right _ (List.mem_singleton.2 rfl)

variable {renderTime : Time → String} {accounts : Accounts}

theorem amount_entry (p : Payment) :
    getEntry (paymentSummary renderTime accounts p) "amount" = .ok (some (.str (Decimal.ofCents p.amount).text)) := by
  simp [paymentSummary, getEntry, List.lookup_cons]

theorem payments_entry (customer : Customer) (rows : List Payment) :
    getEntry (GetPaymentsTool.modelDump renderTime accounts customer rows) "payments" =
      .ok (some (.list (rows.map (paymentSummary renderTime accounts)))) := by
  simp [GetPaymentsTool.modelDump, getEntry, List.lookup_cons]

variable {text : Text} {amountOf : Value → Option Decimal} (hcents : ReadsCents text amountOf)
include hcents

theorem groupByAmount_summaries (rows : List Payment) {done : List Payment} {groups : List (String × List Value)}
    (h : Grouped (amountKey text) (paymentSummary renderTime accounts) done groups) :
    ∃ groups', DeterministicPlanner.groupByAmount text groups (rows.map (paymentSummary renderTime accounts)) =
      .ok groups' ∧ Grouped (amountKey text) (paymentSummary renderTime accounts) (done ++ rows) groups' := by
  induction rows generalizing done groups with
  | nil => exact ⟨groups, rfl, by rwa [List.append_nil]⟩
  | cons p rows ih =>
    obtain ⟨groups', hgroups, hgrouped⟩ := ih (h.append p)
    refine ⟨groups', ?_, by rwa [List.append_assoc, List.singleton_append] at hgrouped⟩
    have hdecimal : text.decimal (text.str (.str (Decimal.ofCents p.amount).text)) = _ := hcents.decimal p.amount
    rw [← hgroups, List.map_cons, DeterministicPlanner.groupByAmount, amount_entry]
    simp only [bind, Except.bind, Option.getD_some, hdecimal, amountKey]

omit hcents in
theorem succeeded_summary (p : Payment) :
    DeterministicPlanner.succeeded (paymentSummary renderTime accounts p) = true ↔ p.status = .succeeded := by
  have hentry : (paymentSummary renderTime accounts p).get? "status" = some (.str p.status.value) := by
    simp [paymentSummary, Value.get?, List.lookup_cons]
  rw [DeterministicPlanner.succeeded, hentry]
  cases p.status <;> simp [PaymentStatus.value]

/-- The duplicate that is found has succeeded, and another payment has its amount. -/
theorem findDuplicatePayment_summaries {rows : List Payment} (hnodup : rows.Nodup) {duplicate : Value}
    (h : DeterministicPlanner.findDuplicatePayment text (.list (rows.map (paymentSummary renderTime accounts))) =
      .ok (some duplicate)) : ∃ p ∈ rows, duplicate = paymentSummary renderTime accounts p ∧ p.status = .succeeded ∧
        ∃ q ∈ rows, q ≠ p ∧ q.amount = p.amount := by
  have start : Grouped (amountKey text) (paymentSummary renderTime accounts) [] [] :=
    ⟨List.nodup_nil, List.forall_mem_nil _, List.forall_mem_nil _⟩
  obtain ⟨groups, hgroups, hgrouped⟩ := groupByAmount_summaries hcents rows start
  rw [List.nil_append] at hgrouped
  rw [DeterministicPlanner.findDuplicatePayment, itemsOf] at h
  simp only [bind, Except.bind, pure, Except.pure, hgroups, Except.ok.injEq] at h
  obtain ⟨group, hgroup, hfound⟩ := List.exists_of_findSome?_eq_some h
  obtain ⟨hgroup, hlength⟩ := List.mem_filter.1 hgroup
  have hmembers := hgrouped.members group hgroup
  have hsucceeded := List.find?_some hfound
  have hmem := List.mem_of_find?_eq_some hfound
  rw [hmembers] at hmem
  obtain ⟨p, hp, rfl⟩ := List.mem_map.1 hmem
  obtain ⟨hrow, hkey⟩ := List.mem_filter.1 hp
  refine ⟨p, hrow, rfl, (succeeded_summary p).1 hsucceeded, ?_⟩
  have hgroupNodup : (rows.filter fun p => amountKey text p = group.1).Nodup := hnodup.filter _
  have hothers : 0 < ((rows.filter fun p => amountKey text p = group.1).erase p).length := by
    have hlength : 2 ≤ group.2.length := of_decide_eq_true hlength
    rw [hmembers, List.length_map] at hlength
    rw [List.length_erase_of_mem hp]
    omega
  obtain ⟨q, hq⟩ := List.exists_mem_of_length_pos hothers
  obtain ⟨hne, hq⟩ := hgroupNodup.mem_erase_iff.1 hq
  obtain ⟨hq, hkey'⟩ := List.mem_filter.1 hq
  exact ⟨q, hq, hne, hcents.decimalText _ _ ((of_decide_eq_true hkey').trans (of_decide_eq_true hkey).symm)⟩

end Grouping

section Workflow

variable (text : Text) (amountOf : Value → Option Decimal) (renderTime : Time → String) (accounts : Accounts)

/-- An execution of the workflow under way. -/
structure Course where
  history : List ExecutionStep
  ledger : Ledger

/-- The step of a tool call that has ended, with its result or without. -/
def callStep (sequence : Nat) (action : ToolAction) (result : Option Value) : ExecutionStep where
  sequence := sequence
  stepType := .toolCall
  status := if result.isSome then .completed else .failed
  input := { toolName := some action.toolName, arguments := some action.arguments, reason := some action.reason }
  output := some { toolName := some action.toolName, toolResult := result }

def Course.record (c : Course) (action : ToolAction) (result : Option Value) (ledger : Ledger) : Course where
  history := c.history ++ [callStep (c.history.length + 1) action result]
  ledger := ledger

/-- An approved refund, executed: its result, and the ledger it leaves. -/
def executeRefund (arguments : Value) (s : Ledger) : Option Value × Ledger :=
  match RefundPaymentInput.validate amountOf arguments with
  | none => (none, s)
  | some input =>
    let ended := (RefundPaymentTool.run input).alone Ledger.exec s
    (ended.1.toOption.map (·.modelDump renderTime), ended.2)

/-- The planner is consulted, and the call it decides on is made. A read may fail. -/
inductive Consult (executionId : Id) (customerId : String) : Course → Course → Prop
  | readCustomer {c : Course} {action : ToolAction} {name : String} {customer : Customer} :
      DeterministicPlanner.refundDuplicateWorkflow text executionId customerId c.history = .ok (.toolAction action) →
      action.toolName = "read_customer" → textField action.arguments "customer_id" = some name →
      accounts.named name = some customer →
      Consult executionId customerId c
        (c.record action (some (ReadCustomerTool.modelDump renderTime customer)) c.ledger)
  | getPayments {c : Course} {action : ToolAction} {name : String} {customer : Customer} {rows : List Payment} :
      DeterministicPlanner.refundDuplicateWorkflow text executionId customerId c.history = .ok (.toolAction action) →
      action.toolName = "get_payments" → textField action.arguments "customer_id" = some name →
      accounts.named name = some customer → accounts.Selects customer c.ledger rows →
      Consult executionId customerId c
        (c.record action (some (GetPaymentsTool.modelDump renderTime accounts customer rows)) c.ledger)
  | failedRead {c : Course} {action : ToolAction} :
      DeterministicPlanner.refundDuplicateWorkflow text executionId customerId c.history = .ok (.toolAction action) →
      action.toolName ≠ "refund_payment" → Consult executionId customerId c (c.record action none c.ledger)
  | refund {c : Course} {action : ToolAction} :
      DeterministicPlanner.refundDuplicateWorkflow text executionId customerId c.history = .ok (.toolAction action) →
      action.toolName = "refund_payment" →
      Consult executionId customerId c (c.record action (executeRefund amountOf renderTime action.arguments c.ledger).1
        (executeRefund amountOf renderTime action.arguments c.ledger).2)

/-- An execution of the workflow on the customer, from its first consultation on. -/
def Executes (executionId : Id) (customer : Customer) (s s' : Ledger) : Prop :=
  ∃ history, Relation.ReflTransGen (Consult text amountOf renderTime accounts executionId customer.customerId)
    ⟨[], s⟩ ⟨history, s'⟩

/-- Executions one after another, each with the ledger before and after it, the latest first. -/
inductive Successive (customer : Customer) (s : Ledger) : List (Ledger × Ledger) → Ledger → Prop
  | nil : Successive customer s [] s
  | cons {executionId : Id} {earlier : List (Ledger × Ledger)} {s' s'' : Ledger} :
      Successive customer s earlier s' → Executes text amountOf renderTime accounts executionId customer s' s'' →
      Successive customer s ((s', s'') :: earlier) s''

end Workflow

section Decisions

variable {text : Text} {executionId : Id} {customerId : String} {history : List ExecutionStep} {action : ToolAction}

/-- What the workflow may decide to do. -/
theorem refundDuplicateWorkflow_action
    (h : DeterministicPlanner.refundDuplicateWorkflow text executionId customerId history = .ok (.toolAction action)) :
    (action.toolName = "read_customer" ∨
      (action.toolName = "get_payments" ∧ textField action.arguments "customer_id" = some customerId)) ∨
    ∃ step payments duplicate, attempted history "refund_payment" = none ∧
      completedStep history "get_payments" = some step ∧ getEntry (toolResult step) "payments" = .ok payments ∧
      DeterministicPlanner.findDuplicatePayment text (payments.getD (.list [])) = .ok (some duplicate) ∧
      DeterministicPlanner.refundAction text executionId duplicate = .ok action := by
  rw [DeterministicPlanner.refundDuplicateWorkflow] at h
  split at h
  · obtain rfl := PlannerDecision.toolAction.inj (Except.ok.inj h)
    exact .inl (.inl rfl)
  · split at h
    · obtain rfl := PlannerDecision.toolAction.inj (Except.ok.inj h)
      exact .inl (.inr ⟨rfl, by simp [textField, Value.get?]⟩)
    · rename_i step hstep
      split at h
      · cases h
      · rename_i hattempted
        refine .inr ⟨step, ?_⟩
        cases hpayments : getEntry (toolResult step) "payments" with
        | error => simp [hpayments, bind, Except.bind] at h
        | ok payments =>
          simp only [hpayments, bind, Except.bind] at h
          cases hfound : DeterministicPlanner.findDuplicatePayment text (payments.getD (.list [])) with
          | error => simp [hfound] at h
          | ok found =>
            cases found with
            | none => simp [hfound, pure, Except.pure] at h
            | some duplicate =>
              simp only [hfound] at h
              cases haction : DeterministicPlanner.refundAction text executionId duplicate with
              | error => simp [haction] at h
              | ok action' =>
                simp only [haction, pure, Except.pure] at h
                obtain rfl := PlannerDecision.toolAction.inj (Except.ok.inj h)
                exact ⟨payments, duplicate, by simpa using hattempted, hstep, rfl, hfound, haction⟩

theorem refundAction_toolName {duplicate : Value}
    (h : DeterministicPlanner.refundAction text executionId duplicate = .ok action) :
    action.toolName = "refund_payment" := by
  rw [DeterministicPlanner.refundAction] at h
  cases hid : entryOf duplicate "payment_id" with
  | error => simp [hid, bind, Except.bind] at h
  | ok paymentId =>
    cases hamount : entryOf duplicate "amount" with
    | error => simp [hid, hamount, bind, Except.bind] at h
    | ok amount =>
      simp only [hid, hamount, bind, Except.bind, pure, Except.pure] at h
      obtain rfl := Except.ok.inj h
      rfl

/-- The payments are asked for under the name of the customer. -/
theorem getPayments_argument
    (h : DeterministicPlanner.refundDuplicateWorkflow text executionId customerId history = .ok (.toolAction action))
    (hname : action.toolName = "get_payments") : textField action.arguments "customer_id" = some customerId := by
  rcases refundDuplicateWorkflow_action h with (hread | ⟨-, hargument⟩) | ⟨_, _, _, -, -, -, -, haction⟩
  · exact absurd (hread.symm.trans hname) (by decide)
  · exact hargument
  · exact absurd ((refundAction_toolName haction).symm.trans hname) (by decide)

/-- A refund is proposed before any has been attempted, and for the duplicate of the payments read. -/
theorem refund_proposed
    (h : DeterministicPlanner.refundDuplicateWorkflow text executionId customerId history = .ok (.toolAction action))
    (hname : action.toolName = "refund_payment") : ∃ step payments duplicate,
      attempted history "refund_payment" = none ∧ completedStep history "get_payments" = some step ∧
        getEntry (toolResult step) "payments" = .ok payments ∧
        DeterministicPlanner.findDuplicatePayment text (payments.getD (.list [])) = .ok (some duplicate) ∧
        DeterministicPlanner.refundAction text executionId duplicate = .ok action := by
  rcases refundDuplicateWorkflow_action h with (hread | ⟨hread, -⟩) | hrefund
  · exact absurd (hread.symm.trans hname) (by decide)
  · exact absurd (hread.symm.trans hname) (by decide)
  · exact hrefund

end Decisions

section Runs

variable {text : Text} {amountOf : Value → Option Decimal} (hcents : ReadsCents text amountOf)
  {renderTime : Time → String} {accounts : Accounts} {customer : Customer} {s s' : Ledger}

/-- The primary and the unique key of the payments. -/
structure Ledger.PaymentsKeyed (s : Ledger) : Prop where
  ids : (s.payments.map (·.id)).Nodup
  names : (s.payments.map (·.paymentId)).Nodup

/-- Payment `p` of the customer has been refunded in full, and another one has its amount. -/
structure RefundsDuplicate (accounts : Accounts) (customer : Customer) (s s' : Ledger) (p : Payment) : Prop where
  owned : p ∈ accounts.paymentsOf customer s
  succeeded : p.status = .succeeded
  duplicate : ∃ q ∈ accounts.paymentsOf customer s, q.id ≠ p.id ∧ q.amount = p.amount
  refund : ∃ row : Refund, row.paymentId = p.id ∧ row.amount = p.amount ∧ s'.refunds = s.refunds ++ [row]
  payments : s'.payments = s.payments.map (Ledger.setRefunded p.id)

theorem refundAction_summary {executionId : Id} {p : Payment} {action : ToolAction}
    (h : DeterministicPlanner.refundAction text executionId (paymentSummary renderTime accounts p) = .ok action) :
    action.toolName = "refund_payment" ∧ textField action.arguments "payment_id" = some p.paymentId ∧
      action.arguments.get? "amount" = some (.str (Decimal.ofCents p.amount).text) := by
  have hid : entryOf (paymentSummary renderTime accounts p) "payment_id" = .ok (.str p.paymentId) := by
    simp [paymentSummary, entryOf, Value.get?]
  have hamount : entryOf (paymentSummary renderTime accounts p) "amount" =
      .ok (.str (Decimal.ofCents p.amount).text) := by
    simp [paymentSummary, entryOf, Value.get?, List.lookup_cons]
  simp only [DeterministicPlanner.refundAction, hid, hamount, bind, Except.bind, pure, Except.pure] at h
  obtain rfl := Except.ok.inj h
  simp [textField, Value.get?, List.lookup_cons]

include hcents in
/-- The refund of a payment that the planner has found in the ledger refunds that payment, if any. -/
theorem executeRefund_cases (hs : s.PaymentsKeyed) {p : Payment} (hp : p ∈ s.payments) {arguments : Value}
    (hname : textField arguments "payment_id" = some p.paymentId)
    (hamount : arguments.get? "amount" = some (.str (Decimal.ofCents p.amount).text)) :
    (executeRefund amountOf renderTime arguments s).2 = s ∨
      ((∃ row : Refund, row.paymentId = p.id ∧ row.amount = p.amount ∧
        (executeRefund amountOf renderTime arguments s).2.refunds = s.refunds ++ [row]) ∧
        (executeRefund amountOf renderTime arguments s).2.payments = s.payments.map (Ledger.setRefunded p.id)) := by
  rw [executeRefund]
  split
  · exact .inl rfl
  · rename_i input hinput
    obtain ⟨hpaymentId, hcentsAmount⟩ : input.paymentId = p.paymentId ∧ input.amount.cents = p.amount := by
      obtain ⟨d, hd, hvalue⟩ := hcents.amount p.amount
      simp only [RefundPaymentInput.validate, hname, hamount, hd, Option.bind_some, bind, pure,
        Option.bind_eq_some_iff] at hinput
      obtain ⟨reason, -, key, -, hinput⟩ := hinput
      split at hinput
      · obtain rfl := Option.some.inj hinput
        exact ⟨rfl, Decimal.cents_ofCents hvalue⟩
      · cases hinput
    rcases RefundPaymentTool.alone_cases input s with heq | ⟨p', hfound, -, heq⟩
    · exact .inl heq
    · have hsame : p' = p := by
        refine List.inj_on_of_nodup_map hs.names (List.mem_of_find?_eq_some hfound) hp ?_
        simpa [hpaymentId] using List.find?_some hfound
      subst hsame
      simp only [heq, Ledger.commitRefund, hcentsAmount]
      split
      · exact .inl rfl
      · exact .inr ⟨⟨_, rfl, rfl, rfl⟩, rfl⟩

/-- A completed reading of the payments. -/
def ReadsPayments (step : ExecutionStep) : Prop :=
  step.stepType = .toolCall ∧ step.status = .completed ∧ step.input.toolName = some "get_payments"

/-- Before a refund is attempted the ledger is as it was and the history shows it; afterwards at most one
duplicate has been refunded. -/
inductive CourseSound (renderTime : Time → String) (accounts : Accounts) (customer : Customer) (s : Ledger)
    (c : Course) : Prop
  | reading : attempted c.history "refund_payment" = none → c.ledger = s →
      (∀ step ∈ c.history, ReadsPayments step → ∃ rows, accounts.Selects customer s rows ∧
        toolResult step = GetPaymentsTool.modelDump renderTime accounts customer rows) →
      CourseSound renderTime accounts customer s c
  | refunded : (attempted c.history "refund_payment").isSome →
      (c.ledger = s ∨ ∃ p, RefundsDuplicate accounts customer s c.ledger p) →
      CourseSound renderTime accounts customer s c

theorem attempted_record (c : Course) (action : ToolAction) (result : Option Value) (ledger : Ledger) (name : String) :
    attempted (c.record action result ledger).history name = (attempted c.history name).or
      (if action.toolName = name then some (callStep (c.history.length + 1) action result) else none) := by
  rw [attempted, attempted, Course.record, List.find?_append]
  congr 1
  by_cases hname : action.toolName = name <;> simp [callStep, hname]

/-- A read keeps the course sound if what it shows is in the ledger. -/
theorem CourseSound.read {c : Course} (h : CourseSound renderTime accounts customer s c) {action : ToolAction}
    {result : Option Value} (hname : action.toolName ≠ "refund_payment")
    (hshown : c.ledger = s → ReadsPayments (callStep (c.history.length + 1) action result) →
      ∃ rows, accounts.Selects customer s rows ∧ toolResult (callStep (c.history.length + 1) action result) =
        GetPaymentsTool.modelDump renderTime accounts customer rows) :
    CourseSound renderTime accounts customer s (c.record action result c.ledger) := by
  have hattempted := attempted_record c action result c.ledger "refund_payment"
  rw [if_neg hname, Option.or_none] at hattempted
  cases h with
  | reading hnone hledger hreads =>
    refine .reading (hattempted.trans hnone) hledger fun step hstep hread => ?_
    rcases List.mem_append.1 hstep with hstep | hstep
    · exact hreads step hstep hread
    · obtain rfl := List.mem_singleton.1 hstep
      exact hshown hledger hread
  | refunded hsome hledger => exact .refunded (hattempted ▸ hsome) hledger

include hcents in
theorem CourseSound.consult (hs : s.PaymentsKeyed) (hcustomer : accounts.named customer.customerId = some customer)
    {executionId : Id} {c c' : Course} (h : CourseSound renderTime accounts customer s c)
    (hconsult : Consult text amountOf renderTime accounts executionId customer.customerId c c') :
    CourseSound renderTime accounts customer s c' := by
  cases hconsult with
  | readCustomer hdecision hname =>
    refine h.read (by rw [hname]; decide) fun _ hread => ?_
    have hreads : some _ = some "get_payments" := hread.2.2
    rw [hname] at hreads
    exact absurd hreads (by decide)
  | failedRead hdecision hname =>
    exact h.read hname fun _ hread => nomatch (hread.2.1 : StepStatus.failed = .completed)
  | @getPayments action name customer' rows hdecision hname hargument hfound hselects =>
    obtain rfl := Option.some.inj (hargument.symm.trans (getPayments_argument hdecision hname))
    obtain rfl := Option.some.inj (hfound.symm.trans hcustomer)
    exact h.read (by rw [hname]; decide) fun hledger _ => ⟨rows, hledger ▸ hselects, rfl⟩
  | @refund action hdecision hname =>
    obtain ⟨step, payments, duplicate, hnone, hstep, hpayments, hfound, haction⟩ := refund_proposed hdecision hname
    have hattempted : (attempted (c.record action (executeRefund amountOf renderTime action.arguments c.ledger).1
        (executeRefund amountOf renderTime action.arguments c.ledger).2).history "refund_payment").isSome := by
      rw [attempted_record, if_pos hname, hnone]
      rfl
    refine .refunded hattempted ?_
    cases h with
    | refunded hsome => exact absurd hnone (Option.isSome_iff_ne_none.1 hsome)
    | reading _ hledger hreads =>
      rw [completedStep] at hstep
      have hread : ReadsPayments step := by simpa [ReadsPayments] using List.find?_some hstep
      obtain ⟨rows, hselects, hresult⟩ := hreads step (List.mem_of_find?_eq_some hstep) hread
      rw [hresult, payments_entry] at hpayments
      obtain rfl := Except.ok.inj hpayments
      have howned : (accounts.paymentsOf customer s).Nodup := (List.Nodup.of_map _ hs.ids).filter _
      obtain ⟨p, hp, rfl, hsucceeded, q, hq, hne, hamount⟩ :=
        findDuplicatePayment_summaries hcents (hselects.perm.nodup_iff.2 howned) hfound
      have hp : p ∈ accounts.paymentsOf customer s := hselects.perm.mem_iff.1 hp
      have hq : q ∈ accounts.paymentsOf customer s := hselects.perm.mem_iff.1 hq
      have hp' : p ∈ s.payments := (List.mem_filter.1 hp).1
      obtain ⟨-, hid, hvalue⟩ := refundAction_summary haction
      rw [Course.record, hledger]
      refine (executeRefund_cases hcents hs hp' hid hvalue).imp_right fun ⟨hrefund, hstatus⟩ => ⟨p, ?_⟩
      exact {
        owned := hp
        succeeded := hsucceeded
        duplicate := ⟨q, hq, fun hids => hne (eq_of_id hs.ids (List.mem_filter.1 hq).1 hp' hids), hamount⟩
        refund := hrefund
        payments := hstatus }

include hcents in
/-- An execution refunds nothing, or one duplicate. -/
theorem Executes.cases (hs : s.PaymentsKeyed) (hcustomer : accounts.named customer.customerId = some customer)
    {executionId : Id} (h : Executes text amountOf renderTime accounts executionId customer s s') :
    s' = s ∨ ∃ p, RefundsDuplicate accounts customer s s' p := by
  obtain ⟨history, hcourse⟩ := h
  have hsound : CourseSound renderTime accounts customer s ⟨history, s'⟩ := by
    generalize hend : (⟨history, s'⟩ : Course) = c at hcourse
    clear hend
    induction hcourse with
    | refl => exact .reading rfl rfl (List.forall_mem_nil _)
    | tail _ hconsult ih => exact ih.consult hcents hs hcustomer hconsult
  cases hsound with
  | reading _ hledger => exact .inl hledger
  | refunded _ hledger => exact hledger

theorem setRefunded_paymentId (id : Id) (p : Payment) : (Ledger.setRefunded id p).paymentId = p.paymentId := by
  unfold Ledger.setRefunded
  split <;> rfl

theorem setRefunded_of_ne {id : Id} {p : Payment} (h : p.id ≠ id) : Ledger.setRefunded id p = p := if_neg h

namespace RefundsDuplicate

variable {p q : Payment} (h : RefundsDuplicate accounts customer s s' p)
include h

theorem keyed (hs : s.PaymentsKeyed) : s'.PaymentsKeyed := by
  have hids : ((·.id) ∘ Ledger.setRefunded p.id : Payment → Id) = (·.id) := funext fun q => Ledger.setRefunded_id _ q
  have hnames : ((·.paymentId) ∘ Ledger.setRefunded p.id : Payment → String) = (·.paymentId) :=
    funext fun q => setRefunded_paymentId _ q
  constructor <;> rw [h.payments, List.map_map]
  · rw [hids]
    exact hs.ids
  · rw [hnames]
    exact hs.names

/-- The other payments of the customer stay as they are. -/
theorem others (hq : q ∈ accounts.paymentsOf customer s) (hne : q.id ≠ p.id) :
    q ∈ accounts.paymentsOf customer s' := by
  obtain ⟨hmem, howner⟩ := List.mem_filter.1 hq
  refine List.mem_filter.2 ⟨?_, howner⟩
  rw [h.payments]
  exact List.mem_map.2 ⟨q, hmem, setRefunded_of_ne hne⟩

end RefundsDuplicate

theorem eq_of_owned (hs : s.PaymentsKeyed) {p q : Payment} (hp : p ∈ accounts.paymentsOf customer s)
    (hq : q ∈ accounts.paymentsOf customer s) (hid : p.id = q.id) : p = q :=
  eq_of_id hs.ids (List.mem_filter.1 hp).1 (List.mem_filter.1 hq).1 hid

variable {trace : List (Ledger × Ledger)}

include hcents in
theorem Successive.keyed (hs : s.PaymentsKeyed) (hcustomer : accounts.named customer.customerId = some customer)
    (h : Successive text amountOf renderTime accounts customer s trace s') : s'.PaymentsKeyed := by
  induction h with
  | nil => exact hs
  | cons _ hexecutes ih =>
    rcases hexecutes.cases hcents ih hcustomer with rfl | ⟨p, hp⟩
    · exact ih
    · exact hp.keyed ih

include hcents in
theorem Successive.duplicates (hs : s.PaymentsKeyed)
    (hcustomer : accounts.named customer.customerId = some customer)
    (h : Successive text amountOf renderTime accounts customer s trace s') :
    ∀ run ∈ trace, run.2 = run.1 ∨ ∃ p, RefundsDuplicate accounts customer run.1 run.2 p := by
  induction h with
  | nil => exact List.forall_mem_nil _
  | cons hearlier hexecutes ih =>
    exact List.forall_mem_cons.2 ⟨hexecutes.cases hcents (hearlier.keyed hcents hs hcustomer) hcustomer, ih⟩

/-- Another payment of the amount that has not been refunded. -/
def Leaves (accounts : Accounts) (customer : Customer) (amount : Nat) (s : Ledger) (p : Payment) : Prop :=
  ∃ q ∈ accounts.paymentsOf customer s, q.id ≠ p.id ∧ q.amount = amount ∧ q.status ≠ .refunded

include hcents in
theorem Successive.leaves (hs : s.PaymentsKeyed) (hcustomer : accounts.named customer.customerId = some customer)
    (h : Successive text amountOf renderTime accounts customer s trace s') {amount : Nat}
    (hstart : ∃ p ∈ accounts.paymentsOf customer s, p.amount = amount ∧ p.status ≠ .refunded)
    (hleaves : ∀ run ∈ trace, ∀ p, RefundsDuplicate accounts customer run.1 run.2 p → p.amount = amount →
      Leaves accounts customer amount run.1 p) :
    ∃ p ∈ accounts.paymentsOf customer s', p.amount = amount ∧ p.status ≠ .refunded := by
  induction h with
  | nil => exact hstart
  | cons hearlier hexecutes ih =>
    obtain ⟨hrun, hleaves⟩ := List.forall_mem_cons.1 hleaves
    obtain ⟨q, hq, hamount, hstatus⟩ := ih hleaves
    rcases hexecutes.cases hcents (hearlier.keyed hcents hs hcustomer) hcustomer with rfl | ⟨p, hp⟩
    · exact ⟨q, hq, hamount, hstatus⟩
    · by_cases hsame : p.amount = amount
      · obtain ⟨q', hq', hne, hamount', hstatus'⟩ := hrun p hp hsame
        exact ⟨q', hp.others hq' hne, hamount', hstatus'⟩
      · have hne : q.id ≠ p.id := by
          intro hid
          exact hsame (eq_of_owned (hearlier.keyed hcents hs hcustomer) hq hp.owned hid ▸ hamount)
        exact ⟨q, hp.others hq hne, hamount, hstatus⟩

/-- The only payment of its amount. -/
def Single (accounts : Accounts) (customer : Customer) (s : Ledger) (p : Payment) : Prop :=
  p ∈ accounts.paymentsOf customer s ∧ ∀ q ∈ accounts.paymentsOf customer s, q.amount = p.amount → q.id = p.id

theorem RefundsDuplicate.single {p q : Payment} (h : RefundsDuplicate accounts customer s s' p)
    (hs : s.PaymentsKeyed) (hq : Single accounts customer s q) : Single accounts customer s' q := by
  obtain ⟨hmem, honly⟩ := hq
  have hne : q.id ≠ p.id := by
    intro hid
    obtain rfl := eq_of_owned hs hmem h.owned hid
    obtain ⟨r, hr, hne, hamount⟩ := h.duplicate
    exact hne (honly r hr hamount)
  refine ⟨h.others hmem hne, fun r hr hamount => ?_⟩
  rw [Accounts.paymentsOf, h.payments] at hr
  obtain ⟨hmap, howner⟩ := List.mem_filter.1 hr
  obtain ⟨r, hmem, rfl⟩ := List.mem_map.1 hmap
  rw [Ledger.setRefunded_id] at howner ⊢
  rw [Ledger.setRefunded_amount] at hamount
  exact honly r (List.mem_filter.2 ⟨hmem, howner⟩) hamount

include hcents in
theorem Successive.single (hs : s.PaymentsKeyed) (hcustomer : accounts.named customer.customerId = some customer)
    (h : Successive text amountOf renderTime accounts customer s trace s') {p : Payment}
    (hp : Single accounts customer s p) : Single accounts customer s' p := by
  induction h with
  | nil => exact hp
  | cons hearlier hexecutes ih =>
    rcases hexecutes.cases hcents (hearlier.keyed hcents hs hcustomer) hcustomer with rfl | ⟨q, hq⟩
    · exact ih
    · exact hq.single (hearlier.keyed hcents hs hcustomer) ih

end Runs

section Completion

variable {text : Text} {amountOf : Value → Option Decimal} (hcents : ReadsCents text amountOf)
  {renderTime : Time → String} {accounts : Accounts} {customer : Customer} {s : Ledger}

theorem find_named (hs : s.PaymentsKeyed) {p : Payment} (hp : p ∈ s.payments) :
    s.payments.find? (·.paymentId = p.paymentId) = some p := by
  obtain ⟨q, hq⟩ := Option.isSome_iff_exists.1 (List.find?_isSome (p := (·.paymentId = p.paymentId)).2 ⟨p, hp, by simp⟩)
  have hsame : q = p :=
    List.inj_on_of_nodup_map hs.names (List.mem_of_find?_eq_some hq) hp (by simpa using List.find?_some hq)
  exact hsame ▸ hq

include hcents in
theorem executeRefund_fresh (hs : s.PaymentsKeyed) {p : Payment} (hp : p ∈ s.payments)
    (hstatus : p.status ≠ .refunded) (hamount : 0 < p.amount) {key : String}
    (hfresh : key ∉ s.refunds.map (·.idempotencyKey)) {reason : String} :
    (executeRefund amountOf renderTime (.dict [("payment_id", .str p.paymentId),
      ("amount", .str (Decimal.ofCents p.amount).text), ("reason", .str reason), ("idempotency_key", .str key)]) s).2 =
      { s with
        payments := s.payments.map (Ledger.setRefunded p.id)
        refunds := s.refunds ++ [⟨p.id, p.amount, reason, key, s.now⟩] } := by
  obtain ⟨d, hd, hvalue⟩ := hcents.amount p.amount
  have hpositive : 0 < d.value := by
    rw [hvalue, Decimal.ofCents]
    positivity
  have hinput : RefundPaymentInput.validate amountOf (.dict [("payment_id", .str p.paymentId),
      ("amount", .str (Decimal.ofCents p.amount).text), ("reason", .str reason), ("idempotency_key", .str key)]) =
      some ⟨p.paymentId, d, reason, key, hpositive⟩ := by
    simp [RefundPaymentInput.validate, textField, Value.get?, List.lookup_cons, hd, hpositive]
  have hkey : s.refunds.find? (·.idempotencyKey = key) = none :=
    List.find?_eq_none.2 fun row hrow h => hfresh (List.mem_map.2 ⟨row, hrow, of_decide_eq_true h⟩)
  have hid : p.id ∈ s.payments.map (·.id) := List.mem_map_of_mem hp
  have hrun : ((RefundPaymentTool.run ⟨p.paymentId, d, reason, key, hpositive⟩).alone Ledger.exec s).2 =
      (s.commitRefund ⟨p.id, d.cents, reason, key, 0⟩).2 := by
    simp only [RefundPaymentTool.run, RefundPaymentTool.statement, Program.call, Program.bind_eq, Program.bind,
      Program.alone, Ledger.exec, hkey, find_named hs hp]
    rw [if_neg hstatus, if_neg (by rw [hvalue]; exact lt_irrefl _)]
    exact RefundPaymentTool.refund_alone _ p s
  rw [executeRefund, hinput]
  simp only [hrun, Ledger.commitRefund, Decimal.cents_ofCents hvalue]
  rw [if_neg (by simp only [not_or, not_not]; exact ⟨hfresh, hid⟩)]

variable (renderTime) in
def customerRead (customer : Customer) : ExecutionStep :=
  callStep 1 ⟨"read_customer", .dict [("customer_id", .str customer.customerId)],
    "Need customer details to investigate duplicate payment", []⟩
    (some (ReadCustomerTool.modelDump renderTime customer))

variable (renderTime accounts) in
def paymentsRead (customer : Customer) (rows : List Payment) : ExecutionStep :=
  callStep 2 ⟨"get_payments", .dict [("customer_id", .str customer.customerId)],
    "Need payment history to find the duplicate charge", []⟩
    (some (GetPaymentsTool.modelDump renderTime accounts customer rows))

/-- Once the customer and the payments have been read, the duplicate that is found is refunded. -/
theorem refundDuplicateWorkflow_found {executionId : Id} {rows : List Payment} {duplicate : Value}
    (hfound : DeterministicPlanner.findDuplicatePayment text (.list (rows.map (paymentSummary renderTime accounts))) =
      .ok (some duplicate)) :
    DeterministicPlanner.refundDuplicateWorkflow text executionId customer.customerId
      [customerRead renderTime customer, paymentsRead renderTime accounts customer rows] =
      (DeterministicPlanner.refundAction text executionId duplicate).map .toolAction := by
  have hcustomer : (completedStep [customerRead renderTime customer, paymentsRead renderTime accounts customer rows]
      "read_customer").isNone = false := rfl
  have hpayments : completedStep [customerRead renderTime customer, paymentsRead renderTime accounts customer rows]
      "get_payments" = some (paymentsRead renderTime accounts customer rows) := rfl
  have hattempted : (attempted [customerRead renderTime customer, paymentsRead renderTime accounts customer rows]
      "refund_payment").isSome = false := rfl
  have hresult : toolResult (paymentsRead renderTime accounts customer rows) =
      GetPaymentsTool.modelDump renderTime accounts customer rows := rfl
  rw [DeterministicPlanner.refundDuplicateWorkflow, hcustomer, hpayments]
  simp only [hattempted, hresult, payments_entry, bind, Except.bind, pure, Except.pure, Option.getD_some, hfound,
    Bool.false_eq_true, if_false]
  cases DeterministicPlanner.refundAction text executionId duplicate <;> rfl

include hcents in
/-- An execution can refund the duplicate it finds. -/
theorem executes_refund (hs : s.PaymentsKeyed) (hcustomer : accounts.named customer.customerId = some customer)
    {rows : List Payment} (hselects : accounts.Selects customer s rows) {p : Payment}
    (hfound : DeterministicPlanner.findDuplicatePayment text (.list (rows.map (paymentSummary renderTime accounts))) =
      .ok (some (paymentSummary renderTime accounts p))) (hp : p ∈ s.payments) (hstatus : p.status ≠ .refunded)
    (hamount : 0 < p.amount) (executionId : Id)
    (hfresh : DeterministicPlanner.refundKey executionId ∉ s.refunds.map (·.idempotencyKey)) :
    Executes text amountOf renderTime accounts executionId customer s { s with
      payments := s.payments.map (Ledger.setRefunded p.id)
      refunds := s.refunds ++
        [⟨p.id, p.amount, "duplicate payment", DeterministicPlanner.refundKey executionId, s.now⟩] } := by
  have hread : Consult text amountOf renderTime accounts executionId customer.customerId
      ⟨[], s⟩ ⟨[customerRead renderTime customer], s⟩ :=
    .readCustomer (c := ⟨[], s⟩) rfl rfl rfl hcustomer
  have hpayments : Consult text amountOf renderTime accounts executionId customer.customerId
      ⟨[customerRead renderTime customer], s⟩
      ⟨[customerRead renderTime customer, paymentsRead renderTime accounts customer rows], s⟩ :=
    .getPayments (c := ⟨[customerRead renderTime customer], s⟩) rfl rfl rfl hcustomer hselects
  have hrefund : Consult text amountOf renderTime accounts executionId customer.customerId
      ⟨[customerRead renderTime customer, paymentsRead renderTime accounts customer rows], s⟩ _ :=
    .refund (refundDuplicateWorkflow_found hfound) rfl
  rw [executeRefund_fresh hcents hs hp hstatus hamount hfresh] at hrefund
  exact ⟨_, .tail (.tail (.single hread) hpayments) hrefund⟩

include hcents in
theorem findDuplicatePayment_pair {p q duplicate : Payment} (hamount : p.amount = q.amount)
    (hfound : [p, q].find? (fun p => p.status = .succeeded) = some duplicate) :
    DeterministicPlanner.findDuplicatePayment text (.list ([p, q].map (paymentSummary renderTime accounts))) =
      .ok (some (paymentSummary renderTime accounts duplicate)) := by
  have hsucceeded : DeterministicPlanner.succeeded ∘ paymentSummary renderTime accounts =
      fun p => decide (p.status = .succeeded) := by
    funext p
    rw [Bool.eq_iff_iff, decide_eq_true_iff]
    exact succeeded_summary p
  have hdecimal : text.decimal (text.str (.str (Decimal.ofCents q.amount).text)) = _ := hcents.decimal q.amount
  have hgroups : DeterministicPlanner.groupByAmount text [] ([p, q].map (paymentSummary renderTime accounts)) =
      .ok [(amountKey text q, [p, q].map (paymentSummary renderTime accounts))] := by
    simp only [List.map, DeterministicPlanner.groupByAmount, amount_entry, bind, Except.bind, Option.getD_some, hamount,
      hdecimal, appendTo, amountKey, if_true, List.singleton_append]
  rw [DeterministicPlanner.findDuplicatePayment, itemsOf]
  simp only [bind, Except.bind, pure, Except.pure, hgroups]
  rw [List.filter_cons_of_pos (by simp), List.filter_nil, List.findSome?_singleton, List.find?_map, hsucceeded, hfound]
  rfl
end Completion

section Twice

def centsOf (s : String) : Nat := Nat.ofDigitChars 10 (s.toList.filter Char.isDigit) 0

theorem centsOf_text (n : Nat) : centsOf (Decimal.ofCents n).text = n := by
  have hdigits (m : Nat) : (toString m).toList.filter Char.isDigit = Nat.toDigits 10 m := by
    rw [Nat.toString_eq_repr, Nat.toList_repr]
    exact List.filter_eq_self.2 fun c hc => Nat.isDigit_of_mem_toDigits (by decide) (by decide) hc
  have hdot : ".".toList.filter Char.isDigit = [] := by decide
  have hdigit (m : Nat) (hm : m < 10) (k : Nat) : Nat.ofDigitChars 10 (Nat.toDigits 10 m) k = 10 * k + m := by
    rw [Nat.toDigits_of_lt_base hm, Nat.ofDigitChars_cons_digitChar_of_lt_ten hm, Nat.ofDigitChars_nil]
  rw [centsOf, Decimal.ofCents]
  simp only [String.toList_append, List.filter_append, hdigits, hdot, List.append_nil]
  rw [Nat.ofDigitChars_append, Nat.ofDigitChars_append, Nat.ofDigitChars_ten_toDigits,
    hdigit _ (by omega), hdigit _ (by omega)]
  omega

/-- Python's decimals, as far as amounts of whole cents go. -/
def centsText : Text where
  lower s := s
  upper s := s
  render _ := ""
  decimal s := if (Decimal.ofCents (centsOf s)).text = s then some (.finite (.ofCents (centsOf s))) else none
  decimalText
    | .finite d => (Decimal.ofCents d.coefficient).text
    | .infinity _ => "Infinity"
    | .nan text => text

def centsAmount : Value → Option Decimal
  | .str s => if (Decimal.ofCents (centsOf s)).text = s then some (Decimal.ofCents (centsOf s)) else none
  | _ => none

theorem readsCents : ReadsCents centsText centsAmount where
  decimal n := by simp only [centsText, centsOf_text, if_true]
  decimalText m n h := by
    have htexts : (Decimal.ofCents m).text = (Decimal.ofCents n).text := h
    rw [← centsOf_text m, htexts, centsOf_text]
  amount n := ⟨Decimal.ofCents n, by rw [centsAmount, centsOf_text, if_pos rfl], rfl⟩

def oneCustomer : Customer := ⟨0, "CUST-1001", "Ada", "ada@example.com", 0⟩
def oneAccount : Accounts := ⟨[oneCustomer], fun _ => 0, fun id => id⟩

/-- Two payments of one amount. -/
def chargedTwice (first second : PaymentStatus) (refunds : List Refund) : Ledger :=
  ⟨0, [⟨1, "PAY-1", 5000, first⟩, ⟨2, "PAY-2", 5000, second⟩], refunds⟩

def duplicateRefund (executionId paymentId : Id) : Refund :=
  ⟨paymentId, 5000, "duplicate payment", DeterministicPlanner.refundKey executionId, 0⟩

theorem chargedTwice_keyed (first second : PaymentStatus) (refunds : List Refund) :
    (chargedTwice first second refunds).PaymentsKeyed where
  ids := by simp [chargedTwice]
  names := by simp [chargedTwice]

theorem chargedTwice_selects (first second : PaymentStatus) (refunds : List Refund) :
    oneAccount.Selects oneCustomer (chargedTwice first second refunds) (chargedTwice first second refunds).payments where
  perm := by simp [Accounts.paymentsOf, oneAccount, oneCustomer, chargedTwice]
  ordered := by simp [oneAccount, chargedTwice]

/-- The next of the two payments is refunded. -/
theorem chargedTwice_refunds {first second : PaymentStatus} {refunds : List Refund} {p : Payment}
    (hfound : (chargedTwice first second refunds).payments.find? (fun p => p.status = .succeeded) = some p)
    (executionId : Id) (hfresh : DeterministicPlanner.refundKey executionId ∉ refunds.map (·.idempotencyKey)) :
    Executes centsText centsAmount (fun _ => "") oneAccount executionId oneCustomer
      (chargedTwice first second refunds)
      ⟨0, (chargedTwice first second refunds).payments.map (Ledger.setRefunded p.id),
        refunds ++ [⟨p.id, p.amount, "duplicate payment", DeterministicPlanner.refundKey executionId, 0⟩]⟩ := by
  have hmem : p ∈ (chargedTwice first second refunds).payments := List.mem_of_find?_eq_some hfound
  have hamount : p.amount = 5000 := by
    rcases List.mem_pair.1 hmem with rfl | rfl <;> rfl
  have hstatus : p.status = .succeeded := by simpa using List.find?_some hfound
  exact executes_refund readsCents (chargedTwice_keyed _ _ _) rfl (chargedTwice_selects _ _ _)
    (findDuplicatePayment_pair readsCents rfl hfound) hmem (by rw [hstatus]; decide) (by omega) executionId hfresh

theorem refunds_first : Executes centsText centsAmount (fun _ => "") oneAccount 1 oneCustomer
    (chargedTwice .succeeded .succeeded []) (chargedTwice .refunded .succeeded [duplicateRefund 1 1]) :=
  chargedTwice_refunds (p := ⟨1, "PAY-1", 5000, .succeeded⟩) rfl 1 (List.not_mem_nil)

theorem refunds_second : Executes centsText centsAmount (fun _ => "") oneAccount 2 oneCustomer
    (chargedTwice .refunded .succeeded [duplicateRefund 1 1])
    (chargedTwice .refunded .refunded [duplicateRefund 1 1, duplicateRefund 2 2]) :=
  chargedTwice_refunds (p := ⟨2, "PAY-2", 5000, .succeeded⟩) rfl 2 (by decide +kernel)

def refundedLedger : Ledger := chargedTwice .refunded .refunded [duplicateRefund 1 1, duplicateRefund 2 2]

def refundedTwiceTrace : List (Ledger × Ledger) :=
  [(chargedTwice .refunded .succeeded [duplicateRefund 1 1], refundedLedger),
    (chargedTwice .succeeded .succeeded [], chargedTwice .refunded .succeeded [duplicateRefund 1 1])]

theorem refundedTwice : Successive centsText centsAmount (fun _ => "") oneAccount oneCustomer
    (chargedTwice .succeeded .succeeded []) refundedTwiceTrace refundedLedger :=
  .cons (.cons .nil refunds_first) refunds_second

end Twice

variable {text : Text} {amountOf : Value → Option Decimal} {renderTime : Time → String} {accounts : Accounts}
  {customer : Customer} {s s' : Ledger} {trace : List (Ledger × Ledger)}

/-- Each execution refunds nothing or one succeeded payment in full that shares its amount with another one.
A group keeps a payment that is not refunded as long as every refund in it leaves one, and the only payment
of an amount is never refunded. -/
theorem successive_refunds (hcents : ReadsCents text amountOf) (hs : s.PaymentsKeyed)
    (hcustomer : accounts.named customer.customerId = some customer)
    (h : Successive text amountOf renderTime accounts customer s trace s') :
    (∀ run ∈ trace, run.2 = run.1 ∨ ∃ p, RefundsDuplicate accounts customer run.1 run.2 p) ∧
    (∀ amount, (∃ p ∈ accounts.paymentsOf customer s, p.amount = amount ∧ p.status ≠ .refunded) →
      (∀ run ∈ trace, ∀ p, RefundsDuplicate accounts customer run.1 run.2 p → p.amount = amount →
        Leaves accounts customer amount run.1 p) →
      ∃ p ∈ accounts.paymentsOf customer s', p.amount = amount ∧ p.status ≠ .refunded) ∧
    ∀ p, Single accounts customer s p → p ∈ accounts.paymentsOf customer s' :=
  ⟨h.duplicates hcents hs hcustomer, fun _ hstart hleaves => h.leaves hcents hs hcustomer hstart hleaves,
    fun _ hp => (h.single hcents hs hcustomer hp).1⟩

theorem successive_refunds_twice :
    Successive centsText centsAmount (fun _ => "") oneAccount oneCustomer (chargedTwice .succeeded .succeeded [])
      refundedTwiceTrace refundedLedger ∧
    ((∀ run ∈ refundedTwiceTrace, run.2 = run.1 ∨ ∃ p, RefundsDuplicate oneAccount oneCustomer run.1 run.2 p) ∧
    (∀ amount, (∃ p ∈ oneAccount.paymentsOf oneCustomer (chargedTwice .succeeded .succeeded []),
        p.amount = amount ∧ p.status ≠ .refunded) →
      (∀ run ∈ refundedTwiceTrace, ∀ p, RefundsDuplicate oneAccount oneCustomer run.1 run.2 p → p.amount = amount →
        Leaves oneAccount oneCustomer amount run.1 p) →
      ∃ p ∈ oneAccount.paymentsOf oneCustomer refundedLedger, p.amount = amount ∧ p.status ≠ .refunded) ∧
    ∀ p, Single oneAccount oneCustomer (chargedTwice .succeeded .succeeded []) p →
      p ∈ oneAccount.paymentsOf oneCustomer refundedLedger) :=
  ⟨refundedTwice, successive_refunds readsCents (chargedTwice_keyed _ _ _) rfl refundedTwice⟩

/-- The second execution refunds the payment that the first one has left. -/
theorem whole_charge_refunded : ¬ ∀ (text : Text) (amountOf : Value → Option Decimal) (renderTime : Time → String)
    (accounts : Accounts) (customer : Customer) (s : Ledger) (trace : List (Ledger × Ledger)) (s' : Ledger),
    ReadsCents text amountOf → s.PaymentsKeyed → accounts.named customer.customerId = some customer →
    (∀ p ∈ accounts.paymentsOf customer s,
      ∃ q ∈ accounts.paymentsOf customer s, q.amount = p.amount ∧ q.status ≠ .refunded) →
    Successive text amountOf renderTime accounts customer s trace s' →
    (∀ run ∈ trace, ∀ p, RefundsDuplicate accounts customer run.1 run.2 p →
      Leaves accounts customer p.amount run.1 p) ∧
    ∀ p ∈ accounts.paymentsOf customer s',
      ∃ q ∈ accounts.paymentsOf customer s', q.amount = p.amount ∧ q.status ≠ .refunded := by
  intro h
  have hunrefunded : ∀ p ∈ oneAccount.paymentsOf oneCustomer (chargedTwice .succeeded .succeeded []),
      p.status ≠ .refunded := by
    intro p hp
    rcases List.mem_pair.1 hp with rfl | rfl <;> decide
  obtain ⟨-, hkept⟩ := h _ _ _ _ _ _ _ _ readsCents (chargedTwice_keyed _ _ _) rfl
    (fun p hp => ⟨p, hp, rfl, hunrefunded p hp⟩) refundedTwice
  obtain ⟨q, hq, -, hstatus⟩ := hkept ⟨1, "PAY-1", 5000, .refunded⟩ List.mem_cons_self
  rcases List.mem_pair.1 hq with rfl | rfl <;> exact hstatus rfl

end SafeOps
