import SafeOps.Concurrent.Isolation
import SafeOps.Guarantees.RefundLedger
import SafeOps.Tools.Devops

/-! What a successful refund or deployment rests on. A replay answers from the row under the key, so the
answer is as good as the request that filed the row. -/

namespace SafeOps
open Concurrent Program

@[simp] theorem Ledger.setRefunded_paymentId (id : Id) (p : Payment) :
    (setRefunded id p).paymentId = p.paymentId := by
  unfold setRefunded
  split <;> rfl

/-- The refund a statement has filed. -/
def filedRefund : Entry Ledger.statements → Option Refund
  | ⟨_, .commitRefund row, committed⟩ => if committed then some row else none
  | _ => none

/-- The payment a statement has found under a name. -/
def foundPayment : Entry Ledger.statements → Option (String × Payment)
  | ⟨_, .paymentNamed name, payment⟩ => (payment : Option Payment).map (name, ·)
  | _ => none

/-- The refund a statement has found under a key. -/
def foundRefund : Entry Ledger.statements → Option (String × Refund)
  | ⟨_, .refundWithKey key, refund⟩ => (refund : Option Refund).map (key, ·)
  | _ => none

namespace RefundPaymentTool

/-- What a call has read. -/
structure Seen where
  payment : Option (String × Payment) := none
  refund : Option (String × Refund) := none

/-- The row a call files is the one its input asks for, checked against the payment it has read. -/
def asking (input : RefundPaymentInput) : Monitor Ledger.statements Seen where
  next seen o := match o with
    | .paymentNamed name => fun (row : Option Payment) => { seen with payment := row.map (name, ·) }
    | .refundWithKey key => fun (row : Option Refund) => { seen with refund := row.map (key, ·) }
    | _ => fun _ => seen
  ok seen
    | .commitRefund row => row.idempotencyKey = input.idempotencyKey ∧ row.amount = input.amount.cents ∧
        ∃ p, seen.payment = some (input.paymentId, p) ∧ row.paymentId = p.id ∧ p.status ≠ .refunded ∧
          input.amount.value ≤ (Decimal.ofCents p.amount).value
    | _ => True

/-- A call succeeds on the refund under its key. -/
def Rests (input : RefundPaymentInput) (_ : RefundPaymentOutput) (seen : Seen) : Prop :=
  ∃ row, seen.refund = some (input.idempotencyKey, row)

theorem replay_asking (input : RefundPaymentInput) (refund : Refund) {seen : Seen}
    (h : seen.refund = some (input.idempotencyKey, refund)) :
    (replay refund).Obeys (asking input) (Rests input) (fun _ _ => True) seen :=
  .call_bind trivial fun _ => ⟨refund, h⟩

theorem refund_asking (input : RefundPaymentInput) (payment : Payment) {seen : Seen}
    (h : seen.payment = some (input.paymentId, payment)) (hopen : payment.status ≠ .refunded)
    (hamount : input.amount.value ≤ (Decimal.ofCents payment.amount).value) :
    (refund input payment).Obeys (asking input) (Rests input) (fun _ _ => True) seen := by
  refine .call_bind ⟨rfl, rfl, payment, h, rfl, hopen, hamount⟩ fun (committed : Bool) => ?_
  cases committed with
  | true =>
    refine .call_bind trivial fun (refund : Option Refund) => .call_bind trivial
      fun (payment : Option Payment) => ?_
    cases refund with
    | none => trivial
    | some refund =>
      cases payment with
      | none => trivial
      | some payment => exact ⟨refund, rfl⟩
  | false =>
    refine .call_bind trivial fun (existing : Option Refund) => ?_
    cases existing with
    | none => trivial
    | some existing => exact replay_asking input existing rfl

theorem run_asking (input : RefundPaymentInput) :
    (run input).Obeys (asking input) (Rests input) (fun _ _ => True) {} := by
  refine .call_bind trivial fun (existing : Option Refund) => ?_
  cases existing with
  | some existing => exact replay_asking input existing rfl
  | none =>
    refine .call_bind trivial fun (payment : Option Payment) => ?_
    cases payment with
    | none => trivial
    | some payment =>
      change (ite _ _ _ : LedgerM _).Obeys _ _ _ _
      split
      · trivial
      · split
        · trivial
        · exact refund_asking input payment rfl ‹_› (not_lt.1 ‹_›)

theorem seen_payment {input : RefundPaymentInput} {i : Nat} {h : List (Entry Ledger.statements)}
    {found : String × Payment} (hseen : ((asking input).after {} i h).payment = some found) :
    ∃ e ∈ h, e.thread = i ∧ foundPayment e = some found := by
  refine Monitor.after_recorded (f := Seen.payment) (fun seen e => ?_) rfl hseen
  obtain ⟨i, o, reply⟩ := e
  cases o <;> first | exact .inl rfl | exact .inr rfl

theorem seen_refund {input : RefundPaymentInput} {i : Nat} {h : List (Entry Ledger.statements)}
    {found : String × Refund} (hseen : ((asking input).after {} i h).refund = some found) :
    ∃ e ∈ h, e.thread = i ∧ foundRefund e = some found := by
  refine Monitor.after_recorded (f := Seen.refund) (fun seen e => ?_) rfl hseen
  obtain ⟨i, o, reply⟩ := e
  cases o <;> first | exact .inl rfl | exact .inr rfl

end RefundPaymentTool

namespace Ledger

/-- The primary key of the payments and the unique index on the refunds. -/
structure Keyed (s : Ledger) : Prop where
  ids : (s.payments.map (·.id)).Nodup
  keys : (s.refunds.map (·.idempotencyKey)).Nodup

/-- The payment with the key has the name. -/
def Named (s : Ledger) (id : Id) (paymentId : String) : Prop :=
  ∃ p ∈ s.payments, p.id = id ∧ p.paymentId = paymentId

/-- What an answer says of the tables. -/
structure Bears (e : Entry statements) (s : Ledger) : Prop where
  payment : ∀ found, foundPayment e = some found → s.Named found.2.id found.1
  refund : ∀ found, foundRefund e = some found → found.2 ∈ s.refunds ∧ found.2.idempotencyKey = found.1

theorem Named.unique {s : Ledger} (h : s.Keyed) {id : Id} {name name' : String} (hn : s.Named id name)
    (hn' : s.Named id name') : name = name' := by
  obtain ⟨p, hp, hid, rfl⟩ := hn
  obtain ⟨q, hq, hid', rfl⟩ := hn'
  rw [eq_of_id h.ids hp hq (hid.trans hid'.symm)]

theorem Keyed.exec {s : Ledger} (h : s.Keyed) (o : LedgerOp) : (exec o s).2.Keyed := by
  rcases exec_cases o s with heq | ⟨row, -, hfree, -, heq⟩
  · rwa [heq]
  · rw [heq]
    refine ⟨by simpa [Function.comp_def] using h.ids, ?_⟩
    simpa [List.nodup_append, h.keys] using hfree

theorem named_exec {s : Ledger} (o : LedgerOp) {id : Id} {name : String} :
    (exec o s).2.Named id name ↔ s.Named id name := by
  rcases exec_cases o s with heq | ⟨row, -, -, -, heq⟩
  · rw [heq]
  · rw [heq]
    simp [Named]

theorem refunds_exec {s : Ledger} (o : LedgerOp) : s.refunds ⊆ (exec o s).2.refunds := by
  rcases exec_cases o s with heq | ⟨row, -, -, -, heq⟩
  · rw [heq]
    exact List.Subset.refl _
  · rw [heq]
    exact List.subset_append_left _ _

theorem Bears.exec {e : Entry statements} {s : Ledger} (h : Bears e s) (o : LedgerOp) :
    Bears e (exec o s).2 where
  payment found hfound := (named_exec o).mpr (h.payment found hfound)
  refund found hfound := ⟨refunds_exec o (h.refund found hfound).1, (h.refund found hfound).2⟩

/-- Each answer is true of the tables it leaves. -/
theorem bears_exec (i : Nat) (o : LedgerOp) (s : Ledger) : Bears ⟨i, o, (exec o s).1⟩ (exec o s).2 := by
  refine ⟨fun found hfound => ?_, fun found hfound => ?_⟩
  · cases o with
    | paymentNamed name =>
      obtain ⟨p, hp, rfl⟩ := Option.map_eq_some_iff.mp hfound
      exact ⟨p, List.mem_of_find?_eq_some hp, rfl, by simpa using List.find?_some hp⟩
    | _ => cases hfound
  · cases o with
    | refundWithKey key =>
      obtain ⟨row, hrow, rfl⟩ := Option.map_eq_some_iff.mp hfound
      exact ⟨List.mem_of_find?_eq_some hrow, by simpa using List.find?_some hrow⟩
    | _ => cases hfound

/-- A refund that is new after a statement is the one that the statement has filed. -/
theorem filed_exec (i : Nat) (o : LedgerOp) (s : Ledger) : ∀ r ∈ (exec o s).2.refunds, r ∈ s.refunds ∨
    ∃ row, filedRefund ⟨i, o, (exec o s).1⟩ = some row ∧ ∃ time, r = { row with createdAt := time } := by
  intro r hr
  rcases exec_cases o s with heq | ⟨row, rfl, -, hreply, heq⟩
  · exact .inl (heq ▸ hr)
  · rw [heq] at hr
    rcases List.mem_append.mp hr with hr | hr
    · exact .inl hr
    · refine .inr ⟨row, ?_, s.now, List.mem_singleton.mp hr⟩
      simp [filedRefund, eq_of_heq hreply]

end Ledger

section Refunds

variable {s : Ledger} {c : Till}

theorem Ledger.Keyed.run (hs : s.Keyed) (h : Run refundPayments (Config.start s) c) : c.state.Keyed :=
  h.invariant (I := fun c => c.state.Keyed) hs (fun _ _ h => h) (fun _ _ h => ⟨h.ids, h.keys⟩)
    fun _ _ _ o _ _ _ _ h => h.exec o

theorem bears (h : Run refundPayments (Config.start s) c) : ∀ e ∈ c.history, Ledger.Bears e c.state :=
  h.witnessed (T := Ledger.Bears) (fun _ _ _ h => ⟨h.payment, h.refund⟩)
    (fun i o s => Ledger.bears_exec i o s) fun _ o _ h => h.exec o

theorem refund_origin (h : Run refundPayments (Config.start s) c) : ∀ r ∈ c.state.refunds, r ∈ s.refunds ∨
    ∃ e ∈ c.history, ∃ row, filedRefund e = some row ∧ ∃ time, r = { row with createdAt := time } :=
  h.provenance (R := Ledger.refunds)
    (F := fun e r => ∃ row, filedRefund e = some row ∧ ∃ time, r = { row with createdAt := time })
    (fun _ _ => List.Subset.refl _) fun i o s => Ledger.filed_exec i o s

/-- The refund is let through to its commit on these tables. -/
def Ledger.Payable (s : Ledger) (input : RefundPaymentInput) : Prop :=
  ∃ p, s.payments.find? (·.paymentId = input.paymentId) = some p ∧ p.status ≠ .refunded ∧
    input.amount.value ≤ (Decimal.ofCents p.amount).value

/-- A payment that is open after a statement was so before it. -/
theorem Ledger.open_exec {s : Ledger} (o : LedgerOp) {name : String} {p : Payment}
    (h : (Ledger.exec o s).2.payments.find? (·.paymentId = name) = some p) (hopen : p.status ≠ .refunded) :
    s.payments.find? (·.paymentId = name) = some p := by
  rcases Ledger.exec_cases o s with heq | ⟨row, -, -, -, heq⟩
  · rwa [heq] at h
  · rw [heq, List.find?_map] at h
    obtain ⟨q, hq, rfl⟩ := Option.map_eq_some_iff.1 h
    have hother : Ledger.setRefunded row.paymentId q = q := by
      unfold Ledger.setRefunded at hopen ⊢
      split
      · rename_i hid
        exact absurd rfl (if_pos hid ▸ hopen)
      · rfl
    rw [hother]
    simpa [Function.comp_def] using hq

theorem open_run (h : Run refundPayments (Config.start s) c) {name : String} {p : Payment}
    (hfound : c.state.payments.find? (·.paymentId = name) = some p) (hopen : p.status ≠ .refunded) :
    s.payments.find? (·.paymentId = name) = some p := by
  refine h.invariant (I := fun c : Till => c.state.payments.find? (·.paymentId = name) = some p →
    s.payments.find? (·.paymentId = name) = some p) id (fun _ _ h => h) (fun _ _ h => h) ?_ hfound
  exact fun _ _ _ o _ _ _ _ h hfound => h (Ledger.open_exec o hfound hopen)

/-- An open payment that some call has found was there from the start. -/
theorem open_run_found (h : Run refundPayments (Config.start s) c) {e : Entry Ledger.statements}
    (he : e ∈ c.history) {found : String × Payment} (hfound : foundPayment e = some found)
    (hopen : found.2.status ≠ .refunded) : s.payments.find? (·.paymentId = found.1) = some found.2 := by
  obtain ⟨b, -, -, hb, -, -, -, hreply⟩ := h.answered e he
  obtain ⟨i, o, reply⟩ := e
  cases o with
  | paymentNamed name =>
    obtain ⟨p, hp, rfl⟩ := Option.map_eq_some_iff.1 hfound
    exact open_run hb (hreply.symm.trans hp) hopen
  | _ => cases hfound

/-- The row a call has filed is the one its input asks for, and the call could be made from the start. -/
theorem filed_asked (h : Run refundPayments (Config.start s) c) {e : Entry Ledger.statements}
    (he : e ∈ c.history) {row : Refund} (hrow : filedRefund e = some row) :
    ∃ t, c.threads[e.thread]? = some t ∧ row.idempotencyKey = t.call.idempotencyKey ∧
      row.amount = t.call.amount.cents ∧ c.state.Named row.paymentId t.call.paymentId ∧ s.Payable t.call := by
  obtain ⟨later, earlier, hist⟩ := List.append_of_mem he
  obtain ⟨t, ht, hok⟩ := h.lawfulBy RefundPaymentTool.run_asking hist
  obtain ⟨i, o, reply⟩ := e
  cases o with
  | commitRefund filed =>
    simp only [filedRefund] at hrow
    split at hrow
    · cases hrow
      obtain ⟨hkey, hamount, p, hp, hid, hopen, hcovered⟩ := hok
      obtain ⟨e', he', -, hfound⟩ := RefundPaymentTool.seen_payment hp
      have hmem : e' ∈ c.history := by simp [hist, he']
      have hnamed := (bears h e' hmem).payment _ hfound
      exact ⟨t, ht, hkey, hamount, hid ▸ hnamed, p, open_run_found h hmem hfound hopen, hopen, hcovered⟩
    · cases hrow
  | _ => cases hrow

/-- A refund with the key of the request, for its payment and amount. -/
def Ledger.Backs (s : Ledger) (input : RefundPaymentInput) : Prop :=
  ∃ r ∈ s.refunds, r.idempotencyKey = input.idempotencyKey ∧ s.Named r.paymentId input.paymentId ∧
    (Decimal.ofCents r.amount).value = input.amount.value

instance (s : Ledger) (id : Id) (paymentId : String) : Decidable (s.Named id paymentId) :=
  inferInstanceAs (Decidable (∃ p ∈ s.payments, _))

instance (s : Ledger) (input : RefundPaymentInput) : Decidable (s.Backs input) :=
  inferInstanceAs (Decidable (∃ r ∈ s.refunds, _))

/-- The key of the request stands for its payment and amount: in the refund filed under it, or else in every call
that may file one. -/
structure Ledger.Dedicated (s : Ledger) (calls : RefundPaymentInput → Prop) (input : RefundPaymentInput) : Prop where
  row : ∀ r ∈ s.refunds, r.idempotencyKey = input.idempotencyKey →
    s.Named r.paymentId input.paymentId ∧ r.amount = input.amount.cents
  calls : (∀ r ∈ s.refunds, r.idempotencyKey ≠ input.idempotencyKey) → ∀ other, calls other →
    other.idempotencyKey = input.idempotencyKey → s.Payable other →
      other.paymentId = input.paymentId ∧ other.amount.cents = input.amount.cents

/-- The amount has at most two decimals. -/
def RefundPaymentInput.InCents (input : RefundPaymentInput) : Prop :=
  ∃ n : Nat, input.amount.value = (Decimal.ofCents n).value

/-- Every refund that has succeeded is backed by one for its payment and amount. -/
def RefundsBacked (c : Till) : Prop :=
  ∀ i input output, c.Returned i input output → input.InCents → c.state.Backs input

theorem named_run (h : Run refundPayments (Config.start s) c) {id : Id} {name : String} :
    c.state.Named id name ↔ s.Named id name := by
  refine h.invariant (I := fun c : Till => c.state.Named id name ↔ s.Named id name) .rfl
    (fun _ _ h => h) (fun _ _ h => h) fun d i call o k _ _ _ h => ?_
  exact (Ledger.named_exec o).trans h

theorem refunds_run (h : Run refundPayments (Config.start s) c) : s.refunds ⊆ c.state.refunds :=
  h.invariant (I := fun c => s.refunds ⊆ c.state.refunds) (List.Subset.refl _) (fun _ _ h => h) (fun _ _ h => h)
    fun _ _ _ o _ _ _ _ h => List.Subset.trans h (Ledger.refunds_exec o)

/-- A call that has succeeded has found a refund under its key. -/
theorem refund_found (h : Run refundPayments (Config.start s) c) {i : Nat} {input : RefundPaymentInput}
    {output : RefundPaymentOutput} (hr : c.Returned i input output) :
    ∃ r ∈ c.state.refunds, r.idempotencyKey = input.idempotencyKey := by
  have hm := h.monitoredBy (Config.monitoredBy_start s) RefundPaymentTool.run_asking
  obtain ⟨r, hseen⟩ : RefundPaymentTool.Rests input output _ := hm.2 i _ hr
  obtain ⟨e, he, -, hfound⟩ := RefundPaymentTool.seen_refund hseen
  exact ⟨r, (bears h e he).refund _ hfound⟩

theorem Decimal.ofCents_value_inj {m n : Nat} : (ofCents m).value = (ofCents n).value ↔ m = n := by
  simp [ofCents]

/-- Where the key of a refund that has succeeded stands for its payment and amount, they have been refunded. -/
theorem refund_backed (hs : s.Keyed) (h : Run refundPayments (Config.start s) c) {calls : RefundPaymentInput → Prop}
    (hcalls : ∀ t ∈ c.threads, calls t.call) {i : Nat} {input : RefundPaymentInput} {output : RefundPaymentOutput}
    (hr : c.Returned i input output) (hcents : input.InCents) (hd : s.Dedicated calls input) :
    c.state.Backs input := by
  obtain ⟨n, hn⟩ := hcents
  have hcents := Decimal.cents_ofCents hn
  obtain ⟨r, hmem, hkey⟩ := refund_found h hr
  refine ⟨r, hmem, hkey, ?_⟩
  rw [hn, Decimal.ofCents_value_inj]
  by_cases hstart : r ∈ s.refunds
  · obtain ⟨hnamed, hamount⟩ := hd.row r hstart hkey
    exact ⟨(named_run h).mpr hnamed, hamount.trans hcents⟩
  · obtain ⟨e, he, row, hrow, time, rfl⟩ := (refund_origin h r hmem).resolve_left hstart
    obtain ⟨t, ht, hkey', hamount, hnamed, hpayable⟩ := filed_asked h he hrow
    have hfree : ∀ r ∈ s.refunds, r.idempotencyKey ≠ input.idempotencyKey := by
      intro r hr hkeyr
      have hsame := List.inj_on_of_nodup_map (hs.run h).keys (refunds_run h hr) hmem (hkeyr.trans hkey.symm)
      exact hstart (hsame ▸ hr)
    obtain ⟨hpayment, hcents'⟩ :=
      hd.calls hfree t.call (hcalls t (List.mem_of_getElem? ht)) (hkey'.symm.trans hkey) hpayable
    exact ⟨hpayment ▸ hnamed, (hamount.trans hcents').trans hcents⟩

/-- A key that has been used finds its one refund. -/
theorem Ledger.Keyed.find (hs : s.Keyed) {r : Refund} (hr : r ∈ s.refunds) {key : String}
    (hkey : r.idempotencyKey = key) : s.refunds.find? (·.idempotencyKey = key) = some r := by
  cases hfind : s.refunds.find? (·.idempotencyKey = key) with
  | none => exact absurd hkey (by simpa using List.find?_eq_none.1 hfind r hr)
  | some r' =>
    have hkey' : r'.idempotencyKey = key := by simpa using List.find?_some hfind
    rw [List.inj_on_of_nodup_map hs.keys (List.mem_of_find?_eq_some hfind) hr (hkey'.trans hkey.symm)]

theorem RefundPaymentTool.statement_ends {α : Type} {o : LedgerOp} {f : o.Reply → LedgerM α} {reply : o.Reply}
    {s' : Ledger} {Q : α → Ledger → Prop} (ho : Ledger.exec o s = (reply, s'))
    (h : (f reply).Ends Ledger.exec s' Q) : ((statement o).bind f).Ends Ledger.exec s Q :=
  .answered ho h

/-- A call by itself whose key has been used replays. -/
theorem RefundPaymentTool.replay_ends {input : RefundPaymentInput} {r : Refund}
    (h : s.refunds.find? (·.idempotencyKey = input.idempotencyKey) = some r) :
    (run input).Ends Ledger.exec s fun _ s' => s' = s := by
  exact statement_ends (o := .refundWithKey input.idempotencyKey) (Prod.ext h rfl) <| .call_bind <| .ret rfl

/-- A call by itself whose key is free, and which is payable, files its refund. -/
theorem RefundPaymentTool.refund_ends {input : RefundPaymentInput}
    (hfree : ∀ r ∈ s.refunds, r.idempotencyKey ≠ input.idempotencyKey) (hpayable : s.Payable input) :
    (run input).Ends Ledger.exec s fun _ s' => ∃ r, s'.refunds = s.refunds ++ [r] ∧
      r.idempotencyKey = input.idempotencyKey ∧ r.amount = input.amount.cents ∧
      s.Named r.paymentId input.paymentId ∧ ∀ id name, s'.Named id name ↔ s.Named id name := by
  obtain ⟨p, hp, hopen, hamount⟩ := hpayable
  have hmem := List.mem_of_find?_eq_some hp
  have hname : p.paymentId = input.paymentId := by simpa using List.find?_some hp
  have hnone : s.refunds.find? (·.idempotencyKey = input.idempotencyKey) = none :=
    List.find?_eq_none.2 fun r hr => by simpa using hfree r hr
  let row : Refund := ⟨p.id, input.amount.cents, input.reason, input.idempotencyKey, 0⟩
  let s₁ : Ledger := { s with
    payments := s.payments.map (Ledger.setRefunded p.id)
    refunds := s.refunds ++ [{ row with createdAt := s.now }] }
  have commits : Ledger.exec (.commitRefund row) s = (true, s₁) := by
    refine if_neg (not_or.2 ⟨fun hkey => ?_, fun hid => hid (List.mem_map_of_mem hmem)⟩)
    obtain ⟨r, hr, hkeyr⟩ := List.mem_map.1 hkey
    exact hfree r hr hkeyr
  have filed : s₁.refunds.find? (·.idempotencyKey = input.idempotencyKey) = some { row with createdAt := s.now } := by
    simp [s₁, row, List.find?_append, hnone]
  obtain ⟨p', hp'⟩ : ∃ p', s₁.payments.find? (·.id = p.id) = some p' := by
    rw [← Option.isSome_iff_exists, List.find?_isSome]
    exact ⟨_, List.mem_map_of_mem hmem, by simp⟩
  refine statement_ends (o := .refundWithKey input.idempotencyKey) (Prod.ext hnone rfl) <|
    statement_ends (o := .paymentNamed input.paymentId) (Prod.ext hp rfl) ?_
  dsimp only
  rw [if_neg hopen, if_neg (not_lt.2 hamount)]
  refine statement_ends (o := .commitRefund row) commits <|
    statement_ends (o := .refundWithKey input.idempotencyKey) (Prod.ext filed rfl) <|
    statement_ends (o := .getPayment p.id) (Prod.ext hp' rfl) <| .ret ⟨_, rfl, rfl, rfl, ⟨p, hmem, rfl, hname⟩, ?_⟩
  intro id name
  have hsame : (Ledger.exec (.commitRefund row) s).2.Named id name ↔ s.Named id name := Ledger.named_exec _
  rwa [commits] at hsame

/-- A backed refund is backed by the refund under its key. -/
theorem Ledger.Backs.row {input : RefundPaymentInput} (hs : s.Keyed) (h : s.Backs input) (hcents : input.InCents)
    {r : Refund} (hr : r ∈ s.refunds) (hkey : r.idempotencyKey = input.idempotencyKey) :
    s.Named r.paymentId input.paymentId ∧ r.amount = input.amount.cents := by
  obtain ⟨n, hn⟩ := hcents
  obtain ⟨r', hr', hkey', hnamed, hamount⟩ := h
  obtain rfl := List.inj_on_of_nodup_map hs.keys hr' hr (hkey'.trans hkey.symm)
  rw [hn, Decimal.ofCents_value_inj] at hamount
  exact ⟨hnamed, hamount.trans (Decimal.cents_ofCents hn).symm⟩

/-- Where every run backs its refunds, the keys stand for their payments and amounts: otherwise the call made after
the one that uses its key, each by itself, succeeds on a refund that it did not ask for. -/
theorem dedicated_of_backed (hs : s.Keyed) {calls : RefundPaymentInput → Prop}
    (hall : ∀ c, Run refundPayments (Config.start s) c → (∀ t ∈ c.threads, calls t.call) → RefundsBacked c)
    {input : RefundPaymentInput} (hinput : calls input) (hcents : input.InCents) : s.Dedicated calls input where
  row r hr hkey := by
    have replays := RefundPaymentTool.replay_ends (hs.find hr hkey)
    obtain ⟨_, d, hrun, hstate⟩ := replays.uninterrupted refundPayments (Config.start s)
    have hbacks := hall d hrun.run (hrun.within (by simp [Config.start]) hinput) _ _ _ hrun.returned hcents
    rw [hstate] at hbacks
    exact hbacks.row hs hcents hr hkey
  calls hfree other hother hkey hpayable := by
    have files := RefundPaymentTool.refund_ends (hkey ▸ hfree) hpayable
    obtain ⟨_, d₁, hrun₁, r, hrefunds, hkeyr, hamount, hnamed, hsame⟩ :=
      files.uninterrupted refundPayments (Config.start s)
    have hkeyed : d₁.state.Keyed := hs.run hrun₁.run
    have hr : r ∈ d₁.state.refunds := by simp [hrefunds]
    have replays := RefundPaymentTool.replay_ends (hkeyed.find hr (hkeyr.trans hkey))
    obtain ⟨_, d, hrun, hstate⟩ := replays.uninterrupted refundPayments d₁
    have hbacks := hall d (hrun₁.run.trans hrun.run) (hrun.within (hrun₁.within (by simp [Config.start]) hother) hinput)
      _ _ _ hrun.returned hcents
    rw [hstate] at hbacks
    obtain ⟨hnamed', hamount'⟩ := hbacks.row hkeyed hcents hr (hkeyr.trans hkey)
    exact ⟨hnamed.unique hs ((hsame _ _).1 hnamed'), hamount.symm.trans hamount'⟩

end Refunds

/-- A configuration of builds being deployed. -/
abbrev Rollout := Config Releases.statements ToolFailure DeployOutput Releases DeployCall

/-- The deployment a statement has filed. -/
def filedDeployment : Entry Releases.statements → Option Deployment
  | ⟨_, .commitDeployment row, id⟩ => (id : Option Id).map fun id => { row with id }
  | _ => none

/-- The service a statement has found under a name. -/
def foundService : Entry Releases.statements → Option (String × Service)
  | ⟨_, .serviceNamed name, service⟩ => (service : Option Service).map (name, ·)
  | _ => none

/-- The deployment a statement has found under an idempotency key. -/
def replayedDeployment : Entry Releases.statements → Option (String × Deployment)
  | ⟨_, .deploymentWithKey key, row⟩ => (row : Option Deployment).map (key, ·)
  | _ => none

/-- The deployment a statement has found under its primary key. -/
def loadedDeployment : Entry Releases.statements → Option (Id × Deployment)
  | ⟨_, .getDeployment id, row⟩ => (row : Option Deployment).map (id, ·)
  | _ => none

namespace DeployTool

/-- What a call has read, and what it has filed. -/
structure Seen where
  service : Option (String × Service) := none
  replayed : Option (String × Deployment) := none
  loaded : Option (Id × Deployment) := none
  filed : Option Deployment := none

/-- The row that a call files is the one its input asks for. -/
def asking (call : DeployCall) : Monitor Releases.statements Seen where
  next seen o := match o with
    | .serviceNamed name => fun (row : Option Service) => { seen with service := row.map (name, ·) }
    | .deploymentWithKey key => fun (row : Option Deployment) => { seen with replayed := row.map (key, ·) }
    | .getDeployment id => fun (row : Option Deployment) => { seen with loaded := row.map (id, ·) }
    | .commitDeployment row => fun (id : Option Id) => { seen with filed := id.map fun id => { row with id } }
  ok seen
    | .commitDeployment row => row.idempotencyKey = call.input.idempotencyKey ∧
        row.environment = call.environment ∧ row.version = call.input.version ∧
        ∃ service, seen.service = some (call.input.serviceName, service) ∧ row.serviceId = service.id
    | _ => True

/-- A call succeeds on the deployment under its key, or on the one it has filed itself. -/
def Rests (call : DeployCall) (output : DeployOutput) (seen : Seen) : Prop :=
  ∃ service row, seen.service = some (call.input.serviceName, service) ∧ output = outputFor service row ∧
    ((∃ key, call.input.idempotencyKey = some key ∧ seen.replayed = some (key, row)) ∨
      ∃ filed, seen.filed = some filed ∧ seen.loaded = some (filed.id, row))

theorem create_asking (call : DeployCall) {service : Service} {seen : Seen}
    (h : seen.service = some (call.input.serviceName, service)) :
    (create call.input service call.environment).Obeys (asking call) (Rests call) (fun _ _ => True) seen := by
  refine .call_bind ⟨rfl, rfl, rfl, service, h, rfl⟩ fun (id : Option Id) => ?_
  cases id with
  | some id =>
    refine .call_bind trivial fun (row : Option Deployment) => ?_
    cases row with
    | none => trivial
    | some row => exact ⟨service, row, h, rfl, .inr ⟨_, rfl, rfl⟩⟩
  | none =>
    cases hkey : call.input.idempotencyKey with
    | none => trivial
    | some key =>
      refine .call_bind trivial fun (row : Option Deployment) => ?_
      cases row with
      | none => trivial
      | some row => exact ⟨service, row, h, rfl, .inl ⟨key, hkey, rfl⟩⟩

theorem deploy_asking (call : DeployCall) :
    (deploy call.input call.environment).Obeys (asking call) (Rests call) (fun _ _ => True) {} := by
  refine (obeys_bind _ _).mpr (.call_bind trivial fun (service : Option Service) => ?_)
  cases service with
  | none => trivial
  | some service =>
    cases hkey : call.input.idempotencyKey with
    | none => exact create_asking call rfl
    | some key =>
      refine .call_bind trivial fun (row : Option Deployment) => ?_
      cases row with
      | none => exact create_asking call rfl
      | some row => exact ⟨service, row, rfl, rfl, .inl ⟨key, hkey, rfl⟩⟩

section Seen

variable {call : DeployCall} {i : Nat} {h : List (Entry Releases.statements)}

theorem seen_service {found : String × Service} (hseen : ((asking call).after {} i h).service = some found) :
    ∃ e ∈ h, e.thread = i ∧ foundService e = some found := by
  refine Monitor.after_recorded (f := Seen.service) (fun seen e => ?_) rfl hseen
  obtain ⟨i, o, reply⟩ := e
  cases o <;> first | exact .inl rfl | exact .inr rfl

theorem seen_replayed {found : String × Deployment}
    (hseen : ((asking call).after {} i h).replayed = some found) :
    ∃ e ∈ h, e.thread = i ∧ replayedDeployment e = some found := by
  refine Monitor.after_recorded (f := Seen.replayed) (fun seen e => ?_) rfl hseen
  obtain ⟨i, o, reply⟩ := e
  cases o <;> first | exact .inl rfl | exact .inr rfl

theorem seen_loaded {found : Id × Deployment} (hseen : ((asking call).after {} i h).loaded = some found) :
    ∃ e ∈ h, e.thread = i ∧ loadedDeployment e = some found := by
  refine Monitor.after_recorded (f := Seen.loaded) (fun seen e => ?_) rfl hseen
  obtain ⟨i, o, reply⟩ := e
  cases o <;> first | exact .inl rfl | exact .inr rfl

theorem seen_filed {filed : Deployment} (hseen : ((asking call).after {} i h).filed = some filed) :
    ∃ e ∈ h, e.thread = i ∧ filedDeployment e = some filed := by
  refine Monitor.after_recorded (f := Seen.filed) (fun seen e => ?_) rfl hseen
  obtain ⟨i, o, reply⟩ := e
  cases o <;> first | exact .inl rfl | exact .inr rfl

end Seen

end DeployTool

namespace Releases

/-- The primary keys of the two tables and the unique index on the deployments. -/
structure Keyed (s : Releases) : Prop where
  services : (s.services.map (·.id)).Nodup
  ids : (s.deployments.map (·.id)).Nodup
  fresh : ∀ d ∈ s.deployments, d.id < s.nextId
  keys : ∀ d ∈ s.deployments, ∀ d' ∈ s.deployments, d.idempotencyKey.isSome →
    d.idempotencyKey = d'.idempotencyKey → d = d'

/-- The service with the key has the name. -/
def Named (s : Releases) (id : Id) (name : String) : Prop :=
  ∃ service ∈ s.services, service.id = id ∧ service.name = name

/-- What an answer says of the tables. -/
structure Bears (e : Entry statements) (s : Releases) : Prop where
  service : ∀ found, foundService e = some found → found.2 ∈ s.services ∧ found.2.name = found.1
  replayed : ∀ found, replayedDeployment e = some found →
    found.2 ∈ s.deployments ∧ found.2.idempotencyKey = some found.1
  loaded : ∀ found, loadedDeployment e = some found → found.2 ∈ s.deployments ∧ found.2.id = found.1
  filed : ∀ row, filedDeployment e = some row → ∃ time, { row with deployedAt := time } ∈ s.deployments

theorem Named.unique {s : Releases} (h : s.Keyed) {id : Id} {name name' : String} (hn : s.Named id name)
    (hn' : s.Named id name') : name = name' := by
  obtain ⟨p, hp, hid, rfl⟩ := hn
  obtain ⟨q, hq, hid', rfl⟩ := hn'
  rw [List.inj_on_of_nodup_map h.services hp hq (hid.trans hid'.symm)]

theorem services_exec {s : Releases} (o : DevopsOp) : (exec o s).2.services = s.services := by
  rcases exec_cases o s with heq | ⟨row, -, -, -, heq⟩ <;> rw [heq]

theorem deployments_exec {s : Releases} (o : DevopsOp) : s.deployments ⊆ (exec o s).2.deployments := by
  rcases exec_cases o s with heq | ⟨row, -, -, -, heq⟩
  · rw [heq]
    exact List.Subset.refl _
  · rw [heq]
    exact List.subset_append_left _ _

theorem Keyed.exec {s : Releases} (h : s.Keyed) (o : DevopsOp) : (exec o s).2.Keyed := by
  rcases exec_cases o s with heq | ⟨row, -, hfree, -, heq⟩
  · rwa [heq]
  · rw [heq]
    have hnew : ∀ d ∈ s.deployments, row.idempotencyKey.isSome → d.idempotencyKey ≠ row.idempotencyKey :=
      fun d hd hkey hsame => hfree ⟨hkey, hsame ▸ List.mem_map_of_mem hd⟩
    refine ⟨h.services, ?_, ?_, ?_⟩
    · rw [List.map_append, List.nodup_append]
      refine ⟨h.ids, by simp, fun a ha b hb => ?_⟩
      obtain ⟨d, hd, rfl⟩ := List.mem_map.mp ha
      rw [List.mem_singleton.mp hb]
      exact (h.fresh d hd).ne
    · intro d hd
      rcases List.mem_append.mp hd with hd | hd
      · exact Nat.lt_succ_of_lt (h.fresh d hd)
      · rw [List.mem_singleton.mp hd]
        exact Nat.lt_succ_self _
    · intro d hd d' hd' hsome hsame
      rcases List.mem_append.mp hd with hd | hd <;> rcases List.mem_append.mp hd' with hd' | hd'
      · exact h.keys d hd d' hd' hsome hsame
      · cases List.mem_singleton.mp hd'
        exact absurd hsame (hnew d hd (hsame ▸ hsome))
      · cases List.mem_singleton.mp hd
        exact absurd hsame.symm (hnew d' hd' hsome)
      · rw [List.mem_singleton.mp hd, List.mem_singleton.mp hd']

theorem Bears.exec {e : Entry statements} {s : Releases} (h : Bears e s) (o : DevopsOp) :
    Bears e (exec o s).2 where
  service found hfound := (services_exec o).symm ▸ h.service found hfound
  replayed found hfound := ⟨deployments_exec o (h.replayed found hfound).1, (h.replayed found hfound).2⟩
  loaded found hfound := ⟨deployments_exec o (h.loaded found hfound).1, (h.loaded found hfound).2⟩
  filed row hrow := by
    obtain ⟨time, hmem⟩ := h.filed row hrow
    exact ⟨time, deployments_exec o hmem⟩

/-- Each answer is true of the tables it leaves. -/
theorem bears_exec (i : Nat) (o : DevopsOp) (s : Releases) : Bears ⟨i, o, (exec o s).1⟩ (exec o s).2 := by
  refine ⟨fun found hfound => ?_, fun found hfound => ?_, fun found hfound => ?_, fun filed hfiled => ?_⟩
  · cases o with
    | serviceNamed name =>
      obtain ⟨row, hrow, rfl⟩ := Option.map_eq_some_iff.mp hfound
      exact ⟨List.mem_of_find?_eq_some hrow, by simpa using List.find?_some hrow⟩
    | _ => cases hfound
  · cases o with
    | deploymentWithKey key =>
      obtain ⟨row, hrow, rfl⟩ := Option.map_eq_some_iff.mp hfound
      exact ⟨List.mem_of_find?_eq_some hrow, by simpa using List.find?_some hrow⟩
    | _ => cases hfound
  · cases o with
    | getDeployment id =>
      obtain ⟨row, hrow, rfl⟩ := Option.map_eq_some_iff.mp hfound
      exact ⟨List.mem_of_find?_eq_some hrow, by simpa using List.find?_some hrow⟩
    | _ => cases hfound
  · cases o with
    | commitDeployment row =>
      simp only [filedDeployment, exec, commitDeployment] at hfiled ⊢
      split at hfiled
      · cases hfiled
      · rename_i hfree
        cases hfiled
        rw [if_neg hfree]
        exact ⟨s.now, by simp⟩
    | _ => cases hfiled

/-- A deployment that is new after a statement is the one that the statement has filed. -/
theorem filed_exec (i : Nat) (o : DevopsOp) (s : Releases) : ∀ d ∈ (exec o s).2.deployments,
    d ∈ s.deployments ∨
      ∃ row, filedDeployment ⟨i, o, (exec o s).1⟩ = some row ∧ ∃ time, d = { row with deployedAt := time } := by
  intro d hd
  rcases exec_cases o s with heq | ⟨row, rfl, -, hreply, heq⟩
  · exact .inl (heq ▸ hd)
  · rw [heq] at hd
    rcases List.mem_append.mp hd with hd | hd
    · exact .inl hd
    · refine .inr ⟨{ row with id := s.nextId }, ?_, s.now, List.mem_singleton.mp hd⟩
      simp [filedDeployment, eq_of_heq hreply]

end Releases

section Deployments

variable {s : Releases} {c : Rollout}

theorem Releases.Keyed.run (hs : s.Keyed) (h : Run deployBuilds (Config.start s) c) : c.state.Keyed :=
  h.invariant (I := fun c => c.state.Keyed) hs (fun _ _ h => h)
    (fun _ _ h => ⟨h.services, h.ids, h.fresh, h.keys⟩) fun _ _ _ o _ _ _ _ h => h.exec o

theorem releases_bear (h : Run deployBuilds (Config.start s) c) : ∀ e ∈ c.history, Releases.Bears e c.state :=
  h.witnessed (T := Releases.Bears) (fun _ _ _ h => ⟨h.service, h.replayed, h.loaded, h.filed⟩)
    (fun i o s => Releases.bears_exec i o s) fun _ o _ h => h.exec o

theorem deployment_origin (h : Run deployBuilds (Config.start s) c) : ∀ d ∈ c.state.deployments,
    d ∈ s.deployments ∨
      ∃ e ∈ c.history, ∃ row, filedDeployment e = some row ∧ ∃ time, d = { row with deployedAt := time } :=
  h.provenance (R := Releases.deployments)
    (F := fun e d => ∃ row, filedDeployment e = some row ∧ ∃ time, d = { row with deployedAt := time })
    (fun _ _ => List.Subset.refl _) fun i o s => Releases.filed_exec i o s

theorem services_run (h : Run deployBuilds (Config.start s) c) : c.state.services = s.services := by
  refine h.invariant (I := fun c : Rollout => c.state.services = s.services) rfl (fun _ _ h => h)
    (fun _ _ h => h) fun d i call o k _ _ _ h => ?_
  exact (Releases.services_exec o).trans h

theorem deployments_run (h : Run deployBuilds (Config.start s) c) : s.deployments ⊆ c.state.deployments := by
  refine h.invariant (I := fun c : Rollout => s.deployments ⊆ c.state.deployments) (List.Subset.refl _)
    (fun _ _ h => h) (fun _ _ h => h) fun d i call o k _ _ _ h => ?_
  exact List.Subset.trans h (Releases.deployments_exec o)

theorem deployment_named_run (h : Run deployBuilds (Config.start s) c) {id : Id} {name : String} :
    c.state.Named id name ↔ s.Named id name := by
  unfold Releases.Named
  rw [services_run h]

/-- The row is for the environment and the version of the call. -/
def DeployCall.Fits (call : DeployCall) (row : Deployment) : Prop :=
  row.environment = call.environment ∧ row.version = call.input.version

/-- The row a call has filed is the one its input asks for. -/
theorem deployment_asked (h : Run deployBuilds (Config.start s) c) {e : Entry Releases.statements}
    (he : e ∈ c.history) {row : Deployment} (hrow : filedDeployment e = some row) :
    ∃ t, c.threads[e.thread]? = some t ∧ row.idempotencyKey = t.call.input.idempotencyKey ∧ t.call.Fits row ∧
      c.state.Named row.serviceId t.call.input.serviceName := by
  obtain ⟨later, earlier, hist⟩ := List.append_of_mem he
  obtain ⟨t, ht, hok⟩ := h.lawfulBy DeployTool.deploy_asking hist
  obtain ⟨i, o, reply⟩ := e
  cases o with
  | commitDeployment filed =>
    obtain ⟨id, -, rfl⟩ := Option.map_eq_some_iff.mp hrow
    obtain ⟨hkey, henvironment, hversion, service, hservice, hid⟩ := hok
    obtain ⟨e', he', -, hfound⟩ := DeployTool.seen_service hservice
    obtain ⟨hmem, hname⟩ := (releases_bear h e' (by simp [hist, he'])).service _ hfound
    exact ⟨t, ht, hkey, ⟨henvironment, hversion⟩, service, hmem, hid.symm, hname⟩
  | _ => cases hrow

/-- A call that has succeeded answers from a deployment under its key, or from its own. -/
theorem deployment_found (hs : s.Keyed) (h : Run deployBuilds (Config.start s) c) {i : Nat} {call : DeployCall}
    {output : DeployOutput} (hr : c.Returned i call output) :
    ∃ service ∈ c.state.services, ∃ row ∈ c.state.deployments, service.name = call.input.serviceName ∧
      output = DeployTool.outputFor service row ∧ row.idempotencyKey = call.input.idempotencyKey ∧
      (call.input.idempotencyKey = none →
        call.Fits row ∧ c.state.Named row.serviceId call.input.serviceName) := by
  have hm := h.monitoredBy (Config.monitoredBy_start s) DeployTool.deploy_asking
  obtain ⟨service, row, hservice, houtput, hrests⟩ : DeployTool.Rests call output _ := hm.2 i _ hr
  obtain ⟨e, he, -, hfound⟩ := DeployTool.seen_service hservice
  obtain ⟨hmem, hname⟩ := (releases_bear h e he).service _ hfound
  rcases hrests with ⟨key, hkey, hreplayed⟩ | ⟨filed, hfiled, hloaded⟩
  · obtain ⟨e', he', -, hfound'⟩ := DeployTool.seen_replayed hreplayed
    obtain ⟨hrow, hsame⟩ := (releases_bear h e' he').replayed _ hfound'
    refine ⟨service, hmem, row, hrow, hname, houtput, hsame.trans hkey.symm, fun hnone => ?_⟩
    cases hkey.symm.trans hnone
  · obtain ⟨e', he', rfl, hfiled'⟩ := DeployTool.seen_filed hfiled
    obtain ⟨e'', he'', -, hloaded'⟩ := DeployTool.seen_loaded hloaded
    obtain ⟨hrow, hid⟩ := (releases_bear h e'' he'').loaded _ hloaded'
    obtain ⟨time, hown⟩ := (releases_bear h e' he').filed _ hfiled'
    obtain rfl : row = { filed with deployedAt := time } := List.inj_on_of_nodup_map (hs.run h).ids hrow hown hid
    obtain ⟨t, ht, hkey, hfits, hnamed⟩ := deployment_asked h he' hfiled'
    cases ht.symm.trans hr
    exact ⟨service, hmem, _, hrow, hname, houtput, hkey, fun _ => ⟨hfits, hnamed⟩⟩

/-- The service of the request has been deployed in its environment and version. -/
def Releases.Deployed (s : Releases) (call : DeployCall) : Prop :=
  ∃ d ∈ s.deployments, s.Named d.serviceId call.input.serviceName ∧ call.Fits d

/-- The output names the service, the environment and the version of the request. -/
def DeployOutput.Names (output : DeployOutput) (call : DeployCall) : Prop :=
  output.serviceName = call.input.serviceName ∧ output.environment = call.environment.value ∧
    output.version = call.input.version

/-- There is a service of that name. -/
def Releases.Knows (s : Releases) (name : String) : Prop := ∃ service ∈ s.services, service.name = name

/-- The key stands for the environment and the version of the request, and its service is deployed with them: by the
deployment filed under the key, or else by every call that may file one. -/
structure Releases.Dedicated (s : Releases) (calls : DeployCall → Prop) (call : DeployCall) (key : String) :
    Prop where
  row : ∀ d ∈ s.deployments, d.idempotencyKey = some key → call.Fits d ∧ s.Deployed call
  calls : (∀ d ∈ s.deployments, d.idempotencyKey ≠ some key) → ∀ other, calls other →
    other.input.idempotencyKey = some key → s.Knows other.input.serviceName →
      other.environment = call.environment ∧ other.input.version = call.input.version ∧
        (other.input.serviceName = call.input.serviceName ∨ s.Deployed call)

/-- Every deployment that has succeeded is backed by one of its service, environment and version, and says so. -/
def DeploymentsBacked (c : Rollout) : Prop :=
  ∀ i call output, c.Returned i call output → c.state.Deployed call ∧ output.Names call

theorem DeploymentEnvironment.value_inj {a b : DeploymentEnvironment} (h : a.value = b.value) : a = b := by
  cases a <;> cases b <;> first | rfl | exact absurd h (by decide)

theorem deployed_run (h : Run deployBuilds (Config.start s) c) {call : DeployCall} (hd : s.Deployed call) :
    c.state.Deployed call := by
  obtain ⟨d, hmem, hnamed, hfits⟩ := hd
  exact ⟨d, deployments_run h hmem, (deployment_named_run h).mpr hnamed, hfits⟩

/-- Where the key of a deployment that has succeeded stands for what it asks for, it has been deployed. -/
theorem deploy_backed (hs : s.Keyed) (h : Run deployBuilds (Config.start s) c) {calls : DeployCall → Prop}
    (hcalls : ∀ t ∈ c.threads, calls t.call) {i : Nat} {call : DeployCall} {output : DeployOutput}
    (hr : c.Returned i call output)
    (hd : ∀ key, call.input.idempotencyKey = some key → s.Dedicated calls call key) :
    c.state.Deployed call ∧ output.Names call := by
  obtain ⟨service, -, row, hrow, hname, rfl, hkey, hown⟩ := deployment_found hs h hr
  have names (hfits : call.Fits row) : (DeployTool.outputFor service row).Names call :=
    ⟨hname, congrArg DeploymentEnvironment.value hfits.1, hfits.2⟩
  cases hsome : call.input.idempotencyKey with
  | none =>
    obtain ⟨hfits, hnamed⟩ := hown hsome
    exact ⟨⟨row, hrow, hnamed, hfits⟩, names hfits⟩
  | some key =>
    have hrowkey := hkey.trans hsome
    by_cases hstart : row ∈ s.deployments
    · obtain ⟨hfits, hdeployed⟩ := (hd key hsome).row row hstart hrowkey
      exact ⟨deployed_run h hdeployed, names hfits⟩
    · obtain ⟨e, he, filed, hfiled, time, rfl⟩ := (deployment_origin h row hrow).resolve_left hstart
      obtain ⟨t, ht, hkey', hfits', hnamed⟩ := deployment_asked h he hfiled
      have hfree : ∀ d ∈ s.deployments, d.idempotencyKey ≠ some key := by
        intro d hd hkeyd
        have hsame := (hs.run h).keys d (deployments_run h hd) _ hrow (by simp [hkeyd]) (hkeyd.trans hrowkey.symm)
        exact hstart (hsame ▸ hd)
      have hknows : s.Knows t.call.input.serviceName := by
        obtain ⟨service, hservice, -, hname⟩ := hnamed
        exact ⟨service, services_run h ▸ hservice, hname⟩
      obtain ⟨henvironment, hversion, hservice⟩ := (hd key hsome).calls hfree t.call
        (hcalls t (List.mem_of_getElem? ht)) (hkey'.symm.trans hrowkey) hknows
      have hfits : call.Fits { filed with deployedAt := time } :=
        ⟨hfits'.1.trans henvironment, hfits'.2.trans hversion⟩
      refine ⟨?_, names hfits⟩
      rcases hservice with hservice | hdeployed
      · exact ⟨_, hrow, hservice ▸ hnamed, hfits⟩
      · exact deployed_run h hdeployed

/-- A key that has been used finds its one deployment. -/
theorem Releases.Keyed.find (hs : s.Keyed) {d : Deployment} (hd : d ∈ s.deployments) {key : String}
    (hkey : d.idempotencyKey = some key) : s.deployments.find? (·.idempotencyKey = some key) = some d := by
  cases hfind : s.deployments.find? (·.idempotencyKey = some key) with
  | none => exact absurd hkey (by simpa using List.find?_eq_none.1 hfind d hd)
  | some d' =>
    have hkey' : d'.idempotencyKey = some key := by simpa using List.find?_some hfind
    rw [hs.keys d' (List.mem_of_find?_eq_some hfind) d hd (by simp [hkey']) (hkey'.trans hkey.symm)]

theorem Releases.Knows.find {name : String} (h : s.Knows name) :
    ∃ service, s.services.find? (·.name = name) = some service ∧ service ∈ s.services ∧ service.name = name := by
  obtain ⟨service, hmem, hname⟩ := h
  obtain ⟨found, hfound⟩ : ∃ found, s.services.find? (·.name = name) = some found := by
    rw [← Option.isSome_iff_exists, List.find?_isSome]
    exact ⟨service, hmem, by simpa using hname⟩
  exact ⟨found, hfound, List.mem_of_find?_eq_some hfound, by simpa using List.find?_some hfound⟩

namespace DeployTool

theorem statement_ends {α : Type} {o : DevopsOp} {f : o.Reply → DevopsM α} {reply : o.Reply} {s' : Releases}
    {Q : α → Releases → Prop} (ho : Releases.exec o s = (reply, s')) (h : (f reply).Ends Releases.exec s' Q) :
    ((statement o).bind f).Ends Releases.exec s Q :=
  .answered ho h

theorem getService_ends {α : Type} {name : String} {service : Service} {f : Service → DevopsM α}
    {Q : α → Releases → Prop} (hservice : s.services.find? (·.name = name) = some service)
    (h : (f service).Ends Releases.exec s Q) : ((getService name).bind f).Ends Releases.exec s Q := by
  refine .bind (R := fun found s' => found = service ∧ s' = s) ?_ ?_
  · exact statement_ends (o := .serviceNamed name) (Prod.ext hservice rfl) <| .ret ⟨rfl, rfl⟩
  · rintro _ _ ⟨rfl, rfl⟩
    exact h

/-- A call by itself whose key has been used replays. -/
theorem replay_ends {call : DeployCall} {key : String} {service : Service} {d : Deployment}
    (hservice : s.services.find? (·.name = call.input.serviceName) = some service)
    (hkey : call.input.idempotencyKey = some key)
    (hd : s.deployments.find? (·.idempotencyKey = some key) = some d) :
    (deploy call.input call.environment).Ends Releases.exec s fun output s' =>
      output = outputFor service d ∧ s' = s := by
  refine getService_ends hservice ?_
  rw [hkey]
  exact statement_ends (o := .deploymentWithKey key) (Prod.ext hd rfl) <| .ret ⟨rfl, rfl⟩

/-- A call by itself whose key is free files its deployment. -/
theorem deploy_ends {call : DeployCall} {key : String} {service : Service}
    (hservice : s.services.find? (·.name = call.input.serviceName) = some service)
    (hkey : call.input.idempotencyKey = some key) (hfree : ∀ d ∈ s.deployments, d.idempotencyKey ≠ some key) :
    (deploy call.input call.environment).Ends Releases.exec s fun _ s' =>
      ∃ d, s'.deployments = s.deployments ++ [d] ∧ s'.services = s.services ∧ d.idempotencyKey = some key ∧
        call.Fits d ∧ d.serviceId = service.id := by
  have hmem := List.mem_of_find?_eq_some hservice
  have hnone : s.deployments.find? (·.idempotencyKey = some key) = none :=
    List.find?_eq_none.2 fun d hd => by simpa using hfree d hd
  let row : Deployment := ⟨0, service.id, call.environment, call.input.version, call.input.idempotencyKey, 0⟩
  let filed : Deployment := { row with id := s.nextId, deployedAt := s.now }
  let s₁ : Releases := { s with deployments := s.deployments ++ [filed], nextId := s.nextId + 1 }
  have commits : Releases.exec (.commitDeployment row) s = (some s.nextId, s₁) := by
    refine if_neg (not_or.2 ⟨fun htaken => ?_, fun hid => hid (List.mem_map_of_mem hmem)⟩)
    obtain ⟨d, hd, hkeyd⟩ := List.mem_map.1 htaken.2
    exact hfree d hd (hkeyd.trans hkey)
  obtain ⟨loaded, hloaded⟩ : ∃ loaded, s₁.deployments.find? (·.id = s.nextId) = some loaded := by
    rw [← Option.isSome_iff_exists, List.find?_isSome]
    exact ⟨filed, by simp [s₁], by simp [filed]⟩
  have reads : existing call.input.idempotencyKey = statement (.deploymentWithKey key) := by rw [hkey, existing]
  refine getService_ends hservice ?_
  rw [reads]
  exact statement_ends (o := .deploymentWithKey key) (Prod.ext hnone rfl) <|
    statement_ends (o := .commitDeployment row) commits <|
    statement_ends (o := .getDeployment s.nextId) (Prod.ext hloaded rfl) <|
    .ret ⟨filed, rfl, rfl, hkey, ⟨rfl, rfl⟩, rfl⟩

end DeployTool

/-- Where every run backs its deployments, the keys stand for what is asked under them: otherwise the call made after
the one that uses its key, each by itself, succeeds on a deployment that it did not ask for. -/
theorem releases_dedicated_of_backed (hs : s.Keyed) {calls : DeployCall → Prop}
    (hall : ∀ c, Run deployBuilds (Config.start s) c → (∀ t ∈ c.threads, calls t.call) → DeploymentsBacked c)
    {call : DeployCall} (hcall : calls call) (hknows : s.Knows call.input.serviceName) {key : String}
    (hkey : call.input.idempotencyKey = some key) : s.Dedicated calls call key where
  row d hd hkeyd := by
    obtain ⟨service, hservice, -⟩ := hknows.find
    have replays := DeployTool.replay_ends hservice hkey (hs.find hd hkeyd)
    obtain ⟨_, d', hrun, rfl, hstate⟩ := replays.uninterrupted deployBuilds (Config.start s)
    obtain ⟨hdeployed, -, henvironment, hversion⟩ :=
      hall d' hrun.run (hrun.within (by simp [Config.start]) hcall) _ _ _ hrun.returned
    rw [hstate] at hdeployed
    exact ⟨⟨DeploymentEnvironment.value_inj henvironment, hversion⟩, hdeployed⟩
  calls hfree other hother hkey' hknows' := by
    obtain ⟨service, hservice, hmem, hname⟩ := hknows'.find
    have files := DeployTool.deploy_ends hservice hkey' hfree
    obtain ⟨_, c₁, hrun₁, d, hdeployments, hservices, hkeyd, hfits, hid⟩ :=
      files.uninterrupted deployBuilds (Config.start s)
    have hd : d ∈ c₁.state.deployments := by simp [hdeployments]
    have hknows₁ : c₁.state.Knows call.input.serviceName := by rwa [Releases.Knows, hservices]
    obtain ⟨service', hservice', -⟩ := hknows₁.find
    have replays := DeployTool.replay_ends hservice' hkey ((hs.run hrun₁.run).find hd hkeyd)
    obtain ⟨_, c₂, hrun, rfl, hstate⟩ := replays.uninterrupted deployBuilds c₁
    obtain ⟨⟨found, hfound, hnamed, hfits'⟩, -, henvironment, hversion⟩ := hall c₂ (hrun₁.run.trans hrun.run)
      (hrun.within (hrun₁.within (by simp [Config.start]) hother) hcall) _ _ _ hrun.returned
    rw [hstate] at hfound hnamed
    have hnamed : s.Named found.serviceId call.input.serviceName := by rwa [Releases.Named, hservices] at hnamed
    refine ⟨hfits.1.symm.trans (DeploymentEnvironment.value_inj henvironment), hfits.2.symm.trans hversion, ?_⟩
    rw [hdeployments] at hfound
    rcases List.mem_append.1 hfound with hfound | hfound
    · exact .inr ⟨found, hfound, hnamed, hfits'⟩
    · obtain rfl := List.mem_singleton.1 hfound
      exact .inl (Releases.Named.unique hs ⟨service, hmem, hid.symm, hname⟩ hnamed)

end Deployments

/-- Whatever refunds and deployments may be called for: in every run of such calls each success is backed by what was
requested, exactly when the key of each such call stands for what it requests. -/
theorem success_backed {s : Ledger} {s' : Releases} (hs : s.Keyed) (hs' : s'.Keyed)
    (refunds : RefundPaymentInput → Prop) (deploys : DeployCall → Prop) :
    ((∀ c, Run refundPayments (Config.start s) c → (∀ t ∈ c.threads, refunds t.call) → RefundsBacked c) ↔
      ∀ input, refunds input → input.InCents → s.Dedicated refunds input) ∧
    ((∀ c, Run deployBuilds (Config.start s') c → (∀ t ∈ c.threads, deploys t.call) → DeploymentsBacked c) ↔
      ∀ call, deploys call → s'.Knows call.input.serviceName →
        ∀ key, call.input.idempotencyKey = some key → s'.Dedicated deploys call key) := by
  constructor
  · constructor
    · exact fun hall _ hinput hcents => dedicated_of_backed hs hall hinput hcents
    · exact fun hdedicated _ h hcalls _ input _ hr hcents => refund_backed hs h hcalls hr hcents
        (hdedicated input (hcalls _ (List.mem_of_getElem? hr)) hcents)
  · constructor
    · exact fun hall _ hcall hknows _ hkey => releases_dedicated_of_backed hs' hall hcall hknows hkey
    · intro hdedicated c h hcalls i call output hr
      obtain ⟨service, hservice, -, -, hname, -⟩ := deployment_found hs' h hr
      exact deploy_backed hs' h hcalls hr fun key hkey =>
        hdedicated call (hcalls _ (List.mem_of_getElem? hr)) ⟨service, services_run h ▸ hservice, hname⟩ key hkey

/-- One service without deployments. -/
def Releases.bench : Releases := ⟨0, [⟨0, "checkout-service"⟩], [], 0⟩

theorem Releases.bench_keyed : Releases.bench.Keyed := ⟨by decide, by decide, by decide, by decide⟩

/-- The service, under one key. -/
def deployCheckout (environment : DeploymentEnvironment) (version : String) : DeployCall :=
  ⟨⟨"checkout-service", version, some "k"⟩, environment⟩

/-- The tables after a call has deployed to staging and another to production, one after the other. -/
def afterRollout : Rollout :=
  (Config.start Releases.bench).replay deployBuilds
    (.spawn (deployCheckout .staging "1.0") :: List.replicate 4 (.run 0) ++
      .spawn (deployCheckout .production "2.0") :: List.replicate 2 (.run 1))

/-- A refund and its retry. -/
def afterRetry : Till :=
  (Config.start Ledger.bench).replay refundPayments
    (.spawn (wholeRefund "a") :: List.replicate 5 (.run 0) ++ .spawn (wholeRefund "a") :: List.replicate 2 (.run 1))

/-- The retries of a refund and of a deployment are backed by what the first calls have filed. -/
theorem success_backed_retry : afterRetry.state.Backs (wholeRefund "a") ∧
    ∀ c, Run deployBuilds (Config.start Releases.bench) c →
      (∀ t ∈ c.threads, t.call = deployCheckout .staging "1.0") → DeploymentsBacked c := by
  have hkeyed : Ledger.bench.Keyed := ⟨by decide, by decide⟩
  have hbacked := success_backed hkeyed Releases.bench_keyed (· = wholeRefund "a")
    (· = deployCheckout .staging "1.0")
  constructor
  · have hrun : Run refundPayments (Config.start Ledger.bench) afterRetry := run_replay _ .refl
    have hcalls : ∀ t ∈ afterRetry.threads, t.call = wholeRefund "a" := by
      intro t ht
      have hmem : t.call ∈ afterRetry.threads.map (·.call) := List.mem_map_of_mem ht
      rw [afterRetry, replay_calls] at hmem
      simpa [Config.start, Move.spawned, eq_comm] using hmem
    have hreturned : afterRetry.Returned 1 (wholeRefund "a")
        ⟨"PAY-1", .ofCents 1000, "duplicate", "REFUNDED", 0, true⟩ := by with_unfolding_all rfl
    have hamount : (wholeRefund "a").InCents := ⟨1000, by norm_num [wholeRefund, Decimal.ofCents]⟩
    refine hbacked.1.2 ?_ _ hrun hcalls _ _ _ hreturned hamount
    rintro input rfl -
    refine ⟨fun r hr => by simp [Ledger.bench] at hr, fun _ other hother _ _ => ?_⟩
    rw [hother]
    exact ⟨rfl, rfl⟩
  · refine hbacked.2.2 ?_
    rintro call rfl - key hkey
    refine ⟨fun d hd => by simp [Releases.bench] at hd, fun _ other hother _ _ => ?_⟩
    rw [hother]
    exact ⟨rfl, rfl, .inl rfl⟩

/-- A production deployment under a key that staging has used succeeds without deploying anything. -/
theorem deployed_elsewhere :
    ¬∀ (s : Releases) (c : Rollout) (i : Nat) (call : DeployCall) (output : DeployOutput),
      s.Keyed → Run deployBuilds (Config.start s) c → c.Returned i call output →
      c.state.Deployed call ∧ output.Names call := by
  intro h
  have hrun : Run deployBuilds (Config.start Releases.bench) afterRollout := run_replay _ .refl
  have hreturned : afterRollout.Returned 1 (deployCheckout .production "2.0")
      ⟨"checkout-service", "STAGING", "1.0", 0⟩ := by with_unfolding_all rfl
  have hnames := (h _ _ _ _ _ Releases.bench_keyed hrun hreturned).2
  exact absurd hnames.2.2 (by decide)

end SafeOps
