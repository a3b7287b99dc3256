import SafeOps.Observers.Mandate

/-! Who touches the row of an external request: the calls that name it, and no other. -/

namespace SafeOps
open Concurrent Program

variable {W : World} {ε α : Type}

/-- Neither executed nor waiting for an approval. -/
def ExternalActionStatus.Declined (s : ExternalActionStatus) : Prop := s ≠ executed ∧ s ≠ waitingApproval

instance : DecidablePred ExternalActionStatus.Declined := fun s => by
  unfold ExternalActionStatus.Declined; infer_instance

/-- The answers that report neither. -/
def ActionStatus.Declined (s : ActionStatus) : Prop := s ≠ executed ∧ s ≠ requiresApproval

/-- How far a call is with a request that nobody else submits. -/
inductive Custody
  | pending | filed | astray
  deriving DecidableEq

/-- The row found under `(a, b)` is filed there; that of request `k` of operator `o` has been declined so far. -/
structure Proper (o : Id) (k : String) (a : Id) (b : String) (row : ExternalActionRequest) : Prop where
  operatorId : row.operatorId = a
  externalRequestId : row.externalRequestId = b
  declined : a = o → b = k → row.status.Declined

instance (o : Id) (k : String) (a : Id) (b : String) (row : ExternalActionRequest) : Decidable (Proper o k a b row) :=
  decidable_of_iff (row.operatorId = a ∧ row.externalRequestId = b ∧ (a = o → b = k → row.status.Declined))
    ⟨fun ⟨h, h', h''⟩ => ⟨h, h', h''⟩, fun ⟨h, h', h''⟩ => ⟨h, h', h''⟩⟩

/-- Follows a call around request `k` of operator `o`, which is its own to submit or not. It goes astray when it
finds what it cannot find if nobody else submits the request. -/
def keeping (o : Id) (k : String) (own : Bool) : Monitor W.statements Custody where
  next m op := match op with
    | .query (.externalRequest a b) => fun (row : Option ExternalActionRequest) =>
      if ∀ r ∈ row, Proper o k a b r ∧ (a = o → b = k → own = true → m ≠ .pending) then m else .astray
    | .write (.insertExternalRequest row) => fun (inserted : Bool) =>
      if row.operatorId = o ∧ row.externalRequestId = k then
        if m = .pending ∧ inserted = true then .filed else .astray
      else m
    | _ => fun _ => m
  ok m op := match op with
    | .write (.insertExternalRequest row) =>
      m ≠ .astray → row.operatorId = o → row.externalRequestId = k →
        own = true ∧ m = .pending ∧ row.status.Declined
    | .write (.updateExternalRequest a b columns) => m ≠ .astray → a = o → b = k →
      own = true ∧ ∀ s, columns.status = some s → s.Declined
    | _ => True

/-- Inserts no external request, and changes none. -/
def Apart : Op W.Tables → Prop
  | .write (.insertExternalRequest _) | .write (.updateExternalRequest _ _ _) => False
  | _ => True

/-- A part of a call that returns a value with `P` where it found the call, unless the call goes astray. -/
abbrev Keeps (o : Id) (k : String) (own : Bool) (m : Custody) (p : Program W.statements ε α) (P : α → Prop) : Prop :=
  p.Obeys (keeping o k own) (fun a m' => m' = .astray ∨ m' = m ∧ P a) (fun _ _ => True) m

section Rules

variable {β : Type} {o : Id} {k : String} {own : Bool} {m : Custody} {P : α → Prop}

theorem keeping_query (m : Custody) (q : Query) (r : q.Reply) :
    (keeping (W := W) o k own).next m (.query q) r = .astray ∨ (keeping (W := W) o k own).next m (.query q) r = m := by
  cases q with
  | externalRequest a b =>
    by_cases h : ∀ row ∈ (show Option ExternalActionRequest from r),
        Proper o k a b row ∧ (a = o → b = k → own = true → m ≠ .pending)
    · exact .inr (if_pos h)
    · exact .inl (if_neg h)
  | _ => exact .inr rfl

/-- A call that has gone astray is not followed any further. -/
theorem astray_obeys (p : Program W.statements ε α) :
    p.Obeys (keeping o k own) (fun _ m => m = .astray) (fun _ _ => True) .astray := by
  refine (p.uses_requests.keeps (I := (· = Custody.astray)) (fun m op _ hm => ?_) (fun m op r _ hm => ?_) rfl).mono
    (fun _ _ h => h) fun _ _ _ => trivial
  · subst hm
    rcases op with _ | w | _ | _
    · trivial
    · cases w <;> first | trivial | exact fun h => absurd rfl h
    · trivial
    · trivial
  · subst hm
    rcases op with q | w | _ | _
    · exact (keeping_query _ q r).elim id id
    · cases w with
      | insertExternalRequest row =>
        simp only [keeping]
        split
        · exact if_neg fun h => Custody.noConfusion h.1
        · rfl
      | _ => rfl
    · rfl
    · rfl

theorem Keeps.bind {p : Program W.statements ε α} {f : α → Program W.statements ε β} {Q : β → Prop}
    (h : Keeps o k own m p P) (hf : ∀ a, P a → Keeps o k own m (f a) Q) : Keeps o k own m (p.bind f) Q := by
  refine Obeys.bind h (fun _ _ _ => trivial) fun a m' hm => ?_
  rcases hm with rfl | ⟨rfl, ha⟩
  · exact (astray_obeys (f a)).mono (fun _ _ h => .inl h) fun _ _ h => h
  · exact hf a ha

theorem Keeps.ret {a : α} (h : P a) : Keeps o k own m (.ret a : Program W.statements ε α) P := .inr ⟨rfl, h⟩

theorem Keeps.of_apart {p : Program W.statements ε α} (h : p.Uses Apart) (hp : p.Yields (fun _ => True) P) :
    Keeps o k own m p P := by
  refine ((h.yields hp).keeps (I := fun m' => m' = .astray ∨ m' = m) (fun m' op ho _ => ?_)
    (fun m' op r ho hm => ?_) (.inr rfl)).mono (fun _ _ h => h.2.imp_right fun hm => ⟨hm, h.1⟩) fun _ _ _ => trivial
  · rcases op with _ | w | _ | _
    · trivial
    · cases w <;> first | exact ho.elim | trivial
    · trivial
    · trivial
  · rcases op with q | w | _ | _
    · have hnext : (keeping o k own).next m' (.query q) r = .astray ∨ (keeping o k own).next m' (.query q) r = m' :=
        keeping_query m' q r
      rcases hnext with h | h
      · exact .inl h
      · exact hm.imp (h.trans ·) (h.trans ·)
    · cases w <;> first | exact ho.elim | exact hm
    · exact hm
    · exact hm

theorem Keeps.apart {p : Program W.statements ε α} (h : p.Uses Apart) : Keeps o k own m p fun _ => True :=
  .of_apart h (yields_any p)

theorem LeaseOp.apart {op : Op W.Tables} (h : LeaseOp op) : Apart op := by
  rcases op with _ | w | _ | _
  · trivial
  · cases w <;> first | exact h.elim | trivial
  · exact h.elim
  · trivial

theorem RuntimeOp.apart {op : Op W.Tables} (h : RuntimeOp op) : Apart op := by
  rcases op with _ | w | _ | _
  · trivial
  · cases w <;> first | exact h.elim | trivial
  · exact h.elim
  · trivial

theorem CancelOp.apart {x : Id} {op : Op W.Tables} (h : CancelOp x op) : Apart op := by
  rcases op with _ | w | _ | _
  · trivial
  · cases w <;> first | exact h.elim | trivial
  · exact h.elim
  · trivial

theorem ApprovalOp.apart {a : Id} {approve : Bool} {op : Op W.Tables} (h : ApprovalOp a approve op) : Apart op := by
  rcases op with _ | w | _ | _
  · trivial
  · cases w <;> first | exact h.elim | trivial
  · trivial
  · trivial

theorem Reads.apart {op : Op W.Tables} (h : Reads op) : Apart op := by
  rcases op with _ | w | _ | _
  · trivial
  · cases w <;> first | exact h.elim | trivial
  · trivial
  · trivial

theorem ToolGateway.execute_apart (call : GatewayCall) (context : Option Value) :
    (execute call context : Db W GatewayResult).Uses Apart :=
  (ToolGateway.execute_built call context).uses (fun _ => Reads.apart) (fun _ => trivial)
    fun _ _ _ h => h.within.mono (fun _ _ _ => trivial) fun _ _ _ _ => trivial

theorem pieces_apart {K : Op W.Tables → Prop} {C : Id → Nat → Rows W → Prop} {G : Prop} {p : Program W.statements ε α}
    (h : Composed (Piece K C G) p) (hK : ∀ op, K op → Apart op) (hC : ∀ x seq rows, C x seq rows → Chunk x seq rows) :
    p.Uses Apart :=
  pieces_use h hK (fun _ => trivial) (fun x seq rows hrows =>
    (hC x seq rows hrows).within.mono (fun _ _ _ => trivial) fun _ _ _ _ => trivial) fun _ =>
      ToolGateway.execute_apart

theorem Leasing.apart {p : Program W.statements ε α} (h : Leasing p) : p.Uses Apart :=
  pieces_apart (Leasing.assembled h) (fun _ => LeaseOp.apart) fun _ _ _ => .runtime

end Rules

namespace ExternalActionService

variable {o : Id} {k : String} {own : Bool} {m : Custody} {a : Id} {b : String} {row : ExternalActionRequest}
  {columns : ExternalActionUpdate}

theorem reload_keeps (hrow : Proper o k a b row) :
    Keeps o k own m (reload row : Db W ExternalActionRequest) (Proper o k a b) := by
  obtain ⟨rfl, rfl, hdeclined⟩ := hrow
  refine .call_bind trivial fun (current : Option ExternalActionRequest) => ?_
  simp only [keeping]
  split
  · rename_i h
    refine .inr ⟨rfl, ?_⟩
    cases current with
    | none => exact ⟨rfl, rfl, hdeclined⟩
    | some current => exact (h current rfl).1
  · exact .inl rfl

theorem emitAudit_apart (x : Id) (type : AuditEventType) (metadata : List (String × Value)) :
    (emitAudit x type metadata : Db W Unit).Uses Apart :=
  commitChunk_uses trivial fun _ _ => trivial

theorem findMatchingStep_apart (row : ExternalActionRequest) :
    (findMatchingStep row : Db W (Option ExecutionStep)).Uses Apart :=
  ⟨trivial, fun _ => trivial⟩

theorem flushOutcome_keeps (hrow : Proper o k a b row)
    (hcolumns : a = o → b = k → own = true ∧ ∀ s, columns.status = some s → s.Declined) :
    Keeps o k own m (flushOutcome row columns : Db W ExternalActionRequest) (Proper o k a b) := by
  have updated : Keeps o k own m (update row columns : Db W Unit) fun _ => True := by
    obtain ⟨rfl, rfl, _⟩ := hrow
    exact ⟨fun _ => hcolumns, fun _ => .inr ⟨rfl, trivial⟩⟩
  refine updated.bind fun _ _ => (reload_keeps hrow).bind fun refreshed hrefreshed => ?_
  split
  · exact (Keeps.apart (emitAudit_apart _ _ _)).bind fun _ _ => reload_keeps hrefreshed
  · exact .ret hrefreshed

theorem reconcileIfResolved_keeps (hrow : Proper o k a b row) (hother : ¬(a = o ∧ b = k)) :
    Keeps o k own m (reconcileIfResolved row : Db W ExternalActionRequest) (Proper o k a b) := by
  refine (Keeps.apart (Leasing.apart (AgentRuntime.approvalNamed_leasing _))).bind fun approval _ => ?_
  split
  · exact .ret hrow
  · split
    · exact .ret hrow
    · refine (Keeps.apart (Leasing.apart (AgentRuntime.reconcileExternalStep_leasing _))).bind fun reconciled _ =>
        Keeps.bind (P := Proper o k a b) ?_ fun row hrow => (Keeps.apart (findMatchingStep_apart row)).bind
          fun step _ => ?_
      · unfold reloadIf
        split
        · exact reload_keeps hrow
        · exact .ret hrow
      · split
        · exact flushOutcome_keeps hrow fun ha hb => absurd ⟨ha, hb⟩ hother
        · exact .ret hrow

/-- What the runtime may answer for an action that is declined. -/
def Withheld (result : RuntimeResult) : Prop := result.status ≠ .executed ∧ result.status ≠ .waitingApproval

theorem resultColumns_declined {result : RuntimeResult} (h : Withheld result) {status : ExternalActionStatus}
    (hr : resultColumns result = some (status, columns)) : ∀ s, columns.status = some s → s.Declined := by
  obtain ⟨hexecuted, hwaiting⟩ := h
  unfold resultColumns at hr
  split at hr
  · rename_i hs
    exact absurd hs hexecuted
  · rename_i hs
    exact absurd hs hwaiting
  · obtain rfl := (Prod.mk.inj (Option.some.inj hr)).2
    simp [ExternalActionStatus.Declined]
  · obtain rfl := (Prod.mk.inj (Option.some.inj hr)).2
    simp [ExternalActionStatus.Declined]
  · cases hr

theorem toActionResponse_declined (h : row.status.Declined) : (toActionResponse row).status.Declined := by
  obtain ⟨hexecuted, hwaiting⟩ := h
  cases hs : row.status <;> simp_all [toActionResponse, ActionStatus.Declined]

/-- What is applied to a row of one's own is the answer of a runtime that declines. -/
theorem invokeAndApply_keeps {loaded : Bool} {arguments : Value} {sources : List Source} (hrow : Proper o k a b row)
    (hown : a = o → b = k → own = true ∧ ∀ action : ToolAction, action.toolName = row.toolName →
      action.sources = sources →
      (AgentRuntime.submitExternalAction row.executionId action : Db W _).Yields (fun _ => True) Withheld) :
    Keeps o k own m (invokeAndApply row loaded arguments sources : Db W ActionResponse)
      fun response => a = o → b = k → response.status.Declined := by
  have marked : Keeps o k own m (markProcessing row loaded : Db W Unit) fun _ => True := by
    unfold markProcessing
    split
    · exact .ret trivial
    · obtain ⟨rfl, rfl, _⟩ := hrow
      refine ⟨fun _ ha hb => ⟨(hown ha hb).1, fun s hs => ?_⟩, fun _ => .inr ⟨rfl, trivial⟩⟩
      obtain rfl := Option.some.inj hs
      simp [ExternalActionStatus.Declined]
  refine Keeps.bind (P := fun result => a = o → b = k → Withheld result) (marked.bind fun _ _ => ?_) fun result hresult => ?_
  · refine .of_apart (Leasing.apart (AgentRuntime.submitExternalAction_leasing _ _)) ?_
    by_cases h : a = o ∧ b = k
    · exact ((hown h.1 h.2).2 _ rfl rfl).mono (fun _ h => h) fun _ h _ _ => h
    · exact (yields_any _).mono (fun _ h => h) fun _ _ ha hb => absurd ⟨ha, hb⟩ h
  · split
    · trivial
    · rename_i status columns hcolumns
      refine (reload_keeps hrow).bind fun current _ => (Keeps.apart (findMatchingStep_apart row)).bind fun step _ => ?_
      refine (flushOutcome_keeps hrow fun ha hb => ⟨(hown ha hb).1, ?_⟩).bind fun final hfinal =>
        .ret fun ha hb => toActionResponse_declined (hfinal.declined ha hb)
      have declined := resultColumns_declined (hresult ha hb) hcolumns
      cases step <;> exact declined

theorem retry_keeps {existing : ExternalActionRequest} {request : SubmitActionRequest} {payloadHash : String}
    (hrow : Proper o k a b existing) (hother : ¬(a = o ∧ b = k)) :
    Keeps o k own m (retry existing request payloadHash : Db W ActionResponse) fun _ => True := by
  have elsewhere {C : Prop} (ha : a = o) (hb : b = k) : C := absurd ⟨ha, hb⟩ hother
  unfold retry checkHashOrConflict
  split
  · trivial
  · change Keeps o k own m (resolveExisting existing request.arguments (normalizeSources request.sources)) _
    unfold resolveExisting
    split
    · exact .ret trivial
    · split
      · exact (reconcileIfResolved_keeps hrow hother).bind fun _ _ => .ret trivial
      · refine (Keeps.apart (findMatchingStep_apart existing)).bind fun step _ => ?_
        split
        · exact (flushOutcome_keeps hrow elsewhere).bind fun _ _ => .ret trivial
        · exact (invokeAndApply_keeps hrow elsewhere).mono (fun _ _ h => h.imp_right fun h => ⟨h.1, trivial⟩) fun _ _ h => h

theorem requireAgentMapping_apart (operatorId agentId : Id) :
    (requireAgentMapping operatorId agentId : Db W Agent).Uses Apart := by
  refine .bind ((uses_call _).2 trivial) fun agent => ?_
  split
  · trivial
  · refine .bind ((uses_call _).2 trivial) fun mapped => ?_
    split <;> trivial

theorem requestedExecution_apart (request : SubmitActionRequest) :
    (requestedExecution request : Db W Id).Uses Apart := by
  unfold requestedExecution
  split
  · refine .bind ((uses_call _).2 trivial) fun execution => ?_
    split <;> trivial
  · refine .bind (pieces_apart (AgentRuntime.startExecution_built (G := False) _ _ _) (fun _ => RuntimeOp.apart)
      fun _ _ _ => .runtime) fun started => ?_
    split <;> trivial

variable {request : SubmitActionRequest} {payloadHash : String}

/-- What a submission is answered, as far as it has not gone astray. -/
def Answered (o : Id) (k : String) (operatorId : Id) (key : String) (response : ActionResponse) (m : Custody) : Prop :=
  m = .astray ∨ (operatorId = o → key = k → response.status.Declined)

theorem Keeps.answered {p : Db W ActionResponse}
    (h : Keeps o k own m p fun response => a = o → b = k → response.status.Declined) :
    p.Obeys (keeping o k own) (Answered o k a b) (fun _ _ => True) m :=
  h.mono (fun _ _ h => h.imp_right And.right) fun _ _ h => h

theorem astray_answered (p : Db W ActionResponse) :
    p.Obeys (keeping o k own) (Answered o k a b) (fun _ _ => True) .astray :=
  (astray_obeys p).mono (fun _ _ h => .inl h) fun _ _ h => h

/-- A call reads the row of a request: it goes astray, or goes on with a proper row or none. -/
theorem found_obeys {f : Option ExternalActionRequest → Db W α} {Q : α → Custody → Prop} (hQ : ∀ x, Q x .astray)
    (absent : (f none).Obeys (keeping o k own) Q (fun _ _ => True) m)
    (found : ∀ row, Proper o k a b row → (a = o → b = k → own = true → m ≠ .pending) →
      (f (some row)).Obeys (keeping o k own) Q (fun _ _ => True) m) :
    ((query (.externalRequest a b) : Db W (Option ExternalActionRequest)).bind f).Obeys (keeping o k own) Q
      (fun _ _ => True) m := by
  refine .call_bind trivial fun (row : Option ExternalActionRequest) => ?_
  by_cases h : ∀ r ∈ row, Proper o k a b r ∧ (a = o → b = k → own = true → m ≠ .pending)
  · have same : (keeping (W := W) o k own).next m (.query (.externalRequest a b)) row = m := if_pos h
    rw [same]
    cases row with
    | none => exact absent
    | some row => exact found row (h row rfl).1 (h row rfl).2
  · have astray : (keeping (W := W) o k own).next m (.query (.externalRequest a b)) row = .astray := if_neg h
    rw [astray]
    exact (astray_obeys _).mono (fun x _ h => h ▸ hQ x) fun _ _ h => h

/-- A submission of the request that the runtime declines is answered so, if nobody else submits it. -/
theorem submit_answered (operatorId : Id) (hown : operatorId = o → request.externalRequestId = k → own = true ∧
    ∀ x (action : ToolAction), action.toolName = request.toolName →
      action.sources = normalizeSources request.sources →
      (AgentRuntime.submitExternalAction x action : Db W _).Yields (fun _ => True) Withheld) :
    (submit operatorId request : Db W ActionResponse).Obeys (keeping o k own)
      (Answered o k operatorId request.externalRequestId) (fun _ _ => True) .pending := by
  have owns := fun ho hk => (hown ho hk).1
  have found (row : ExternalActionRequest) (hrow : Proper o k operatorId request.externalRequestId row)
      (hfiled : operatorId = o → request.externalRequestId = k → own = true → Custody.pending ≠ .pending) :
      (retry row request (W.hashPayload (payload request)) : Db W ActionResponse).Obeys (keeping o k own)
        (Answered o k operatorId request.externalRequestId) (fun _ _ => True) .pending := by
    have hother : ¬(operatorId = o ∧ request.externalRequestId = k) := fun hk => hfiled hk.1 hk.2 (owns hk.1 hk.2) rfl
    exact (retry_keeps hrow hother).mono (fun _ _ _ => .inr fun ha hb => absurd ⟨ha, hb⟩ hother) fun _ _ h => h
  refine .bind (Keeps.apart (requireAgentMapping_apart _ _)) (fun _ _ h => h) fun _ m hm => ?_
  rcases hm with rfl | ⟨rfl, _⟩
  · exact astray_answered _
  refine found_obeys (fun _ => .inl rfl) ?_ found
  refine .bind (Keeps.apart (requestedExecution_apart request)) (fun _ _ h => h) fun x m hm => ?_
  rcases hm with rfl | ⟨rfl, _⟩
  · exact astray_answered _
  have received : (newRequest operatorId x request (W.hashPayload (payload request))).status.Declined :=
    ⟨by simp [newRequest], by simp [newRequest]⟩
  refine .call_bind (fun _ ho hk => ⟨owns ho hk, rfl, received⟩) fun (inserted : Bool) => ?_
  have hnext : (keeping (W := W) o k own).next .pending
      (.write (.insertExternalRequest (newRequest operatorId x request (W.hashPayload (payload request))))) inserted =
      if operatorId = o ∧ request.externalRequestId = k then
        if Custody.pending = .pending ∧ inserted = true then .filed else .astray
      else .pending := rfl
  rw [hnext]
  cases inserted with
  | true =>
    refine Keeps.answered ((Keeps.apart (emitAudit_apart _ _ _)).bind fun _ _ =>
      invokeAndApply_keeps ⟨rfl, rfl, fun _ _ => received⟩ fun ho hk => ⟨owns ho hk, ?_⟩)
    exact fun action htool hsources => (hown ho hk).2 _ action htool hsources
  | false =>
    by_cases hk : operatorId = o ∧ request.externalRequestId = k
    · rw [if_pos hk]
      exact astray_answered _
    · rw [if_neg hk]
      exact found_obeys (fun _ => .inl rfl) trivial found

/-- Looking up the status of the request changes nothing while it is not waiting for an approval. -/
theorem getStatus_keeps (operatorId : Id) (key : String) :
    Keeps o k false .pending (getStatus operatorId key : Db W ActionStatusResponse) fun _ => True := by
  refine found_obeys (fun _ => .inl rfl) trivial fun row hrow _ => ?_
  change Keeps o k false .pending (if row.status = .waitingApproval then _ else _ : Db W ActionStatusResponse) _
  split
  · rename_i hwaiting
    exact (reconcileIfResolved_keeps hrow fun hk => (hrow.declined hk.1 hk.2).2 hwaiting).bind fun _ _ => .ret trivial
  · exact .ret trivial

end ExternalActionService

end SafeOps
