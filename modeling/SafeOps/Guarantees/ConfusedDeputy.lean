import SafeOps.Bench
import SafeOps.Guarantees.TerminalStatus
import SafeOps.Observers.Mandate

/-! No confused deputy: a submission enters the gateway only as an agent its operator is mapped to, and only
with the payload its external request was filed under. -/

namespace SafeOps
open Concurrent ExternalActionService Serial

variable {W : World} {ok : App W → Statement W → Prop} {c d : App W}

/-- The row as its submission filed it. -/
def ExternalActionRequest.filed (row : ExternalActionRequest) : ExternalActionRequest :=
  { row with
    status := .received
    toolRequestId := none
    approvalRequestId := none
    resultSummary := none
    errorCode := none
    completedAt := none }

@[simp] theorem ExternalActionUpdate.apply_filed (u : ExternalActionUpdate) (row : ExternalActionRequest) :
    (u.apply row).filed = row.filed := rfl

/-- The row of a request that operator `o` has submitted under `key`, for an execution of its agent. -/
structure Genuine (s : State W.Domain) (o : Id) (key : String) (row : ExternalActionRequest) : Prop where
  owner : s.owner row.executionId = some row.safeopsAgentId
  submitted : ∃ request : SubmitActionRequest, request.externalRequestId = key ∧
    row.filed = newRequest o row.executionId request (W.hashPayload (payload request))

/-- What the submissions have read is still so. -/
structure MandatesAgree (c : App W) : Prop where
  genuine : ∀ o key row, c.state.externalRequests o key = some row → Genuine c.state o key row
  executions : ∀ i o request, ∀ p ∈ (c.past (mandating o request) {} i).executions,
    c.state.owner p.1 = some p.2.agentId
  requests : ∀ i o request, ∀ row ∈ (c.past (mandating o request) {} i).requests,
    ∃ current, c.state.externalRequests o request.externalRequestId = some current ∧
      current.filed = row.filed

section Steps

variable {s s' : State W.Domain} {op : Op W.Tables} {r : op.Reply} {o : Id} {request : SubmitActionRequest}
  {m : Mandate}

theorem owner_kept (heff : Effect s op r s') (hids : s.Allocated) {x agentId : Id}
    (hx : s.owner x = some agentId) : s'.owner x = some agentId := by
  rcases heff.owner x with he | ⟨row, _, rfl, _⟩
  · rw [he, hx]
  · rw [State.owner, hids _ (Nat.le_refl _)] at hx
    cases hx

theorem filed_kept (heff : Effect s op r s') {key : String} {row : ExternalActionRequest}
    (hrow : s.externalRequests o key = some row) :
    ∃ current, s'.externalRequests o key = some current ∧ current.filed = row.filed := by
  rcases heff.externalRequests o key with he | ⟨_, _, _, _, hfree, _⟩ | ⟨u, _, he⟩
  · exact ⟨row, he.trans hrow, rfl⟩
  · rw [hfree] at hrow
    cases hrow
  · exact ⟨u.apply row, by rw [he, hrow]; rfl, rfl⟩

/-- An execution that a submission learns of is on file with its agent. -/
theorem learned_execution (heff : Effect s op r s') {p : Id × Execution}
    (hp : p ∈ ((mandating o request).next m op r).executions) :
    p ∈ m.executions ∨ s'.owner p.1 = some p.2.agentId := by
  rcases op with q | w | _ | _
  · cases q with
    | execution x =>
      obtain ⟨rfl, rfl⟩ := heff.of_query
      rcases List.mem_append.1 hp with hp | hp
      · obtain ⟨row, hrow, rfl⟩ := Option.map_eq_some_iff.1 (Option.mem_toList.1 hp)
        exact .inr (by rw [State.owner, show s'.executions x = some row from hrow]; rfl)
      · exact .inl hp
    | mapping | externalRequest =>
      simp only [mandating] at hp
      split at hp <;> exact .inl hp
    | _ => exact .inl hp
  · cases w with
    | insertExecution row =>
      cases heff with
      | idle h => cases h
      | commit _ hc => cases hc
      | insertExecution row =>
        rcases List.mem_cons.1 hp with rfl | hp
        · exact .inr (by simp [State.owner])
        · exact .inl hp
    | insertExternalRequest row =>
      simp only [mandating] at hp
      split at hp <;> exact .inl hp
    | _ => exact .inl hp
  · exact .inl hp
  · exact .inl hp

/-- A request that a submission learns of is on file. -/
theorem learned_request (heff : Effect s op r s') {row : ExternalActionRequest}
    (hrow : row ∈ ((mandating o request).next m op r).requests) :
    row ∈ m.requests ∨ s'.externalRequests o request.externalRequestId = some row := by
  rcases op with q | w | _ | _
  · cases q with
    | externalRequest o' key =>
      obtain ⟨rfl, rfl⟩ := heff.of_query
      simp only [mandating] at hrow
      split at hrow
      · rename_i hkey
        obtain ⟨rfl, rfl⟩ := hkey
        rcases List.mem_append.1 hrow with hrow | hrow
        · exact .inr (Option.mem_toList.1 hrow)
        · exact .inl hrow
      · exact .inl hrow
    | mapping =>
      simp only [mandating] at hrow
      split at hrow <;> exact .inl hrow
    | _ => exact .inl hrow
  · cases w with
    | insertExternalRequest inserted =>
      simp only [mandating] at hrow
      split at hrow
      · rename_i hkey
        obtain ⟨hin, rfl, hk⟩ := hkey
        rcases List.mem_cons.1 hrow with rfl | hrow
        · cases heff with
          | idle h => cases h; cases hin
          | commit _ hc => cases hc
          | insertExternalRequest row hfree =>
            exact .inr (by simp [State.insertExternalRequest, hfree, ← hk])
        · exact .inl hrow
      · exact .inl hrow
    | _ => exact .inl hrow
  · exact .inl hrow
  · exact .inl hrow

theorem Genuine.kept {key : String} {row current : ExternalActionRequest} (h : Genuine s o key row)
    (howner : ∀ x agentId, s.owner x = some agentId → s'.owner x = some agentId)
    (hc : current.filed = row.filed) : Genuine s' o key current := by
  have hx : current.executionId = row.executionId := congrArg (·.executionId) hc
  have ha : current.safeopsAgentId = row.safeopsAgentId := congrArg (·.safeopsAgentId) hc
  obtain ⟨request, hkey, hfiled⟩ := h.submitted
  exact ⟨by rw [hx, ha]; exact howner _ _ h.owner, request, hkey, by rw [hc, hx, hfiled]⟩

end Steps

namespace MandatesAgree

variable {i : Nat} {call : Call} {op : Op W.Tables} {k : op.Reply → Db W CallResult} {r : op.Reply}
  {s : State W.Domain}

/-- A row that is inserted is that of the submission. -/
theorem inserted (h : MandatesAgree d) (hok : (call.mandate : Monitor W.statements Mandate).ok
      (d.past call.mandate {} i) op) {row : ExternalActionRequest} (hop : op = .write (.insertExternalRequest row)) :
    Genuine d.state row.operatorId row.externalRequestId row := by
  subst hop
  cases call with
  | submit o request =>
    obtain ⟨x, execution, hx, ha, rfl⟩ := hok
    exact ⟨(h.executions i o request _ hx).trans (congrArg some ha), request, rfl, rfl⟩
  | _ => exact hok.elim

theorem next (h : MandatesAgree d) (hids : d.state.Allocated)
    (hok : (call.mandate : Monitor W.statements Mandate).ok (d.past call.mandate {} i) op)
    (heff : Effect d.state op r s) : MandatesAgree (App.next d i call op k r s) where
  genuine o key row hrow := by
    rw [App.next_state] at hrow ⊢
    have howner x agentId : d.state.owner x = some agentId → s.owner x = some agentId := owner_kept heff hids
    rcases heff.externalRequests o key with he | ⟨new, hop, rfl, rfl, _, he⟩ | ⟨u, _, he⟩
    · exact (h.genuine o key row (he ▸ hrow)).kept howner rfl
    · obtain rfl : new = row := Option.some.inj (he.symm.trans hrow)
      exact (h.inserted hok hop).kept howner rfl
    · obtain ⟨old, hold, rfl⟩ := Option.map_eq_some_iff.1 (he.symm.trans hrow)
      exact (h.genuine o key old hold).kept howner rfl
  executions j o request p hp := by
    rw [App.next_state]
    rw [App.next_past] at hp
    split at hp
    · rcases learned_execution heff hp with hp | hp
      · exact owner_kept heff hids (h.executions j o request p hp)
      · exact hp
    · exact owner_kept heff hids (h.executions j o request p hp)
  requests j o request row hrow := by
    have kept (hrow : row ∈ (d.past (mandating o request) {} j).requests) :
        ∃ current, s.externalRequests o request.externalRequestId = some current ∧
          current.filed = row.filed := by
      obtain ⟨old, hold, hf⟩ := h.requests j o request row hrow
      obtain ⟨current, hcurrent, hf'⟩ := filed_kept heff hold
      exact ⟨current, hcurrent, hf'.trans hf⟩
    rw [App.next_state]
    rw [App.next_past] at hrow
    split at hrow
    · rcases learned_request heff hrow with hrow | hrow
      · exact kept hrow
      · exact ⟨row, hrow, rfl⟩
    · exact kept hrow

end MandatesAgree

theorem ReachableWithin.mandatesAgree (h : ReachableWithin ok c) : MandatesAgree c := by
  refine h.invariant (I := MandatesAgree) (fun s hs => ⟨?_, ?_, ?_⟩) (fun _ _ h => ⟨h.1, h.2, h.3⟩) ?_ ?_
  · intro o key row hrow
    rw [App.start_state, hs.externalRequests] at hrow
    cases hrow
  · simp
  · simp
  · intro d change h
    have howner x : (change.apply d.state).owner x = d.state.owner x := by
      simp only [State.owner, Change.apply_executions]
    refine ⟨fun o key row hrow => ?_, fun i o request p hp => ?_, fun i o request row hrow => ?_⟩
    · rw [App.disturb_state, change.apply_externalRequests] at hrow
      exact (h.genuine o key row hrow).kept (fun x _ hx => (howner x).trans hx) rfl
    · exact (howner _).trans (h.executions i o request p hp)
    · rw [App.disturb_state, change.apply_externalRequests]
      exact h.requests i o request row hrow
  · intro d i call op k r s hd hw _ _ heff h
    exact h.next hd.allocated ((hd.monitoredBy Call.code_mandated).allowed hw) heff

theorem mandating_learns {o : Id} {request : SubmitActionRequest} {m : Mandate} {e : Statement W}
    (h : ((mandating o request).next m e.op e.reply).mapped = true) :
    m.mapped = true ∨ e = ⟨e.thread, .query (.mapping o request.safeopsAgentId), true⟩ := by
  obtain ⟨i, op, r⟩ := e
  rcases op with q | w | _ | _
  · cases q with
    | mapping o' agentId =>
      simp only [mandating] at h
      split at h
      · rename_i hm
        obtain ⟨rfl, rfl, rfl⟩ := hm
        exact .inr rfl
      · exact .inl h
    | externalRequest =>
      simp only [mandating] at h
      split at h <;> exact .inl h
    | _ => exact .inl h
  · cases w with
    | insertExternalRequest =>
      simp only [mandating] at h
      split at h <;> exact .inl h
    | _ => exact .inl h
  · exact .inl h
  · exact .inl h

/-- A submission that counts itself mapped has been told so. -/
theorem mandating_mapped {o : Id} {request : SubmitActionRequest} {i : Nat} {history : List (Statement W)}
    (h : ((mandating o request).after {} i history).mapped = true) :
    ⟨i, .query (.mapping o request.safeopsAgentId), true⟩ ∈ history := by
  induction history with
  | nil => cases h
  | cons e history ih =>
    by_cases hi : e.thread = i
    · subst hi
      rw [Monitor.after_self] at h
      rcases mandating_learns h with h | he
      · exact List.mem_cons_of_mem e (ih h)
      · exact he ▸ List.mem_cons_self ..
    · rw [Monitor.after_other hi] at h
      exact List.mem_cons_of_mem e (ih h)

/-- The operator was mapped to the agent when thread `i`, submitting `request`, asked. -/
def MappedWhenAsked (c : App W) (i : Nat) (o : Id) (request : SubmitActionRequest) : Prop :=
  ∃ (b : App W) (k : Bool → Db W CallResult), Reachable b ∧ Run W.system b c ∧
    b.threads[i]? = some ⟨.submit o request, .request (.query (.mapping o request.safeopsAgentId)) k⟩ ∧
    b.state.directory.mappings o request.safeopsAgentId = true

theorem ReachableWithin.mappedWhenAsked (h : ReachableWithin ok c) {i : Nat} {o : Id}
    {request : SubmitActionRequest} {p : Db W CallResult} (hw : c.threads[i]? = some ⟨.submit o request, p⟩)
    (hm : (c.past (mandating o request) {} i).mapped = true) : MappedWhenAsked c i o request := by
  obtain ⟨b, t, k, hb, hbc, ht, hbw, hr⟩ := h.answered (mandating_mapped hm)
  obtain rfl := Option.some.inj (ht.symm.trans hw)
  exact ⟨b, k, hb.reachable, hbc.run, hbw, hr.symm⟩

/-- The external request on file under the operator's key is the one the gateway call is made for, and
every payload with the hash it stores names the tool, the agent and the arguments of the call. -/
def OnFile (s : State W.Domain) (o : Id) (request : SubmitActionRequest) (call : GatewayCall) : Prop :=
  ∃ row, s.externalRequests o request.externalRequestId = some row ∧
    row.executionId = call.executionId ∧ row.safeopsAgentId = call.agentId ∧ row.toolName = call.toolName ∧
    row.payloadHash = W.hashPayload (payload request) ∧
    ∀ p : ActionPayload, W.hashPayload p = row.payloadHash →
      p.toolName = call.toolName ∧ p.safeopsAgentId = call.agentId ∧
        p.arguments.canonical = call.arguments.canonical

/-- No confused deputy: a submission that is about to enter the gateway does so as the agent it names, to
which its operator was mapped when it asked, for an execution of that agent, with the arguments it was
given and as the external request on file says. -/
theorem no_confused_deputy (hsha : Function.Injective W.sha256) (hrepr : FloatText W.reprFloat)
    (h : Reachable c) {i : Nat} {o : Id} {request : SubmitActionRequest} {call : GatewayCall}
    {k : Unit → Db W CallResult}
    (hw : c.threads[i]? = some ⟨.submit o request, .request (.note (.gatewayEnter call)) k⟩) :
    call.agentId = request.safeopsAgentId ∧ call.arguments = request.arguments ∧
      MappedWhenAsked c i o request ∧ c.state.owner call.executionId = some call.agentId ∧
      OnFile c.state o request call := by
  have agree := h.mandatesAgree
  have covers : (c.past (mandating o request) {} i).Covers request (W.hashPayload (payload request)) call :=
    (h.monitoredBy Call.code_mandated).allowed hw
  obtain ⟨execution, hexecution, hagent⟩ := covers.execution
  obtain ⟨row, hrow, hhash, hx, htool⟩ := covers.request
  obtain ⟨current, hcurrent, hfiled⟩ := agree.requests i o request row hrow
  have genuine := agree.genuine o _ current hcurrent
  obtain ⟨first, _, hfirst⟩ := genuine.submitted
  have owner : c.state.owner call.executionId = some call.agentId :=
    (agree.executions i o request _ hexecution).trans (congrArg some hagent)
  have hcx : current.executionId = call.executionId := (congrArg (·.executionId) hfiled).trans hx
  have hca : current.safeopsAgentId = call.agentId :=
    Option.some.inj (genuine.owner.symm.trans (hcx ▸ owner))
  have hct : current.toolName = call.toolName := (congrArg (·.toolName) hfiled).trans htool
  have hch : current.payloadHash = W.hashPayload (payload request) :=
    (congrArg (·.payloadHash) hfiled).trans hhash
  -- the payloads of the first submission and of this one have one hash, so they are the same
  have same {p : ActionPayload} (hp : W.hashPayload p = W.hashPayload (payload request)) :
      p.Same (payload request) := ActionPayload.same_of_hash hsha hrepr hp
  have filed : (payload first).Same (payload request) :=
    same ((congrArg (·.payloadHash) hfirst).symm.trans hch)
  have ha : call.agentId = request.safeopsAgentId :=
    hca.symm.trans ((congrArg (·.safeopsAgentId) hfirst).trans filed.safeopsAgentId)
  have ht : call.toolName = request.toolName :=
    hct.symm.trans ((congrArg (·.toolName) hfirst).trans filed.toolName)
  refine ⟨ha, covers.arguments, h.mappedWhenAsked hw covers.mapped, owner, current, hcurrent, hcx, hca, hct,
    hch, fun p hp => ?_⟩
  have hsame := same (hp.trans hch)
  exact ⟨hsame.toolName.trans ht.symm, hsame.safeopsAgentId.trans ha.symm,
    hsame.arguments.trans (congrArg Value.canonical covers.arguments.symm)⟩

/-- Operator 7 asks for a refund on behalf of agent 3. -/
def refundRequest : SubmitActionRequest where
  externalRequestId := "r-1"
  safeopsAgentId := 3
  toolName := "refund_payment"
  arguments := .dict [("payment_id", .str "p-1")]

/-- The canonical text of that request. -/
def refundText : String :=
  "\x7b\"arguments\":\x7b\"payment_id\":\"p-1\"\x7d,\"execution_id\":null,\"objective\":null," ++
    "\"safeops_agent_id\":\"3\",\"sources\":[],\"tool_name\":\"refund_payment\"\x7d"

/-- The installation with the SHA-256 digest of that text, and stand-ins for all others. -/
def digesting : World :=
  { bench with
    sha256 := fun text =>
      if text = refundText then "3512dadf353bb394416e15832ba0566513798ebff685c5466968a4671c193d09"
      else "#" ++ text }

theorem digesting_injective : Function.Injective digesting.sha256 := by
  intro s t h
  simp only [digesting] at h
  split at h <;> split at h
  · simp_all
  · exact absurd (congrArg (·.toList.head?) h) (by simp)
  · exact absurd (congrArg (·.toList.head?) h) (by simp)
  · exact String.toList_inj.1 (by simpa using congrArg String.toList h)

/-- Thread 0 has filed the request when thread 1 submits it again, and comes to the gateway first. -/
def retriedMoves : List (Move Call Change) :=
  arrival (.submit 7 refundRequest) 0 11 ++ arrival (.submit 7 refundRequest) 1 15

theorem no_confused_deputy_retried :
    let c := (Config.start (State.bench .allow) : App digesting).replay digesting.system retriedMoves
    MappedWhenAsked c 1 7 refundRequest ∧ c.state.owner 0 = some 3 ∧
      OnFile c.state 7 refundRequest ⟨3, 0, "refund_payment", refundRequest.arguments⟩ := by
  intro c
  set_option maxRecDepth 40000 in
  have entering : ∃ k, c.threads[1]? = some ⟨.submit 7 refundRequest,
      .request (.note (.gatewayEnter ⟨3, 0, "refund_payment", refundRequest.arguments⟩)) k⟩ := ⟨_, rfl⟩
  obtain ⟨k, hw⟩ := entering
  exact (no_confused_deputy digesting_injective bench_floatText
    (replay_reachable (State.bench_fresh .allow) retriedMoves) hw).2.2

end SafeOps
