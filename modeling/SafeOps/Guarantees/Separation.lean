import SafeOps.Guarantees.OneApproval
import SafeOps.Guarantees.OneExecution
import SafeOps.Observers.Subjects

/-! Executions are kept apart: what is on file about one of them changes only by calls that are about it. -/

namespace SafeOps
open Concurrent Program

variable {W : World} {ok : App W → Statement W → Prop} {c d : App W} {x : Id}

section Deciding

/-- The approval that a statement decides, settles or lets expire is the one the call is for. -/
def Deciding (call : Call) : Op W.Tables → Prop
  | .write (.claimApproval a _ _ _) | .write (.expireApproval a _) => call.subjects.approval = some a
  | .write (.commit _ t) => ∀ a now, t.approval = some (.executed a now) → call.subjects.approval = some a
  | _ => True

/-- The chunks that are not of the resolution of an approval settle none. -/
theorem RuntimeTxn.deciding {call : Call} {y : Id} {seq : Nat} {t : Txn} (h : RuntimeTxn y seq t) (attempt : Attempt) :
    Deciding call (.write (.commit attempt t) : Op W.Tables) := by
  intro a now ht
  rw [h.approval] at ht
  cases ht

theorem Call.chunks_deciding (call : Call) {y : Id} {seq : Nat} {rows : Rows W} (h : call.Chunks y seq rows) :
    rows.Within (fun t => ∀ attempt, Deciding call (.write (.commit attempt t) : Op W.Tables))
      fun g t => ∀ attempt, Deciding call (.write (.commitIf attempt g t) : Op W.Tables) := by
  have runtime {rows : Rows W} (h : RuntimeChunk y seq rows) :
      rows.Within (fun t => ∀ attempt, Deciding call (.write (.commit attempt t) : Op W.Tables))
        fun g t => ∀ attempt, Deciding call (.write (.commitIf attempt g t) : Op W.Tables) :=
    h.within.mono (fun _ ht attempt => ht.deciding attempt) fun _ _ _ _ => trivial
  have approval {b : Id} (hb : call.subjects.approval = some b) {rows : Rows W} (h : ApprovalChunk b y seq rows) :
      rows.Within (fun t => ∀ attempt, Deciding call (.write (.commit attempt t) : Op W.Tables))
        fun g t => ∀ attempt, Deciding call (.write (.commitIf attempt g t) : Op W.Tables) := by
    cases h with
    | routine h _ => exact fun attempt => RuntimeTxn.deciding (.routine h) attempt
    | resolution _ h =>
      intro attempt a now ht
      cases h with
      | expiry => cases ht
      | rejection => cases ht
      | outcome =>
        obtain ⟨rfl, _⟩ := ApprovalWrite.executed.inj (Option.some.inj ht)
        exact hb
  cases call with
  | approve a operator => exact approval rfl h
  | reject a operator reason => exact approval rfl h
  | cancel y =>
    cases h
    intro attempt a now ht
    cases ht
  | _ => exact runtime h

theorem Call.issues_deciding (call : Call) {o : Op W.Tables} (h : call.Issues o) : Deciding call o := by
  rcases o with _ | w | _ | _
  · trivial
  · cases w with
    | claimApproval a status now by' =>
      cases call with
      | approve | reject => exact congrArg some h.1.symm
      | _ => exact h.elim
    | expireApproval a now =>
      cases call with
      | approve | reject => exact congrArg some (show _ = _ from h).symm
      | _ => exact h.elim
    | commit => cases call <;> exact h.elim
    | _ => trivial
  · trivial
  · trivial

/-- A call decides no approval but the one it is for. -/
theorem Call.code_deciding (call : Call) : (call.code : Db W CallResult).Uses (Deciding call) :=
  pieces_use call.code_assembled (fun _ => call.issues_deciding) (fun _ => trivial)
    (fun _ _ _ => call.chunks_deciding) fun _ gc context =>
      (ToolGateway.execute_built gc context).uses (fun o ho => by
        rcases o with _ | (_ | _) | _ | _ <;> first | exact ho.elim | trivial) (fun _ => trivial)
        fun _ _ _ h => h.within.mono (fun _ ht attempt => ht.deciding attempt) fun _ _ _ _ => trivial

end Deciding

/-- The call is about execution `x`: it names it, or decides an approval or goes by an external request of it. -/
def Call.Concerns (s : State W.Domain) (x : Id) : Call → Prop
  | gateway call _ => call.executionId = x
  | approve a _ | reject a _ _ => ∃ row ∈ s.approvals a, row.executionId = x
  | startExecution _ _ _ => False
  | step y | resume y | cancel y | submitExternalAction y _ | reconcileExternalStep y => y = x
  | submit operatorId submitted => submitted.executionId = some x ∨
      ∃ row ∈ s.externalRequests operatorId submitted.externalRequestId, row.executionId = x
  | getStatus operatorId key => ∃ row ∈ s.externalRequests operatorId key, row.executionId = x

instance (s : State W.Domain) (x : Id) : (call : Call) → Decidable (call.Concerns s x)
  | .gateway _ _ => inferInstanceAs (Decidable (_ = _))
  | .approve _ _ => inferInstanceAs (Decidable (∃ row ∈ _, _))
  | .reject _ _ _ => inferInstanceAs (Decidable (∃ row ∈ _, _))
  | .startExecution _ _ _ => inferInstanceAs (Decidable False)
  | .step _ => inferInstanceAs (Decidable (_ = _))
  | .resume _ => inferInstanceAs (Decidable (_ = _))
  | .cancel _ => inferInstanceAs (Decidable (_ = _))
  | .submitExternalAction _ _ => inferInstanceAs (Decidable (_ = _))
  | .reconcileExternalStep _ => inferInstanceAs (Decidable (_ = _))
  | .submit _ _ => inferInstanceAs (Decidable (_ ∨ _))
  | .getStatus _ _ => inferInstanceAs (Decidable (∃ row ∈ _, _))

/-- Thread `i` has created execution `x`. -/
def Creates (history : List (Statement W)) (i : Nat) (x : Id) : Prop :=
  ∃ e ∈ history, e.thread = i ∧ createdExecution e = some x

instance (history : List (Statement W)) (i : Nat) (x : Id) : Decidable (Creates history i x) :=
  inferInstanceAs (Decidable (∃ e ∈ history, _ ∧ _))

section Explained

/-- Every execution that a call has come to be about is one that concerns it, or that it has created. -/
structure SubjectsExplained (c : App W) : Prop where
  numbered : c.Numbered
  keyed : ∀ operatorId key row, c.state.externalRequests operatorId key = some row →
    row.operatorId = operatorId ∧ row.externalRequestId = key
  requests : ∀ i (call : Call) p, p ∈ (c.past concerning call.subjects i).requests → p ∈ call.subjects.requests
  executions : ∀ i (call : Call) x, x ∈ (c.past concerning call.subjects i).executions →
    call.Concerns c.state x ∨ Creates c.history i x
  entered : ∀ i t f, c.threads[i]? = some t → c.past framing none i = some f →
    f.call.executionId ∈ (c.past concerning t.call.subjects i).executions

theorem Creates.cons {history : List (Statement W)} {i : Nat} (h : Creates history i x) (e : Statement W) :
    Creates (e :: history) i x := by
  obtain ⟨e', he', h⟩ := h
  exact ⟨e', List.mem_cons_of_mem _ he', h⟩

/-- A call goes on being about an execution. -/
theorem Call.Concerns.next {s s' : State W.Domain} {o : Op W.Tables} {r : o.Reply} (heff : Effect s o r s')
    {call : Call} (h : call.Concerns s x) : call.Concerns s' x := by
  have approval {a : Id} (h : ∃ row ∈ s.approvals a, row.executionId = x) :
      ∃ row ∈ s'.approvals a, row.executionId = x := by
    obtain ⟨row, hrow, hx⟩ := h
    obtain ⟨row', hrow', hasked⟩ := heff.asked hrow
    exact ⟨row', hrow', (congrArg (·.executionId) hasked).trans hx⟩
  have request {operatorId : Id} {key : String}
      (h : ∃ row ∈ s.externalRequests operatorId key, row.executionId = x) :
      ∃ row ∈ s'.externalRequests operatorId key, row.executionId = x := by
    obtain ⟨row, hrow, hx⟩ := h
    rcases heff.externalRequests operatorId key with he | ⟨_, _, _, _, hnone, _⟩ | ⟨u, _, he⟩
    · exact ⟨row, he.trans hrow, hx⟩
    · cases hnone.symm.trans hrow
    · exact ⟨u.apply row, by rw [he, show s.externalRequests operatorId key = some row from hrow]; rfl, hx⟩
  cases call with
  | approve | reject => exact approval h
  | submit operatorId submitted => exact h.imp_right request
  | getStatus operatorId key => exact request h
  | _ => exact h

/-- What the answer to a statement adds to the subjects of a call. -/
theorem concerning_added {m : Subjects} {o : Op W.Tables} {r : o.Reply} {s s' : State W.Domain}
    (heff : Effect s o r s') :
    (∀ x ∈ (concerning.next m o r).executions, x ∈ m.executions ∨
      (∃ a row, m.approval = some a ∧ s.approvals a = some row ∧ row.executionId = x) ∨
      (∃ operatorId key row, (operatorId, key) ∈ m.requests ∧ s.externalRequests operatorId key = some row ∧
        row.executionId = x) ∨ ∀ i, createdExecution (⟨i, o, r⟩ : Statement W) = some x) ∧
    ∀ p ∈ (concerning.next m o r).requests, p ∈ m.requests ∨ ∃ operatorId key row, (operatorId, key) ∈ m.requests ∧
      s.externalRequests operatorId key = some row ∧ p = (row.operatorId, row.externalRequestId) := by
  rcases o with q | w | _ | _
  · obtain ⟨rfl, rfl⟩ := heff.of_query
    cases q with
    | approval a =>
      simp only [concerning]
      split
      · rename_i ha
        refine ⟨fun x hx => ?_, fun _ hp => .inl hp⟩
        rcases List.mem_append.1 hx with hx | hx
        · obtain ⟨row, hrow, hx⟩ := Option.map_eq_some_iff.1 (Option.mem_toList.1 hx)
          exact .inr (.inl ⟨a, row, ha, hrow, hx⟩)
        · exact .inl hx
      · exact ⟨fun _ hx => .inl hx, fun _ hp => .inl hp⟩
    | externalRequest operatorId key =>
      simp only [concerning]
      split
      · rename_i hkey
        refine ⟨fun x hx => ?_, fun p hp => ?_⟩
        · rcases List.mem_append.1 hx with hx | hx
          · obtain ⟨row, hrow, hx⟩ := Option.map_eq_some_iff.1 (Option.mem_toList.1 hx)
            exact .inr (.inr (.inl ⟨operatorId, key, row, hkey, hrow, hx⟩))
          · exact .inl hx
        · rcases List.mem_append.1 hp with hp | hp
          · obtain ⟨row, hrow, hp⟩ := Option.map_eq_some_iff.1 (Option.mem_toList.1 hp)
            exact .inr ⟨operatorId, key, row, hkey, hrow, hp.symm⟩
          · exact .inl hp
      · exact ⟨fun _ hx => .inl hx, fun _ hp => .inl hp⟩
    | _ => exact ⟨fun _ hx => .inl hx, fun _ hp => .inl hp⟩
  · cases w with
    | insertExecution row =>
      refine ⟨fun x hx => ?_, fun _ hp => .inl hp⟩
      rcases List.mem_cons.1 hx with rfl | hx
      · exact .inr (.inr (.inr fun _ => rfl))
      · exact .inl hx
    | _ => exact ⟨fun _ hx => .inl hx, fun _ hp => .inl hp⟩
  · exact ⟨fun _ hx => .inl hx, fun _ hp => .inl hp⟩
  · exact ⟨fun _ hx => .inl hx, fun _ hp => .inl hp⟩

theorem concerning_approval (m : Subjects) (i : Nat) (history : List (Statement W)) :
    (concerning.after m i history).approval = m.approval := by
  induction history with
  | nil => rfl
  | cons e history ih =>
    unfold Monitor.after
    split
    · exact (concerning_since _ e.op e.reply).approval.trans ih
    · exact ih

/-- What concerns a call, found by the approval it is for. -/
theorem Call.concerns_approval {call : Call} {a : Id} (ha : call.subjects.approval = some a) {s : State W.Domain}
    {row : ApprovalRequest} (hrow : s.approvals a = some row) : call.Concerns s row.executionId := by
  cases call with
  | approve b | reject b =>
    obtain rfl : b = a := Option.some.inj ha
    exact ⟨row, hrow, rfl⟩
  | _ => cases ha

/-- What concerns a call, found by a request it goes by. -/
theorem Call.concerns_request {call : Call} {operatorId : Id} {key : String}
    (hp : (operatorId, key) ∈ call.subjects.requests) {s : State W.Domain} {row : ExternalActionRequest}
    (hrow : s.externalRequests operatorId key = some row) : call.Concerns s row.executionId := by
  cases call with
  | submit o submitted =>
    obtain ⟨rfl, rfl⟩ := Prod.mk.inj (List.mem_singleton.1 hp)
    exact .inr ⟨row, hrow, rfl⟩
  | getStatus o k =>
    obtain ⟨rfl, rfl⟩ := Prod.mk.inj (List.mem_singleton.1 hp)
    exact ⟨row, hrow, rfl⟩
  | _ => cases hp

theorem Call.concerns_named {call : Call} (hx : x ∈ call.subjects.executions) (s : State W.Domain) :
    call.Concerns s x := by
  cases call with
  | gateway | step | resume | cancel | submitExternalAction | reconcileExternalStep =>
    exact (List.mem_singleton.1 hx).symm
  | submit o submitted => exact .inl (Option.mem_toList.1 hx)
  | _ => cases hx

namespace SubjectsExplained

variable {i : Nat} {call : Call} {o : Op W.Tables} {k : o.Reply → Db W CallResult} {r : o.Reply}
  {s : State W.Domain}

theorem keyed_next (h : SubjectsExplained d) (heff : Effect d.state o r s) {operatorId : Id} {key : String}
    {row : ExternalActionRequest} (hrow : s.externalRequests operatorId key = some row) :
    row.operatorId = operatorId ∧ row.externalRequestId = key := by
  rcases heff.externalRequests operatorId key with he | ⟨row', _, ho, hk, _, he⟩ | ⟨u, _, he⟩
  · exact h.keyed _ _ row (he.symm.trans hrow)
  · obtain rfl := Option.some.inj (he.symm.trans hrow)
    exact ⟨ho, hk⟩
  · obtain ⟨row', hrow', rfl⟩ := Option.map_eq_some_iff.1 (he.symm.trans hrow)
    exact h.keyed _ _ row' hrow'

theorem requests_next (h : SubjectsExplained d) (heff : Effect d.state o r s) (j : Nat) (call' : Call)
    (p : Id × String) (hp : p ∈ ((App.next d i call o k r s).past concerning call'.subjects j).requests) :
    p ∈ call'.subjects.requests := by
  rw [App.next_past] at hp
  split at hp
  · rename_i hij
    subst hij
    rcases (concerning_added heff).2 p hp with hp | ⟨operatorId, key, row, hkey, hrow, rfl⟩
    · exact h.requests i call' p hp
    · obtain ⟨ho, hk⟩ := h.keyed _ _ row hrow
      rw [ho, hk]
      exact h.requests i call' _ hkey
  · exact h.requests j call' p hp

theorem executions_next (h : SubjectsExplained d) (heff : Effect d.state o r s) (j : Nat) (call' : Call) (x : Id)
    (hx : x ∈ ((App.next d i call o k r s).past concerning call'.subjects j).executions) :
    call'.Concerns s x ∨ Creates (App.next d i call o k r s).history j x := by
  have older (hx : call'.Concerns d.state x ∨ Creates d.history j x) :
      call'.Concerns s x ∨ Creates (App.next d i call o k r s).history j x :=
    hx.imp (fun h => h.next heff) fun h => h.cons _
  rw [App.next_past] at hx
  split at hx
  · rename_i hij
    subst hij
    rcases (concerning_added heff).1 x hx with hx | ⟨a, row, ha, hrow, rfl⟩ | ⟨operatorId, key, row, hp, hrow, rfl⟩ | hx
    · exact older (h.executions i call' x hx)
    · rw [Config.past, concerning_approval] at ha
      exact older (.inl (Call.concerns_approval ha hrow))
    · exact older (.inl (Call.concerns_request (h.requests i call' _ hp) hrow))
    · exact .inr ⟨_, List.mem_cons_self, rfl, hx i⟩
  · exact older (h.executions j call' x hx)

theorem entered_next (h : SubjectsExplained d) (hw : d.threads[i]? = some ⟨call, .request o k⟩)
    (hok : concerning.ok (d.past concerning call.subjects i) o) {j : Nat} {t : Thread W.statements Failure CallResult Call}
    {f : Frame} (ht : (App.next d i call o k r s).threads[j]? = some t)
    (hf : (App.next d i call o k r s).past framing none j = some f) :
    f.call.executionId ∈ ((App.next d i call o k r s).past concerning t.call.subjects j).executions := by
  rw [App.next_past] at hf ⊢
  split at hf
  · rename_i hij
    subst hij
    obtain rfl : t = ⟨call, k r⟩ := by
      have hi := (List.getElem?_eq_some_iff.1 hw).1
      simpa [App.next, hi] using ht.symm
    have since := concerning_since (d.past concerning call.subjects i) o r
    rw [if_pos rfl]
    have kept {f' : Frame} (h' : (d.past framing none i).map (·.observe o r) = some f') :
        f'.call.executionId ∈ (concerning.next (d.past concerning call.subjects i) o r).executions := by
      obtain ⟨f₀, hf₀, rfl⟩ := Option.map_eq_some_iff.1 h'
      rw [f₀.observe_call o r]
      exact since.executions (h.entered i _ f₀ hw hf₀)
    rcases o with _ | _ | n | _
    · exact kept hf
    · exact kept hf
    · cases n with
      | gatewayEnter gc =>
        obtain rfl := Option.some.inj hf
        exact since.executions hok
      | gatewayReturn | gatewayRaise => cases hf
      | _ => exact kept hf
    · exact kept hf
  · rename_i hij
    rw [if_neg hij]
    refine h.entered j t f ?_ hf
    rwa [App.next_threads, List.getElem?_set_ne hij] at ht

end SubjectsExplained

theorem ReachableWithin.subjectsExplained (h : ReachableWithin ok c) : SubjectsExplained c := by
  refine h.invariant ?_ ?_ ?_ ?_
  · intro s hs
    refine ⟨by simp [Config.Numbered, Config.start], fun operatorId key row hrow => ?_, fun i call p hp => hp,
      fun i call x hx => .inl (Call.concerns_named hx s), fun i t f ht => ?_⟩
    · simp [hs.externalRequests] at hrow
    · simp [Config.start] at ht
  · intro d call h
    refine ⟨fun e he => ?_, h.keyed, h.requests, h.executions, fun i t f ht hf => ?_⟩
    · rw [Config.spawn, List.length_append]
      exact Nat.lt_add_right _ (h.numbered e he)
    · rw [Config.spawn, List.getElem?_append] at ht
      split at ht
      · exact h.entered i t f ht hf
      · -- the new call has not done anything yet
        have unseen : d.past framing none i = none :=
          Monitor.after_unseen fun e he => by have := h.numbered e he; omega
        cases unseen.symm.trans hf
  · intro d change h
    refine ⟨h.numbered, by simpa using h.keyed, h.requests, fun i call x hx => ?_, h.entered⟩
    refine (h.executions i call x hx).imp_left fun hx => ?_
    cases call <;> simp only [Call.Concerns, App.disturb_state, Change.apply_approvals,
      Change.apply_externalRequests] at hx ⊢ <;> exact hx
  · intro d i call o k r s hd hw hi _ heff h
    have hok := (hd.monitoredBy (M := fun _ => concerning) Call.code_concerning).allowed hw
    refine ⟨fun e he => ?_, fun _ _ _ hrow => h.keyed_next heff hrow, h.requests_next heff, h.executions_next heff,
      fun j t f ht hf => h.entered_next hw hok ht hf⟩
    rw [App.next_threads, List.length_set]
    rcases List.mem_cons.1 he with rfl | he
    · exact (List.getElem?_eq_some_iff.1 hw).1
    · exact h.numbered e he

end Explained

/-- What is on file about an execution. -/
structure Dossier where
  execution : Option Execution
  steps : List ExecutionStep
  toolRequests : Id → Option ToolRequest
  approvals : Id → Option ApprovalRequest
  audit : List AuditEvent

def State.dossier {D : Type} (s : State D) (x : Id) : Dossier where
  execution := s.executions x
  steps := s.steps x
  toolRequests q := (s.toolRequests q).filter (·.executionId = x)
  approvals a := (s.approvals a).filter (·.executionId = x)
  audit := s.audit x

section Kept

variable {m : Subjects} {i : Nat} {o : Op W.Tables} {r : o.Reply} {s s' : State W.Domain}

/-- The row of an execution is written by calls that are about it, but for its creation. -/
theorem Effect.execution_apart (heff : Effect s o r s') (hok : concerning.ok m o) (hx : x ∉ m.executions)
    (hnew : createdExecution (⟨i, o, r⟩ : Statement W) ≠ some x) : s'.executions x = s.executions x := by
  have other {y : Id} (hy : y ∈ m.executions) : x ≠ y := fun he => hx (he ▸ hy)
  cases heff with
  | idle | tool | freshId | expireApproval | claimApproval | insertStep | saveStep | updateExternalRequest => rfl
  | insertExternalRequest row =>
    unfold State.insertExternalRequest
    split <;> rfl
  | insertExecution row =>
    have hne : x ≠ s.nextId := fun he => hnew (congrArg some he.symm)
    simp [Function.update_of_ne hne]
  | @commit o r g t startedAt hc hcol hv hg =>
    have hne : x ≠ t.executionId := by cases hc <;> exact other hok
    cases g <;> simp [World.guarded, hne]
  | claimStepping | releaseStepping | cancel => simp [State.releaseStepping, other hok]

theorem Effect.steps_apart (heff : Effect s o r s') (hok : concerning.ok m o) (hx : x ∉ m.executions) :
    s'.steps x = s.steps x := by
  have other {y : Id} (hy : y ∈ m.executions) : x ≠ y := fun he => hx (he ▸ hy)
  cases heff with
  | idle | tool | freshId | insertExecution | claimStepping | releaseStepping | cancel | claimApproval
  | expireApproval | updateExternalRequest => rfl
  | insertExternalRequest row =>
    unfold State.insertExternalRequest
    split <;> rfl
  | insertStep | saveStep => simp [State.insertStep, State.modifyStep, Function.update_of_ne (other hok)]
  | @commit o r g t startedAt hc hcol hv hg =>
    have hne : x ≠ t.executionId := by cases hc <;> exact other hok
    have base : (World.guarded s t g).steps = s.steps := by cases g <;> rfl
    rw [State.applyTxn_steps]
    cases t.step with
    | none => rw [State.writeStep, base]
    | some u => simp [State.writeStep, State.modifyStep, base, Function.update_of_ne hne]

theorem Effect.audit_apart (heff : Effect s o r s') (hok : concerning.ok m o) (hx : x ∉ m.executions) :
    s'.audit x = s.audit x := by
  rcases heff.audit x with he | ⟨g, t, hc, _, he, _⟩
  · exact he
  · exact absurd (by cases hc <;> exact hok) (he ▸ hx)

end Kept

section Separation

variable {i : Nat} {call : Call} {o : Op W.Tables} {k : o.Reply → Db W CallResult} {r : o.Reply}
  {s : State W.Domain}

/-- A chunk that updates a tool request is part of a call that is about the execution of the request. -/
theorem update_concerned (hd : ReachableWithin ok d) (hw : d.threads[i]? = some ⟨call, .request o k⟩)
    {g : Option StatusGuard} {t : Txn} (hc : Commits o r g t) {q : Id} {u : ToolRequestUpdate}
    (ht : t.toolRequest = some (.update q u)) : ∃ request, d.state.toolRequests q = some request ∧
      request.executionId ∈ (d.past concerning call.subjects i).executions := by
  have hset := (hd.monitored Call.code_settling).allowed hw
  have hok := (hd.monitoredBy (M := fun _ => concerning) Call.code_concerning).allowed hw
  have filed (hq : (d.past settling {} i).request = some q) : ∃ request, d.state.toolRequests q = some request ∧
      request.executionId ∈ (d.past concerning call.subjects i).executions := by
    obtain ⟨f, hf, hfq⟩ := hd.requestsAgree.follows i q hq
    obtain ⟨request, hrequest, hx⟩ := hd.requestsAgree.filed i f q hf hfq
    exact ⟨request, hrequest, hx ▸ hd.subjectsExplained.entered i _ f hw hf⟩
  cases hc with
  | guarded => exact filed (hset.2 q u ht)
  | plain =>
    rcases hset.2 q u ht with hq | ⟨a, row, hpays⟩
    · exact filed hq
    · -- the request of the approval that the call settles
      obtain ⟨row', hrow', hasked⟩ := hd.endorsed (i := i) (settling_approvals d.history i ▸ hpays.read)
      obtain ⟨request, hrequest, hx, _⟩ := hd.requestsAgree.asked a row' hrow'
      have hq : q = row'.toolRequestId :=
        (hpays.toolRequest q u ht).trans (ApprovalRequest.toolRequestId_congr hasked).symm
      have hexecution : row'.executionId = row.executionId := congrArg (·.executionId) hasked
      refine ⟨request, hq ▸ hrequest, ?_⟩
      rw [hx, hexecution, ← hpays.execution]
      exact hok

/-- What is on file about `x` is left alone by a step of a call that is not about `x`. -/
theorem dossier_next (hd : ReachableWithin ok d) (hw : d.threads[i]? = some ⟨call, .request o k⟩)
    (heff : Effect d.state o r s) (hx : ¬call.Concerns d.state x)
    (hnew : ¬Creates (⟨i, o, r⟩ :: d.history : List (Statement W)) i x) : s.dossier x = d.state.dossier x := by
  have hok := (hd.monitoredBy (M := fun _ => concerning) Call.code_concerning).allowed hw
  have explained := hd.subjectsExplained
  have hsub : x ∉ (d.past concerning call.subjects i).executions := fun h =>
    (explained.executions i call x h).elim hx fun h => hnew (h.cons _)
  have filter_kept {α : Type} {row row' : Option α} {f : α → Id} (h : row' = row ∨
      (∀ a, row = some a → f a ≠ x) ∧ ∀ a, row' = some a → f a ≠ x) :
      row'.filter (f · = x) = row.filter (f · = x) := by
    rcases h with rfl | ⟨h, h'⟩
    · rfl
    · have none {row : Option α} (h : ∀ a, row = some a → f a ≠ x) : row.filter (f · = x) = none := by
        cases row with
        | none => rfl
        | some a => simp [h a rfl]
      rw [none h, none h']
  have framed := (hd.monitored Call.code_framing).allowed hw
  have toolRequests (q : Id) : (s.toolRequests q).filter (·.executionId = x) =
      (d.state.toolRequests q).filter (·.executionId = x) := by
    refine filter_kept (f := ToolRequest.executionId) ?_
    rcases heff.toolRequest q with he | ⟨g, t, hc, ⟨row, startedAt, ht, hfree, he⟩ | ⟨u, ht, he⟩⟩
    · exact .inl he
    · refine .inr ⟨fun a ha => by simp [hfree] at ha, fun a ha => ?_⟩
      obtain rfl := Option.some.inj (he.symm.trans ha)
      obtain ⟨f, hf, _, hfiles⟩ := framing_toolRequest framed hc ht
      exact fun hax => hsub (hax ▸ hfiles.execution ▸ explained.entered i _ f hw hf)
    · obtain ⟨request, hrequest, hmem⟩ := update_concerned hd hw hc ht
      have hne : request.executionId ≠ x := fun he => hsub (he ▸ hmem)
      refine .inr ⟨fun a ha => ?_, fun a ha => ?_⟩
      · obtain rfl := Option.some.inj (hrequest.symm.trans ha)
        exact hne
      · rw [he, hrequest] at ha
        obtain rfl := Option.some.inj ha
        exact hne
  have approvals (a : Id) : (s.approvals a).filter (·.executionId = x) =
      (d.state.approvals a).filter (·.executionId = x) := by
    refine filter_kept (f := ApprovalRequest.executionId) ?_
    have decided {row row' : ApprovalRequest} (ha : call.subjects.approval = some a)
        (hrow : d.state.approvals a = some row) (he : s.approvals a = some row')
        (hrow' : row'.executionId = row.executionId) : s.approvals a = d.state.approvals a ∨
          (∀ b, d.state.approvals a = some b → b.executionId ≠ x) ∧ ∀ b, s.approvals a = some b → b.executionId ≠ x := by
      have hne : row.executionId ≠ x := fun h => hx (h ▸ Call.concerns_approval ha hrow)
      refine .inr ⟨fun b hb => ?_, fun b hb => ?_⟩
      · obtain rfl := Option.some.inj (hrow.symm.trans hb)
        exact hne
      · obtain rfl := Option.some.inj (he.symm.trans hb)
        rwa [hrow']
    have deciding := hd.confined (K := fun call => Deciding call) Call.code_deciding hw
    rcases heff.approvals a with he | ⟨row', hchange, he⟩
    · exact .inl he
    cases hchange with
    | inserted _ hc ht hfree =>
      refine .inr ⟨fun b hb => by simp [hfree] at hb, fun b hb => ?_⟩
      obtain rfl := Option.some.inj (he.symm.trans hb)
      obtain ⟨f, hf, hesc⟩ := framing_approval framed hc ht
      exact fun hbx => hsub (hbx ▸ hesc.execution ▸ explained.entered i _ f hw hf)
    | claimed status now by' row hrow => exact decided deciding hrow he rfl
    | expired now row hrow => exact decided deciding hrow he rfl
    | executed now row hc ht hrow =>
      cases hc with
      | plain => exact decided (deciding a now ht) hrow he rfl
      | guarded =>
        obtain ⟨_, _, hi⟩ := hd.issued hw
        obtain ⟨_, _, hw', _⟩ := hi.inserts ht
        cases hw'
  simp only [State.dossier, Dossier.mk.injEq]
  exact ⟨heff.execution_apart hok hsub fun h => hnew ⟨_, List.mem_cons_self, rfl, h⟩, heff.steps_apart hok hsub,
    funext toolRequests, funext approvals, heff.audit_apart hok hsub⟩

/-- The step is one of a call that is not about execution `x` and has not created it. -/
def Unrelated (x : Id) (d : App W) (e : Statement W) : Prop :=
  (d.threads[e.thread]?).all (fun t => ¬t.call.Concerns d.state x) = true ∧ ¬Creates (e :: d.history) e.thread x

instance (x : Id) (d : App W) (e : Statement W) : Decidable (Unrelated x d e) :=
  inferInstanceAs (Decidable (_ ∧ _))

/-- Whatever other calls do in between, what is on file about an execution stays as it is until a call that is about
it takes a step. -/
theorem executions_separate (hc : Reachable c) (h : Steps W.system (Unrelated x) c d) :
    d.state.dossier x = c.state.dossier x := by
  refine h.invariant (I := fun d => d.state.dossier x = c.state.dossier x) rfl ?_ ?_ ?_
  · exact fun d call ih => ih
  · intro d change ih
    rw [← ih]
    simp [State.dossier]
  · intro d i call o k hd hw hok ih
    have reachable : Reachable d := by
      obtain ⟨c₀, h₀, hs⟩ := hc
      exact ⟨c₀, h₀, hs.trans hd.run⟩
    refine (dossier_next reachable hw (W.exec_effect o d.state) ?_ hok.2).trans ih
    have all := hok.1
    simp only [Config.entry, hw, Option.all_some, decide_eq_true_eq] at all
    exact all

/-- A second execution is started and has a refund sent for approval, while the first one stays as it is. -/
theorem executions_separate_refund :
    ((afterMoves .requireApproval startMoves).replay bench.system (arrival (.startExecution 0 "refund" none) 1 5 ++
      arrival (.gateway ⟨0, 1, "refund_payment", .dict []⟩ none) 2 27)).state.dossier 0 =
        (afterMoves .requireApproval startMoves).state.dossier 0 :=
  executions_separate (afterMoves_reachable _ _) (Allowed.steps .refl (by decide +kernel))

end Separation

end SafeOps
