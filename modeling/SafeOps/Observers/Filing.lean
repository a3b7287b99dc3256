import SafeOps.Observers.Settlement

/-! A gateway call owes nothing, and updates no tool request but the one it has filed. -/

namespace SafeOps
open Concurrent Program

variable {W : World} {ε α β : Type}

/-- The chunk leaves the executions alone, and updates at most the tool request `q`. -/
structure Txn.Updates (q : Id) (t : Txn) : Prop where
  resume : t.resume = false
  toolRequest : ∀ w, t.toolRequest = some w → ∃ u, w = .update q u

/-- What a gateway call that has filed the tool request `q` goes on to request. -/
def Filed (q : Id) : Op W.Tables → Prop
  | .write (.commit _ t) | .write (.commitIf _ _ t) => t.Updates q
  | .write w => w = .freshId
  | .note (.gatewayEnter _) | .note (.gatewayReturn _) | .note .gatewayRaise => False
  | _ => True

/-- The open gateway call has filed the tool request `q`, and nothing is owed. -/
def Filing (q : Id) {γ : Type} (_ : γ) (m : Settler) : Prop := m.debt = none ∧ m.request = some q

section Filed

variable {q : Id} {o : Op W.Tables} {m : Settler}

theorem Settler.settles_eq_false {t : Txn} (hm : m.debt = none) (ht : t.resume = false) :
    m.settles t = false := by
  rw [settles, hm, ht]
  rfl

theorem Filed.ok (h : Filed q o) (hm : Filing q () m) : settling.ok m o := by
  have files {t : Txn} (ht : t.Updates q) (q' : Id) (u : ToolRequestUpdate)
      (hu : t.toolRequest = some (.update q' u)) : m.request = some q' := by
    obtain ⟨u', hw⟩ := ht.toolRequest _ hu
    obtain ⟨rfl, _⟩ := ToolRequestWrite.update.inj hw
    exact hm.2
  rcases o with _ | w | _ | _
  · trivial
  · cases w with
    | commit attempt t =>
      have ht : t.Updates q := h
      refine ⟨fun hs => ?_, fun q' u hu => .inl (files ht q' u hu)⟩
      rw [Settler.settles_eq_false hm.1 ht.resume] at hs
      cases hs
    | commitIf attempt g t => exact ⟨h.resume, files h⟩
    | claimApproval | expireApproval => cases h
    | _ => trivial
  · trivial
  · trivial

theorem Txn.Updates.filed {t : Txn} (ht : t.Updates q) (hm : m.request = some q) : m.filed t = some q := by
  unfold Settler.filed
  split
  · rename_i q' row hw
    obtain ⟨u, hu⟩ := ht.toolRequest _ hw
    cases hu
  · exact hm

theorem Filed.next (h : Filed q o) (hm : Filing q () m) (r : o.Reply) :
    Filing q () (settling.next m o r) := by
  rcases o with q' | w | n | _
  · cases q' <;> exact hm
  · cases w with
    | commit attempt t =>
      have ht : t.Updates q := h
      cases (show CommitOutcome from r) with
      | committed =>
        refine ⟨?_, ht.filed hm.2⟩
        change (if m.settles t then none else m.debt) = none
        rw [hm.1, ite_self]
      | collision => exact hm
      | violation => exact hm
    | commitIf attempt g t =>
      simp only [settling]
      split
      · exact ⟨hm.1, Txn.Updates.filed h hm.2⟩
      · exact hm
    | claimApproval | expireApproval => cases h
    | _ => exact hm
  · cases n <;> first | exact hm | exact h.elim
  · exact hm

theorem Uses.filing {p : Program W.statements ε α} (h : p.Uses (Filed q)) (hm : Filing q () m) :
    p.Obeys settling (Filing q) (Filing q) m :=
  h.keeps (I := Filing q ()) (fun _ _ ho hm => ho.ok hm) (fun _ _ r ho hm => ho.next hm r) hm

theorem commitChunk_filed {x : Id} {build : Nat → Txn} (h : ∀ seq, (build seq).Updates q) :
    (commitChunk x build : Db W Unit).Uses (Filed q) :=
  commitChunk_uses trivial fun seq _ => h seq

theorem rows_filed {x : Id} {build : Nat → Nat → Db W (Rows W)}
    (h : ∀ attempt seq, (build attempt seq).Yields IsRead fun rows =>
      rows.Within (Txn.Updates q) fun _ t => t.Updates q) : (commitRows x build).Uses (Filed q) :=
  commitRows_uses (fun o ho => by cases o <;> trivial) trivial fun attempt seq =>
    (h attempt seq).mono (fun _ h => h) fun _ h => h.mono (fun _ h _ => h) fun _ _ h _ => h

/-- The chunk that files a tool request. -/
theorem rows_files {x : Id} {build : Nat → Nat → Db W (Rows W)} (hm : Clear () m)
    (h : ∀ attempt seq, (build attempt seq).Yields IsRead fun rows => ∃ t row, rows = .plain t ∧
      t.resume = false ∧ t.toolRequest = some (.insert q row)) :
    (commitRows x build).Obeys settling (fun _ => Filing q ()) Clear m := by
  refine commitRows_obeys (Clear ()) (Filing q ()) (fun number m hm => ?_) (fun _ hm => hm) hm
  refine .call_bind trivial fun (tail : AuditTail) => .bind ((h number _).keeps (I := Clear ())
    (fun m o ho _ => ?_) (fun m o r ho hm => ?_) hm) (fun _ _ hm => hm) ?_
  · cases o <;> trivial
  · rcases o with q' | _ | _ | _
    · cases q' <;> exact hm
    · exact ho.elim
    · exact ho.elim
    · exact ho.elim
  · rintro rows m ⟨⟨t, row, rfl, hr, ht⟩, hm⟩
    refine ⟨⟨fun hs => ?_, by simp [ht]⟩, fun (outcome : CommitOutcome) => ?_⟩
    · rw [Settler.settles_eq_false hm hr] at hs
      cases hs
    · cases outcome with
      | committed =>
        refine ⟨?_, ?_⟩
        · change (if m.settles t then none else m.debt) = none
          rw [hm, ite_self]
        · simp [settling, Settler.filed, ht]
      | collision => exact hm
      | violation => exact hm

end Filed

namespace ToolGateway

variable {g : Admitted W}

theorem txn_updates (audit : List AuditEvent) (u : Option ToolRequestUpdate) :
    (g.txn audit u).Updates g.requestId := by
  refine ⟨rfl, fun w hw => ?_⟩
  obtain ⟨u', _, rfl⟩ := Option.map_eq_some_iff.1 hw
  exact ⟨u', rfl⟩

theorem executeAndRecord_filed (base : GatewayResult) :
    (executeAndRecord g base).Uses (Filed g.requestId) := by
  refine .bind (.tryCatch (.bind (callTool_uses _ _ trivial fun _ => trivial) fun _ => trivial)
    fun _ => trivial) fun outcome => .bind ⟨trivial, fun _ => trivial⟩ fun now => ?_
  cases outcome with
  | none => exact .bind (commitChunk_filed fun _ => txn_updates _ _) fun _ => trivial
  | some result =>
    simp only
    split
    · exact .bind (commitChunk_filed fun _ => txn_updates _ _) fun _ => trivial
    · exact .bind (commitChunk_filed fun _ => txn_updates _ _) fun _ => trivial

theorem finalizeRiskBlock_filed (risk : RiskAssessmentResult) (escalated : Bool) (base : GatewayResult) :
    (finalizeRiskBlock g risk escalated base).Uses (Filed g.requestId) := by
  refine .bind (rows_filed fun _ seq => ?_) fun _ => trivial
  refine Yields.bind (P := fun _ => True) ⟨trivial, fun _ => trivial⟩ fun now _ => ?_
  split
  · exact txn_updates _ _
  · trivial

theorem createApprovalAndCommit_filed (ruling : Ruling) (reason : String) (escalated : Bool)
    (base : GatewayResult) :
    (createApprovalAndCommit g ruling reason escalated base).Uses (Filed g.requestId) := by
  refine .bind ⟨trivial, fun _ => trivial⟩ fun _ => .bind ⟨rfl, fun _ => trivial⟩ fun a =>
    .bind ⟨trivial, fun _ => trivial⟩ fun now => .bind (.tryCatch (.bind (rows_filed fun _ seq => ?_)
      fun _ => trivial) fun e => ?_) fun committed => ?_
  · exact ⟨⟨rfl, fun w hw => ⟨_, (Option.some.inj hw).symm⟩⟩, trivial⟩
  · cases e <;> trivial
  · split <;> trivial

theorem assessRiskAndFinalize_filed (ruling : Ruling) :
    (assessRiskAndFinalize g ruling).Uses (Filed g.requestId) := by
  refine .bind (.tryCatch (assess_uses _ _ _ _ _ trivial trivial) fun _ => trivial) fun risk =>
    .bind ⟨trivial, fun _ => trivial⟩ fun _ => .bind (commitChunk_filed fun _ => txn_updates _ _) fun _ => ?_
  simp only
  split
  · exact finalizeRiskBlock_filed _ _ _
  · exact createApprovalAndCommit_filed _ _ _ _
  · exact .bind (commitChunk_filed fun _ => txn_updates _ _) fun _ => executeAndRecord_filed _

theorem policyOutcomeRows_updates (result : PolicyEvaluationResult) (event : AuditEventType)
    (update : ToolRequestUpdate) (seq : Nat) :
    (policyOutcomeRows g result event update seq).Updates g.requestId := by
  unfold policyOutcomeRows
  simp only
  split
  · split <;> exact txn_updates _ _
  · exact txn_updates _ _

/-- A part of a gateway call that ends it with nothing owed. -/
abbrev Clears (p : Db W GatewayResult) (m : Settler) : Prop := p.Obeys settling Clear Clear m

variable {m : Settler}

theorem Uses.clears {p : Db W GatewayResult} {q : Id} (h : p.Uses (Filed q)) (hm : Filing q () m) :
    Clears p m :=
  (Uses.filing h hm).mono (fun _ _ hm => hm.1) fun _ _ hm => hm.1

theorem Uses.clear_bind {p : Db W β} {k : β → Db W GatewayResult} (h : p.Uses Unsettling)
    (hm : Clear () m) (rest : ∀ b m, Clear () m → Clears (k b) m) : Clears (p.bind k) m :=
  .bind (Uses.clear h hm) (fun _ _ hm => hm) fun b m hm => rest b m hm

theorem permissionRows_files {audit : Nat → List AuditEvent} (hm : Clear () m) :
    (commitChunk g.call.executionId fun seq => permissionRows g (audit seq) : Db W Unit).Obeys settling
      (fun _ => Filing g.requestId ()) Clear m :=
  rows_files hm fun _ _ => ⟨_, _, rfl, rfl, rfl⟩

theorem handleConditional_clears (agent : Agent) (hm : Clear () m) : Clears (handleConditional g agent) m := by
  refine .bind (permissionRows_files hm) (fun _ _ hm => hm) fun _ m hm => Uses.clears (.bind
    (.tryCatch (evaluate_uses _ _ _ _ _ trivial trivial) fun _ => trivial) fun result =>
      .bind ⟨trivial, fun _ => trivial⟩ fun _ => ?_) hm
  split
  · refine .bind (rows_filed fun _ seq => ?_) fun _ => trivial
    refine Yields.bind (P := fun _ => True) ⟨trivial, fun _ => trivial⟩ fun now _ => ?_
    exact policyOutcomeRows_updates _ _ _ _
  · exact .bind ⟨rfl, fun _ => trivial⟩ fun _ => .bind (commitChunk_filed fun _ =>
      policyOutcomeRows_updates _ _ _ _) fun _ => assessRiskAndFinalize_filed _

theorem handleDirectAllow_clears (hm : Clear () m) : Clears (handleDirectAllow g) m :=
  .bind (permissionRows_files hm) (fun _ _ hm => hm) fun _ _ hm => Uses.clears
    (.bind ⟨rfl, fun _ => trivial⟩ fun _ => assessRiskAndFinalize_filed _) hm

theorem refuse_clears (call : GatewayCall) (toolRow : Option Tool) (status : ToolRequestStatus)
    (error : ToolError) (audit : Nat → List AuditEvent) (result : GatewayResult) (hm : Clear () m) :
    Clears ((refuse call toolRow status error audit).bind fun _ => .ret result : Db W _) m := by
  refine .bind (R := Clear) (Y := Clear) (.call_bind trivial fun (r : Id) => (rows_files (q := r) hm
    fun _ seq => ?_).mono (fun _ _ hm => hm.1) fun _ _ hm => hm) (fun _ _ hm => hm) fun _ _ hm => hm
  exact ⟨trivial, fun now => ⟨_, _, rfl, rfl, rfl⟩⟩

theorem executeAdmitted_clears (call : GatewayCall) (context : Option Value) (agent : Agent)
    (objective : String) (hm : Clear () m) :
    Clears (executeAdmitted call context agent objective : Db W _) m := by
  refine Uses.clear_bind (commitChunk_unsettling fun _ => ⟨rfl, rfl⟩) hm fun _ m hm => ?_
  split
  · exact refuse_clears _ _ _ _ _ _ hm
  · refine Uses.clear_bind ⟨trivial, fun _ => trivial⟩ hm fun found m hm => ?_
    simp only
    split
    · exact refuse_clears _ _ _ _ _ _ hm
    · refine Uses.clear_bind ?_ hm fun permission m hm => ?_
      · cases found with
        | none => trivial
        | some row => exact ⟨trivial, fun _ => trivial⟩
      · split
        · exact Uses.clear_bind ⟨trivial, fun _ => trivial⟩ hm fun _ m hm => handleConditional_clears _ hm
        · exact Uses.clear_bind ⟨trivial, fun _ => trivial⟩ hm fun _ m hm => handleDirectAllow_clears hm
        · exact refuse_clears _ _ _ _ _ _ hm

theorem executeGuarded_clears (call : GatewayCall) (context : Option Value) (hm : Clear () m) :
    Clears (executeGuarded call context : Db W _) m := by
  refine Uses.clear_bind ⟨trivial, fun _ => trivial⟩ hm fun agent m hm => ?_
  split
  · exact hm
  · refine Uses.clear_bind ⟨trivial, fun _ => trivial⟩ hm fun execution m hm => ?_
    split
    · exact hm
    · repeat' split
      all_goals first | exact hm | exact executeAdmitted_clears _ _ _ _ hm

theorem execute_clears (call : GatewayCall) (context : Option Value) (hm : Clear () m) :
    Clears (execute call context : Db W _) m := by
  refine Uses.clear_bind ⟨trivial, fun _ => trivial⟩ hm fun _ m hm => .bind (R := Clear) (Y := Clear)
    (.tryCatch (R := Clear) (Y := Clear) (executeGuarded_clears call context hm) (fun _ _ hm => hm)
      fun e m hm => ?_) (fun _ _ hm => hm) fun result m hm => ?_
  · exact .call_bind trivial fun _ => hm
  · exact .call_bind trivial fun _ => hm

end ToolGateway

/-- The call decides an approval. -/
def Call.resolves : Call → Bool
  | approve _ _ | reject _ _ _ => true
  | _ => false

section Inventory

variable {x : Id} {seq : Nat}

theorem ServiceOp.unsettling {o : Op W.Tables} (h : ServiceOp o) : Unsettling o := by
  rcases o with _ | w | _ | _
  · trivial
  · cases w <;> first | exact h.elim | trivial
  · trivial
  · trivial

theorem Call.Issues.unsettling {call : Call} (hr : call.resolves = false) {o : Op W.Tables}
    (h : call.Issues o) : Unsettling o := by
  cases call with
  | gateway => exact h.elim
  | approve | reject => cases hr
  | startExecution => exact ServiceOp.unsettling (RuntimeOp.serviceOp h)
  | step | resume | submitExternalAction | reconcileExternalStep =>
    exact ServiceOp.unsettling (LeaseOp.serviceOp h)
  | cancel y =>
    rcases o with _ | w | _ | _
    · trivial
    · cases w <;> first | exact h.elim | trivial
    · trivial
    · trivial
  | submit | getStatus => exact ServiceOp.unsettling h

theorem RuntimeChunk.unsettling {rows : Rows W} (h : RuntimeChunk x seq rows) :
    rows.Within Txn.Unsettling fun _ t => t.Unsettling := by
  cases h with
  | routine h hr => exact ⟨h.resume, hr⟩
  | started => exact ⟨⟨rfl, rfl⟩, ⟨rfl, rfl⟩⟩
  | finalized => exact ⟨rfl, rfl⟩
  | terminal =>
    refine ⟨⟨rfl, rfl⟩, trivial, fun execution => ?_⟩
    cases execution with
    | none => trivial
    | some row => exact ⟨rfl, rfl⟩

theorem Call.Chunks.unsettling {call : Call} (hr : call.resolves = false) {rows : Rows W}
    (h : call.Chunks x seq rows) : rows.Within Txn.Unsettling fun _ t => t.Unsettling := by
  cases call with
  | approve | reject => cases hr
  | cancel =>
    cases h with
    | cancelled => exact ⟨rfl, rfl⟩
  | _ => exact RuntimeChunk.unsettling h

end Inventory

/-- Only a call that decides an approval takes approvals out of `PENDING`. -/
def Taking (call : Call) : Op W.Tables → Prop
  | .write (.claimApproval _ _ _ _) | .write (.expireApproval _ _) => call.resolves = true
  | _ => True

theorem Call.code_taking (call : Call) : (call.code : Db W CallResult).Uses (Taking call) := by
  refine pieces_use call.code_assembled (fun o ho => ?_) (fun _ => trivial)
    (fun _ _ _ h => h.chunk.within.mono (fun _ _ _ => trivial) fun _ _ _ _ => trivial)
    fun _ gc context => (ToolGateway.execute_built gc context).uses (fun o ho => ?_) (fun _ => trivial)
      fun _ _ _ h => h.within.mono (fun _ _ _ => trivial) fun _ _ _ _ => trivial
  · cases hr : call.resolves with
    | false =>
      have unsettling := Call.Issues.unsettling hr ho
      rcases o with _ | w | _ | _
      · trivial
      · cases w <;> first | exact unsettling.elim | trivial
      · trivial
      · trivial
    | true =>
      rcases o with _ | w | _ | _
      · trivial
      · cases w <;> first | exact hr | trivial
      · trivial
      · trivial
  · rcases o with _ | w | _ | _
    · trivial
    · cases w <;> first | exact ho.elim | trivial
    · trivial
    · trivial

/-- A debt goes back to an approval that the call has taken out of `PENDING`. -/
theorem settling_debt {h : List (Statement W)} {i : Nat} {debt : Debt}
    (hd : (settling.after {} i h).debt = some debt) : ∃ e ∈ h, e.thread = i ∧
      ∀ call, Taking call e.op → call.resolves = true := by
  induction h with
  | nil => cases hd
  | cons e h ih =>
    have older (hd : (settling.after {} i h).debt = some debt) : ∃ e' ∈ e :: h, e'.thread = i ∧
        ∀ call, Taking call e'.op → call.resolves = true := by
      obtain ⟨e', he', rest⟩ := ih hd
      exact ⟨e', List.mem_cons_of_mem _ he', rest⟩
    by_cases hi : e.thread = i
    · subst hi
      rw [Monitor.after_self] at hd
      obtain ⟨i, o, r⟩ := e
      rcases o with q | w | n | _
      · cases q <;> exact older hd
      · cases w with
        | claimApproval | expireApproval => exact ⟨_, List.mem_cons_self, rfl, fun _ h => h⟩
        | commit attempt t =>
          simp only [settling] at hd
          split at hd
          · simp only at hd
            split at hd
            · cases hd
            · exact older hd
          · exact older hd
        | commitIf attempt g t =>
          simp only [settling] at hd
          split at hd <;> exact older hd
        | _ => exact older hd
      · cases n <;> exact older hd
      · exact older hd
    · rw [Monitor.after_other hi] at hd
      exact older hd

/-- A call owes nothing in the end, unless it is to decide an approval and raises: then it owes that. -/
theorem Call.code_settling (call : Call) :
    (call.code : Db W CallResult).Obeys settling Clear
      (fun e m => ∀ a status, call.decides = some (a, status) → Owing a e m) {} := by
  cases hr : call.resolves with
  | false =>
    have clear : Clear () ({} : Settler) := rfl
    refine (Composed.keeps call.code_assembled (I := Clear ()) (fun {_ _ _} h {m} hm => ?_) clear).mono
      (fun _ _ h => h) fun _ _ _ a status hd => ?_
    · cases h with
      | statements h => exact Uses.clear (h.mono fun _ => Call.Issues.unsettling hr) hm
      | chunk x build h =>
        refine Uses.clear (commitRows_uses (fun o ho => ?_) trivial fun attempt seq =>
          (h attempt seq).mono (fun _ h => h) fun rows hrows =>
            (Call.Chunks.unsettling hr hrows).mono (fun _ h _ => h) fun _ _ h _ => h) hm
        cases o <;> trivial
      | gateway _ call context => exact ToolGateway.execute_clears call context hm
    · cases call <;> first | (cases hr; done) | cases hd
  | true =>
    cases call with
    | approve a operator =>
      exact .bind (ApprovalEngine.resolve_settling a operator true none)
        (fun _ _ h _ _ hd => by cases hd; exact h) fun _ _ h => h
    | reject a operator reason =>
      exact .bind (ApprovalEngine.resolve_settling a operator false reason)
        (fun _ _ h _ _ hd => by cases hd; exact h) fun _ _ h => h
    | _ => cases hr

end SafeOps
