import SafeOps.Guarantees.RequestLife

/-! The database as a record: nothing that was filed is lost or rewritten. -/

namespace SafeOps
open Concurrent Program

variable {W : World} {ok : App W → Statement W → Prop} {c d : App W}

/-- What a step is for, whatever comes of it. -/
def ExecutionStep.entered (row : ExecutionStep) : StepType × StepInput := (row.stepType, row.input)

/-- An approval later on: it asks the same, and has moved along its life. -/
structure ApprovalRequest.Becomes (row row' : ApprovalRequest) : Prop where
  asked : row'.asked = row.asked
  moves : Relation.ReflTransGen ApprovalStatus.Moves row.status row'.status

/-- What an integration has submitted, apart from what became of it. -/
def ExternalActionRequest.submitted (row : ExternalActionRequest) : ExternalActionRequest :=
  { row with
    status := .received
    toolRequestId := none
    approvalRequestId := none
    resultSummary := none
    errorCode := none
    completedAt := none }

/-- The database holds all that it held before: executions as they were started, steps and external requests as
they were entered, approvals and tool requests further along their lives, and longer logs. -/
structure State.Extends {D : Type} (s s' : State D) : Prop where
  executions : Evolves (Retains (·.opening)) s.executions s'.executions
  steps : ∀ x, Evolves (Retains (·.entered)) (s.step x) (s'.step x)
  toolRequests : Evolves ToolRequest.Becomes s.toolRequests s'.toolRequests
  approvals : Evolves ApprovalRequest.Becomes s.approvals s'.approvals
  externalRequests : ∀ o, Evolves (Retains (·.submitted)) (s.externalRequests o) (s'.externalRequests o)
  audit : ∀ x, s.audit x <+: s'.audit x

namespace State.Extends

variable {D : Type} {s s' s'' : State D}

theorem refl (s : State D) : s.Extends s where
  executions := .refl .refl _
  steps _ := .refl .refl _
  toolRequests := .refl .refl _
  approvals := .refl (fun _ => ⟨rfl, .refl⟩) _
  externalRequests _ := .refl .refl _
  audit _ := List.prefix_refl _

theorem trans (h : s.Extends s') (h' : s'.Extends s'') : s.Extends s'' where
  executions := h.executions.trans .trans h'.executions
  steps x := (h.steps x).trans .trans (h'.steps x)
  toolRequests := h.toolRequests.trans .trans h'.toolRequests
  approvals := h.approvals.trans (fun he he' => ⟨he'.asked.trans he.asked, he.moves.trans he'.moves⟩) h'.approvals
  externalRequests o := (h.externalRequests o).trans .trans (h'.externalRequests o)
  audit x := (h.audit x).trans (h'.audit x)

/-- The clock, the faults and the configuration are no records. -/
theorem disturb (s : State D) (change : Change) : s.Extends (change.apply s) := by
  obtain ⟨executions, steps, toolRequests, approvals, externalRequests, audit⟩ := refl s
  cases change <;> exact ⟨executions, steps, toolRequests, approvals, externalRequests, audit⟩

end State.Extends

section Tables

variable {s s' : State W.Domain} {o : Op W.Tables} {r : o.Reply}

theorem Effect.executions_evolve (h : Effect s o r s') (hids : s.Allocated) :
    Evolves (Retains (·.opening)) s.executions s'.executions := by
  intro x row hrow
  have opened : s.opening x = some row.opening := by rw [State.opening, hrow]; rfl
  rcases h.opening x with he | ⟨_, _, hx, _⟩
  · rw [opened] at he
    exact Option.map_eq_some_iff.1 he
  · rw [hids x hx.ge] at hrow
    cases hrow

theorem Effect.steps_evolve (h : Effect s o r s') (x : Id) :
    Evolves (Retains (·.entered)) (s.step x) (s'.step x) := by
  refine .of_rows .refl fun n => ?_
  rcases h.step x n with he | ⟨row', hchange, he⟩
  · exact .inl he
  · cases hchange with
    | inserted row _ hfree => exact .inr (.inl hfree)
    | saved u row _ hrow | written u row _ _ _ _ hrow =>
      exact .inr (.inr ⟨row, u.apply row, hrow, he, rfl⟩)

theorem Effect.externalRequests_evolve (h : Effect s o r s') (operatorId : Id) :
    Evolves (Retains (·.submitted)) (s.externalRequests operatorId) (s'.externalRequests operatorId) := by
  refine .of_rows .refl fun key => ?_
  rcases h.externalRequests operatorId key with he | ⟨_, _, _, _, hfree, _⟩ | ⟨u, _, he⟩
  · exact .inl he
  · exact .inr (.inl hfree)
  · rcases hrow : s.externalRequests operatorId key with _ | row
    · exact .inr (.inl rfl)
    · exact .inr (.inr ⟨row, u.apply row, rfl, by rw [he, hrow]; rfl, rfl⟩)

end Tables

theorem ClaimsHold.approvals_evolve (h : ClaimsHold d) {i : Nat} {o : Op W.Tables} {r : o.Reply}
    {s : State W.Domain} (hok : resolving.ok (d.past resolving {} i) o) (hi : Issued o)
    (heff : Effect d.state o r s) : Evolves ApprovalRequest.Becomes d.state.approvals s.approvals := by
  intro a row hrow
  obtain ⟨row', hrow', _, hmoves⟩ := h.moves hok hi heff hrow
  obtain ⟨row'', hrow'', hasked⟩ := heff.asked hrow
  obtain rfl := Option.some.inj (hrow'.symm.trans hrow'')
  exact ⟨row', hrow', hasked, hmoves⟩

theorem ReachableWithin.extends (hc : ReachableWithin ok c) (h : Steps W.system ok c d) :
    c.state.Extends d.state := by
  refine hc.onwards (I := fun d => c.state.Extends d.state) h (.refl _) (fun _ _ h => h) ?_ ?_
  · exact fun d change h => h.trans (.disturb d.state change)
  · intro d i call o k r s hd hw hi _ heff h
    refine h.trans
      { executions := heff.executions_evolve hd.allocated
        steps := heff.steps_evolve
        toolRequests := hd.requestsServed.becomes hd ((hd.monitored Call.code_serving).allowed hw)
          ((hd.monitored Call.code_settling).allowed hw) heff
        approvals := hd.claimsHold.approvals_evolve ((hd.monitored Call.code_resolving).allowed hw) hi heff
        externalRequests := heff.externalRequests_evolve
        audit := fun x => ?_ }
    rcases heff.audit x with he | ⟨_, t, _, _, _, he⟩
    · rw [App.next_state, he]
    · rw [App.next_state, he]
      exact List.prefix_append _ _

/-- Whatever calls run, crash or race each other: no row is lost, no log is cut or rewritten, and what was asked
for stays as it was asked. -/
theorem nothing_forgotten {c d : App W} (hc : Reachable c) (h : Run W.system c d) : c.state.Extends d.state :=
  hc.extends h

theorem nothing_forgotten_refund :
    (afterMoves .requireApproval startMoves).state.audit 0 ≠ [] ∧
      (afterMoves .requireApproval startMoves).state.Extends
        ((afterMoves .requireApproval startMoves).replay bench.system (gatewayMoves 27)).state :=
  ⟨by decide +kernel, nothing_forgotten (afterMoves_reachable _ _) (run_replay _ .refl)⟩

end SafeOps
