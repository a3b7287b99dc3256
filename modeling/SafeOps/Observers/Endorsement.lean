import SafeOps.Observers.Resolver

/-! What a call has read before it runs an approved action: the approval, and an execution that waits
for it. -/

namespace SafeOps
open Concurrent Program

variable {W : World}

/-- The tool call that the approval `a` of this row allows. -/
def ApprovalRequest.toolCall (row : ApprovalRequest) (a : Id) : ToolCall where
  executionId := row.executionId
  toolRequestId := row.toolRequestId
  approvalId := some a
  toolName := row.toolName
  arguments := row.approvedArguments

/-- The approvals a call has read, and the execution it has found in `WAITING_APPROVAL` at its last
look and not yet called a tool for. -/
structure Endorsement where
  approvals : List (Id × ApprovalRequest) := []
  checked : Option Id := none

/-- An approved tool call is the one its approval describes, on an execution found waiting. -/
def endorsing : Monitor W.statements Endorsement where
  next m o := match o with
    | .query (.approval a) => fun (row : Option ApprovalRequest) =>
      { m with approvals := row.toList.map (a, ·) ++ m.approvals }
    | .query (.execution x) => fun (row : Option Execution) =>
      { m with checked := if row.any (·.status = .waitingApproval) then some x else none }
    | .note (.toolExecute _) => fun _ => { m with checked := none }
    | _ => fun _ => m
  ok m
    | .note (.toolExecute tc) => ∀ a, tc.approvalId = some a → m.checked = some tc.executionId ∧
      ∃ row, (a, row) ∈ m.approvals ∧ tc = row.toolCall a
    | _ => True

theorem endorsing_approvals (m : Endorsement) (o : Op W.Tables) (r : o.Reply) :
    m.approvals ⊆ (endorsing.next m o r).approvals := by
  rcases o with q | _ | n | _
  · cases q with
    | approval a => exact List.subset_append_right _ _
    | _ => exact fun _ h => h
  · exact fun _ h => h
  · cases n <;> exact fun _ h => h
  · exact fun _ h => h

theorem endorsing_entry {m : Endorsement} {e : Statement W} {a : Id} {row : ApprovalRequest}
    (h : (a, row) ∈ (endorsing.next m e.op e.reply).approvals) :
    (a, row) ∈ m.approvals ∨ e = ⟨e.thread, .query (.approval a), some row⟩ := by
  obtain ⟨i, o, r⟩ := e
  rcases o with q | _ | n | _
  · cases q with
    | approval b =>
      rcases List.mem_append.1 h with h | h
      · obtain ⟨row', hr, he⟩ := List.mem_map.1 h
        obtain ⟨rfl, rfl⟩ := Prod.mk.inj he
        obtain rfl := Option.mem_toList.1 hr
        exact .inr rfl
      · exact .inl h
    | _ => exact .inl h
  · exact .inl h
  · cases n <;> exact .inl h
  · exact .inl h

/-- The statement is no tool call that an approval allowed. -/
def Uncalling : Op W.Tables → Prop
  | .note (.toolExecute tc) => tc.approvalId = none
  | _ => True

theorem Uncalling.ok {o : Op W.Tables} (h : Uncalling o) (m : Endorsement) : endorsing.ok m o := by
  rcases o with _ | _ | n | _
  · trivial
  · trivial
  · cases n with
    | toolExecute tc => exact fun a ha => nomatch (show tc.approvalId = none from h).symm.trans ha
    | _ => trivial
  · trivial

theorem Undecided.uncalling {o : Op W.Tables} (h : Undecided o) : Uncalling o := by
  rcases o with _ | _ | n | _
  · trivial
  · trivial
  · cases n <;> exact h
  · trivial

theorem Uses.uncalling {ε α : Type} {p : Program W.statements ε α} (h : p.Uses Uncalling)
    {m : Endorsement} : p.Obeys endorsing (fun _ _ => True) (fun _ _ => True) m :=
  h.keeps (I := fun _ => True) (fun m _ ho _ => ho.ok m) (fun _ _ _ _ _ => trivial) trivial

namespace ApprovalEngine

/-- The statement neither looks at an execution again nor calls a tool. -/
def Unlooking : Op W.Tables → Prop
  | .query (.execution _) | .note _ => False
  | _ => True

/-- The approval has been read, and its execution found waiting. -/
def Endorsed (a : Id) (approval : ApprovalRequest) (m : Endorsement) : Prop :=
  (a, approval) ∈ m.approvals ∧ m.checked = some approval.executionId

section Resolution

variable {a : Id} {approval : ApprovalRequest} {m : Endorsement}

theorem Unlooking.ok {o : Op W.Tables} (h : Unlooking o) (m : Endorsement) : endorsing.ok m o := by
  rcases o with _ | _ | _ | _
  · trivial
  · trivial
  · exact h.elim
  · trivial

theorem Unlooking.next {o : Op W.Tables} (h : Unlooking o) (hm : Endorsed a approval m) (r : o.Reply) :
    Endorsed a approval (endorsing.next m o r) := by
  refine ⟨endorsing_approvals m o r hm.1, ?_⟩
  rcases o with q | _ | _ | _
  · cases q <;> first | exact hm.2 | exact h.elim
  · exact hm.2
  · exact h.elim
  · exact hm.2

theorem Uses.endorsed {α : Type} {p : Db W α} (h : p.Uses Unlooking) (hm : Endorsed a approval m) :
    p.Obeys endorsing (fun _ => Endorsed a approval) (fun _ => Endorsed a approval) m :=
  h.keeps (fun m _ ho _ => ho.ok m) (fun _ _ r ho hm => ho.next hm r) hm

theorem commitChunk_endorsed {x : Id} {build : Nat → Txn} (hm : Endorsed a approval m) :
    (commitChunk x build : Db W Unit).Obeys endorsing (fun _ => Endorsed a approval)
      (fun _ => Endorsed a approval) m :=
  Uses.endorsed (commitChunk_uses trivial fun _ _ => trivial) hm

theorem finalizeExecutionOutcome_uncalling (agentName : String) (success : Bool)
    (error : Option ToolError) (result : Option Value) :
    (finalizeExecutionOutcome a approval agentName success error result :
      Db W ApprovalActionResult).Uses Uncalling :=
  .bind ⟨trivial, fun _ => trivial⟩ fun _ => .bind (commitChunk_uses trivial fun _ _ => trivial) fun _ => trivial

theorem executeApprovedAction_endorsing (agentName : String) (hm : Endorsed a approval m) :
    (executeApprovedAction a approval agentName : Db W ApprovalActionResult).Obeys endorsing
      (fun _ _ => True) (fun _ _ => True) m := by
  refine .bind (commitChunk_endorsed hm) (fun _ _ _ => trivial) fun _ m hm => ?_
  split
  · exact Uses.uncalling (finalizeExecutionOutcome_uncalling _ _ _ _)
  · rename_i tool _
    refine .bind (R := fun _ _ => True) (Y := fun _ _ => True)
      (.tryCatch (R := fun _ _ => True) (Y := fun _ _ => True)
        (.bind (.call_bind ?_ fun _ => Uses.uncalling (toolExecute_uses tool _ fun _ => trivial))
          (fun _ _ h => h) fun _ _ h => h) (fun _ _ h => h) fun _ _ h => h)
      (fun _ _ h => h) fun outcome m' _ => ?_
    · intro b hb
      obtain rfl := Option.some.inj hb
      exact ⟨hm.2, approval, hm.1, rfl⟩
    · split
      · exact Uses.uncalling (finalizeExecutionOutcome_uncalling _ _ _ _)
      · split
        · exact Uses.uncalling (finalizeExecutionOutcome_uncalling _ _ _ _)
        · exact Uses.uncalling (finalizeExecutionOutcome_uncalling _ _ _ _)

theorem resolveClaimed_endorsing (operator : Operator) (approve : Bool) (reason : Option String)
    (now : Time) (hm : Endorsed a approval m) :
    (resolveClaimed a approval operator approve reason now : Db W ApprovalActionResult).Obeys endorsing
      (fun _ _ => True) (fun _ _ => True) m := by
  refine .call_bind trivial fun (agent : Option Agent) => ?_
  split
  · exact .bind (commitChunk_endorsed hm) (fun _ _ _ => trivial) fun _ _ hm =>
      executeApprovedAction_endorsing _ hm
  · split
    · exact .bind (commitChunk_endorsed hm) (fun _ _ _ => trivial) fun _ _ _ => trivial
    · trivial

end Resolution

theorem resolve_endorsing (a : Id) (operator : Operator) (approve : Bool) (reason : Option String) :
    (resolve a operator approve reason : Db W ApprovalActionResult).Obeys endorsing
      (fun _ _ => True) (fun _ _ => True) {} := by
  refine .call_bind trivial fun (approval : Option ApprovalRequest) => ?_
  split
  · trivial
  · rename_i approval
    refine .call_bind trivial fun (now : Time) => .bind ((lazyExpire_undecided a approval now).keeps
      (I := fun m => (a, approval) ∈ m.approvals) ?_ (fun m o r _ hm => endorsing_approvals m o r hm)
      (List.mem_singleton.2 rfl)) (fun _ _ _ => trivial) fun status m hm => ?_
    · exact fun m o ho _ => ho.uncalling.ok m
    · split
      · trivial
      · refine .call_bind trivial fun (toolRequest : Option ToolRequest) =>
          .call_bind trivial fun (execution : Option Execution) => ?_
        split
        · rename_i happ
          obtain ⟨request, row, rfl, rfl, _, hw, _⟩ := approvable_iff.1 happ
          have endorsed : Endorsed a approval
              { m with checked := if (some row).any (·.status = .waitingApproval)
                then some approval.executionId else none } := ⟨hm, by simp [hw]⟩
          refine .call_bind trivial fun (claimed : Bool) => .call_bind trivial
            fun (refreshed : Option ApprovalRequest) => ?_
          split
          · exact resolveClaimed_endorsing operator approve reason now
              ⟨endorsing_approvals _ (.query (.approval a)) refreshed endorsed.1, endorsed.2⟩
          · trivial
        · trivial

end ApprovalEngine

/-- Only a call to approve an approval executes a tool on the strength of it. -/
def Approving (call : Call) : Op W.Tables → Prop
  | .note (.toolExecute tc) => ∀ a, tc.approvalId = some a → ∃ operator, call = .approve a operator
  | _ => True

theorem Note.Direct.approving {n : Note} (h : n.Direct) (call : Call) :
    Approving (W := W) call (.note n) := by
  cases n with
  | toolExecute tc => exact fun a ha => absurd ha (by simp [show tc.approvalId = none from h])
  | _ => trivial

theorem Call.code_approving (call : Call) : (call.code : Db W CallResult).Uses (Approving call) := by
  refine pieces_use call.code_assembled (fun o ho => ?_) (fun _ => trivial)
    (fun _ _ _ h => h.chunk.within.mono (fun _ _ _ => trivial) fun _ _ _ _ => trivial)
    fun _ gc context => (ToolGateway.execute_built gc context).uses (fun o ho => ?_) (fun _ => trivial)
      fun _ _ _ h => h.within.mono (fun _ _ _ => trivial) fun _ _ _ _ => trivial
  rcases o with _ | _ | n | _
  · trivial
  · trivial
  · cases call with
    | approve b operator =>
      cases n with
      | toolExecute tc =>
        have hb : tc.approvalId = some b := ho.1
        exact fun a ha => ⟨operator, by rw [Option.some.inj (ha.symm.trans hb)]⟩
      | _ => trivial
    | reject b operator reason => exact absurd ho.2 (by decide)
    | _ => exact ho.elim
  · trivial
  · rcases o with _ | _ | n | _
    · trivial
    · trivial
    · exact Note.Direct.approving ho call
    · trivial

theorem Call.code_endorsing (call : Call) :
    (call.code : Db W CallResult).Obeys endorsing (fun _ _ => True) (fun _ _ => True) {} := by
  have neutral (h : ∀ a operator, call ≠ .approve a operator) : (call.code : Db W CallResult).Obeys
      endorsing (fun _ _ => True) (fun _ _ => True) {} := by
    refine Uses.uncalling (call.code_approving.mono fun o ho => ?_)
    rcases o with _ | _ | n | _
    · trivial
    · trivial
    · cases n with
      | toolExecute tc =>
        refine Option.eq_none_iff_forall_ne_some.2 fun a ha => ?_
        obtain ⟨operator, hcall⟩ := ho a ha
        exact h a operator hcall
      | _ => trivial
    · trivial
  cases call with
  | approve a operator =>
    exact .bind (ApprovalEngine.resolve_endorsing a operator true none) (fun _ _ h => h) fun _ _ h => h
  | _ => exact neutral nofun

end SafeOps
