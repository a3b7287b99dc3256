import SafeOps.Inventory.Issued

/-! Which tool a thread is running: the tools' own statements are issued within tool calls only, by the tool
that is registered under the name called. -/

namespace SafeOps
open Concurrent Program

variable {W : World} {ε α : Type}

/-- The tool registered for the call may issue the statement, run on the call's arguments. -/
def ToolCall.MayIssue (tc : ToolCall) (o : W.Tables.Op) : Prop :=
  ∃ tool, W.registry tc.toolName = some tool ∧ (tool.run tc.arguments).Requests o

/-- Follows the latest tool call of a thread. -/
def tooling : Monitor W.statements (Option ToolCall) where
  next m o := match o with
    | .note (.toolExecute tc) => fun _ => some tc
    | _ => fun _ => m
  ok m
    | .tool o => ∃ tc, m = some tc ∧ tc.MayIssue o
    | _ => True

/-- The latest tool call of a thread is in its history. -/
theorem tooling_recorded {i : Nat} {history : List (Statement W)} {tc : ToolCall}
    (h : tooling.after none i history = some tc) :
    ∃ e ∈ history, e.thread = i ∧ e.op = .note (.toolExecute tc) := by
  induction history with
  | nil => cases h
  | cons e history ih =>
    have older (h : tooling.after none i history = some tc) :
        ∃ e' ∈ e :: history, e'.thread = i ∧ e'.op = .note (.toolExecute tc) := by
      obtain ⟨e', he', rest⟩ := ih h
      exact ⟨e', List.mem_cons_of_mem e he', rest⟩
    by_cases hi : e.thread = i
    · subst hi
      rw [Monitor.after_self] at h
      obtain ⟨i, o, r⟩ := e
      rcases o with _ | _ | n | _
      · exact older h
      · exact older h
      · cases n with
        | toolExecute tc' =>
          obtain rfl := Option.some.inj h
          exact ⟨_, List.mem_cons_self .., rfl, rfl⟩
        | _ => exact older h
      · exact older h
    · rw [Monitor.after_other hi] at h
      exact older h

/-- The statement is no tool's. -/
def NoTool : Op W.Tables → Prop
  | .tool _ => False
  | _ => True

section Rules

variable {m : Option ToolCall}

theorem Uses.untooled {p : Program W.statements ε α} (h : p.Uses NoTool) :
    p.Obeys tooling (fun _ _ => True) (fun _ _ => True) m := by
  refine h.keeps (I := fun _ => True) (fun m o ho _ => ?_) (fun _ _ _ _ _ => trivial) trivial
  cases o <;> first | exact ho.elim | trivial

theorem ToolPart.tooling {a : Option Id} {p : Program W.statements ε α} (h : ToolPart a p) :
    p.Obeys tooling (fun _ _ => True) (fun _ _ => True) m := by
  cases h with
  | call tool tc hregistered _ =>
    refine .call_bind trivial fun _ => ?_
    unfold BaseTool.execute
    split
    · trivial
    · have issued := (embed_requests (S := W.statements) Op.tool (fun _ r => r) (tool.run tc.arguments)).keeps
        (M := SafeOps.tooling) (I := (· = some tc)) (m := some tc) (fun m o ho hm => ?_) (fun m o r ho hm => ?_)
          rfl
      · refine .tryCatch (R := fun _ _ => True) (Y := fun _ _ => True)
          (.bind issued (fun _ _ _ => trivial) fun _ _ _ => trivial) (fun _ _ h => h) fun error _ _ => ?_
        cases error <;> trivial
      · obtain ⟨o, rfl, ho⟩ := ho
        exact ⟨tc, hm, tool, hregistered, ho⟩
      · obtain ⟨o, rfl, _⟩ := ho
        exact hm

/-- Programs without tool calls, chunks included. -/
theorem Piece.tooling {K : Op W.Tables → Prop} {C : Id → Nat → Rows W → Prop} {p : Program W.statements ε α}
    (h : Piece K C False p) (hK : ∀ o, K o → NoTool o) (hC : ∀ x seq rows, C x seq rows → Chunk x seq rows) :
    p.Obeys tooling (fun _ _ => True) (fun _ _ => True) m := by
  refine Uses.untooled (pieces_use (.atom h) hK (fun _ => trivial) (fun x seq rows hrows => ?_) False.elim)
  exact (hC x seq rows hrows).within.mono (fun _ _ _ => trivial) fun _ _ _ _ => trivial

end Rules

namespace ToolGateway

theorem Beside.noTool {o : Op W.Tables} (h : Beside o) : NoTool o := by
  cases o <;> first | exact h.elim | trivial

theorem execute_tooling (call : GatewayCall) (context : Option Value) {m : Option ToolCall} :
    (execute call context : Db W GatewayResult).Obeys tooling (fun _ _ => True) (fun _ _ => True) m := by
  refine .call_bind trivial fun _ => .bind (R := fun _ _ => True) (Y := fun _ _ => True)
    (.tryCatch (R := fun _ _ => True) (Y := fun _ _ => True) ?_ (fun _ _ h => h)
      fun _ _ _ => ⟨trivial, fun _ => trivial⟩) (fun _ _ h => h) fun _ _ _ => ⟨trivial, fun _ => trivial⟩
  refine Composed.keeps (I := fun _ => True) (executeGuarded_parted call context) (fun h _ _ => ?_) trivial
  cases h with
  | piece h => exact h.tooling (fun _ => Beside.noTool) fun _ _ _ => .gateway
  | tool h => exact h.tooling

end ToolGateway

theorem ApprovalEngine.resolve_tooling (a : Id) (operator : Operator) (approve : Bool) (reason : Option String) :
    (resolve a operator approve reason : Db W ApprovalActionResult).Obeys tooling (fun _ _ => True)
      (fun _ _ => True) none := by
  refine Composed.keeps (I := fun _ => True) (resolve_parted a operator approve reason) (fun h _ _ => ?_) trivial
  cases h with
  | piece h => exact h.tooling (fun o ho => by cases o <;> first | exact ho.elim | trivial) fun _ _ _ => .approval
  | tool _ h => exact h.tooling

theorem Call.Issues.noTool {call : Call} (hcall : ∀ a operator reason, call ≠ .approve a operator ∧
    call ≠ .reject a operator reason) {o : Op W.Tables} (h : call.Issues o) : NoTool o := by
  cases o with
  | tool o =>
    cases call with
    | approve a operator => exact ((hcall a operator none).1 rfl).elim
    | reject a operator reason => exact ((hcall a operator reason).2 rfl).elim
    | _ => exact h.elim
  | _ => trivial

/-- Every call runs its tools as registered. -/
theorem Call.code_tooling (call : Call) : (call.code : Db W CallResult).Obeys tooling (fun _ _ => True)
    (fun _ _ => True) none := by
  have others (hcall : ∀ a operator reason, call ≠ .approve a operator ∧ call ≠ .reject a operator reason) :
      (call.code : Db W CallResult).Obeys tooling (fun _ _ => True) (fun _ _ => True) none := by
    refine Composed.keeps (I := fun _ => True) call.code_assembled (fun h _ _ => ?_) trivial
    cases h with
    | statements h => exact Uses.untooled (h.mono fun _ => Call.Issues.noTool hcall)
    | chunk x build h =>
      exact (Piece.chunk (K := fun _ => False) x build h).tooling (fun _ ho => ho.elim)
        fun _ _ _ => Call.Chunks.chunk
    | gateway _ call context => exact ToolGateway.execute_tooling call context
  cases call with
  | approve a operator =>
    exact .bind (ApprovalEngine.resolve_tooling a operator true none) (fun _ _ h => h) fun _ _ h => h
  | reject a operator reason =>
    exact .bind (ApprovalEngine.resolve_tooling a operator false reason) (fun _ _ h => h) fun _ _ h => h
  | _ => exact others (by simp)

end SafeOps
