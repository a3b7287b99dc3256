import SafeOps.Inventory.Gateway

/-! The statements and chunks of the approval engine. -/

namespace SafeOps.ApprovalEngine
open Concurrent Program

variable {W : World}

theorem event_routine (x : Id) (seq : Nat) {type : AuditEventType} (actor : String)
    (metadata : List (String × Value)) (ht : ¬type.AboutStatus) :
    Routine x seq { executionId := x, audit := [event seq type actor metadata] } :=
  ⟨rfl, rfl, by simpa [event], by simp, rfl, rfl, rfl⟩

theorem lazyExpire_built (a : Id) (approval : ApprovalRequest) (now : Time) :
    Built (ExpiryOp a) (ExpiryChunk a) (lazyExpire a approval now : Db W ApprovalStatus) := by
  unfold lazyExpire
  split
  · exact .ret _
  · refine .bind (built_write _ rfl) fun expired => .bind (built_query _ trivial) fun _ => ?_
    split
    · refine .bind (built_query _ trivial) fun _ => .bind (built_query _ trivial) fun _ =>
        .bind (built_rows fun attempt seq => ?_) fun _ => .bind (built_query _ trivial) fun _ => .ret _
      split
      · exact .expiry approval now _ _ rfl
      · refine Yields.bind (P := fun _ => True) ⟨trivial, fun _ => trivial⟩ fun _ _ => ?_
        refine Yields.bind (P := fun _ => True) ⟨trivial, fun _ => trivial⟩ fun _ _ => ?_
        exact .expiry approval now _ _ rfl
    · exact .ret _

/-- The statements of the resolution outside its chunks and the call of the tool. -/
def Beside (a : Id) (approve : Bool) : Op W.Tables → Prop
  | .tool _ | .note _ => False
  | o => ApprovalOp a approve o

theorem Beside.approvalOp {a : Id} {approve : Bool} {o : Op W.Tables} (h : Beside a approve o) :
    ApprovalOp a approve o := by
  rcases o with _ | _ | _ | _
  · exact h
  · exact h
  · exact h.elim
  · exact h.elim

/-- The parts of the resolution of approval `a`. -/
inductive Part (a : Id) (approve : Bool) : ∀ {ε α : Type}, Program W.statements ε α → Prop
  | piece {ε α : Type} {p : Program W.statements ε α} :
      Piece (Beside a approve) (ApprovalChunk a) False p → Part a approve p
  | tool {ε α : Type} {p : Program W.statements ε α} : approve = true → ToolPart (some a) p →
      Part a approve p

abbrev Parted (a : Id) (approve : Bool) {ε α : Type} (p : Program W.statements ε α) : Prop :=
  Composed (Part a approve) p

theorem parted {a : Id} {approve : Bool} {ε α : Type} {p : Program W.statements ε α}
    (h : Built (Beside a approve) (ApprovalChunk a) p) : Parted a approve p :=
  Composed.mono h .piece

theorem finalizeExecutionOutcome_built (a : Id) (approval : ApprovalRequest) (agentName : String)
    (success : Bool) (error : Option ToolError) (result : Option Value) :
    Built (Beside a true) (ApprovalChunk a)
      (finalizeExecutionOutcome a approval agentName success error result : Db W _) :=
  .bind (built_query _ trivial) fun _ =>
    .bind (built_chunk fun _ => .resolution rfl (.outcome _ _ _ _ _)) fun _ => .ret _

theorem executeApprovedAction_parted (a : Id) (approval : ApprovalRequest) (agentName : String) :
    Parted a true (executeApprovedAction a approval agentName : Db W _) := by
  refine .bind (parted (built_chunk fun seq => .routine (event_routine _ _ _ _ (by decide)) rfl)) fun _ => ?_
  split
  · exact parted (finalizeExecutionOutcome_built a approval agentName _ _ _)
  · rename_i tool hregistered
    refine .bind (.tryCatch (.bind (.atom (.tool rfl (.call tool _ hregistered rfl))) fun _ => .ret _)
      fun _ => .ret _) fun outcome => parted ?_
    split
    · exact finalizeExecutionOutcome_built a approval agentName _ _ _
    · split
      · exact finalizeExecutionOutcome_built a approval agentName _ _ _
      · exact finalizeExecutionOutcome_built a approval agentName _ _ _

theorem resolveClaimed_parted (a : Id) (approval : ApprovalRequest) (operator : Operator)
    (approve : Bool) (reason : Option String) (now : Time) :
    Parted a approve (resolveClaimed a approval operator approve reason now : Db W _) := by
  refine .bind (parted (built_query _ trivial)) fun agent => ?_
  split
  · rename_i happrove
    subst happrove
    exact .bind (parted (built_chunk fun seq => .routine (event_routine _ _ _ _ (by decide)) rfl)) fun _ =>
      executeApprovedAction_parted a approval _
  · split
    · exact parted (.bind (built_chunk fun seq => .resolution rfl (.rejection _ _ _)) fun _ => .ret _)
    · exact .raise _

theorem claimAndResolve_parted (a : Id) (approval : ApprovalRequest) (operator : Operator)
    (approve : Bool) (reason : Option String) (now : Time) :
    Parted a approve (claimAndResolve a approval operator approve reason now : Db W _) := by
  refine .bind (parted (built_write _ ⟨rfl, rfl⟩)) fun claimed =>
    .bind (parted (built_query _ trivial)) fun _ => ?_
  split
  · exact resolveClaimed_parted a approval operator approve reason now
  · exact .ret _

theorem ExpiryOp.beside {a : Id} {approve : Bool} {o : Op W.Tables} (h : ExpiryOp a o) : Beside a approve o := by
  rcases o with _ | w | _ | _
  · trivial
  · cases w <;> first | exact h | exact h.elim
  · exact h.elim
  · exact h.elim

theorem resolve_parted (a : Id) (operator : Operator) (approve : Bool) (reason : Option String) :
    Parted a approve (resolve a operator approve reason : Db W _) := by
  refine .bind (parted (built_query _ trivial)) fun approval => ?_
  split
  · exact .ret _
  · refine .bind (parted (built_query _ trivial)) fun now => .bind (parted ((lazyExpire_built a _ now).mono
      (fun _ => ExpiryOp.beside) fun _ _ _ => ExpiryChunk.approvalChunk)) fun status => ?_
    split
    · exact .ret _
    · refine .bind (parted (built_query _ trivial)) fun _ => .bind (parted (built_query _ trivial)) fun _ => ?_
      split
      · exact claimAndResolve_parted a _ operator approve reason now
      · exact .ret _

theorem resolve_built (a : Id) (operator : Operator) (approve : Bool) (reason : Option String) :
    Built (ApprovalOp a approve) (ApprovalChunk a) (resolve a operator approve reason : Db W _) := by
  refine Composed.mono (resolve_parted a operator approve reason) fun h => ?_
  cases h with
  | piece h => exact h.mono (fun _ => Beside.approvalOp) fun _ _ _ => id
  | tool happrove h =>
    cases h with
    | call tool tc _ ha => exact .statements (callTool_uses tool tc ⟨ha, happrove⟩ fun _ => trivial)

end SafeOps.ApprovalEngine
