import SafeOps.Observers.Mandate

/-! Where the gateway calls of an execution come from: a call that steps or resumes it enters the gateway
with what the planner proposes for the execution as the call has read it. -/

namespace SafeOps
open Concurrent Program

variable {W : World} {ε α : Type}

/-- The planner proposes the gateway call, at some history, for the execution as this row has it. -/
def Proposed (W : World) (x : Id) (row : Execution) (call : GatewayCall) : Prop :=
  ∃ history action, AgentRuntime.plannerDecision (W.nextAction x row history) = .toolAction action ∧
    call = AgentRuntime.gatewayCall x row.agentId action

/-- Follows a call that steps or resumes execution `x`: the rows it has read of the execution. -/
def planning (x : Id) : Monitor W.statements (List Execution) where
  next m o := match o with
    | .query (.execution y) => fun (row : Option Execution) => if y = x then row.toList ++ m else m
    | _ => fun _ => m
  ok m
    | .note (.gatewayEnter call) => ∃ row ∈ m, Proposed W x row call
    | _ => True

/-- The execution that a call steps or resumes. -/
def Call.drives : Call → Option Id
  | step x | resume x => some x
  | _ => none

/-- Follows any call; only those that drive an execution are bound to its planner. -/
def Call.planning (call : Call) : Monitor W.statements (List Execution) :=
  match call.drives with
  | some x => SafeOps.planning x
  | none => ⟨fun m _ _ => m, fun _ _ => True⟩

section Rules

variable {x : Id} {m : List Execution}

theorem planning_reads (m : List Execution) (o : Op W.Tables) (r : o.Reply) :
    m ⊆ (planning x).next m o r := by
  rcases o with q | _ | _ | _
  · cases q with
    | execution y =>
      simp only [planning]
      split
      · exact List.subset_append_right _ _
      · exact fun _ h => h
    | _ => exact fun _ h => h
  all_goals exact fun _ h => h

/-- A program that enters the gateway as proposed for rows that have been read. -/
theorem Uses.planned {p : Program W.statements ε α}
    (h : p.Uses (Entering fun call => ∃ row ∈ m, Proposed W x row call)) :
    p.Obeys (planning x) (fun _ _ => True) (fun _ _ => True) m := by
  refine (h.keeps (I := (m ⊆ ·)) (fun m' o ho hm => ?_)
    (fun m' o r _ hm => List.Subset.trans hm (planning_reads m' o r)) (fun _ h => h)).mono
      (fun _ _ _ => trivial) fun _ _ _ => trivial
  rcases o with _ | _ | n | _
  · trivial
  · trivial
  · cases n with
    | gatewayEnter call =>
      obtain ⟨row, hrow, hcall⟩ := ho
      exact ⟨row, hm hrow, hcall⟩
    | _ => trivial
  · trivial

end Rules

namespace AgentRuntime

variable {x : Id} {m : List Execution}

theorem advance_planned {execution : Execution} (hrow : execution ∈ m) :
    (advance x execution : Db W RuntimeResult).Obeys (planning x) (fun _ _ => True) (fun _ _ => True) m := by
  refine Uses.planned ?_
  refine .bind ((uses_call _).2 trivial) fun history =>
    .bind (runtime_enters (failMaxStepsExceeded_built x _)) fun exceeded => ?_
  split
  · trivial
  · split
    · exact runtime_enters (finalStep_built x _ _ _ _ _ rfl (by decide) (by decide) (by decide))
    · exact runtime_enters (finalStep_built x _ _ _ _ _ rfl (by decide) (by decide) (by decide))
    · rename_i action hplan
      refine (toolCallStep_enters x _ action).mono fun o ho => ho.mono ?_
      rintro call rfl
      exact ⟨execution, hrow, history, action, hplan, rfl⟩

theorem resumePending_planned {execution : Execution} :
    (resumePending x execution : Db W RuntimeResult).Obeys (planning x) (fun _ _ => True) (fun _ _ => True) m := by
  refine .call_bind trivial fun (pendingStep : Option ExecutionStep) => ?_
  cases pendingStep with
  | none => trivial
  | some pendingStep =>
    refine .bind (Uses.planned (runtime_enters (settlePendingStep_built x pendingStep))) (fun _ _ _ => trivial)
      fun outcome m' _ => ?_
    split
    · refine .call_bind trivial fun (execution : Option Execution) => ?_
      cases execution with
      | none => trivial
      | some execution => exact advance_planned (by simp [planning])
    · exact Uses.planned (runtime_enters (settledResult_built x _ _ outcome))

/-- A critical section, whose body starts from the row that has just been read. -/
theorem withStepping_planned {conflict : Execution → α} {body : Execution → Db W α}
    (h : ∀ execution m', execution ∈ m' →
      (body execution).Obeys (planning x) (fun _ _ => True) (fun _ _ => True) m') :
    (withStepping x conflict body).Obeys (planning x) (fun _ _ => True) (fun _ _ => True) m := by
  refine ⟨trivial, fun claimId => ⟨trivial, fun now => ⟨trivial, fun claimed => ⟨trivial, fun execution => ?_⟩⟩⟩⟩
  cases (show Option Execution from execution) with
  | none => trivial
  | some execution =>
    cases (show Bool from claimed) with
    | false => trivial
    | true =>
      refine (obeys_tryFinally _ _).2 ((h execution _ ?_).mono ?_ ?_)
      · simp [planning]
      · exact fun _ _ _ => ⟨trivial, fun _ => trivial⟩
      · exact fun _ _ _ => ⟨trivial, fun _ => trivial⟩

theorem step_planned : (step x : Db W RuntimeResult).Obeys (planning x) (fun _ _ => True) (fun _ _ => True) m := by
  refine .call_bind trivial fun (execution : Option Execution) => ?_
  cases execution with
  | none => trivial
  | some execution =>
    simp only
    split
    · trivial
    · refine withStepping_planned fun execution m' hm => ?_
      split
      · trivial
      · exact advance_planned hm

theorem resume_planned : (resume x : Db W RuntimeResult).Obeys (planning x) (fun _ _ => True) (fun _ _ => True) m := by
  refine .call_bind trivial fun (execution : Option Execution) => ?_
  cases execution with
  | none => trivial
  | some execution =>
    simp only
    split
    · trivial
    · split
      · trivial
      · refine withStepping_planned fun execution m' hm => ?_
        split
        · trivial
        · exact resumePending_planned

end AgentRuntime

/-- Every call that drives an execution does as its planner proposes. -/
theorem Call.code_planned (call : Call) : (call.code : Db W CallResult).Obeys call.planning
    (fun _ _ => True) (fun _ _ => True) [] := by
  have others (h : call.drives = none) : (call.code : Db W CallResult).Obeys call.planning
      (fun _ _ => True) (fun _ _ => True) [] := by
    simp only [Call.planning, h]
    exact (call.code_issued (W := W)).keeps (I := fun _ => True) (fun _ _ _ _ => trivial) (fun _ _ _ _ _ => trivial) trivial
  cases call with
  | step x => exact .bind AgentRuntime.step_planned (fun _ _ h => h) fun _ _ _ => trivial
  | resume x => exact .bind AgentRuntime.resume_planned (fun _ _ h => h) fun _ _ _ => trivial
  | _ => exact others rfl

end SafeOps
