import SafeOps.Inventory.Sections
import SafeOps.Observers.Mandate

/-! Who holds the lease of an execution: a call enters and saves its steps, and enters the gateway for it, under
the lease, which it has given back when it ends. -/

namespace SafeOps
open Concurrent Program

variable {W : World} {ε α : Type}

/-- Where a call is with the lease of an execution: it has none, it has claimed it and not read the execution
yet, or it holds it. -/
inductive Tenure
  | free
  | claimed (executionId claimId : Id)
  | held (executionId claimId : Id)

/-- The execution and the claim id of the lease. -/
def Tenure.lease : Tenure → Option (Id × Id)
  | free => none
  | claimed x claimId | held x claimId => some (x, claimId)

/-- Follows the lease of a call. -/
def holding : Monitor W.statements Tenure where
  next m o := match o with
    | .write (.claimStepping x claimId _ _) => fun (claimed : Bool) => if claimed then .claimed x claimId else m
    | .write (.releaseStepping _ _) => fun _ => .free
    | .query (.execution _) => fun (row : Option Execution) =>
      match m with
      | .claimed x claimId => if row.isSome then .held x claimId else .free
      | m => m
    | _ => fun _ => m
  ok m o := match o with
    | .write (.claimStepping _ _ _ _) => m = .free
    | .write (.releaseStepping x claimId) => m = .held x claimId
    | .write (.insertStep x _) | .write (.saveStep x _) => ∃ claimId, m = .held x claimId
    | .write (.commit _ t) | .write (.commitIf _ _ t) =>
      t.step ≠ none → ∃ claimId, m = .held t.executionId claimId
    | .note (.gatewayEnter call) => ∀ x claimId, m = .held x claimId → call.executionId = x
    | _ => True

/-- What a call may request while it holds the lease of `x`. -/
def Under (x : Id) : Op W.Tables → Prop
  | .write (.claimStepping _ _ _ _) | .write (.releaseStepping _ _) => False
  | .write (.insertStep y _) | .write (.saveStep y _) => y = x
  | .write (.commit _ t) | .write (.commitIf _ _ t) => t.step ≠ none → t.executionId = x
  | .note (.gatewayEnter call) => call.executionId = x
  | _ => True

/-- What a call may request while it holds no lease. -/
def Unleased : Op W.Tables → Prop
  | .write (.claimStepping _ _ _ _) | .write (.releaseStepping _ _) | .write (.insertStep _ _)
  | .write (.saveStep _ _) => False
  | .write (.commit _ t) | .write (.commitIf _ _ t) => t.step = none
  | _ => True

section Rules

variable {x claimId : Id} {o : Op W.Tables}

theorem Under.ok (h : Under x o) : holding.ok (.held x claimId) o := by
  rcases o with _ | w | n | _
  · trivial
  · cases w with
    | commit | commitIf => exact fun hs => ⟨claimId, by rw [h hs]⟩
    | insertStep | saveStep => exact ⟨claimId, by rw [show _ = x from h]⟩
    | claimStepping | releaseStepping => exact h.elim
    | _ => trivial
  · cases n with
    | gatewayEnter call =>
      intro y claimId' hm
      obtain ⟨rfl, _⟩ := Tenure.held.inj hm
      exact h
    | _ => trivial
  · trivial

theorem Under.next (h : Under x o) (r : o.Reply) : holding.next (.held x claimId) o r = .held x claimId := by
  rcases o with q | w | n | _
  · cases q <;> rfl
  · cases w <;> first | rfl | exact h.elim
  · cases n <;> rfl
  · rfl

theorem Unleased.ok (h : Unleased o) : holding.ok .free o := by
  rcases o with _ | w | n | _
  · trivial
  · cases w with
    | commit | commitIf => exact fun hs => absurd h hs
    | claimStepping | releaseStepping | insertStep | saveStep => exact h.elim
    | _ => trivial
  · cases n with
    | gatewayEnter call => exact nofun
    | _ => trivial
  · trivial

theorem Unleased.next (h : Unleased o) (r : o.Reply) : holding.next .free o r = .free := by
  rcases o with q | w | n | _
  · cases q <;> rfl
  · cases w <;> first | rfl | exact h.elim
  · cases n <;> rfl
  · rfl

/-- The lease is as `m` says. -/
def Holds (m : Tenure) {γ : Type} (_ : γ) (m' : Tenure) : Prop := m' = m

theorem Uses.held {p : Program W.statements ε α} (h : p.Uses (Under x)) :
    p.Obeys holding (Holds (.held x claimId)) (Holds (.held x claimId)) (.held x claimId) :=
  h.keeps (I := (· = Tenure.held x claimId)) (fun _ _ ho hm => hm ▸ ho.ok) (fun _ _ r ho hm => hm ▸ ho.next r) rfl

theorem Uses.unleased {p : Program W.statements ε α} (h : p.Uses Unleased) :
    p.Obeys holding (Holds .free) (Holds .free) .free :=
  h.keeps (I := (· = Tenure.free)) (fun _ _ ho hm => hm ▸ ho.ok) (fun _ _ r ho hm => hm ▸ ho.next r) rfl

end Rules

/-- Neither a chunk nor a gateway call has to do with the lease. -/
def Leaseless : Op W.Tables → Prop
  | .write (.claimStepping _ _ _ _) | .write (.releaseStepping _ _) => False
  | _ => True

theorem Leaseless.unleased {o : Op W.Tables} (h : Leaseless o) (hs : Stepless o) : Unleased o := by
  rcases o with _ | w | n | _
  · trivial
  · cases w with
    | commit | commitIf => exact hs.step
    | claimStepping | releaseStepping => exact h
    | insertStep | saveStep => exact hs.elim
    | _ => trivial
  · trivial
  · trivial

theorem pieces_leaseless {C : Id → Nat → Rows W → Prop} {K : Op W.Tables → Prop}
    {p : Program W.statements ε α} (h : Built K C p) (hK : ∀ o, K o → Leaseless o)
    (hC : ∀ x seq rows, C x seq rows → Chunk x seq rows) : p.Uses Leaseless :=
  h.uses hK (fun _ => trivial) fun x seq rows h => (hC x seq rows h).within.mono (fun _ _ _ => trivial)
    fun _ _ _ _ => trivial

theorem Reads.leaseless {o : Op W.Tables} (h : Reads o) : Leaseless o := by
  rcases o with _ | (_ | _) | _ | _ <;> first | exact h.elim | trivial

theorem ToolGateway.execute_leaseless (call : GatewayCall) (context : Option Value) :
    (execute call context : Db W GatewayResult).Uses Leaseless :=
  pieces_leaseless (execute_built call context) (fun _ => Reads.leaseless) fun _ _ _ => .gateway

theorem ToolGateway.execute_under {x : Id} (call : GatewayCall) (context : Option Value)
    (hx : call.executionId = x) : (execute call context : Db W GatewayResult).Uses (Under x) := by
  refine ((execute_enters call context).and ((execute_leaseless call context).and
    (execute_stepless call context))).mono fun o h => ?_
  obtain ⟨henter, hlease, hsteps⟩ := h
  rcases o with _ | w | n | _
  · trivial
  · cases w with
    | commit | commitIf => exact fun hs => absurd hsteps.step hs
    | claimStepping | releaseStepping => exact hlease
    | insertStep | saveStep => exact hsteps.elim
    | _ => trivial
  · cases n with
    | gatewayEnter call' =>
      obtain rfl : call' = call := henter
      exact hx
    | _ => trivial
  · trivial

theorem Critical.under {x : Id} {p : Program W.statements ε α} (h : Critical x p) : p.Uses (Under x) :=
  h.confined {
    query := fun _ => trivial
    insertStep := fun _ _ => rfl
    saveStep := fun _ _ => rfl
    plain := fun _ _ _ h _ => h.execution
    guarded := fun _ _ _ _ h _ => h.execution
    gateway := ToolGateway.execute_under }

section Parts

variable {p : Program W.statements ε α}

/-- The part of a call takes no lease, or gives it back. -/
abbrev GivesBack (p : Program W.statements ε α) : Prop := p.Obeys holding (Holds .free) (Holds .free) .free

theorem AgentRuntime.withStepping_returns {x : Id} {conflict : Execution → α} {body : Execution → Db W α}
    (h : ∀ execution, (body execution).Uses (Under x)) : GivesBack (withStepping x conflict body) := by
  have section_ (claimId : Id) (execution : Execution) :
      ((body execution).tryFinally (releaseStepping x claimId)).Obeys holding (Holds .free) (Holds .free)
        (.held x claimId) := by
    refine (obeys_tryFinally _ _).2 ((Uses.held (h execution)).mono ?_ ?_)
    · rintro _ _ rfl
      exact ⟨rfl, fun _ => rfl⟩
    · rintro _ _ rfl
      exact ⟨rfl, fun _ => rfl⟩
  refine ⟨trivial, fun (claimId : Id) => ⟨trivial, fun now => ⟨rfl, fun (claimed : Bool) => ⟨trivial, ?_⟩⟩⟩⟩
  intro (execution : Option Execution)
  cases claimed <;> cases execution with
  | none => rfl
  | some execution => first | rfl | exact section_ claimId execution

theorem LeasePart.returns (h : LeasePart p) : GivesBack p := by
  cases h with
  | query q => cases q <;> exact ⟨trivial, fun _ => rfl⟩
  | critical x conflict body h =>
    exact AgentRuntime.withStepping_returns fun execution => (h execution).uses Critical.under

theorem AmendPart.returns (h : AmendPart p) : GivesBack p := by
  cases h with
  | leasing h => exact h.returns
  | update row columns => exact Uses.unleased ((uses_call _).2 trivial)
  | audit x type metadata ht => exact Uses.unleased (commitChunk_uses trivial fun _ _ => rfl)

theorem CallPart.returns (h : CallPart p) : GivesBack p := by
  have unleased {ε α : Type} {p : Program W.statements ε α} (h : p.Uses Leaseless) (hs : p.Uses Stepless) :
      GivesBack p :=
    Uses.unleased ((h.and hs).mono fun _ h => h.1.unleased h.2)
  cases h with
  | service h =>
    cases h with
    | amend h => exact h.returns
    | insert row => exact Uses.unleased ((uses_call _).2 trivial)
    | start agentId objective context =>
      refine unleased (pieces_leaseless (AgentRuntime.startExecution_built agentId objective context)
        (fun o ho => ?_) fun _ _ _ => .runtime) (AgentRuntime.startExecution_stepless agentId objective context)
      rcases o with _ | w | _ | _
      · trivial
      · cases w <;> trivial
      · trivial
      · trivial
  | gateway call context =>
    exact unleased (ToolGateway.execute_leaseless call context) (ToolGateway.execute_stepless call context)
  | resolve a operator approve reason =>
    refine unleased (pieces_leaseless (ApprovalEngine.resolve_built a operator approve reason)
      (fun o ho => ?_) fun _ _ _ => .approval) (ApprovalEngine.resolve_stepless a operator approve reason)
    rcases o with _ | w | _ | _
    · trivial
    · cases w <;> trivial
    · trivial
    · trivial
  | cancel x =>
    refine unleased (pieces_leaseless (AgentRuntime.cancel_built x) (fun o ho => ?_) fun _ _ _ => .cancel)
      (AgentRuntime.cancel_stepless x)
    rcases o with _ | w | _ | _
    · trivial
    · cases w <;> trivial
    · trivial
    · trivial

end Parts

/-- Every call gives back the lease it has taken. -/
theorem Call.code_holding (call : Call) :
    (call.code : Db W CallResult).Obeys holding (Holds .free) (Holds .free) .free :=
  Composed.keeps call.code_parts (I := (· = Tenure.free)) (fun {_ _ _} h {_} hm => by
    subst hm
    exact h.returns) rfl

end SafeOps
