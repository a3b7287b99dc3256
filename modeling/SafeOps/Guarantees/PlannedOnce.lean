import SafeOps.Bench
import SafeOps.Guarantees.Mediation
import SafeOps.Guarantees.TerminalStatus
import SafeOps.Observers.Planning
import SafeOps.Observers.Tooling

/-! What an execution's planner has proposed is done at most once: all its refunds carry one idempotency key
and all its deployments another, whoever runs them and however often. -/

namespace SafeOps
open Concurrent Program

variable {W : World} {ok : App W → Statement W → Prop} {c d : App W}

section Rows

theorem opening_kept {s s' : State W.Domain} {o : Op W.Tables} {r : o.Reply} (heff : Effect s o r s')
    (hids : s.Allocated) {x : Id} {opened : Id × String × Value} (hx : s.opening x = some opened) :
    s'.opening x = some opened := by
  rcases heff.opening x with he | ⟨row, _, rfl, _⟩
  · rw [he, hx]
  · rw [State.opening, hids _ (Nat.le_refl _)] at hx
    cases hx

/-- A run changes nothing of what an execution was opened with. -/
theorem ReachableWithin.opening (hc : ReachableWithin ok c) (h : Steps W.system ok c d) {x : Id}
    {opened : Id × String × Value} (hx : c.state.opening x = some opened) : d.state.opening x = some opened := by
  refine hc.onwards h (I := fun d : App W => d.state.opening x = some opened) hx (fun _ _ h => h)
    (fun d change h => ?_) fun d i call o k r s hd _ _ _ heff h => opening_kept heff hd.allocated h
  simpa [State.opening] using h

/-- The rows that a driving call has read are those of the execution. -/
theorem ReachableWithin.read_opening (h : ReachableWithin ok c) {x : Id} {i : Nat} {row : Execution}
    (hrow : row ∈ c.past (planning x) [] i) : c.state.opening x = some row.opening := by
  revert i row
  refine h.invariant (I := fun c => ∀ {i row}, row ∈ c.past (planning x) [] i →
    c.state.opening x = some row.opening) (by simp) (fun _ _ h => h)
    (fun d change h i row hrow => by simpa [State.opening] using h hrow) ?_
  intro d i call o k r s hd hw _ _ heff hI j row hrow
  rw [App.next_past] at hrow
  split at hrow
  · rcases o with q | _ | _ | _
    · cases q with
      | execution y =>
        simp only [planning] at hrow
        split at hrow
        · rename_i hy
          subst hy
          rcases List.mem_append.1 hrow with hrow | hrow
          · obtain ⟨hr, rfl⟩ := heff.of_query
            have read : d.state.executions y = some row := hr.symm.trans (Option.mem_toList.1 hrow)
            simp [State.opening, read, Execution.opening]
          · exact opening_kept heff hd.allocated (hI hrow)
        · exact opening_kept heff hd.allocated (hI hrow)
      | _ => exact opening_kept heff hd.allocated (hI hrow)
    all_goals exact opening_kept heff hd.allocated (hI hrow)
  · exact opening_kept heff hd.allocated (hI hrow)

end Rows

/-- The call that thread `i` runs. -/
def App.callOf (c : App W) (i : Nat) : Option Call := (c.threads[i]?).map (·.call)

/-- Thread `i` steps or resumes execution `x`. -/
def App.drives (c : App W) (x : Id) (i : Nat) : Bool := decide ((c.callOf i).bind Call.drives = some x)

/-- The statement commits the request for approval `a`. -/
def asksFor (a : Id) (e : Statement W) : Bool :=
  match committed? e.op e.reply with
  | some (_, t) =>
    match t.approval with
    | some (.insert b _) => b = a
    | _ => false
  | none => false

/-- Thread `i` acts on what the planner of execution `x` has proposed: it drives the execution, or it approves
what a thread that drives it has asked approval for. -/
def App.onBehalf (c : App W) (x : Id) (i : Nat) : Bool :=
  c.drives x i || match c.callOf i with
    | some (.approve a _) => c.history.any fun e => asksFor a e && c.drives x e.thread
    | _ => false

section Proposals

/-- Who enters the gateway while driving `x` does so with a proposal of its planner. -/
theorem ReachableWithin.proposed (h : ReachableWithin ok c) {e : Statement W} (he : e ∈ c.history)
    {call : GatewayCall} (hop : e.op = .note (.gatewayEnter call)) {x : Id} (hx : c.drives x e.thread = true) :
    ∃ row, Proposed W x row call ∧ c.state.opening x = some row.opening := by
  obtain ⟨i, o, r⟩ := e
  obtain rfl : o = .note (.gatewayEnter call) := hop
  obtain ⟨b, t, k, hb, hbc, ht, hw, _⟩ := h.answered he
  have hdrives : t.call.drives = some x := by simpa [App.drives, App.callOf, ht] using hx
  have hok := (hb.monitoredBy Call.code_planned).allowed hw
  simp only [Call.planning, hdrives] at hok
  obtain ⟨row, hrow, hcall⟩ := hok
  exact ⟨row, hcall, hb.opening hbc (hb.read_opening hrow)⟩

/-- The gateway call that is open in a thread has been entered by it. -/
theorem framing_entered {i : Nat} {history : List (Statement W)} {f : Frame}
    (h : openCall history i = some f) :
    ∃ e ∈ history, e.thread = i ∧ e.op = .note (.gatewayEnter f.call) := by
  unfold openCall at h
  induction history generalizing f with
  | nil => cases h
  | cons e history ih =>
    have older {f : Frame} (h : framing.after none i history = some f) :
        ∃ e' ∈ e :: history, e'.thread = i ∧ e'.op = .note (.gatewayEnter f.call) := by
      obtain ⟨e', he', rest⟩ := ih h
      exact ⟨e', List.mem_cons_of_mem e he', rest⟩
    by_cases hi : e.thread = i
    · subst hi
      rw [Monitor.after_self] at h
      rcases framing_step h with ⟨hop, _⟩ | ⟨f', hf', hext⟩
      · exact ⟨e, List.mem_cons_self .., rfl, hop⟩
      · rw [hext.call]
        exact older hf'
    · rw [Monitor.after_other hi] at h
      exact older h

theorem asksFor_iff {a : Id} {e : Statement W} : asksFor a e = true ↔
    ∃ g t row, Commits e.op e.reply g t ∧ t.approval = some (.insert a row) := by
  simp only [commits_iff]
  unfold asksFor
  split
  · rename_i g t hc
    split
    · rename_i b row ht
      simp [hc, ht]
    · rename_i ht
      simp only [hc, Bool.false_eq_true, false_iff, not_exists, not_and]
      rintro _ _ row ⟨⟩ hrow
      exact ht a row hrow
  · rename_i hc
    simp [hc]

/-- An approval that is asked for is put on file, where it was not before. -/
theorem asked_filed {s s' : State W.Domain} {i : Nat} {o : Op W.Tables} {r : o.Reply} (heff : Effect s o r s')
    {a : Id} (ha : asksFor a (⟨i, o, r⟩ : Statement W) = true) : s.approvals a = none ∧ s'.approvals a ≠ none := by
  obtain ⟨g, t, row, hc, ht⟩ := asksFor_iff.1 ha
  obtain ⟨_, hv, _, startedAt, rfl⟩ := heff.of_commits hc
  constructor
  · by_contra hne
    exact hv (.inr ⟨a, row, ht, hne⟩)
  · simp [ht, State.writeApproval]

/-- Each approval is asked for once. -/
theorem ReachableWithin.asked_once (h : ReachableWithin ok c) (a : Id) :
    (c.history.filter (asksFor a)).length ≤ 1 ∧
      (c.history.filter (asksFor a) ≠ [] → c.state.approvals a ≠ none) := by
  refine h.invariant (I := fun c => (c.history.filter (asksFor a)).length ≤ 1 ∧
    (c.history.filter (asksFor a) ≠ [] → c.state.approvals a ≠ none)) (by simp) (fun _ _ h => h)
    (fun d change h => by simpa using h) ?_
  rintro d i call o k r s hd hw hi _ heff ⟨honce, hfiled⟩
  rw [App.next_history, App.next_state, List.filter_cons]
  split
  · rename_i ha
    obtain ⟨hfree, hnew⟩ := asked_filed heff ha
    have none : d.history.filter (asksFor a) = [] := by
      by_contra hne
      exact hfiled hne hfree
    exact ⟨by simp [none], fun _ => hnew⟩
  · refine ⟨honce, fun hne => ?_⟩
    obtain ⟨row, hrow⟩ := Option.ne_none_iff_exists'.1 (hfiled hne)
    obtain ⟨row', hrow', _⟩ := heff.asked hrow
    simp [hrow']

theorem eq_of_length_le_one {α : Type} {l : List α} (h : l.length ≤ 1) {a b : α} (ha : a ∈ l) (hb : b ∈ l) :
    a = b := by
  obtain ⟨x, hx⟩ : ∃ x, l = [x] := List.length_eq_one_iff.1 (le_antisymm h (List.length_pos_of_mem ha))
  subst hx
  rw [List.mem_singleton.1 ha, List.mem_singleton.1 hb]

/-- A call that approves runs the tool on the strength of that approval. -/
def RunsApproved (call : Call) : Op W.Tables → Prop
  | .note (.toolExecute tc) => ∀ a operator, call = .approve a operator → tc.approvalId = some a
  | _ => True

theorem Call.code_runsApproved (call : Call) : (call.code : Db W CallResult).Uses (RunsApproved call) := by
  have others (h : ∀ a operator, call ≠ .approve a operator) :
      (call.code : Db W CallResult).Uses (RunsApproved call) := by
    refine (call.code_issued (W := W)).mono fun o _ => ?_
    rcases o with _ | _ | n | _
    · trivial
    · trivial
    · cases n with
      | toolExecute tc => exact fun a operator hcall => absurd hcall (h a operator)
      | _ => trivial
    · trivial
  cases call with
  | approve a operator =>
    refine .bind ((ApprovalEngine.resolve_built a operator true none).uses (fun o ho => ?_) (fun _ => trivial)
      fun _ _ _ h => Rows.Within.mono (Chunk.within (.approval h)) (fun _ _ _ => trivial)
        fun _ _ _ _ => trivial) fun _ => trivial
    rcases o with _ | _ | n | _
    · trivial
    · trivial
    · cases n with
      | toolExecute tc =>
        rintro b _ ⟨⟩
        exact ho.1
      | _ => trivial
    · trivial
  | _ => exact others (by simp)

/-- The planner proposes the tool call, at some history of the execution. -/
def App.Plans (c : App W) (x : Id) (tc : ToolCall) : Prop :=
  ∃ row history action, c.state.opening x = some row.opening ∧
    AgentRuntime.plannerDecision (W.nextAction x row history) = .toolAction action ∧
    tc.toolName = action.toolName ∧ tc.arguments = action.arguments.jsonSafe

/-- A tool call that serves the gateway call of a driving thread. -/
theorem ReachableWithin.plans (h : ReachableWithin ok c) {x : Id} {i : Nat} (hx : c.drives x i = true)
    {earlier : List (Statement W)} (hsub : earlier ⊆ c.history) {f : Frame} (hf : openCall earlier i = some f)
    {tc : ToolCall} (ht : tc.toolName = f.call.toolName) (ha : tc.arguments = f.call.arguments.jsonSafe) :
    c.Plans x tc := by
  obtain ⟨e, he, rfl, hop⟩ := framing_entered hf
  obtain ⟨row, ⟨history, action, hplan, hcall⟩, hrow⟩ := h.proposed (hsub he) hop hx
  exact ⟨row, history, action, hrow, hplan, by rw [ht, hcall]; rfl, by rw [ha, hcall]; rfl⟩

/-- The tool calls on behalf of an execution are those its planner proposes. -/
theorem ReachableWithin.onBehalf_plans (h : ReachableWithin ok c) {e : Statement W} (he : e ∈ c.history)
    {tc : ToolCall} (hop : e.op = .note (.toolExecute tc)) {x : Id} (hx : c.onBehalf x e.thread = true) :
    c.Plans x tc := by
  obtain ⟨later, earlier, hist⟩ := List.append_of_mem he
  have sub : earlier ⊆ c.history := fun e he => by simp [hist, he]
  obtain ⟨t, ht, happroving⟩ := h.attributed Call.code_approving e he
  obtain ⟨t', ht', hruns⟩ := h.attributed Call.code_runsApproved e he
  obtain rfl := Option.some.inj (ht.symm.trans ht')
  rw [hop] at happroving hruns
  have call : c.callOf e.thread = some t.call := by simp [App.callOf, ht]
  rcases h.mediated hist hop with ⟨hnone, f, hf, hadmits⟩ | ⟨a, ha, row, _, _, htc, hasked, _⟩
  · -- a direct call is the driving thread's own, for an approving one runs approved actions only
    rcases Bool.or_eq_true_iff.1 hx with hdrives | happrove
    · exact h.plans hdrives sub hf hadmits.tool hadmits.arguments
    · rw [call] at happrove
      cases hcall : t.call with
      | approve a operator => exact absurd (hruns a operator hcall) (by simp [hnone])
      | _ => simp [hcall] at happrove
  · obtain ⟨operator, hcall⟩ := happroving a ha
    obtain ⟨l, e₁, before, g, txn, f, hsplit, hc, hinsert, hf, hescalates⟩ := hasked
    rcases Bool.or_eq_true_iff.1 hx with hdrives | happrove
    · simp [App.drives, call, hcall, Call.drives] at hdrives
    · rw [call, hcall] at happrove
      obtain ⟨e₂, he₂, hboth⟩ := List.any_eq_true.1 happrove
      obtain ⟨hasks, hdrives⟩ := Bool.and_eq_true_iff.1 hboth
      have he₁ : e₁ ∈ c.history := sub (by simp [hsplit])
      have hasks₁ : asksFor a e₁ = true := asksFor_iff.2 ⟨g, txn, row, hc, hinsert⟩
      obtain rfl := eq_of_length_le_one (h.asked_once a).1 (List.mem_filter.2 ⟨he₁, hasks₁⟩)
        (List.mem_filter.2 ⟨he₂, hasks⟩)
      refine h.plans hdrives (fun e he => sub (by simp [hsplit, he])) hf ?_ ?_
      · rw [htc]
        exact hescalates.tool
      · rw [htc]
        exact hescalates.arguments

/-- What a tool does on behalf of an execution is what its planner proposes. -/
theorem ReachableWithin.planned_tool (h : ReachableWithin ok c) {e : Statement W} (he : e ∈ c.history)
    {o : W.Tables.Op} (hop : e.op = .tool o) {x : Id} (hx : c.onBehalf x e.thread = true) :
    ∃ tc, c.Plans x tc ∧ tc.MayIssue o := by
  obtain ⟨later, earlier, hist⟩ := List.append_of_mem he
  have hok := h.lawful Call.code_tooling hist
  rw [hop] at hok
  obtain ⟨tc, htc, hissue⟩ := hok
  obtain ⟨e', he', hthread, hop'⟩ := tooling_recorded htc
  have sub : earlier ⊆ c.history := fun e he => by simp [hist, he]
  exact ⟨tc, h.onBehalf_plans (sub he') hop' (hthread ▸ hx), hissue⟩

end Proposals

namespace Premises

variable {P : Premises}

/-- The statement creates a row only as the named tool does when run on the arguments: under their key. -/
def KeyedBy (name : String) (arguments : Value) : ToolOp P.Others → Prop
  | .ledger (.commitRefund row) =>
    name = "refund_payment" ∧ arguments.get? "idempotency_key" = some (.str row.idempotencyKey)
  | .devops (.commitDeployment row) => (name = "deploy_staging" ∨ name = "deploy_production") ∧
    ∀ key, arguments.get? "idempotency_key" = some (.str key) → row.idempotencyKey = some key
  | _ => True

theorem textField_eq_some {arguments : Value} {key text : String} (h : textField arguments key = some text) :
    arguments.get? key = some (.str text) := by
  unfold textField at h
  split at h
  · rename_i s hs
    rw [hs, Option.some.inj h]
  · cases h

theorem refundKey_of_validate {amount : Value → Option Decimal} {arguments : Value} {input : RefundPaymentInput}
    (h : RefundPaymentInput.validate amount arguments = some input) :
    arguments.get? "idempotency_key" = some (.str input.idempotencyKey) := by
  simp only [RefundPaymentInput.validate, Option.bind_eq_bind, Option.bind_eq_some_iff] at h
  obtain ⟨paymentId, _, amount, _, reason, _, key, hkey, h⟩ := h
  split at h
  · obtain rfl := Option.some.inj h
    exact textField_eq_some hkey
  · cases h

theorem deployKey_of_validate {arguments : Value} {input : DeployInput}
    (h : DeployInput.validate arguments = some input) {key : String}
    (hkey : arguments.get? "idempotency_key" = some (.str key)) : input.idempotencyKey = some key := by
  simp only [DeployInput.validate, Option.bind_eq_bind, Option.bind_eq_some_iff] at h
  obtain ⟨serviceName, _, version, _, key', hkey', h⟩ := h
  obtain rfl := Option.some.inj h
  simpa [optionalTextField, hkey] using hkey'.symm

/-- The statement commits a refund under this key only. -/
def RefundsUnder (key : String) : LedgerOp → Prop
  | .commitRefund row => row.idempotencyKey = key
  | _ => True

/-- The statement commits a deployment under this key only. -/
def DeploysUnder (key : Option String) : DevopsOp → Prop
  | .commitDeployment row => row.idempotencyKey = key
  | _ => True

theorem refund_keyed (input : RefundPaymentInput) :
    (RefundPaymentTool.run input).Uses (RefundsUnder input.idempotencyKey) := by
  have replayed (refund : Refund) : (RefundPaymentTool.replay refund).Uses (RefundsUnder input.idempotencyKey) :=
    ⟨trivial, fun _ => trivial⟩
  refine ⟨trivial, fun (existing : Option Refund) => ?_⟩
  cases existing with
  | some existing => exact replayed existing
  | none =>
    refine ⟨trivial, fun (payment : Option Payment) => ?_⟩
    cases payment with
    | none => trivial
    | some payment =>
      change (ite _ _ _ : RefundPaymentTool.LedgerM _).Uses _
      split
      · trivial
      · split
        · trivial
        · refine ⟨rfl, fun (committed : Bool) => ?_⟩
          cases committed with
          | true =>
            refine ⟨trivial, fun (refund : Option Refund) => ⟨trivial, fun (payment : Option Payment) => ?_⟩⟩
            cases refund <;> cases payment <;> trivial
          | false =>
            refine ⟨trivial, fun (existing : Option Refund) => ?_⟩
            cases existing with
            | none => trivial
            | some existing => exact replayed existing

theorem existing_keyed (key key' : Option String) : (DeployTool.existing key').Uses (DeploysUnder key) := by
  cases key' with
  | none => trivial
  | some key' => exact ⟨trivial, fun _ => trivial⟩

theorem deploy_keyed (input : DeployInput) (environment : DeploymentEnvironment) :
    (DeployTool.deploy input environment).Uses (DeploysUnder input.idempotencyKey) := by
  refine .bind (.bind ⟨trivial, fun _ => trivial⟩ fun (service : Option Service) => ?_) fun service =>
    .bind (existing_keyed _ _) fun deployment => ?_
  · cases service <;> trivial
  · cases deployment with
    | some deployment => trivial
    | none =>
      refine .bind ⟨rfl, fun _ => trivial⟩ fun (committed : Option Id) => .bind ?_ fun deployment => ?_
      · cases committed with
        | some id => exact ⟨trivial, fun _ => trivial⟩
        | none => exact existing_keyed _ _
      · cases deployment <;> trivial

/-- The registered tools create rows under the key of their arguments. -/
theorem registry_keyed {name : String} {tool : BaseTool P.tables} (h : P.registry name = some tool)
    (arguments : Value) : (tool.run arguments).Uses (KeyedBy name arguments) := by
  have deploys (hname : name = "deploy_staging" ∨ name = "deploy_production") (environment : DeploymentEnvironment) :
      ((P.deployTool name environment).run arguments).Uses (KeyedBy name arguments) := by
    simp only [deployTool]
    split
    · rename_i input hinput
      refine .bind ((embed_requests (S := P.tables) (T := Releases.statements) ToolOp.devops (fun _ r => r)
        (DeployTool.deploy input environment)).mono ?_) fun _ => trivial
      rintro _ ⟨o, rfl, ho⟩
      have hkeyed := (deploy_keyed input environment).of_requests ho
      cases o with
      | commitDeployment row => exact ⟨hname, fun key hkey => hkeyed.trans (deployKey_of_validate hinput hkey)⟩
      | _ => trivial
    · trivial
  unfold registry at h
  split at h
  · rename_i hname
    obtain rfl := Option.some.inj h
    simp only [refundPaymentTool]
    split
    · rename_i input hinput
      refine .bind ((embed_requests (S := P.tables) (T := Ledger.statements) ToolOp.ledger (fun _ r => r)
        (RefundPaymentTool.run input)).mono ?_) fun _ => trivial
      rintro _ ⟨o, rfl, ho⟩
      have hkeyed := (refund_keyed input).of_requests ho
      cases o with
      | commitRefund row =>
        refine ⟨hname, ?_⟩
        rw [refundKey_of_validate hinput, show row.idempotencyKey = input.idempotencyKey from hkeyed]
      | _ => trivial
    · trivial
  · split at h
    · obtain rfl := Option.some.inj h
      exact deploys (.inl ‹_›) .staging
    · split at h
      · obtain rfl := Option.some.inj h
        exact deploys (.inr ‹_›) .production
      · obtain ⟨other, _, rfl⟩ := Option.map_eq_some_iff.1 h
        refine (embed_requests (S := P.tables) ToolOp.other (fun _ r => r) (other.run arguments)).mono ?_
        rintro _ ⟨o, rfl, _⟩
        trivial

/-- The refund that an answered statement has created. -/
def refundOf : (o : ToolOp P.Others) → o.Reply → Option Refund
  | .ledger (.commitRefund row) => fun (committed : Bool) => if committed then some row else none
  | _ => fun _ => none

/-- The deployment that an answered statement has created. -/
def deploymentOf : (o : ToolOp P.Others) → o.Reply → Option Deployment
  | .devops (.commitDeployment row) => fun (id : Option Id) => id.map fun id => { row with id }
  | _ => fun _ => none

/-- What comes of an answered statement, if a tool has issued it. -/
def ofTool {β : Type} (f : (o : ToolOp P.Others) → o.Reply → Option β) (e : Statement P.world) : Option β :=
  match e with
  | ⟨_, .tool o, r⟩ => f o r
  | _ => none

/-- The statements answered on behalf of the execution. -/
def actsFor (c : App P.world) (x : Id) : List (Statement P.world) :=
  c.history.filter fun e => c.onBehalf x e.thread

def createdRefunds (c : App P.world) (x : Id) : List Refund := (actsFor c x).filterMap (ofTool refundOf)

def createdDeployments (c : App P.world) (x : Id) : List Deployment :=
  (actsFor c x).filterMap (ofTool deploymentOf)

theorem refundOf_op {o : ToolOp P.Others} {r : o.Reply} {row : Refund} (h : refundOf o r = some row) :
    o = .ledger (.commitRefund row) := by
  rcases o with o | _ | _
  · cases o with
    | commitRefund row' =>
      obtain ⟨_, hrow⟩ := Option.ite_none_right_eq_some.1 h
      rw [Option.some.inj hrow]
    | _ => cases h
  all_goals cases h

theorem deploymentOf_op {o : ToolOp P.Others} {r : o.Reply} {row : Deployment} (h : deploymentOf o r = some row) :
    ∃ row', o = .devops (.commitDeployment row') ∧ row'.idempotencyKey = row.idempotencyKey := by
  rcases o with _ | o | _
  · cases h
  · cases o with
    | commitDeployment row' =>
      obtain ⟨id, _, rfl⟩ := Option.map_eq_some_iff.1 h
      exact ⟨row', rfl, rfl⟩
    | _ => cases h
  · cases h

/-- What the planner of the deterministic application proposes. -/
theorem plans_proposal {c : App P.world} {x : Id} {tc : ToolCall} (h : c.Plans x tc) :
    ∃ agentId objective context action, c.state.opening x = some (agentId, objective, context) ∧
      DeterministicPlanner.Proposal x (P.text.lower objective) action ∧ tc.toolName = action.toolName ∧
      tc.arguments.get? "idempotency_key" = (action.arguments.get? "idempotency_key").map Value.jsonSafe := by
  obtain ⟨row, history, action, hrow, hplan, hname, hargs⟩ := h
  refine ⟨_, _, _, action, hrow, ?_, hname, by rw [hargs, Value.get?_jsonSafe]⟩
  have yields : (DeterministicPlanner.plan P.text P.patterns x row history).Yields
      (DeterministicPlanner.Proposes x (P.text.lower row.objective)) :=
    DeterministicPlanner.plan_proposes row
  change AgentRuntime.plannerDecision (DeterministicPlanner.nextAction P.text P.patterns x row history) = _ at hplan
  unfold DeterministicPlanner.nextAction at hplan
  split at hplan
  · rename_i decision hdecision
    obtain rfl : decision = .toolAction action := hplan
    rw [hdecision] at yields
    exact yields
  · cases hplan

variable {c : App P.world} {x : Id}

/-- Every refund made on behalf of an execution carries its key. -/
theorem createdRefund_key (h : Reachable c) {row : Refund} (hrow : row ∈ createdRefunds c x) :
    row.idempotencyKey = DeterministicPlanner.refundKey x := by
  obtain ⟨⟨i, o, r⟩, he, hcreated⟩ := List.mem_filterMap.1 hrow
  obtain ⟨he, hx⟩ := List.mem_filter.1 he
  rcases o with _ | _ | _ | o
  · cases hcreated
  · cases hcreated
  · cases hcreated
  · obtain rfl := refundOf_op hcreated
    obtain ⟨tc, hplans, tool, hregistered, hrequests⟩ := h.planned_tool he rfl hx
    obtain ⟨hname, hkey⟩ : KeyedBy (P := P) tc.toolName tc.arguments (.ledger (.commitRefund row)) :=
      (registry_keyed hregistered tc.arguments).of_requests hrequests
    obtain ⟨_, _, _, action, _, hproposal, haction, hargs⟩ := plans_proposal hplans
    rw [hargs, hproposal.refund_key (haction ▸ hname)] at hkey
    simpa [Value.jsonSafe] using hkey.symm

/-- Every deployment made on behalf of an execution carries the key of its objective. -/
theorem createdDeployment_key (h : Reachable c) {row : Deployment} (hrow : row ∈ createdDeployments c x) :
    ∃ agentId objective context, c.state.opening x = some (agentId, objective, context) ∧
      row.idempotencyKey =
        some (DeterministicPlanner.deployKey x (DeterministicPlanner.deployTool (P.text.lower objective))) := by
  obtain ⟨⟨i, o, r⟩, he, hcreated⟩ := List.mem_filterMap.1 hrow
  obtain ⟨he, hx⟩ := List.mem_filter.1 he
  rcases o with _ | _ | _ | o
  · cases hcreated
  · cases hcreated
  · cases hcreated
  · obtain ⟨row', rfl, hsame⟩ := deploymentOf_op hcreated
    obtain ⟨tc, hplans, tool, hregistered, hrequests⟩ := h.planned_tool he rfl hx
    obtain ⟨hname, hkey⟩ : KeyedBy (P := P) tc.toolName tc.arguments (.devops (.commitDeployment row')) :=
      (registry_keyed hregistered tc.arguments).of_requests hrequests
    obtain ⟨agentId, objective, context, action, hopening, hproposal, haction, hargs⟩ := plans_proposal hplans
    refine ⟨agentId, objective, context, hopening, hsame.symm.trans (hkey _ ?_)⟩
    rw [hargs, hproposal.deploy_key (haction ▸ hname)]
    rfl

/-- The keys in the index of the refunds. -/
def Books.refundKeys (s : P.Books) : List String := s.ledger.refunds.map (·.idempotencyKey)

/-- The keys in the index of the deployments. -/
def Books.deploymentKeys (s : P.Books) : List String := s.releases.deployments.filterMap (·.idempotencyKey)

/-- The key under which an answered statement has put a new row on file. -/
def keyOf {β : Type} (f : (o : ToolOp P.Others) → o.Reply → Option β) (key : β → Option String)
    (o : ToolOp P.Others) (r : o.Reply) : Option String :=
  (f o r).bind key

/-- A refund is put on file only under a key that has not been used. -/
theorem exec_refundKeys (o : ToolOp P.Others) (s : P.Books) : s.refundKeys ⊆ (P.exec o s).2.refundKeys ∧
    ∀ key, keyOf refundOf (fun row => some row.idempotencyKey) o (P.exec o s).1 = some key →
      key ∉ s.refundKeys ∧ key ∈ (P.exec o s).2.refundKeys := by
  rcases o with o | o | o
  · cases o with
    | commitRefund row =>
      simp only [exec, Ledger.exec, Ledger.commitRefund, Books.refundKeys, keyOf, refundOf]
      split
      · simp
      · rename_i hfree
        have hfree : row.idempotencyKey ∉ s.ledger.refunds.map (·.idempotencyKey) := fun h => hfree (.inl h)
        refine ⟨by simp, fun key hkey => ?_⟩
        obtain rfl : row.idempotencyKey = key := by simpa using hkey
        exact ⟨hfree, by simp⟩
    | _ => exact ⟨fun _ h => h, by simp [keyOf, refundOf]⟩
  all_goals exact ⟨fun _ h => h, by simp [keyOf, refundOf]⟩

/-- A deployment is put on file under no key, or under one that has not been used. -/
theorem exec_deploymentKeys (o : ToolOp P.Others) (s : P.Books) :
    s.deploymentKeys ⊆ (P.exec o s).2.deploymentKeys ∧
    ∀ key, keyOf deploymentOf (·.idempotencyKey) o (P.exec o s).1 = some key →
      key ∉ s.deploymentKeys ∧ key ∈ (P.exec o s).2.deploymentKeys := by
  rcases o with o | o | o
  · exact ⟨fun _ h => h, by simp [keyOf, deploymentOf]⟩
  · cases o with
    | commitDeployment row =>
      simp only [exec, Releases.exec, Releases.commitDeployment, Books.deploymentKeys, keyOf, deploymentOf]
      split
      · simp
      · rename_i hfree
        refine ⟨by simp [List.filterMap_append], fun key hkey => ?_⟩
        have hkey : row.idempotencyKey = some key := by simpa using hkey
        refine ⟨fun hmem => ?_, by simp [hkey]⟩
        obtain ⟨old, hold, hsame⟩ := List.mem_filterMap.1 hmem
        exact hfree (.inl ⟨by simp [hkey], List.mem_map.2 ⟨old, hold, by rw [hsame, hkey]⟩⟩)
    | _ => exact ⟨fun _ h => h, by simp [keyOf, deploymentOf]⟩
  · exact ⟨fun _ h => h, by simp [keyOf, deploymentOf]⟩

section Index

variable {β : Type} {f : (o : ToolOp P.Others) → o.Reply → Option β} {key : β → Option String}
  {keys : P.Books → List String}

/-- No two statements of a run put rows on file under one key. -/
theorem keys_nodup (h : Reachable c) (tick : ∀ s : P.Books, keys (s.tick P) = keys s)
    (index : ∀ o s, keys s ⊆ keys (P.exec o s).2 ∧ ∀ k, keyOf f key o (P.exec o s).1 = some k →
      k ∉ keys s ∧ k ∈ keys (P.exec o s).2) : (c.history.filterMap (ofTool (keyOf f key))).Nodup := by
  obtain ⟨_, ⟨s, _, rfl⟩, hs⟩ := h
  refine hs.keys_nodup (I := fun s => keys s.domain) (fun change s => ?_) (fun o s => ?_) fun i o s k hk => ?_
  · cases change <;> exact fun _ h => h
  · rcases o with q | w | n | o
    · exact fun _ h => h
    · have hsame : (P.world.exec (.write w) s).2.domain = s.domain :=
        (P.world.exec_effect (.write w) s).domain (by simp)
      change keys s.domain ⊆ keys (P.world.exec (.write w) s).2.domain
      rw [hsame]
      exact fun _ h => h
    · exact fun _ h => h
    · have hkept := (index o (s.domain.tick P)).1
      rwa [show keys (s.domain.tick P) = keys s.domain from tick s.domain] at hkept
  · rcases o with q | w | n | o
    · cases hk
    · cases hk
    · cases hk
    · have hfresh := (index o (s.domain.tick P)).2 k hk
      rwa [show keys (s.domain.tick P) = keys s.domain from tick s.domain] at hfresh

/-- Rows that come of some of the statements, all under one key, are at most one. -/
theorem length_le_one (hnodup : (c.history.filterMap (ofTool (keyOf f key))).Nodup) {k : String}
    (hkey : ∀ row ∈ (actsFor c x).filterMap (ofTool f), key row = some k) :
    ((actsFor c x).filterMap (ofTool f)).length ≤ 1 := by
  have hbind (e : Statement P.world) : ofTool (keyOf f key) e = (ofTool f e).bind key := by
    unfold ofTool keyOf
    split <;> rfl
  have hkeys : (actsFor c x).filterMap (ofTool (keyOf f key)) =
      ((actsFor c x).filterMap (ofTool f)).filterMap key := by
    rw [List.filterMap_filterMap]
    exact List.filterMap_congr fun e _ => hbind e
  have hsub : (((actsFor c x).filterMap (ofTool f)).filterMap key).Nodup := by
    rw [← hkeys]
    exact hnodup.sublist (List.filter_sublist.filterMap _)
  have hsame : ((actsFor c x).filterMap (ofTool f)).filterMap key =
      List.replicate ((actsFor c x).filterMap (ofTool f)).length k := by
    rw [List.filterMap_congr hkey, List.filterMap_eq_map', List.map_const']
  rw [hsame] at hsub
  exact List.nodup_replicate.1 hsub

end Index

/-- An execution's planner brings about at most one refund and at most one deployment. -/
theorem planned_once (h : Reachable c) (x : Id) :
    (createdRefunds c x).length ≤ 1 ∧ (createdDeployments c x).length ≤ 1 := by
  refine ⟨?_, ?_⟩
  · refine length_le_one (k := DeterministicPlanner.refundKey x)
      (keys_nodup h (fun _ => rfl) exec_refundKeys) fun row hrow => ?_
    exact congrArg some (createdRefund_key h hrow)
  · by_cases hnone : createdDeployments c x = []
    · simp [hnone]
    obtain ⟨first, hfirst⟩ := List.exists_mem_of_ne_nil _ hnone
    obtain ⟨agentId, objective, context, hopening, _⟩ := createdDeployment_key h hfirst
    refine length_le_one
      (k := DeterministicPlanner.deployKey x (DeterministicPlanner.deployTool (P.text.lower objective)))
      (keys_nodup h (fun _ => rfl) exec_deploymentKeys) fun row hrow => ?_
    obtain ⟨_, _, _, hopening', hkey⟩ := createdDeployment_key h hrow
    obtain ⟨-, rfl, -⟩ : _ ∧ _ ∧ _ := by simpa using hopening'.symm.trans hopening
    exact hkey

/-- Thread 2 holds the lease when it expires; thread 3 takes it over and deploys; then thread 2 goes on. -/
def recoveryMoves : List (Move Call Change) :=
  deployMoves ++ arrival (.step 0) 2 6 ++ .disturb (.setClock 2000) :: arrival (.step 0) 3 80 ++
    List.replicate 80 (.run 2)

theorem planned_once_recovered :
    (createdRefunds (afterDeploying .allow recoveryMoves) 0).length ≤ 1 ∧
      (createdDeployments (afterDeploying .allow recoveryMoves) 0).length ≤ 1 :=
  planned_once (replay_reachable (State.unreleased_fresh .allow) recoveryMoves) 0

/-- Both threads have come to an end there, each with a step of its own, and one build has been deployed. -/
example : (afterDeploying .allow recoveryMoves).Quiescent ∧
    ((afterDeploying .allow recoveryMoves).state.steps 0).length = 3 ∧
    (afterDeploying .allow recoveryMoves).state.domain.releases.deployments.length = 1 := by
  decide +kernel

end Premises

end SafeOps
