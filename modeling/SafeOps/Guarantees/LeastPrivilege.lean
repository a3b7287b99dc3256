import SafeOps.Api.Server
import SafeOps.Bench
import SafeOps.Guarantees.Origins
import SafeOps.Inventory.Duties

/-! Who has done what: everything that needs a permission has been done for a principal that had it. -/

namespace SafeOps.Api
open Concurrent

variable {W : World} {hashToken : String → String} {s : Server W} {endpoint : Endpoint}

section Principals

/-- The caller is a human with the permission. -/
def Grant.Holds (grant : Grant endpoint) (p : Permission) : Prop :=
  grant.operator.principalType = .operator ∧ p ∈ rolePermissions grant.operator.role

/-- The caller is an integration with the scope. -/
def Grant.Integrates (grant : Grant endpoint) (scope : String) : Prop :=
  grant.operator.principalType = .integration ∧ scope ∈ grant.scopes

theorem refusal_permission {operator : Security.Operator} {scopes : List String} {p : Permission}
    (h : (Requirement.permission p).refusal operator scopes = none) : p ∈ rolePermissions operator.role := by
  by_contra hp
  simp [Requirement.refusal, hp] at h

/-- An integration may do no more than read: its role is that of a viewer. -/
theorem Grant.holds (grant : Grant endpoint) {p : Permission} (hr : endpoint.requirement = .permission p)
    (hp : p ≠ .read) : grant.Holds p := by
  have allowed : p ∈ rolePermissions grant.operator.role := refusal_permission (hr ▸ grant.permitted)
  refine ⟨?_, allowed⟩
  cases htype : grant.operator.principalType with
  | operator => rfl
  | integration =>
    have viewer : grant.operator.role = .viewer := grant.checked.resolve_left fun h => h htype
    rw [viewer, rolePermissions, List.mem_singleton] at allowed
    exact absurd allowed hp

theorem Grant.integrates (grant : Grant endpoint) {scope : String} (hr : endpoint.requirement = .scope scope) :
    grant.Integrates scope := by
  have permitted := grant.permitted
  rw [hr, Requirement.refusal] at permitted
  split at permitted
  · cases permitted
  · rename_i htype
    split at permitted
    · cases permitted
    · rename_i hscope
      exact ⟨not_not.1 htype, not_not.1 hscope⟩

end Principals

section Requests

/-- The thread of a request that has been let in. -/
def Stage.thread : Stage endpoint → Option Nat
  | admitted _ i => some i
  | _ => none

/-- Request `r` has been let in, as thread `i`. -/
def Server.LetIn (s : Server W) (r i : Nat) (endpoint : Endpoint) (grant : Grant endpoint) : Prop :=
  s.requests[r]? = some ⟨endpoint, .admitted grant i⟩

/-- The threads of the application are the requests that have been let in. -/
structure Served (s : Server W) : Prop where
  reachable : SafeOps.Reachable s.app
  letIn : ∀ i t, s.app.threads[i]? = some t → ∃ r endpoint grant, s.LetIn r i endpoint grant ∧
    t.call = endpoint.call grant.operator
  numbered : ∀ r i endpoint grant, s.LetIn r i endpoint grant → i < s.app.threads.length
  once : ∀ r r' i endpoint endpoint' grant grant', s.LetIn r i endpoint grant →
    s.LetIn r' i endpoint' grant' → r = r'

variable {r : Nat} {old stage : Stage endpoint}

theorem letIn_of_set (hr : s.requests[r]? = some ⟨endpoint, old⟩) (hold : old.thread = none)
    (hstage : stage.thread = none) {r' i : Nat} {endpoint' : Endpoint} {grant' : Grant endpoint'} :
    (s.set r endpoint stage).LetIn r' i endpoint' grant' ↔ s.LetIn r' i endpoint' grant' := by
  have hlt : r < s.requests.length := (List.getElem?_eq_some_iff.1 hr).1
  by_cases h : r = r'
  · subst h
    refine iff_of_false (fun hset => ?_) fun hin => ?_
    · rw [Server.LetIn, Server.set, List.getElem?_set_self hlt] at hset
      cases hset
      cases hstage
    · rw [Server.LetIn, hr] at hin
      cases hin
      cases hold
  · rw [Server.LetIn, Server.set, List.getElem?_set_ne h]
    rfl

theorem letIn_of_admit (hr : s.requests[r]? = some ⟨endpoint, old⟩) (grant : Grant endpoint) {r' i : Nat}
    {endpoint' : Endpoint} {grant' : Grant endpoint'} (h : (s.enter r grant).LetIn r' i endpoint' grant') :
    (r' = r ∧ i = s.app.threads.length) ∨ (r' ≠ r ∧ s.LetIn r' i endpoint' grant') := by
  have hlt : r < s.requests.length := (List.getElem?_eq_some_iff.1 hr).1
  by_cases hrr : r = r'
  · subst hrr
    rw [Server.LetIn, Server.enter, List.getElem?_set_self hlt] at h
    cases h
    exact .inl ⟨rfl, rfl⟩
  · rw [Server.LetIn, Server.enter, List.getElem?_set_ne hrr] at h
    exact .inr ⟨fun he => hrr he.symm, h⟩

namespace Served

theorem congr {s' : Server W} (h : Served s) (happ : s'.app = s.app) (hrequests : s'.requests = s.requests) :
    Served s' := by
  obtain ⟨app, accounts, limiter, requests, failures⟩ := s'
  subst happ hrequests
  exact ⟨h.reachable, h.letIn, h.numbered, h.once⟩

theorem set (h : Served s) (hr : s.requests[r]? = some ⟨endpoint, old⟩) (hold : old.thread = none)
    (hstage : stage.thread = none) : Served (s.set r endpoint stage) where
  reachable := h.reachable
  letIn i t ht := by
    obtain ⟨r', endpoint', grant', hin, hcall⟩ := h.letIn i t ht
    exact ⟨r', endpoint', grant', (letIn_of_set hr hold hstage).2 hin, hcall⟩
  numbered _ _ _ _ hin := h.numbered _ _ _ _ ((letIn_of_set hr hold hstage).1 hin)
  once _ _ _ _ _ _ _ hin hin' :=
    h.once _ _ _ _ _ _ _ ((letIn_of_set hr hold hstage).1 hin) ((letIn_of_set hr hold hstage).1 hin')

theorem enter (h : Served s) (hr : s.requests[r]? = some ⟨endpoint, old⟩) (hold : old.thread = none)
    (grant : Grant endpoint) : Served (s.enter r grant) where
  reachable := by
    obtain ⟨c₀, h₀, hsteps⟩ := h.reachable
    exact ⟨c₀, h₀, .spawn hsteps _⟩
  letIn i t ht := by
    have hlt : r < s.requests.length := (List.getElem?_eq_some_iff.1 hr).1
    have ht : (s.app.threads ++ [⟨endpoint.call grant.operator, (endpoint.call grant.operator).code⟩])[i]? = some t := ht
    by_cases hi : i < s.app.threads.length
    · rw [List.getElem?_append_left hi] at ht
      obtain ⟨r', endpoint', grant', hin, hcall⟩ := h.letIn i t ht
      refine ⟨r', endpoint', grant', ?_, hcall⟩
      have hne : r ≠ r' := by
        rintro rfl
        rw [Server.LetIn, hr] at hin
        cases hin
        cases hold
      rw [Server.LetIn, Server.enter, List.getElem?_set_ne hne]
      exact hin
    · have hbound := (List.getElem?_eq_some_iff.1 ht).1
      rw [List.length_append, List.length_singleton] at hbound
      obtain rfl : i = s.app.threads.length := by omega
      rw [List.getElem?_concat_length] at ht
      obtain rfl := Option.some.inj ht
      exact ⟨r, endpoint, grant, List.getElem?_set_self hlt, rfl⟩
  numbered r' i endpoint' grant' hin := by
    rw [Server.enter, Config.spawn, List.length_append, List.length_singleton]
    rcases letIn_of_admit hr grant hin with ⟨_, rfl⟩ | ⟨_, hin⟩
    · exact Nat.lt_succ_self _
    · exact Nat.lt_succ_of_lt (h.numbered _ _ _ _ hin)
  once r' r'' i _ _ _ _ hin hin' := by
    rcases letIn_of_admit hr grant hin with ⟨hr', hi⟩ | ⟨_, hin⟩ <;>
      rcases letIn_of_admit hr grant hin' with ⟨hr'', hi'⟩ | ⟨_, hin'⟩
    · rw [hr', hr'']
    · exact absurd (h.numbered _ _ _ _ hin') (by omega)
    · exact absurd (h.numbered _ _ _ _ hin) (by omega)
    · exact h.once _ _ _ _ _ _ _ hin hin'

/-- The application goes on without a new call. -/
theorem onwards (h : Served s) {app : App W} (hstep : Run W.system s.app app)
    (hcalls : app.threads.map (·.call) = s.app.threads.map (·.call)) : Served { s with app := app } where
  reachable := by
    obtain ⟨c₀, h₀, hsteps⟩ := h.reachable
    exact ⟨c₀, h₀, hsteps.trans hstep⟩
  letIn i t ht := by
    have hcall : (app.threads.map (·.call))[i]? = some t.call := by
      rw [List.getElem?_map, ht]
      rfl
    rw [hcalls, List.getElem?_map] at hcall
    obtain ⟨t', ht', hcall⟩ := Option.map_eq_some_iff.1 hcall
    obtain ⟨r, endpoint, grant, hin, hcall'⟩ := h.letIn i t' ht'
    exact ⟨r, endpoint, grant, hin, hcall ▸ hcall'⟩
  numbered r i _ _ hin := by
    have hlength := congrArg List.length hcalls
    rw [List.length_map, List.length_map] at hlength
    exact hlength ▸ h.numbered _ _ _ _ hin
  once := h.once

theorem limit (h : Served s) (hr : s.requests[r]? = some ⟨endpoint, old⟩) (hold : old.thread = none)
    (grant : Grant endpoint) (bucket : String) (settings : RateLimit.Settings) (now : Rat) :
    Served (s.limit r grant bucket settings now) := by
  have limited (limiter : RateLimit.Limiter) : Served { s with limiter := limiter } := h.congr rfl rfl
  unfold Server.limit
  simp only
  split
  · refine enter (limited _) ?_ hold grant
    exact hr
  · refine set (limited _) ?_ hold rfl
    exact hr

theorem proceed (h : Served s) (r : Nat) : Served (s.proceed hashToken r) := by
  unfold Server.proceed
  split
  · exact h
  · rename_i endpoint authHeader hr
    split <;> exact h.set hr rfl rfl
  · rename_i endpoint credential hr
    split
    · exact (h.set hr rfl (show (Stage.refused _ : Stage endpoint).thread = none from rfl)).congr rfl rfl
    · exact h.set hr rfl rfl
  · rename_i endpoint grant hr
    split
    · exact h.enter hr rfl grant
    · exact h.set hr rfl rfl
  · rename_i endpoint grant bucket settings now hr
    exact h.limit hr rfl grant bucket settings now
  · exact h
  · exact h

theorem move (h : Served s) (m : Move) : Served (s.move hashToken m) := by
  cases m with
  | receive endpoint authHeader =>
    have same {r i : Nat} {endpoint' : Endpoint} {grant : Grant endpoint'} :
        (s.move hashToken (.receive endpoint authHeader)).LetIn r i endpoint' grant ↔ s.LetIn r i endpoint' grant := by
      unfold Server.LetIn
      by_cases hr : r < s.requests.length
      · rw [Server.move, List.getElem?_append_left hr]
      · rw [Server.move, List.getElem?_append_right (Nat.le_of_not_lt hr), List.getElem?_eq_none (Nat.le_of_not_lt hr)]
        refine iff_of_false (fun hin => ?_) fun hin => (by cases hin)
        cases List.mem_singleton.1 (List.mem_of_getElem? hin)
    exact ⟨h.reachable, fun i t ht => (h.letIn i t ht).imp fun r ⟨endpoint, grant, hin, hcall⟩ =>
      ⟨endpoint, grant, same.2 hin, hcall⟩, fun r i _ _ hin => h.numbered _ _ _ _ (same.1 hin),
      fun r r' i _ _ _ _ hin hin' => h.once _ _ _ _ _ _ _ (same.1 hin) (same.1 hin')⟩
  | proceed r => exact h.proceed r
  | administer accounts => exact h.congr rfl rfl
  | tick later => exact h.congr rfl rfl
  | run i =>
    refine h.onwards (.move .refl _ fun _ _ => trivial) ?_
    exact (replay_calls s.app [.run i]).trans (List.append_nil _)
  | disturb change => exact h.onwards (.disturb .refl change) rfl

end Served

theorem Server.Reachable.served (h : s.Reachable hashToken) : Served s := by
  obtain ⟨state, accounts, clock, moves, hfresh, rfl⟩ := h
  have start : Served (Server.start state accounts clock : Server W) :=
    ⟨⟨_, ⟨state, hfresh, rfl⟩, .refl⟩, fun i t ht => (by cases ht), fun r i _ _ hin => (by cases hin),
      fun r r' i _ _ _ _ hin => (by cases hin)⟩
  suffices ∀ s : Server W, Served s → Served (s.replay hashToken moves) from this _ start
  induction moves with
  | nil => exact fun _ h => h
  | cons m moves ih => exact fun s h => ih (s.move hashToken m) (h.move m)

end Requests

/-- Everything that needs a permission has been done by a request that was let in, once, for an active principal
with a live token: tools were called for humans who may execute, for integrations that may submit, and on approvals
for humans who may approve. -/
structure Accountable (s : Server W) : Prop where
  toolCalls : ∀ e ∈ s.app.history, ∀ tc, e.op = .note (.toolExecute tc) →
    ∃ r endpoint grant, s.LetIn r e.thread endpoint grant ∧
      ((tc.approvalId = none ∧ (∃ x, endpoint = .stepExecution x ∨ endpoint = .resumeExecution x) ∧
          grant.Holds .execute) ∨
        (tc.approvalId = none ∧ (∃ body, endpoint = .submitAction body) ∧ grant.Integrates "actions:submit") ∨
        ∃ a, tc.approvalId = some a ∧ endpoint = .approveApproval a ∧ grant.Holds .approve)
  decisions : ∀ a row, s.app.state.approvals a = some row → row.Resolved →
    ∃ r i endpoint grant, s.LetIn r i endpoint grant ∧ grant.Holds .approve ∧
      row.resolvedBy = some grant.operator.username ∧
      ((endpoint = .approveApproval a ∧ row.status ≠ .rejected) ∨
        ∃ reason, endpoint = .rejectApproval a reason ∧ row.status = .rejected)
  executions : ∀ x row, s.app.state.executions x = some row →
    ∃ r i endpoint grant, s.LetIn r i endpoint grant ∧
      ((∃ objective context, endpoint = .createExecution row.agentId objective context ∧ grant.Holds .execute) ∨
        ∃ body, endpoint = .submitAction body ∧ body.executionId = none ∧ body.safeopsAgentId = row.agentId ∧
          grant.Integrates "actions:submit")
  cancellations : ∀ e ∈ s.app.history, ∀ x now, e.op = .write (.cancel x now) →
    ∃ r grant, s.LetIn r e.thread (.cancelExecution x) grant ∧ grant.Holds .execute
  externalRequests : ∀ o key row, s.app.state.externalRequests o key = some row →
    ∃ r i body grant, s.LetIn r i (.submitAction body) grant ∧ grant.Integrates "actions:submit" ∧
      grant.operator.id = o ∧ body.externalRequestId = key

section Calls

variable {operator : Security.Operator}

theorem call_approve {a : Id} {by' : SafeOps.Operator} (h : endpoint.call operator = .approve a by') :
    endpoint = .approveApproval a ∧ by'.username = operator.username := by
  cases endpoint <;> cases h
  exact ⟨rfl, rfl⟩

theorem call_reject {a : Id} {by' : SafeOps.Operator} {reason : Option String}
    (h : endpoint.call operator = .reject a by' reason) :
    endpoint = .rejectApproval a reason ∧ by'.username = operator.username := by
  cases endpoint <;> cases h
  exact ⟨rfl, rfl⟩

theorem call_submit {o : Id} {body : SubmitActionRequest} (h : endpoint.call operator = .submit o body) :
    endpoint = .submitAction body ∧ operator.id = o := by
  cases endpoint <;> cases h
  exact ⟨rfl, rfl⟩

theorem call_startExecution {agentId : Id} {objective : String} {context : Option Value}
    (h : endpoint.call operator = .startExecution agentId objective context) :
    endpoint = .createExecution agentId objective context := by
  cases endpoint <;> cases h
  rfl

theorem call_cancel {x : Id} (h : endpoint.call operator = .cancel x) : endpoint = .cancelExecution x := by
  cases endpoint <;> cases h
  rfl

theorem call_directs (h : (endpoint.call operator).Directs) :
    (∃ x, endpoint = .stepExecution x ∨ endpoint = .resumeExecution x) ∨ ∃ body, endpoint = .submitAction body := by
  cases endpoint with
  | stepExecution x => exact .inl ⟨x, .inl rfl⟩
  | resumeExecution x => exact .inl ⟨x, .inr rfl⟩
  | submitAction body => exact .inr ⟨body, rfl⟩
  | _ => exact h.elim

end Calls

/-- Behind every statement stands a request that was let in, and whose call issues such statements. -/
theorem Served.behind (h : Served s) {e : Statement W} (he : e ∈ s.app.history) :
    ∃ r endpoint grant, s.LetIn r e.thread endpoint grant ∧ (endpoint.call grant.operator).Does e.op := by
  obtain ⟨t, ht, hdoes⟩ := h.reachable.attributed Call.code_does e he
  obtain ⟨r, endpoint, grant, hin, hcall⟩ := h.letIn _ t ht
  exact ⟨r, endpoint, grant, hin, hcall ▸ hdoes⟩

/-- An approver, and an integration that may submit. -/
def benchAccounts : Accounts where
  tables :=
    { operators := [⟨0, "approver", .approver, .operator, true⟩, ⟨1, "integration", .viewer, .integration, true⟩]
      tokens := [⟨0, "a", none, none⟩, ⟨1, "b", none, none⟩] }
  consistent := ⟨by decide, by decide, by decide, by decide, by decide, by decide⟩
  integrationScopes o := if o = 1 then ["actions:submit"] else []

/-- Request `i` arrives with a token and is let in as thread `i`, which then runs for `n` statements. -/
def visit (endpoint : Endpoint) (token : String) (i n : Nat) : List Move :=
  .receive endpoint (some ("Bearer " ++ token)) :: (List.replicate 4 (.proceed i) ++ List.replicate n (.run i))

/-- The integration submits a refund, and the approver approves it. -/
def refundMoves : List Move :=
  visit (.submitAction
    { externalRequestId := "refund", safeopsAgentId := 0, toolName := "refund_payment", arguments := .dict [] }) "b" 0 60 ++
      visit (.approveApproval 4) "a" 1 30

def afterVisits (moves : List Move) : Server bench :=
  (Server.start (.bench .requireApproval) benchAccounts 0).replay id moves

end SafeOps.Api
