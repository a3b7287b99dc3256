import SafeOps.Core.RateLimit
import SafeOps.Core.Security
import SafeOps.System

/-! `app/api`: the endpoints that act, whom they let pass, and the server that serves them. -/

namespace SafeOps.Api
open Concurrent

section Permissions

inductive Permission
  | read
  | execute
  | approve
  deriving DecidableEq

/-- `ROLE_PERMISSIONS`. -/
def rolePermissions : Security.OperatorRole → List Permission
  | .viewer => [.read]
  | .operator => [.read, .execute]
  | .approver => [.read, .approve]
  | .admin => [.read, .execute, .approve]

/-- The tables that say who may do what, with the scopes of every operator. -/
structure Accounts where
  tables : Security.Tables
  consistent : tables.Consistent
  integrationScopes : Id → List String

structure HttpException where
  statusCode : Nat
  code : String
  message : String
  deriving DecidableEq

def unauthorized (e : Security.Unauthorized) : HttpException := ⟨e.statusCode, e.code, e.message⟩

def forbidden : HttpException := ⟨403, "FORBIDDEN", "Your role does not permit this action."⟩

def insufficientScope (message : String) : HttpException := ⟨403, "INSUFFICIENT_SCOPE", message⟩

def rateLimited (e : RateLimit.Refusal) : HttpException := ⟨e.statusCode, e.code, e.message⟩

/-- What an endpoint asks of its caller: `require_permission` or `require_scope`. -/
inductive Requirement
  | permission (permission : Permission)
  | scope (scope : String)

/-- The exception of the dependency for a caller that it does not let pass. -/
def Requirement.refusal (operator : Security.Operator) (scopes : List String) : Requirement → Option HttpException
  | permission p => if p ∈ rolePermissions operator.role then none else some forbidden
  | scope s =>
    if operator.principalType ≠ .integration then
      some (insufficientScope "This endpoint requires an integration principal.")
    else if s ∉ scopes then some (insufficientScope s!"Integration is missing required scope: {s}.")
    else none

end Permissions

section Endpoints

/-- A request for one of the endpoints that act, its path and its body parsed. -/
inductive Endpoint
  | createExecution (agentId : Id) (objective : String) (context : Option Value)
  | stepExecution (executionId : Id)
  | resumeExecution (executionId : Id)
  | cancelExecution (executionId : Id)
  | approveApproval (approvalId : Id)
  | rejectApproval (approvalId : Id) (reason : Option String)
  | submitAction (body : SubmitActionRequest)
  | getAction (externalRequestId : String)

namespace Endpoint

def requirement : Endpoint → Requirement
  | createExecution _ _ _ | stepExecution _ | resumeExecution _ | cancelExecution _ => .permission .execute
  | approveApproval _ | rejectApproval _ _ => .permission .approve
  | submitAction _ => .scope "actions:submit"
  | getAction _ => .scope "actions:read"

/-- The bucket of the rate limiter and its bounds. -/
def limit : Endpoint → Option (String × RateLimit.Settings)
  | createExecution _ _ _ => some ("execution_create", ⟨20, 60⟩)
  | stepExecution _ => some ("execution_step", ⟨120, 60⟩)
  | resumeExecution _ => some ("execution_resume", ⟨120, 60⟩)
  | cancelExecution _ => none
  | approveApproval _ | rejectApproval _ _ => some ("approval_resolve", ⟨30, 60⟩)
  | submitAction _ => some ("integration_action_submit", ⟨30, 60⟩)
  | getAction _ => some ("integration_action_read", ⟨120, 60⟩)

/-- The call that the body of the endpoint makes. Who resolves an approval is the caller, whatever the request says. -/
def call (operator : Security.Operator) : Endpoint → Call
  | createExecution agentId objective context => .startExecution agentId objective context
  | stepExecution x => .step x
  | resumeExecution x => .resume x
  | cancelExecution x => .cancel x
  | approveApproval a => .approve a ⟨operator.id, operator.username⟩
  | rejectApproval a reason => .reject a ⟨operator.id, operator.username⟩ reason
  | submitAction body => .submit operator.id body
  | getAction key => .getStatus operator.id key

end Endpoint

/-- A token that was neither revoked nor expired when it was read. -/
structure Credential where
  token : Security.OperatorToken
  readAt : Time
  live : token.Live readAt

/-- A caller that the dependencies of the endpoint have let pass. -/
structure Grant (endpoint : Endpoint) where
  credential : Credential
  operator : Security.Operator
  owner : operator.id = credential.token.operatorId
  scopes : List String
  active : operator.isActive = true
  checked : operator.Checked
  permitted : endpoint.requirement.refusal operator scopes = none

end Endpoints

section Dependencies

/-- `get_current_operator` up to its second query: the token in the header. -/
def identify (hashToken : String → String) (now : Time) (tables : Security.Tables) (authHeader : Option String) :
    Except Security.Unauthorized Credential :=
  match authHeader with
  | none => .error Security.unauthorized
  | some authHeader =>
    let scheme := authHeader.toList.takeWhile (· ≠ ' ')
    let rawToken := strip ((authHeader.toList.dropWhile (· ≠ ' ')).drop 1)
    if Security.isBearer scheme = false ∨ rawToken = [] then .error Security.unauthorized
    else
      match tables.hashed (hashToken (String.ofList rawToken)) with
      | none => .error Security.unauthorized
      | some token => if h : token.Live now then .ok ⟨token, now, h⟩ else .error Security.unauthorized

/-- The rest of `get_current_operator`. -/
def currentOperator (tables : Security.Tables) (credential : Credential) :
    Except Security.Unauthorized Security.Operator :=
  match tables.operators.find? fun o => o.id = credential.token.operatorId with
  | none => .error Security.unauthorized
  | some operator => if operator.isActive then .ok operator else .error Security.unauthorized

/-- On tables that nobody changes in between, the two queries are `get_current_operator`. -/
theorem getCurrentOperator_eq (hashToken : String → String) (now : Time) (tables : Security.Tables)
    (authHeader : Option String) : Security.getCurrentOperator hashToken now tables authHeader =
      (identify hashToken now tables authHeader).bind (currentOperator tables) := by
  unfold Security.getCurrentOperator identify
  cases authHeader with
  | none => rfl
  | some authHeader =>
    dsimp only
    generalize strip ((authHeader.toList.dropWhile (· ≠ ' ')).drop 1) = rawToken
    by_cases hbad : Security.isBearer (authHeader.toList.takeWhile (· ≠ ' ')) = false ∨ rawToken = []
    · rw [if_pos hbad, if_pos hbad]
      rfl
    · rw [if_neg hbad, if_neg hbad]
      cases tables.hashed (hashToken (String.ofList rawToken)) with
      | none => rfl
      | some token =>
        by_cases live : token.Live now
        · dsimp only
          rw [if_neg (not_not.2 live), dif_pos live]
          rfl
        · dsimp only
          rw [if_pos live, dif_neg live]
          rfl

theorem currentOperator_ok {tables : Security.Tables} {credential : Credential} {operator : Security.Operator}
    (h : currentOperator tables credential = .ok operator) :
    operator ∈ tables.operators ∧ operator.id = credential.token.operatorId ∧ operator.isActive = true := by
  unfold currentOperator at h
  split at h
  · cases h
  · rename_i found hfound
    split at h
    · rename_i hactive
      obtain rfl := Except.ok.inj h
      exact ⟨List.mem_of_find?_eq_some hfound, by simpa using List.find?_some hfound, hactive⟩
    · cases h

/-- The dependencies of the endpoint, once the token has been read. -/
def authorize (accounts : Accounts) (credential : Credential) (endpoint : Endpoint) :
    Except HttpException (Grant endpoint) :=
  match h : currentOperator accounts.tables credential with
  | .error e => .error (unauthorized e)
  | .ok operator =>
    match hr : endpoint.requirement.refusal operator (accounts.integrationScopes operator.id) with
    | some e => .error e
    | none => .ok
      { credential := credential
        operator := operator
        owner := (currentOperator_ok h).2.1
        scopes := accounts.integrationScopes operator.id
        active := (currentOperator_ok h).2.2
        checked := accounts.consistent.checked operator (currentOperator_ok h).1
        permitted := hr }

end Dependencies

section Requests

/-- How far a request has come. -/
inductive Stage (endpoint : Endpoint)
  | received (authHeader : Option String)
  | identified (credential : Credential)
  | authorized (grant : Grant endpoint)
  /-- The rate limiter has read its clock. -/
  | timed (grant : Grant endpoint) (bucket : String) (settings : RateLimit.Settings) (now : Rat)
  /-- The body runs as this thread of the application. -/
  | admitted (grant : Grant endpoint) (thread : Nat)
  | refused (e : HttpException)

structure Request where
  endpoint : Endpoint
  stage : Stage endpoint

/-- The application behind its API. `authFailures` counts the refusals of `require_scope`. -/
structure Server (W : World) where
  app : App W
  accounts : Accounts
  limiter : RateLimit.Limiter
  requests : List Request
  authFailures : Nat

/-- What may happen next. Nobody but an admitted request makes a call of the application. -/
inductive Move
  | receive (endpoint : Endpoint) (authHeader : Option String)
  | proceed (request : Nat)
  | administer (accounts : Accounts)
  | tick (later : Rat)
  | run (thread : Nat)
  | disturb (change : Change)

variable {W : World} (hashToken : String → String)

namespace Server

variable (s : Server W)

/-- Request `r` goes on to `stage`. -/
def set (r : Nat) (endpoint : Endpoint) (stage : Stage endpoint) : Server W :=
  { s with requests := s.requests.set r ⟨endpoint, stage⟩ }

/-- The body of the endpoint begins. -/
def enter (r : Nat) {endpoint : Endpoint} (grant : Grant endpoint) : Server W :=
  { s with
    app := s.app.spawn W.system (endpoint.call grant.operator)
    requests := s.requests.set r ⟨endpoint, .admitted grant s.app.threads.length⟩ }

/-- `rate_limit`, under its lock. -/
def limit (r : Nat) {endpoint : Endpoint} (grant : Grant endpoint) (bucket : String) (settings : RateLimit.Settings)
    (now : Rat) : Server W :=
  let key := (RateLimit.Call.mk bucket (toString grant.operator.id)).key
  let (accepted, limiter) := RateLimit.answer W.roundFloat settings (.locked key now) s.limiter
  let s := { s with limiter := limiter }
  if accepted then s.enter r grant else s.set r endpoint (.refused (rateLimited RateLimit.rateLimited))

/-- The next step of request `r`, on whose way the tables are queried twice. -/
def proceed (r : Nat) : Server W :=
  match s.requests[r]? with
  | none => s
  | some ⟨endpoint, .received authHeader⟩ =>
    match identify hashToken s.app.state.now s.accounts.tables authHeader with
    | .error e => s.set r endpoint (.refused (unauthorized e))
    | .ok credential => s.set r endpoint (.identified credential)
  | some ⟨endpoint, .identified credential⟩ =>
    match authorize s.accounts credential endpoint with
    | .error e =>
      { s.set r endpoint (.refused e) with
        authFailures := s.authFailures + if e.code = "INSUFFICIENT_SCOPE" then 1 else 0 }
    | .ok grant => s.set r endpoint (.authorized grant)
  | some ⟨endpoint, .authorized grant⟩ =>
    match endpoint.limit with
    | none => s.enter r grant
    | some (bucket, settings) => s.set r endpoint (.timed grant bucket settings s.limiter.clock)
  | some ⟨_, .timed grant bucket settings now⟩ => s.limit r grant bucket settings now
  | some ⟨_, .admitted _ _⟩ | some ⟨_, .refused _⟩ => s

def move : Move → Server W
  | .receive endpoint authHeader => { s with requests := s.requests ++ [⟨endpoint, .received authHeader⟩] }
  | .proceed r => s.proceed hashToken r
  | .administer accounts => { s with accounts := accounts }
  | .tick later => { s with limiter := RateLimit.advance later s.limiter }
  | .run i => { s with app := s.app.move W.system (.run i) }
  | .disturb change => { s with app := s.app.disturb W.system change }

def replay (moves : List Move) : Server W := moves.foldl (move hashToken) s

def start (state : State W.Domain) (accounts : Accounts) (clock : Rat) : Server W :=
  ⟨Config.start state, accounts, ⟨fun _ => [], clock⟩, [], 0⟩

/-- What a server may come to, from a fresh database. -/
def Reachable : Prop :=
  ∃ (state : State W.Domain) (accounts : Accounts) (clock : Rat) (moves : List Move),
    state.Fresh ∧ s = (start state accounts clock).replay hashToken moves

end Server
end Requests

end SafeOps.Api
