import SafeOps.Concurrent.Pool
import SafeOps.Concurrent.Transactions
import SafeOps.Model.Tables
import SafeOps.Model.Text

/-! `app/core/security.py`: bearer tokens, and the operator that a fresh installation starts with. -/

namespace SafeOps.Security
open Concurrent

inductive OperatorRole
  | viewer
  | operator
  | approver
  | admin
  deriving DecidableEq

inductive PrincipalType
  | operator
  | integration
  deriving DecidableEq

/-- A row of `operators`, as far as it is read here. -/
structure Operator where
  id : Id
  username : String
  role : OperatorRole
  principalType : PrincipalType
  isActive : Bool
  deriving DecidableEq

structure OperatorToken where
  operatorId : Id
  tokenHash : String
  expiresAt : Option Time
  revokedAt : Option Time
  deriving DecidableEq

structure Tables where
  operators : List Operator
  tokens : List OperatorToken
  deriving DecidableEq

/-- `ck_operators_integration_role_viewer`. -/
def Operator.Checked (o : Operator) : Prop := o.principalType ≠ .integration ∨ o.role = .viewer

instance (o : Operator) : Decidable o.Checked := inferInstanceAs (Decidable (_ ∨ _))

/-- An active ADMIN. -/
def Operator.Admin (o : Operator) : Prop := o.role = .admin ∧ o.isActive = true

instance (o : Operator) : Decidable o.Admin := inferInstanceAs (Decidable (_ ∧ _))

/-- `String(255)`. -/
def maxUsername : Nat := 255

/-- The constraints of the two tables. -/
structure Tables.Consistent (tables : Tables) : Prop where
  ids : (tables.operators.map (·.id)).Nodup
  usernames : (tables.operators.map (·.username)).Nodup
  lengths : ∀ o ∈ tables.operators, o.username.length ≤ maxUsername
  checked : ∀ o ∈ tables.operators, o.Checked
  hashes : (tables.tokens.map (·.tokenHash)).Nodup
  owners : ∀ t ∈ tables.tokens, ∃ o ∈ tables.operators, o.id = t.operatorId

section Statements

/-- The statements a flush may send. An UPDATE names the columns that have changed. -/
inductive Write
  | addOperator (row : Operator)
  | setOperator (id : Id) (role : Option OperatorRole) (isActive : Option Bool)
  | addToken (row : OperatorToken)

/-- The row or the unique value under which a statement keeps others waiting. -/
inductive Key
  | username (username : String)
  | operator (id : Id)
  | tokenHash (tokenHash : String)
  deriving DecidableEq

def Write.key : Write → Key
  | addOperator row => .username row.username
  | setOperator id _ _ => .operator id
  | addToken row => .tokenHash row.tokenHash

def Operator.set (o : Operator) (role : Option OperatorRole) (isActive : Option Bool) : Operator :=
  { o with role := role.getD o.role, isActive := isActive.getD o.isActive }

def Write.apply : Write → Tables → Tables
  | addOperator row, tables => { tables with operators := tables.operators ++ [row] }
  | setOperator id role isActive, tables =>
    { tables with operators := tables.operators.map fun o => if o.id = id then o.set role isActive else o }
  | addToken row, tables => { tables with tokens := tables.tokens ++ [row] }

inductive DatabaseError
  | integrityError
  /-- A value too long for its column. -/
  | dataError
  deriving DecidableEq

/-- The error of a statement that a constraint forbids. -/
def Write.error (tables : Tables) : Write → Option DatabaseError
  | addOperator row =>
    if maxUsername < row.username.length then some .dataError
    else if ¬row.Checked ∨ ∃ o ∈ tables.operators, o.id = row.id ∨ o.username = row.username then
      some .integrityError
    else none
  | setOperator id role isActive =>
    if ∃ o ∈ tables.operators, o.id = id ∧ ¬(o.set role isActive).Checked then some .integrityError else none
  | addToken row =>
    if (∃ t ∈ tables.tokens, t.tokenHash = row.tokenHash) ∨ ¬∃ o ∈ tables.operators, o.id = row.operatorId then
      some .integrityError
    else none

end Statements

section Database

structure Database where
  store : Transactional Tables Write
  sessions : Nat
  nextId : Id

inductive Op
  | connect
  | uuid4
  /-- `select(Operator).where(Operator.role == ADMIN, Operator.is_active.is_(True))` -/
  | activeAdmin (session : Nat)
  | operatorNamed (session : Nat) (username : String)
  | tokenHashed (session : Nat) (tokenHash : String)
  | write (session : Nat) (w : Write)
  | commit (session : Nat)
  | rollback (session : Nat)

abbrev Op.Reply : Op → Type
  | connect => Nat
  | uuid4 => Id
  | activeAdmin _ => Option Operator
  | operatorNamed _ _ => Option Operator
  | tokenHashed _ _ => Option OperatorToken
  | write _ _ => Option DatabaseError
  | commit _ => Unit
  | rollback _ => Unit

abbrev signature : Signature where
  Op := Op
  Reply := Op.Reply

def Tables.activeAdmin (tables : Tables) : Option Operator := tables.operators.find? fun o => o.Admin

def Tables.named (tables : Tables) (username : String) : Option Operator :=
  tables.operators.find? fun o => o.username = username

def Tables.hashed (tables : Tables) (tokenHash : String) : Option OperatorToken :=
  tables.tokens.find? fun t => t.tokenHash = tokenHash

def Database.view (db : Database) (session : Nat) : Tables := db.store.view Write.apply session

/-- A statement that fails ends the transaction of its session. -/
def answer : (op : Op) → Database → op.Reply × Database
  | .connect, db => (db.sessions, { db with sessions := db.sessions + 1 })
  | .uuid4, db => (db.nextId, { db with nextId := db.nextId + 1 })
  | .activeAdmin session, db => ((db.view session).activeAdmin, db)
  | .operatorNamed session username, db => ((db.view session).named username, db)
  | .tokenHashed session tokenHash, db => ((db.view session).hashed tokenHash, db)
  | .write session w, db =>
    match w.error (db.view session) with
    | none => (none, { db with store := db.store.write session w })
    | some error => (some error, { db with store := db.store.rollback session })
  | .commit session, db => ((), { db with store := db.store.commit Write.apply session })
  | .rollback session, db => ((), { db with store := db.store.rollback session })

end Database

section Bootstrap

structure Settings where
  bootstrapAdminToken : Option String
  bootstrapAdminUsername : String

abbrev Worker (α : Type) := Program signature DatabaseError α

def ask (op : Op) : Worker op.Reply := Program.request op .ret

/-- The `Operator` that is added for an unknown user, with the defaults of its columns. -/
def bootstrapAdmin (id : Id) (username : String) : Operator where
  id := id
  username := username
  role := .admin
  principalType := .operator
  isActive := true

/-- What the flush sends after `operator.role = ADMIN` and `operator.is_active = True`. -/
def Operator.promotion (o : Operator) : List Write :=
  if o.Admin then [] else
    [.setOperator o.id (if o.role = .admin then none else some .admin) (if o.isActive then none else some true)]

/-- `issue_token`, for a given raw token with the given hash. -/
def issueToken (operator : Id) (tokenHash : String) : OperatorToken where
  operatorId := operator
  tokenHash := tokenHash
  expiresAt := none
  revokedAt := none

def flush (session : Nat) (w : Write) : Worker Unit := do
  match ← ask (.write session w) with
  | none => return ()
  | some error => Program.raise error

/-- `db.commit()`, of a session that has still to flush some statements. -/
def commit (session : Nat) : List Write → Worker Unit
  | [] => ask (.commit session)
  | w :: unflushed => do
    flush session w
    commit session unflushed

/-- `except IntegrityError`. -/
def exceptIntegrityError {α : Type} (p : Worker α) (handler : Worker α) : Worker α :=
  p.tryCatch fun error => if error = .integrityError then handler else Program.raise error

/-- The operator of the configured name after a lost race. -/
def raced (session : Nat) (username : String) : Worker (Id × List Write) := do
  ask (.rollback session)
  match ← ask (.operatorNamed session username) with
  | none => Program.raise .integrityError
  | some operator => return (operator.id, [])

/-- The operator of the configured name, and what is left to be flushed for it. -/
def bootstrapOperator (session : Nat) (username : String) : Worker (Id × List Write) := do
  match ← ask (.operatorNamed session username) with
  | none =>
    let id ← ask .uuid4
    exceptIntegrityError
      (do
        flush session (.addOperator (bootstrapAdmin id username))
        return (id, []))
      (raced session username)
  | some operator => return (operator.id, operator.promotion)

/-- The end of `ensure_bootstrap_admin`: the token of the operator. -/
def bootstrapToken (session : Nat) (tokenHash : String) (operator : Id) (unflushed : List Write) : Worker Unit := do
  match ← ask (.tokenHashed session tokenHash) with
  | some _ => commit session unflushed
  | none =>
    exceptIntegrityError (commit session (unflushed ++ [.addToken (issueToken operator tokenHash)]))
      (ask (.rollback session))

variable (hashToken : String → String)

def ensureBootstrapAdmin (settings : Settings) (session : Nat) : Worker Unit := do
  match settings.bootstrapAdminToken with
  | none => return ()
  | some token =>
    if token = "" then return ()
    match ← ask (.activeAdmin session) with
    | some _ => return ()
    | none =>
      let (operator, unflushed) ← bootstrapOperator session settings.bootstrapAdminUsername
      bootstrapToken session (hashToken token) operator unflushed

/-- A worker starts with a session of its own. -/
def startup (settings : Settings) : Worker Unit := do
  let session ← ask .connect
  ensureBootstrapAdmin hashToken settings session

def system (settings : Settings) : System signature DatabaseError Unit Database Unit Empty where
  exec := answer
  code _ := startup hashToken settings
  disturb change := change.elim

end Bootstrap

abbrev App := Config signature DatabaseError Unit Database Unit

/-- Tables at rest; new ids are beyond the known ones. -/
def start (tables : Tables) : App :=
  Config.start ⟨⟨tables, []⟩, 0, (tables.operators.map (·.id + 1)).foldr max 0⟩

/-- A statement is answered once no other session has written what it is to write. -/
def Unblocked (c : App) (e : Entry signature) : Prop :=
  match e.op with
  | .write session w => c.state.store.Clear Write.key session w
  | _ => True

instance (c : App) (e : Entry signature) : Decidable (Unblocked c e) := by
  unfold Unblocked
  split <;> infer_instance

section Authentication

/-- The `HTTPException` of `_unauthorized`. -/
structure Unauthorized where
  statusCode : Nat
  code : String
  message : String
  deriving DecidableEq

def unauthorized : Unauthorized := ⟨401, "UNAUTHENTICATED", "Authentication required."⟩

/-- `scheme.lower() == "bearer"`; no letter beyond ASCII has one of these for its lower case. -/
def isBearer (scheme : List Char) : Bool := scheme.map Char.toLower = "bearer".toList

/-- The row of a token that is neither revoked nor expired. -/
def OperatorToken.Live (now : Time) (t : OperatorToken) : Prop :=
  t.revokedAt = none ∧ ∀ expiry ∈ t.expiresAt, now < expiry

instance (now : Time) (t : OperatorToken) : Decidable (t.Live now) := inferInstanceAs (Decidable (_ ∧ _))

/-- `get_current_operator`, for the `Authorization` header of a request. -/
def getCurrentOperator (hashToken : String → String) (now : Time) (tables : Tables) (authHeader : Option String) :
    Except Unauthorized Operator :=
  match authHeader with
  | none => .error unauthorized
  | some authHeader =>
    -- `auth_header.partition(" ")`
    let scheme := authHeader.toList.takeWhile (· ≠ ' ')
    let rawToken := strip ((authHeader.toList.dropWhile (· ≠ ' ')).drop 1)
    if isBearer scheme = false ∨ rawToken = [] then .error unauthorized
    else
      match tables.hashed (hashToken (String.ofList rawToken)) with
      | none => .error unauthorized
      | some token =>
        if ¬token.Live now then .error unauthorized
        else
          match tables.operators.find? fun o => o.id = token.operatorId with
          | none => .error unauthorized
          | some operator => if operator.isActive then .ok operator else .error unauthorized

end Authentication
end SafeOps.Security
