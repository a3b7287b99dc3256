import SafeOps.Core.Security
import Mathlib.Data.List.Nodup

/-! The tables in which a worker has provided the configured name with an active ADMIN and its token. -/

namespace SafeOps.Security
open Concurrent

section Rows

variable {α κ : Type} [DecidableEq κ] {key : α → κ} {l : List α} {a : α} {k : κ}

theorem find_keyed (h : (l.map key).Nodup) (ha : a ∈ l) (hk : key a = k) :
    l.find? (fun b => key b = k) = some a := by
  cases hfind : l.find? (fun b => key b = k) with
  | none => exact absurd hk (by simpa using List.find?_eq_none.1 hfind a ha)
  | some b =>
    have hb : key b = k := by simpa using List.find?_some hfind
    exact congrArg some (List.inj_on_of_nodup_map h (List.mem_of_find?_eq_some hfind) ha (hb.trans hk.symm))

/-- The one row of a list with a property. -/
theorem filter_alone [DecidableEq α] {p : α → Bool} (h : l.Nodup) (ha : a ∈ l) (hp : ∀ b ∈ l, p b = true ↔ b = a) :
    l.filter p = [a] := by
  have hfilter : l.filter p = l.filter (· = a) :=
    List.filter_congr fun b hb => Bool.eq_iff_iff.2 <| (hp b hb).trans decide_eq_true_iff.symm
  rw [hfilter, List.filter_eq, List.count_eq_one_of_mem h ha, List.replicate_one]

end Rows

namespace Tables

variable {tables : Tables} {username tokenHash : String}

theorem named_eq_none : tables.named username = none ↔ ∀ o ∈ tables.operators, o.username ≠ username := by
  simp [named]

theorem of_named {o : Operator} (h : tables.named username = some o) :
    o ∈ tables.operators ∧ o.username = username :=
  ⟨List.mem_of_find?_eq_some h, by simpa using List.find?_some h⟩

theorem hashed_isSome : (tables.hashed tokenHash).isSome ↔ ∃ t ∈ tables.tokens, t.tokenHash = tokenHash := by
  simp [hashed]

theorem activeAdmin_isSome : tables.activeAdmin.isSome ↔ ∃ o ∈ tables.operators, o.Admin := by
  simp [activeAdmin]

theorem addOperator_error {row : Operator} : (Write.addOperator row).error tables = none ↔
    row.username.length ≤ maxUsername ∧ row.Checked ∧
      ∀ o ∈ tables.operators, o.id ≠ row.id ∧ o.username ≠ row.username := by
  rw [Write.error]
  split
  · simp only [reduceCtorEq, false_iff]
    omega
  · simp only [ite_eq_right_iff, reduceCtorEq, imp_false, not_or, not_not, not_exists, not_and]
    exact (and_iff_right (by omega)).symm

theorem setOperator_error {id : Id} {role : Option OperatorRole} {isActive : Option Bool} :
    (Write.setOperator id role isActive).error tables = none ↔
      ∀ o ∈ tables.operators, o.id = id → (o.set role isActive).Checked := by
  simp [Write.error]

theorem addToken_error {row : OperatorToken} : (Write.addToken row).error tables = none ↔
    (∀ t ∈ tables.tokens, t.tokenHash ≠ row.tokenHash) ∧ ∃ o ∈ tables.operators, o.id = row.operatorId := by
  simp [Write.error]

/-- A statement that no constraint forbids keeps the constraints. -/
theorem Consistent.apply (h : tables.Consistent) {w : Write} (herror : w.error tables = none) :
    (w.apply tables).Consistent := by
  cases w with
  | addOperator row =>
    obtain ⟨hlength, hchecked, hclash⟩ := addOperator_error.1 herror
    refine ⟨?_, ?_, ?_, ?_, h.hashes, ?_⟩
    · simpa [Write.apply, List.nodup_append] using ⟨h.ids, fun o ho => (hclash o ho).1⟩
    · simpa [Write.apply, List.nodup_append] using ⟨h.usernames, fun o ho => (hclash o ho).2⟩
    · simpa [Write.apply, or_imp, forall_and] using ⟨h.lengths, hlength⟩
    · simpa [Write.apply, or_imp, forall_and] using ⟨h.checked, hchecked⟩
    · intro t ht
      obtain ⟨o, ho, hid⟩ := h.owners t ht
      exact ⟨o, List.mem_append_left _ ho, hid⟩
  | setOperator id role isActive =>
    have hid (o : Operator) : (if o.id = id then o.set role isActive else o).id = o.id := by
      split <;> rfl
    have husername (o : Operator) : (if o.id = id then o.set role isActive else o).username = o.username := by
      split <;> rfl
    refine ⟨?_, ?_, ?_, ?_, h.hashes, ?_⟩
    · simpa [Write.apply, Function.comp_def, hid] using h.ids
    · simpa [Write.apply, Function.comp_def, husername] using h.usernames
    · simpa [Write.apply, husername] using h.lengths
    · simp only [Write.apply, List.forall_mem_map]
      intro o ho
      split
      · exact setOperator_error.1 herror o ho ‹_›
      · exact h.checked o ho
    · simpa [Write.apply, hid] using h.owners
  | addToken row =>
    obtain ⟨hhash, howner⟩ := addToken_error.1 herror
    refine ⟨h.ids, h.usernames, h.lengths, h.checked, ?_, ?_⟩
    · simpa [Write.apply, List.nodup_append] using ⟨h.hashes, hhash⟩
    · simpa [Write.apply, or_imp, forall_and] using ⟨h.owners, howner⟩

end Tables

/-- What the constraints allow for the operator of a name. -/
def Able (tables : Tables) (username : String) : Prop :=
  username.length ≤ maxUsername ∧ ∀ o ∈ tables.named username, o.principalType = .operator

section Plan

variable (tables : Tables) (username tokenHash : String)

/-- The first statement of a worker that finds the given tables, for a new user under the given id. -/
def firstWrite (id : Id) : Write :=
  match tables.named username with
  | none => .addOperator (bootstrapAdmin id username)
  | some o => .setOperator o.id (if o.role = .admin then none else some .admin) (if o.isActive then none else some true)

def owner (id : Id) : Id := (tables.named username).elim id (·.id)

def tokenWrites (id : Id) : List Write :=
  if (tables.hashed tokenHash).isSome then [] else [.addToken (issueToken (owner tables username id) tokenHash)]

/-- All the statements of a worker that finds the given tables. -/
def bootstrapWrites (id : Id) : List Write :=
  firstWrite tables username id :: tokenWrites tables username tokenHash id

/-- The id belongs to no operator. -/
def Fresh (id : Id) : Prop := ∀ o ∈ tables.operators, o.id ≠ id

/-- The tables in which one worker has done what it has to do. -/
def Settled (settled : Tables) : Prop :=
  Able tables username ∧ ∃ id, Fresh tables id ∧
    settled = (bootstrapWrites tables username tokenHash id).foldl (fun t w => w.apply t) tables

/-- The operator that the name belongs to in settled tables, and what else is in them. -/
structure Provided (settled : Tables) (admin : Operator) : Prop where
  consistent : settled.Consistent
  name : admin.username = username
  active : admin.Admin
  operators : ∀ o, o ∈ settled.operators ↔ (o ∈ tables.operators ∧ o.username ≠ username) ∨ o = admin
  tokens : settled.tokens = tables.tokens ++
    if (tables.hashed tokenHash).isSome then [] else [issueToken admin.id tokenHash]
  known : ∀ o ∈ tables.operators, o.id = admin.id ↔ o.username = username

end Plan

section Settling

variable {tables : Tables} {username tokenHash : String}

theorem promoted (o : Operator) : (o.set (if o.role = .admin then none else some .admin)
    (if o.isActive then none else some true)) = { o with role := .admin, isActive := true } := by
  obtain ⟨id, name, role, type, active⟩ := o
  by_cases hrole : role = .admin <;> cases active <;> simp [Operator.set, hrole]

/-- What the operator becomes that the name belongs to. -/
def Tables.provided (tables : Tables) (username : String) (id : Id) : Operator :=
  (tables.named username).elim (bootstrapAdmin id username) fun o => { o with role := .admin, isActive := true }

theorem firstWrite_none (h : tables.named username = none) (id : Id) :
    firstWrite tables username id = .addOperator (bootstrapAdmin id username) := by
  rw [firstWrite, h]

theorem firstWrite_some {o : Operator} (h : tables.named username = some o) (id : Id) :
    firstWrite tables username id = .setOperator o.id (if o.role = .admin then none else some .admin)
      (if o.isActive then none else some true) := by
  rw [firstWrite, h]

/-- Where a name can be provided with, no constraint forbids the first statement. -/
theorem firstWrite_error (h : tables.Consistent) (able : Able tables username) {id : Id} (hid : Fresh tables id) :
    (firstWrite tables username id).error tables = none := by
  cases hnamed : tables.named username with
  | none =>
    have hname := Tables.named_eq_none.1 hnamed
    rw [firstWrite_none hnamed]
    exact Tables.addOperator_error.2 ⟨able.1, .inl (by simp [bootstrapAdmin]), fun o ho => ⟨hid o ho, hname o ho⟩⟩
  | some o =>
    obtain ⟨ho, -⟩ := Tables.of_named hnamed
    rw [firstWrite_some hnamed]
    refine Tables.setOperator_error.2 fun p hp hpid => .inl ?_
    obtain rfl : p = o := List.inj_on_of_nodup_map h.ids hp ho hpid
    rw [promoted, able.2 p hnamed]
    decide

theorem firstWrite_key (id id' : Id) : (firstWrite tables username id).key = (firstWrite tables username id').key := by
  rw [firstWrite, firstWrite]
  cases tables.named username <;> rfl

theorem addToken_ne_firstWrite (row : OperatorToken) (id : Id) :
    Write.addToken row ≠ firstWrite tables username id := by
  rw [firstWrite]
  split <;> simp

theorem mem_firstWrite (h : tables.Consistent) (id : Id) (o : Operator) :
    o ∈ ((firstWrite tables username id).apply tables).operators ↔
      (o ∈ tables.operators ∧ o.username ≠ username) ∨ o = tables.provided username id := by
  cases hnamed : tables.named username with
  | none =>
    have hname := Tables.named_eq_none.1 hnamed
    rw [firstWrite_none hnamed, Tables.provided, hnamed]
    simp only [Write.apply, List.mem_append, List.mem_singleton, Option.elim_none]
    exact or_congr_left ⟨fun ho => ⟨ho, hname o ho⟩, And.left⟩
  | some p =>
    obtain ⟨hp, hpname⟩ := Tables.of_named hnamed
    have same (q : Operator) (hq : q ∈ tables.operators) : q.id = p.id ↔ q.username = username :=
      ⟨fun heq => List.inj_on_of_nodup_map h.ids hq hp heq ▸ hpname,
        fun heq => by rw [List.inj_on_of_nodup_map h.usernames hq hp (heq.trans hpname.symm)]⟩
    rw [firstWrite_some hnamed, Tables.provided, hnamed]
    simp only [Write.apply, List.mem_map, Option.elim_some]
    constructor
    · rintro ⟨q, hq, rfl⟩
      split
      · rename_i heq
        obtain rfl := List.inj_on_of_nodup_map h.ids hq hp heq
        exact .inr (promoted q)
      · rename_i hne
        exact .inl ⟨hq, fun heq => hne ((same q hq).2 heq)⟩
    · rintro (⟨ho, hne⟩ | rfl)
      · exact ⟨o, ho, if_neg fun heq => hne ((same o ho).1 heq)⟩
      · exact ⟨p, hp, (if_pos rfl).trans (promoted p)⟩

theorem provided_id (id : Id) : (tables.provided username id).id = owner tables username id := by
  rw [Tables.provided, owner]
  cases tables.named username <;> rfl

theorem provided_username (id : Id) : (tables.provided username id).username = username := by
  rw [Tables.provided]
  cases hnamed : tables.named username with
  | none => rfl
  | some o => exact (Tables.of_named hnamed).2

theorem provided_admin (id : Id) : (tables.provided username id).Admin := by
  rw [Tables.provided]
  cases tables.named username <;> exact ⟨rfl, rfl⟩

theorem tokens_firstWrite (id : Id) (t : Tables) : ((firstWrite tables username id).apply t).tokens = t.tokens := by
  rw [firstWrite]
  split <;> rfl

/-- After the first statement, the second one finds its operator and no row with its hash. -/
theorem tokenWrite_error (h : tables.Consistent) (id : Id) (hhashed : (tables.hashed tokenHash).isSome = false) :
    (Write.addToken (issueToken (owner tables username id) tokenHash)).error
      ((firstWrite tables username id).apply tables) = none := by
  refine Tables.addToken_error.2 ⟨fun t ht heq => ?_, _, (mem_firstWrite h id _).2 (.inr rfl), provided_id id⟩
  rw [tokens_firstWrite] at ht
  have hrow : (tables.hashed tokenHash).isSome := Tables.hashed_isSome.2 ⟨t, ht, heq⟩
  exact absurd hrow (by simp [hhashed])

theorem Settled.provided {settled : Tables} (h : tables.Consistent) (hs : Settled tables username tokenHash settled) :
    ∃ admin, Provided tables username tokenHash settled admin := by
  obtain ⟨able, id, hid, rfl⟩ := hs
  have first := h.apply (firstWrite_error h able hid)
  have known (o : Operator) (ho : o ∈ tables.operators) : o.id = owner tables username id ↔ o.username = username := by
    rw [owner]
    cases hnamed : tables.named username with
    | none => exact ⟨fun heq => absurd heq (hid o ho), fun heq => absurd heq (Tables.named_eq_none.1 hnamed o ho)⟩
    | some p =>
      obtain ⟨hp, hpname⟩ := Tables.of_named hnamed
      exact ⟨fun heq => List.inj_on_of_nodup_map h.ids ho hp heq ▸ hpname,
        fun heq => by rw [List.inj_on_of_nodup_map h.usernames ho hp (heq.trans hpname.symm)]; rfl⟩
  refine ⟨tables.provided username id, ?_, provided_username id, provided_admin id, ?_, ?_, ?_⟩
  · rw [bootstrapWrites, tokenWrites, List.foldl_cons]
    split
    · exact first
    · rename_i hhashed
      exact first.apply (tokenWrite_error h id (by simpa using hhashed))
  · intro o
    rw [← mem_firstWrite h id, bootstrapWrites, tokenWrites, List.foldl_cons]
    split <;> rfl
  · have htokens : ((firstWrite tables username id).apply tables).tokens = tables.tokens :=
      tokens_firstWrite id tables
    rw [bootstrapWrites, tokenWrites, List.foldl_cons, provided_id, ← htokens]
    split
    · exact (List.append_nil _).symm
    · rfl
  · rw [provided_id]
    exact known

namespace Provided

variable {settled : Tables} {admin : Operator} (h : Provided tables username tokenHash settled admin)
include h

theorem mem : admin ∈ settled.operators := (h.operators admin).2 (.inr rfl)

theorem named : settled.named username = some admin := find_keyed h.consistent.usernames h.mem h.name

theorem hashed : (settled.hashed tokenHash).isSome := by
  by_cases hrow : (tables.hashed tokenHash).isSome
  · obtain ⟨t, ht, hhash⟩ := Tables.hashed_isSome.1 hrow
    exact Tables.hashed_isSome.2 ⟨t, by rw [h.tokens]; exact List.mem_append_left _ ht, hhash⟩
  · exact Tables.hashed_isSome.2 ⟨issueToken admin.id tokenHash, by simp [h.tokens, hrow], rfl⟩

theorem promoted_again {o p : Operator} (hnamed : tables.named username = some o) (hp : p ∈ settled.operators)
    (hid : p.id = o.id) : p.set (if o.role = .admin then none else some .admin)
      (if o.isActive then none else some true) = p := by
  obtain ⟨ho, hname⟩ := Tables.of_named hnamed
  obtain rfl : p = admin := List.inj_on_of_nodup_map h.consistent.ids hp h.mem (hid.trans ((h.known o ho).2 hname))
  obtain ⟨hrole, hactive⟩ := h.active
  obtain ⟨pid, name, role, type, active⟩ := p
  by_cases ho' : o.role = .admin <;> cases o.isActive <;> simp_all [Operator.set]

/-- A known user is promoted once. -/
theorem again {o : Operator} (hnamed : tables.named username = some o) (id : Id) :
    (firstWrite tables username id).apply settled = settled := by
  have same : ∀ p ∈ settled.operators, (if p.id = o.id then p.set (if o.role = .admin then none else some .admin)
      (if o.isActive then none else some true) else p) = p := by
    intro p hp
    split
    · exact h.promoted_again hnamed hp ‹_›
    · rfl
  rw [firstWrite_some hnamed, Write.apply, List.map_congr_left same, List.map_id']

end Provided

end Settling

end SafeOps.Security
