import SafeOps.Guarantees.SettledTables

/-! What a worker that provides for the configured name has read and written, stage by stage. One session at a
time has written, and the tables stay as they were until one of them settles them. -/

namespace SafeOps.Security
open Concurrent

/-- Where a worker is, with its session: what it has read, and the statements that it has still to flush. -/
inductive Stage
  | starting
  | entered (session : Nat)
  | naming (session : Nat)
  | drawing (session : Nat)
  | adding (session : Nat) (id : Id)
  | losing (session : Nat)
  | reading (session : Nat)
  | hashing (session : Nat) (operator : Id) (unflushed : List Write)
  | flushing (session : Nat) (found : Bool) (unflushed : List Write)
  | yielding (session : Nat)
  | done
  | failed

def Stage.session : Stage → Option Nat
  | starting | done | failed => none
  | entered s | naming s | drawing s | adding s _ | losing s | reading s | hashing s _ _ | flushing s _ _
  | yielding s => some s

/-- Follows a worker. -/
def booting (username tokenHash : String) : Monitor signature Stage where
  next m o := match m, o with
    | .starting, .connect => fun (session : Nat) => .entered session
    | .entered s, .activeAdmin _ => fun (row : Option Operator) => if row.isSome then .done else .naming s
    | .naming s, .operatorNamed _ _ => fun (row : Option Operator) =>
      row.elim (.drawing s) fun o => .hashing s o.id o.promotion
    | .drawing s, .uuid4 => fun (id : Id) => .adding s id
    | .adding s id, .write _ _ => fun (error : Option DatabaseError) =>
      error.elim (.hashing s id []) fun e => if e = .integrityError then .losing s else .failed
    | .losing s, .rollback _ => fun _ => .reading s
    | .reading s, .operatorNamed _ _ => fun (row : Option Operator) => row.elim .failed fun o => .hashing s o.id []
    | .hashing s operator unflushed, .tokenHashed _ _ => fun (row : Option OperatorToken) =>
      if row.isSome then .flushing s true unflushed
      else .flushing s false (unflushed ++ [.addToken (issueToken operator tokenHash)])
    | .flushing s found (_ :: unflushed), .write _ _ => fun (error : Option DatabaseError) =>
      error.elim (.flushing s found unflushed) fun e =>
        if e = .integrityError ∧ found = false then .yielding s else .failed
    | .flushing _ _ [], .commit _ => fun _ => .done
    | .yielding _, .rollback _ => fun _ => .done
    | m, _ => fun _ => m
  ok m o := match m with
    | .starting => o = .connect
    | .entered s => o = .activeAdmin s
    | .naming s | .reading s => o = .operatorNamed s username
    | .drawing _ => o = .uuid4
    | .adding s id => o = .write s (.addOperator (bootstrapAdmin id username))
    | .losing s | .yielding s => o = .rollback s
    | .hashing s _ _ => o = .tokenHashed s tokenHash
    | .flushing s _ [] => o = .commit s
    | .flushing s _ (w :: _) => o = .write s w
    | .done | .failed => False

section Code

variable {username tokenHash : String} {session : Nat}

/-- The postconditions of a worker. -/
abbrev Booted (p : Worker Unit) (username tokenHash : String) (m : Stage) : Prop :=
  p.Obeys (booting username tokenHash) (fun _ m => m = .done) (fun _ m => m = .failed) m

theorem commit_obeys (found : Bool) (ws : List Write) : (commit session ws).Obeys (booting username tokenHash)
    (fun _ m => m = .done)
    (fun e m => m = if e = .integrityError ∧ found = false then .yielding session else .failed)
    (.flushing session found ws) := by
  induction ws with
  | nil => exact ⟨rfl, fun _ => rfl⟩
  | cons w ws ih =>
    refine (Program.obeys_bind _ _).2 ((Program.obeys_bind _ _).2 ⟨rfl, fun error => ?_⟩)
    cases error with
    | none => exact ih
    | some e => exact rfl

theorem bootstrapToken_obeys (operator : Id) (ws : List Write) :
    Booted (bootstrapToken session tokenHash operator ws) username tokenHash (.hashing session operator ws) := by
  refine (Program.obeys_bind _ _).2 ⟨rfl, fun row => ?_⟩
  cases row with
  | some t =>
    refine (commit_obeys true ws).mono (fun _ _ h => h) fun e m hm => ?_
    simpa using hm
  | none =>
    refine (Program.obeys_tryCatch _ _).2 ((commit_obeys false _).mono (fun _ _ h => h) fun e m hm => ?_)
    by_cases he : e = .integrityError
    · rw [if_pos ⟨he, rfl⟩] at hm
      rw [if_pos he, hm]
      exact ⟨rfl, fun _ => rfl⟩
    · rw [if_neg (he ·.1)] at hm
      rw [if_neg he]
      exact hm

theorem bootstrapOperator_obeys : (bootstrapOperator session username).Obeys (booting username tokenHash)
    (fun r m => m = .hashing session r.1 r.2) (fun _ m => m = .failed) (.naming session) := by
  refine (Program.obeys_bind _ _).2 ⟨rfl, fun row => ?_⟩
  cases row with
  | some o => exact rfl
  | none =>
    refine (Program.obeys_bind _ _).2 ⟨rfl, fun id => (Program.obeys_tryCatch _ _).2 ?_⟩
    refine (Program.obeys_bind _ _).2 ((Program.obeys_bind _ _).2 ⟨rfl, fun error => ?_⟩)
    cases error with
    | none => exact rfl
    | some e =>
      by_cases he : e = .integrityError
      · subst he
        refine (Program.obeys_bind _ _).2 ⟨rfl, fun _ => (Program.obeys_bind _ _).2 ⟨rfl, fun row => ?_⟩⟩
        cases row <;> exact rfl
      · have hraise : (if e = .integrityError then raced session username else Program.raise e) =
            Program.raise e := if_neg he
        have hstage : (if e = .integrityError then Stage.losing session else .failed) = .failed := if_neg he
        change (if e = .integrityError then raced session username else Program.raise e).Obeys _ _ _
          (if e = .integrityError then Stage.losing session else .failed)
        rw [hraise, hstage]
        exact rfl

theorem startup_obeys (hashToken : String → String) {token : String} (htoken : token ≠ "") :
    Booted (startup hashToken ⟨some token, username⟩) username (hashToken token) .starting := by
  refine (Program.obeys_bind _ _).2 ⟨rfl, fun (session : Nat) => ?_⟩
  change Booted (ensureBootstrapAdmin hashToken ⟨some token, username⟩ session) username _ (.entered session)
  rw [ensureBootstrapAdmin]
  simp only [if_neg htoken]
  refine (Program.obeys_bind _ _).2 ⟨rfl, fun row => ?_⟩
  cases row with
  | some o => exact rfl
  | none =>
    refine (Program.obeys_bind _ _).2 (bootstrapOperator_obeys.mono (fun r m hm => ?_) fun _ _ h => h)
    rw [hm]
    exact bootstrapToken_obeys r.1 r.2

end Code

section Facts

variable (tables : Tables) (username tokenHash : String)

/-- What the sessions have written and what is committed, when one of them at a time has written. -/
structure Guarded (db : Database) : Prop where
  committed : db.store.committed = tables ∨ Settled tables username tokenHash db.store.committed
  able : ∀ s, db.store.writes s ≠ [] → Able tables username
  locked : ∀ s, db.store.writes s ≠ [] → ∃ id, firstWrite tables username id ∈ db.store.writes s
  opening : ∀ s, db.store.writes s ≠ [] →
    (tables.named username = none ∨ ∃ row, .addToken row ∈ db.store.writes s) → db.store.committed = tables
  exclusive : db.store.Exclusive
  unused : ∀ s, db.sessions ≤ s → db.store.writes s = []
  fresh : ∀ o ∈ tables.operators, o.id < db.nextId

/-- The operator for the token, with what is left to be flushed for it. -/
inductive Chosen (committed : Tables) (written : List Write) : Id → List Write → Prop
  | added {id : Id} : tables.named username = none → Fresh tables id →
      written = [firstWrite tables username id] → Chosen committed written id []
  | known {o : Operator} : tables.named username = some o → written = [] → Chosen committed written o.id o.promotion
  | settled {operator : Id} : Settled tables username tokenHash committed → written = [] →
      Chosen committed written operator []

/-- What a commit has still to flush. -/
inductive Flushing (committed : Tables) (written : List Write) : Bool → List Write → Prop
  | whole {id : Id} {unflushed : List Write} : Fresh tables id →
      written ++ unflushed = bootstrapWrites tables username tokenHash id →
      (tables.named username = none → written ≠ []) →
      Flushing committed written (tables.hashed tokenHash).isSome unflushed
  | late {o : Operator} {id : Id} {unflushed : List Write} : Settled tables username tokenHash committed →
      tables.named username = some o → Fresh tables id → written ++ unflushed = [firstWrite tables username id] →
      Flushing committed written true unflushed
  | idle : Settled tables username tokenHash committed → written = [] → Flushing committed written true []

/-- What holds of a worker at its stage. -/
def Stage.Fact (db : Database) : Stage → Prop
  | starting => True
  | entered s | naming s => db.store.writes s = []
  | drawing s => db.store.writes s = [] ∧ tables.named username = none
  | adding s id => db.store.writes s = [] ∧ tables.named username = none ∧ Fresh tables id
  | losing s | reading s => db.store.writes s = [] ∧ Settled tables username tokenHash db.store.committed
  | hashing s operator unflushed =>
    Chosen tables username tokenHash db.store.committed (db.store.writes s) operator unflushed
  | flushing s found unflushed =>
    Flushing tables username tokenHash db.store.committed (db.store.writes s) found unflushed
  | yielding s => db.store.writes s = [] ∧
      (Settled tables username tokenHash db.store.committed ∨ ¬Able tables username)
  | done => Settled tables username tokenHash db.store.committed ∨ ¬Able tables username
  | failed => ¬Able tables username

variable {tables username tokenHash}

/-- Nothing that other sessions do invalidates what holds of a worker. -/
theorem Stage.Fact.frame {db db' : Database} {m : Stage} (h : m.Fact tables username tokenHash db)
    (hwrites : ∀ s ∈ m.session, db'.store.writes s = db.store.writes s)
    (hsettled : Settled tables username tokenHash db.store.committed →
      Settled tables username tokenHash db'.store.committed) : m.Fact tables username tokenHash db' := by
  cases m with
  | starting => trivial
  | failed => exact h
  | done => exact h.imp_left hsettled
  | entered s | naming s | drawing s | adding s id => simpa only [Stage.Fact, hwrites s rfl] using h
  | losing s | reading s => exact ⟨(hwrites s rfl).trans h.1, hsettled h.2⟩
  | yielding s => exact ⟨(hwrites s rfl).trans h.1, h.2.imp_left hsettled⟩
  | hashing s operator unflushed =>
    rw [Stage.Fact, hwrites s rfl]
    cases h with
    | added hnone hid hw => exact .added hnone hid hw
    | known hsome hw => exact .known hsome hw
    | settled hs hw => exact .settled (hsettled hs) hw
  | flushing s found unflushed =>
    rw [Stage.Fact, hwrites s rfl]
    cases h with
    | whole hid hw hnone => exact .whole hid hw hnone
    | late hs hsome hid hw => exact .late (hsettled hs) hsome hid hw
    | idle hs hw => exact .idle (hsettled hs) hw

end Facts

section Unflushed

variable {tables : Tables} {username tokenHash : String} {committed : Tables} {written : List Write} {found : Bool}
  {w : Write} {ws : List Write}

theorem Flushing.flush (h : Flushing tables username tokenHash committed written found (w :: ws)) :
    Flushing tables username tokenHash committed (written ++ [w]) found ws := by
  generalize hunflushed : w :: ws = unflushed at h
  cases h with
  | whole hid hw hnone =>
    subst hunflushed
    exact .whole hid (by simpa using hw) (by simp)
  | late hs hsome hid hw =>
    subst hunflushed
    exact .late hs hsome hid (by simpa using hw)
  | idle _ _ => cases hunflushed

/-- What is flushed next is a promotion, or the token of an operator that has been written. -/
theorem Flushing.next (h : Flushing tables username tokenHash committed written found (w :: ws)) :
    ∃ id, Fresh tables id ∧
      ((written = [] ∧ w = firstWrite tables username id ∧ ∃ o, tables.named username = some o) ∨
        (written = [firstWrite tables username id] ∧ w = .addToken (issueToken (owner tables username id) tokenHash) ∧
          (tables.hashed tokenHash).isSome = false ∧ found = false)) := by
  generalize hunflushed : w :: ws = unflushed at h
  cases h with
  | @whole id _ hid hw hnone =>
    subst hunflushed
    refine ⟨id, hid, ?_⟩
    cases written with
    | nil =>
      refine .inl ⟨rfl, (List.cons.inj hw).1, ?_⟩
      exact Option.ne_none_iff_exists'.1 fun h => hnone h rfl
    | cons v rest =>
      obtain ⟨rfl, htoken⟩ := List.cons.inj hw
      cases hhashed : (tables.hashed tokenHash).isSome with
      | true => simp [tokenWrites, hhashed] at htoken
      | false =>
        rw [tokenWrites, hhashed] at htoken
        cases rest with
        | nil => exact .inr ⟨rfl, (List.cons.inj htoken).1, rfl, rfl⟩
        | cons _ rest => cases rest <;> cases (List.cons.inj htoken).2
  | @late o id _ _ hsome hid hw =>
    subst hunflushed
    refine ⟨id, hid, .inl ?_⟩
    cases written with
    | nil => exact ⟨rfl, (List.cons.inj hw).1, o, hsome⟩
    | cons v rest => cases rest <;> cases (List.cons.inj hw).2
  | idle _ _ => cases hunflushed

end Unflushed

section Errors

variable {tables : Tables} {username tokenHash : String} {committed : Tables} {id : Id}
  (h : tables.Consistent) (hcommitted : committed = tables ∨ Settled tables username tokenHash committed)
include h hcommitted

/-- A known user cannot be promoted only where it is a machine. -/
theorem not_able_of_error {o : Operator} (hnamed : tables.named username = some o) (hid : Fresh tables id)
    {e : DatabaseError} (herror : (firstWrite tables username id).error committed = some e) :
    ¬Able tables username := by
  intro able
  rcases hcommitted with rfl | hsettled
  · rw [firstWrite_error h able hid] at herror
    cases herror
  · obtain ⟨admin, hprovided⟩ := hsettled.provided h
    have hnothing : (firstWrite tables username id).error committed = none := by
      rw [firstWrite_some hnamed]
      refine Tables.setOperator_error.2 fun p hp hpid => ?_
      rw [hprovided.promoted_again hnamed hp hpid]
      exact hprovided.consistent.checked p hp
    cases hnothing.symm.trans herror

/-- A new user is there already, or its name is too long. -/
theorem settled_of_error (hnone : tables.named username = none) (hid : Fresh tables id) {e : DatabaseError}
    (herror : (firstWrite tables username id).error committed = some e) :
    if e = .integrityError then Settled tables username tokenHash committed else ¬Able tables username := by
  rcases hcommitted with rfl | hsettled
  · have unable : ¬Able committed username := fun able => by
      rw [firstWrite_error h able hid] at herror
      cases herror
    have hlength : maxUsername < username.length := by
      by_contra hlength
      exact unable ⟨by omega, by simp [hnone]⟩
    rw [firstWrite_none hnone, Write.error, if_pos (by simpa [bootstrapAdmin] using hlength)] at herror
    obtain rfl := Option.some.inj herror
    rw [if_neg (by decide)]
    exact unable
  · rw [firstWrite_none hnone, Write.error, if_neg (by simpa [bootstrapAdmin] using hsettled.1.1)] at herror
    split at herror
    · obtain rfl := Option.some.inj herror
      rw [if_pos rfl]
      exact hsettled
    · cases herror

theorem able_of_written (herror : (firstWrite tables username id).error committed = none) :
    Able tables username ∧ (tables.named username = none → committed = tables) := by
  rcases hcommitted with rfl | hsettled
  · refine ⟨?_, fun _ => rfl⟩
    cases hnamed : committed.named username with
    | none =>
      rw [firstWrite_none hnamed] at herror
      exact ⟨(Tables.addOperator_error.1 herror).1, by simp [hnamed]⟩
    | some o =>
      obtain ⟨ho, hname⟩ := Tables.of_named hnamed
      refine ⟨hname ▸ h.lengths o ho, fun p hp => ?_⟩
      obtain rfl := Option.some.inj (hnamed.symm.trans hp)
      rw [firstWrite_some hnamed] at herror
      have hchecked := Tables.setOperator_error.1 herror o ho rfl
      rw [promoted] at hchecked
      rcases hchecked with hhuman | hrole
      · cases hcases : o.principalType with
        | operator => rfl
        | integration => exact absurd hcases hhuman
      · cases hrole
  · refine ⟨hsettled.1, fun hnone => ?_⟩
    obtain ⟨admin, hprovided⟩ := hsettled.provided h
    rw [firstWrite_none hnone] at herror
    exact absurd hprovided.name ((Tables.addOperator_error.1 herror).2.2 admin hprovided.mem).2

end Errors

namespace Guarded

variable {tables : Tables} {username tokenHash : String} {db : Database} {s : Nat} {id : Id}
  (h : Guarded tables username tokenHash db)
include h

/-- Reads, new sessions and new ids. -/
theorem of_store {db' : Database} (hstore : db'.store = db.store) (hsessions : db.sessions ≤ db'.sessions)
    (hid : db.nextId ≤ db'.nextId) : Guarded tables username tokenHash db' := by
  refine ⟨?_, ?_, ?_, ?_, ?_, ?_, fun o ho => (h.fresh o ho).trans_le hid⟩ <;> rw [hstore]
  · exact h.committed
  · exact h.able
  · exact h.locked
  · exact h.opening
  · exact h.exclusive
  · exact fun s hs => h.unused s (hsessions.trans hs)

theorem rollback (s : Nat) : Guarded tables username tokenHash { db with store := db.store.rollback s } := by
  have before (s' : Nat) (hs' : (db.store.rollback s).writes s' ≠ []) :
      (db.store.rollback s).writes s' = db.store.writes s' := by
    by_cases hne : s' = s
    · exact absurd (hne ▸ Transactional.writes_rollback_self) hs'
    · exact Transactional.writes_rollback_of_ne hne
  refine ⟨h.committed, fun s' hs' => h.able s' (before s' hs' ▸ hs'), fun s' hs' => ?_, fun s' hs' hopening => ?_,
    h.exclusive.rollback, fun s' hs' => ?_, h.fresh⟩
  · have hbefore := before s' hs'
    rw [hbefore] at hs' ⊢
    exact h.locked s' hs'
  · have hbefore := before s' hs'
    rw [hbefore] at hs' hopening
    exact h.opening s' hs' hopening
  · by_contra hne
    exact hne ((before s' hne).trans (h.unused s' hs'))

/-- A session that writes beside nobody. -/
theorem write {w : Write} (hs : s < db.sessions) (alone : ∀ s', db.store.writes s' ≠ [] → s' = s)
    (able : Able tables username) (hfirst : ∃ id, firstWrite tables username id ∈ db.store.writes s ++ [w])
    (hopening : (tables.named username = none ∨ ∃ row, .addToken row ∈ db.store.writes s ++ [w]) →
      db.store.committed = tables) :
    Guarded tables username tokenHash { db with store := db.store.write s w } := by
  have only (s' : Nat) (hs' : (db.store.write s w).writes s' ≠ []) : s' = s := by
    by_contra hne
    rw [Transactional.writes_write_of_ne w hne] at hs'
    exact hne (alone s' hs')
  refine ⟨h.committed, fun _ _ => able, fun s' hs' => ?_, fun s' hs' => ?_,
    Transactional.exclusive_write alone, fun s' hs' => ?_, h.fresh⟩
  · obtain rfl := only s' hs'
    simpa using hfirst
  · obtain rfl := only s' hs'
    rw [Transactional.writes_write_self]
    exact hopening
  · by_contra hne
    obtain rfl := only s' hne
    exact absurd hs (Nat.not_lt.2 hs')

/-- The sessions that have written, when another one has found its first statement's key clear. -/
theorem alone (hs : db.store.Clear Write.key s (firstWrite tables username id)) :
    ∀ s', db.store.writes s' ≠ [] → s' = s := by
  refine fun s' hs' => hs.alone (fun s' hs' => ?_) hs'
  obtain ⟨id', hfirst⟩ := h.locked s' hs'
  exact ⟨_, hfirst, firstWrite_key id' id⟩

/-- The first statement of a session, where no constraint forbids it. -/
theorem first (hconsistent : tables.Consistent) (hs : s < db.sessions) (hwrites : db.store.writes s = [])
    (hclear : db.store.Clear Write.key s (firstWrite tables username id))
    (herror : (firstWrite tables username id).error db.store.committed = none) :
    Guarded tables username tokenHash { db with store := db.store.write s (firstWrite tables username id) } := by
  obtain ⟨able, hnone⟩ := able_of_written hconsistent h.committed herror
  refine h.write hs (h.alone hclear) able ⟨id, by simp⟩ ?_
  rintro (hnamed | ⟨row, hrow⟩)
  · exact hnone hnamed
  · rw [hwrites, List.nil_append, List.mem_singleton] at hrow
    exact absurd hrow (addToken_ne_firstWrite row id)

/-- The token of a session that has written its operator. -/
theorem token (hconsistent : tables.Consistent) (hs : s < db.sessions)
    (hwrites : db.store.writes s = [firstWrite tables username id]) {row : OperatorToken}
    (hrow : row.tokenHash = tokenHash) (herror : (Write.addToken row).error (db.view s) = none) :
    Guarded tables username tokenHash { db with store := db.store.write s (.addToken row) } := by
  have hne : db.store.writes s ≠ [] := by simp [hwrites]
  have hcommitted : db.store.committed = tables := by
    refine h.committed.resolve_right fun hsettled => ?_
    obtain ⟨admin, hprovided⟩ := hsettled.provided hconsistent
    obtain ⟨t, ht, hhash⟩ := Tables.hashed_isSome.1 hprovided.hashed
    refine (Tables.addToken_error.1 herror).1 t ?_ (hhash.trans hrow.symm)
    rwa [Database.view, Transactional.view, hwrites, List.foldl_cons, List.foldl_nil, tokens_firstWrite]
  exact h.write hs (fun s' hs' => h.exclusive s' s hs' hne) (h.able s hne) ⟨id, by simp [hwrites]⟩
    fun _ => hcommitted

/-- A commit with nothing left to be flushed settles the tables. -/
theorem settles (hconsistent : tables.Consistent) {found : Bool}
    (hflushing : Flushing tables username tokenHash db.store.committed (db.store.writes s) found []) :
    Settled tables username tokenHash (db.view s) := by
  generalize hunflushed : ([] : List Write) = unflushed at hflushing
  cases hflushing with
  | @whole id _ hid hwrites _ =>
    obtain rfl := hunflushed
    rw [List.append_nil] at hwrites
    have hne : db.store.writes s ≠ [] := by simp [hwrites, bootstrapWrites]
    rcases h.committed with hcommitted | hsettled
    · exact ⟨h.able s hne, id, hid, by rw [Database.view, Transactional.view, hwrites, hcommitted]⟩
    · by_cases hopening : tables.named username = none ∨ ∃ row, .addToken row ∈ db.store.writes s
      · exact ⟨h.able s hne, id, hid, by
          rw [Database.view, Transactional.view, hwrites, h.opening s hne hopening]⟩
      · obtain ⟨hnamed, hrow⟩ := not_or.1 hopening
        obtain ⟨o, ho⟩ := Option.ne_none_iff_exists'.1 hnamed
        obtain ⟨admin, hprovided⟩ := hsettled.provided hconsistent
        have htoken : tokenWrites tables username tokenHash id = [] := by
          by_contra hne'
          refine hrow ⟨issueToken (owner tables username id) tokenHash, ?_⟩
          rw [hwrites, bootstrapWrites, tokenWrites]
          rw [tokenWrites] at hne'
          split at hne'
          · exact absurd rfl hne'
          · simp [*]
        rwa [Database.view, Transactional.view, hwrites, bootstrapWrites, htoken, List.foldl_cons, List.foldl_nil,
          hprovided.again ho]
  | @late o id _ hsettled hnamed _ hwrites =>
    obtain rfl := hunflushed
    rw [List.append_nil] at hwrites
    obtain ⟨admin, hprovided⟩ := hsettled.provided hconsistent
    rwa [Database.view, Transactional.view, hwrites, List.foldl_cons, List.foldl_nil, hprovided.again hnamed]
  | idle hsettled hwrites => rwa [Database.view, Transactional.view_of_writes_nil hwrites]

theorem commit (hconsistent : tables.Consistent) {found : Bool}
    (hflushing : Flushing tables username tokenHash db.store.committed (db.store.writes s) found []) :
    Guarded tables username tokenHash { db with store := db.store.commit Write.apply s } := by
  have hrollback := h.rollback s
  refine ⟨.inr (h.settles hconsistent hflushing), hrollback.able, hrollback.locked, fun s' hs' hopening => ?_,
    hrollback.exclusive, hrollback.unused, h.fresh⟩
  by_cases hwrites : db.store.writes s = []
  · exact (Transactional.view_of_writes_nil hwrites).trans (hrollback.opening s' hs' hopening)
  · -- the others have written nothing
    have hne : s' ≠ s := fun heq => hs' (heq ▸ Transactional.writes_rollback_self)
    refine absurd (h.exclusive s' s ?_ hwrites) hne
    rwa [← Transactional.writes_rollback_of_ne hne]

end Guarded

theorem answer_written {db : Database} {s : Nat} {w : Write} (h : w.error (db.view s) = none) :
    answer (.write s w) db = (none, { db with store := db.store.write s w }) := by
  simp [answer, h]

theorem answer_error {db : Database} {s : Nat} {w : Write} {e : DatabaseError} (h : w.error (db.view s) = some e) :
    answer (.write s w) db = (some e, { db with store := db.store.rollback s }) := by
  simp [answer, h]

section Step

variable {tables : Tables} {username tokenHash : String} {db : Database}

/-- What holds before a request is answered. -/
structure Before (tables : Tables) (username tokenHash : String) (db : Database) (m : Stage) : Prop where
  guarded : Guarded tables username tokenHash db
  fact : m.Fact tables username tokenHash db
  session : ∀ s ∈ m.session, s < db.sessions

/-- What holds after it. -/
structure After (tables : Tables) (username tokenHash : String) (db db' : Database) (m' : Stage) : Prop where
  guarded : Guarded tables username tokenHash db'
  fact : m'.Fact tables username tokenHash db'
  settled : Settled tables username tokenHash db.store.committed →
    Settled tables username tokenHash db'.store.committed

variable (hconsistent : tables.Consistent) (hadmins : ∀ o ∈ tables.operators, ¬o.Admin)

include hadmins in
theorem promotion_eq {o : Operator} (hnamed : tables.named username = some o) (id : Id) :
    o.promotion = [firstWrite tables username id] := by
  rw [Operator.promotion, if_neg (hadmins o (Tables.of_named hnamed).1), firstWrite_some hnamed]

include hconsistent

theorem After.flushed {s : Nat} {found : Bool} {w : Write} {ws : List Write}
    (h : Before tables username tokenHash db (.flushing s found (w :: ws)))
    (hclear : db.store.Clear Write.key s w) :
    After tables username tokenHash db (answer (.write s w) db).2
      ((booting username tokenHash).next (.flushing s found (w :: ws)) (.write s w) (answer (.write s w) db).1) := by
  have hs := h.session s rfl
  obtain ⟨id, hid, hnext⟩ := h.fact.next
  cases herror : w.error (db.view s) with
  | none =>
    rw [answer_written herror]
    refine ⟨?_, ?_, fun hsettled => hsettled⟩
    · rcases hnext with ⟨hwrites, rfl, -⟩ | ⟨hwrites, rfl, -⟩
      · rw [Database.view, Transactional.view_of_writes_nil hwrites] at herror
        exact h.guarded.first hconsistent hs hwrites hclear herror
      · exact h.guarded.token hconsistent hs hwrites rfl herror
    · change Flushing _ _ _ _ ((db.store.write s w).writes s) _ _
      rw [Transactional.writes_write_self]
      exact h.fact.flush
  | some e =>
    rw [answer_error herror]
    refine ⟨h.guarded.rollback s, ?_, fun hsettled => hsettled⟩
    rcases hnext with ⟨hwrites, rfl, o, hnamed⟩ | ⟨hwrites, rfl, hhashed, rfl⟩
    · have unable : ¬Able tables username := by
        rw [Database.view, Transactional.view_of_writes_nil hwrites] at herror
        exact not_able_of_error hconsistent h.guarded.committed hnamed hid herror
      change Stage.Fact _ _ _ _ (if e = .integrityError ∧ found = false then .yielding s else .failed)
      split
      · exact ⟨Transactional.writes_rollback_self, .inr unable⟩
      · exact unable
    · have hintegrity : e = .integrityError := by
        rw [Write.error] at herror
        split at herror
        · exact (Option.some.inj herror).symm
        · cases herror
      have hsettled : Settled tables username tokenHash db.store.committed := by
        refine h.guarded.committed.resolve_left fun hcommitted => ?_
        rw [Database.view, Transactional.view, hwrites, hcommitted, List.foldl_cons, List.foldl_nil,
          tokenWrite_error hconsistent id hhashed] at herror
        cases herror
      change Stage.Fact _ _ _ _ (if e = .integrityError ∧ false = false then .yielding s else .failed)
      rw [if_pos ⟨hintegrity, rfl⟩]
      exact ⟨Transactional.writes_rollback_self, .inl hsettled⟩

/-- A new user is added, was added before, or has too long a name. -/
theorem After.added {s : Nat} {id : Id} (h : Before tables username tokenHash db (.adding s id))
    (hclear : db.store.Clear Write.key s (.addOperator (bootstrapAdmin id username))) :
    After tables username tokenHash db (answer (.write s (.addOperator (bootstrapAdmin id username))) db).2
      ((booting username tokenHash).next (.adding s id) (.write s (.addOperator (bootstrapAdmin id username)))
        (answer (.write s (.addOperator (bootstrapAdmin id username))) db).1) := by
  obtain ⟨hwrites, hnone, hid⟩ := h.fact
  have hview : db.view s = db.store.committed := Transactional.view_of_writes_nil hwrites
  rw [← firstWrite_none hnone] at hclear ⊢
  cases herror : (firstWrite tables username id).error (db.view s) with
  | none =>
    rw [answer_written herror]
    refine ⟨h.guarded.first hconsistent (h.session s rfl) hwrites hclear (hview ▸ herror), ?_, fun hs => hs⟩
    exact .added hnone hid (by rw [Transactional.writes_write_self, hwrites, List.nil_append])
  | some e =>
    rw [answer_error herror]
    refine ⟨h.guarded.rollback s, ?_, fun hs => hs⟩
    have hwhy := settled_of_error hconsistent h.guarded.committed hnone hid (hview ▸ herror)
    change Stage.Fact _ _ _ _ (if e = .integrityError then .losing s else .failed)
    by_cases he : e = .integrityError
    · rw [if_pos he] at hwhy ⊢
      exact ⟨Transactional.writes_rollback_self, hwhy⟩
    · rw [if_neg he] at hwhy ⊢
      exact hwhy

/-- The user of the name, or the look for it, once the session has written nothing. -/
theorem After.named {s : Nat} (h : Guarded tables username tokenHash db) (hwrites : db.store.writes s = []) :
    ∀ o ∈ (db.view s).named username, Stage.Fact tables username tokenHash db (.hashing s o.id o.promotion) := by
  have hview : db.view s = db.store.committed := Transactional.view_of_writes_nil hwrites
  rw [hview]
  intro o ho
  rcases h.committed with hcommitted | hsettled
  · exact .known (hcommitted ▸ ho) hwrites
  · obtain ⟨admin, hprovided⟩ := hsettled.provided hconsistent
    obtain rfl := Option.some.inj (hprovided.named.symm.trans ho)
    rw [Operator.promotion, if_pos hprovided.active]
    exact .settled hsettled hwrites

include hadmins

/-- The look for the token leaves the whole of the statements to be flushed, or what somebody else has done. -/
theorem After.hashed {s : Nat} {operator : Id} {unflushed : List Write}
    (h : Before tables username tokenHash db (.hashing s operator unflushed)) :
    ((booting username tokenHash).next (.hashing s operator unflushed) (.tokenHashed s tokenHash)
      ((db.view s).hashed tokenHash)).Fact tables username tokenHash db := by
  have whole {id : Id} (hid : Fresh tables id) (howner : owner tables username id = operator)
      (hfirst : db.store.writes s ++ unflushed = [firstWrite tables username id])
      (hnone : tables.named username = none → db.store.writes s ≠ [])
      (hrow : ((db.view s).hashed tokenHash).isSome = (tables.hashed tokenHash).isSome) :
      ((booting username tokenHash).next (.hashing s operator unflushed) (.tokenHashed s tokenHash)
        ((db.view s).hashed tokenHash)).Fact tables username tokenHash db := by
    change Stage.Fact _ _ _ _ (if ((db.view s).hashed tokenHash).isSome then .flushing s true unflushed else
      .flushing s false (unflushed ++ [.addToken (issueToken operator tokenHash)]))
    rw [hrow]
    by_cases hhashed : (tables.hashed tokenHash).isSome
    · rw [if_pos hhashed, ← hhashed]
      refine .whole hid ?_ hnone
      rw [hfirst, bootstrapWrites, tokenWrites, if_pos hhashed]
    · rw [if_neg hhashed, ← Bool.eq_false_iff.2 hhashed]
      refine .whole hid ?_ hnone
      rw [← List.append_assoc, hfirst, bootstrapWrites, tokenWrites, if_neg hhashed, howner, List.singleton_append]
  generalize hstage : Stage.hashing s operator unflushed = m at h
  have hfact := h.fact
  subst hstage
  cases hfact with
  | added hnone hid hwrites =>
    refine whole hid (by rw [owner, hnone, Option.elim_none]) (by rw [hwrites, List.append_nil]) (by simp [hwrites]) ?_
    have hcommitted := h.guarded.opening s (by simp [hwrites]) (.inl hnone)
    have htokens : (db.view s).tokens = tables.tokens := by
      rw [Database.view, Transactional.view, hwrites, List.foldl_cons, List.foldl_nil, tokens_firstWrite, hcommitted]
    rw [Tables.hashed, Tables.hashed, htokens]
  | @known o hnamed hwrites =>
    have hview : db.view s = db.store.committed := Transactional.view_of_writes_nil hwrites
    have hid : Fresh tables db.nextId := fun o ho heq => (h.guarded.fresh o ho).ne heq
    have hpromotion := promotion_eq hadmins hnamed db.nextId
    rcases h.guarded.committed with hcommitted | hsettled
    · exact whole hid (by rw [owner, hnamed, Option.elim_some]) (by rw [hwrites, hpromotion, List.nil_append])
        (by simp [hnamed]) (by rw [hview, hcommitted])
    · obtain ⟨admin, hprovided⟩ := hsettled.provided hconsistent
      change Stage.Fact _ _ _ _ (if ((db.view s).hashed tokenHash).isSome then _ else _)
      rw [hview, if_pos hprovided.hashed]
      exact .late hsettled hnamed hid (by rw [hwrites, hpromotion, List.nil_append])
  | settled hsettled hwrites =>
    obtain ⟨admin, hprovided⟩ := hsettled.provided hconsistent
    have hview : db.view s = db.store.committed := Transactional.view_of_writes_nil hwrites
    change Stage.Fact _ _ _ _ (if ((db.view s).hashed tokenHash).isSome then _ else _)
    rw [hview, if_pos hprovided.hashed]
    exact .idle hsettled hwrites

/-- What an answered request makes of the database and of its worker. -/
theorem After.answer {m : Stage} (h : Before tables username tokenHash db m) {o : Op}
    (hok : (booting username tokenHash).ok m o) (hclear : ∀ s w, o = .write s w → db.store.Clear Write.key s w) :
    After tables username tokenHash db (answer o db).2
      ((booting username tokenHash).next m o (answer o db).1) := by
  cases m with
  | starting =>
    obtain rfl := hok
    exact ⟨h.guarded.of_store rfl (Nat.le_succ _) le_rfl, h.guarded.unused _ le_rfl, fun hs => hs⟩
  | entered s =>
    obtain rfl := hok
    refine ⟨h.guarded, ?_, fun hs => hs⟩
    change Stage.Fact _ _ _ _ (if (db.view s).activeAdmin.isSome then .done else .naming s)
    split
    · rename_i hadmin
      obtain ⟨o, ho, hactive⟩ := Tables.activeAdmin_isSome.1 hadmin
      rw [Database.view, Transactional.view_of_writes_nil h.fact] at ho
      exact .inl (h.guarded.committed.resolve_left fun heq => hadmins o (heq ▸ ho) hactive)
    · exact h.fact
  | naming s =>
    obtain rfl := hok
    refine ⟨h.guarded, ?_, fun hs => hs⟩
    have hview : db.view s = db.store.committed := Transactional.view_of_writes_nil h.fact
    change Stage.Fact _ _ _ _ (((db.view s).named username).elim (.drawing s) fun o => .hashing s o.id o.promotion)
    cases hnamed : (db.view s).named username with
    | some o => exact After.named hconsistent h.guarded h.fact o hnamed
    | none =>
      refine ⟨h.fact, ?_⟩
      rw [hview] at hnamed
      rcases h.guarded.committed with hcommitted | hsettled
      · rwa [hcommitted] at hnamed
      · obtain ⟨admin, hprovided⟩ := hsettled.provided hconsistent
        cases hnamed.symm.trans hprovided.named
  | drawing s =>
    obtain rfl := hok
    exact ⟨h.guarded.of_store rfl le_rfl (Nat.le_succ _),
      ⟨h.fact.1, h.fact.2, fun o ho heq => (h.guarded.fresh o ho).ne heq⟩, fun hs => hs⟩
  | adding s id =>
    obtain rfl := hok
    exact After.added hconsistent h (hclear _ _ rfl)
  | losing s =>
    obtain rfl := hok
    exact ⟨h.guarded.rollback s, ⟨Transactional.writes_rollback_self, h.fact.2⟩, fun hs => hs⟩
  | reading s =>
    obtain rfl := hok
    refine ⟨h.guarded, ?_, fun hs => hs⟩
    obtain ⟨hwrites, hsettled⟩ := h.fact
    have hview : db.view s = db.store.committed := Transactional.view_of_writes_nil hwrites
    obtain ⟨admin, hprovided⟩ := hsettled.provided hconsistent
    change Stage.Fact _ _ _ _ (((db.view s).named username).elim .failed fun o => .hashing s o.id [])
    rw [hview, hprovided.named]
    exact .settled hsettled hwrites
  | hashing s operator unflushed =>
    obtain rfl := hok
    exact ⟨h.guarded, After.hashed hconsistent hadmins h, fun hs => hs⟩
  | flushing s found unflushed =>
    cases unflushed with
    | nil =>
      obtain rfl := hok
      have hsettled := h.guarded.settles hconsistent h.fact
      exact ⟨h.guarded.commit hconsistent h.fact, .inl hsettled, fun _ => hsettled⟩
    | cons w ws =>
      obtain rfl := hok
      exact After.flushed hconsistent h (hclear _ _ rfl)
  | yielding s =>
    obtain rfl := hok
    exact ⟨h.guarded.rollback s, h.fact.2, fun hs => hs⟩
  | done => exact hok.elim
  | failed => exact hok.elim

end Step

section Sessions

variable {username tokenHash : String}

def Op.session : Op → Option Nat
  | .connect | .uuid4 => none
  | .activeAdmin s | .operatorNamed s _ | .tokenHashed s _ | .write s _ | .commit s | .rollback s => some s

theorem answer_writes (o : Op) (db : Database) {s : Nat} (hs : s ∉ o.session) :
    (answer o db).2.store.writes s = db.store.writes s := by
  cases o with
  | write s' w =>
    have hne : s ≠ s' := fun heq => hs (heq ▸ rfl)
    cases herror : w.error (db.view s') with
    | none =>
      rw [answer_written herror]
      exact Transactional.writes_write_of_ne w hne
    | some e =>
      rw [answer_error herror]
      exact Transactional.writes_rollback_of_ne hne
  | commit s' | rollback s' => exact Transactional.writes_rollback_of_ne fun heq => hs (heq ▸ rfl)
  | _ => rfl

theorem answer_sessions (o : Op) (db : Database) : db.sessions ≤ (answer o db).2.sessions := by
  cases o with
  | connect => exact Nat.le_succ _
  | write s w =>
    cases herror : w.error (db.view s) with
    | none => rw [answer_written herror]
    | some e => rw [answer_error herror]
  | _ => exact le_rfl

/-- A worker uses its own session. -/
theorem session_of_ok {m : Stage} {o : Op} (hok : (booting username tokenHash).ok m o) :
    ∀ s ∈ o.session, s ∈ m.session := by
  cases m with
  | flushing s found unflushed => cases unflushed <;> · obtain rfl := hok; exact fun _ h => h
  | done | failed => exact hok.elim
  | _ => obtain rfl := hok; simp [Op.session, Stage.session]

/-- A worker that has connected keeps its session, or ends. -/
theorem session_of_next {m : Stage} {o : Op} (hok : (booting username tokenHash).ok m o) (hm : m ≠ .starting)
    (r : o.Reply) : ((booting username tokenHash).next m o r).session = m.session ∨
      ((booting username tokenHash).next m o r).session = none := by
  cases m with
  | starting => exact absurd rfl hm
  | entered s =>
    obtain rfl := hok
    change (if r.isSome then Stage.done else .naming s).session = _ ∨ (if r.isSome then Stage.done else .naming s).session = _
    split
    · exact .inr rfl
    · exact .inl rfl
  | naming s | reading s => obtain rfl := hok; cases r <;> simp [booting, Stage.session]
  | drawing s | losing s => obtain rfl := hok; exact .inl rfl
  | adding s id =>
    obtain rfl := hok
    cases r with
    | none => exact .inl rfl
    | some e => cases e <;> simp [booting, Stage.session]
  | hashing s operator unflushed => obtain rfl := hok; cases r <;> exact .inl rfl
  | flushing s found unflushed =>
    cases unflushed with
    | nil => obtain rfl := hok; exact .inr rfl
    | cons w ws =>
      obtain rfl := hok
      cases r with
      | none => exact .inl rfl
      | some e => cases e <;> cases found <;> simp [booting, Stage.session]
  | yielding s => obtain rfl := hok; exact .inr rfl
  | done | failed => exact hok.elim

/-- A worker that ends has nothing left that is not committed. -/
theorem writes_of_ended {tables : Tables} {db : Database} {m : Stage} {o : Op}
    (hfact : m.Fact tables username tokenHash db) (hok : (booting username tokenHash).ok m o)
    (hended : ((booting username tokenHash).next m o (answer o db).1).session = none) :
    ∀ s ∈ m.session, (answer o db).2.store.writes s = [] := by
  cases m with
  | entered s => obtain rfl := hok; rintro _ ⟨⟩; exact hfact
  | reading s => obtain rfl := hok; rintro _ ⟨⟩; exact hfact.1
  | adding s id =>
    obtain rfl := hok
    rintro _ ⟨⟩
    cases herror : (Write.addOperator (bootstrapAdmin id username)).error (db.view s) with
    | none => rw [answer_written herror] at hended; cases hended
    | some e => rw [answer_error herror]; exact Transactional.writes_rollback_self
  | flushing s found unflushed =>
    cases unflushed with
    | nil => obtain rfl := hok; rintro _ ⟨⟩; exact Transactional.writes_rollback_self
    | cons w ws =>
      obtain rfl := hok
      rintro _ ⟨⟩
      cases herror : w.error (db.view s) with
      | none => rw [answer_written herror] at hended; cases hended
      | some e => rw [answer_error herror]; exact Transactional.writes_rollback_self
  | yielding s => obtain rfl := hok; rintro _ ⟨⟩; exact Transactional.writes_rollback_self
  | naming s =>
    obtain rfl := hok
    change (((db.view s).named username).elim (Stage.drawing s) fun o => .hashing s o.id o.promotion).session = none
      at hended
    cases hnamed : (db.view s).named username <;> rw [hnamed] at hended <;> cases hended
  | hashing s operator unflushed =>
    obtain rfl := hok
    change (if ((db.view s).hashed tokenHash).isSome then Stage.flushing s true unflushed else
      .flushing s false (unflushed ++ [.addToken (issueToken operator tokenHash)])).session = none at hended
    split at hended <;> cases hended
  | starting | drawing s | losing s => obtain rfl := hok; cases hended
  | done | failed => exact hok.elim

end Sessions

end SafeOps.Security
