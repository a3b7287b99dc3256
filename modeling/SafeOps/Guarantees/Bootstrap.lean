import SafeOps.Observers.Booting
import SafeOps.Concurrent.Bounded

/-! Workers that start together leave one active ADMIN with the configured token, wherever the user of the
configured name is no machine and a token row with the configured hash, if there is one, is its own. -/

namespace SafeOps.Security
open Concurrent

section Runs

variable {hashToken : String → String} {token username : String} {tables : Tables} {c d : App}

/-- Where thread `i` is. -/
abbrev stage (username tokenHash : String) (c : App) (i : Nat) : Stage := c.past (booting username tokenHash) .starting i

/-- What holds whatever the workers have done so far. -/
structure Sound (tables : Tables) (username tokenHash : String) (c : App) : Prop where
  guarded : Guarded tables username tokenHash c.state
  facts : ∀ i, (stage username tokenHash c i).Fact tables username tokenHash c.state
  bounded : ∀ i, ∀ s ∈ (stage username tokenHash c i).session, s < c.state.sessions
  apart : ∀ i j, ∀ s ∈ (stage username tokenHash c i).session, s ∈ (stage username tokenHash c j).session → i = j
  owned : ∀ s, c.state.store.writes s ≠ [] → ∃ i, s ∈ (stage username tokenHash c i).session

theorem lt_nextId {operators : List Operator} : ∀ o ∈ operators, o.id < (operators.map (·.id + 1)).foldr max 0 := by
  induction operators with
  | nil => simp
  | cons first operators ih =>
    intro o ho
    rw [List.map_cons, List.foldr_cons]
    rcases List.mem_cons.1 ho with rfl | ho
    · exact (Nat.lt_succ_self _).trans_le (Nat.le_max_left _ _)
    · exact (ih o ho).trans_le (Nat.le_max_right _ _)

theorem Sound.start (tables : Tables) (username tokenHash : String) :
    Sound tables username tokenHash (start tables) := by
  have nothing (s : Nat) : (Security.start tables).state.store.writes s = [] := rfl
  refine ⟨⟨.inl rfl, ?_, ?_, ?_, ?_, fun s _ => nothing s, lt_nextId⟩, fun _ => trivial, ?_, ?_, ?_⟩
  · exact fun s hs => absurd (nothing s) hs
  · exact fun s hs => absurd (nothing s) hs
  · exact fun s hs => absurd (nothing s) hs
  · exact fun s _ hs => absurd (nothing s) hs
  · exact fun i s hs => by cases hs
  · exact fun i j s hs => by cases hs
  · exact fun s hs => absurd (nothing s) hs

variable {settings : Settings}

theorem stage_answer (tokenHash : String) (i : Nat) (call : Unit) (o : Op) (k : o.Reply → Worker Unit) (j : Nat) :
    stage username tokenHash (c.answer (system hashToken settings) i call o k) j =
      if i = j then (booting username tokenHash).next (stage username tokenHash c j) o (answer o c.state).1
      else stage username tokenHash c j :=
  rfl

theorem Sound.answer {tokenHash : String} (hconsistent : tables.Consistent)
    (hadmins : ∀ o ∈ tables.operators, ¬o.Admin) (h : Sound tables username tokenHash c) {i : Nat} {call : Unit} {o : Op}
    {k : o.Reply → Worker Unit} (hok : (booting username tokenHash).ok (stage username tokenHash c i) o)
    (hclear : Unblocked c (c.entry (system hashToken settings) i o)) :
    Sound tables username tokenHash (c.answer (system hashToken settings) i call o k) := by
  have hafter : After tables username tokenHash c.state (Security.answer o c.state).2 _ :=
    After.answer hconsistent hadmins ⟨h.guarded, h.facts i, h.bounded i⟩ hok fun s w heq => by
      subst heq
      exact hclear
  -- the session of the worker, and nobody else's
  have own (s : Nat) (hs : s ∈ (stage username tokenHash (c.answer (system hashToken settings) i call o k) i).session) :
      s ∈ (stage username tokenHash c i).session ∨ (s = c.state.sessions ∧ s < (Security.answer o c.state).2.sessions) := by
    rw [stage_answer, if_pos rfl] at hs
    by_cases hstarting : stage username tokenHash c i = .starting
    · rw [hstarting] at hs hok
      obtain rfl := hok
      obtain rfl := Option.some.inj hs
      exact .inr ⟨rfl, Nat.lt_succ_self _⟩
    · rcases session_of_next hok hstarting (Security.answer o c.state).1 with heq | heq
      · exact .inl (heq ▸ hs)
      · rw [heq] at hs
        cases hs
  have other {j : Nat} (hj : i ≠ j) : stage username tokenHash (c.answer (system hashToken settings) i call o k) j =
      stage username tokenHash c j := by rw [stage_answer, if_neg hj]
  have foreign {j : Nat} (hj : i ≠ j) (s : Nat) (hs : s ∈ (stage username tokenHash c j).session) : s ∉ o.session :=
    fun ho => hj (h.apart i j s (session_of_ok hok s ho) hs)
  refine ⟨hafter.guarded, fun j => ?_, fun j s hs => ?_, fun j j' s hs hs' => ?_, fun s hs => ?_⟩
  · by_cases hj : i = j
    · subst hj
      rw [stage_answer, if_pos rfl]
      exact hafter.fact
    · rw [other hj]
      exact (h.facts j).frame (fun s hs => answer_writes o c.state (foreign hj s hs)) hafter.settled
  · by_cases hj : i = j
    · subst hj
      rcases own s hs with hs | ⟨-, hs⟩
      · exact (h.bounded i s hs).trans_le (answer_sessions o c.state)
      · exact hs
    · rw [other hj] at hs
      exact (h.bounded j s hs).trans_le (answer_sessions o c.state)
  · by_cases hj : i = j <;> by_cases hj' : i = j'
    · exact hj.symm.trans hj'
    · subst hj
      rw [other hj'] at hs'
      rcases own s hs with hs | ⟨rfl, -⟩
      · exact h.apart i j' s hs hs'
      · exact absurd (h.bounded j' _ hs') (lt_irrefl _)
    · subst hj'
      rw [other hj] at hs
      rcases own s hs' with hs' | ⟨rfl, -⟩
      · exact h.apart j i s hs hs'
      · exact absurd (h.bounded j _ hs) (lt_irrefl _)
    · rw [other hj] at hs
      rw [other hj'] at hs'
      exact h.apart j j' s hs hs'
  · change (Security.answer o c.state).2.store.writes s ≠ [] at hs
    by_cases hi : s ∈ (stage username tokenHash c i).session
    · refine ⟨i, ?_⟩
      rw [stage_answer, if_pos rfl]
      have hstarting : stage username tokenHash c i ≠ .starting := fun heq => by rw [heq] at hi; cases hi
      rcases session_of_next hok hstarting (Security.answer o c.state).1 with heq | heq
      · rwa [heq]
      · exact absurd (writes_of_ended (h.facts i) hok heq s hi) hs
    · rw [answer_writes o c.state fun ho => hi (session_of_ok hok s ho)] at hs
      obtain ⟨j, hj⟩ := h.owned s hs
      have hne : i ≠ j := fun heq => hi (heq ▸ hj)
      exact ⟨j, by rwa [other hne]⟩

theorem sound (hconsistent : tables.Consistent) (hadmins : ∀ o ∈ tables.operators, ¬o.Admin) (htoken : token ≠ "")
    (h : Steps (system hashToken ⟨some token, username⟩) Unblocked (start tables) c) :
    Sound tables username (hashToken token) c := by
  refine h.invariant (Sound.start tables username _) (fun d call h => ⟨h.guarded, h.facts, h.bounded, h.apart, h.owned⟩)
    (fun _ change _ => change.elim) ?_
  intro d i call o k hd hwaiting hclear hsound
  have hmonitored := hd.monitored (Config.monitored_start _) fun _ => startup_obeys hashToken htoken
  exact hsound.answer hconsistent hadmins (hmonitored.allowed hwaiting) hclear

end Runs

section Bounded

theorem exceptIntegrityError_within {α : Type} {Q : α → Prop} {n m : Nat} {p handler : Worker α} (hp : p.Within Q n)
    (hhandler : handler.Within Q m) : (exceptIntegrityError p handler).Within Q (n + m) := by
  refine hp.tryCatch fun e => ?_
  split
  · exact hhandler
  · exact Program.within_raise e

theorem commit_within (session : Nat) (ws : List Write) :
    (commit session ws).Within (fun _ => True) (ws.length + 1) := by
  induction ws with
  | nil => exact fun _ => trivial
  | cons w ws ih =>
    have hflush : (flush session w).Within (fun _ => True) 1 := fun error => by cases error <;> trivial
    exact (hflush.bind fun _ _ => ih).mono (by simp only [List.length_cons]; omega)

theorem bootstrapOperator_within (session : Nat) (username : String) :
    (bootstrapOperator session username).Within (fun r => r.2.length ≤ 1) 5 := by
  intro row
  cases row with
  | some o =>
    change o.promotion.length ≤ 1
    rw [Operator.promotion]
    split
    · exact Nat.zero_le _
    · exact le_rfl
  | none =>
    intro id
    have hraced : (raced session username).Within (fun r => r.2.length ≤ 1) 2 := fun _ row => by
      cases row
      · trivial
      · exact Nat.zero_le _
    have hflush : ((flush session (.addOperator (bootstrapAdmin id username))).bind fun _ =>
        Program.ret (id, ([] : List Write))).Within (fun r => r.2.length ≤ 1) 1 := fun error => by
      cases error
      · exact Nat.zero_le _
      · trivial
    exact exceptIntegrityError_within hflush hraced

theorem bootstrapToken_within (session : Nat) (tokenHash : String) (operator : Id) {ws : List Write}
    (hws : ws.length ≤ 1) : (bootstrapToken session tokenHash operator ws).Within (fun _ => True) 5 := by
  intro row
  cases row with
  | some t =>
    have hle : ws.length + 1 ≤ 4 := by omega
    exact (commit_within session ws).mono hle
  | none =>
    have hcommit : (commit session (ws ++ [.addToken (issueToken operator tokenHash)])).Within (fun _ => True) 3 :=
      (commit_within session _).mono (by simp only [List.length_append, List.length_singleton]; omega)
    exact exceptIntegrityError_within hcommit (m := 1) fun _ => trivial

/-- A worker makes twelve requests at most. -/
theorem startup_within (hashToken : String → String) (settings : Settings) :
    (startup hashToken settings).Within (fun _ => True) 12 := by
  intro (session : Nat)
  change (ensureBootstrapAdmin hashToken settings session).Within (fun _ => True) 11
  rw [ensureBootstrapAdmin]
  cases settings.bootstrapAdminToken with
  | none => trivial
  | some token =>
    by_cases htoken : token = ""
    · simp only [if_pos htoken]
      trivial
    · simp only [if_neg htoken]
      intro row
      cases row with
      | some o => trivial
      | none =>
        exact (bootstrapOperator_within session _).bind (m := 5) fun r hr => bootstrapToken_within session _ r.1 hr

end Bounded

section Accepted

variable {hashToken : String → String} {token username : String} {tables settled : Tables} {admin : Operator}
  {now : Time}

/-- What `Authorization: Bearer <token>` resolves to. -/
theorem getCurrentOperator_bearer : getCurrentOperator hashToken now settled (some ("Bearer " ++ token)) = .ok admin ↔
    strip token.toList ≠ [] ∧ ∃ t, settled.hashed (hashToken (String.ofList (strip token.toList))) = some t ∧
      t.Live now ∧ settled.operators.find? (fun o => o.id = t.operatorId) = some admin ∧ admin.isActive = true := by
  have hheader : ("Bearer " ++ token).toList = "Bearer".toList ++ ' ' :: token.toList := by
    rw [String.toList_append]
    rfl
  have hscheme : ("Bearer".toList ++ ' ' :: token.toList).takeWhile (· ≠ ' ') = "Bearer".toList := rfl
  have hrest : (("Bearer".toList ++ ' ' :: token.toList).dropWhile (· ≠ ' ')).drop 1 = token.toList := rfl
  have hbearer : isBearer "Bearer".toList = true := rfl
  simp only [getCurrentOperator, hheader, hscheme, hrest, hbearer, Bool.true_eq_false, false_or]
  by_cases hempty : strip token.toList = []
  · simp [hempty]
  rw [if_neg hempty]
  cases hhashed : settled.hashed (hashToken (String.ofList (strip token.toList))) with
  | none => simp
  | some t =>
    by_cases hlive : t.Live now
    · cases howner : settled.operators.find? fun o => o.id = t.operatorId with
      | none => simp [hlive, howner]
      | some o =>
        by_cases hactive : o.isActive = true
        · simp only [hlive, not_true_eq_false, if_false, howner, hactive, if_true]
          constructor
          · intro heq
            obtain rfl := Except.ok.inj heq
            exact ⟨hempty, t, rfl, hlive, howner, hactive⟩
          · rintro ⟨-, t', ht', -, hadmin, -⟩
            obtain rfl := Option.some.inj ht'
            rw [howner] at hadmin
            rw [Option.some.inj hadmin]
        · simp only [hlive, not_true_eq_false, if_false, howner, hactive]
          constructor
          · intro heq
            cases heq
          · rintro ⟨-, t', ht', -, hadmin, hactive'⟩
            obtain rfl := Option.some.inj ht'
            rw [howner] at hadmin
            rw [← Option.some.inj hadmin] at hactive'
            exact absurd hactive' hactive
    · simp [hlive]

/-- The row found for what a request presents is the operator's own. -/
def Presentable (hashToken : String → String) (token username : String) (now : Time) (tables : Tables) : Prop :=
  (hashToken (String.ofList (strip token.toList)) = hashToken token ∧ tables.hashed (hashToken token) = none) ∨
    ∃ t ∈ tables.tokens, t.tokenHash = hashToken (String.ofList (strip token.toList)) ∧ t.Live now ∧
      ∃ o ∈ tables.operators, o.id = t.operatorId ∧ o.username = username

theorem Provided.accepted (hconsistent : tables.Consistent)
    (h : Provided tables username (hashToken token) settled admin) :
    getCurrentOperator hashToken now settled (some ("Bearer " ++ token)) = .ok admin ↔
      strip token.toList ≠ [] ∧ Presentable hashToken token username now tables := by
  rw [getCurrentOperator_bearer]
  refine and_congr_right fun _ => ?_
  constructor
  · rintro ⟨t, hhashed, hlive, hadmin, -⟩
    have ht : t ∈ settled.tokens := List.mem_of_find?_eq_some hhashed
    have hpresented : t.tokenHash = hashToken (String.ofList (strip token.toList)) := by
      simpa using List.find?_some hhashed
    have howner : admin.id = t.operatorId := by simpa using List.find?_some hadmin
    rw [h.tokens, List.mem_append] at ht
    rcases ht with ht | ht
    · obtain ⟨o, ho, hid⟩ := hconsistent.owners t ht
      exact .inr ⟨t, ht, hpresented, hlive, o, ho, hid, (h.known o ho).1 (hid.trans howner.symm)⟩
    · cases hrow : tables.hashed (hashToken token) with
      | some _ => simp [hrow] at ht
      | none =>
        obtain rfl : t = issueToken admin.id (hashToken token) := by simpa [hrow] using ht
        exact .inl ⟨hpresented.symm, hrow⟩
  · have resolves {t : OperatorToken} (ht : t ∈ settled.tokens)
        (hhash : t.tokenHash = hashToken (String.ofList (strip token.toList))) (hlive : t.Live now)
        (howner : t.operatorId = admin.id) : ∃ t, settled.hashed (hashToken (String.ofList (strip token.toList))) =
          some t ∧ t.Live now ∧ settled.operators.find? (fun o => o.id = t.operatorId) = some admin ∧
          admin.isActive = true :=
      ⟨t, find_keyed h.consistent.hashes ht hhash, hlive, find_keyed h.consistent.ids h.mem howner.symm, h.active.2⟩
    rintro (⟨hpresented, hrow⟩ | ⟨t, ht, hhash, hlive, o, ho, hid, hname⟩)
    · have hissued : issueToken admin.id (hashToken token) ∈ settled.tokens := by simp [h.tokens, hrow]
      exact resolves hissued hpresented.symm ⟨rfl, fun _ h => by cases h⟩ rfl
    · have hkept : t ∈ settled.tokens := by rw [h.tokens]; exact List.mem_append_left _ ht
      exact resolves hkept hhash hlive (hid.symm.trans ((h.known o ho).2 hname))

end Accepted

/-- What workers leave behind that have started with the configured token. -/
structure Bootstrapped (hashToken : String → String) (token : String) (now : Time) (c : App) : Prop where
  returned : ∀ t ∈ c.threads, t.program = .ret ()
  oneRow : (c.state.store.committed.tokens.filter (·.tokenHash = hashToken token)).length = 1
  admin : ∃ admin, c.state.store.committed.operators.filter (fun o => o.Admin) = [admin] ∧
    getCurrentOperator hashToken now c.state.store.committed (some ("Bearer " ++ token)) = .ok admin

/-- The token is more than blanks, the name fits into its column and belongs to no machine, and the row found
for the token, if there is one, is that user's own. -/
structure Bootstrappable (hashToken : String → String) (token username : String) (now : Time) (tables : Tables) :
    Prop where
  nonblank : strip token.toList ≠ []
  length : username.length ≤ maxUsername
  human : ∀ o ∈ tables.operators, o.username = username → o.principalType = .operator
  row : Presentable hashToken token username now tables

section Outcome

variable {hashToken : String → String} {token username : String} {tables : Tables} {c : App}

theorem able_iff (hconsistent : tables.Consistent) : Able tables username ↔
    username.length ≤ maxUsername ∧ ∀ o ∈ tables.operators, o.username = username → o.principalType = .operator := by
  refine and_congr_right fun _ => ⟨fun h o ho hname => ?_, fun h o ho => ?_⟩
  · exact h o (find_keyed hconsistent.usernames ho hname)
  · obtain ⟨ho, hname⟩ := Tables.of_named ho
    exact h o ho hname

/-- Settled tables have one active ADMIN and one row with the hash of the token. -/
theorem Provided.bootstrapped {admin : Operator} (hadmins : ∀ o ∈ tables.operators, ¬o.Admin)
    (h : Provided tables username (hashToken token) c.state.store.committed admin)
    (hreturned : ∀ t ∈ c.threads, t.program = .ret ()) (now : Time) : Bootstrapped hashToken token now c ↔
      getCurrentOperator hashToken now c.state.store.committed (some ("Bearer " ++ token)) = .ok admin := by
  have hadmin : c.state.store.committed.operators.filter (fun o => o.Admin) = [admin] := by
    refine filter_alone (List.Nodup.of_map _ h.consistent.ids) h.mem fun o ho => ?_
    rw [decide_eq_true_iff]
    constructor
    · intro hactive
      rcases (h.operators o).1 ho with ⟨ho, -⟩ | rfl
      · exact absurd hactive (hadmins o ho)
      · rfl
    · rintro rfl
      exact h.active
  constructor
  · intro hboot
    obtain ⟨admin', hfilter, hresolves⟩ := hboot.admin
    rw [hadmin] at hfilter
    rwa [(List.cons.inj hfilter).1]
  · intro hresolves
    refine ⟨hreturned, ?_, admin, hadmin, hresolves⟩
    obtain ⟨t, ht, hhash⟩ := Tables.hashed_isSome.1 h.hashed
    rw [filter_alone (List.Nodup.of_map _ h.consistent.hashes) ht fun t' ht' => ?_]
    · rfl
    · rw [decide_eq_true_iff]
      exact ⟨fun heq => List.inj_on_of_nodup_map h.consistent.hashes ht' ht (heq.trans hhash.symm),
        fun heq => heq ▸ hhash⟩

/-- Without a token the workers only connect. -/
theorem connecting (h : Steps (system hashToken ⟨some "", username⟩) Unblocked (start tables) c) :
    ∀ t ∈ c.threads, t.program.Uses (· = Op.connect) := by
  have hcode (call : Unit) : ((system hashToken ⟨some "", username⟩).code call).Uses (· = Op.connect) :=
    ⟨rfl, fun _ => trivial⟩
  exact h.confined hcode (by simp [start, Config.start])

theorem untouched (h : Steps (system hashToken ⟨some "", username⟩) Unblocked (start tables) c) :
    c.state.store = ⟨tables, []⟩ := by
  refine h.invariant (I := fun c : App => c.state.store = ⟨tables, []⟩) rfl (fun _ _ h => h)
    (fun _ change _ => change.elim) ?_
  intro d i call o k hd hwaiting _ hstore
  obtain rfl : o = .connect := (connecting hd _ (List.mem_of_getElem? hwaiting)).1
  exact hstore

theorem not_bootstrapped (hadmins : ∀ o ∈ tables.operators, ¬o.Admin) (hcommitted : c.state.store.committed = tables)
    (now : Time) : ¬Bootstrapped hashToken token now c := by
  intro hboot
  obtain ⟨admin, hfilter, -⟩ := hboot.admin
  have hmem : admin ∈ tables.operators.filter fun o => o.Admin := by
    rw [← hcommitted, hfilter]
    exact List.mem_singleton_self admin
  obtain ⟨hmem, hactive⟩ := List.mem_filter.1 hmem
  exact hadmins admin hmem (of_decide_eq_true hactive)

variable (hconsistent : tables.Consistent) (hadmins : ∀ o ∈ tables.operators, ¬o.Admin)
include hconsistent hadmins

theorem bootstrapped_iff (htoken : token ≠ "")
    (h : Steps (system hashToken ⟨some token, username⟩) Unblocked (start tables) c) (hquiescent : c.Quiescent)
    (hstarted : c.threads ≠ []) (now : Time) :
    Bootstrapped hashToken token now c ↔ Bootstrappable hashToken token username now tables := by
  have hsound := sound hconsistent hadmins htoken h
  have hmonitored := h.monitored (Config.monitored_start _) fun _ => startup_obeys hashToken htoken
  by_cases able : Able tables username
  · -- every worker has returned, and the first one has found the tables settled
    have ended (i : Nat) (t : Thread signature DatabaseError Unit Unit) (ht : c.threads[i]? = some t) :
        t.program = .ret () ∧ Settled tables username (hashToken token) c.state.store.committed := by
      have hobeys := hmonitored.2 i t ht
      have hfact := hsound.facts i
      cases hprogram : t.program with
      | ret a =>
        rw [hprogram] at hobeys
        have hdone : stage username (hashToken token) c i = .done := hobeys
        rw [hdone] at hfact
        exact ⟨rfl, hfact.resolve_right (not_not.2 able)⟩
      | raise e =>
        rw [hprogram] at hobeys
        have hfailed : stage username (hashToken token) c i = .failed := hobeys
        rw [hfailed] at hfact
        exact absurd able hfact
      | request o k => exact absurd hprogram (hquiescent t (List.mem_of_getElem? ht) o k)
    have hreturned : ∀ t ∈ c.threads, t.program = .ret () := fun t ht => by
      obtain ⟨i, hi⟩ := List.mem_iff_getElem?.1 ht
      exact (ended i t hi).1
    have hfirst : c.threads[0]? = some (c.threads.head hstarted) := by
      rw [← List.head?_eq_getElem?, List.head?_eq_some_head]
    obtain ⟨admin, hprovided⟩ := (ended 0 _ hfirst).2.provided hconsistent
    rw [hprovided.bootstrapped hadmins hreturned, hprovided.accepted hconsistent]
    obtain ⟨hlength, hhuman⟩ := (able_iff hconsistent).1 able
    exact ⟨fun ⟨hblank, hrow⟩ => ⟨hblank, hlength, hhuman, hrow⟩, fun h => ⟨h.nonblank, h.row⟩⟩
  · have hcommitted : c.state.store.committed = tables :=
      hsound.guarded.committed.resolve_right fun hsettled => able hsettled.1
    exact ⟨fun hboot => absurd hboot (not_bootstrapped hadmins hcommitted now),
      fun h => absurd ((able_iff hconsistent).2 ⟨h.length, h.human⟩) able⟩

/-- While some worker has a request to make, one of them is not kept waiting. -/
theorem some_unblocked (htoken : token ≠ "")
    (h : Steps (system hashToken ⟨some token, username⟩) Unblocked (start tables) c) (hbusy : ¬c.Quiescent) :
    ∃ i call o k, c.threads[i]? = some ⟨call, .request o k⟩ ∧
      Unblocked c (c.entry (system hashToken ⟨some token, username⟩) i o) := by
  have hsound := sound hconsistent hadmins htoken h
  have hmonitored := h.monitored (Config.monitored_start _) fun _ => startup_obeys hashToken htoken
  by_cases hpending : ∃ s, c.state.store.writes s ≠ []
  · -- the worker that has written waits for nobody
    obtain ⟨s, hs⟩ := hpending
    obtain ⟨i, hi⟩ := hsound.owned s hs
    have hspawned : i < c.threads.length := by
      by_contra hlength
      have hunseen : stage username (hashToken token) c i = .starting :=
        Monitor.after_unseen fun e he => by have := hmonitored.1 e he; omega
      rw [hunseen] at hi
      cases hi
    obtain ⟨⟨call, program⟩, hwaiting⟩ : ∃ t, c.threads[i]? = some t := ⟨_, List.getElem?_eq_getElem hspawned⟩
    have hobeys := hmonitored.2 i _ hwaiting
    cases program with
    | ret a =>
      have hdone : stage username (hashToken token) c i = .done := hobeys
      rw [hdone] at hi
      cases hi
    | raise e =>
      have hfailed : stage username (hashToken token) c i = .failed := hobeys
      rw [hfailed] at hi
      cases hi
    | request o k =>
      refine ⟨i, call, o, k, hwaiting, ?_⟩
      have hok : (booting username (hashToken token)).ok (stage username (hashToken token) c i) o := hobeys.1
      cases o with
      | write s' w =>
        obtain rfl := Option.some.inj (hi.symm.trans (session_of_ok hok s' rfl))
        exact hsound.guarded.exclusive.clear hs w
      | _ => trivial
  · have hnone : c.state.store.pending = [] := by
      refine List.eq_nil_iff_forall_not_mem.2 fun p hp => hpending ⟨p.1, ?_⟩
      exact List.ne_nil_of_mem (Transactional.mem_writes.2 hp)
    simp only [Config.Quiescent, not_forall, not_not] at hbusy
    obtain ⟨⟨call, program⟩, ht, o, k, rfl⟩ := hbusy
    obtain ⟨i, hi⟩ := List.mem_iff_getElem?.1 ht
    refine ⟨i, call, o, k, hi, ?_⟩
    cases o with
    | write s' w => exact fun p hp => by simp [hnone] at hp
    | _ => trivial

/-- Workers that start together end, and leave the one ADMIN behind under the exact condition. -/
theorem bootstrap_admin (h : Steps (system hashToken ⟨some token, username⟩) Unblocked (start tables) c) :
    (∀ i, c.history.countP (·.thread = i) ≤ 12) ∧
      (¬c.Quiescent → ∃ i call o k, c.threads[i]? = some ⟨call, .request o k⟩ ∧
        Unblocked c (c.entry (system hashToken ⟨some token, username⟩) i o)) ∧
      (c.Quiescent → c.threads ≠ [] → ∀ now,
        (Bootstrapped hashToken token now c ↔ Bootstrappable hashToken token username now tables)) := by
  refine ⟨h.within fun _ => startup_within hashToken _, ?_⟩
  by_cases htoken : token = ""
  · subst htoken
    refine ⟨fun hbusy => ?_, fun _ _ now => ⟨fun hboot => ?_, fun hable => absurd rfl hable.nonblank⟩⟩
    · simp only [Config.Quiescent, not_forall, not_not] at hbusy
      obtain ⟨⟨call, program⟩, ht, o, k, rfl⟩ := hbusy
      obtain ⟨i, hi⟩ := List.mem_iff_getElem?.1 ht
      obtain rfl : o = .connect := (connecting h _ ht).1
      exact ⟨i, call, .connect, k, hi, trivial⟩
    · exact absurd hboot (not_bootstrapped hadmins (by rw [untouched h]) now)
  · exact ⟨some_unblocked hconsistent hadmins htoken h, bootstrapped_iff hconsistent hadmins htoken h⟩

end Outcome

section Examples

/-- SHA-256, as far as the examples use it. -/
def exampleHash (_ : String) : String := "7dcb5781a535262bc358a90955c94788ff69f0b6e894bbb8677586ed4877f6fd"

def exampleToken : String := "a-fixed-bootstrap-token-used-by-every-worker-1234"

abbrev exampleSystem : System signature DatabaseError Unit Database Unit Empty :=
  system exampleHash ⟨some exampleToken, "admin"⟩

/-- The configured name is that of a machine. -/
def machineTables : Tables := ⟨[⟨0, "admin", .viewer, .integration, true⟩], []⟩

theorem machineTables_consistent : machineTables.Consistent := by
  constructor <;> decide

/-- The user of the configured name is not active, and the only row is another user's. -/
def dormantTables : Tables :=
  ⟨[⟨0, "admin", .operator, .operator, false⟩, ⟨1, "viewer-demo", .viewer, .operator, true⟩],
    [⟨1, "d1f0", none, none⟩]⟩

theorem dormantTables_consistent : dormantTables.Consistent := by
  constructor <;> decide

/-- One worker from its start to its end. -/
def aloneMoves : List (Move Unit Empty) := .spawn () :: List.replicate 7 (.run 0)

/-- Two workers have read before either of them writes; the second waits until the first has committed. -/
def racingMoves : List (Move Unit Empty) :=
  [.spawn (), .spawn ()] ++ List.replicate 4 (.run 0) ++ List.replicate 4 (.run 1) ++ List.replicate 3 (.run 0) ++
    List.replicate 3 (.run 1)

end Examples

/-- The commit is refused, the refusal is taken for a lost race, and there is no ADMIN. -/
theorem bootstrap_admin_machine : ¬∀ (hashToken : String → String) (token username : String) (tables : Tables)
    (c : App), tables.Consistent → (∀ o ∈ tables.operators, ¬o.Admin) →
    Steps (system hashToken ⟨some token, username⟩) Unblocked (start tables) c → c.threads ≠ [] → c.Quiescent →
    ∀ now, Bootstrapped hashToken token now c := by
  intro hclaim
  have hboot := hclaim exampleHash exampleToken "admin" machineTables
    ((start machineTables).replay exampleSystem aloneMoves) machineTables_consistent (by decide)
    (Allowed.steps .refl (by decide +kernel)) (by decide +kernel) (by decide +kernel) 0
  have hunchanged : ((start machineTables).replay exampleSystem aloneMoves).state.store.committed = machineTables := by
    decide +kernel
  exact not_bootstrapped (by decide) hunchanged 0 hboot

theorem bootstrap_admin_race :
    Bootstrapped exampleHash exampleToken 0 ((start dormantTables).replay exampleSystem racingMoves) := by
  refine ((bootstrap_admin dormantTables_consistent (by decide) (Allowed.steps .refl (by decide +kernel))).2.2
    (by decide +kernel) (by decide +kernel) 0).2 ⟨by decide +kernel, by decide, by decide, ?_⟩
  exact .inl ⟨rfl, by decide⟩

end SafeOps.Security
