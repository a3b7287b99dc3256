import SafeOps.Model.World

/-! What each statement may change: one inversion lemma for every table. -/

namespace SafeOps

/-- The columns that are written once, when the execution is started. -/
def Execution.opening (row : Execution) : Id × String × Value :=
  (row.agentId, row.objective, row.initialContext)

namespace State

variable {D : Type} (s : State D)

section Tables

variable (x : Id) (f : Execution → Execution)

@[simp] theorem modifyExecution_executions (y : Id) :
    (s.modifyExecution x f).executions y =
      if y = x then (s.executions x).map f else s.executions y := by
  simp only [modifyExecution, Function.update_apply]

@[simp] theorem modifyExecution_status (y : Id) :
    (s.modifyExecution x f).status y =
      if y = x then (s.executions x).map fun row => (f row).status else s.status y := by
  simp only [status, modifyExecution_executions]
  split <;> simp_all [Option.map_map, Function.comp_def]

variable (startedAt : Time) (t : Txn)

@[simp] theorem applyTxn_audit (y : Id) :
    (s.applyTxn startedAt t).audit y =
      if y = t.executionId then s.audit y ++ t.audit else s.audit y := by
  obtain ⟨e, a, tr, ap, st, r⟩ := t
  have base : ∀ tr ap st r, (writeResume e r (writeStep e st (writeApproval ap
      (writeToolRequest startedAt tr s)))).audit = s.audit := by
    intro tr ap st r
    rcases tr with _ | ⟨_ | _⟩ <;> rcases ap with _ | ⟨_ | _⟩ <;> cases st <;> cases r <;> rfl
  simp only [applyTxn, appendAudit, base, Function.update_apply]
  split <;> simp_all

@[simp] theorem applyTxn_executions (y : Id) :
    (s.applyTxn startedAt t).executions y =
      if t.resume = true ∧ y = t.executionId then
        (s.executions y).map fun row => { row with status := .running }
      else s.executions y := by
  obtain ⟨e, a, tr, ap, st, r⟩ := t
  have base : (writeStep e st (writeApproval ap (writeToolRequest startedAt tr s))).executions =
      s.executions := by
    rcases tr with _ | ⟨_ | _⟩ <;> rcases ap with _ | ⟨_ | _⟩ <;> cases st <;> rfl
  cases r
  · simp [applyTxn, appendAudit, writeResume, base]
  · simp only [applyTxn, appendAudit, writeResume, modifyExecution, base, Function.update_apply]
    split <;> simp_all

@[simp] theorem applyTxn_status (y : Id) :
    (s.applyTxn startedAt t).status y =
      if t.resume = true ∧ y = t.executionId then (s.status y).map fun _ => .running
      else s.status y := by
  simp only [status, applyTxn_executions]
  split <;> simp [Option.map_map, Function.comp_def]

/-- The agent an execution belongs to. -/
def owner (x : Id) : Option Id := (s.executions x).map (·.agentId)

/-- What an execution was started with. -/
def opening (x : Id) : Option (Id × String × Value) := (s.executions x).map (·.opening)

theorem owner_eq (x : Id) : s.owner x = (s.opening x).map (·.1) := by
  simp [owner, opening, Execution.opening, Function.comp_def]

theorem modifyExecution_opening {x : Id} {f : Execution → Execution}
    (hf : ∀ row, (f row).opening = row.opening) (y : Id) :
    (s.modifyExecution x f).opening y = s.opening y := by
  simp only [opening, modifyExecution_executions]
  split
  · subst y
    simp [Function.comp_def, hf]
  · rfl

@[simp] theorem applyTxn_opening (y : Id) : (s.applyTxn startedAt t).opening y = s.opening y := by
  simp only [opening, applyTxn_executions]
  split <;> simp [Execution.opening, Function.comp_def]

@[simp] theorem applyTxn_domain : (s.applyTxn startedAt t).domain = s.domain := by
  obtain ⟨e, a, tr, ap, st, r⟩ := t
  rcases tr with _ | ⟨_ | _⟩ <;> rcases ap with _ | ⟨_ | _⟩ <;> cases st <;> cases r <;> rfl

@[simp] theorem applyTxn_approvals :
    (s.applyTxn startedAt t).approvals = (writeApproval t.approval s).approvals := by
  obtain ⟨e, a, tr, ap, st, r⟩ := t
  rcases tr with _ | ⟨_ | _⟩ <;> rcases ap with _ | ⟨_ | _⟩ <;> cases st <;> cases r <;> rfl

@[simp] theorem applyTxn_toolRequests :
    (s.applyTxn startedAt t).toolRequests = (writeToolRequest startedAt t.toolRequest s).toolRequests := by
  obtain ⟨e, a, tr, ap, st, r⟩ := t
  rcases ap with _ | ⟨_ | _⟩ <;> cases st <;> cases r <;> rfl

@[simp] theorem applyTxn_steps :
    (s.applyTxn startedAt t).steps = (writeStep t.executionId t.step s).steps := by
  obtain ⟨e, a, tr, ap, st, r⟩ := t
  rcases tr with _ | ⟨_ | _⟩ <;> rcases ap with _ | ⟨_ | _⟩ <;> cases st <;> cases r <;> rfl

@[simp] theorem applyTxn_externalRequests :
    (s.applyTxn startedAt t).externalRequests = s.externalRequests := by
  obtain ⟨e, a, tr, ap, st, r⟩ := t
  rcases tr with _ | ⟨_ | _⟩ <;> rcases ap with _ | ⟨_ | _⟩ <;> cases st <;> cases r <;> rfl

@[simp] theorem applyTxn_nextId : (s.applyTxn startedAt t).nextId = s.nextId := by
  obtain ⟨e, a, tr, ap, st, r⟩ := t
  rcases tr with _ | ⟨_ | _⟩ <;> rcases ap with _ | ⟨_ | _⟩ <;> cases st <;> cases r <;> rfl

end Tables

section Steps

variable (x : Id)

/-- The step of an execution with the given number. -/
def step (n : Nat) : Option ExecutionStep := (s.steps x).find? fun row => row.sequence = n

variable {s x} {n : Nat} {row : ExecutionStep}

theorem step_sequence (h : s.step x n = some row) : row.sequence = n :=
  of_decide_eq_true (p := row.sequence = n) (List.find?_some (p := fun row : ExecutionStep => row.sequence = n) h)

theorem mem_of_step (h : s.step x n = some row) : row ∈ s.steps x := List.mem_of_find?_eq_some h

theorem step_eq_none : s.step x n = none ↔ n ∉ (s.steps x).map (·.sequence) := by
  simp only [step, List.find?_eq_none, decide_eq_true_eq, List.mem_map, not_exists, not_and]

theorem step_of_mem (hs : ((s.steps x).map (·.sequence)).Nodup) (h : row ∈ s.steps x) :
    s.step x row.sequence = some row := by
  obtain ⟨row', hrow'⟩ := Option.ne_none_iff_exists'.1 fun hnone =>
    step_eq_none.1 hnone (List.mem_map_of_mem h)
  rw [hrow', List.inj_on_of_nodup_map hs (mem_of_step hrow') h (step_sequence hrow')]

theorem modifyStep_step (seq : Nat) (u : StepUpdate) (y : Id) (n : Nat) :
    (s.modifyStep x seq u.apply).step y n =
      if y = x ∧ n = seq then (s.step y n).map u.apply else s.step y n := by
  by_cases hy : y = x
  · subst hy
    have keeps : (fun row : ExecutionStep => decide (row.sequence = n)) ∘
        (fun row => if row.sequence = seq then u.apply row else row) =
          fun row => decide (row.sequence = n) := by
      funext row
      simp only [Function.comp_apply]
      split <;> rfl
    simp only [step, modifyStep, Function.update_self, List.find?_map, keeps, true_and]
    rcases hrow : s.step y n with _ | row
    · simp [show (s.steps y).find? _ = none from hrow]
    · have hn := step_sequence hrow
      rw [show (s.steps y).find? _ = some row from hrow, Option.map_some, Option.map_some, hn]
      split <;> rfl
  · simp [step, modifyStep, hy]

theorem insertStep_step (hfree : row.sequence ∉ (s.steps x).map (·.sequence)) (y : Id) (n : Nat) :
    (s.insertStep x row).step y n = if y = x ∧ n = row.sequence then some row else s.step y n := by
  by_cases hy : y = x
  · subst hy
    have found (rows : List ExecutionStep) (hfree : row.sequence ∉ rows.map (·.sequence)) :
        (rows.orderedInsert (fun a b => a.sequence ≤ b.sequence) row).find? (fun row => row.sequence = n) =
          if n = row.sequence then some row else rows.find? fun row => row.sequence = n := by
      induction rows with
      | nil => by_cases hn : row.sequence = n <;> simp [hn, eq_comm]
      | cons first rows ih =>
        simp only [List.map_cons, List.mem_cons, not_or] at hfree
        rw [List.orderedInsert_cons]
        split
        · by_cases hn : row.sequence = n <;> simp_all [List.find?_cons, eq_comm]
        · by_cases hn : first.sequence = n
          · have : n ≠ row.sequence := fun h => hfree.1 (h.symm.trans hn.symm)
            simp [hn, this]
          · simp only [List.find?_cons, hn, decide_false, ih hfree.2]
    simp [step, insertStep, found _ hfree]
  · simp [step, insertStep, hy]

end Steps

/-- A chunk that is not answered `committed` left nothing behind. -/
theorem commit_of_ne_committed {s : State D} {startedAt : Time} {t : Txn}
    (h : (s.commit startedAt t).1 ≠ .committed) : (s.commit startedAt t).2 = s := by
  unfold commit at h ⊢
  split at h
  · simp_all
  · split at h <;> simp_all

theorem commitIf_of_ne_committed {s : State D} {startedAt : Time} {g : StatusGuard} {t : Txn}
    (h : (s.commitIf startedAt g t).1 ≠ .finished .committed) :
    (s.commitIf startedAt g t).2 = s := by
  unfold commitIf at h ⊢
  split at h
  · split at h
    · simp_all
    · split at h <;> simp_all
  · simp_all

end State

variable {W : World}

/-- The statement commits the transaction `t`, under the status guard `g` if there is one. -/
inductive Commits : (o : Op W.Tables) → o.Reply → Option StatusGuard → Txn → Prop
  | plain (attempt : Attempt) (t : Txn) :
      Commits (.write (.commit attempt t)) CommitOutcome.committed none t
  | guarded (attempt : Attempt) (g : StatusGuard) (t : Txn) :
      Commits (.write (.commitIf attempt g t)) (GuardedOutcome.finished .committed) (some g) t

/-- The transaction a statement has committed, and its guard. -/
def committed? : (o : Op W.Tables) → o.Reply → Option (Option StatusGuard × Txn)
  | .write (.commit _ t), CommitOutcome.committed => some (none, t)
  | .write (.commitIf _ g t), GuardedOutcome.finished .committed => some (some g, t)
  | _, _ => none

theorem commits_iff {o : Op W.Tables} {r : o.Reply} {g : Option StatusGuard} {t : Txn} :
    Commits o r g t ↔ committed? o r = some (g, t) := by
  constructor
  · rintro (_ | _) <;> rfl
  · intro h
    unfold committed? at h
    split at h
    · obtain ⟨rfl, rfl⟩ := Prod.mk.inj (Option.some.inj h)
      exact .plain _ _
    · obtain ⟨rfl, rfl⟩ := Prod.mk.inj (Option.some.inj h)
      exact .guarded _ _ _
    · cases h

theorem Commits.unique {o : Op W.Tables} {r : o.Reply} {g g' : Option StatusGuard} {t t' : Txn}
    (h : Commits o r g t) (h' : Commits o r g' t') : g = g' ∧ t = t' :=
  Prod.mk.inj (Option.some.inj ((commits_iff.1 h).symm.trans (commits_iff.1 h')))

namespace World

variable (s : State W.Domain)

/-- The state a guarded transaction starts from, its conditional update made. -/
def guarded (t : Txn) : Option StatusGuard → State W.Domain
  | none => s
  | some g => s.modifyExecution t.executionId g.apply

variable {s}

end World

/-- The statement `o`, answered with `r`, leaves the state `s` as it is: it reads, or its condition
fails. -/
inductive Idle (s : State W.Domain) : (o : Op W.Tables) → o.Reply → Prop
  | query (q : Query) : Idle s (.query q) (s.answer q)
  | note (n : Note) : Idle s (.note n) ()
  | violation (a : Attempt) (t : Txn) : s.Violates t →
      Idle s (.write (.commit a t)) CommitOutcome.violation
  | collision (a : Attempt) (t : Txn) : ¬s.Violates t → s.Collides t →
      Idle s (.write (.commit a t)) CommitOutcome.collision
  | guardLost (a : Attempt) (g : StatusGuard) (t : Txn) : s.status t.executionId ≠ some g.expected →
      Idle s (.write (.commitIf a g t)) GuardedOutcome.guardLost
  | guardedViolation (a : Attempt) (g : StatusGuard) (t : Txn) :
      s.status t.executionId = some g.expected → s.Violates t →
      Idle s (.write (.commitIf a g t)) (GuardedOutcome.finished .violation)
  | guardedCollision (a : Attempt) (g : StatusGuard) (t : Txn) :
      s.status t.executionId = some g.expected → ¬s.Violates t → s.Collides t →
      Idle s (.write (.commitIf a g t)) (GuardedOutcome.finished .collision)
  | claimStepping (x claimId : Id) (now ttl : Time) :
      (∀ row, s.executions x = some row → row.leaseFree now ttl = false) →
      Idle s (.write (.claimStepping x claimId now ttl)) false
  | cancel (x : Id) (now : Time) :
      ¬(s.status x = some .running ∨ s.status x = some .waitingApproval) →
      Idle s (.write (.cancel x now)) false
  | claimApproval (a : Id) (status : ApprovalStatus) (now : Time) (by' : String) :
      (∀ row, s.approvals a = some row → ¬(row.status = .pending ∧ now < row.expiresAt)) →
      Idle s (.write (.claimApproval a status now by')) false
  | expireApproval (a : Id) (now : Time) :
      (∀ row, s.approvals a = some row → row.status ≠ .pending) →
      Idle s (.write (.expireApproval a now)) false
  | insertStep (x : Id) (row : ExecutionStep) : row.sequence ∈ (s.steps x).map (·.sequence) →
      Idle s (.write (.insertStep x row)) false
  | insertExternalRequest (row existing : ExternalActionRequest) :
      s.externalRequests row.operatorId row.externalRequestId = some existing →
      Idle s (.write (.insertExternalRequest row)) false

/-- Everything a statement `o` answered with `r` may do to the state `s`. -/
inductive Effect (s : State W.Domain) : (o : Op W.Tables) → o.Reply → State W.Domain → Prop
  | idle {o : Op W.Tables} {r : o.Reply} : Idle s o r → Effect s o r s
  | tool (o : W.Tables.Op) (r : W.Tables.Reply o) (d : W.Domain) :
      Effect s (.tool o) r { s with domain := d }
  | freshId : Effect s (.write .freshId) s.nextId { s with nextId := s.nextId + 1 }
  | insertExecution (row : Execution) :
      Effect s (.write (.insertExecution row)) s.nextId
        { s with
          executions := Function.update s.executions s.nextId (some row)
          nextId := s.nextId + 1 }
  | commit {o : Op W.Tables} {r : o.Reply} {g : Option StatusGuard} {t : Txn} (startedAt : Time) :
      Commits o r g t → ¬s.Collides t → ¬s.Violates t →
      (∀ g', g = some g' → s.status t.executionId = some g'.expected) →
      Effect s o r ((World.guarded s t g).applyTxn startedAt t)
  | claimStepping (x claimId : Id) (now ttl : Time) (row : Execution) : s.executions x = some row →
      row.leaseFree now ttl = true →
      Effect s (.write (.claimStepping x claimId now ttl)) true (s.modifyExecution x fun row =>
        { row with stepping := true, steppingClaimId := some claimId, steppingClaimedAt := some now })
  | releaseStepping (x claimId : Id) :
      Effect s (.write (.releaseStepping x claimId)) () (s.releaseStepping x claimId)
  | cancel (x : Id) (now : Time) : s.status x = some .running ∨ s.status x = some .waitingApproval →
      Effect s (.write (.cancel x now)) true (s.modifyExecution x fun row =>
        { row with status := .cancelled, completedAt := some now })
  | claimApproval (a : Id) (status : ApprovalStatus) (now : Time) (by' : String)
      (row : ApprovalRequest) : s.approvals a = some row → row.status = .pending →
      now < row.expiresAt →
      Effect s (.write (.claimApproval a status now by')) true (s.modifyApproval a fun row =>
        { row with status := status, resolvedAt := some now, resolvedBy := some by' })
  | expireApproval (a : Id) (now : Time) (row : ApprovalRequest) : s.approvals a = some row →
      row.status = .pending →
      Effect s (.write (.expireApproval a now)) true (s.modifyApproval a fun row =>
        { row with status := .expired, resolvedAt := some now })
  | insertStep (x : Id) (row : ExecutionStep) : row.sequence ∉ (s.steps x).map (·.sequence) →
      Effect s (.write (.insertStep x row)) true (s.insertStep x row)
  | saveStep (x : Id) (u : StepUpdate) :
      Effect s (.write (.saveStep x u)) () (s.modifyStep x u.sequence u.apply)
  | insertExternalRequest (row : ExternalActionRequest) :
      s.externalRequests row.operatorId row.externalRequestId = none →
      Effect s (.write (.insertExternalRequest row)) true (s.insertExternalRequest row).2
  | updateExternalRequest (o : Id) (k : String) (u : ExternalActionUpdate) :
      Effect s (.write (.updateExternalRequest o k u)) () (s.modifyExternalRequest o k u.apply)

/-- The inversion rule: nothing else ever happens to the state. -/
theorem World.exec_effect (o : Op W.Tables) (s : State W.Domain) :
    Effect s o (W.exec o s).1 (W.exec o s).2 := by
  rcases o with q | w | n | o
  · exact .idle (.query q)
  · cases w with
    | freshId => exact .freshId
    | insertExecution row => exact .insertExecution row
    | commit a t =>
      simp only [exec, State.perform, State.commit]
      split
      · exact .idle (.violation a t ‹_›)
      · split
        · exact .idle (.collision a t ‹_› ‹_›)
        · exact .commit _ (.plain a t) ‹_› ‹_› nofun
    | commitIf a g t =>
      simp only [exec, State.perform, State.commitIf]
      split
      · split
        · exact .idle (.guardedViolation a g t ‹_› ‹_›)
        · split
          · exact .idle (.guardedCollision a g t ‹_› ‹_› ‹_›)
          · refine .commit _ (.guarded a g t) ‹_› ‹_› fun g' h => ?_
            rwa [← Option.some.inj h]
      · exact .idle (.guardLost a g t ‹_›)
    | claimStepping x c now ttl =>
      simp only [exec, State.perform, State.claimStepping]
      split
      · split
        · exact .claimStepping x c now ttl _ ‹_› ‹_›
        · exact .idle (.claimStepping x c now ttl (by simp_all))
      · exact .idle (.claimStepping x c now ttl (by simp_all))
    | releaseStepping x c => exact .releaseStepping x c
    | cancel x now =>
      simp only [exec, State.perform, State.cancel]
      split
      · exact .cancel x now ‹_›
      · exact .idle (.cancel x now ‹_›)
    | claimApproval a status now by' =>
      simp only [exec, State.perform, State.claimApproval]
      split
      · split
        · rename_i h
          exact .claimApproval a status now by' _ ‹_› h.1 h.2
        · exact .idle (.claimApproval a status now by' (by simp_all))
      · exact .idle (.claimApproval a status now by' (by simp_all))
    | expireApproval a now =>
      simp only [exec, State.perform, State.expireApproval]
      split
      · split
        · exact .expireApproval a now _ ‹_› ‹_›
        · exact .idle (.expireApproval a now (by simp_all))
      · exact .idle (.expireApproval a now (by simp_all))
    | insertStep x row =>
      simp only [exec, State.perform, State.addStep]
      split
      · exact .idle (.insertStep x row ‹_›)
      · exact .insertStep x row ‹_›
    | saveStep x u => exact .saveStep x u
    | insertExternalRequest row =>
      have effect := Effect.insertExternalRequest (s := s) row
      simp only [exec, State.perform, State.insertExternalRequest] at effect ⊢
      split
      · exact .idle (.insertExternalRequest row _ ‹_›)
      · simp_all
    | updateExternalRequest o k u => exact .updateExternalRequest o k u
  · exact .idle (.note n)
  · exact .tool o _ _

/-- A chunk that is answered `committed` has passed its checks and taken effect. -/
theorem Effect.of_commits {s s' : State W.Domain} {o : Op W.Tables} {r : o.Reply} (h : Effect s o r s')
    {g : Option StatusGuard} {t : Txn} (hc : Commits o r g t) :
    ¬s.Collides t ∧ ¬s.Violates t ∧ (∀ g', g = some g' → s.status t.executionId = some g'.expected) ∧
      ∃ startedAt, s' = (World.guarded s t g).applyTxn startedAt t := by
  cases h with
  | idle h => cases h <;> cases hc
  | commit startedAt hc' hcol hv hg =>
    obtain ⟨rfl, rfl⟩ := hc.unique hc'
    exact ⟨hcol, hv, hg, startedAt, rfl⟩
  | _ => cases hc

/-- A chunk that is not answered `committed` has left nothing behind. -/
theorem Effect.of_refused {s s' : State W.Domain} {a : Attempt} {t : Txn} {outcome : CommitOutcome}
    (h : Effect (W := W) s (.write (.commit a t)) outcome s') (ho : outcome ≠ .committed) :
    (outcome = .violation → s.Violates t) ∧ s' = s := by
  cases h with
  | idle h =>
    cases h with
    | violation _ _ hv => exact ⟨fun _ => hv, rfl⟩
    | collision => exact ⟨nofun, rfl⟩
  | commit _ hc =>
    cases hc
    exact absurd rfl ho

/-- A query is answered from the state, which it leaves alone. -/
theorem Effect.of_query {s s' : State W.Domain} {q : Query} {r : q.Reply}
    (h : Effect (W := W) s (.query q) r s') : r = s.answer q ∧ s' = s := by
  cases h with
  | idle h =>
    cases h
    exact ⟨rfl, rfl⟩
  | commit _ hc => cases hc

/-- The ways in which a statement answered `r` in `s` sets the status of execution `x`. -/
inductive StatusChange (s : State W.Domain) (x : Id) :
    (o : Op W.Tables) → o.Reply → ExecutionStatus → Prop
  | inserted (row : Execution) : x = s.nextId →
      StatusChange s x (.write (.insertExecution row)) s.nextId row.status
  | cancelled (now : Time) : s.status x = some .running ∨ s.status x = some .waitingApproval →
      StatusChange s x (.write (.cancel x now)) true .cancelled
  | moved {o : Op W.Tables} {r : o.Reply} {g : StatusGuard} {t : Txn} : Commits o r (some g) t →
      t.resume = false → x = t.executionId → s.status x = some g.expected →
      StatusChange s x o r g.new
  | resumed {o : Op W.Tables} {r : o.Reply} {g : Option StatusGuard} {t : Txn} : Commits o r g t →
      t.resume = true → x = t.executionId → s.status x ≠ none → StatusChange s x o r .running

/-- The ways in which a statement answered `r` in `s` sets the row of approval `a`. -/
inductive ApprovalChange (s : State W.Domain) (a : Id) :
    (o : Op W.Tables) → o.Reply → ApprovalRequest → Prop
  | inserted {o : Op W.Tables} {r : o.Reply} {g : Option StatusGuard} {t : Txn} (row : ApprovalRequest) :
      Commits o r g t → t.approval = some (.insert a row) → s.approvals a = none →
      ApprovalChange s a o r row
  | claimed (status : ApprovalStatus) (now : Time) (by' : String) (row : ApprovalRequest) :
      s.approvals a = some row → row.status = .pending → now < row.expiresAt →
      ApprovalChange s a (.write (.claimApproval a status now by')) true
        { row with status := status, resolvedAt := some now, resolvedBy := some by' }
  | expired (now : Time) (row : ApprovalRequest) : s.approvals a = some row → row.status = .pending →
      ApprovalChange s a (.write (.expireApproval a now)) true
        { row with status := .expired, resolvedAt := some now }
  | executed {o : Op W.Tables} {r : o.Reply} {g : Option StatusGuard} {t : Txn} (now : Time)
      (row : ApprovalRequest) : Commits o r g t → t.approval = some (.executed a now) →
      s.approvals a = some row →
      ApprovalChange s a o r { row with status := .executed, executedAt := some now }

/-- The ways in which a statement answered `r` in `s` sets step `n` of execution `x`. -/
inductive StepChange (s : State W.Domain) (x : Id) (n : Nat) :
    (o : Op W.Tables) → o.Reply → ExecutionStep → Prop
  | inserted (row : ExecutionStep) : row.sequence = n → s.step x n = none →
      StepChange s x n (.write (.insertStep x row)) true row
  | saved (u : StepUpdate) (row : ExecutionStep) : u.sequence = n → s.step x n = some row →
      StepChange s x n (.write (.saveStep x u)) () (u.apply row)
  | written {o : Op W.Tables} {r : o.Reply} {g : Option StatusGuard} {t : Txn} (u : StepUpdate)
      (row : ExecutionStep) : Commits o r g t → t.step = some u → t.executionId = x → u.sequence = n →
      s.step x n = some row → StepChange s x n o r (u.apply row)

section Tables

variable {s s' : State W.Domain} {o : Op W.Tables} {r : o.Reply}

/-- Only a committing chunk writes to the audit log. -/
theorem Effect.audit (h : Effect s o r s') (x : Id) :
    s'.audit x = s.audit x ∨ ∃ g t, Commits o r g t ∧ ¬s.Collides t ∧ x = t.executionId ∧
      s'.audit x = s.audit x ++ t.audit := by
  cases h with
  | @commit o r g t startedAt hc hcol hv hg =>
    have base : (World.guarded s t g).audit = s.audit := by cases g <;> rfl
    rw [State.applyTxn_audit, base]
    split
    · exact .inr ⟨g, t, hc, hcol, ‹_›, rfl⟩
    · exact .inl rfl
  | insertExternalRequest row =>
    left
    unfold State.insertExternalRequest
    split <;> rfl
  | idle | tool | freshId | insertExecution | claimStepping | releaseStepping | cancel
  | claimApproval | expireApproval | insertStep | saveStep | updateExternalRequest => exact .inl rfl

theorem guarded_status (t : Txn) (g : Option StatusGuard) (x : Id)
    (hg : ∀ g', g = some g' → s.status t.executionId = some g'.expected) :
    (World.guarded s t g).status x =
      if x = t.executionId then (g.map (·.new)).or (s.status x) else s.status x := by
  cases g with
  | none => simp [World.guarded]
  | some g =>
    have he := hg g rfl
    obtain ⟨row, hrow, _⟩ := Option.map_eq_some_iff.1 he
    simp [World.guarded, StatusGuard.apply, hrow]

/-- A status is kept, or set in one of the listed ways. -/
theorem Effect.status (h : Effect s o r s') (x : Id) :
    s'.status x = s.status x ∨ ∃ new, StatusChange s x o r new ∧ s'.status x = some new := by
  cases h with
  | idle | tool | freshId | expireApproval | claimApproval | insertStep | saveStep
  | updateExternalRequest => exact .inl rfl
  | insertExternalRequest row =>
    left
    unfold State.insertExternalRequest
    split <;> rfl
  | insertExecution row =>
    by_cases hx : x = s.nextId
    · exact .inr ⟨row.status, .inserted row hx, by simp [State.status, hx]⟩
    · exact .inl (by simp [State.status, Function.update_of_ne hx])
  | @commit o r g t startedAt hc hcol hv hg =>
    have hstatus := State.applyTxn_status (World.guarded s t g) startedAt t x
    rw [guarded_status t g x hg] at hstatus
    by_cases hx : x = t.executionId
    · rw [if_pos hx] at hstatus
      cases hr : t.resume with
      | true =>
        rw [if_pos ⟨hr, hx⟩] at hstatus
        by_cases hs : s.status x = none
        · cases g with
          | none => exact .inl (by simp [hstatus, hs])
          | some g => exact absurd (hx ▸ hg g rfl) (by simp [hs])
        · refine .inr ⟨.running, .resumed hc hr hx hs, ?_⟩
          obtain ⟨old, ho⟩ := Option.ne_none_iff_exists'.1 hs
          rw [hstatus, ho]
          cases g <;> rfl
      | false =>
        rw [if_neg (by simp [hr])] at hstatus
        cases g with
        | none => exact .inl hstatus
        | some g => exact .inr ⟨g.new, .moved hc hr hx (hx ▸ hg g rfl), hstatus⟩
    · rw [if_neg (fun h => hx h.2), if_neg hx] at hstatus
      exact .inl hstatus
  | claimStepping y c now ttl row hrow =>
    left
    simp only [State.modifyExecution_status]
    split <;> simp_all [State.status]
  | releaseStepping y c =>
    left
    simp only [State.releaseStepping, State.modifyExecution_status]
    split
    · rename_i hx
      subst hx
      refine congrArg (fun f => Option.map f (s.executions x)) (funext fun row => ?_)
      split <;> rfl
    · rfl
  | cancel y now hy =>
    by_cases hx : x = y
    · subst hx
      refine .inr ⟨.cancelled, .cancelled now hy, ?_⟩
      rcases hy with hy | hy <;> obtain ⟨row, hrow, _⟩ := Option.map_eq_some_iff.1 hy <;> simp [hrow]
    · exact .inl (by simp [hx])

/-- The row of an approval is kept, or set in one of the listed ways. -/
theorem Effect.approvals (h : Effect s o r s') (a : Id) :
    s'.approvals a = s.approvals a ∨ ∃ row, ApprovalChange s a o r row ∧ s'.approvals a = some row := by
  cases h with
  | idle | tool | freshId | insertExecution | claimStepping | releaseStepping | cancel | insertStep
  | saveStep | updateExternalRequest => exact .inl rfl
  | insertExternalRequest row =>
    left
    unfold State.insertExternalRequest
    split <;> rfl
  | @commit o r g t startedAt hc hcol hv hg =>
    have base : (World.guarded s t g).approvals = s.approvals := by cases g <;> rfl
    rw [State.applyTxn_approvals]
    rcases ha : t.approval with _ | ⟨b, row⟩ | ⟨b, now⟩
    · exact .inl (congrFun base a)
    · by_cases hab : a = b
      · subst hab
        have free : s.approvals a = none := by
          by_contra hne
          exact hv (.inr ⟨a, row, ha, hne⟩)
        exact .inr ⟨row, .inserted row hc ha free, by simp [State.writeApproval]⟩
      · exact .inl (by simp [State.writeApproval, base, Function.update_of_ne hab])
    · by_cases hab : a = b
      · subst hab
        rcases hs : s.approvals a with _ | row
        · exact .inl (by simp [State.writeApproval, State.modifyApproval, base, hs])
        · exact .inr ⟨_, .executed now row hc ha hs,
            by simp [State.writeApproval, State.modifyApproval, base, hs]⟩
      · exact .inl (by simp [State.writeApproval, State.modifyApproval, base, Function.update_of_ne hab])
  | claimApproval b status now by' row hrow hp hnow =>
    by_cases hab : a = b
    · subst hab
      exact .inr ⟨_, .claimed status now by' row hrow hp hnow, by simp [State.modifyApproval, hrow]⟩
    · exact .inl (by simp [State.modifyApproval, Function.update_of_ne hab])
  | expireApproval b now row hrow hp =>
    by_cases hab : a = b
    · subst hab
      exact .inr ⟨_, .expired now row hrow hp, by simp [State.modifyApproval, hrow]⟩
    · exact .inl (by simp [State.modifyApproval, Function.update_of_ne hab])

/-- The row of a tool request is kept, or inserted or updated by a chunk that commits. -/
theorem Effect.toolRequest (h : Effect s o r s') (q : Id) : s'.toolRequests q = s.toolRequests q ∨
    ∃ g t, Commits o r g t ∧ ((∃ row startedAt, t.toolRequest = some (.insert q row) ∧
        s.toolRequests q = none ∧ s'.toolRequests q = some { row with requestedAt := startedAt }) ∨
      ∃ u, t.toolRequest = some (.update q u) ∧ s'.toolRequests q = (s.toolRequests q).map u.apply) := by
  cases h with
  | idle | tool | freshId | insertExecution | claimStepping | releaseStepping | cancel | claimApproval
  | expireApproval | insertStep | saveStep | updateExternalRequest => exact .inl rfl
  | insertExternalRequest row =>
    left
    unfold State.insertExternalRequest
    split <;> rfl
  | @commit o r g t startedAt hc hcol hv hg =>
    have base : (World.guarded s t g).toolRequests = s.toolRequests := by cases g <;> rfl
    rw [State.applyTxn_toolRequests]
    rcases ht : t.toolRequest with _ | ⟨p, row⟩ | ⟨p, u⟩
    · exact .inl (congrFun base q)
    · by_cases hqp : q = p
      · subst hqp
        have free : s.toolRequests q = none := by
          by_contra hne
          exact hv (.inl ⟨q, row, ht, hne⟩)
        exact .inr ⟨g, t, hc, .inl ⟨row, startedAt, ht, free, by simp [State.writeToolRequest]⟩⟩
      · exact .inl (by simp [State.writeToolRequest, base, Function.update_of_ne hqp])
    · by_cases hqp : q = p
      · subst hqp
        refine .inr ⟨g, t, hc, .inr ⟨u, ht, ?_⟩⟩
        simp [State.writeToolRequest, State.modifyToolRequest, base]
      · exact .inl (by simp [State.writeToolRequest, State.modifyToolRequest, base, Function.update_of_ne hqp])

theorem Effect.step_of_commits (h : Effect s o r s') {g : Option StatusGuard} {t : Txn} (hc : Commits o r g t)
    (x : Id) (n : Nat) : s'.step x n = (State.writeStep t.executionId t.step s).step x n := by
  obtain ⟨_, _, _, startedAt, rfl⟩ := h.of_commits hc
  have base : (World.guarded s t g).steps = s.steps := by cases g <;> rfl
  simp only [State.step, State.applyTxn_steps]
  cases t.step <;> simp [State.writeStep, State.modifyStep, base]

/-- The row of a step is kept, or set in one of the listed ways. -/
theorem Effect.step (h : Effect s o r s') (x : Id) (n : Nat) :
    s'.step x n = s.step x n ∨ ∃ row, StepChange s x n o r row ∧ s'.step x n = some row := by
  cases h with
  | idle | tool | freshId | insertExecution | claimStepping | releaseStepping | cancel | claimApproval
  | expireApproval | updateExternalRequest => exact .inl rfl
  | insertExternalRequest row =>
    left
    unfold State.insertExternalRequest
    split <;> rfl
  | insertStep y row hfree =>
    rw [State.insertStep_step hfree]
    split
    · rename_i hx
      obtain ⟨rfl, rfl⟩ := hx
      exact .inr ⟨row, .inserted row rfl (State.step_eq_none.2 hfree), rfl⟩
    · exact .inl rfl
  | saveStep y u =>
    rw [State.modifyStep_step]
    split
    · rename_i hx
      obtain ⟨rfl, rfl⟩ := hx
      rcases hrow : s.step x u.sequence with _ | row
      · exact .inl rfl
      · exact .inr ⟨_, .saved u row rfl hrow, rfl⟩
    · exact .inl rfl
  | @commit o r g t startedAt hc hcol hv hg =>
    rw [(Effect.commit startedAt hc hcol hv hg).step_of_commits hc]
    rcases hu : t.step with _ | u
    · exact .inl rfl
    · rw [State.writeStep, State.modifyStep_step]
      split
      · rename_i hx
        obtain ⟨rfl, rfl⟩ := hx
        rcases hrow : s.step t.executionId u.sequence with _ | row
        · exact .inl rfl
        · exact .inr ⟨_, .written u row hc hu rfl rfl hrow, rfl⟩
      · exact .inl rfl

/-- The numbers of the steps are kept, but for a new one. -/
theorem Effect.sequences (h : Effect s o r s') (x : Id) :
    (s'.steps x).map (·.sequence) = (s.steps x).map (·.sequence) ∨ ∃ row : ExecutionStep,
      row.sequence ∉ (s.steps x).map (·.sequence) ∧
        ((s'.steps x).map (·.sequence)).Perm (row.sequence :: (s.steps x).map (·.sequence)) := by
  have modified (y : Id) (u : StepUpdate) (s : State W.Domain) :
      ((s.modifyStep y u.sequence u.apply).steps x).map (·.sequence) = (s.steps x).map (·.sequence) := by
    by_cases hx : x = y
    · subst hx
      simp only [State.modifyStep, Function.update_self, List.map_map]
      refine List.map_congr_left fun row _ => ?_
      simp only [Function.comp_apply]
      split <;> rfl
    · simp [State.modifyStep, hx]
  cases h with
  | idle | tool | freshId | insertExecution | claimStepping | releaseStepping | cancel | claimApproval
  | expireApproval | updateExternalRequest => exact .inl rfl
  | insertExternalRequest row =>
    left
    unfold State.insertExternalRequest
    split <;> rfl
  | insertStep y row hfree =>
    by_cases hx : x = y
    · subst hx
      refine .inr ⟨row, hfree, ?_⟩
      simp only [State.insertStep, Function.update_self]
      exact (List.perm_orderedInsert _ row (s.steps x)).map _
    · exact .inl (by simp [State.insertStep, hx])
  | saveStep y u => exact .inl (modified y u s)
  | @commit o r g t startedAt hc hcol hv hg =>
    have base : (World.guarded s t g).steps = s.steps := by cases g <;> rfl
    left
    rw [State.applyTxn_steps]
    cases t.step with
    | none => rw [State.writeStep, base]
    | some u => rw [State.writeStep, modified, base]

/-- No tool request is deleted, and a new one takes a key that was free. -/
theorem Effect.toolRequests (h : Effect s o r s') (q : Id) :
    (s'.toolRequests q = none ↔ s.toolRequests q = none) ∨ ∃ g t row, Commits o r g t ∧
      t.toolRequest = some (.insert q row) ∧ s.toolRequests q = none ∧ s'.toolRequests q ≠ none := by
  rcases h.toolRequest q with he | ⟨g, t, hc, ⟨row, startedAt, ht, hfree, he⟩ | ⟨u, _, he⟩⟩
  · exact .inl (by rw [he])
  · exact .inr ⟨g, t, row, hc, ht, hfree, by simp [he]⟩
  · exact .inl (by simp [he])

/-- Executions are inserted under the next free key and never deleted. -/
theorem Effect.executions (h : Effect s o r s') (x : Id) :
    (s'.executions x = none ↔ s.executions x = none) ∨ ∃ row, o = .write (.insertExecution row) ∧
      x = s.nextId ∧ s'.executions x = some row ∧ s'.nextId = s.nextId + 1 := by
  cases h with
  | idle | tool | freshId | expireApproval | claimApproval | insertStep | saveStep
  | updateExternalRequest => exact .inl .rfl
  | insertExternalRequest row =>
    left
    unfold State.insertExternalRequest
    split <;> rfl
  | insertExecution row =>
    by_cases hx : x = s.nextId
    · exact .inr ⟨row, rfl, hx, by simp [hx], rfl⟩
    · exact .inl (by simp [Function.update_of_ne hx])
  | @commit o r g t startedAt hc hcol hv hg =>
    left
    cases g <;> simp only [World.guarded, State.applyTxn_executions, State.modifyExecution_executions] <;>
      split <;> (try split) <;> simp_all
  | claimStepping | releaseStepping | cancel =>
    left
    simp only [State.releaseStepping, State.modifyExecution_executions]
    split <;> simp_all

/-- What an execution was started with stays as it is. -/
theorem Effect.opening (h : Effect s o r s') (x : Id) : s'.opening x = s.opening x ∨
    ∃ row, o = .write (.insertExecution row) ∧ x = s.nextId ∧ s'.executions x = some row := by
  cases h with
  | idle | tool | freshId | expireApproval | claimApproval | insertStep | saveStep
  | updateExternalRequest => exact .inl rfl
  | insertExternalRequest row =>
    left
    unfold State.insertExternalRequest
    split <;> rfl
  | insertExecution row =>
    by_cases hx : x = s.nextId
    · exact .inr ⟨row, rfl, hx, by simp [hx]⟩
    · exact .inl (by simp [State.opening, Function.update_of_ne hx])
  | @commit o r g t startedAt hc hcol hv hg =>
    left
    have guarded : (World.guarded s t g).opening x = s.opening x := by
      cases g with
      | none => rfl
      | some g => exact s.modifyExecution_opening (by intro row; rfl) x
    rw [State.applyTxn_opening, guarded]
  | claimStepping | cancel => exact .inl (s.modifyExecution_opening (by intro row; rfl) x)
  | releaseStepping y c =>
    exact .inl (s.modifyExecution_opening (by intro row; split <;> rfl) x)

/-- Only the tools write their own tables. -/
theorem Effect.domain (h : Effect s o r s') (ho : ∀ o', o ≠ .tool o') : s'.domain = s.domain := by
  cases h with
  | tool o => exact absurd rfl (ho o)
  | insertExternalRequest row =>
    unfold State.insertExternalRequest
    split <;> rfl
  | @commit o r g t startedAt hc hcol hv hg =>
    rw [State.applyTxn_domain]
    cases g <;> rfl
  | _ => rfl

/-- An execution keeps its agent. -/
theorem Effect.owner (h : Effect s o r s') (x : Id) : s'.owner x = s.owner x ∨
    ∃ row, o = .write (.insertExecution row) ∧ x = s.nextId ∧ s'.executions x = some row := by
  refine (h.opening x).imp_left fun he => ?_
  rw [State.owner_eq, State.owner_eq, he]

/-- The row of an external request is kept, inserted where there was none, or updated. -/
theorem Effect.externalRequests (h : Effect s o r s') (operatorId : Id) (key : String) :
    s'.externalRequests operatorId key = s.externalRequests operatorId key ∨
      (∃ row, o = .write (.insertExternalRequest row) ∧ row.operatorId = operatorId ∧
        row.externalRequestId = key ∧ s.externalRequests operatorId key = none ∧
        s'.externalRequests operatorId key = some row) ∨
      ∃ u, o = .write (.updateExternalRequest operatorId key u) ∧
        s'.externalRequests operatorId key = (s.externalRequests operatorId key).map u.apply := by
  cases h with
  | idle | tool | freshId | insertExecution | claimStepping | releaseStepping | cancel | claimApproval
  | expireApproval | insertStep | saveStep => exact .inl rfl
  | @commit o r g t startedAt hc hcol hv hg =>
    have base : (World.guarded s t g).externalRequests = s.externalRequests := by cases g <;> rfl
    exact .inl (by rw [State.applyTxn_externalRequests, base])
  | insertExternalRequest row hfree =>
    have inserted : (s.insertExternalRequest row).2.externalRequests =
        Function.update s.externalRequests row.operatorId
          (Function.update (s.externalRequests row.operatorId) row.externalRequestId (some row)) := by
      simp [State.insertExternalRequest, hfree]
    rw [inserted]
    by_cases ho : operatorId = row.operatorId
    · subst ho
      by_cases hk : key = row.externalRequestId
      · subst hk
        exact .inr (.inl ⟨row, rfl, rfl, rfl, hfree, by simp⟩)
      · exact .inl (by simp [Function.update_of_ne hk])
    · exact .inl (by simp [Function.update_of_ne ho])
  | updateExternalRequest operatorId' key' u =>
    by_cases ho : operatorId = operatorId'
    · subst ho
      by_cases hk : key = key'
      · subst hk
        exact .inr (.inr ⟨u, rfl, by simp [State.modifyExternalRequest]⟩)
      · exact .inl (by simp [State.modifyExternalRequest, Function.update_of_ne hk])
    · exact .inl (by simp [State.modifyExternalRequest, Function.update_of_ne ho])

theorem Effect.nextId_le (h : Effect s o r s') : s.nextId ≤ s'.nextId := by
  cases h with
  | freshId | insertExecution => exact Nat.le_succ _
  | @commit o r g t startedAt hc hcol hv hg =>
    rw [State.applyTxn_nextId]
    cases g <;> exact Nat.le_refl _
  | insertExternalRequest row =>
    unfold State.insertExternalRequest
    split <;> exact Nat.le_refl _
  | _ => exact Nat.le_refl _

end Tables
end SafeOps
