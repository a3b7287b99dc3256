import SafeOps.Guarantees.TerminalStatus
import SafeOps.Observers.Leases

/-! The stepping lease under any interleaving of its claims and releases. -/

namespace SafeOps
open Concurrent Program

/-- Callers of `_claim_stepping`, of `_release_stepping` with any claim id, and of the application,
whose executions the leases are on. -/
inductive LeaseCall
  | claim (executionId : Id)
  | release (executionId claimId : Id)
  | application (call : Call)

variable {W : World}

def LeaseCall.code : LeaseCall → Db W Unit
  | claim x => do let _ ← AgentRuntime.claimStepping x
  | release x claimId => AgentRuntime.releaseStepping x claimId
  | application call => do let _ ← call.code

namespace World

def leases (W : World) : System W.statements Failure Unit (State W.Domain) LeaseCall Change where
  exec := W.exec
  code := LeaseCall.code
  disturb := fun change s => change.apply s

end World

/-- A configuration of the callers. -/
abbrev Leases (W : World) := Config W.statements Failure Unit (State W.Domain) LeaseCall

theorem LeaseCall.code_issued (call : LeaseCall) : (call.code : Db W Unit).Uses Issued := by
  cases call with
  | claim x =>
    refine .bind (.bind ((uses_call _).2 trivial) fun _ => .bind ((uses_call _).2 trivial) fun _ =>
      .bind ((uses_call _).2 trivial) fun _ => .bind ((uses_call _).2 trivial) fun execution => ?_)
        fun _ => trivial
    cases execution <;> trivial
  | release x claimId => exact (uses_call _).2 trivial
  | application call => exact call.code_issued.bind fun _ => trivial

theorem LeaseCall.code_timely (call : LeaseCall) : (call.code : Db W Unit).Obeys timely
    (fun _ _ => True) (fun _ _ => True) [] := by
  cases call with
  | claim x =>
    refine .bind (R := fun _ _ => True) (Y := fun _ _ => True) ?_ (fun _ _ h => h) fun _ _ _ => trivial
    exact AgentRuntime.claimStepping_timely x []
  | release x claimId => exact ⟨trivial, fun _ => trivial⟩
  | application call =>
    exact .bind (R := fun _ _ => True) (Y := fun _ _ => True) call.code_timely (fun _ _ h => h)
      fun _ _ _ => trivial

/-- What the clock has shown in a history. -/
def readings (history : List (Statement W)) : List Time :=
  history.filterMap fun e => clockReading e.op e.reply

/-- What has happened to the lease of `x` in a history. -/
def leaseEvents (x : Id) (history : List (Statement W)) : List (Lease.Event Id) :=
  history.filterMap fun e => leaseEvent x e.op e.reply

theorem readings_of_timely {i : Nat} {now : Time} {history : List (Statement W)}
    (h : now ∈ timely.after [] i history) : now ∈ readings history := by
  induction history with
  | nil => exact absurd h (by simp)
  | cons e history ih =>
    rw [readings, List.mem_filterMap]
    by_cases hi : e.thread = i
    · subst hi
      rw [Monitor.after_self] at h
      rcases List.mem_append.1 h with hr | hr
      · exact ⟨e, by simp, by simpa using hr⟩
      · obtain ⟨e', he', hr'⟩ := List.mem_filterMap.1 (ih hr)
        exact ⟨e', by simp [he'], hr'⟩
    · rw [Monitor.after_other hi] at h
      obtain ⟨e', he', hr'⟩ := List.mem_filterMap.1 (ih h)
      exact ⟨e', by simp [he'], hr'⟩

/-- The state in which the lease columns can be read as a lease. -/
def State.LeaseSound (s : State W.Domain) : Prop := s.LeasesAgree ∧ s.Allocated

section Runs

variable {ok : Leases W → Statement W → Prop} {s : State W.Domain} {c d : Leases W}

/-- What a waiting statement of a caller may be. -/
theorem leases_statement (h : Steps W.leases ok (Config.start s) c) {i : Nat} {call : LeaseCall}
    {o : Op W.Tables} {k : o.Reply → Db W Unit} (hw : c.threads[i]? = some ⟨call, .request o k⟩) :
    (∀ row, o = .write (.insertExecution row) → NewExecution row) ∧
      ∀ x claimId now ttl, o = .write (.claimStepping x claimId now ttl) →
        now ∈ readings c.history ∧ ttl = W.leaseTtl := by
  have issued : Issued o := (h.confined (K := fun _ => Issued) LeaseCall.code_issued
    (by simp [Config.start]) _ (List.mem_of_getElem? hw)).1
  have lawful := (h.monitored (Config.monitored_start s) LeaseCall.code_timely).allowed hw
  refine ⟨fun row ho => ?_, fun x claimId now ttl ho => ?_⟩
  · subst ho
    exact issued
  · subst ho
    exact ⟨readings_of_timely lawful.1, lawful.2⟩

theorem leases_sound (hs : s.Fresh) (h : Steps W.leases ok (Config.start s) c) :
    c.state.LeaseSound := by
  refine h.invariant (I := fun c => c.state.LeaseSound) ?_ (fun _ _ h => h) ?_ ?_
  · exact ⟨fun x row hrow => by simp [Config.start, hs.executions x] at hrow,
      fun x _ => hs.executions x⟩
  · intro d change hd
    refine ⟨fun x row hrow => hd.1 x row ?_, fun x (hx : (change.apply d.state).nextId ≤ x) => ?_⟩
    · rwa [← change.apply_executions d.state]
    · rw [change.apply_nextId] at hx
      exact (congrFun (change.apply_executions d.state) x).trans (hd.2 x hx)
  · intro d i call o k hsteps hw _ hd
    have heff := W.exec_effect o d.state
    refine ⟨heff.leasesAgree hd.1 (leases_statement hsteps hw).1, fun x hx => ?_⟩
    rcases heff.executions x with he | ⟨_, _, rfl, _, hn⟩
    · exact he.2 (hd.2 x (Nat.le_trans heff.nextId_le hx))
    · exact absurd (hn ▸ hx) (Nat.not_succ_le_self _)

/-- Every answer moves every lease as a lease, or leaves it alone. -/
theorem leases_moves (hs : s.Fresh) (h : Steps W.leases ok (Config.start s) c) {i : Nat}
    {call : LeaseCall} {o : Op W.Tables} {k : o.Reply → Db W Unit}
    (hw : c.threads[i]? = some ⟨call, .request o k⟩) (x : Id) :
    match leaseEvent x o (W.exec o c.state).1 with
    | none => (W.exec o c.state).2.lease x = c.state.lease x
    | some e => Lease.Moves W.leaseTtl (c.state.lease x) e ((W.exec o c.state).2.lease x) :=
  (W.exec_effect o c.state).lease (leases_sound hs h).1 (leases_sound hs h).2 (leases_statement h hw).1
    fun claimId now ttl ho => ((leases_statement h hw).2 x claimId now ttl ho).2

/-- Thread `i` is about to claim the lease of `x` with the reading `now`, and will succeed. -/
def Leases.Claims (c : Leases W) (i : Nat) (x claimId : Id) (now : Time) : Prop :=
  ∃ call ttl k, c.threads[i]? = some ⟨call, .request (.write (.claimStepping x claimId now ttl)) k⟩ ∧
    (c.state.claimStepping x claimId now ttl).1 = true

/-- The statement is a release by the current holder of the lease of `x`. -/
def effectiveRelease (x : Id) (c : Leases W) (e : Statement W) : Bool :=
  match e.op with
  | .write (.releaseStepping y claimId) =>
    y = x && (c.state.executions x).any (·.steppingClaimId = some claimId)
  | _ => false

/-- The claims of `x` that have succeeded and not been released since, with the times recorded. -/
def Leases.holders (c : Leases W) (x : Id) : List (Id × Time) :=
  Lease.outstanding (leaseEvents x c.history)

/-- The clock has not gone back, and nobody holds the lease of `x` beyond its time to live. -/
def Punctual (x : Id) (c : Leases W) (_ : Statement W) : Prop :=
  (∀ now ∈ readings c.history, now ≤ c.state.now) ∧
    ∀ holder ∈ c.holders x, c.state.now ≤ holder.2 + W.leaseTtl

instance (x : Id) (c : Leases W) (e : Statement W) : Decidable (Punctual x c e) :=
  inferInstanceAs (Decidable (_ ∧ _))

theorem frees_iff {x : Id} (hs : c.state.LeaseSound) {e : Statement W} {ev : Lease.Event Id}
    (hev : leaseEvent x e.op e.reply = some ev) :
    ev.Frees (c.state.lease x) ↔ effectiveRelease x c e = true := by
  obtain ⟨i, o, r⟩ := e
  rcases o with _ | w | _ | _
  · cases hev
  · cases w with
    | claimStepping y claimId now ttl =>
      simp only [leaseEvent] at hev
      split at hev
      · obtain rfl := Option.some.inj hev
        simp [Lease.Event.Frees, effectiveRelease]
      · cases hev
    | releaseStepping y claimId =>
      simp only [leaseEvent] at hev
      split at hev
      · rename_i hy
        obtain rfl := Option.some.inj hev
        simp only [Lease.Event.Frees, effectiveRelease, hy, State.lease, decide_true, Bool.true_and]
        cases hrow : c.state.executions x with
        | none => simp
        | some row =>
          rw [Option.bind_some, (hs.1 x row hrow).key_iff]
          simp
      · cases hev
    | _ => cases hev
  · cases hev
  · cases hev

theorem claim_of_leaseEvent {x claimId : Id} {now : Time} {o : Op W.Tables} {r : o.Reply}
    (h : leaseEvent x o r = some (.taken claimId now)) :
    ∃ ttl, o = .write (.claimStepping x claimId now ttl) := by
  rcases o with _ | w | _ | _
  · cases h
  · cases w with
    | claimStepping y c now' ttl =>
      simp only [leaseEvent] at h
      split at h
      · rename_i hy
        cases h
        exact ⟨ttl, by rw [hy.1]⟩
      · cases h
    | releaseStepping y c =>
      simp only [leaseEvent] at h
      split at h <;> cases h
    | _ => cases h
  · cases h
  · cases h

/-- Until it is released, a lease is held by its holder or by a later one. -/
theorem lease_kept (hs : s.Fresh) (hc : Run W.leases (Config.start s) c) {x : Id} {since : Time}
    (held : ∃ h ∈ c.state.lease x, since ≤ h.2)
    (h : Steps W.leases (fun d e => effectiveRelease x d e = false) c d) :
    ∃ h ∈ d.state.lease x, since ≤ h.2 := by
  refine h.invariant (I := fun d => ∃ h ∈ d.state.lease x, since ≤ h.2) held ?_ ?_ ?_
  · exact fun d call hd => hd
  · intro d change hd
    have same : (change.apply d.state).lease x = d.state.lease x := by simp [State.lease]
    exact same ▸ hd
  · intro d i call o k hsteps hw hok hd
    have hrun := hc.trans hsteps.run
    have moves := leases_moves hs hrun hw x
    cases he : leaseEvent x o (W.exec o d.state).1 with
    | none =>
      rw [he] at moves
      change ∃ h ∈ (W.exec o d.state).2.lease x, since ≤ h.2
      rwa [moves]
    | some ev =>
      rw [he] at moves
      refine moves.held (fun hf => ?_) hd
      have := (frees_iff (e := d.entry W.leases i o) (leases_sound hs hrun) he).1 hf
      rw [hok] at this
      cases this

/-- A claim that succeeds finds the lease free, and records its reading. -/
theorem Leases.Claims.recorded (hs : s.Fresh) (h : Run W.leases (Config.start s) c) {i : Nat}
    {x claimId : Id} {now : Time} (hc : Leases.Claims c i x claimId now) :
    Lease.Free W.leaseTtl (c.state.lease x) now ∧
      (c.move W.leases (.run i)).state.lease x = some (claimId, now) := by
  obtain ⟨call, ttl, k, hw, hr⟩ := hc
  have moves := leases_moves hs h hw x
  have hreply : (W.exec (.write (.claimStepping x claimId now ttl)) c.state).1 = true := hr
  rw [hreply, leaseEvent, if_pos ⟨rfl, rfl⟩] at moves
  have hmove : (c.move W.leases (.run i)).state =
      (W.exec (.write (.claimStepping x claimId now ttl)) c.state).2 := by
    simp only [Config.move, hw]
    rfl
  rw [hmove]
  generalize (W.exec (.write (.claimStepping x claimId now ttl)) c.state).2.lease x = l at moves
  cases moves with
  | taken free => exact ⟨free, rfl⟩

/-- With a clock that does not go back and holders that release in time, only the holder of the lease
is between its claim and its release. -/
theorem holders_eq (hs : s.Fresh) {x : Id} (h : Steps W.leases (Punctual x) (Config.start s) c) :
    c.holders x = (c.state.lease x).toList := by
  refine h.invariant (I := fun c => Leases.holders c x = (c.state.lease x).toList) ?_ ?_ ?_ ?_
  · have free : s.lease x = none := by simp [State.lease, hs.executions x]
    change [] = (s.lease x).toList
    rw [free]
    rfl
  · exact fun d call hd => hd
  · intro d change hd
    have same : (change.apply d.state).lease x = d.state.lease x := by simp [State.lease]
    exact hd.trans (congrArg Option.toList same.symm)
  · intro d i call o k hsteps hw hok hd
    have moves := leases_moves hs hsteps hw x
    change Lease.outstanding (leaseEvents x (d.entry W.leases i o :: d.history)) =
      ((W.exec o d.state).2.lease x).toList
    cases he : leaseEvent x o (W.exec o d.state).1 with
    | none =>
      rw [he] at moves
      have skip : leaseEvents x (d.entry W.leases i o :: d.history) = leaseEvents x d.history :=
        List.filterMap_cons_none he
      rw [skip]
      exact hd.trans (congrArg Option.toList moves.symm)
    | some ev =>
      rw [he] at moves
      have add : leaseEvents x (d.entry W.leases i o :: d.history) = ev :: leaseEvents x d.history :=
        List.filterMap_cons_some he
      rw [add]
      refine moves.outstanding hd fun claimId now hev holder hh => ?_
      subst hev
      -- a claim records a time that the clock has shown already
      obtain ⟨ttl, rfl⟩ := claim_of_leaseEvent he
      have read := ((leases_statement hsteps hw).2 x claimId now ttl rfl).1
      exact (hok.1 now read).trans (hok.2 holder hh)

end Runs

/-- The lease columns agree, successive claims without a release in between lie more than the time to
live apart, a release is the holder's or does nothing, and with a clock that does not go back and
holders that release in time, at most one claim is outstanding. -/
theorem stepping_lease_safe {s : State W.Domain} (hs : s.Fresh) {c : Leases W}
    (h : Run W.leases (Config.start s) c) (x : Id) :
    (∀ row, c.state.executions x = some row →
      (row.stepping = true ↔ row.steppingClaimId ≠ none) ∧
        (row.steppingClaimId ≠ none ↔ row.steppingClaimedAt ≠ none)) ∧
    (∀ i claimId now, c.Claims i x claimId now → ∀ d : Leases W,
      Steps W.leases (fun d e => effectiveRelease x d e = false) (c.move W.leases (.run i)) d →
        ∀ j claimId' now', d.Claims j x claimId' now' → now + W.leaseTtl < now') ∧
    (∀ claimId, (c.state.releaseStepping x claimId).executions ≠ c.state.executions →
      ∃ row, c.state.executions x = some row ∧ row.steppingClaimId = some claimId) ∧
    (Steps W.leases (Punctual x) (Config.start s) c → (c.holders x).length ≤ 1) := by
  refine ⟨fun row hrow => ?_, fun i claimId now hc d hd j claimId' now' hc' => ?_, fun claimId hne => ?_,
    fun hp => ?_⟩
  · have agrees := (leases_sound hs h).1 x row hrow
    exact ⟨agrees.claimId, agrees.claimedAt⟩
  · have hmove : Run W.leases (Config.start s) (c.move W.leases (.run i)) :=
      h.move (.run i) fun _ _ => trivial
    have kept := lease_kept hs hmove ⟨_, (hc.recorded hs h).2, Nat.le_refl _⟩ hd
    exact (hc'.recorded hs (hmove.trans hd.run)).1.apart kept
  · by_contra hholder
    refine hne (funext fun y => ?_)
    rw [State.releaseStepping, State.modifyExecution_executions]
    split
    · rename_i hy
      subst hy
      cases hrow : c.state.executions y with
      | none => rfl
      | some row =>
        have hn : row.steppingClaimId ≠ some claimId := fun hc => hholder ⟨row, hrow, hc⟩
        simp [hn]
    · rfl
  · rw [holders_eq hs hp]
    cases c.state.lease x <;> simp

/-- Callers of the bench: execution 0 is started, and thread 1 has read the clock for its claim. -/
def firstClaim : List (Move LeaseCall Change) :=
  .spawn (.application (.startExecution 0 "refund" none)) :: List.replicate 5 (.run 0) ++
    .spawn (.claim 0) :: List.replicate 2 (.run 1)

/-- The clock moves on beyond the time to live, and thread 2 reads it for a claim of its own. -/
def secondClaim : List (Move LeaseCall Change) :=
  .disturb (.setClock 2000) :: .spawn (.claim 0) :: List.replicate 2 (.run 2)

def leasesAfter (moves : List (Move LeaseCall Change)) : Leases bench :=
  (Config.start (State.bench .allow)).replay bench.leases moves

theorem stepping_lease_safe_bench :
    0 + bench.leaseTtl < 2000 ∧ ((leasesAfter (firstClaim ++ [.run 1])).holders 0).length ≤ 1 := by
  have first : Run bench.leases (Config.start (State.bench .allow)) (leasesAfter firstClaim) :=
    run_replay firstClaim .refl
  have claimed : Steps bench.leases (Punctual 0) (Config.start (State.bench .allow))
      (leasesAfter (firstClaim ++ [.run 1])) :=
    Allowed.steps .refl (by decide +kernel)
  refine ⟨?_, (stepping_lease_safe (State.bench_fresh .allow) claimed.run 0).2.2.2 claimed⟩
  have kept : Steps bench.leases (fun d e => effectiveRelease 0 d e = false)
      ((leasesAfter firstClaim).move bench.leases (.run 1))
      (((leasesAfter firstClaim).move bench.leases (.run 1)).replay bench.leases secondClaim) :=
    Allowed.steps .refl (by decide +kernel)
  exact (stepping_lease_safe (State.bench_fresh .allow) first 0).2.1 1 1 0
    ⟨_, _, _, rfl, by decide +kernel⟩ _ kept 2 2 2000 ⟨_, _, _, rfl, by decide +kernel⟩

end SafeOps
