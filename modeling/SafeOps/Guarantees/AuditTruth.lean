import SafeOps.Guarantees.AuditLog
import SafeOps.Guarantees.TerminalStatus
import SafeOps.Observers.StatusEvents

/-! The audit log says which executions have ended, and as what. -/

namespace SafeOps
open Concurrent

variable {W : World} {ok : App W → Statement W → Prop}

/-- The statement puts a terminal status to an execution that neither runs nor has ended. -/
def prematureEnding (c : App W) (e : Statement W) : Bool :=
  match e.op with
  | .write (.commitIf _ g t) => g.new.Terminal ∧ c.state.status t.executionId ≠ some .running ∧
    ¬(c.state.status t.executionId).any fun s => s.Terminal
  | _ => false

/-- A terminal status is only put to an execution that runs or has ended. -/
def EndingsDue (c : App W) (e : Statement W) : Prop := prematureEnding c e = false

instance (c : App W) (e : Statement W) : Decidable (EndingsDue c e) :=
  inferInstanceAs (Decidable (_ = _))

/-- The statement is the fifth attempt to announce a cancellation, and it fails too. -/
def cancellationLost (e : Statement W) : Bool :=
  match e with
  | ⟨_, .write (.commit attempt t), outcome⟩ =>
    t.Cancels ∧ attempt.number = 4 ∧ (outcome : CommitOutcome) = .collision
  | _ => false

/-- The steps under which the log keeps up with the status of every execution. -/
structure EndingsRecorded (c : App W) (e : Statement W) : Prop where
  resumes : ResumesLive c e
  due : EndingsDue c e
  cancels : cancellationLost e = false

instance (c : App W) (e : Statement W) : Decidable (EndingsRecorded c e) :=
  decidable_of_iff (ResumesLive c e ∧ EndingsDue c e ∧ cancellationLost e = false)
    ⟨fun h => ⟨h.1, h.2.1, h.2.2⟩, fun h => ⟨h.1, h.2, h.3⟩⟩

namespace State

variable {D : Type} (s : State D)

/-- The terminal status of an execution, if it has ended. -/
def ending (x : Id) : List ExecutionStatus := (s.status x).toList.filter fun status => status.Terminal

variable {s} {x : Id} {status : ExecutionStatus}

theorem ending_of_terminal (h : s.status x = some status) (ht : status.Terminal) :
    s.ending x = [status] := by
  simp [ending, h, ht]

theorem ending_of_live (h : s.status x = some status) (ht : ¬status.Terminal) : s.ending x = [] := by
  simp [ending, h, ht]

theorem ending_of_none (h : s.status x = none) : s.ending x = [] := by
  simp [ending, h]

end State

/-- What one statement does to the endings and to the log, its call owing `m` before and `m'` after. -/
inductive Tally {D : Type} (s s' : State D) (m m' : Option Id) : Prop
  | quiet : m' = m → (∀ x, s'.ending x = s.ending x) →
      (∀ x, announced (s'.audit x) = announced (s.audit x)) → Tally s s' m m'
  | ended (x : Id) (new : ExecutionStatus) : m' = m → s.ending x = [] → s'.ending x = [new] →
      announced (s'.audit x) = announced (s.audit x) ++ [new] →
      (∀ y, y ≠ x → s'.ending y = s.ending y ∧ s'.audit y = s.audit y) → Tally s s' m m'
  | cancelled (x : Id) : m = none → m' = some x → s.ending x = [] → s'.ending x = [.cancelled] →
      s'.audit = s.audit → (∀ y, y ≠ x → s'.ending y = s.ending y) → Tally s s' m m'
  | recorded (x : Id) : m = some x → m' = none → (∀ y, s'.ending y = s.ending y) →
      announced (s'.audit x) = announced (s.audit x) ++ [.cancelled] →
      (∀ y, y ≠ x → s'.audit y = s.audit y) → Tally s s' m m'

section Steps

variable {s s' : State W.Domain} {o : Op W.Tables} {r : o.Reply}

/-- What neither commits nor cancels ends no execution. -/
theorem Effect.ending_kept (h : Effect s o r s') (hids : s.Allocated) (hi : Issued o)
    (hc : ∀ g t, ¬Commits o r g t) (hw : ∀ x now, o ≠ .write (.cancel x now)) (x : Id) :
    s'.ending x = s.ending x := by
  rcases h.status x with hs | ⟨new, hnew, hs⟩
  · rw [State.ending, hs, State.ending]
  · cases hnew with
    | inserted row hx =>
      rw [State.ending_of_live hs (by rw [hi.1]; decide),
        State.ending_of_none (by rw [State.status, hids x hx.ge]; rfl)]
    | cancelled now => exact absurd rfl (hw x now)
    | moved hc' => exact absurd hc' (hc _ _)
    | resumed hc' => exact absurd hc' (hc _ _)

theorem Effect.audit_kept (h : Effect s o r s') (hc : ∀ g t, ¬Commits o r g t) : s'.audit = s.audit := by
  funext x
  rcases h.audit x with he | ⟨g, t, hc', _⟩
  · exact he
  · exact absurd hc' (hc g t)

theorem Effect.audit_of_commits_ne (h : Effect s o r s') {g : Option StatusGuard} {t : Txn}
    (hc : Commits o r g t) {y : Id} (hy : y ≠ t.executionId) : s'.audit y = s.audit y := by
  rcases h.audit y with he | ⟨g', t', hc', _, rfl, _⟩
  · exact he
  · obtain ⟨_, rfl⟩ := hc.unique hc'
    exact absurd rfl hy

end Steps

/-- A plain chunk announces nothing, or else the cancellation of its execution, which inserts no row and
leaves the status alone. -/
theorem PlainTxn.announced {x : Id} {seq : Nat} {t : Txn} (h : PlainTxn x seq t) :
    announced t.audit = [] ∨ SafeOps.announced t.audit = [.cancelled] ∧ t.toolRequest = none ∧
      t.approval = none ∧ t.resume = false := by
  cases h with
  | runtime h => exact .inl h.announced
  | resolution _ h => exact .inl h.announced
  | cancelled => exact .inr ⟨rfl, rfl, rfl, rfl⟩

section Tally

variable {c : App W} {s : State W.Domain} {i : Nat} {m : Option Id} {a : Attempt} {t : Txn}

theorem Tally.same {D : Type} {s s' : State D} (he : ∀ x, s'.ending x = s.ending x)
    (ha : s'.audit = s.audit) : Tally s s' m m :=
  .quiet rfl he fun x => by rw [ha]

/-- A chunk without a guard announces nothing, or the cancellation that its call owes. -/
theorem Effect.tally_commit {outcome : CommitOutcome}
    (h : Effect (W := W) c.state (.write (.commit a t)) outcome s)
    (hi : Issued (W := W) (.write (.commit a t)))
    (hok : EndingsRecorded c ⟨i, .write (.commit a t), outcome⟩)
    (hm : (owing (W := W)).ok m (.write (.commit a t))) :
    Tally c.state s m ((owing (W := W)).next m (.write (.commit a t)) outcome) := by
  obtain ⟨x, seq, hi⟩ := hi
  have next : (owing (W := W)).next m (.write (.commit a t)) outcome =
    if t.Cancels ∧ (outcome = .collision → a.number = 4) then none else m := rfl
  rw [next]
  by_cases hout : outcome = .committed
  · subst hout
    have hc := Commits.plain (W := W) a t
    have hother {y : Id} (hy : y ≠ t.executionId) : s.audit y = c.state.audit y :=
      h.audit_of_commits_ne hc hy
    have haudit := h.audit_of_commits hc
    obtain ⟨_, _, _, startedAt, rfl⟩ := h.of_commits hc
    rcases hi.announced with hnone | ⟨hcancel, _, _, hr⟩
    · rw [if_neg fun hx => uncancelling_of_announced hnone hx.1]
      refine .quiet rfl (fun y => ?_) fun y => ?_
      · simp only [State.ending, State.applyTxn_status, World.guarded]
        split
        · rename_i hy
          obtain ⟨hr, rfl⟩ := hy
          rcases hs : c.state.status t.executionId with _ | status
          · rfl
          · have hlive := hok.resumes.live hc hr hs
            simp [hlive, show ¬ExecutionStatus.running.Terminal by decide]
        · rfl
      · by_cases hy : y = t.executionId
        · rw [hy, haudit, announced_append, hnone, List.append_nil]
        · rw [hother hy]
    · have hcancels : t.Cancels := by simp [Txn.Cancels, hcancel]
      rw [if_pos ⟨hcancels, by simp⟩]
      refine .recorded t.executionId (hm hcancels) rfl (fun y => ?_) ?_ fun y => hother
      · simp [State.ending, World.guarded, hr]
      · rw [haudit, announced_append, hcancel]
  · obtain ⟨hv, rfl⟩ := h.of_refused hout
    rw [if_neg]
    · exact .same (fun _ => rfl) rfl
    · rintro ⟨hcancels, hlast⟩
      cases outcome with
      | committed => exact hout rfl
      | collision =>
        have := hok.cancels
        simp [cancellationLost, hcancels, hlast rfl] at this
      | violation =>
        rcases hi.announced with hnone | ⟨_, htool, happroval, _⟩
        · exact uncancelling_of_announced hnone hcancels
        · simpa [State.Violates, htool, happroval] using hv rfl

/-- A chunk under a guard announces the terminal status it sets. -/
theorem Effect.tally_commitIf {g : StatusGuard} {outcome : GuardedOutcome}
    (h : Effect (W := W) c.state (.write (.commitIf a g t)) outcome s)
    (hi : Issued (W := W) (.write (.commitIf a g t))) : Tally c.state s m m := by
  obtain ⟨x, seq, hi⟩ := hi
  by_cases hout : outcome = .finished .committed
  · subst hout
    have hc := Commits.guarded (W := W) a g t
    have haudit := h.audit_of_commits hc
    have hother {y : Id} (hy : y ≠ t.executionId) : s.audit y = c.state.audit y :=
      h.audit_of_commits_ne hc hy
    obtain ⟨_, _, hg, startedAt, rfl⟩ := h.of_commits hc
    have hbefore := State.ending_of_live (hg g rfl) hi.expected
    have hafter (y : Id) : ((World.guarded c.state t (some g)).applyTxn startedAt t).status y =
        if y = t.executionId then some g.new else c.state.status y := by
      rw [State.applyTxn_status, guarded_status t (some g) y hg]
      simp [hi.resume]
    have hkept {y : Id} (hy : y ≠ t.executionId) :
        ((World.guarded c.state t (some g)).applyTxn startedAt t).ending y = c.state.ending y := by
      rw [State.ending, hafter, if_neg hy, State.ending]
    by_cases ht : g.new.Terminal
    · refine .ended t.executionId g.new rfl hbefore (State.ending_of_terminal (by simp [hafter]) ht) ?_
        fun y hy => ⟨hkept hy, hother hy⟩
      rw [haudit, announced_append, hi.announced, if_pos ht]
    · refine .quiet rfl (fun y => ?_) fun y => ?_
      · by_cases hy : y = t.executionId
        · subst hy
          rw [hbefore, State.ending_of_live (by rw [hafter, if_pos rfl]) ht]
        · exact hkept hy
      · by_cases hy : y = t.executionId
        · rw [hy, haudit, announced_append, hi.announced, if_neg ht, List.append_nil]
        · rw [hother hy]
  · cases h with
    | idle h => exact .same (fun _ => rfl) rfl
    | commit _ hc => cases hc; exact absurd rfl hout

theorem Effect.tally {o : Op W.Tables} {r : o.Reply} (h : Effect c.state o r s)
    (hids : c.state.Allocated) (hi : Issued o) (hok : EndingsRecorded c ⟨i, o, r⟩) (hm : owing.ok m o) :
    Tally c.state s m (owing.next m o r) := by
  have kept (hc : committed? o r = none) (hw : ∀ x now, o ≠ .write (.cancel x now)) :
      Tally c.state s m m := by
    have hnone : ∀ g t, ¬Commits o r g t := fun g t hc' => by simp [commits_iff.1 hc'] at hc
    exact .same (h.ending_kept hids hi hnone hw) (h.audit_kept hnone)
  rcases o with _ | w | _ | _
  · exact kept rfl nofun
  · cases w with
    | commit => exact h.tally_commit hi hok hm
    | commitIf => exact h.tally_commitIf hi
    | cancel x now =>
      cases h with
      | idle h =>
        cases h
        exact .same (fun _ => rfl) rfl
      | commit _ hc => cases hc
      | cancel _ _ hx =>
        obtain ⟨status, hs, ht⟩ : ∃ status, c.state.status x = some status ∧ ¬status.Terminal := by
          rcases hx with hx | hx <;> exact ⟨_, hx, by decide⟩
        refine .cancelled x hm rfl (State.ending_of_live hs ht) ?_ rfl fun y hy => ?_
        · obtain ⟨row, hrow, _⟩ := Option.map_eq_some_iff.1 hs
          exact State.ending_of_terminal (by simp [hrow]) (by decide)
        · simp [State.ending, hy]
    | _ => exact kept rfl nofun
  · exact kept rfl nofun
  · exact kept rfl nofun

end Tally

/-- The log announces the endings of all executions, but for cancellations that one call each still owes. -/
structure Told {D : Type} (s : State D) (owes : Nat → Option Id) : Prop where
  settled : ∀ x, (∀ i, owes i ≠ some x) → announced (s.audit x) = s.ending x
  owed : ∀ i x, owes i = some x → announced (s.audit x) = [] ∧ s.ending x = [.cancelled]
  alone : ∀ i j x, owes i = some x → owes j = some x → i = j

theorem Told.next {D : Type} {s s' : State D} {owes : Nat → Option Id} (h : Told s owes) {i : Nat}
    {m' : Option Id} (htally : Tally s s' (owes i) m') :
    Told s' fun j => if i = j then m' else owes j := by
  have same (hm : m' = owes i) : (fun j => if i = j then m' else owes j) = owes := by
    funext j
    split <;> simp_all
  cases htally with
  | quiet hm he ha =>
    rw [same hm]
    exact ⟨fun x hx => by rw [ha, he, h.settled x hx], fun j x hj => by rw [ha, he]; exact h.owed j x hj,
      h.alone⟩
  | ended x new hm hbefore hafter ha hother =>
    rw [same hm]
    have hfree (j : Nat) : owes j ≠ some x := fun hj => by simp [(h.owed j x hj).2] at hbefore
    refine ⟨fun y hy => ?_, fun j y hj => ?_, h.alone⟩
    · by_cases hyx : y = x
      · rw [hyx, ha, hafter, h.settled x hfree, hbefore, List.nil_append]
      · rw [(hother y hyx).1, (hother y hyx).2, h.settled y hy]
    · have hyx : y ≠ x := fun he => hfree j (he ▸ hj)
      rw [(hother y hyx).1, (hother y hyx).2]
      exact h.owed j y hj
  | cancelled x hm hm' hbefore hafter ha hother =>
    subst hm'
    have hfree (j : Nat) : owes j ≠ some x := fun hj => by simp [(h.owed j x hj).2] at hbefore
    refine ⟨fun y hy => ?_, fun j y hj => ?_, fun j k y hj hk => ?_⟩
    · have hyx : y ≠ x := fun he => hy i (by simp [he])
      rw [ha, hother y hyx]
      refine h.settled y fun j hj => hy j ?_
      have hij : i ≠ j := fun he => by simp [← he, hm] at hj
      simpa [hij] using hj
    · split at hj
      · obtain rfl := Option.some.inj hj
        exact ⟨by rw [ha, h.settled x hfree, hbefore], hafter⟩
      · have hyx : y ≠ x := fun he => hfree j (he ▸ hj)
        rw [ha, hother y hyx]
        exact h.owed j y hj
    · split at hj <;> split at hk
      · omega
      · exact absurd hk (Option.some.inj hj ▸ hfree k)
      · exact absurd hj (Option.some.inj hk ▸ hfree j)
      · exact h.alone j k y hj hk
  | recorded x hm hm' he ha hother =>
    subst hm'
    refine ⟨fun y hy => ?_, fun j y hj => ?_, fun j k y hj hk => ?_⟩
    · by_cases hyx : y = x
      · rw [hyx, ha, he, (h.owed i x hm).1, (h.owed i x hm).2, List.nil_append]
      · rw [hother y hyx, he]
        refine h.settled y fun j hj => hy j ?_
        have hij : i ≠ j := fun hij => hyx (Option.some.inj (hj.symm.trans (hij ▸ hm)))
        simpa [hij] using hj
    · split at hj
      · cases hj
      · have hyx : y ≠ x := fun hyx => absurd (h.alone i j x hm (hyx ▸ hj)) ‹_›
        rw [hother y hyx, he]
        exact h.owed j y hj
    · split at hj <;> split at hk <;> first | cases hj | cases hk | exact h.alone j k y hj hk

theorem ReachableWithin.told (hok : ∀ c e, ok c e → EndingsRecorded c e) {c : App W}
    (h : ReachableWithin ok c) : Told c.state (c.past owing none) := by
  refine h.invariant (I := fun c => Told c.state (c.past owing none)) ?_ (fun _ _ h => h) ?_ ?_
  · intro s hs
    refine ⟨fun x _ => ?_, fun i x hx => by simp at hx, fun i j x hx => by simp at hx⟩
    rw [App.start_state, hs.audit, State.ending_of_none (by simp [State.status, hs.executions])]
    rfl
  · intro d change h
    exact ⟨fun x hx => by simpa [State.ending] using h.settled x hx,
      fun i x hx => by simpa [State.ending] using h.owed i x hx, h.alone⟩
  · intro d i call o k r s hd hw hi hallowed heff h
    have hm := (hd.monitored Call.code_owing).allowed hw
    have hpast : (App.next d i call o k r s).past owing none =
        fun j => if i = j then owing.next (d.past owing none i) o r else d.past owing none j := by
      funext j
      rw [App.next_past]
      split
      · subst i
        rfl
      · rfl
    rw [hpast]
    exact h.next (heff.tally hd.allocated hi (hok _ _ hallowed) hm)

/-- When no call is in flight, no announcement is owed. -/
theorem Told.quiescent {c : App W} (h : Told c.state (c.past owing none)) (hr : ReachableWithin ok c)
    (hq : c.Quiescent) (x : Id) : announced (c.state.audit x) = c.state.ending x := by
  refine h.settled x fun i hi => ?_
  obtain ⟨hn, hobeys⟩ := hr.monitored Call.code_owing
  by_cases hlt : i < c.threads.length
  · have ht := hobeys i _ (List.getElem?_eq_getElem hlt)
    have hdone := hq _ (List.getElem_mem hlt)
    rcases hp : (c.threads[i]).program with a | e | ⟨o, k⟩
    · rw [hp] at ht
      exact absurd (ht.symm.trans hi) nofun
    · rw [hp] at ht
      exact absurd (ht.symm.trans hi) nofun
    · exact hdone o k hp
  · have unseen : c.past owing none i = none := Monitor.after_unseen fun e he => by
      have := hn e he
      omega
    exact absurd (unseen.symm.trans hi) nofun

/-- Only a lost update of a terminal status, and the reading after it, move the monitor. -/
theorem losing_next (m : Option LostEnding) (i : Nat) (o : Op W.Tables) (r : o.Reply) :
    losing.next m o r = m ∨
      (∃ a g t, (⟨i, o, r⟩ : Statement W) = ⟨i, .write (.commitIf a g t), GuardedOutcome.guardLost⟩ ∧
        g.new.Terminal ∧ losing.next m o r = some { executionId := t.executionId }) ∨
      ∃ lost, ∃ row : Option Execution, m = some lost ∧
        (⟨i, o, r⟩ : Statement W) = ⟨i, .query (.execution lost.executionId), row⟩ ∧
        losing.next m o r = some { lost with found := row.map (·.status) } := by
  rcases o with q | w | _ | _
  · cases q with
    | execution x =>
      rcases m with _ | lost
      · exact .inl rfl
      · by_cases hx : lost.executionId = x
        · subst hx
          exact .inr (.inr ⟨lost, r, rfl, rfl, by simp [losing]⟩)
        · exact .inl (by simp [losing, hx])
    | _ => exact .inl rfl
  · cases w with
    | commitIf a g t =>
      by_cases hlost : r = GuardedOutcome.guardLost ∧ g.new.Terminal
      · obtain ⟨rfl, ht⟩ := hlost
        exact .inr (.inl ⟨a, g, t, rfl, ht, if_pos ⟨rfl, ht⟩⟩)
      · exact .inl (if_neg hlost)
    | _ => exact .inl rfl
  · exact .inl rfl
  · exact .inl rfl

/-- A terminal status that is put to an execution in vain finds it ended. -/
theorem EndingsDue.ended {c : App W} {i : Nat} {a : Attempt} {g : StatusGuard} {t : Txn} {s : State W.Domain}
    (h : EndingsDue c ⟨i, .write (.commitIf a g t), GuardedOutcome.guardLost⟩)
    (hi : Issued (W := W) (.write (.commitIf a g t)))
    (heff : Effect (W := W) c.state (.write (.commitIf a g t)) GuardedOutcome.guardLost s)
    (ht : g.new.Terminal) :
    s = c.state ∧ ∃ status, c.state.status t.executionId = some status ∧ status.Terminal := by
  obtain ⟨x, seq, hi⟩ := hi
  have hrunning : g.expected = .running := by
    cases hi with
    | terminal => rfl
    | _ => exact absurd ht (by decide)
  cases heff with
  | idle hidle =>
    cases hidle with
    | guardLost _ _ _ hne =>
      rw [hrunning] at hne
      have hany : (c.state.status t.executionId).any fun s => s.Terminal := by
        simpa [EndingsDue, prematureEnding, ht, hne] using h
      obtain ⟨status, hs, hts⟩ := (Option.any_eq_true _ _).1 hany
      exact ⟨rfl, status, hs, of_decide_eq_true hts⟩
  | commit _ hc => cases hc

/-- What a call has found ended has ended, and what the log reports as ended had ended. -/
structure LossesTold (c : App W) : Prop where
  lost : ∀ i lost, c.past losing none i = some lost →
    (∃ s, c.state.status lost.executionId = some s ∧ s.Terminal) ∧ ∀ s ∈ lost.found, s.Terminal
  reported : ∀ x, ∀ e ∈ c.state.audit x, e.eventType = .executionStatusAlreadyTerminal →
    ∃ s : ExecutionStatus, s.Terminal ∧ e.actualStatus = some (.str s.value)

theorem ReachableWithin.lossesTold (hok : ∀ c e, ok c e → EndingsRecorded c e) {c : App W}
    (h : ReachableWithin ok c) : LossesTold c := by
  refine h.invariant ?_ (fun _ _ h => ⟨h.1, h.2⟩) ?_ ?_
  · exact fun s hs => ⟨fun i lost hl => by simp at hl, fun x e he => by simp [hs.audit] at he⟩
  · exact fun d change h => ⟨by simpa using h.lost, by simpa using h.reported⟩
  · intro d i call o k r s hd hw hi hallowed heff h
    have hstep := hok _ _ hallowed
    have kept {x : Id} (hx : ∃ s, d.state.status x = some s ∧ s.Terminal) :
        ∃ status, s.status x = some status ∧ status.Terminal := by
      obtain ⟨status, hs, ht⟩ := hx
      rcases heff.status x with he | ⟨new, hnew, _⟩
      · exact ⟨status, he.trans hs, ht⟩
      · exact absurd ht (StatusChange.live (e := ⟨i, o, r⟩) hd.allocated hnew hi hstep.resumes hs)
    refine ⟨fun j lost hl => ?_, fun x e he htype => ?_⟩
    · rw [App.next_past] at hl
      split at hl
      · subst i
        rcases losing_next (d.past losing none j) j o r with hm | ⟨a, g, t, heq, ht, hm⟩ | ⟨old, row, hold, heq, hm⟩
        · rw [hm] at hl
          exact ⟨kept (h.lost j lost hl).1, (h.lost j lost hl).2⟩
        · cases heq
          obtain rfl := Option.some.inj (hm.symm.trans hl)
          obtain ⟨rfl, hended⟩ := hstep.due.ended hi heff ht
          exact ⟨hended, by simp⟩
        · cases heq
          obtain rfl := Option.some.inj (hm.symm.trans hl)
          obtain ⟨hrow, rfl⟩ := heff.of_query
          obtain ⟨status, hs, ht⟩ := (h.lost j old hold).1
          refine ⟨⟨status, hs, ht⟩, fun found hf => ?_⟩
          have hfound : row.map (·.status) = some found := hf
          rw [show row = d.state.executions old.executionId from hrow] at hfound
          exact Option.some.inj (hs.symm.trans hfound) ▸ ht
      · exact ⟨kept (h.lost j lost hl).1, (h.lost j lost hl).2⟩
    · rcases heff.audit x with ha | ⟨g, t, hc, _, rfl, ha⟩
      · exact h.reported x e (ha ▸ he) htype
      · rw [App.next_state, ha] at he
        rcases List.mem_append.1 he with he | he
        · exact h.reported _ e he htype
        · have hallows := (hd.monitored Call.code_losing).allowed hw
          obtain ⟨lost, status, hl, hfound, hactual⟩ : ∃ lost s, d.past losing none i = some lost ∧
              lost.found = some s ∧ e.actualStatus = some (.str s.value) := by
            cases hc <;> exact hallows e he htype
          exact ⟨status, (h.lost i lost hl).2 status hfound, hactual⟩

/-- The log of every execution says whether it has ended, and as what. -/
def State.TellsEndings {D : Type} (s : State D) : Prop :=
  ∀ x status, s.status x = some status →
    (status.Terminal ↔ (announced (s.audit x)).length = 1) ∧ ∀ told ∈ announced (s.audit x), told = status

/-- Whatever is reported as the terminal status found is one. -/
def State.ReportsEndings {D : Type} (s : State D) : Prop :=
  ∀ x, ∀ e ∈ s.audit x, e.eventType = .executionStatusAlreadyTerminal →
    ∃ status : ExecutionStatus, status.Terminal ∧ e.actualStatus = some (.str status.value)

theorem State.tellsEndings {D : Type} {s : State D} (h : ∀ x, announced (s.audit x) = s.ending x) :
    s.TellsEndings := by
  intro x status hs
  rw [h x]
  by_cases ht : status.Terminal
  · simp [State.ending_of_terminal hs ht, ht]
  · simp [State.ending_of_live hs ht, ht]

/-- In a run whose steps all record the endings, the log tells the truth about the status of every
execution whenever no call is in flight, and reports no ending that was none. -/
theorem audit_tells_truth {c : App W} (h : ReachableWithin EndingsRecorded c) :
    (c.Quiescent → c.state.TellsEndings) ∧ c.state.ReportsEndings :=
  ⟨fun hq => State.tellsEndings ((h.told fun _ _ h => h).quiescent h hq),
    (h.lossesTold fun _ _ h => h).reported⟩

theorem audit_tells_truth_cancel :
    (afterMoves .allow (startMoves ++ arrival (.cancel 0) 1 7)).state.TellsEndings :=
  (audit_tells_truth (Allowed.reachable (State.bench_fresh _) (by decide +kernel))).1 (by decide +kernel)

/-- Thread 1 submits an action that needs approval, and waits for it. -/
def submitMoves : List (Move Call Change) :=
  arrival (.submitExternalAction 0 ⟨"refund_payment", .dict [], "refund", []⟩) 1 43

/-- The outcome of an approval sets a cancelled execution to `RUNNING`; and a reconciliation that lands
between the two commits of a rejection reports `WAITING_APPROVAL` as the ending it found. -/
theorem audit_misleads :
    (¬∀ (W : World) (c : App W), Reachable c → c.Quiescent → c.state.TellsEndings) ∧
      ¬∀ (W : World) (c : App W), Reachable c → c.state.ReportsEndings := by
  constructor
  · intro h
    have tells := h bench _ (replay_reachable (State.bench_fresh .requireApproval)
      (startMoves ++ gatewayMoves 27 ++ arrival (.approve 3 ⟨0, "operator"⟩) 2 13 ++
        arrival (.cancel 0) 3 7 ++ [.run 2, .run 2])) (by decide +kernel) 0 .running (by decide +kernel)
    exact absurd (tells.2 .cancelled (by decide +kernel)) (by decide)
  · intro h
    -- the rejecting call has claimed the approval, and not yet committed the rejection
    let moves := startMoves ++ submitMoves ++ arrival (.reject 4 ⟨0, "operator"⟩ none) 2 6 ++
      arrival (.reconcileExternalStep 0) 3 20
    have found : ((afterMoves .requireApproval moves).state.audit 0).any (fun e =>
        e.eventType = .executionStatusAlreadyTerminal ∧
          e.actualStatus.any (·.same (.str ExecutionStatus.waitingApproval.value))) = true := by
      decide +kernel
    obtain ⟨e, he, hfound⟩ := List.any_eq_true.1 found
    obtain ⟨htype, hactual⟩ := of_decide_eq_true hfound
    have hreach : Reachable (afterMoves .requireApproval moves) :=
      replay_reachable (State.bench_fresh _) moves
    obtain ⟨status, ht, hs⟩ := h bench _ hreach 0 e he htype
    rw [hs] at hactual
    have hw : status.value = ExecutionStatus.waitingApproval.value := by
      simpa [Value.same] using hactual
    rcases ht with rfl | rfl | rfl | rfl <;> exact absurd hw (by simp [ExecutionStatus.value])

end SafeOps
