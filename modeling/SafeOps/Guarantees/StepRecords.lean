import SafeOps.Guarantees.AuditTruth
import SafeOps.Observers.Recorder
import SafeOps.Bench

/-! Every tool-call step is announced once in the audit log, and what has become of it is the last thing the log
says about it: unless a step is saved without an event, or its announcement gives up. -/

namespace SafeOps
open Concurrent Program

variable {W : World} {ok : App W → Statement W → Prop} {c d : App W}

/-- What the log says about step `n`. -/
def stepLog (log : List AuditEvent) (n : Nat) : List AuditEvent :=
  log.filter fun e => e.stepSequence = some (n : Int)

/-- The events announce a step, once and before anything else, and unless it is still pending the last of them
records its status. -/
def Documents (events : List AuditEvent) (status : StepStatus) : Prop :=
  ∃ e rest, events = e :: rest ∧ e.eventType = .executionStepStarted ∧
    (∀ e' ∈ rest, e'.eventType ≠ .executionStepStarted) ∧
    (status ≠ .pending → ∃ last, rest.getLast? = some last ∧ last.records status = true)

/-- How far a step has come. -/
inductive StepPhase
  | fresh
  | announced
  | final

/-- The steps of a phase that a call has to do with. -/
def Recorder.known (m : Recorder) : StepPhase → List (Id × Nat)
  | .fresh => m.fresh.toList
  | .announced => m.announced
  | .final => m.final

/-- Step `n` of execution `x` has come to the phase. -/
def State.Reached {D : Type} (s : State D) (x : Id) (n : Nat) : StepPhase → Prop
  | .fresh => ∃ row, s.step x n = some row ∧ row.stepType = .toolCall ∧ row.status = .pending ∧
      stepLog (s.audit x) n = []
  | .announced => ∃ row, s.step x n = some row ∧ row.stepType = .toolCall ∧
      Documents (stepLog (s.audit x) n) row.status
  | .final => ∃ row, s.step x n = some row ∧ row.stepType = .final ∧ row.status ≠ .waitingApproval

/-- The statement keeps a step from the log: it saves the step on its own, or gives up announcing it. -/
def mute : (o : Op W.Tables) → o.Reply → Bool
  | .write (.saveStep _ _), _ => true
  | .write (.commit attempt t), outcome => t.announces && attempt.givesUp outcome
  | _, _ => false

/-- Nothing about a step is kept from the log. -/
def Outspoken (_ : App W) (e : Statement W) : Prop := mute e.op e.reply = false

instance (c : App W) (e : Statement W) : Decidable (Outspoken c e) :=
  inferInstanceAs (Decidable (_ = _))

section Events

variable {log events : List AuditEvent} {e : AuditEvent} {n : Nat} {status status' : StepStatus}

theorem stepLog_append (log' : List AuditEvent) : stepLog (log ++ log') n = stepLog log n ++ stepLog log' n :=
  List.filter_append ..

theorem stepLog_nil_of (h : ∀ e ∈ log, e.stepSequence ≠ some (n : Int)) : stepLog log n = [] :=
  List.filter_eq_nil_iff.2 fun e he => by simpa using h e he

/-- An event about a step is one of the step events. -/
theorem AuditEvent.about_step (h : e.stepSequence ≠ none) : e.eventType ∈ stepEvents := by
  by_contra hne
  exact h (if_neg hne)

theorem Documents.announced (he : e.eventType = .executionStepStarted) : Documents [e] .pending :=
  ⟨e, [], rfl, he, by simp, fun h => absurd rfl h⟩

/-- A further event records what has become of the step. -/
theorem Documents.snoc (h : Documents events status) (he : e.records status' = true) :
    Documents (events ++ [e]) status' := by
  obtain ⟨first, rest, rfl, hfirst, hrest, _⟩ := h
  refine ⟨first, rest ++ [e], rfl, hfirst, fun e' he' => ?_, fun _ => ⟨e, by simp, he⟩⟩
  rcases List.mem_append.1 he' with he' | he'
  · exact hrest e' he'
  · obtain rfl := List.mem_singleton.1 he'
    intro hs
    cases status' <;> simp [AuditEvent.records, hs] at he

end Events

section Phases

variable {D : Type} {s s' : State D} {x : Id} {n : Nat} {p q : StepPhase}

/-- No step is in two phases. -/
theorem State.Reached.unique (hp : s.Reached x n p) (hq : s.Reached x n q) : p = q := by
  have types {row row' : ExecutionStep} {a b : StepType} (h : s.step x n = some row) (h' : s.step x n = some row')
      (ha : row.stepType = a) (hb : row'.stepType = b) : a = b := by
    obtain rfl := Option.some.inj (h.symm.trans h')
    exact ha.symm.trans hb
  cases p <;> cases q <;> first | rfl | skip
  · obtain ⟨_, _, _, _, hnil⟩ := hp
    obtain ⟨_, _, _, _, _, he, _⟩ := hq
    cases hnil.symm.trans he
  rotate_left
  · obtain ⟨_, _, _, _, _, he, _⟩ := hp
    obtain ⟨_, _, _, _, hnil⟩ := hq
    cases hnil.symm.trans he
  -- a final step and a tool call
  all_goals
    obtain ⟨row, hrow, htype, _⟩ := hp
    obtain ⟨row', hrow', htype', _⟩ := hq
    cases types hrow hrow' htype htype'

theorem State.Reached.exists (h : s.Reached x n p) : s.step x n ≠ none := by
  cases p <;> obtain ⟨row, hrow, _⟩ := h <;> simp [hrow]

/-- The step and what the log says about it are as they were. -/
def Untouched (s s' : State D) (x : Id) (n : Nat) : Prop :=
  s'.step x n = s.step x n ∧ stepLog (s'.audit x) n = stepLog (s.audit x) n

theorem Untouched.reached (h : Untouched s s' x n) : s'.Reached x n p ↔ s.Reached x n p := by
  cases p <;> simp only [State.Reached, h.1, h.2]

end Phases

/-- The steps of the executions agree with what the log says about them and with what the calls know. -/
structure StepsRecorded (c : App W) : Prop where
  followed : ∀ i, c.past recording (some {}) i ≠ none
  existing : ∀ x e (n : Int), e ∈ c.state.audit x → e.stepSequence = some n →
    ∃ k : Nat, n = k ∧ c.state.step x k ≠ none
  known : ∀ i rec p x n, c.past recording (some {}) i = some rec → (x, n) ∈ rec.known p → c.state.Reached x n p
  alone : ∀ i j rec rec' x n, c.past recording (some {}) i = some rec → c.past recording (some {}) j = some rec' →
    rec.fresh = some (x, n) → rec'.fresh = some (x, n) → i = j
  covered : ∀ x n row, c.state.step x n = some row →
    (∃ i rec, c.past recording (some {}) i = some rec ∧ rec.fresh = some (x, n)) ∨
      c.state.Reached x n .announced ∨ c.state.Reached x n .final

section Commits

variable {s s' : State W.Domain} {o : Op W.Tables} {r : o.Reply} {g : Option StatusGuard} {t : Txn}

theorem Effect.stepLog_of_commits (heff : Effect s o r s') (hc : Commits o r g t) (x : Id) (n : Nat) :
    stepLog (s'.audit x) n = stepLog (s.audit x) n ++ if x = t.executionId then stepLog t.audit n else [] := by
  split
  · rename_i hx
    rw [hx, heff.audit_of_commits hc, stepLog_append]
  · rename_i hx
    rw [heff.audit_of_commits_ne hc hx, List.append_nil]

/-- A chunk leaves alone the steps that it neither writes nor has an event about. -/
theorem Effect.untouched_of_commits (heff : Effect s o r s') (hc : Commits o r g t) {x : Id} {n : Nat}
    (hstep : x = t.executionId → ∀ u, t.step = some u → u.sequence ≠ n)
    (haudit : x = t.executionId → ∀ e ∈ t.audit, e.stepSequence ≠ some (n : Int)) : Untouched s s' x n := by
  constructor
  · rw [heff.step_of_commits hc]
    rcases hu : t.step with _ | u
    · rfl
    · rw [State.writeStep, State.modifyStep_step, if_neg]
      rintro ⟨hx, hn⟩
      exact hstep hx u hu hn.symm
  · rw [heff.stepLog_of_commits hc]
    split
    · rename_i hx
      rw [stepLog_nil_of (haudit hx), List.append_nil]
    · rw [List.append_nil]

/-- What a chunk writes to a step, and appends to what the log says about it. -/
theorem Effect.touched_of_commits (heff : Effect s o r s') (hc : Commits o r g t) {e : AuditEvent}
    (ha : t.audit = [e]) {u : StepUpdate} (hu : t.step = some u) :
    s'.step t.executionId u.sequence = (s.step t.executionId u.sequence).map u.apply ∧
      (e.stepSequence = some (u.sequence : Int) →
        stepLog (s'.audit t.executionId) u.sequence = stepLog (s.audit t.executionId) u.sequence ++ [e]) := by
  constructor
  · rw [heff.step_of_commits hc, hu, State.writeStep, State.modifyStep_step, if_pos ⟨rfl, rfl⟩]
  · intro he
    rw [heff.stepLog_of_commits hc, if_pos rfl, ha]
    simp [stepLog, he]

end Commits

namespace StepsRecorded

variable {i : Nat} {call : Call} {o : Op W.Tables} {k : o.Reply → Db W CallResult} {r : o.Reply}
  {s : State W.Domain} {rec rec' : Recorder}

section Step

variable (h : StepsRecorded d) (hm : d.past recording (some {}) i = some rec)
include h hm

/-- What a step has to keep. -/
theorem next (hm' : recording.next (some rec) o r = some rec')
    (existing : ∀ x e (n : Int), e ∈ s.audit x → e.stepSequence = some n → ∃ k : Nat, n = k ∧ s.step x k ≠ none)
    (mine : ∀ p x n, (x, n) ∈ rec'.known p → s.Reached x n p)
    (theirs : ∀ p x n, d.state.Reached x n p → (p = .fresh → rec.fresh ≠ some (x, n)) → s.Reached x n p)
    (alone : ∀ x n, rec'.fresh = some (x, n) → rec.fresh = some (x, n) ∨ d.state.step x n = none)
    (added : ∀ x n, s.step x n ≠ none → d.state.step x n ≠ none ∨ rec'.fresh = some (x, n) ∨ s.Reached x n .final)
    (told : ∀ x n, rec.fresh = some (x, n) → rec'.fresh = some (x, n) ∨ s.Reached x n .announced) :
    StepsRecorded (App.next d i call o k r s) := by
  have past (j : Nat) : (App.next d i call o k r s).past recording (some {}) j =
      if i = j then some rec' else d.past recording (some {}) j := by
    rw [App.next_past]
    split
    · rename_i hij
      rw [← hij, hm, hm']
    · rfl
  have fresh {j : Nat} {rec₁ : Recorder} {x : Id} {n : Nat} (hj : d.past recording (some {}) j = some rec₁)
      (hf : rec₁.fresh = some (x, n)) : d.state.Reached x n .fresh :=
    h.known j rec₁ .fresh x n hj (by simp [Recorder.known, hf])
  refine ⟨fun j => ?_, existing, fun j rec₁ p x n hj hp => ?_, fun j j' rec₁ rec₂ x n hj hj' hf hf' => ?_,
    fun x n row hrow => ?_⟩
  · rw [past]
    split
    · exact Option.some_ne_none _
    · exact h.followed j
  · rw [past] at hj
    split at hj
    · obtain rfl := Option.some.inj hj
      exact mine p x n hp
    · rename_i hij
      refine theirs p x n (h.known j rec₁ p x n hj hp) ?_
      rintro rfl hf
      exact hij (h.alone i j rec rec₁ x n hm hj hf (by simpa [Recorder.known] using hp))
  · -- a step that has just been claimed was nobody's before
    have old {j : Nat} {rec₁ : Recorder} (hij : i ≠ j) (hj : d.past recording (some {}) j = some rec₁)
        (hf₁ : rec₁.fresh = some (x, n)) (hf : rec'.fresh = some (x, n)) : False := by
      rcases alone x n hf with hf | hnone
      · exact hij (h.alone i j rec rec₁ x n hm hj hf hf₁)
      · exact (fresh hj hf₁).exists hnone
    rw [past] at hj hj'
    split at hj <;> split at hj'
    · exact ‹i = j›.symm.trans ‹i = j'›
    · obtain rfl := Option.some.inj hj
      exact (old ‹_› hj' hf' hf).elim
    · obtain rfl := Option.some.inj hj'
      exact (old ‹_› hj hf hf').elim
    · exact h.alone j j' rec₁ rec₂ x n hj hj' hf hf'
  · have own (hf : rec'.fresh = some (x, n)) : ∃ j rec₁,
        (App.next d i call o k r s).past recording (some {}) j = some rec₁ ∧ rec₁.fresh = some (x, n) :=
      ⟨i, rec', by rw [past, if_pos rfl], hf⟩
    rcases added x n (by simp [show s.step x n = some row from hrow]) with hold | hf | hfinal
    · obtain ⟨row', hrow'⟩ := Option.ne_none_iff_exists'.1 hold
      rcases h.covered x n row' hrow' with ⟨j, rec₁, hj, hf⟩ | hreached | hreached
      · by_cases hij : i = j
        · subst hij
          obtain rfl := Option.some.inj (hm.symm.trans hj)
          exact (told x n hf).imp own .inl
        · exact .inl ⟨j, rec₁, by rw [past, if_neg hij, hj], hf⟩
      · exact .inr (.inl (theirs _ x n hreached nofun))
      · exact .inr (.inr (theirs _ x n hreached nofun))
    · exact .inl (own hf)
    · exact .inr (.inr hfinal)

/-- A statement that touches no step. -/
theorem next_untouched (hm' : recording.next (some rec) o r = some rec')
    (untouched : ∀ x n, Untouched d.state s x n)
    (audit : ∀ x, ∀ e ∈ s.audit x, e ∈ d.state.audit x ∨ e.stepSequence = none) (hf : rec'.fresh = rec.fresh)
    (mine : ∀ p x n, (x, n) ∈ rec'.known p → d.state.Reached x n p) :
    StepsRecorded (App.next d i call o k r s) := by
  refine h.next hm hm' ?_ (fun p x n hp => (untouched x n).reached.2 (mine p x n hp))
    (fun p x n hp _ => (untouched x n).reached.2 hp) (fun x n hx => .inl (hf ▸ hx))
    (fun x n hx => .inl ((untouched x n).1 ▸ hx)) fun x n hx => .inl (hf.trans hx)
  intro x e n he hn
  rcases audit x e he with he | hnone
  · obtain ⟨k, hk, hstep⟩ := h.existing x e n he hn
    exact ⟨k, hk, (untouched x k).1 ▸ hstep⟩
  · cases hn.symm.trans hnone

/-- A statement that touches one step, which is there, and keeps it in its phase unless it is announced. -/
theorem next_touched (hm' : recording.next (some rec) o r = some rec') {x₀ : Id} {n₀ : Nat} {p₀ q₀ : StepPhase}
    (others : ∀ x n, (x, n) ≠ (x₀, n₀) → Untouched d.state s x n)
    (audit : ∀ x, ∀ e ∈ s.audit x, e ∈ d.state.audit x ∨
      ∀ n : Int, e.stepSequence = some n → x = x₀ ∧ n = (n₀ : Int))
    (before : d.state.Reached x₀ n₀ p₀) (after : s.Reached x₀ n₀ q₀)
    (kept : p₀ = q₀ ∧ rec' = rec ∨ q₀ = .announced ∧ rec.fresh = some (x₀, n₀) ∧ rec' = rec.announce) :
    StepsRecorded (App.next d i call o k r s) := by
  have remains (p : StepPhase) (x : Id) (n : Nat) (hp : d.state.Reached x n p)
      (hne : (x, n) = (x₀, n₀) → p₀ = q₀) : s.Reached x n p := by
    by_cases hx : (x, n) = (x₀, n₀)
    · obtain ⟨rfl, rfl⟩ := Prod.mk.inj hx
      rw [hp.unique before, hne rfl]
      exact after
    · exact (others x n hx).reached.2 hp
  have fresh (hf : rec.fresh = some (x₀, n₀)) : p₀ = .fresh :=
    before.unique (h.known i rec .fresh x₀ n₀ hm (by simp [Recorder.known, hf]))
  refine h.next hm hm' ?_ ?_ ?_ ?_ ?_ ?_
  · intro x e n he hn
    rcases audit x e he with he | hnew
    · obtain ⟨k, hk, hstep⟩ := h.existing x e n he hn
      refine ⟨k, hk, ?_⟩
      by_cases hx : (x, k) = (x₀, n₀)
      · obtain ⟨rfl, rfl⟩ := Prod.mk.inj hx
        exact after.exists
      · rwa [(others x k hx).1]
    · obtain ⟨rfl, hn⟩ := hnew n hn
      exact ⟨n₀, hn, after.exists⟩
  · intro p x n hp
    rcases kept with ⟨hpq, rfl⟩ | ⟨rfl, hf, rfl⟩
    · exact remains p x n (h.known i _ p x n hm hp) fun _ => hpq
    · cases p with
      | fresh => cases hp
      | announced =>
        rcases List.mem_append.1 hp with hp | hp
        · obtain ⟨rfl, rfl⟩ : x = x₀ ∧ n = n₀ := by simpa [hf] using hp
          exact after
        · refine remains .announced x n (h.known i _ .announced x n hm hp) fun hx => ?_
          obtain ⟨rfl, rfl⟩ := Prod.mk.inj hx
          exact before.unique (h.known i _ .announced _ _ hm hp)
      | final =>
        refine remains .final x n (h.known i _ .final x n hm hp) fun hx => ?_
        obtain ⟨rfl, rfl⟩ := Prod.mk.inj hx
        cases (fresh hf).symm.trans (before.unique (h.known i _ .final _ _ hm hp))
  · intro p x n hp hne
    refine remains p x n hp fun hx => ?_
    obtain ⟨rfl, rfl⟩ := Prod.mk.inj hx
    rcases kept with ⟨hpq, _⟩ | ⟨rfl, hf, _⟩
    · exact hpq
    · exact absurd hf (hne (hp.unique before ▸ fresh hf))
  · intro x n hx
    rcases kept with ⟨_, rfl⟩ | ⟨_, _, rfl⟩
    · exact .inl hx
    · cases hx
  · intro x n hx
    by_cases hxn : (x, n) = (x₀, n₀)
    · obtain ⟨rfl, rfl⟩ := Prod.mk.inj hxn
      exact .inl before.exists
    · exact .inl ((others x n hxn).1 ▸ hx)
  · intro x n hx
    rcases kept with ⟨_, rfl⟩ | ⟨rfl, hf, _⟩
    · exact .inl hx
    · obtain ⟨rfl, rfl⟩ := Prod.mk.inj (Option.some.inj (hf.symm.trans hx))
      exact .inr after

/-- A call claims a step. -/
theorem next_claimed {x₀ : Id} {row : ExecutionStep}
    (hm' : recording.next (some rec) o r = some (rec.claim x₀ row)) (hpending : row.status = .pending)
    (haudit : s.audit = d.state.audit) (others : ∀ x n, (x, n) ≠ (x₀, row.sequence) → s.step x n = d.state.step x n)
    (hinserted : s.step x₀ row.sequence = some row) (hfree : d.state.step x₀ row.sequence = none)
    (hf : rec.fresh = none) : StepsRecorded (App.next d i call o k r s) := by
  have others (x : Id) (n : Nat) (hx : (x, n) ≠ (x₀, row.sequence)) : Untouched d.state s x n :=
    ⟨others x n hx, by rw [haudit]⟩
  have remains (p : StepPhase) (x : Id) (n : Nat) (hp : d.state.Reached x n p) : s.Reached x n p := by
    refine (others x n fun hx => ?_).reached.2 hp
    obtain ⟨rfl, rfl⟩ := Prod.mk.inj hx
    exact hp.exists hfree
  have silent : stepLog (s.audit x₀) row.sequence = [] := by
    rw [haudit]
    refine stepLog_nil_of fun e he hn => ?_
    obtain ⟨k, hk, hstep⟩ := h.existing x₀ e _ he hn
    exact hstep (Int.ofNat.inj hk ▸ hfree)
  have claimed : (row.stepType = .toolCall → s.Reached x₀ row.sequence .fresh) ∧
      (row.stepType = .final → s.Reached x₀ row.sequence .final) :=
    ⟨fun htype => ⟨row, hinserted, htype, hpending, silent⟩,
      fun htype => ⟨row, hinserted, htype, by rw [hpending]; decide⟩⟩
  refine h.next hm hm' ?_ ?_ (fun p x n hp _ => remains p x n hp) ?_ ?_ fun x n hx => nomatch hf.symm.trans hx
  · intro x e n he hn
    obtain ⟨k, hk, hstep⟩ := h.existing x e n (haudit ▸ he) hn
    refine ⟨k, hk, ?_⟩
    by_cases hx : (x, k) = (x₀, row.sequence)
    · obtain ⟨rfl, rfl⟩ := Prod.mk.inj hx
      exact absurd hfree hstep
    · rwa [(others x k hx).1]
  · intro p x n hp
    rcases htype : row.stepType with _ | _ <;> simp only [Recorder.claim, htype] at hp
    · cases p with
      | fresh =>
        obtain ⟨rfl, rfl⟩ : x = x₀ ∧ n = row.sequence := by simpa [Recorder.known] using hp
        exact claimed.1 htype
      | announced => exact remains _ x n (h.known i rec .announced x n hm hp)
      | final => exact remains _ x n (h.known i rec .final x n hm hp)
    · cases p with
      | fresh => exact remains _ x n (h.known i rec .fresh x n hm hp)
      | announced => exact remains _ x n (h.known i rec .announced x n hm hp)
      | final =>
        rcases List.mem_cons.1 hp with hp | hp
        · obtain ⟨rfl, rfl⟩ := Prod.mk.inj hp
          exact claimed.2 htype
        · exact remains _ x n (h.known i rec .final x n hm hp)
  · intro x n hx
    rcases htype : row.stepType with _ | _ <;> simp only [Recorder.claim, htype] at hx
    · obtain ⟨rfl, rfl⟩ := Prod.mk.inj (Option.some.inj hx)
      exact .inr hfree
    · exact .inl hx
  · intro x n hx
    by_cases hxn : (x, n) = (x₀, row.sequence)
    · obtain ⟨rfl, rfl⟩ := Prod.mk.inj hxn
      rcases htype : row.stepType with _ | _
      · exact .inr (.inl (by simp [Recorder.claim, htype]))
      · exact .inr (.inr (claimed.2 htype))
    · exact .inl ((others x n hxn).1 ▸ hx)

/-- A call commits a chunk. -/
theorem next_committed {g : Option StatusGuard} {t : Txn} (hc : Commits o r g t) (hrec : rec.Records t)
    (hm' : recording.next (some rec) o r = some (if t.announces then rec.announce else rec))
    (heff : Effect d.state o r s) : StepsRecorded (App.next d i call o k r s) := by
  have added (x : Id) (e : AuditEvent) (he : e ∈ s.audit x) :
      e ∈ d.state.audit x ∨ x = t.executionId ∧ e ∈ t.audit := by
    by_cases hx : x = t.executionId
    · rw [hx, heff.audit_of_commits hc] at he
      exact (List.mem_append.1 he).imp (hx ▸ ·) (⟨hx, ·⟩)
    · exact .inl (heff.audit_of_commits_ne hc hx ▸ he)
  -- what a chunk with one event, about step `n` if any, may touch
  have single {n : Nat} {e : AuditEvent} (hu : ∀ u, t.step = some u → u.sequence = n) (ha : t.audit = [e])
      (hn : ∀ m : Int, e.stepSequence = some m → m = (n : Int)) :
      (∀ x m, (x, m) ≠ (t.executionId, n) → Untouched d.state s x m) ∧
        ∀ x, ∀ e ∈ s.audit x, e ∈ d.state.audit x ∨
          ∀ m : Int, e.stepSequence = some m → x = t.executionId ∧ m = (n : Int) := by
    constructor
    · intro x m hx
      refine heff.untouched_of_commits hc (fun hxt u hstep hm => hx ?_) fun hxt e' he' hm => hx ?_
      · rw [hxt, ← hm, hu u hstep]
      · obtain rfl := List.mem_singleton.1 (ha ▸ he')
        rw [hxt, Int.ofNat.inj (hn _ hm)]
    · intro x e' he'
      refine (added x e' he').imp_right fun hnew m hm => ⟨hnew.1, ?_⟩
      obtain rfl := List.mem_singleton.1 (ha ▸ hnew.2)
      exact hn m hm
  cases hrec with
  | silent hs =>
    rw [hs.announces] at hm'
    have about (e : AuditEvent) (he : e ∈ t.audit) : e.stepSequence = none := by
      by_contra hne
      exact hs.audit e he (AuditEvent.about_step hne)
    refine h.next_untouched hm hm' (fun x n => heff.untouched_of_commits hc ?_ ?_) ?_ rfl
      fun p x n => h.known i rec p x n hm
    · intro _ u hu
      cases hs.step.symm.trans hu
    · intro _ e he hn
      cases hn.symm.trans (about e he)
    · exact fun x e he => (added x e he).imp_right fun hnew => about e hnew.2
  | announcement n e hu ha he hn hf =>
    rw [if_pos (by simp [Txn.announces, ha, he])] at hm'
    obtain ⟨others, audit⟩ := single (n := n) (by simp [hu]) ha fun m hm => Option.some.inj (hm.symm.trans hn)
    have before : d.state.Reached t.executionId n .fresh :=
      h.known i rec .fresh _ n hm (by simp [Recorder.known, hf])
    refine h.next_touched hm hm' others audit before ?_ (.inr ⟨rfl, hf, rfl⟩)
    obtain ⟨row, hrow, htype, hpending, hnil⟩ := before
    refine ⟨row, ?_, htype, ?_⟩
    · rw [heff.step_of_commits hc, hu]
      exact hrow
    · rw [heff.stepLog_of_commits hc, if_pos rfl, hnil, ha, hpending]
      simpa [stepLog, hn] using Documents.announced he
  | outcome u e hu ha hn hr hknown =>
    have quiet : t.announces = false := by
      refine List.any_eq_false.2 fun e' he' hs => ?_
      obtain rfl := List.mem_singleton.1 (ha ▸ he')
      cases hstatus : u.status <;> simp [AuditEvent.records, hstatus, of_decide_eq_true hs] at hr
    rw [quiet] at hm'
    obtain ⟨others, audit⟩ := single (n := u.sequence) (by simp [hu]) ha
      fun m hm => Option.some.inj (hm.symm.trans hn)
    obtain ⟨hstep, hlog⟩ := heff.touched_of_commits hc ha hu
    have before := h.known i rec .announced _ _ hm hknown
    refine h.next_touched hm hm' others audit before ?_ (.inl ⟨rfl, rfl⟩)
    obtain ⟨row, hrow, htype, hdoc⟩ := before
    refine ⟨u.apply row, by rw [hstep, hrow]; rfl, htype, ?_⟩
    rw [hlog hn]
    exact hdoc.snoc hr
  | ending u e hu ha hw hs hn hknown =>
    rw [show t.announces = false by simp [Txn.announces, ha, hs]] at hm'
    obtain ⟨others, audit⟩ := single (n := u.sequence) (by simp [hu]) ha hn
    obtain ⟨hstep, _⟩ := heff.touched_of_commits hc ha hu
    have before := h.known i rec .final _ _ hm hknown
    refine h.next_touched hm hm' others audit before ?_ (.inl ⟨rfl, rfl⟩)
    obtain ⟨row, hrow, htype, _⟩ := before
    exact ⟨u.apply row, by rw [hstep, hrow]; rfl, htype, hw⟩

/-- A statement that changes nothing about steps, and from which its call learns nothing about them. -/
theorem next_still (hm' : recording.next (some rec) o r = some rec) (hstep : ∀ x n, s.step x n = d.state.step x n)
    (haudit : s.audit = d.state.audit) : StepsRecorded (App.next d i call o k r s) :=
  h.next_untouched hm hm' (fun x n => ⟨hstep x n, by rw [haudit]⟩) (fun _ _ he => .inl (haudit ▸ he)) rfl
    fun p x n => h.known i rec p x n hm

/-- A step that waits for an approval has been announced. -/
theorem next_waiting {x₀ : Id} {k : Option ExecutionStep → Db W CallResult} {step : Option ExecutionStep}
    (hstep : ∀ row, step = some row → d.state.step x₀ row.sequence = some row ∧ row.status = .waitingApproval) :
    StepsRecorded (App.next d i call (.query (.pendingApprovalStep x₀)) k step d.state) := by
  have hm' : (recording (W := W)).next (some rec) (.query (.pendingApprovalStep x₀)) step =
    some { rec with announced := step.toList.map (x₀, ·.sequence) ++ rec.announced } := rfl
  refine h.next_untouched hm hm' (fun _ _ => ⟨rfl, rfl⟩) (fun _ _ he => .inl he) rfl fun p x n hp => ?_
  cases p with
  | fresh => exact h.known i rec .fresh x n hm hp
  | final => exact h.known i rec .final x n hm hp
  | announced =>
    rcases List.mem_append.1 hp with hp | hp
    · obtain ⟨row, hrow, heq⟩ := List.mem_map.1 hp
      obtain ⟨rfl, rfl⟩ := Prod.mk.inj heq
      obtain ⟨hfound, hwaits⟩ := hstep row (Option.mem_toList.1 hrow)
      rcases h.covered x₀ row.sequence row hfound with ⟨j, rec₁, hj, hf⟩ | hreached | ⟨row', hrow', _, hne⟩
      · obtain ⟨row', hrow', _, hpending, _⟩ := h.known j rec₁ .fresh x₀ row.sequence hj
          (by simp [Recorder.known, hf])
        obtain rfl := Option.some.inj (hfound.symm.trans hrow')
        cases hpending.symm.trans hwaits
      · exact hreached
      · obtain rfl := Option.some.inj (hfound.symm.trans hrow')
        exact absurd hwaits hne
    · exact h.known i rec .announced x n hm hp

end Step

section Statements

variable (h : StepsRecorded d) (hm : d.past recording (some {}) i = some rec) (heff : Effect d.state o r s)
include h hm heff

theorem next_other (hm' : recording.next (some rec) o r = some rec) (hc : committed? o r = none)
    (hinsert : ∀ x row, o ≠ .write (.insertStep x row)) (hsave : ∀ x u, o ≠ .write (.saveStep x u)) :
    StepsRecorded (App.next d i call o k r s) := by
  have hc (g : Option StatusGuard) (t : Txn) : ¬Commits o r g t := fun hc' => by simp [commits_iff.1 hc'] at hc
  refine h.next_still hm hm' (fun x n => ?_) (heff.audit_kept hc)
  rcases heff.step x n with he | ⟨_, hchange, _⟩
  · exact he
  · cases hchange with
    | inserted => exact absurd rfl (hinsert _ _)
    | saved => exact absurd rfl (hsave _ _)
    | written _ _ hc' => exact absurd hc' (hc _ _)

omit heff in
theorem next_query {q : Query} {k : q.Reply → Db W CallResult} {r : q.Reply}
    (heff : Effect (W := W) d.state (.query q) r s) (hs : ∀ x, ((d.state.steps x).map (·.sequence)).Nodup) :
    StepsRecorded (App.next d i call (.query q) k r s) := by
  obtain ⟨hr, rfl⟩ := heff.of_query
  cases q with
  | pendingApprovalStep x =>
    refine h.next_waiting hm fun row hrow => ?_
    have hfound : (d.state.steps x).reverse.find? (fun row => row.status = .waitingApproval) = some row :=
      hr.symm.trans hrow
    exact ⟨State.step_of_mem (hs x) (List.mem_reverse.1 (List.mem_of_find?_eq_some hfound)),
      by simpa using List.find?_some hfound⟩
  | _ => exact h.next_other hm heff rfl rfl (fun _ _ => nofun) fun _ _ => nofun

omit heff in
theorem next_commit {attempt : Attempt} {t : Txn} {k : CommitOutcome → Db W CallResult} {outcome : CommitOutcome}
    (heff : Effect (W := W) d.state (.write (.commit attempt t)) outcome s) (hrec : rec.Records t)
    (hok : (t.announces && attempt.givesUp outcome) = false) :
    StepsRecorded (App.next d i call (.write (.commit attempt t)) k outcome s) := by
  by_cases hout : outcome = .committed
  · subst hout
    refine h.next_committed hm (.plain attempt t) hrec ?_ heff
    simp only [recording]
    split <;> rfl
  · obtain ⟨_, rfl⟩ := heff.of_refused hout
    refine h.next_still hm ?_ (fun _ _ => rfl) rfl
    simp only [recording]
    split
    · rename_i hannounces
      rw [hannounces, Bool.true_and] at hok
      simp [hok]
    · rfl

omit heff in
theorem next_commitIf {attempt : Attempt} {g : StatusGuard} {t : Txn} {k : GuardedOutcome → Db W CallResult}
    {outcome : GuardedOutcome} (heff : Effect (W := W) d.state (.write (.commitIf attempt g t)) outcome s)
    (hrec : rec.Records t) (hquiet : t.announces = false) :
    StepsRecorded (App.next d i call (.write (.commitIf attempt g t)) k outcome s) := by
  by_cases hout : outcome = .finished .committed
  · subst hout
    refine h.next_committed hm (.guarded attempt g t) hrec ?_ heff
    rw [hquiet]
    rfl
  · refine h.next_other hm heff rfl ?_ (fun _ _ => nofun) fun _ _ => nofun
    rcases outcome with _ | _ | _ | _
    · rfl
    · exact absurd rfl hout
    · rfl
    · rfl

omit heff in
theorem next_insert {x : Id} {row : ExecutionStep} {k : Bool → Db W CallResult} {inserted : Bool}
    (heff : Effect (W := W) d.state (.write (.insertStep x row)) inserted s) (hnew : NewStep row)
    (hf : rec.fresh = none) : StepsRecorded (App.next d i call (.write (.insertStep x row)) k inserted s) := by
  cases heff with
  | idle hidle =>
    cases hidle
    exact h.next_still hm rfl (fun _ _ => rfl) rfl
  | commit _ hc => cases hc
  | insertStep _ _ hfree =>
    refine h.next_claimed hm rfl hnew.1 rfl (fun y n hy => ?_) ?_ (State.step_eq_none.2 hfree) hf
    · rw [State.insertStep_step hfree, if_neg]
      rintro ⟨rfl, rfl⟩
      exact hy rfl
    · rw [State.insertStep_step hfree, if_pos ⟨rfl, rfl⟩]

end Statements

end StepsRecorded

/-- No execution has two steps of one number. -/
theorem ReachableWithin.steps_numbered (h : ReachableWithin ok c) (x : Id) :
    ((c.state.steps x).map (·.sequence)).Nodup := by
  refine h.invariant (I := fun c => ∀ x, ((c.state.steps x).map (·.sequence)).Nodup) ?_ ?_ ?_ ?_ x
  · intro s hs x
    simp [hs.steps]
  · exact fun _ _ h => h
  · exact fun d change h x => by simpa using h x
  · intro d i call o k r s _ _ _ _ heff h x
    rcases heff.sequences x with he | ⟨row, hfree, he⟩
    · exact he ▸ h x
    · exact he.nodup_iff.2 (List.nodup_cons.2 ⟨hfree, h x⟩)

theorem StepsRecorded.start {s : State W.Domain} (hs : s.Fresh) : StepsRecorded (Config.start s : App W) := by
  have nothing {i : Nat} {rec : Recorder} (hi : (Config.start s : App W).past recording (some {}) i = some rec) :
      rec = {} := (Option.some.inj hi).symm
  have nostep (x : Id) (n : Nat) : s.step x n = none := by simp [State.step, hs.steps]
  refine ⟨by simp, ?_, ?_, ?_, ?_⟩
  · intro x e n he
    simp [hs.audit] at he
  · intro i rec p x n hi hp
    cases nothing hi
    cases p <;> cases hp
  · intro i j rec rec' x n hi _ hf
    cases nothing hi
    cases hf
  · intro x n row hrow
    cases (nostep x n).symm.trans hrow

theorem StepsRecorded.disturb (h : StepsRecorded d) (change : Change) :
    StepsRecorded (d.disturb W.system change) := by
  have same (x : Id) (n : Nat) : Untouched d.state (change.apply d.state) x n :=
    ⟨by simp [State.step], by simp⟩
  refine ⟨h.followed, fun x e n he hn => ?_, fun i rec p x n hi hp => ?_, h.alone, fun x n row hrow => ?_⟩
  · obtain ⟨k, hk, hstep⟩ := h.existing x e n (by simpa using he) hn
    exact ⟨k, hk, (same x k).1 ▸ hstep⟩
  · exact (same x n).reached.2 (h.known i rec p x n hi hp)
  · refine (h.covered x n row ((same x n).1 ▸ hrow)).imp_right fun hreached => ?_
    exact hreached.imp (same x n).reached.2 (same x n).reached.2

theorem ReachableWithin.stepsRecorded (h : ReachableWithin Outspoken c) : StepsRecorded c := by
  refine h.invariant (fun s hs => .start hs) ?_ (fun d change h => h.disturb change) ?_
  · exact fun d call h => ⟨h.followed, h.existing, h.known, h.alone, h.covered⟩
  · intro d i call o k r s hd hw hi hok heff h
    obtain ⟨rec, hm⟩ := Option.ne_none_iff_exists'.1 (h.followed i)
    have hallowed := (hd.monitored Call.code_recording).allowed hw rec hm
    rcases o with q | w | n | o
    · exact h.next_query hm heff hd.steps_numbered
    · cases w with
      | commit attempt t => exact h.next_commit hm heff hallowed hok
      | commitIf attempt g t => exact h.next_commitIf hm heff hallowed.1 hallowed.2
      | insertStep x row => exact h.next_insert hm heff hi hallowed
      | saveStep x u => cases hok
      | _ => exact h.next_other hm heff rfl rfl (fun _ _ => nofun) fun _ _ => nofun
    · exact h.next_other hm heff rfl rfl (fun _ _ => nofun) fun _ _ => nofun
    · exact h.next_other hm heff rfl rfl (fun _ _ => nofun) fun _ _ => nofun

/-- The audit log is complete about the steps of the execution. -/
structure StepsTold {D : Type} (s : State D) (x : Id) : Prop where
  told : ∀ row ∈ s.steps x, row.stepType = .toolCall → Documents (stepLog (s.audit x) row.sequence) row.status
  real : ∀ e ∈ s.audit x, ∀ n : Int, e.stepSequence = some n → ∃ row ∈ s.steps x, n = row.sequence

/-- Where no call is in flight, every tool-call step has been announced once, and what has become of it is the
last that the log says about it: provided that nothing about a step has been kept from the log. -/
theorem steps_told (h : ReachableWithin Outspoken c) (hq : c.Quiescent) (x : Id) : StepsTold c.state x := by
  have calm (i : Nat) (rec : Recorder) (hi : c.past recording (some {}) i = some rec) : rec.fresh = none := by
    have hmon := h.monitored Call.code_recording
    rcases ht : c.threads[i]? with _ | t
    · have unseen : c.past recording (some {}) i = some {} := by
        refine Monitor.after_unseen fun e he hei => ?_
        have := hmon.1 e he
        rw [hei, ← not_le, ← List.getElem?_eq_none_iff] at this
        exact this ht
      obtain rfl := Option.some.inj (unseen.symm.trans hi)
      rfl
    · have hobeys := hmon.2 i t ht
      rcases hp : t.program with a | e | ⟨o, k⟩ <;> rw [hp] at hobeys
      · exact hobeys rec hi
      · exact hobeys rec hi
      · exact absurd hp (hq t (List.mem_of_getElem? ht) o k)
  have records := h.stepsRecorded
  constructor
  · intro row hrow htype
    have hstep := State.step_of_mem (h.steps_numbered x) hrow
    rcases records.covered x row.sequence row hstep with ⟨i, rec, hi, hf⟩ | ⟨row', hrow', _, hdoc⟩ |
      ⟨row', hrow', hfinal, _⟩
    · cases (calm i rec hi).symm.trans hf
    · obtain rfl := Option.some.inj (hstep.symm.trans hrow')
      exact hdoc
    · obtain rfl := Option.some.inj (hstep.symm.trans hrow')
      cases htype.symm.trans hfinal
  · intro e he n hn
    obtain ⟨k, rfl, hstep⟩ := records.existing x e n he hn
    obtain ⟨row, hrow⟩ := Option.ne_none_iff_exists'.1 hstep
    exact ⟨row, State.mem_of_step hrow, by rw [State.step_sequence hrow]⟩

/-- A first submission for the tool. -/
def firstUse (toolName : String) : SubmitActionRequest where
  externalRequestId := "first"
  safeopsAgentId := 0
  toolName := toolName
  arguments := .dict []

def firstUseMoves (toolName : String) : List (Move Call Change) := arrival (.submit 0 (firstUse toolName)) 0 70

/-- The step of a refund has been announced, and its completion recorded. -/
theorem steps_told_refund : StepsTold (afterMoves .allow (firstUseMoves "refund_payment")).state 0 :=
  steps_told (Allowed.reachable (State.bench_fresh .allow) (by decide +kernel)) (by decide +kernel) 0

/-- A tool that only reads fails: its first step ends without an event, its second begins without one. -/
theorem retry_untold :
    ¬∀ (c : App bench) (x : Id), Reachable c → c.Quiescent → StepsTold c.state x := by
  intro h
  have told := (h _ 0 (afterMoves_reachable .allow (firstUseMoves "read_logs")) (by decide +kernel)).told
  have second : ((afterMoves .allow (firstUseMoves "read_logs")).state.steps 0).any (fun row =>
      row.stepType = .toolCall ∧ (stepLog ((afterMoves .allow (firstUseMoves "read_logs")).state.audit 0)
        row.sequence).all fun e => e.eventType ≠ .executionStepStarted) = true := by decide +kernel
  obtain ⟨row, hrow, hunannounced⟩ := List.any_eq_true.1 second
  obtain ⟨htype, hnone⟩ := of_decide_eq_true hunannounced
  obtain ⟨e, rest, hlog, he, _⟩ := told row hrow htype
  rw [hlog] at hnone
  simpa [he] using List.all_eq_true.1 hnone e List.mem_cons_self

end SafeOps
