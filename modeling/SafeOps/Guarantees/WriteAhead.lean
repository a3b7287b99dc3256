import SafeOps.Bench
import SafeOps.Concurrent.Credit
import SafeOps.Guarantees.AuditLog
import SafeOps.Observers.Announcement

/-! The log is written ahead: what is about to be done is in the log before it is done. -/

namespace SafeOps
open Concurrent Program

variable {W : World} {ok : App W → Statement W → Prop} {c d : App W}

/-- The statement commits a chunk that announces a call of tool `name` for execution `x`. -/
def announces (x : Id) (name : String) (e : Statement W) : Bool :=
  match e with
  | ⟨_, .write (.commit _ t), outcome⟩ =>
    decide ((outcome : CommitOutcome) = .committed) && decide (t.toolAnnounced = some (x, name))
  | _ => false

/-- The statement begins a call of tool `name` for execution `x`. -/
def runs (x : Id) (name : String) (e : Statement W) : Bool :=
  match e.op with
  | .note (.toolExecute tc) => tc.subject = (x, name)
  | _ => false

section Histories

variable {x : Id} {name : String} {i : Nat} {h : List (Statement W)}

/-- A call that has been announced and not made is credit. -/
theorem credit_of_announced (ha : announcing.after none i h = some (x, name)) :
    credit (announces x name) (runs x name) i h = true := by
  induction h with
  | nil => cases ha
  | cons e h ih =>
    by_cases hi : e.thread = i
    · subst hi
      rw [Monitor.after_self] at ha
      by_cases he : announces x name e = true
      · exact credit_earned he
      · have kept (hr : runs x name e = false) (ha : announcing.after none e.thread h = some (x, name)) :
            credit (announces x name) (runs x name) e.thread (e :: h) = true := by
          rw [credit_kept (Bool.eq_false_iff.2 he) hr]
          exact ih ha
        obtain ⟨i, o, r⟩ := e
        rcases o with q | w | n | _
        · exact kept rfl ha
        · cases w with
          | commit attempt t =>
            cases hr : (show CommitOutcome from r) with
            | committed =>
              obtain rfl : r = CommitOutcome.committed := hr
              have ha : t.toolAnnounced.or (announcing.after none i h) = some (x, name) := ha
              rcases ht : t.toolAnnounced with _ | p
              · rw [ht] at ha
                exact kept rfl ha
              · rw [ht] at ha
                exact absurd (by simp [announces, ht.trans ha]) he
            | collision | violation =>
              subst hr
              exact kept rfl ha
          | _ => exact kept rfl ha
        · cases n with
          | toolExecute => cases ha
          | _ => exact kept rfl ha
        · exact kept rfl ha
    · rw [Monitor.after_other hi] at ha
      rw [credit_other hi]
      exact ih ha

end Histories

/-- Whoever calls a tool has announced it. -/
theorem ReachableWithin.onCredit (h : ReachableWithin ok c) (x : Id) (name : String) :
    OnCredit (announces x name) (runs x name) c.history := by
  intro later e earlier hist hr
  have hok := h.lawful Call.code_announcing hist
  obtain ⟨i, o, r⟩ := e
  rcases o with _ | _ | n | _
  · cases hr
  · cases hr
  · cases n with
    | toolExecute tc =>
      have hs : tc.subject = (x, name) := of_decide_eq_true hr
      exact credit_of_announced (hs ▸ hok)
    | _ => cases hr
  · cases hr

/-- The event says that tool `name` is about to be called. -/
def AuditEvent.Announces (name : String) (e : AuditEvent) : Bool := e.toolAnnounced = some name

theorem Txn.mem_of_toolAnnounced {t : Txn} {x : Id} {name : String} (h : t.toolAnnounced = some (x, name)) :
    t.executionId = x ∧ ∃ e ∈ t.audit, e.toolAnnounced = some name := by
  obtain ⟨n, hn, heq⟩ := Option.map_eq_some_iff.1 h
  cases heq
  exact ⟨rfl, List.exists_of_findSome?_eq_some hn⟩

theorem commits_of_announces {x : Id} {name : String} {i : Nat} {o : Op W.Tables} {r : o.Reply}
    (h : announces x name ⟨i, o, r⟩ = true) : ∃ t, Commits o r none t ∧ t.toolAnnounced = some (x, name) := by
  rcases o with _ | w | _ | _
  · cases h
  · cases w with
    | commit attempt t =>
      obtain ⟨hr, ht⟩ : r = CommitOutcome.committed ∧ t.toolAnnounced = some (x, name) := by
        simpa [announces] using h
      subst hr
      exact ⟨t, .plain attempt t, ht⟩
    | _ => cases h
  · cases h
  · cases h

/-- Every announcement is in the log. -/
theorem ReachableWithin.announcements_logged (h : ReachableWithin ok c) (x : Id) (name : String) :
    c.history.countP (announces x name) ≤ (c.state.audit x).countP (AuditEvent.Announces name) := by
  refine h.invariant (I := fun c => c.history.countP (announces x name) ≤
    (c.state.audit x).countP (AuditEvent.Announces name)) ?_ (fun _ _ h => h) ?_ ?_
  · exact fun s _ => Nat.zero_le _
  · exact fun d change h => by simpa using h
  · intro d i call o k r s _ _ _ _ heff h
    rw [App.next_history, App.next_state, List.countP_cons]
    split
    · rename_i he
      obtain ⟨t, hc, ht⟩ := commits_of_announces he
      obtain ⟨rfl, e, hmem, hname⟩ := Txn.mem_of_toolAnnounced ht
      have one : 0 < t.audit.countP (AuditEvent.Announces name) :=
        List.countP_pos_iff.2 ⟨e, hmem, decide_eq_true hname⟩
      rw [heff.audit_of_commits hc, List.countP_append]
      exact Nat.add_le_add h one
    · obtain ⟨later, hlater⟩ := heff.audit_grows x
      rw [← hlater, List.countP_append]
      exact h.trans (Nat.le_add_right _ _)

/-- In every execution, a tool has never been called more often than the log has said that it would be. -/
theorem tool_calls_announced (h : Reachable c) (x : Id) (name : String) :
    c.history.countP (runs x name) ≤ (c.state.audit x).countP (AuditEvent.Announces name) :=
  (spent_le_earned (h.onCredit x name)).trans (h.announcements_logged x name)

theorem tool_calls_announced_refund : 1 ≤ ((afterMoves .allow (startMoves ++ gatewayMoves 24)).state.audit 0).countP
    (AuditEvent.Announces "refund_payment") :=
  (show 1 ≤ (afterMoves .allow (startMoves ++ gatewayMoves 24)).history.countP (runs 0 "refund_payment") by
    decide +kernel).trans (tool_calls_announced (afterMoves_reachable _ _) 0 "refund_payment")

end SafeOps
