import SafeOps.Bench
import SafeOps.Model.Effects

/-! Terminal statuses: who may set the status of an execution, and what survives. -/

namespace SafeOps
open Concurrent

variable {W : World} {ok : App W → Statement W → Prop}

theorem GuardedTxn.expected {x : Id} {seq : Nat} {g : StatusGuard} {t : Txn}
    (h : GuardedTxn x seq g t) : ¬g.expected.Terminal := by
  cases h <;> simp [ToolGateway.admitApproval, AgentRuntime.startGuard, AgentRuntime.terminalGuard,
    ExecutionStatus.Terminal]

/-- Keys from `nextId` on are free. -/
def State.Allocated {D : Type} (s : State D) : Prop := ∀ x, s.nextId ≤ x → s.executions x = none

theorem ReachableWithin.allocated {c : App W} (h : ReachableWithin ok c) : c.state.Allocated := by
  refine h.invariant (I := fun c => c.state.Allocated) ?_ (fun _ _ h => h) ?_ ?_
  · exact fun s hs x _ => hs.executions x
  · exact fun d change h x hx => by simpa using h x (by simpa using hx)
  · intro d i call o k r s _ _ _ _ heff h x hx
    rw [App.next_state] at hx ⊢
    rcases heff.executions x with he | ⟨_, _, rfl, _, hn⟩
    · exact he.2 (h x (Nat.le_trans heff.nextId_le hx))
    · exact absurd (hn ▸ hx) (Nat.not_succ_le_self _)

/-- The statement commits a chunk that sets an execution to `RUNNING` although it has ended. -/
def lateResume (c : App W) (e : Statement W) : Bool :=
  match committed? e.op e.reply with
  | some (_, t) => t.resume && (c.state.status t.executionId).any fun s => s.Terminal
  | none => false

/-- The approval engine's `execution.status = RUNNING` is flushed only while the execution has not
ended. -/
def ResumesLive (c : App W) (e : Statement W) : Prop := lateResume c e = false

instance (c : App W) (e : Statement W) : Decidable (ResumesLive c e) :=
  inferInstanceAs (Decidable (_ = _))

theorem ResumesLive.live {c : App W} {e : Statement W} (h : ResumesLive c e)
    {g : Option StatusGuard} {t : Txn} (hc : Commits e.op e.reply g t) (hr : t.resume = true)
    {s : ExecutionStatus} (hs : c.state.status t.executionId = some s) : ¬s.Terminal := by
  simpa [ResumesLive, lateResume, commits_iff.1 hc, hr, hs] using h

/-- Whatever sets the status of an existing execution has found it not ended. -/
theorem StatusChange.live {c : App W} (hids : c.state.Allocated) {x : Id} {e : Statement W}
    {new : ExecutionStatus} (h : StatusChange c.state x e.op e.reply new) (hi : Issued e.op)
    (hok : ResumesLive c e) {s : ExecutionStatus} (hs : c.state.status x = some s) : ¬s.Terminal := by
  obtain ⟨i, o, r⟩ := e
  cases h with
  | inserted row hx =>
    rw [State.status, hids x hx.ge] at hs
    cases hs
  | cancelled now h =>
    rcases h with h | h <;> rw [hs] at h <;> cases h <;> decide
  | moved hc hr hx hg =>
    cases hc with
    | guarded a g t =>
      obtain ⟨_, _, hi⟩ := hi
      obtain rfl := Option.some.inj (hs.symm.trans hg)
      exact hi.expected
  | resumed hc hr hx => exact hok.live hc hr (hx ▸ hs)

/-- A terminal status survives a run in which no statement resumes an execution that has ended. -/
theorem ReachableWithin.terminal (hok : ∀ c e, ok c e → ResumesLive c e) {c d : App W}
    (hc : ReachableWithin ok c) (h : Steps W.system ok c d) {x : Id} {s : ExecutionStatus}
    (hs : c.state.status x = some s) (ht : s.Terminal) : d.state.status x = some s := by
  refine hc.onwards h (I := fun d : App W => d.state.status x = some s) hs (fun _ _ h => h)
    (fun d change h => by simpa using h) ?_
  intro d i call o k r s' hd _ hi hallowed heff h
  rw [App.next_state]
  rcases heff.status x with he | ⟨new, hnew, _⟩
  · exact he.trans h
  · exact absurd ht (StatusChange.live (e := ⟨i, o, r⟩) hd.allocated hnew hi (hok _ _ hallowed) h)

/-- While no decision on an approval resumes an execution that has ended, a terminal status is
never left. -/
theorem terminal_status_absorbing {c d : App W} (hc : ReachableWithin ResumesLive c)
    (h : Steps W.system ResumesLive c d) {x : Id} {s : ExecutionStatus}
    (hs : c.state.status x = some s) (ht : s.Terminal) : d.state.status x = some s :=
  hc.terminal (fun _ _ h => h) h hs ht

/-- Thread 2 approves the refund that execution 0 waits for, and the execution goes on. Then thread 3 cancels it. -/
def approvedMoves : List (Move Call Change) :=
  startMoves ++ gatewayMoves 27 ++ arrival (.approve 3 ⟨0, "operator"⟩) 2 15 ++ arrival (.cancel 0) 3 3

theorem terminal_status_absorbing_cancel :
    ((afterMoves .requireApproval approvedMoves).replay bench.system
      (List.replicate 4 (.run 3))).state.status 0 = some .cancelled :=
  terminal_status_absorbing (Allowed.reachable (State.bench_fresh _) (by decide +kernel))
    (Allowed.steps .refl (by decide +kernel)) (by decide +kernel) (by decide)

/-- A `cancel` that lands between the claim of an approval and its outcome does not survive. -/
theorem terminal_status_left :
    ¬∀ (W : World) (c d : App W), Reachable c → Run W.system c d → ∀ x s,
      c.state.status x = some s → s.Terminal → d.state.status x = some s := by
  intro h
  -- the approving call has only the chunk of the outcome left
  have run := h bench _ _ (replay_reachable (State.bench_fresh .requireApproval)
    (startMoves ++ gatewayMoves 26 ++ arrival (.approve 3 ⟨0, "operator"⟩) 2 13 ++
      arrival (.cancel 0) 3 7)) (run_replay [.run 2, .run 2] .refl) 0 .cancelled (by decide +kernel)
    (by decide)
  exact absurd run (by decide +kernel)

end SafeOps
