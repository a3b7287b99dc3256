import SafeOps.Guarantees.Mediation
import SafeOps.Guarantees.TerminalStatus

/-! No tool runs on an execution that has ended: between the check of its status and the tool call, no
one else may end it. -/

namespace SafeOps
open Concurrent Program

variable {W : World} {ok : App W → Statement W → Prop} {c d : App W}

/-- The execution that the statement has put into a terminal status. -/
def ended (e : Statement W) : Option Id :=
  match e with
  | ⟨_, .write (.cancel x _), cancelled⟩ => if (cancelled : Bool) then some x else none
  | ⟨_, o, r⟩ =>
    match committed? o r with
    | some (some g, t) => if g.new.Terminal then some t.executionId else none
    | _ => none

/-- The gateway call has found its execution able to run, and may still call the tool. -/
def Frame.pendingOn (f : Frame) : Option Id :=
  if f.called = false ∧ f.approval = none then
    match f.execution with
    | some row =>
      if row.status.Terminal ∨ row.status = .waitingApproval then none else some f.call.executionId
    | none => none
  else none

/-- The execution that an approve call, still running, has found waiting for its decision. -/
def approvingOn (c : App W) (j : Nat) : Option Id :=
  match c.threads[j]? with
  | some ⟨.approve _ _, .request _ _⟩ => (c.past endorsing {} j).checked
  | _ => none

/-- Thread `j` has found execution `x` fit for the tool call that it may still make. -/
def Gap (c : App W) (j : Nat) (x : Id) : Prop :=
  (c.past framing none j).bind Frame.pendingOn = some x ∨ approvingOn c j = some x

instance (c : App W) (j : Nat) (x : Id) : Decidable (Gap c j x) :=
  inferInstanceAs (Decidable (_ ∨ _))

/-- The statement ends no execution while another call is between its check of that execution and its
tool call. -/
def GapsClear (c : App W) (e : Statement W) : Prop :=
  ∀ x ∈ ended e, ∀ j < c.threads.length, j ≠ e.thread → ¬Gap c j x

instance (c : App W) (e : Statement W) : Decidable (GapsClear c e) :=
  inferInstanceAs (Decidable (∀ x ∈ ended e, _))

theorem Frame.pendingOn_iff {f : Frame} {x : Id} :
    f.pendingOn = some x ↔ f.called = false ∧ f.approval = none ∧ f.call.executionId = x ∧
      ∃ row, f.execution = some row ∧ ¬row.status.Terminal ∧ row.status ≠ .waitingApproval := by
  unfold pendingOn
  split
  · rename_i h
    rcases he : f.execution with _ | row
    · simp
    · by_cases hr : row.status.Terminal ∨ row.status = .waitingApproval
      · simp only [hr, if_true]
        constructor
        · exact nofun
        · rintro ⟨_, _, _, _, ⟨⟩, ht, hw⟩
          exact absurd hr (not_or.2 ⟨ht, hw⟩)
      · simp only [hr, if_false, Option.some.injEq]
        exact ⟨fun hx => ⟨h.1, h.2, hx, row, rfl, not_or.1 hr⟩, fun hx => hx.2.2.1⟩
  · rename_i h
    exact ⟨nofun, fun hx => absurd ⟨hx.1, hx.2.1⟩ h⟩

theorem Frame.pendingOn_of_admits {f : Frame} {tc : ToolCall} (h : f.Admits tc) :
    f.pendingOn = some tc.executionId := by
  obtain ⟨row, hrow, _, ht, hw⟩ := h.live
  exact pendingOn_iff.2 ⟨h.fresh, h.undecided, h.execution.symm, row, hrow, ht, hw⟩

/-- What puts an execution into a terminal status is one of the statements that end it. -/
theorem StatusChange.ended {s : State W.Domain} {x : Id} {i : Nat} {o : Op W.Tables} {r : o.Reply}
    {new : ExecutionStatus} (h : StatusChange s x o r new) (hi : Issued o) (ht : new.Terminal) :
    SafeOps.ended ⟨i, o, r⟩ = some x := by
  cases h with
  | inserted row hx => exact absurd ht (by rw [hi.1]; decide)
  | cancelled now h => rfl
  | moved hc hr hx hg =>
    cases hc with
    | guarded a g t => simp [SafeOps.ended, committed?, ht, hx]
  | resumed hc hr hx => exact absurd ht (by decide)

theorem ended_cases {e : Statement W} {x : Id} (h : ended e = some x) :
    (∃ now, e = ⟨e.thread, .write (.cancel x now), true⟩) ∨
      ∃ g t, Commits e.op e.reply (some g) t ∧ g.new.Terminal ∧ t.executionId = x := by
  unfold ended at h
  split at h
  · rename_i i y now cancelled
    cases cancelled
    · cases h
    · obtain rfl := Option.some.inj h
      exact .inl ⟨now, rfl⟩
  · split at h
    · rename_i g t hc
      split at h
      · exact .inr ⟨g, t, commits_iff.2 hc, ‹_›, Option.some.inj h⟩
      · cases h
    · cases h

/-- A statement that ends an execution leaves it in a terminal status. -/
theorem Effect.ended {s s' : State W.Domain} {i : Nat} {o : Op W.Tables} {r : o.Reply}
    (h : Effect s o r s') (hi : Issued o) {x : Id} (he : SafeOps.ended ⟨i, o, r⟩ = some x) :
    ∃ status, s'.status x = some status ∧ status.Terminal := by
  rcases ended_cases he with ⟨now, heq⟩ | ⟨g, t, hc, ht, rfl⟩
  · cases heq
    cases h with
    | cancel y now hy =>
      refine ⟨.cancelled, ?_, by decide⟩
      rcases hy with hy | hy <;> obtain ⟨row, hrow, _⟩ := Option.map_eq_some_iff.1 hy <;> simp [hrow]
    | idle h => cases h
    | commit _ hc => cases hc
  · obtain ⟨_, _, hg, startedAt, rfl⟩ := h.of_commits hc
    have hr : t.resume = false := by
      cases hc with
      | guarded => obtain ⟨_, _, hi⟩ := hi; exact hi.resume
    exact ⟨g.new, by rw [State.applyTxn_status, guarded_status t (some g) _ hg]; simp [hr], ht⟩

/-- The statement ends some execution, by its own doing. -/
def Ending : Op W.Tables → Prop
  | .write (.cancel _ _) => True
  | .write (.commitIf _ g _) => g.new.Terminal
  | _ => False

theorem ending_of_ended {i : Nat} {o : Op W.Tables} {r : o.Reply} {x : Id}
    (h : ended ⟨i, o, r⟩ = some x) : Ending o := by
  rcases ended_cases h with ⟨now, heq⟩ | ⟨g, t, hc, ht, _⟩
  · cases heq
    trivial
  · cases hc
    exact ht

/-- Deciding an approval ends no execution. -/
theorem ApprovalEngine.resolve_ends (a : Id) (operator : Operator) (approve : Bool)
    (reason : Option String) : (resolve a operator approve reason : Db W ApprovalActionResult).Uses
      fun o => ¬Ending o := by
  refine (resolve_built a operator approve reason).uses (fun o ho => ?_) (fun _ => id) fun x seq rows h => ?_
  · rcases o with _ | w | _ | _
    · exact id
    · cases w <;> first | exact id | exact ho.elim
    · exact id
    · exact id
  · cases h with
    | routine => exact fun _ => id
    | resolution => exact fun _ => id

/-- Where no tool call is pending on an execution that someone ends, and no one resumes an ended one. -/
structure EndsClear (c : App W) (e : Statement W) : Prop where
  resumes : ResumesLive c e
  gaps : GapsClear c e

instance (c : App W) (e : Statement W) : Decidable (EndsClear c e) :=
  decidable_of_iff (ResumesLive c e ∧ GapsClear c e) ⟨fun h => ⟨h.1, h.2⟩, fun h => ⟨h.1, h.2⟩⟩

theorem Gap.thread (h : ReachableWithin ok c) {j : Nat} {x : Id} (hg : Gap c j x) :
    j < c.threads.length := by
  rcases hg with hg | hg
  · by_contra hj
    have unseen : c.past framing none j = none := Monitor.after_unseen fun e he => by
      have := (h.monitored Call.code_framing).1 e he
      omega
    rw [unseen] at hg
    cases hg
  · unfold approvingOn at hg
    split at hg
    · exact (List.getElem?_eq_some_iff.1 ‹_›).1
    · cases hg

/-- The statement has found execution `x` not ended. -/
def FindsLive (x : Id) (e : Statement W) : Prop :=
  ∃ row : Execution, ¬row.status.Terminal ∧ e = ⟨e.thread, .query (.execution x), some row⟩

/-- A gateway call comes to wait for its tool call by reading its execution. -/
theorem Frame.pendingOn_observe {f : Frame} {i : Nat} {o : Op W.Tables} {r : o.Reply} {x : Id}
    (hx : (f.observe o r).pendingOn = some x) :
    f.pendingOn = some x ∨ FindsLive x (⟨i, o, r⟩ : Statement W) := by
  have commit (t : Txn) (hx : (f.commit t).pendingOn = some x) : f.pendingOn = some x := by
    obtain ⟨hc, ha, hcall, hrow⟩ := pendingOn_iff.1 hx
    refine pendingOn_iff.2 ⟨hc, ?_, hcall, hrow⟩
    simp only [Frame.commit] at ha
    split at ha
    · cases ha
    · exact ha
  rcases o with q | w | n | _
  · cases q with
    | execution y =>
      simp only [observe] at hx
      split at hx
      · rename_i hy
        obtain ⟨_, _, hcall, row, hrow, ht, _⟩ := pendingOn_iff.1 hx
        obtain rfl : r = some row := hrow
        obtain rfl : y = x := hy.trans hcall
        exact .inr ⟨row, ht, rfl⟩
      · exact .inl hx
    | tool | permission =>
      simp only [observe] at hx
      split at hx <;> exact .inl hx
    | _ => exact .inl hx
  · cases w with
    | commit | commitIf =>
      simp only [observe] at hx
      split at hx
      · exact .inl (commit _ hx)
      · exact .inl hx
    | _ => exact .inl hx
  · cases n with
    | toolExecute tc => exact absurd (pendingOn_iff.1 hx).1 (by simp [observe])
    | _ => exact .inl hx
  · exact .inl hx

theorem Frame.pendingOn_step {m : Option Frame} {i : Nat} {o : Op W.Tables} {r : o.Reply} {x : Id}
    (hx : (framing.next m o r).bind pendingOn = some x) :
    m.bind pendingOn = some x ∨ FindsLive x (⟨i, o, r⟩ : Statement W) := by
  have observed (hx : (m.map (·.observe o r)).bind pendingOn = some x) :
      m.bind pendingOn = some x ∨ FindsLive x (⟨i, o, r⟩ : Statement W) := by
    cases m with
    | none => cases hx
    | some f => exact pendingOn_observe hx
  rcases o with _ | _ | n | _
  · exact observed hx
  · exact observed hx
  · cases n with
    | gatewayEnter | gatewayReturn | gatewayRaise => cases hx
    | _ => exact observed hx
  · exact observed hx

theorem endorsing_checked {m : Endorsement} {i : Nat} {o : Op W.Tables} {r : o.Reply} {x : Id}
    (hx : (endorsing.next m o r).checked = some x) :
    m.checked = some x ∨ FindsLive x (⟨i, o, r⟩ : Statement W) := by
  rcases o with q | _ | n | _
  · cases q with
    | execution y =>
      simp only [endorsing] at hx
      split at hx
      · rename_i hr
        obtain rfl := Option.some.inj hx
        obtain ⟨row, hrow, hw⟩ := (Option.any_eq_true _ _).1 hr
        exact .inr ⟨row, by rw [of_decide_eq_true hw]; decide, by rw [← hrow]⟩
      · cases hx
    | _ => exact .inl hx
  · exact .inl hx
  · cases n with
    | toolExecute => cases hx
    | _ => exact .inl hx
  · exact .inl hx

/-- What has ended is in a terminal status; what a tool call is pending on is not. -/
structure EndsHold (c : App W) : Prop where
  numbered : c.Numbered
  ended : ∀ e ∈ c.history, ∀ x, ended e = some x → ∃ s, c.state.status x = some s ∧ s.Terminal
  gap : ∀ j x, Gap c j x → ∃ s, c.state.status x = some s ∧ ¬s.Terminal

theorem FindsLive.status {i : Nat} {o : Op W.Tables} {r : o.Reply} {s s' : State W.Domain} {x : Id}
    (h : FindsLive x (⟨i, o, r⟩ : Statement W)) (heff : Effect s o r s') :
    ∃ status, s'.status x = some status ∧ ¬status.Terminal := by
  obtain ⟨row, ht, he⟩ := h
  cases he
  obtain ⟨hr, rfl⟩ := heff.of_query
  exact ⟨row.status, by rw [State.status, ← show some row = s'.executions x from hr]; rfl, ht⟩

/-- A status stays live through a statement that does not end the execution. -/
theorem live_kept {i : Nat} {o : Op W.Tables} {r : o.Reply} {s : State W.Domain} {x : Id}
    (heff : Effect d.state o r s) (hi : Issued o) (he : ended (⟨i, o, r⟩ : Statement W) ≠ some x)
    (h : ∃ status, d.state.status x = some status ∧ ¬status.Terminal) :
    ∃ status, s.status x = some status ∧ ¬status.Terminal := by
  obtain ⟨status, hs, ht⟩ := h
  rcases heff.status x with hsame | ⟨new, hnew, hs'⟩
  · exact ⟨status, hsame.trans hs, ht⟩
  · exact ⟨new, hs', fun ht' => he (hnew.ended hi ht')⟩

/-- The call that is in a gap does not end its own execution. -/
theorem Gap.ends (h : ReachableWithin ok d) {i : Nat} {call : Call} {o : Op W.Tables}
    {k : o.Reply → Db W CallResult} (hw : d.threads[i]? = some ⟨call, .request o k⟩) {x : Id}
    (hg : Gap d i x) : ¬Ending o := by
  rcases hg with hg | hg
  · obtain ⟨f, hf, _⟩ := Option.bind_eq_some_iff.1 hg
    have hok := ((h.monitored Call.code_framing).allowed hw).2
    rw [hf] at hok
    rcases o with _ | w | _ | _
    · exact id
    · cases w with
      | cancel => cases hok
      | commitIf attempt g t =>
        rcases hok.1 with hm | rfl
        · cases hm
        · exact (by decide : ¬ExecutionStatus.waitingApproval.Terminal)
      | _ => exact id
    · exact id
    · exact id
  · have happrove : ∃ a operator, call = .approve a operator := by
      unfold approvingOn at hg
      rw [hw] at hg
      split at hg
      · rename_i he
        cases he
        exact ⟨_, _, rfl⟩
      · cases hg
    refine h.confined (K := fun call o => (∃ a operator, call = .approve a operator) → ¬Ending o)
      (fun call => ?_) hw happrove
    cases call with
    | approve a operator =>
      exact (Uses.bind (ApprovalEngine.resolve_ends a operator true none) fun _ => uses_ret _).mono
        fun _ h _ => h
    | _ => exact (Call.code_issued _).mono fun _ _ h => by obtain ⟨_, _, ⟨⟩⟩ := h

/-- A call that has only arrived is in no gap. -/
theorem Gap.spawned {call : Call} {j : Nat} {x : Id} (hg : Gap (d.spawn W.system call) j x)
    (hn : d.Numbered) : Gap d j x := by
  refine hg.imp_right fun hg => ?_
  unfold approvingOn at hg ⊢
  rw [Config.past_spawn] at hg
  by_cases hj : j < d.threads.length
  · rwa [Config.spawn, List.getElem?_append_left hj] at hg
  · have unseen : d.past endorsing {} j = {} := Monitor.after_unseen fun e he => by
      have := hn e he
      omega
    rw [unseen] at hg
    split at hg <;> cases hg

theorem approvingOn_next {i : Nat} {call : Call} {o : Op W.Tables} {k : o.Reply → Db W CallResult}
    {r : o.Reply} {s : State W.Domain} (hw : d.threads[i]? = some ⟨call, .request o k⟩) {j : Nat} {x : Id}
    (hx : approvingOn (App.next d i call o k r s) j = some x) :
    approvingOn d j = some x ∨ i = j ∧ FindsLive x (⟨i, o, r⟩ : Statement W) := by
  unfold approvingOn at hx ⊢
  rw [App.next_threads, App.next_past] at hx
  by_cases hij : i = j
  · subst hij
    rw [List.getElem?_set_self (List.getElem?_eq_some_iff.1 hw).1, if_pos rfl] at hx
    split at hx
    · rename_i he
      obtain ⟨rfl, _⟩ := Thread.mk.inj (Option.some.inj he)
      rw [hw]
      exact (endorsing_checked (i := i) hx).imp_right fun h => ⟨rfl, h⟩
    · cases hx
  · rw [List.getElem?_set_ne hij, if_neg hij] at hx
    exact .inl hx

/-- A thread comes into a gap by finding the execution live. -/
theorem Gap.next {i : Nat} {call : Call} {o : Op W.Tables} {k : o.Reply → Db W CallResult}
    {r : o.Reply} {s : State W.Domain} (hw : d.threads[i]? = some ⟨call, .request o k⟩) {j : Nat} {x : Id}
    (hg : Gap (App.next d i call o k r s) j x) :
    Gap d j x ∨ i = j ∧ FindsLive x (⟨i, o, r⟩ : Statement W) := by
  rcases hg with hg | hg
  · rw [App.next_past] at hg
    split at hg
    · exact (Frame.pendingOn_step (i := i) hg).imp .inl fun h => ⟨‹_›, h⟩
    · exact .inl (.inl hg)
  · exact (approvingOn_next hw hg).imp_left .inr

theorem ReachableWithin.endsHold (hok : ∀ c e, ok c e → EndsClear c e) (h : ReachableWithin ok c) :
    EndsHold c := by
  refine h.invariant ?_ ?_ ?_ ?_
  · intro s hs
    refine ⟨by simp [Config.Numbered], by simp, fun j x hg => ?_⟩
    rcases hg with hg | hg
    · simp at hg
    · simp [approvingOn, Config.start] at hg
  · intro d call h
    refine ⟨fun e he => ?_, h.ended, fun j x hg => h.gap j x (hg.spawned h.numbered)⟩
    have := h.numbered e he
    simp only [Config.spawn, List.length_append]
    omega
  · intro d change h
    exact ⟨h.numbered, by simpa using h.ended, fun j x hg => by simpa using h.gap j x hg⟩
  · intro d i call o k r s hd hw hi hallowed heff h
    have hclear := hok _ _ hallowed
    refine ⟨fun e he => ?_, fun e he x hx => ?_, fun j x hg => ?_⟩
    · rw [App.next_threads, List.length_set]
      rcases List.mem_cons.1 he with rfl | he
      · exact (List.getElem?_eq_some_iff.1 hw).1
      · exact h.numbered e he
    · rcases List.mem_cons.1 he with rfl | he
      · exact heff.ended hi hx
      · obtain ⟨status, hs, ht⟩ := h.ended e he x hx
        rcases heff.status x with hsame | ⟨new, hnew, _⟩
        · exact ⟨status, hsame.trans hs, ht⟩
        · exact absurd ht (StatusChange.live (e := ⟨i, o, r⟩) hd.allocated hnew hi hclear.resumes hs)
    · rcases hg.next hw with hold | ⟨rfl, hfinds⟩
      · refine live_kept (i := i) heff hi (fun he => ?_) (h.gap j x hold)
        by_cases hij : j = i
        · subst hij
          exact hold.ends hd hw (ending_of_ended he)
        · exact hclear.gaps x he j (hold.thread hd) hij hold
      · exact hfinds.status heff

/-- A tool call begins in a gap of its own execution. -/
theorem Gap.of_toolExecute (h : ReachableWithin ok d) {i : Nat} {call : Call} {tc : ToolCall}
    {k : Unit → Db W CallResult} (hw : d.threads[i]? = some ⟨call, .request (.note (.toolExecute tc)) k⟩) :
    Gap d i tc.executionId := by
  rcases ha : tc.approvalId with _ | a
  · obtain ⟨f, hf, hadm⟩ := ((h.monitored Call.code_framing).allowed hw).2 ha
    exact .inl (Option.bind_eq_some_iff.2 ⟨f, hf, Frame.pendingOn_of_admits hadm⟩)
  · obtain ⟨hchecked, _⟩ := (h.monitored Call.code_endorsing).allowed hw a ha
    obtain ⟨operator, rfl⟩ := h.confined (K := Approving) Call.code_approving hw a ha
    refine .inr ?_
    unfold approvingOn
    rw [hw]
    exact hchecked

/-- The statement begins a tool call for execution `x`. -/
def runsToolOn (x : Id) (e : Statement W) : Bool :=
  match e.op with
  | .note (.toolExecute tc) => tc.executionId = x
  | _ => false

/-- Two executions are started. While a gateway call for execution 0 has only the tool call left to make, execution 1
is cancelled; execution 0 is cancelled once the gateway call has returned. -/
def cancelledApartMoves : List (Move Call Change) :=
  startMoves ++ arrival (.startExecution 0 "refund" none) 1 5 ++
    arrival (.gateway ⟨0, 0, "refund_payment", .dict []⟩ none) 2 23 ++ arrival (.cancel 1) 3 7 ++
    List.replicate 6 (.run 2) ++ arrival (.cancel 0) 4 7

end SafeOps
