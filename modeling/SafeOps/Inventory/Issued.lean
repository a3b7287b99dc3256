import SafeOps.Inventory.Application
import SafeOps.Model.Effects

/-! Every single statement a call issues, chunks taken apart into their transactions. -/

namespace SafeOps
open Concurrent Program

variable {W : World}

/-- The transactions that the runtime and the gateway commit without a status guard. -/
inductive RuntimeTxn (x : Id) (seq : Nat) : Txn → Prop
  | routine {t : Txn} : Routine x seq t → RuntimeTxn x seq t
  | startedLate (actor objective : String) :
      RuntimeTxn x seq (AgentRuntime.startedRows x actor objective seq)
  | finalized (f : AgentRuntime.Finalization) : f.executionId = x → ¬f.eventType.AboutStatus →
      f.step.status = .completed ∨ f.step.status = .waitingApproval → RuntimeTxn x seq (f.rows seq)
  | alreadyTerminal (f : AgentRuntime.Finalization) (attempted actual : ExecutionStatus) :
      f.executionId = x → f.step.status ≠ .waitingApproval → f.step.status ≠ .pending →
      RuntimeTxn x seq (f.alreadyTerminalRows attempted actual seq)

/-- All transactions committed without a status guard. -/
inductive PlainTxn (x : Id) (seq : Nat) : Txn → Prop
  | runtime {t : Txn} : RuntimeTxn x seq t → PlainTxn x seq t
  | resolution {a : Id} {row : ApprovalRequest} {t : Txn} : row.executionId = x →
      ResolutionChunk a row seq t → PlainTxn x seq t
  | cancelled : PlainTxn x seq (AgentRuntime.eventRows x .executionCancelled [] seq)

/-- The transactions that also move the execution from one status to another. -/
inductive GuardedTxn (x : Id) (seq : Nat) : StatusGuard → Txn → Prop
  | approval {W : World} (g : ToolGateway.Admitted W) (escalated : Bool) (a : Id)
      (row : ApprovalRequest) (requestedAt : Time) : g.call.executionId = x → row.executionId = x →
      row.status = .pending → row.toolRequestId = g.requestId →
      GuardedTxn x seq ToolGateway.admitApproval
        (ToolGateway.approvalRows g escalated a row requestedAt seq)
  | started (actor objective : String) :
      GuardedTxn x seq AgentRuntime.startGuard (AgentRuntime.startedRows x actor objective seq)
  | terminal (f : AgentRuntime.Finalization) (status : ExecutionStatus) (completedAt : Time) :
      f.executionId = x → status.terminalEvent = some f.eventType → status ≠ .cancelled →
      f.step.status ≠ .waitingApproval → f.step.status ≠ .pending →
      GuardedTxn x seq (AgentRuntime.terminalGuard status completedAt) (f.rows seq)

theorem ResolutionChunk.execution {a : Id} {row : ApprovalRequest} {seq : Nat} {t : Txn}
    (h : ResolutionChunk a row seq t) : t.executionId = row.executionId := by
  cases h <;> rfl

theorem ResolutionChunk.numbered {a : Id} {row : ApprovalRequest} {seq : Nat} {t : Txn}
    (h : ResolutionChunk a row seq t) : t.Numbered seq := by
  cases h <;> rfl

theorem RuntimeTxn.execution {x : Id} {seq : Nat} {t : Txn} (h : RuntimeTxn x seq t) :
    t.executionId = x := by
  cases h with
  | routine h => exact h.execution
  | finalized f hx => exact hx
  | alreadyTerminal f _ _ hx => exact hx
  | startedLate => rfl

theorem RuntimeTxn.numbered {x : Id} {seq : Nat} {t : Txn} (h : RuntimeTxn x seq t) :
    t.Numbered seq := by
  cases h with
  | routine h => exact h.numbered
  | startedLate | finalized | alreadyTerminal => rfl

theorem RuntimeTxn.approval {x : Id} {seq : Nat} {t : Txn} (h : RuntimeTxn x seq t) :
    t.approval = none := by
  cases h with
  | routine h => exact h.approval
  | startedLate | finalized | alreadyTerminal => rfl

theorem PlainTxn.execution {x : Id} {seq : Nat} {t : Txn} (h : PlainTxn x seq t) :
    t.executionId = x := by
  cases h with
  | runtime h => exact h.execution
  | resolution hx h => exact h.execution.trans hx
  | cancelled => rfl

theorem PlainTxn.numbered {x : Id} {seq : Nat} {t : Txn} (h : PlainTxn x seq t) : t.Numbered seq := by
  cases h with
  | runtime h => exact h.numbered
  | resolution _ h => exact h.numbered
  | cancelled => rfl

theorem GuardedTxn.execution {x : Id} {seq : Nat} {g : StatusGuard} {t : Txn}
    (h : GuardedTxn x seq g t) : t.executionId = x := by
  cases h with
  | approval g _ _ _ _ hx => exact hx
  | started => rfl
  | terminal f _ _ hx => exact hx

theorem GuardedTxn.resume {x : Id} {seq : Nat} {g : StatusGuard} {t : Txn}
    (h : GuardedTxn x seq g t) : t.resume = false := by
  cases h <;> rfl

theorem GuardedTxn.numbered {x : Id} {seq : Nat} {g : StatusGuard} {t : Txn}
    (h : GuardedTxn x seq g t) : t.Numbered seq := by
  cases h with
  | approval g escalated a row at' => exact ToolGateway.approvalRows_numbered g seq escalated a row at'
  | started | terminal => rfl

/-- A chunk inserts pending approvals only, and under a guard only. -/
theorem PlainTxn.inserts {x : Id} {seq : Nat} {t : Txn} (h : PlainTxn x seq t) (a : Id)
    (row : ApprovalRequest) : t.approval ≠ some (.insert a row) := by
  cases h with
  | runtime h => simp [h.approval]
  | resolution _ h => cases h <;> exact nofun
  | cancelled => exact nofun

theorem GuardedTxn.inserts {x : Id} {seq : Nat} {g : StatusGuard} {t : Txn}
    (h : GuardedTxn x seq g t) {w : ApprovalWrite} (ht : t.approval = some w) :
    ∃ a row, w = .insert a row ∧ row.status = .pending ∧ row.executionId = x := by
  cases h with
  | approval g escalated a row at' hg hx hs hr => exact ⟨a, row, (Option.some.inj ht).symm, hs, hx⟩
  | started | terminal => cases ht

/-- The rows commit one of `P`, or one of `G` under its guard. -/
def Rows.Within (P : Txn → Prop) (G : StatusGuard → Txn → Prop) : Rows W → Prop
  | .plain t => P t
  | .guarded g won lost => G g won ∧ lost.Yields IsRead P

theorem Rows.Within.mono {P P' : Txn → Prop} {G G' : StatusGuard → Txn → Prop} {rows : Rows W}
    (h : rows.Within P G) (hP : ∀ t, P t → P' t) (hG : ∀ g t, G g t → G' g t) :
    rows.Within P' G' := by
  cases rows with
  | plain t => exact hP t h
  | guarded g won lost => exact ⟨hG g won h.1, h.2.mono (fun _ h => h) hP⟩

theorem GatewayChunk.within {x : Id} {seq : Nat} {rows : Rows W} (h : GatewayChunk x seq rows) :
    rows.Within (RuntimeTxn x seq) (GuardedTxn x seq) := by
  cases h with
  | routine h => exact .routine h
  | approval g escalated a row at' hg hx hs hr =>
    exact ⟨.approval g escalated a row at' hg hx hs hr, trivial⟩

theorem RuntimeChunk.within {x : Id} {seq : Nat} {rows : Rows W} (h : RuntimeChunk x seq rows) :
    rows.Within (RuntimeTxn x seq) (GuardedTxn x seq) := by
  cases h with
  | routine h _ => exact .routine h
  | started actor objective => exact ⟨.started actor objective, .startedLate actor objective⟩
  | finalized f hx ht hs => exact .finalized f hx ht hs
  | terminal f status at' hx ht hc hw hp =>
    refine ⟨.terminal f status at' hx ht hc hw hp, trivial, fun execution => ?_⟩
    cases execution with
    | none => trivial
    | some row => exact .alreadyTerminal f status row.status hx hw hp

theorem Chunk.within {x : Id} {seq : Nat} {rows : Rows W} (h : Chunk x seq rows) :
    rows.Within (PlainTxn x seq) (GuardedTxn x seq) := by
  rcases h with h | h | h | h
  · exact h.within.mono (fun _ => .runtime) fun _ _ h => h
  · exact h.within.mono (fun _ => .runtime) fun _ _ h => h
  · cases h with
    | routine h _ => exact .runtime (.routine h)
    | resolution hx h => exact .resolution hx h
  · cases h with
    | cancelled => exact .cancelled

/-- The statements of the application. -/
def Issued : Op W.Tables → Prop
  | .write (.commit _ t) => ∃ x seq, PlainTxn x seq t
  | .write (.commitIf _ g t) => ∃ x seq, GuardedTxn x seq g t
  | o => AnyOp o

theorem AnyOp.issued {o : Op W.Tables} (h : AnyOp o) : Issued o := by
  rcases o with _ | w | _ | _
  · trivial
  · cases w <;> first | exact h | exact h.elim
  · trivial
  · trivial

section Rules

variable {K K' : Op W.Tables → Prop} {C : Id → Nat → Rows W → Prop}

/-- The statements of `commit_chunk` are those of its builder and of committing its rows. -/
theorem commitRounds_use {x : Id} {build : Nat → Nat → Db W (Rows W)}
    (hseq : K (.query (.auditSequence x)))
    (hbuild : ∀ number seq, (build number seq).Yields K fun rows => ∀ attempt, (rows.commit attempt).Uses K) :
    (commitRows x build).Uses K := by
  unfold commitRows
  generalize [0, 1, 2, 3, 4] = attempts
  induction attempts with
  | nil => trivial
  | cons number later ih =>
    refine .bind (.bind ((uses_call _).2 hseq) fun tail => ?_) fun outcome => ?_
    · exact (hbuild number _).uses fun rows hrows => hrows _
    · cases outcome with
      | committed => trivial
      | violation => trivial
      | collision => exact ih

theorem commitChunk_uses {x : Id} {build : Nat → Txn} (hseq : K (.query (.auditSequence x)))
    (h : ∀ seq attempt, K (.write (.commit attempt (build seq)))) :
    (commitChunk x build : Db W Unit).Uses K :=
  commitRounds_use hseq fun _ seq attempt => (uses_call _).2 (h seq attempt)

/-- A chunk whose builder reads, and whose transactions are listed. -/
theorem commitRows_uses {x : Id} {build : Nat → Nat → Db W (Rows W)} (hread : ∀ o, IsRead o → K o)
    (hseq : K (.query (.auditSequence x)))
    (hbuild : ∀ attempt seq, (build attempt seq).Yields IsRead fun rows => rows.Within
      (fun t => ∀ attempt, K (.write (.commit attempt t)))
      fun g t => ∀ attempt, K (.write (.commitIf attempt g t))) : (commitRows x build).Uses K := by
  refine commitRounds_use hseq fun number seq => (hbuild number seq).mono hread fun rows hrows attempt => ?_
  cases rows with
  | plain t => exact (uses_call _).2 (hrows _)
  | guarded g won lost =>
    refine .bind ((uses_call _).2 (hrows.1 _)) fun outcome => ?_
    cases outcome with
    | finished outcome => trivial
    | guardLost => exact (hrows.2.mono hread fun _ h => h).uses fun t ht => (uses_call _).2 (ht _)

/-- The single statements of a program, its chunks and gateway calls taken apart. -/
theorem pieces_use {G : Prop} {ε α : Type} {p : Program W.statements ε α}
    (h : Composed (Piece K C G) p) (hK : ∀ o, K o → K' o) (hread : ∀ q, K' (.query q))
    (hrows : ∀ x seq rows, C x seq rows → rows.Within
      (fun t => ∀ attempt, K' (.write (.commit attempt t)))
      fun g t => ∀ attempt, K' (.write (.commitIf attempt g t)))
    (hgateway : G → ∀ call context, (ToolGateway.execute call context : Db W _).Uses K') :
    p.Uses K' := by
  refine Composed.uses h fun h => ?_
  cases h with
  | statements h => exact h.mono hK
  | chunk x build h =>
    refine commitRows_uses (fun o ho => ?_) (hread _) fun attempt seq =>
      (h attempt seq).mono (fun _ h => h) (hrows x seq)
    cases o with
    | query q => exact hread q
    | _ => exact ho.elim
  | gateway allowed call context => exact hgateway allowed call context

theorem Built.uses {ε α : Type} {p : Program W.statements ε α} (h : Built K C p)
    (hK : ∀ o, K o → K' o) (hread : ∀ q, K' (.query q))
    (hrows : ∀ x seq rows, C x seq rows → rows.Within
      (fun t => ∀ attempt, K' (.write (.commit attempt t)))
      fun g t => ∀ attempt, K' (.write (.commitIf attempt g t))) : p.Uses K' :=
  pieces_use h hK hread hrows False.elim

end Rules

theorem Call.code_issued (call : Call) : (call.code : Db W CallResult).Uses Issued :=
  call.code_built.uses (fun _ => AnyOp.issued) (fun _ => trivial) fun _ _ _ h =>
    h.within.mono (fun _ h _ => ⟨_, _, h⟩) fun _ _ h _ => ⟨_, _, h⟩

section Reachability

variable {ok : App W → Statement W → Prop} {c : App W}

theorem ReachableWithin.confined (h : ReachableWithin ok c) {K : Call → Op W.Tables → Prop}
    (hcode : ∀ call : Call, (call.code : Db W CallResult).Uses (K call)) {i : Nat} {call : Call}
    {o : Op W.Tables} {k : o.Reply → Db W CallResult}
    (hw : c.threads[i]? = some ⟨call, .request o k⟩) : K call o := by
  obtain ⟨_, ⟨s, _, rfl⟩, hs⟩ := h
  exact (hs.confined (K := K) hcode (by simp [Config.start]) _ (List.mem_of_getElem? hw)).1

theorem ReachableWithin.attributed (h : ReachableWithin ok c) {K : Call → Op W.Tables → Prop}
    (hcode : ∀ call : Call, (call.code : Db W CallResult).Uses (K call)) :
    ∀ e ∈ c.history, ∃ t, c.threads[e.thread]? = some t ∧ K t.call e.op := by
  obtain ⟨_, ⟨s, _, rfl⟩, hs⟩ := h
  exact hs.attributed hcode (by simp [Config.start]) (by simp [Config.start])

theorem ReachableWithin.issued (h : ReachableWithin ok c) {i : Nat} {call : Call} {o : Op W.Tables}
    {k : o.Reply → Db W CallResult} (hw : c.threads[i]? = some ⟨call, .request o k⟩) : Issued o :=
  h.confined (K := fun _ => Issued) Call.code_issued hw

/-- The invariant rule of the application. -/
theorem ReachableWithin.invariant {I : App W → Prop} (h : ReachableWithin ok c)
    (start : ∀ s : State W.Domain, s.Fresh → I (Config.start s))
    (spawn : ∀ d call, I d → I (d.spawn W.system call))
    (disturb : ∀ d change, I d → I (d.disturb W.system change))
    (next : ∀ (d : App W) i call (o : Op W.Tables) k (r : o.Reply) s, ReachableWithin ok d →
      d.threads[i]? = some ⟨call, .request o k⟩ → Issued o → ok d ⟨i, o, r⟩ →
      Effect d.state o r s → I d → I (App.next d i call o k r s)) : I c := by
  obtain ⟨_, ⟨s, hf, rfl⟩, hs⟩ := h
  refine hs.invariant (I := I) (start s hf) spawn disturb ?_
  intro d i call o k hd hw hok hI
  have hr : ReachableWithin ok d := ⟨_, ⟨s, hf, rfl⟩, hd⟩
  exact next d i call o k _ _ hr hw (hr.issued hw) hok (W.exec_effect o d.state) hI

/-- The rule for runs from a configuration that has been reached already. -/
theorem ReachableWithin.onwards {I : App W → Prop} {d : App W} (hc : ReachableWithin ok c)
    (h : Steps W.system ok c d) (start : I c)
    (spawn : ∀ d call, I d → I (d.spawn W.system call))
    (disturb : ∀ d change, I d → I (d.disturb W.system change))
    (next : ∀ (d : App W) i call (o : Op W.Tables) k (r : o.Reply) s, ReachableWithin ok d →
      d.threads[i]? = some ⟨call, .request o k⟩ → Issued o → ok d ⟨i, o, r⟩ →
      Effect d.state o r s → I d → I (App.next d i call o k r s)) : I d := by
  refine h.invariant (I := I) start spawn disturb ?_
  intro d i call o k hd hw hok hI
  obtain ⟨c₀, h₀, hs⟩ := hc
  have hr : ReachableWithin ok d := ⟨c₀, h₀, hs.trans hd⟩
  exact next d i call o k _ _ hr hw (hr.issued hw) hok (W.exec_effect o d.state) hI

theorem ReachableWithin.monitoredBy {μ : Type} {M : Call → Monitor W.statements μ} {m : Call → μ}
    {Q : Call → CallResult → μ → Prop} {X : Call → Failure → μ → Prop} (h : ReachableWithin ok c)
    (hcode : ∀ call : Call, (call.code : Db W CallResult).Obeys (M call) (Q call) (X call) (m call)) :
    c.MonitoredBy M m Q X := by
  obtain ⟨_, ⟨s, _, rfl⟩, hs⟩ := h
  exact hs.monitoredBy (Config.monitoredBy_start s) hcode

/-- Every statement was answered in a configuration on the way. -/
theorem ReachableWithin.answered (h : ReachableWithin ok c) {e : Statement W} (he : e ∈ c.history) :
    ∃ b t k, ReachableWithin ok b ∧ Steps W.system ok b c ∧ c.threads[e.thread]? = some t ∧
      b.threads[e.thread]? = some ⟨t.call, .request e.op k⟩ ∧ e.reply = (W.exec e.op b.state).1 := by
  obtain ⟨_, ⟨s, hf, rfl⟩, hs⟩ := h
  obtain ⟨b, t, k, hb, hbc, ht, hw, hr⟩ := hs.answered e he
  exact ⟨b, t, k, ⟨_, ⟨s, hf, rfl⟩, hb⟩, hbc, ht, hw, hr⟩

theorem ReachableWithin.monitored {μ : Type} {M : Monitor W.statements μ} {m : μ}
    {Q : Call → CallResult → μ → Prop} {X : Call → Failure → μ → Prop} (h : ReachableWithin ok c)
    (hcode : ∀ call : Call, (call.code : Db W CallResult).Obeys M (Q call) (X call) m) :
    c.Monitored M m Q X := by
  obtain ⟨_, ⟨s, _, rfl⟩, hs⟩ := h
  exact hs.monitored (Config.monitored_start s) hcode

theorem ReachableWithin.lawful {μ : Type} {M : Monitor W.statements μ} {m : μ}
    {Q : Call → CallResult → μ → Prop} {X : Call → Failure → μ → Prop} (h : ReachableWithin ok c)
    (hcode : ∀ call : Call, (call.code : Db W CallResult).Obeys M (Q call) (X call) m)
    {e : Statement W} {later earlier : List (Statement W)} (hist : c.history = later ++ e :: earlier) :
    M.ok (M.after m e.thread earlier) e.op := by
  obtain ⟨_, ⟨s, _, rfl⟩, hs⟩ := h
  exact hs.lawful hcode hist

/-- What every statement finds of the history before it. -/
theorem ReachableWithin.always {P : List (Statement W) → Statement W → Prop} (h : ReachableWithin ok c)
    (next : ∀ (d : App W) i call (o : Op W.Tables) k (r : o.Reply) s, ReachableWithin ok d →
      d.threads[i]? = some ⟨call, .request o k⟩ → Issued o → ok d ⟨i, o, r⟩ →
      Effect d.state o r s → P d.history ⟨i, o, r⟩) {later earlier : List (Statement W)} {e : Statement W}
    (hist : c.history = later ++ e :: earlier) : P earlier e := by
  revert later
  refine h.invariant (I := fun c => ∀ {later}, c.history = later ++ e :: earlier → P earlier e)
    (by simp) (fun _ _ h => h) (fun _ _ h => h) ?_
  intro d i call o k r s hd hw hi hok heff hI later hist
  cases later with
  | nil =>
    obtain ⟨rfl, rfl⟩ := List.cons.inj hist
    exact next d i call o k r s hd hw hi hok heff
  | cons _ later => exact hI (List.cons.inj hist).2

theorem ReachableWithin.reachable (h : ReachableWithin ok c) : Reachable c := by
  obtain ⟨c₀, h₀, hs⟩ := h
  exact ⟨c₀, h₀, hs.run⟩

end Reachability

end SafeOps
