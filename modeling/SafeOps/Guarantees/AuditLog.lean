import SafeOps.Bench
import SafeOps.Model.Effects

/-! The audit log: numbered without gaps, append-only, and written in whole chunks. -/

namespace SafeOps
open Concurrent Program

variable {W : World} {ok : App W → Statement W → Prop}

/-- Follows the sequence number a call has last read as free, and on which execution. -/
def numbering : Monitor W.statements (Option (Id × Nat)) where
  next m o := match o with
    | .query (.auditSequence x) => fun (tail : AuditTail) => some (x, tail.sequence + 1)
    | _ => fun _ => m
  ok m
    | .write (.commit _ t) => ∃ n, m = some (t.executionId, n) ∧ t.Numbered n
    | .write (.commitIf _ _ t) => ∃ n, m = some (t.executionId, n) ∧ t.Numbered n
    | _ => True

theorem IsRead.numbering_next {o : Op W.Tables} (h : IsRead o) (m : Option (Id × Nat)) (r : o.Reply) :
    numbering.next m o r = m := by
  rcases o with q | _ | _ | _
  · cases q <;> first | rfl | exact h.elim
  all_goals exact h.elim

theorem IsRead.numbering_ok {o : Op W.Tables} (h : IsRead o) (m : Option (Id × Nat)) :
    numbering.ok m o := by
  rcases o with q | _ | _ | _
  · trivial
  all_goals exact h.elim

theorem AnyOp.numbering_ok {o : Op W.Tables} (h : AnyOp o) (m : Option (Id × Nat)) :
    numbering.ok m o := by
  rcases o with _ | w | _ | _
  · trivial
  · cases w <;> trivial
  all_goals trivial

/-- Every row builder numbers its events from the number it was given. -/
theorem commitRound_numbering {x : Id} {build : Nat → Nat → Db W (Rows W)}
    (h : ∀ attempt seq, (build attempt seq).Yields IsRead (Chunk x seq)) (number : Nat)
    (m : Option (Id × Nat)) :
    (commitRound x build number).Obeys numbering (fun _ _ => True) (fun _ _ => True) m := by
  refine (obeys_bind _ _).2 ⟨trivial, fun (tail : AuditTail) => (obeys_bind _ _).2 ?_⟩
  change (build number (tail.sequence + 1)).Obeys numbering _ _ (some (x, tail.sequence + 1))
  refine ((h number (tail.sequence + 1)).keeps (I := (· = some (x, tail.sequence + 1)))
    (fun m _ ho _ => ho.numbering_ok m) (fun m _ r ho hm => (ho.numbering_next m r).trans hm) rfl).mono
    ?_ fun _ _ _ => trivial
  rintro rows _ ⟨hrows, rfl⟩
  have hin := hrows.within
  cases rows with
  | plain t => exact ⟨⟨_, by rw [hin.execution], hin.numbered⟩, fun _ => trivial⟩
  | guarded g won lost =>
    refine (obeys_bind _ _).2 ⟨⟨_, by rw [hin.1.execution], hin.1.numbered⟩,
      fun (outcome : GuardedOutcome) => ?_⟩
    cases outcome with
    | finished outcome => trivial
    | guardLost =>
      refine (obeys_bind _ _).2 ((hin.2.keeps (I := (· = some (x, tail.sequence + 1)))
        (fun m _ ho _ => ho.numbering_ok m) (fun m _ r ho hm => (ho.numbering_next m r).trans hm)
        rfl).mono ?_ fun _ _ _ => trivial)
      rintro t _ ⟨ht, rfl⟩
      exact ⟨⟨_, by rw [ht.execution], ht.numbered⟩, fun _ => trivial⟩

theorem Call.code_numbering (call : Call) :
    (call.code : Db W CallResult).Obeys numbering (fun _ _ => True) (fun _ _ => True) none := by
  refine call.code_built.keeps (I := fun _ => True) (fun {_ _ _} h {m} _ => ?_) trivial
  cases h with
  | statements h =>
    exact h.keeps (I := fun _ => True) (fun m _ ho _ => ho.numbering_ok m) (fun _ _ _ _ _ => trivial)
      trivial
  | chunk x build h =>
    exact commitRows_obeys (fun _ => True) (fun _ => True)
      (fun number m _ => (commitRound_numbering h number m).mono
        (fun outcome _ _ => by cases outcome <;> trivial) fun _ _ _ => trivial)
      (fun _ _ => trivial) trivial
  | gateway allowed => exact allowed.elim

/-- A chunk numbered from a free number on, none of its numbers being taken, continues the log. -/
theorem append_consecutive {n length count : Nat} (hn : 1 ≤ n) (hl : n ≤ length + 1)
    (hd : (List.range' 1 length ++ List.range' n count).Nodup) :
    List.range' 1 length ++ List.range' n count = List.range' 1 (length + count) := by
  rcases Nat.eq_zero_or_pos count with rfl | hc
  · simp
  · have free : n ∉ List.range' 1 length := fun h =>
      (List.nodup_append.1 hd).2.2 n h n (by simp [List.mem_range'_1]; omega) rfl
    have : n = 1 + 1 * length := by
      simp only [List.mem_range'_1, not_and] at free
      omega
    rw [this, List.range'_append]

theorem foldl_max_range' (length : Nat) : (List.range' 1 length).foldl max 0 = length := by
  induction length with
  | zero => rfl
  | succ length ih => simp [List.range'_concat, ih]; omega

/-- The log of `x` is numbered 1, 2, … in the order of its events. -/
def State.Consecutive {D : Type} (s : State D) (x : Id) : Prop :=
  (s.audit x).map (·.sequence) = List.range' 1 (s.audit x).length

theorem State.Consecutive.lastSequence {D : Type} {s : State D} {x : Id} (h : s.Consecutive x) :
    s.lastSequence x = (s.audit x).length := by
  have : s.lastSequence x = ((s.audit x).map (·.sequence)).foldl max 0 := by rw [List.foldl_map]; rfl
  rw [this, h, foldl_max_range']

/-- Every log is consecutive, and no call has read a number beyond the end of one. -/
structure LogsConsecutive (c : App W) : Prop where
  log : ∀ x, c.state.Consecutive x
  read : ∀ i x n, c.past numbering none i = some (x, n) → 1 ≤ n ∧ n ≤ (c.state.audit x).length + 1

/-- Only a read of the log's end moves the monitor. -/
theorem Effect.numbering {s s' : State W.Domain} {o : Op W.Tables} {r : o.Reply} (h : Effect s o r s')
    (m : Option (Id × Nat)) : numbering.next m o r = m ∨
      ∃ x, s' = s ∧ numbering.next m o r = some (x, s.lastSequence x + 1) := by
  cases h with
  | idle h =>
    cases h with
    | query q =>
      cases q with
      | auditSequence x => exact .inr ⟨x, rfl, rfl⟩
      | _ => exact .inl rfl
    | _ => exact .inl rfl
  | commit _ hc => cases hc <;> exact .inl rfl
  | _ => exact .inl rfl

/-- A chunk that commits was numbered from a number its call had read as free. -/
theorem ReachableWithin.numbered {d : App W} (hd : ReachableWithin ok d) {i : Nat} {call : Call}
    {o : Op W.Tables} {k : o.Reply → Db W CallResult}
    (hw : d.threads[i]? = some ⟨call, .request o k⟩) {r : o.Reply} {g : Option StatusGuard} {t : Txn}
    (hc : Commits o r g t) :
    ∃ n, d.past numbering none i = some (t.executionId, n) ∧ t.Numbered n := by
  have hok := (hd.monitored Call.code_numbering).allowed hw
  cases hc <;> exact hok

section Step

variable {d : App W} (h : LogsConsecutive d) {i : Nat} {call : Call} {o : Op W.Tables}
  {k : o.Reply → Db W CallResult} {r : o.Reply} {s : State W.Domain} {t : Txn} {n : Nat}
include h

/-- A chunk that commits continues the log it is written to. -/
theorem LogsConsecutive.numbers_append (hn : d.past numbering none i = some (t.executionId, n))
    (ht : t.Numbered n) (hcol : ¬d.state.Collides t) :
    (d.state.audit t.executionId ++ t.audit).map (·.sequence) =
      List.range' 1 (d.state.audit t.executionId ++ t.audit).length := by
  obtain ⟨h1, hl⟩ := h.read i _ n hn
  have hd := not_not.1 hcol
  have hlog := h.log t.executionId
  unfold State.Consecutive at hlog
  unfold Txn.Numbered at ht
  rw [List.map_append, hlog, ht] at hd ⊢
  rw [List.length_append]
  exact append_consecutive h1 hl hd

theorem LogsConsecutive.next (hd : ReachableWithin ok d)
    (hw : d.threads[i]? = some ⟨call, .request o k⟩) (heff : Effect d.state o r s) :
    LogsConsecutive (App.next d i call o k r s) := by
  have grows (x : Id) : (d.state.audit x).length ≤ (s.audit x).length := by
    rcases heff.audit x with he | ⟨g, t, _, _, _, he⟩ <;> simp [he]
  refine ⟨fun x => ?_, fun j x n hp => ?_⟩
  · rw [State.Consecutive, App.next_state]
    rcases heff.audit x with he | ⟨g, t, hc, hcol, rfl, he⟩
    · rw [he]
      exact h.log x
    · obtain ⟨n, hn, ht⟩ := hd.numbered hw hc
      rw [he]
      exact h.numbers_append hn ht hcol
  · rw [App.next_past] at hp
    rw [App.next_state]
    have older (hp : d.past numbering none j = some (x, n)) : 1 ≤ n ∧ n ≤ (s.audit x).length + 1 := by
      have := h.read j x n hp
      have := grows x
      omega
    split at hp
    · rcases heff.numbering (d.past numbering none j) with hm | ⟨y, rfl, hm⟩
      · exact older (hm ▸ hp)
      · obtain ⟨rfl, rfl⟩ := Prod.mk.inj (Option.some.inj (hm.symm.trans hp))
        have := (h.log y).lastSequence
        omega
    · exact older hp

end Step

theorem ReachableWithin.logsConsecutive {c : App W} (h : ReachableWithin ok c) :
    LogsConsecutive c := by
  refine h.invariant ?_ ?_ ?_ ?_
  · intro s hs
    exact ⟨fun x => by simp [State.Consecutive, hs.audit], fun i x n h => by simp at h⟩
  · exact fun d call h => ⟨h.log, h.read⟩
  · intro d change h
    exact ⟨fun x => by simpa [State.Consecutive] using h.log x,
      fun i x n hp => by simpa using h.read i x n hp⟩
  · exact fun d i call o k r s hd hw _ _ heff h => h.next hd hw heff

/-- One statement only adds to a log. -/
theorem Effect.audit_grows {s s' : State W.Domain} {o : Op W.Tables} {r : o.Reply}
    (h : Effect s o r s') (x : Id) : s.audit x <+: s'.audit x := by
  rcases h.audit x with he | ⟨_, t, _, _, _, he⟩
  · exact he ▸ List.prefix_refl _
  · exact he ▸ List.prefix_append _ _

/-- Committed events are never touched again. -/
theorem audit_grows {c d : App W} (h : Run W.system c d) (x : Id) :
    c.state.audit x <+: d.state.audit x := by
  refine h.invariant (I := fun d : App W => c.state.audit x <+: d.state.audit x) (List.prefix_refl _)
    (fun _ _ h => h) (fun d change h => by simpa using h) ?_
  exact fun d i call o k _ _ _ h => h.trans ((W.exec_effect o d.state).audit_grows x)

/-- The events of the chunk stand together in the log, in the order in which they were built. -/
def State.Contiguous {D : Type} (s : State D) (t : Txn) : Prop :=
  ∃ before after, s.audit t.executionId = before ++ t.audit ++ after ∧
    t.audit.map (·.sequence) = List.range' (before.length + 1) t.audit.length

theorem State.Contiguous.mono {D : Type} {s s' : State D} {t : Txn} (h : s.Contiguous t)
    (hp : s.audit t.executionId <+: s'.audit t.executionId) : s'.Contiguous t := by
  obtain ⟨before, after, he, hn⟩ := h
  obtain ⟨later, hl⟩ := hp
  exact ⟨before, after ++ later, by rw [← hl, he, List.append_assoc], hn⟩

theorem State.Consecutive.contiguous {D : Type} {s : State D} {t : Txn}
    {before : List AuditEvent} (he : s.audit t.executionId = before ++ t.audit)
    (hc : s.Consecutive t.executionId) : s.Contiguous t := by
  refine ⟨before, [], by rw [he, List.append_nil], ?_⟩
  unfold State.Consecutive at hc
  rw [he, List.map_append, List.length_append, ← List.range'_append_1] at hc
  rw [Nat.add_comm]
  exact (List.append_inj' hc (by simp)).2

theorem Effect.audit_of_commits {s s' : State W.Domain} {o : Op W.Tables} {r : o.Reply}
    (h : Effect s o r s') {g : Option StatusGuard} {t : Txn} (hc : Commits o r g t) :
    s'.audit t.executionId = s.audit t.executionId ++ t.audit := by
  obtain ⟨_, _, _, startedAt, rfl⟩ := h.of_commits hc
  cases g <;> simp [World.guarded, State.modifyExecution]

theorem ReachableWithin.contiguous {c : App W} (h : ReachableWithin ok c) :
    ∀ e ∈ c.history, ∀ g t, Commits e.op e.reply g t → c.state.Contiguous t := by
  refine h.invariant
    (I := fun c => ∀ e ∈ c.history, ∀ g t, Commits e.op e.reply g t → c.state.Contiguous t) ?_ ?_ ?_ ?_
  · intro s _ e he
    cases he
  · exact fun d call h => h
  · exact fun d change h e he g t hc => (h e he g t hc).mono (by simp)
  · intro d i call o k r s hd hw _ _ heff h e he g t hc
    rcases List.mem_cons.1 he with rfl | he
    · exact ((hd.logsConsecutive.next hd hw heff).log t.executionId).contiguous
        (heff.audit_of_commits hc)
    · exact (h e he g t hc).mono (heff.audit_grows _)

/-- The statement reads, or is a commit answered otherwise than `committed`. -/
def Inert : (o : Op W.Tables) → o.Reply → Prop
  | .query _, _ => True
  | .write (.commit _ _), r => r ≠ CommitOutcome.committed
  | .write (.commitIf _ _ _), r => r ≠ GuardedOutcome.finished .committed
  | _, _ => False

theorem Inert.exec {o : Op W.Tables} {s : State W.Domain} (h : Inert o (W.exec o s).1) :
    (W.exec o s).2 = s := by
  rcases o with _ | w | _ | _
  · rfl
  · cases w with
    | commit => exact State.commit_of_ne_committed h
    | commitIf => exact State.commitIf_of_ne_committed h
    | _ => exact h.elim
  all_goals exact h.elim

/-- Remembers that every statement so far was inert. -/
def inertness : Monitor W.statements Prop where
  next m o r := m ∧ Inert o r
  ok _ _ := True

theorem inertness_along {steps : List (Op W.Tables × State W.Domain)} {m : Prop}
    (h : inertness.along W.exec m steps) :
    m ∧ ∀ step ∈ steps, Inert step.1 (W.exec step.1 step.2).1 := by
  induction steps generalizing m with
  | nil => exact ⟨h, by simp⟩
  | cons step steps ih =>
    have hrest := ih h
    exact ⟨hrest.1.1, List.forall_mem_cons.2 ⟨hrest.1.2, hrest.2⟩⟩

theorem IsRead.inert {o : Op W.Tables} (h : IsRead o) (r : o.Reply) : Inert o r := by
  cases o with
  | query q => trivial
  | _ => exact h.elim

theorem Reading.keeps_inertness {α : Type} {P : α → Prop} {p : Db W α} (h : p.Yields IsRead P) {m : Prop}
    (hm : m) : p.Obeys inertness (fun a m => P a ∧ m) (fun _ m => m) m :=
  h.keeps (I := fun m : Prop => m) (fun _ _ _ _ => trivial) (fun _ _ r ho hm => ⟨hm, ho.inert r⟩) hm

/-- A round that does not commit is inert throughout. -/
theorem commitRound_inert {x : Id} {build : Nat → Nat → Db W (Rows W)}
    (h : ∀ attempt seq, (build attempt seq).Yields IsRead (Chunk x seq)) (number : Nat) {m : Prop}
    (hm : m) : (commitRound x build number).Obeys inertness
      (fun outcome m => outcome ≠ .committed → m) (fun _ m => m) m := by
  refine (obeys_bind _ _).2 ⟨trivial, fun (tail : AuditTail) => (obeys_bind _ _).2 ?_⟩
  refine (Reading.keeps_inertness (h number _) ⟨hm, trivial⟩).mono ?_ fun _ _ hm => hm
  rintro rows m ⟨hrows, hm⟩
  cases rows with
  | plain t => exact ⟨trivial, fun outcome hne => ⟨hm, hne⟩⟩
  | guarded g won lost =>
    refine (obeys_bind _ _).2 ⟨trivial, fun (outcome : GuardedOutcome) => ?_⟩
    cases outcome with
    | finished outcome => exact fun hne => ⟨hm, fun he => hne (GuardedOutcome.finished.inj he)⟩
    | guardLost =>
      refine (obeys_bind _ _).2 ((Reading.keeps_inertness hrows.within.2 ⟨hm, nofun⟩).mono ?_
        fun _ _ hm => hm)
      rintro t m ⟨_, hm⟩
      exact ⟨trivial, fun outcome hne => ⟨hm, hne⟩⟩

/-- A `commit_chunk` call that raises has left the database as it was with each of its statements. -/
theorem commitRows_raise {x : Id} {build : Nat → Nat → Db W (Rows W)}
    (h : ∀ attempt seq, (build attempt seq).Yields IsRead (Chunk x seq))
    {steps : List (Op W.Tables × State W.Domain)} {error : Failure}
    (he : Trace W.exec (commitRows x build) steps (.error error)) :
    ∀ step ∈ steps, (W.exec step.1 step.2).2 = step.2 := by
  have hobeys : (commitRows x build).Obeys inertness (fun _ _ => True) (fun _ m => m) True := by
    refine (commitRows_obeys (fun m : Prop => m) (fun _ => True) (fun number m hm => ?_)
      (fun _ hm => hm) trivial).mono (fun _ _ h => h) fun _ _ h => h
    refine (commitRound_inert h number hm).mono (fun outcome m hout => ?_) fun _ _ hm => hm
    cases outcome with
    | committed => trivial
    | violation => exact hout nofun
    | collision => exact hout nofun
  exact fun step hstep => ((inertness_along (hobeys.trace he)).2 step hstep).exec

/-- The log is numbered 1, 2, …; it only ever grows; committed chunks stand in it unbroken; and a
chunk that is given up leaves nothing behind. -/
theorem audit_log_integrity (W : World) :
    (∀ c : App W, Reachable c → ∀ x,
      (c.state.audit x).map (·.sequence) = List.range' 1 (c.state.audit x).length) ∧
    (∀ c d : App W, Run W.system c d → ∀ x, c.state.audit x <+: d.state.audit x) ∧
    (∀ c : App W, Reachable c → ∀ e ∈ c.history, ∀ g t, Commits e.op e.reply g t →
      c.state.Contiguous t) ∧
    ∀ x build, (∀ attempt seq, (build attempt seq).Yields IsRead (Chunk x seq)) →
      ∀ steps error, Trace W.exec (commitRows x build) steps (.error error) →
        ∀ step ∈ steps, (W.exec step.1 step.2).2 = step.2 :=
  ⟨fun _ h => h.logsConsecutive.log, fun _ _ h => audit_grows h, fun _ h => h.contiguous,
    fun _ _ h _ _ he => commitRows_raise h he⟩

theorem audit_log_integrity_cancel :
    ((afterMoves .allow (startMoves ++ arrival (.cancel 0) 1 7)).state.audit 0).map (·.sequence) =
      List.range' 1 2 :=
  ((audit_log_integrity bench).1 _ (replay_reachable (State.bench_fresh .allow)
    (startMoves ++ arrival (.cancel 0) 1 7)) 0).trans (by decide +kernel)

end SafeOps
