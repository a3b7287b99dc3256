import SafeOps.Bench
import SafeOps.Observers.Mandate
import SafeOps.Observers.Submission

/-! Submissions of one request: the executions they create, and the one execution its row names. -/

namespace SafeOps
open Concurrent

variable {W : World} {ok : App W → Statement W → Prop} {c : App W} {o : Id} {k : String}

/-- The call submits the request `k` of operator `o`. -/
def Call.submits (o : Id) (k : String) : Call → Bool
  | submit o' request => o' = o ∧ request.externalRequestId = k
  | _ => false

/-- The execution that a submission is to run in, if it says so. -/
def Call.within : Call → Option Id
  | submit _ request => request.executionId
  | _ => none

/-- The execution that an answered statement has created. -/
def createdExecution : Statement W → Option Id
  | ⟨_, .write (.insertExecution _), x⟩ => some x
  | _ => none

/-- Thread `i` submits the request. -/
def App.submits (c : App W) (o : Id) (k : String) (i : Nat) : Bool :=
  (c.threads[i]?).any (·.call.submits o k)

theorem App.submits_iff {i : Nat} : c.submits o k i = true ↔ ∃ t, c.threads[i]? = some t ∧ t.call.submits o k := by
  rw [submits, Option.any_eq_true]

/-- The executions that submissions of the request have created. -/
def App.executionsFor (c : App W) (o : Id) (k : String) : List Id :=
  (c.history.filter fun e => c.submits o k e.thread).filterMap createdExecution

/-- The execution that the row of a request names. -/
def State.requested (s : State W.Domain) (o : Id) (k : String) : Option Id :=
  (s.externalRequests o k).map (·.executionId)

/-- The statement severs a new execution from its request: the row of the request is there already, or the
chunk that announces the start is given up. -/
def severs : Statement W → Bool
  | ⟨_, .write (.insertExternalRequest _), inserted⟩ => (inserted : Bool) = false
  | ⟨_, .write (.commit attempt t), outcome⟩ => t.announcesStart && attempt.givesUp outcome
  | ⟨_, .write (.commitIf attempt _ t), .finished outcome⟩ => t.announcesStart && attempt.givesUp outcome
  | _ => false

/-- No submission of the request is answered with what severs it from its execution. -/
def Unsevered (o : Id) (k : String) (c : App W) (e : Statement W) : Prop :=
  c.submits o k e.thread → ¬severs e

instance (e : Statement W) : Decidable (Unsevered o k c e) := inferInstanceAs (Decidable (_ → _))

section Monitoring

/-- Follows a first submission of the request; of other calls it sees nothing. -/
def Call.submission (o : Id) (k : String) (call : Call) : Monitor W.statements Submission :=
  if call.submits o k ∧ call.within = none then submitting o k else ⟨fun m _ _ => m, fun _ _ => True⟩

theorem Call.code_submission (o : Id) (k : String) (call : Call) :
    (call.code : Db W CallResult).Obeys (call.submission o k)
      (fun _ m => call.submits o k ∧ call.within = none → m.Closed)
      (fun _ m => call.submits o k ∧ call.within = none → ∀ x, m ≠ .started x) .idle := by
  unfold Call.submission
  split
  · rename_i h
    cases call with
    | submit o' request =>
      obtain ⟨rfl, rfl⟩ : o' = o ∧ request.externalRequestId = k := by simpa [submits] using h.1
      exact .bind (submit_submitting o' h.2) (fun _ _ h _ => h) fun _ _ h _ => h
    | _ => exact absurd h.1 (by simp [submits])
  · rename_i h
    exact ((call.code.uses_requests).keeps (I := fun _ => True) (fun _ _ _ _ => trivial)
      (fun _ _ _ _ _ => trivial) trivial).mono (fun _ _ _ hc => absurd hc h) fun _ _ _ hc => absurd hc h

end Monitoring

section Rows

variable {s s' : State W.Domain} {op : Op W.Tables} {r : op.Reply} {x : Id}

/-- A request keeps the execution its row names. -/
theorem Effect.requested (heff : Effect s op r s') (hx : s.requested o k = some x) :
    s'.requested o k = some x := by
  unfold State.requested at hx ⊢
  rcases heff.externalRequests o k with he | ⟨row, _, _, _, hfree, _⟩ | ⟨u, _, he⟩
  · rw [he, hx]
  · simp [hfree] at hx
  · rw [he, Option.map_map]
    exact hx

/-- The executions of a run are all created under different ids. -/
theorem ReachableWithin.created_nodup (h : ReachableWithin ok c) :
    (c.history.filterMap createdExecution).Nodup := by
  obtain ⟨_, ⟨s, _, rfl⟩, hs⟩ := h
  refine hs.keys_nodup (I := fun s => List.range s.nextId) (fun change s => ?_) (fun o s => ?_)
    fun i o s k hk => ?_
  · simp [World.system]
  · exact List.range_subset.2 (W.exec_effect o s).nextId_le
  · rcases o with _ | w | _ | _
    · cases hk
    · cases w with
      | insertExecution row =>
        obtain rfl : s.nextId = k := Option.some.inj hk
        exact ⟨by simp, List.mem_range.2 (Nat.lt_succ_self _)⟩
      | _ => cases hk
    · cases hk
    · cases hk

end Rows

/-- As far as is known, thread `i` is a first submission of the request. -/
def App.Opens (c : App W) (o : Id) (k : String) (i : Nat) : Prop :=
  ∀ t, c.threads[i]? = some t → t.call.submits o k ∧ t.call.within = none

/-- What a submission has created is named by the row of the request, unless it is still on its way there. -/
structure Traced (o : Id) (k : String) (c : App W) (i : Nat) : Prop where
  created : ∀ e ∈ c.history, e.thread = i → ∀ x, createdExecution e = some x →
    c.past (submitting o k) .idle i = .started x ∨ c.state.requested o k = some x
  recorded : c.past (submitting o k) .idle i = .recorded → c.state.requested o k ≠ none
  spared : c.past (submitting o k) .idle i ≠ .thwarted

section Tracing

variable {d : App W} {i : Nat} {call : Call} {op : Op W.Tables} {next : op.Reply → Db W CallResult}
  {r : op.Reply} {s : State W.Domain}

theorem requested_ne_none (heff : Effect d.state op r s) (h : d.state.requested o k ≠ none) :
    s.requested o k ≠ none := by
  obtain ⟨x, hx⟩ := Option.ne_none_iff_exists'.1 h
  simp [heff.requested hx]

/-- The statements of other threads do not concern a submission. -/
theorem Traced.other {j : Nat} (h : Traced o k d j) (heff : Effect d.state op r s) (hij : i ≠ j) :
    Traced o k (App.next d i call op next r s) j where
  created e he hj x hx := by
    rw [App.next_past, if_neg hij]
    rcases List.mem_cons.1 he with rfl | he
    · exact absurd hj hij
    · exact (h.created e he hj x hx).imp_right heff.requested
  recorded hm := by
    rw [App.next_past, if_neg hij] at hm
    exact requested_ne_none heff (h.recorded hm)
  spared := by
    rw [App.next_past, if_neg hij]
    exact h.spared

/-- What a statement of its own has to keep of a submission. -/
theorem Traced.step {m : Submission} (h : Traced o k d i) (heff : Effect d.state op r s)
    (hnext : (submitting o k).next (d.past (submitting o k) .idle i) op r = m)
    (created : ∀ x, createdExecution (⟨i, op, r⟩ : Statement W) = some x → m = .started x)
    (started : ∀ x, d.past (submitting o k) .idle i = .started x → m = .started x ∨ s.requested o k = some x)
    (recorded : m = .recorded → s.requested o k ≠ none) (spared : m ≠ .thwarted) :
    Traced o k (App.next d i call op next r s) i where
  created e he hi x hx := by
    rw [App.next_past, if_pos rfl, hnext]
    rcases List.mem_cons.1 he with rfl | he
    · exact .inl (created x hx)
    · rcases h.created e he hi x hx with hm | hm
      · exact started x hm
      · exact .inr (heff.requested hm)
  recorded hm := by
    rw [App.next_past, if_pos rfl, hnext] at hm
    exact recorded hm
  spared := by
    rw [App.next_past, if_pos rfl, hnext]
    exact spared

/-- A statement of its own that creates nothing, and from which the submission goes on as before. -/
theorem Traced.same (h : Traced o k d i) (heff : Effect d.state op r s)
    (hcreated : createdExecution (⟨i, op, r⟩ : Statement W) = none)
    (hnext : (submitting o k).next (d.past (submitting o k) .idle i) op r = d.past (submitting o k) .idle i) :
    Traced o k (App.next d i call op next r s) i :=
  h.step heff hnext (fun x hx => by cases hcreated.symm.trans hx) (fun _ => .inl)
    (fun hm => requested_ne_none heff (h.recorded hm)) h.spared

/-- A commit leaves the submission where it is, for it gives up no announcement. -/
theorem Submission.tried_eq {m : Submission} {attempt : Attempt} {outcome : CommitOutcome} {t : Txn}
    (hannounces : ∀ x, m = .started x → t.announcesStart)
    (hgoes : ¬(t.announcesStart && attempt.givesUp outcome) = true) : m.tried attempt outcome = m := by
  cases m with
  | started x =>
    have hgoes : ¬attempt.givesUp outcome = true := by simpa [hannounces x rfl] using hgoes
    simp [Submission.tried, hgoes]
  | _ => rfl

theorem Traced.own (h : Traced o k d i) (heff : Effect d.state op r s)
    (hok : (submitting o k).ok (d.past (submitting o k) .idle i) op)
    (hsevers : ¬severs (⟨i, op, r⟩ : Statement W)) : Traced o k (App.next d i call op next r s) i := by
  rcases op with q | w | _ | _
  · cases q with
    | externalRequest o' k' =>
      by_cases hfound : d.past (submitting o k) .idle i = .idle ∧
          Option.isSome (show Option ExternalActionRequest from r) ∧ o' = o ∧ k' = k
      · obtain ⟨hidle, hrow, rfl, rfl⟩ := hfound
        refine h.step (m := .recorded) heff (if_pos ⟨hidle, hrow, rfl, rfl⟩) (fun _ hx => by cases hx)
          (fun x hx => by cases hidle.symm.trans hx) (fun _ => ?_) (by simp)
        obtain ⟨hr, rfl⟩ := heff.of_query
        obtain ⟨row, hrow⟩ := Option.isSome_iff_exists.1 hrow
        have read : d.state.externalRequests o' k' = some row := hr.symm.trans hrow
        simp [State.requested, read]
      · exact h.same heff rfl (if_neg hfound)
    | _ => exact h.same heff rfl rfl
  · cases w with
    | insertExecution row =>
      have hidle : d.past (submitting o k) .idle i = .idle := hok
      refine h.step (m := .started r) heff rfl (fun x hx => ?_) (fun x hx => ?_) (by simp) (by simp)
      · rw [Option.some.inj hx]
      · cases hidle.symm.trans hx
    | insertExternalRequest row =>
      obtain ⟨rfl, rfl, hstarted⟩ := hok
      cases heff with
      | idle hidle =>
        cases hidle
        exact absurd rfl hsevers
      | commit _ hcommits => cases hcommits
      | insertExternalRequest _ hfree =>
        have hrow : (d.state.insertExternalRequest row).2.requested row.operatorId row.externalRequestId =
            some row.executionId := by
          simp [State.requested, State.insertExternalRequest, hfree]
        refine h.step (m := .recorded) (.insertExternalRequest row hfree) rfl (fun x hx => by cases hx)
          (fun x hx => .inr ?_) (fun _ => by simp [hrow]) (by simp)
        rw [hrow, Submission.started.inj (hstarted.symm.trans hx)]
    | commit attempt t => exact h.same heff rfl (Submission.tried_eq hok hsevers)
    | commitIf attempt g t =>
      refine h.same heff rfl ?_
      cases r with
      | guardLost => rfl
      | finished outcome => exact Submission.tried_eq hok hsevers
    | _ => exact h.same heff rfl rfl
  · exact h.same heff rfl rfl
  · exact h.same heff rfl rfl

/-- What is known of a thread does not change when a thread receives an answer. -/
theorem App.Opens.of_next {j : Nat} (hw : d.threads[i]? = some ⟨call, .request op next⟩)
    (h : (App.next d i call op next r s).Opens o k j) : d.Opens o k j := by
  intro t ht
  by_cases hij : i = j
  · subst hij
    obtain rfl := Option.some.inj (hw.symm.trans ht)
    exact h ⟨call, next r⟩ (by simp [(List.getElem?_eq_some_iff.1 hw).1])
  · exact h t (by simpa [List.getElem?_set_ne hij] using ht)

theorem ReachableWithin.traced (h : ReachableWithin (Unsevered o k) c) :
    ∀ j, c.Opens o k j → Traced o k c j := by
  refine h.invariant (I := fun c => ∀ j, c.Opens o k j → Traced o k c j)
    (fun s _ j _ => ⟨by simp, by simp, by simp⟩) (fun d call h j hj => ?_) (fun d change h j hj => ?_) ?_
  · -- a thread that has just been spawned has done nothing
    have opens : d.Opens o k j := fun t ht => hj t (by
      simp only [Config.spawn]
      rw [List.getElem?_append_left (List.getElem?_eq_some_iff.1 ht).1, ht])
    exact ⟨(h j opens).created, (h j opens).recorded, (h j opens).spared⟩
  · have kept := h j hj
    exact ⟨by simpa [State.requested] using kept.created, by simpa [State.requested] using kept.recorded, kept.spared⟩
  · intro d i call op next r s hd hw _ hok heff hI j hj
    have opens := hj.of_next hw
    by_cases hij : i = j
    · subst hij
      have hcall := opens _ hw
      have hallowed := (hd.monitoredBy (Call.code_submission o k)).allowed hw
      simp only [Call.submission, if_pos hcall] at hallowed
      refine (hI i opens).own heff hallowed (hok ?_)
      simp [App.submits, hw, hcall.1]
    · exact (hI j opens).other heff hij

end Tracing

section Rows

/-- The row of a request has been inserted with the execution it names. -/
theorem ReachableWithin.request_inserted (h : ReachableWithin ok c) {x : Id} (hx : c.state.requested o k = some x) :
    ∃ e ∈ c.history, ∃ row, e.op = .write (.insertExternalRequest row) ∧ row.operatorId = o ∧
      row.externalRequestId = k ∧ row.executionId = x := by
  revert x
  refine h.invariant (I := fun c => ∀ {x}, c.state.requested o k = some x → ∃ e ∈ c.history, ∃ row,
    e.op = .write (.insertExternalRequest row) ∧ row.operatorId = o ∧ row.externalRequestId = k ∧
      row.executionId = x) (fun s hs x hx => ?_) (fun _ _ h => h) (fun d change h x hx => ?_) ?_
  · simp [State.requested, hs.externalRequests] at hx
  · exact h (by simpa [State.requested] using hx)
  · intro d i call op next r s _ _ _ _ heff hI x hx
    have older (hx : d.state.requested o k = some x) : ∃ e ∈ (App.next d i call op next r s).history, ∃ row,
        e.op = .write (.insertExternalRequest row) ∧ row.operatorId = o ∧ row.externalRequestId = k ∧
          row.executionId = x := by
      obtain ⟨e, he, rest⟩ := hI hx
      exact ⟨e, List.mem_cons_of_mem _ he, rest⟩
    rcases heff.externalRequests o k with he | ⟨row, hop, ho, hk, _, hrow⟩ | ⟨u, _, he⟩
    · exact older (by rwa [App.next_state, State.requested, he] at hx)
    · refine ⟨_, List.mem_cons_self, row, hop, ho, hk, ?_⟩
      simpa [State.requested, hrow] using hx
    · exact older (by rwa [App.next_state, State.requested, he, Option.map_map] at hx)

/-- The execution a submission is on its way with. -/
def Submission.carried : Submission → Option Id
  | started x => some x
  | _ => none

theorem submitting_carried (m : Submission) (e : Statement W) :
    ((submitting o k).next m e.op e.reply).carried = m.carried ∨
      ((submitting o k).next m e.op e.reply).carried = createdExecution e := by
  obtain ⟨i, op, r⟩ := e
  have tried (attempt : Attempt) (outcome : CommitOutcome) :
      (m.tried attempt outcome).carried = m.carried ∨ (m.tried attempt outcome).carried = none := by
    cases m with
    | started x =>
      by_cases h : attempt.givesUp outcome = true
      · exact .inr (by simp [Submission.tried, h, Submission.carried])
      · exact .inl (by simp [Submission.tried, h])
    | _ => exact .inl rfl
  rcases op with q | w | _ | _
  · cases q with
    | externalRequest o' k' =>
      simp only [submitting]
      split
      · exact .inr rfl
      · exact .inl rfl
    | _ => exact .inl rfl
  · cases w with
    | insertExecution row => exact .inr rfl
    | insertExternalRequest row => cases r <;> exact .inr rfl
    | commit attempt t => exact tried attempt r
    | commitIf attempt g t =>
      cases r with
      | guardLost => exact .inl rfl
      | finished outcome => exact tried attempt outcome
    | _ => exact .inl rfl
  · exact .inl rfl
  · exact .inl rfl

/-- Where no submission of a request names an execution, the one in its row has been created by one of them. -/
theorem ReachableWithin.requested_created (h : ReachableWithin ok c)
    (unnamed : ∀ t ∈ c.threads, t.call.submits o k → t.call.within = none) {x : Id}
    (hx : c.state.requested o k = some x) : x ∈ c.executionsFor o k := by
  obtain ⟨e, he, row, hop, rfl, rfl, rfl⟩ := h.request_inserted hx
  obtain ⟨later, earlier, hist⟩ := List.append_of_mem he
  obtain ⟨_, ⟨s, _, rfl⟩, hs⟩ := h
  obtain ⟨t, ht, hmandate⟩ := hs.lawfulBy Call.code_mandated hist
  obtain ⟨t', ht', hsubmission⟩ := hs.lawfulBy
    (Call.code_submission row.operatorId row.externalRequestId) hist
  obtain rfl := Option.some.inj (ht.symm.trans ht')
  rw [hop] at hmandate hsubmission
  have submits : t.call.submits row.operatorId row.externalRequestId = true := by
    cases hcall : t.call with
    | submit o' request =>
      rw [hcall] at hmandate
      obtain ⟨y, execution, _, _, hrow⟩ := hmandate
      simp [Call.submits, hrow, ExternalActionService.newRequest]
    | _ =>
      rw [hcall] at hmandate
      exact hmandate.elim
  have hcall := And.intro submits (unnamed t (List.mem_of_getElem? ht) submits)
  simp only [Call.submission, if_pos hcall] at hsubmission
  obtain ⟨_, _, hstarted⟩ := hsubmission
  obtain ⟨e', he', hthread, hcreated⟩ := Monitor.after_recorded (f := Submission.carried)
    (g := createdExecution) submitting_carried rfl (b := row.executionId)
    (by rw [hstarted]; rfl)
  refine List.mem_filterMap.2 ⟨e', List.mem_filter.2 ⟨by simp [hist, he'], ?_⟩, hcreated⟩
  simp [App.submits, hthread, ht, submits]

end Rows

/-- A submission that is no longer waiting is on its way with nothing. -/
theorem submission_ended {p : Db W CallResult} {m : Submission} (h : p.Obeys (submitting o k) (fun _ m => m.Closed)
    (fun _ m => ∀ x, m ≠ .started x) m) (hp : p.waiting = false) (x : Id) : m ≠ .started x := by
  cases p with
  | ret result => exact Submission.Closed.not_started h x
  | raise failure => exact h x
  | request => cases hp

/-- Submissions of one request that name no execution create the one its row names, and no other: unless
one of them is severed from the execution it has created. -/
theorem one_execution (h : ReachableWithin (Unsevered o k) c)
    (unnamed : ∀ t ∈ c.threads, t.call.submits o k → t.call.within = none)
    (settled : ∀ t ∈ c.threads, t.call.submits o k → t.program.waiting = false) :
    c.executionsFor o k = (c.state.requested o k).toList ∧
      ∀ t ∈ c.threads, t.call.submits o k → ∀ result, t.program = .ret result → c.state.requested o k ≠ none := by
  have opens {i : Nat} {t : Thread W.statements Failure CallResult Call} (ht : c.threads[i]? = some t)
      (hsubmits : t.call.submits o k) : c.Opens o k i := fun t' ht' => by
    obtain rfl := Option.some.inj (ht.symm.trans ht')
    exact ⟨hsubmits, unnamed t (List.mem_of_getElem? ht) hsubmits⟩
  have monitored {i : Nat} {t : Thread W.statements Failure CallResult Call} (ht : c.threads[i]? = some t)
      (hsubmits : t.call.submits o k) : t.program.Obeys (submitting o k) (fun _ m => m.Closed)
        (fun _ m => ∀ x, m ≠ .started x) (c.past (submitting o k) .idle i) := by
    have hcall := opens ht hsubmits t ht
    have hobeys := (h.monitoredBy (Call.code_submission o k)).2 i t ht
    simp only [Call.submission, if_pos hcall] at hobeys
    exact hobeys.mono (fun _ _ hm => hm hcall) fun _ _ hm => hm hcall
  have named : ∀ x ∈ c.executionsFor o k, c.state.requested o k = some x := by
    intro x hx
    obtain ⟨e, he, hcreated⟩ := List.mem_filterMap.1 hx
    obtain ⟨he, hsubmits⟩ := List.mem_filter.1 he
    obtain ⟨t, ht, hsubmits⟩ := App.submits_iff.1 hsubmits
    have hmem := List.mem_of_getElem? ht
    refine ((h.traced e.thread (opens ht hsubmits)).created e he rfl x hcreated).resolve_left fun hstarted => ?_
    exact submission_ended (monitored ht hsubmits) (settled t hmem hsubmits) x hstarted
  have hnodup : (c.executionsFor o k).Nodup := h.created_nodup.sublist (List.filter_sublist.filterMap _)
  refine ⟨?_, fun t ht hsubmits result hresult => ?_⟩
  · cases hx : c.state.requested o k with
    | none =>
      refine List.eq_nil_iff_forall_not_mem.2 fun x hmem => ?_
      cases hx.symm.trans (named x hmem)
    | some x =>
      have same : ∀ y ∈ c.executionsFor o k, y = x := fun y hy => Option.some.inj ((named y hy).symm.trans hx)
      have hall := List.eq_replicate_of_mem same
      rw [hall] at hnodup ⊢
      have hmem := h.requested_created unnamed hx
      have hle := List.nodup_replicate.1 hnodup
      have hpos := List.length_pos_of_mem hmem
      rw [show (c.executionsFor o k).length = 1 by omega]
      rfl
  · obtain ⟨i, hi⟩ := List.getElem?_of_mem ht
    have hi : c.threads[i]? = some t := hi
    have traced := h.traced i (opens hi hsubmits)
    have hclosed := monitored hi hsubmits
    rw [hresult] at hclosed
    exact traced.recorded (hclosed.resolve_right traced.spared)

/-- An integration asks for a refund and leaves the execution to the service. -/
def looseRefund : SubmitActionRequest where
  externalRequestId := "k"
  safeopsAgentId := 0
  toolName := "refund_payment"
  arguments := .dict []

/-- Two threads submit the same request. Thread 1 arrives when the row of thread 0 is there, and its lookup finds it. -/
def retryMoves : List (Move Call Change) :=
  arrival (.submit 0 looseRefund) 0 10 ++ arrival (.submit 0 looseRefund) 1 3 ++ List.replicate 53 (.run 0) ++
    List.replicate 6 (.run 1)

theorem one_execution_retry :
    (afterMoves .allow retryMoves).executionsFor 0 "k" = [0] ∧
      ∀ t ∈ (afterMoves .allow retryMoves).threads, t.call.submits 0 "k" → ∀ result, t.program = .ret result →
        (afterMoves .allow retryMoves).state.requested 0 "k" ≠ none :=
  have h := one_execution (Allowed.reachable (State.bench_fresh .allow) (by decide +kernel)) (by decide +kernel)
    (by decide +kernel)
  ⟨h.1.trans (by decide +kernel), h.2⟩

/-- Two threads submit the same request. Thread 0 has created its execution when thread 1 arrives, and inserts
its row when that of thread 1 is there. -/
def raceMoves : List (Move Call Change) :=
  arrival (.submit 0 looseRefund) 0 7 ++ arrival (.submit 0 looseRefund) 1 63 ++ List.replicate 3 (.run 0)

/-- The submission that loses the race leaves an execution behind that nobody will drive. -/
theorem orphaned_execution :
    ¬∀ c : App bench, Reachable c → c.Quiescent → c.threads ≠ [] →
      (∀ t ∈ c.threads, t.call = .submit 0 looseRefund) →
      (∃ x, c.executionsFor 0 "k" = [x] ∧ c.state.requested 0 "k" = some x) ∧
      ∀ x, c.state.status x = some .running → c.state.steps x = [] → ∃ o k, c.state.requested o k = some x := by
  intro h
  have hc : Reachable (afterMoves .allow raceMoves) := replay_reachable (State.bench_fresh .allow) raceMoves
  have hcalls : (afterMoves .allow raceMoves).threads.map (·.call) =
      [.submit 0 looseRefund, .submit 0 looseRefund] := replay_calls _ raceMoves
  have hsame : ∀ t ∈ (afterMoves .allow raceMoves).threads, t.call = .submit 0 looseRefund := by
    intro t ht
    have hmem := List.mem_map_of_mem (f := (·.call)) ht
    rw [hcalls] at hmem
    simpa using hmem
  have hne : (afterMoves .allow raceMoves).threads ≠ [] := fun hnil => by simp [hnil] at hcalls
  obtain ⟨⟨x, hx, _⟩, _⟩ := h _ hc (by decide +kernel) hne hsame
  have htwo : (afterMoves .allow raceMoves).executionsFor 0 "k" = [1, 0] := by decide +kernel
  cases htwo.symm.trans hx

end SafeOps
