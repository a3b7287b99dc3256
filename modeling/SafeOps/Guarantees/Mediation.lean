import SafeOps.Observers.Frame
import SafeOps.Guarantees.Approvals

/-! Complete mediation: no tool runs but on a gateway call's own checks, or on the approval it asked for. -/

namespace SafeOps
open Concurrent Program

variable {W : World} {ok : App W → Statement W → Prop} {c d : App W}

/-- The approval as the gateway filed it, before anything became of it. -/
def ApprovalRequest.asked (row : ApprovalRequest) : ApprovalRequest :=
  { row with status := .pending, resolvedAt := none, resolvedBy := none, executedAt := none }

theorem ApprovalRequest.toolCall_congr {row row' : ApprovalRequest} (h : row'.asked = row.asked) (a : Id) :
    row'.toolCall a = row.toolCall a := by
  change row'.asked.toolCall a = row.asked.toolCall a
  rw [h]

theorem ApprovalRequest.toolRequestId_congr {row row' : ApprovalRequest} (h : row'.asked = row.asked) :
    row'.toolRequestId = row.toolRequestId :=
  congrArg (·.toolRequestId) h

/-- What is asked in an approval never changes. -/
theorem Effect.asked {s s' : State W.Domain} {o : Op W.Tables} {r : o.Reply} (h : Effect s o r s')
    {a : Id} {row : ApprovalRequest} (hrow : s.approvals a = some row) :
    ∃ row', s'.approvals a = some row' ∧ row'.asked = row.asked := by
  rcases h.approvals a with he | ⟨row', hchange, he⟩
  · exact ⟨row, he.trans hrow, rfl⟩
  refine ⟨row', he, ?_⟩
  cases hchange with
  | inserted _ _ _ hfree => exact absurd hrow (by simp [hfree])
  | claimed status now by' row' hrow' | expired now row' hrow' | executed now row' _ _ hrow' =>
    obtain rfl := Option.some.inj (hrow.symm.trans hrow')
    rfl

/-- The approvals a call has read are still on file, asking the same. -/
theorem ReachableWithin.endorsed (h : ReachableWithin ok c) {i : Nat} {a : Id} {row : ApprovalRequest}
    (hread : (a, row) ∈ (c.past endorsing {} i).approvals) :
    ∃ row', c.state.approvals a = some row' ∧ row'.asked = row.asked := by
  revert i a row
  refine h.invariant (I := fun c => ∀ {i a row}, (a, row) ∈ (c.past endorsing {} i).approvals →
    ∃ row', c.state.approvals a = some row' ∧ row'.asked = row.asked) (by simp) (fun _ _ h => h)
    (fun d change h i a row => by simpa using h) ?_
  intro d i call o k r s hd hw hi _ heff hI j a row hread
  have older (hread : (a, row) ∈ (d.past endorsing {} j).approvals) :
      ∃ row', s.approvals a = some row' ∧ row'.asked = row.asked := by
    obtain ⟨row', hrow', he⟩ := hI hread
    obtain ⟨row'', hrow'', he'⟩ := heff.asked hrow'
    exact ⟨row'', hrow'', he'.trans he⟩
  rw [App.next_past] at hread
  split at hread
  · rcases endorsing_entry (e := ⟨i, o, r⟩) hread with hread | he
    · exact older hread
    · cases he
      obtain ⟨hr, rfl⟩ := heff.of_query
      exact ⟨row, hr.symm, rfl⟩
  · exact older hread

section Frames

variable {m : Option Frame} {o : Op W.Tables} {r : o.Reply} {g : Option StatusGuard} {t : Txn}

/-- A chunk that inserts an approval does so for a gateway call whose checks escalate it. -/
theorem framing_approval (hok : framing.ok m o) (hc : Commits o r g t) {a : Id} {row : ApprovalRequest}
    (ht : t.approval = some (.insert a row)) : ∃ f, m = some f ∧ f.Escalates row := by
  cases hc with
  | plain => exact absurd ht (hok.2.1 a row)
  | guarded => exact hok.2.2.2 a row ht

/-- A chunk that inserts a tool request does so for a gateway call that has none yet. -/
theorem framing_toolRequest (hok : framing.ok m o) (hc : Commits o r g t) {q : Id} {row : ToolRequest}
    (ht : t.toolRequest = some (.insert q row)) : ∃ f, m = some f ∧ f.request = none ∧ f.Files row := by
  cases hc with
  | plain => exact hok.2.2 q row ht
  | guarded => exact absurd ht (hok.2.2.1 q row)

theorem framing_commit (hc : Commits o r g t) : framing.next m o r = m.map (·.commit t) := by
  cases hc <;> cases m <;> rfl

/-- A gateway call never gives up what it has filed or done. -/
structure Frame.Extends (f f' : Frame) (o : Op W.Tables) (r : o.Reply) : Prop where
  call : f'.call = f.call
  called : f.called = true → f'.called = true
  request : f'.request = f.request ∨ ∃ g t q row, Commits o r g t ∧
    t.toolRequest = some (.insert q row) ∧ f'.request = some q
  approval : f'.approval = f.approval ∨ ∃ g t a row, Commits o r g t ∧
    t.approval = some (.insert a row) ∧ f'.approval = some a

theorem Frame.extends_commit (hc : Commits o r g t) (f : Frame) : f.Extends (f.commit t) o r := by
  refine ⟨rfl, id, ?_, ?_⟩
  · unfold Frame.commit
    split
    · exact .inr ⟨g, t, _, _, hc, ‹_›, rfl⟩
    · exact .inl rfl
  · unfold Frame.commit
    simp only
    split
    · exact .inr ⟨g, t, _, _, hc, ‹_›, rfl⟩
    · exact .inl rfl

theorem Frame.extends_observe (f : Frame) (o : Op W.Tables) (r : o.Reply) :
    f.Extends (f.observe o r) o r := by
  have same (f' : Frame) (hcall : f'.call = f.call) (hc : f.called = true → f'.called = true)
      (hr : f'.request = f.request) (ha : f'.approval = f.approval) : f.Extends f' o r :=
    ⟨hcall, hc, .inl hr, .inl ha⟩
  rcases o with q | w | n | _
  · cases q <;> simp only [observe] <;> (try split) <;> exact same _ rfl id rfl rfl
  · cases w with
    | commit attempt t =>
      simp only [observe]
      split
      · rename_i hr
        subst hr
        exact extends_commit (.plain attempt t) f
      · exact same _ rfl id rfl rfl
    | commitIf attempt g t =>
      simp only [observe]
      split
      · rename_i hr
        subst hr
        exact extends_commit (.guarded attempt g t) f
      · exact same _ rfl id rfl rfl
    | _ => exact same _ rfl id rfl rfl
  · cases n with
    | toolExecute => exact same _ rfl (fun _ => rfl) rfl rfl
    | _ => exact same _ rfl id rfl rfl
  · exact same _ rfl id rfl rfl

/-- A frame either has just been opened, or it has grown out of the one before. -/
theorem framing_step {f' : Frame} (h : framing.next m o r = some f') :
    (o = .note (.gatewayEnter f'.call) ∧ f' = { call := f'.call }) ∨ ∃ f, m = some f ∧ f.Extends f' o r := by
  have grown (h : m.map (·.observe o r) = some f') : ∃ f, m = some f ∧ f.Extends f' o r := by
    obtain ⟨f, hm, rfl⟩ := Option.map_eq_some_iff.1 h
    exact ⟨f, hm, f.extends_observe o r⟩
  rcases o with _ | _ | n | _
  · exact .inr (grown h)
  · exact .inr (grown h)
  · cases n with
    | gatewayEnter call =>
      obtain rfl := Option.some.inj h
      exact .inl ⟨rfl, rfl⟩
    | gatewayReturn | gatewayRaise => cases h
    | _ => exact .inr (grown h)
  · exact .inr (grown h)

end Frames

/-- The statement begins a tool call for tool request `q`. -/
def executes (q : Id) (e : Statement W) : Bool :=
  match e.op with
  | .note (.toolExecute tc) => tc.toolRequestId = q
  | _ => false

theorem executes_iff {q : Id} {e : Statement W} :
    executes q e = true ↔ ∃ tc, e.op = .note (.toolExecute tc) ∧ tc.toolRequestId = q := by
  unfold executes
  split
  · rename_i tc he
    simp [he]
  · rename_i he
    simp only [Bool.false_eq_true, false_iff, not_exists, not_and]
    exact fun tc hc => absurd hc (he tc)

/-- The open gateway calls, the tool requests and approvals on file, and the tool calls made so far
agree: each request has one gateway call, and at most one approval or one direct tool call. -/
structure RequestsHold (c : App W) : Prop where
  filed : ∀ i f q, c.past framing none i = some f → f.request = some q → c.state.toolRequests q ≠ none
  owner : ∀ i j f f' q, c.past framing none i = some f → c.past framing none j = some f' →
    f.request = some q → f'.request = some q → i = j
  asked : ∀ a row, c.state.approvals a = some row → c.state.toolRequests row.toolRequestId ≠ none ∧
    ∀ i f, c.past framing none i = some f → f.request = some row.toolRequestId → f.approval ≠ none
  askedOnce : ∀ a b row row', c.state.approvals a = some row → c.state.approvals b = some row' →
    row.toolRequestId = row'.toolRequestId → a = b
  direct : ∀ e ∈ c.history, ∀ tc, e.op = .note (.toolExecute tc) → tc.approvalId = none →
    c.state.toolRequests tc.toolRequestId ≠ none ∧
      (∀ i f, c.past framing none i = some f → f.request = some tc.toolRequestId → f.called = true) ∧
      ∀ a row, c.state.approvals a = some row → row.toolRequestId ≠ tc.toolRequestId
  approved : ∀ e ∈ c.history, ∀ tc a, e.op = .note (.toolExecute tc) → tc.approvalId = some a →
    ∃ row, c.state.approvals a = some row ∧ row.toolRequestId = tc.toolRequestId
  once : ∀ q, (c.history.filter (executes q)).length ≤ 1

namespace RequestsHold

variable {i : Nat} {call : Call} {o : Op W.Tables} {k : o.Reply → Db W CallResult} {r : o.Reply}
  {s : State W.Domain}

theorem toolRequest_kept (heff : Effect d.state o r s) {q : Id} (hq : d.state.toolRequests q ≠ none) :
    s.toolRequests q ≠ none := by
  rcases heff.toolRequests q with he | ⟨_, _, _, _, _, _, hne⟩
  · exact fun h => hq (he.1 h)
  · exact hne

/-- A frame after the step has the request it had before, or one that it has just filed. -/
theorem request_next (heff : Effect d.state o r s) {j : Nat} {f' : Frame}
    (hf : (App.next d i call o k r s).past framing none j = some f') {q : Id} (hq : f'.request = some q) :
    (∃ f, d.past framing none j = some f ∧ f.request = some q ∧ (f.called = true → f'.called = true) ∧
      (f'.approval = f.approval ∨ i = j ∧ ∃ g t a row, Commits o r g t ∧
        t.approval = some (.insert a row) ∧ f'.approval = some a)) ∨
      i = j ∧ d.state.toolRequests q = none ∧ s.toolRequests q ≠ none := by
  rw [App.next_past] at hf
  split at hf
  · rename_i hij
    subst hij
    rcases framing_step hf with ⟨_, hf'⟩ | ⟨f, hm, hext⟩
    · rw [hf'] at hq
      cases hq
    · rcases hext.request with he | ⟨g, t, q', row, hc, ht, he⟩
      · exact .inl ⟨f, hm, he ▸ hq, hext.called, hext.approval.imp id fun h => ⟨rfl, h⟩⟩
      · obtain rfl := Option.some.inj (he.symm.trans hq)
        obtain ⟨_, hv, _, startedAt, rfl⟩ := heff.of_commits hc
        refine .inr ⟨rfl, ?_, ?_⟩
        · by_contra hne
          exact hv (.inl ⟨q', row, ht, hne⟩)
        · simp [ht, State.writeToolRequest]
  · exact .inl ⟨f', hf, hq, id, .inl rfl⟩

/-- An approval after the step was on file before, or the thread's gateway call has just asked for it. -/
theorem approval_next (hok : framing.ok (d.past framing none i) o) (heff : Effect d.state o r s) {a : Id}
    {row' : ApprovalRequest} (hrow' : s.approvals a = some row') :
    (∃ row, d.state.approvals a = some row ∧ row'.asked = row.asked) ∨
      ∃ g t f, Commits o r g t ∧ t.approval = some (.insert a row') ∧
        d.past framing none i = some f ∧ f.Escalates row' := by
  rcases heff.approvals a with he | ⟨row'', hchange, he⟩
  · exact .inl ⟨row', he.symm.trans hrow', rfl⟩
  obtain rfl := Option.some.inj (he.symm.trans hrow')
  cases hchange with
  | inserted row hc ht hfree =>
    obtain ⟨f, hf, hesc⟩ := framing_approval hok hc ht
    exact .inr ⟨_, _, f, hc, ht, hf, hesc⟩
  | claimed _ _ _ row hrow | expired _ row hrow | executed _ row _ _ hrow => exact .inl ⟨row, hrow, rfl⟩

section Step

variable (h : RequestsHold d) (hok : framing.ok (d.past framing none i) o) (heff : Effect d.state o r s)
include h hok heff

theorem asked_next {a : Id} {row' : ApprovalRequest} (hrow' : s.approvals a = some row') :
    s.toolRequests row'.toolRequestId ≠ none ∧
      ∀ j f', (App.next d i call o k r s).past framing none j = some f' →
        f'.request = some row'.toolRequestId → f'.approval ≠ none := by
  rcases approval_next hok heff hrow' with ⟨row, hrow, he⟩ | ⟨g, t, f, hc, ht, hm, hesc⟩
  · obtain ⟨hfiled, hframes⟩ := h.asked a row hrow
    rw [ApprovalRequest.toolRequestId_congr he]
    refine ⟨toolRequest_kept heff hfiled, fun j f' hf hq => ?_⟩
    rcases request_next heff hf hq with ⟨f, hf, hq, _, ha⟩ | ⟨_, hfree, _⟩
    · rcases ha with ha | ⟨_, _, _, b, _, _, _, ha⟩
      · exact ha ▸ hframes j f hf hq
      · simp [ha]
    · exact absurd hfree hfiled
  · have hfiled := h.filed i f _ hm hesc.request
    refine ⟨toolRequest_kept heff hfiled, fun j f' hf hq => ?_⟩
    rcases request_next heff hf hq with ⟨f₂, hf₂, hq₂, _⟩ | ⟨_, hfree, _⟩
    · obtain rfl := h.owner i j f f₂ _ hm hf₂ hesc.request hq₂
      rw [App.next_past, if_pos rfl, framing_commit hc, hm] at hf
      obtain rfl := Option.some.inj hf
      simp [Frame.commit, ht]
    · exact absurd hfree hfiled

theorem askedOnce_next {a b : Id} {row row' : ApprovalRequest} (hrow : s.approvals a = some row)
    (hrow' : s.approvals b = some row') (hq : row.toolRequestId = row'.toolRequestId) : a = b := by
  rcases approval_next hok heff hrow with ⟨row₀, h₀, he⟩ | ⟨g, t, f, hc, ht, hm, hesc⟩ <;>
    rcases approval_next hok heff hrow' with ⟨row₁, h₁, he'⟩ | ⟨g', t', f', hc', ht', hm', hesc'⟩
  · rw [ApprovalRequest.toolRequestId_congr he, ApprovalRequest.toolRequestId_congr he'] at hq
    exact h.askedOnce a b row₀ row₁ h₀ h₁ hq
  · rw [ApprovalRequest.toolRequestId_congr he] at hq
    exact absurd hesc'.undecided ((h.asked a row₀ h₀).2 i f' hm' (by rw [hesc'.request, hq]))
  · rw [ApprovalRequest.toolRequestId_congr he'] at hq
    exact absurd hesc.undecided ((h.asked b row₁ h₁).2 i f hm (by rw [hesc.request, hq]))
  · obtain ⟨_, rfl⟩ := hc.unique hc'
    exact (ApprovalWrite.insert.inj (Option.some.inj (ht.symm.trans ht'))).1

theorem direct_next {tc : ToolCall} (e : Statement W) (he : e ∈ (App.next d i call o k r s).history)
    (htc : e.op = .note (.toolExecute tc)) (hn : tc.approvalId = none) :
    s.toolRequests tc.toolRequestId ≠ none ∧
      (∀ j f', (App.next d i call o k r s).past framing none j = some f' →
        f'.request = some tc.toolRequestId → f'.called = true) ∧
      ∀ a row, s.approvals a = some row → row.toolRequestId ≠ tc.toolRequestId := by
  rcases List.mem_cons.1 he with rfl | he
  · obtain rfl : o = .note (.toolExecute tc) := htc
    obtain ⟨f, hm, hadm⟩ := hok.2 hn
    have hfiled := h.filed i f _ hm hadm.request
    refine ⟨toolRequest_kept heff hfiled, fun j f' hf hq => ?_, fun a row' hrow' hq => ?_⟩
    · rcases request_next heff hf hq with ⟨f₂, hf₂, hq₂, _⟩ | ⟨_, hfree, _⟩
      · obtain rfl := h.owner i j f f₂ _ hm hf₂ hadm.request hq₂
        rw [App.next_past, if_pos rfl, hm] at hf
        obtain rfl := Option.some.inj hf
        rfl
      · exact absurd hfree hfiled
    · rcases approval_next hok heff hrow' with ⟨row, hrow, heq⟩ | ⟨g, t, _, hc, _⟩
      · rw [ApprovalRequest.toolRequestId_congr heq] at hq
        exact (h.asked a row hrow).2 i f hm (by rw [hadm.request, hq]) hadm.undecided
      · cases hc
  · obtain ⟨hfiled, hcalled, happ⟩ := h.direct e he tc htc hn
    refine ⟨toolRequest_kept heff hfiled, fun j f' hf hq => ?_, fun a row' hrow' hq => ?_⟩
    · rcases request_next heff hf hq with ⟨f, hf, hq, hc, _⟩ | ⟨_, hfree, _⟩
      · exact hc (hcalled j f hf hq)
      · exact absurd hfree hfiled
    · rcases approval_next hok heff hrow' with ⟨row, hrow, heq⟩ | ⟨g, t, f, _, _, hm, hesc⟩
      · exact happ a row hrow ((ApprovalRequest.toolRequestId_congr heq).symm.trans hq)
      · have := hcalled i f hm (by rw [hesc.request, hq])
        rw [hesc.fresh] at this
        cases this

end Step

/-- An approved tool call is for the tool request of its approval. -/
theorem approved_next (h : RequestsHold d) (hd : ReachableWithin ok d)
    (hend : endorsing.ok (d.past endorsing {} i) o) (heff : Effect d.state o r s) {tc : ToolCall} {a : Id}
    (e : Statement W) (he : e ∈ (App.next d i call o k r s).history)
    (htc : e.op = .note (.toolExecute tc)) (ha : tc.approvalId = some a) :
    ∃ row, s.approvals a = some row ∧ row.toolRequestId = tc.toolRequestId := by
  obtain ⟨row, hrow, hq⟩ : ∃ row, d.state.approvals a = some row ∧ row.toolRequestId = tc.toolRequestId := by
    rcases List.mem_cons.1 he with rfl | he
    · obtain rfl : o = .note (.toolExecute tc) := htc
      obtain ⟨_, row, hread, rfl⟩ := hend a ha
      obtain ⟨row', hrow', hasked⟩ := hd.endorsed hread
      exact ⟨row', hrow', ApprovalRequest.toolRequestId_congr hasked⟩
    · exact h.approved e he tc a htc ha
  obtain ⟨row', hrow', hasked⟩ := heff.asked hrow
  exact ⟨row', hrow', (ApprovalRequest.toolRequestId_congr hasked).trans hq⟩

/-- A tool call finds no other for its tool request. -/
theorem fresh_call (h : RequestsHold d) (hd : ReachableWithin ok d) {tc : ToolCall}
    (hok : framing.ok (d.past framing none i) (.note (.toolExecute tc) : Op W.Tables))
    (hend : endorsing.ok (d.past endorsing {} i) (.note (.toolExecute tc) : Op W.Tables))
    (honce : ∀ a, tc.approvalId = some a → d.history.filter (callsTool a) = []) :
    d.history.filter (executes tc.toolRequestId) = [] := by
  refine List.filter_eq_nil_iff.2 fun e he hex => ?_
  obtain ⟨tc', htc', hq⟩ := executes_iff.1 hex
  rcases ha : tc.approvalId with _ | a <;> rcases ha' : tc'.approvalId with _ | b
  · obtain ⟨f, hm, hadm⟩ := hok.2 ha
    have := (h.direct e he tc' htc' ha').2.1 i f hm (by rw [hadm.request, hq])
    rw [hadm.fresh] at this
    cases this
  · obtain ⟨f, hm, hadm⟩ := hok.2 ha
    obtain ⟨row, hrow, hrq⟩ := h.approved e he tc' b htc' ha'
    exact (h.asked b row hrow).2 i f hm (by rw [hadm.request, hrq, hq]) hadm.undecided
  all_goals
    obtain ⟨_, row, hread, rfl⟩ := hend a ha
    obtain ⟨row', hrow', hasked⟩ := hd.endorsed hread
    have hrq := ApprovalRequest.toolRequestId_congr hasked
  · exact (h.direct e he tc' htc' ha').2.2 a row' hrow' (hrq.trans hq.symm)
  · obtain ⟨row'', hrow'', hrq'⟩ := h.approved e he tc' b htc' ha'
    obtain rfl := h.askedOnce a b row' row'' hrow' hrow'' (by rw [hrq, hrq', hq]; rfl)
    exact List.filter_eq_nil_iff.1 (honce a rfl) e he (callsTool_iff.2 ⟨tc', htc', ha'⟩)

end RequestsHold

theorem ReachableWithin.requestsHold (h : ReachableWithin ok c) : RequestsHold c := by
  refine h.invariant ?_ ?_ ?_ ?_
  · intro s hs
    exact ⟨by simp, by simp, fun a row h => by simp [hs.approvals] at h,
      fun a b row row' h => by simp [hs.approvals] at h, by simp, by simp, by simp⟩
  · exact fun d call h => ⟨h.filed, h.owner, h.asked, h.askedOnce, h.direct, h.approved, h.once⟩
  · intro d change h
    exact ⟨by simpa using h.filed, by simpa using h.owner, by simpa using h.asked,
      by simpa using h.askedOnce, by simpa using h.direct, by simpa using h.approved, h.once⟩
  · intro d i call o k r s hd hw hi _ heff h
    have hok := (hd.monitored Call.code_framing).allowed hw
    have hend := (hd.monitored Call.code_endorsing).allowed hw
    refine ⟨fun j f' q hf hq => ?_, fun j j' f f' q hf hf' hq hq' => ?_,
      fun a row' hrow' => h.asked_next hok heff hrow',
      fun a b row row' hrow hrow' hq => h.askedOnce_next hok heff hrow hrow' hq,
      fun e he tc htc hn => h.direct_next hok heff e he htc hn,
      fun e he tc a htc ha => h.approved_next hd hend heff e he htc ha, fun q => ?_⟩
    · rcases RequestsHold.request_next heff hf hq with ⟨f, hf, hq, _⟩ | ⟨_, _, hne⟩
      · exact RequestsHold.toolRequest_kept heff (h.filed j f q hf hq)
      · exact hne
    · rcases RequestsHold.request_next heff hf hq with ⟨f₁, hf₁, hq₁, _⟩ | ⟨hij, hfree, _⟩ <;>
        rcases RequestsHold.request_next heff hf' hq' with ⟨f₂, hf₂, hq₂, _⟩ | ⟨hij', hfree', _⟩
      · exact h.owner j j' f₁ f₂ q hf₁ hf₂ hq₁ hq₂
      · exact absurd hfree' (h.filed j f₁ q hf₁ hq₁)
      · exact absurd hfree (h.filed j' f₂ q hf₂ hq₂)
      · exact hij ▸ hij'
    · rw [App.next_history, List.filter_cons]
      split
      · rename_i hex
        obtain ⟨tc, htc, rfl⟩ := executes_iff.1 hex
        obtain rfl : o = .note (.toolExecute tc) := htc
        have hclaims : ClaimsHold (App.next d i call (.note (.toolExecute tc)) k r s) := hd.claimsHold.next
          ((hd.monitored Call.code_resolving).allowed hw) hi heff
        rw [h.fresh_call hd hok hend fun a ha => ?_]
        · simp
        · have := hclaims.calledOnce a
          rw [App.next_history, List.filter_cons_of_pos (callsTool_iff.2 ⟨tc, rfl, ha⟩)] at this
          exact List.length_eq_zero_iff.1 (Nat.le_zero.1 (Nat.le_of_succ_le_succ this))
      · exact h.once q

/-- The gateway call that is open in thread `i` after the history `h`. -/
def openCall (h : List (Statement W)) (i : Nat) : Option Frame := framing.after none i h

/-- The checks of the gateway call that thread `i` is in allow the tool call. -/
def Direct (h : List (Statement W)) (i : Nat) (tc : ToolCall) : Prop :=
  tc.approvalId = none ∧ ∃ f, openCall h i = some f ∧ f.Admits tc

/-- The checks of a gateway call have left the decision on `row` to a human, as approval `a`. -/
def Asked (h : List (Statement W)) (a : Id) (row : ApprovalRequest) : Prop :=
  ∃ later e earlier g t f, h = later ++ e :: earlier ∧ Commits e.op e.reply g t ∧
    t.approval = some (.insert a row) ∧ openCall earlier e.thread = some f ∧ f.Escalates row

/-- Approval `a` asks for this very tool call, and thread `i` has approved it before it expired, by a
clock reading of its own. -/
def Approved (h : List (Statement W)) (i : Nat) (a : Id) (tc : ToolCall) : Prop :=
  ∃ row now by', tc = row.toolCall a ∧ Asked h a row ∧ now < row.expiresAt ∧
    ⟨i, .query .clock, now⟩ ∈ h ∧ ⟨i, .write (.claimApproval a .approved now by'), true⟩ ∈ h

theorem Asked.cons {h : List (Statement W)} {a : Id} {row : ApprovalRequest} (ha : Asked h a row)
    (e : Statement W) : Asked (e :: h) a row := by
  obtain ⟨later, e', earlier, g, t, f, rfl, rest⟩ := ha
  exact ⟨e :: later, e', earlier, g, t, f, rfl, rest⟩

/-- Every approval on file has been asked for by a gateway call. -/
theorem ReachableWithin.wasAsked (h : ReachableWithin ok c) {a : Id} {row : ApprovalRequest}
    (hrow : c.state.approvals a = some row) : ∃ row₀, Asked c.history a row₀ ∧ row.asked = row₀.asked := by
  revert row
  refine h.invariant (I := fun c => ∀ {row}, c.state.approvals a = some row →
    ∃ row₀, Asked c.history a row₀ ∧ row.asked = row₀.asked) (fun s hs row h => ?_) (fun _ _ h => h)
    (fun d change h row => by simpa using h) ?_
  · simp [hs.approvals] at h
  · intro d i call o k r s hd hw hi _ heff hI row hrow
    have hok := (hd.monitored Call.code_framing).allowed hw
    rcases RequestsHold.approval_next hok heff hrow with ⟨row', hrow', he⟩ | ⟨g, t, f, hc, ht, hm, hesc⟩
    · obtain ⟨row₀, hasked, he'⟩ := hI hrow'
      exact ⟨row₀, hasked.cons _, he.trans he'⟩
    · exact ⟨row, ⟨[], ⟨i, o, r⟩, d.history, g, t, f, rfl, hc, ht, hm, hesc⟩, rfl⟩

/-- Every tool call rests on its own gateway call or on an approval. -/
theorem ReachableWithin.mediated (h : ReachableWithin ok c) {later earlier : List (Statement W)}
    {e : Statement W} (hist : c.history = later ++ e :: earlier) {tc : ToolCall}
    (htc : e.op = .note (.toolExecute tc)) :
    Direct earlier e.thread tc ∨ ∃ a, tc.approvalId = some a ∧ Approved earlier e.thread a tc := by
  revert htc
  refine h.always (P := fun earlier e => e.op = .note (.toolExecute tc) → Direct earlier e.thread tc ∨
    ∃ a, tc.approvalId = some a ∧ Approved earlier e.thread a tc) ?_ hist
  rintro d i call o k r s hd hw hi _ heff rfl
  have hm := hd.claimsHold
  rcases ha : tc.approvalId with _ | a
  · exact .inl ⟨ha, ((hd.monitored Call.code_framing).allowed hw).2 ha⟩
  · obtain ⟨_, row, hread, htc⟩ := (hd.monitored Call.code_endorsing).allowed hw a ha
    obtain ⟨row', hrow', hasked⟩ := hd.endorsed hread
    obtain ⟨row₀, hasked₀, he⟩ := hd.wasAsked hrow'
    obtain ⟨_, now, hclaim⟩ := (hd.monitored Call.code_resolving).allowed hw a ha
    obtain ⟨hnow, _, row'', hrow'', hlt, _⟩ := hm.claimed i _ hclaim
    obtain rfl := Option.some.inj (hrow'.symm.trans hrow'')
    obtain ⟨by', hrecorded⟩ := claim_recorded hclaim
    refine .inr ⟨a, rfl, row₀, now, by', ?_, hasked₀, ?_, reading_recorded hnow, hrecorded⟩
    · rw [htc, ← ApprovalRequest.toolCall_congr hasked, ApprovalRequest.toolCall_congr he]
    · change now < row'.asked.expiresAt at hlt
      rwa [he] at hlt

/-- A gateway call that has asked for an approval does nothing more but say so. -/
theorem ReachableWithin.asksThenReturns (h : ReachableWithin ok c)
    {later mid earlier : List (Statement W)} {e e' : Statement W}
    (hist : c.history = later ++ e' :: (mid ++ e :: earlier)) {g : Option StatusGuard} {t : Txn}
    (hc : Commits e.op e.reply g t) {a : Id} {row : ApprovalRequest}
    (ht : t.approval = some (.insert a row)) (hmid : ∀ x ∈ mid, x.thread ≠ e.thread)
    (hthread : e'.thread = e.thread) : e'.op = .note (.gatewayReturn .requiresApproval) := by
  have hist' : c.history = (later ++ e' :: mid) ++ e :: earlier := by simpa using hist
  have hok := h.lawful Call.code_framing hist'
  obtain ⟨f, hf, _⟩ := framing_approval hok hc ht
  have hnext := h.lawful Call.code_framing hist
  rw [hthread, Monitor.after_append hmid, Monitor.after_self, framing_commit hc, hf] at hnext
  exact hnext.1 _ rfl (by simp [Frame.commit, ht])

end SafeOps
