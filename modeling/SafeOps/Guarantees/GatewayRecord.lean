import SafeOps.Observers.Docket
import SafeOps.Guarantees.Mediation
import SafeOps.Bench

/-! The answer of a gateway call, its tool request and its audit events agree, unless the call asks for an
approval when its execution no longer runs. -/

namespace SafeOps
open Concurrent Program

variable {W : World} {ok : App W → Statement W → Prop} {c d : App W}

/-- The answer with which a gateway call has just returned, and its docket. -/
def returned : List (Statement W) → Option (GatewayStatus × Docket)
  | ⟨i, .note (.gatewayReturn status), _⟩ :: earlier => (docketing.after none i earlier).map (status, ·)
  | _ => none

theorem returned_iff {h : List (Statement W)} {status : GatewayStatus} {docket : Docket} :
    returned h = some (status, docket) ↔ ∃ e earlier, h = e :: earlier ∧ e.op = .note (.gatewayReturn status) ∧
      docketing.after none e.thread earlier = some docket := by
  constructor
  · intro hr
    unfold returned at hr
    split at hr
    · rename_i i status' _ earlier
      obtain ⟨_, hd, he⟩ := Option.map_eq_some_iff.1 hr
      obtain ⟨rfl, rfl⟩ := Prod.mk.inj he
      exact ⟨_, earlier, rfl, rfl, hd⟩
    · cases hr
  · rintro ⟨⟨i, o, r⟩, earlier, rfl, rfl, hd⟩
    exact Option.map_eq_some_iff.2 ⟨docket, hd, rfl⟩

section Step

variable {m : Option Docket} {o : Op W.Tables} {r : o.Reply} {g : Option StatusGuard} {t : Txn}

theorem docketing_commit (hc : Commits o r g t) : docketing.next m o r = m.map (·.commit t) := by
  cases hc <;> cases m <;> rfl

theorem Docket.observe_kept (docket : Docket) (hc : ∀ g t, ¬Commits o r g t) :
    (docket.observe o r).created = docket.created ∧ (docket.observe o r).request = docket.request := by
  rcases o with q | w | _ | _
  · cases q with
    | agent | execution =>
      simp only [observe]
      split <;> exact ⟨rfl, rfl⟩
    | _ => exact ⟨rfl, rfl⟩
  · cases w with
    | commit attempt t =>
      simp only [observe]
      split
      · rename_i hr
        subst hr
        exact absurd (.plain attempt t) (hc none t)
      · exact ⟨rfl, rfl⟩
    | commitIf attempt g t =>
      simp only [observe]
      split
      · exact ⟨rfl, rfl⟩
      · split
        · rename_i hr
          subst hr
          exact absurd (.guarded attempt g t) (hc (some g) t)
        · exact ⟨rfl, rfl⟩
    | _ => exact ⟨rfl, rfl⟩
  · exact ⟨rfl, rfl⟩
  · exact ⟨rfl, rfl⟩

/-- A docket has just been opened, or its call has committed a chunk, or its tool request is as it was. -/
theorem docketing_step {docket' : Docket} (h : docketing.next m o r = some docket') :
    docket'.created = [] ∧ docket'.request = none ∨ ∃ docket, m = some docket ∧
      ((∃ g t, Commits o r g t ∧ docket' = docket.commit t) ∨
        (∀ g t, ¬Commits o r g t) ∧ docket'.created = docket.created ∧ docket'.request = docket.request) := by
  by_cases hc : ∃ g t, Commits o r g t
  · obtain ⟨g, t, hc⟩ := hc
    rw [docketing_commit hc] at h
    obtain ⟨docket, hm, rfl⟩ := Option.map_eq_some_iff.1 h
    exact .inr ⟨docket, hm, .inl ⟨g, t, hc, rfl⟩⟩
  · have hc (g t) : ¬Commits o r g t := fun h => hc ⟨g, t, h⟩
    have observed (h : m.map (·.observe o r) = some docket') : ∃ docket, m = some docket ∧
        ((∃ g t, Commits o r g t ∧ docket' = docket.commit t) ∨
          (∀ g t, ¬Commits o r g t) ∧ docket'.created = docket.created ∧ docket'.request = docket.request) := by
      obtain ⟨docket, hm, rfl⟩ := Option.map_eq_some_iff.1 h
      exact ⟨docket, hm, .inr ⟨hc, docket.observe_kept hc⟩⟩
    rcases o with _ | _ | n | _
    · exact .inr (observed h)
    · exact .inr (observed h)
    · cases n with
      | gatewayEnter call =>
        obtain rfl := Option.some.inj h
        exact .inl ⟨rfl, rfl⟩
      | gatewayReturn | gatewayRaise => cases h
      | _ => exact .inr (observed h)
    · exact .inr (observed h)

/-- What a chunk that commits makes of the tool requests. -/
theorem Effect.toolRequests_of_commits {s s' : State W.Domain} (heff : Effect s o r s') (hc : Commits o r g t) :
    ∃ startedAt, s'.toolRequests = (State.writeToolRequest startedAt t.toolRequest s).toolRequests := by
  obtain ⟨_, _, _, startedAt, rfl⟩ := heff.of_commits hc
  refine ⟨startedAt, ?_⟩
  rw [State.applyTxn_toolRequests]
  cases g <;> rcases t.toolRequest with _ | _ | _ <;> rfl

end Step

/-- The tool request is on file and not pending, and belongs to no open gateway call. -/
def Concluded (c : App W) (q : Id) : Prop :=
  (∃ row, c.state.toolRequests q = some row ∧ row.status ≠ .requested) ∧
    ∀ j docket, c.past docketing none j = some docket → q ∉ docket.created

/-- The dockets of the open gateway calls, and those of the calls that have returned, agree with the table of
the tool requests. -/
structure DocketsHold (c : App W) : Prop where
  filed : ∀ j docket q, c.past docketing none j = some docket → q ∈ docket.created →
    c.state.toolRequests q ≠ none
  owner : ∀ i j docket docket' q, c.past docketing none i = some docket →
    c.past docketing none j = some docket' → q ∈ docket.created → q ∈ docket'.created → i = j
  current : ∀ j docket q row, c.past docketing none j = some docket → docket.request = some (q, row) →
    q ∈ docket.created ∧ ∀ row', c.state.toolRequests q = some row' → row'.status = .requested →
      row.status = .requested
  closed : ∀ later now status docket, c.history = later ++ now → returned now = some (status, docket) →
    docket.Admitted → docket.conflict = false → ∀ q ∈ docket.created, Concluded c q

namespace DocketsHold

variable {i : Nat} {call : Call} {o : Op W.Tables} {k : o.Reply → Db W CallResult} {r : o.Reply}
  {s : State W.Domain}

/-- A docket after the step has the tool request it had before, or one that the step has filed. -/
theorem created_next (heff : Effect d.state o r s) {j : Nat} {docket' : Docket}
    (hdocket : (App.next d i call o k r s).past docketing none j = some docket') {q : Id}
    (hq : q ∈ docket'.created) :
    (∃ docket, d.past docketing none j = some docket ∧ q ∈ docket.created) ∨
      i = j ∧ d.state.toolRequests q = none ∧ s.toolRequests q ≠ none := by
  rw [App.next_past] at hdocket
  split at hdocket
  · rename_i hij
    subst hij
    obtain ⟨hnil, _⟩ | ⟨docket, hm, ⟨g, t, hc, rfl⟩ | ⟨_, hcreated, _⟩⟩ := docketing_step hdocket
    · rw [hnil] at hq
      cases hq
    · obtain ⟨_, hv, _, startedAt, rfl⟩ := heff.of_commits hc
      simp only [Docket.commit] at hq
      split at hq
      · rename_i q' row ht
        rcases List.mem_cons.1 hq with rfl | hq
        · refine .inr ⟨rfl, ?_, by simp [ht, State.writeToolRequest]⟩
          by_contra hne
          exact hv (.inl ⟨q, row, ht, hne⟩)
        · exact .inl ⟨docket, hm, hq⟩
      · exact .inl ⟨docket, hm, hq⟩
    · exact .inl ⟨docket, hm, hcreated ▸ hq⟩
  · exact .inl ⟨docket', hdocket, hq⟩

/-- A step that puts a tool request into `REQUESTED` files it, or belongs to the gateway call that has. -/
theorem requested_next (h : DocketsHold d) (hok : docketing.ok (d.past docketing none i) o)
    (heff : Effect d.state o r s) {q : Id} {row row' : ToolRequest} (hrow : d.state.toolRequests q = some row)
    (hrow' : s.toolRequests q = some row') (hs : row'.status = .requested) :
    row.status = .requested ∨ ∃ docket, d.past docketing none i = some docket ∧ q ∈ docket.created := by
  rcases heff.toolRequest q with he | ⟨g, t, hc, ⟨_, _, _, hfree, _⟩ | ⟨u, ht, he⟩⟩
  · obtain rfl := Option.some.inj (hrow.symm.trans (he.symm.trans hrow'))
    exact .inl hs
  · cases hfree.symm.trans hrow
  · rw [he, hrow] at hrow'
    obtain rfl := Option.some.inj hrow'
    have allowed : t.Closing ∨ ∃ docket, d.past docketing none i = some docket ∧ docket.Allows t := by
      cases hc <;> exact hok
    rcases allowed with hclosing | ⟨docket, hm, hallows⟩
    · exact absurd hs (hclosing q u ht)
    · obtain ⟨_, hrequest, _⟩ := hallows q u ht hs
      exact .inr ⟨docket, hm, (h.current i docket q _ hm hrequest).1⟩

section Step

variable (h : DocketsHold d) (hok : docketing.ok (d.past docketing none i) o) (heff : Effect d.state o r s)
include h heff

theorem filed_next {j : Nat} {docket' : Docket}
    (hdocket : (App.next d i call o k r s).past docketing none j = some docket') {q : Id}
    (hq : q ∈ docket'.created) : s.toolRequests q ≠ none := by
  rcases created_next heff hdocket hq with ⟨docket, hdocket, hq⟩ | ⟨_, _, hne⟩
  · exact RequestsHold.toolRequest_kept heff (h.filed j docket q hdocket hq)
  · exact hne

theorem owner_next {j j' : Nat} {docket docket' : Docket}
    (hdocket : (App.next d i call o k r s).past docketing none j = some docket)
    (hdocket' : (App.next d i call o k r s).past docketing none j' = some docket') {q : Id}
    (hq : q ∈ docket.created) (hq' : q ∈ docket'.created) : j = j' := by
  rcases created_next heff hdocket hq with ⟨docket₁, h₁, hq₁⟩ | ⟨hij, hfree, _⟩ <;>
    rcases created_next heff hdocket' hq' with ⟨docket₂, h₂, hq₂⟩ | ⟨hij', hfree', _⟩
  · exact h.owner j j' docket₁ docket₂ q h₁ h₂ hq₁ hq₂
  · exact absurd hfree' (h.filed j docket₁ q h₁ hq₁)
  · exact absurd hfree (h.filed j' docket₂ q h₂ hq₂)
  · exact hij ▸ hij'

include hok in
/-- What another call does to the tool requests on an open docket. -/
theorem current_kept {j : Nat} (hij : i ≠ j) {docket : Docket} (hdocket : d.past docketing none j = some docket)
    {q : Id} {row row' : ToolRequest} (hrow : docket.request = some (q, row))
    (hrow' : s.toolRequests q = some row') (hs : row'.status = .requested) : row.status = .requested := by
  obtain ⟨hq, hcurrent⟩ := h.current j docket q row hdocket hrow
  obtain ⟨row₀, hrow₀⟩ := Option.ne_none_iff_exists'.1 (h.filed j docket q hdocket hq)
  rcases h.requested_next hok heff hrow₀ hrow' hs with hs | ⟨docket', hdocket', hq'⟩
  · exact hcurrent row₀ hrow₀ hs
  · exact absurd (h.owner i j docket' docket q hdocket' hdocket hq' hq) hij

/-- What a call does to its own tool request. -/
theorem current_committed {docket : Docket} (hdocket : d.past docketing none i = some docket)
    {g : Option StatusGuard} {t : Txn} (hc : Commits o r g t) {q : Id} {row : ToolRequest}
    (hrow : (docket.commit t).request = some (q, row)) :
    q ∈ (docket.commit t).created ∧ ∀ row', s.toolRequests q = some row' → row'.status = .requested →
      row.status = .requested := by
  obtain ⟨startedAt, he⟩ := heff.toolRequests_of_commits hc
  rw [he]
  simp only [Docket.commit] at hrow ⊢
  rcases ht : t.toolRequest with _ | ⟨q', row₀⟩ | ⟨q', u⟩
  · rw [ht] at hrow
    exact h.current i docket q row hdocket hrow
  · rw [ht] at hrow
    obtain ⟨rfl, rfl⟩ := Prod.mk.inj (Option.some.inj hrow)
    refine ⟨List.mem_cons_self, fun row' hrow' hs => ?_⟩
    simp only [State.writeToolRequest, Function.update_self, Option.some.injEq] at hrow'
    subst hrow'
    exact hs
  · rw [ht] at hrow
    obtain ⟨⟨q₀, row₀⟩, hrow₀, hrow⟩ := Option.map_eq_some_iff.1 hrow
    obtain ⟨hq, hcurrent⟩ := h.current i docket q₀ row₀ hdocket hrow₀
    simp only [State.writeToolRequest, State.modifyToolRequest]
    split at hrow
    · rename_i hq'
      obtain ⟨rfl, rfl⟩ := Prod.mk.inj hrow
      refine ⟨hq, fun row' hrow' hs => ?_⟩
      subst hq'
      rw [Function.update_self] at hrow'
      obtain ⟨_, _, rfl⟩ := Option.map_eq_some_iff.1 hrow'
      exact hs
    · rename_i hq'
      obtain ⟨rfl, rfl⟩ := Prod.mk.inj hrow
      refine ⟨hq, fun row' hrow' => ?_⟩
      rw [Function.update_of_ne hq'] at hrow'
      exact hcurrent row' hrow'

include hok in
theorem current_next {j : Nat} {docket' : Docket}
    (hdocket : (App.next d i call o k r s).past docketing none j = some docket') {q : Id} {row : ToolRequest}
    (hrow : docket'.request = some (q, row)) :
    q ∈ docket'.created ∧ ∀ row', s.toolRequests q = some row' → row'.status = .requested →
      row.status = .requested := by
  rw [App.next_past] at hdocket
  split at hdocket
  · rename_i hij
    subst hij
    obtain ⟨_, hnone⟩ | ⟨docket, hm, ⟨g, t, hc, rfl⟩ | ⟨hc, hcreated, hrequest⟩⟩ := docketing_step hdocket
    · cases hnone.symm.trans hrow
    · exact h.current_committed heff hm hc hrow
    · obtain ⟨hq, hcurrent⟩ := h.current i docket q row hm (hrequest ▸ hrow)
      refine ⟨hcreated ▸ hq, ?_⟩
      rcases heff.toolRequest q with he | ⟨g, t, hcommit, _⟩
      · rwa [he]
      · exact absurd hcommit (hc g t)
  · rename_i hij
    exact ⟨(h.current j docket' q row hdocket hrow).1, fun row' hrow' hs =>
      h.current_kept hok heff hij hdocket hrow hrow' hs⟩

include hok in
/-- A tool request once concluded is never opened again. -/
theorem concluded_next {q : Id} (hq : Concluded d q) : Concluded (App.next d i call o k r s) q := by
  obtain ⟨⟨row, hrow, hs⟩, hfree⟩ := hq
  constructor
  · obtain ⟨row', hrow'⟩ := Option.ne_none_iff_exists'.1
      (RequestsHold.toolRequest_kept heff (q := q) (by simp [hrow]))
    refine ⟨row', hrow', fun hs' => ?_⟩
    rcases h.requested_next hok heff hrow hrow' hs' with hs' | ⟨docket, hdocket, hq⟩
    · exact hs hs'
    · exact hfree i docket hdocket hq
  · intro j docket' hdocket hq
    rcases created_next heff hdocket hq with ⟨docket, hdocket, hq⟩ | ⟨_, hnone, _⟩
    · exact hfree j docket hdocket hq
    · cases hnone.symm.trans hrow

/-- A call that returns in agreement with its docket has concluded its tool request. -/
theorem concluded_return {status : GatewayStatus} (ho : o = .note (.gatewayReturn status)) {docket : Docket}
    (hdocket : d.past docketing none i = some docket) (ha : docket.Agrees status) :
    ∀ q ∈ docket.created, Concluded (App.next d i call o k r s) q := by
  subst ho
  intro q hq
  obtain ⟨⟨q', row, hcreated, hrow, hs, _⟩, _⟩ := ha
  obtain rfl : q = q' := by simpa [hcreated] using hq
  have same : s.toolRequests q = d.state.toolRequests q := by
    rcases heff.toolRequest q with he | ⟨g, t, hc, _⟩
    · exact he
    · cases hc
  constructor
  · obtain ⟨row', hrow'⟩ := Option.ne_none_iff_exists'.1 (h.filed i docket q hdocket hq)
    refine ⟨row', same.trans hrow', fun hs' => status.recorded_ne_requested ?_⟩
    exact hs.symm.trans ((h.current i docket q row hdocket hrow).2 row' hrow' hs')
  · intro j docket' hdocket' hq'
    rw [App.next_past] at hdocket'
    split at hdocket'
    · cases hdocket'
    · rename_i hij
      exact hij (h.owner i j docket docket' q hdocket hdocket' hq hq')

end Step

end DocketsHold

theorem ReachableWithin.docketsHold (h : ReachableWithin ok c) : DocketsHold c := by
  refine h.invariant ?_ ?_ ?_ ?_
  · intro s hs
    refine ⟨by simp, by simp, by simp, fun later now status docket hist hret => ?_⟩
    obtain ⟨_, rfl⟩ := List.append_eq_nil_iff.1 hist.symm
    cases hret
  · exact fun d call h => ⟨h.filed, h.owner, h.current, h.closed⟩
  · intro d change h
    exact ⟨by simpa using h.filed, by simpa using h.owner, by simpa using h.current,
      by simpa [Concluded] using h.closed⟩
  · intro d i call o k r s hd hw hi _ heff h
    have hok := (hd.monitored Call.code_docketing).allowed hw
    refine ⟨fun j docket q hdocket hq => h.filed_next heff hdocket hq,
      fun j j' docket docket' q hdocket hdocket' hq hq' => h.owner_next heff hdocket hdocket' hq hq',
      fun j docket q row hdocket hrow => h.current_next hok heff hdocket hrow, ?_⟩
    intro later now status docket hist hret hadm hquiet
    cases later with
    | nil =>
      obtain ⟨e, earlier, hnow, hop, hdocket⟩ := returned_iff.1 hret
      obtain ⟨rfl, rfl⟩ := List.cons.inj (hist.trans hnow)
      obtain rfl : o = .note (.gatewayReturn status) := hop
      obtain ⟨docket', hm, hagrees⟩ := hok
      obtain rfl := Option.some.inj (hdocket.symm.trans hm)
      exact h.concluded_return heff rfl hdocket ((hagrees hadm).2 hquiet)
    | cons _ later =>
      exact fun q hq => h.concluded_next hok heff
        (h.closed later now status docket (List.cons.inj hist).2 hret hadm hquiet q hq)

/-- A gateway call that has passed its guards returns with one tool request, closed as its answer says, and
with the event that announces the answer, and the request is never pending again: unless the call asked for an
approval when its execution was not `RUNNING`. -/
theorem gateway_record (h : Reachable c) {later now : List (Statement W)} {status : GatewayStatus}
    {docket : Docket} (hist : c.history = later ++ now) (hret : returned now = some (status, docket))
    (hadm : docket.Admitted) :
    (docket.Agrees status ∧ ∀ q ∈ docket.created, ∀ row, c.state.toolRequests q = some row →
      row.status ≠ .requested) ↔ docket.conflict = false := by
  obtain ⟨e, earlier, rfl, hop, hdocket⟩ := returned_iff.1 hret
  have hok := h.lawful Call.code_docketing hist
  rw [hop, hdocket] at hok
  obtain ⟨_, hm, hagrees⟩ := hok
  obtain rfl := Option.some.inj hm
  constructor
  · exact fun hleft => (hagrees hadm).1 hleft.1
  · refine fun hquiet => ⟨(hagrees hadm).2 hquiet, fun q hq row hrow => ?_⟩
    obtain ⟨⟨row', hrow', hs⟩, _⟩ := h.docketsHold.closed later _ status _ hist hret hadm hquiet q hq
    obtain rfl := Option.some.inj (hrow.symm.trans hrow')
    exact hs

/-- The call asks for an approval, and the event that says so is its last. -/
theorem gateway_record_asked :
    ∃ status docket, returned (afterMoves .requireApproval (startMoves ++ gatewayMoves 27)).history =
        some (status, docket) ∧ docket.Admitted ∧
      (docket.Agrees status ∧ ∀ q ∈ docket.created, ∀ row,
        (afterMoves .requireApproval (startMoves ++ gatewayMoves 27)).state.toolRequests q = some row →
          row.status ≠ .requested) := by
  have hrun : (returned (afterMoves .requireApproval (startMoves ++ gatewayMoves 27)).history).any (fun p =>
      decide p.2.Admitted && !p.2.conflict) = true := by decide +kernel
  obtain ⟨⟨status, docket⟩, hret, hdocket⟩ := (Option.any_eq_true _ _).1 hrun
  rw [Bool.and_eq_true, decide_eq_true_eq, Bool.not_eq_true'] at hdocket
  exact ⟨status, docket, hret, hdocket.1,
    (gateway_record (afterMoves_reachable _ _) (List.nil_append _).symm hret hdocket.1).2 hdocket.2⟩

/-- The execution is cancelled before the gateway call comes to ask for an approval. -/
def withdrawnMoves : List (Move Call Change) :=
  startMoves ++ gatewayMoves 20 ++ arrival (.cancel 0) 2 7 ++ List.replicate 9 (.run 1)

/-- The call whose execution has been cancelled answers `FAILED`, and its tool request stays `REQUESTED`. -/
theorem request_left_pending :
    ¬∀ (c : App bench) (later now : List (Statement bench)) (status : GatewayStatus) (docket : Docket),
      Reachable c → c.history = later ++ now → returned now = some (status, docket) → docket.Admitted →
      docket.Agrees status ∧ ∀ q ∈ docket.created, ∀ row, c.state.toolRequests q = some row →
        row.status ≠ .requested := by
  intro h
  have hrun : (returned (afterMoves .requireApproval withdrawnMoves).history).any (fun p =>
      decide p.2.Admitted && decide (p.2.created = [1])) = true := by decide +kernel
  obtain ⟨⟨status, docket⟩, hret, hdocket⟩ := (Option.any_eq_true _ _).1 hrun
  rw [Bool.and_eq_true, decide_eq_true_eq, decide_eq_true_eq] at hdocket
  have hpending : ((afterMoves .requireApproval withdrawnMoves).state.toolRequests 1).any
      (fun row => row.status = .requested) = true := by decide +kernel
  obtain ⟨row, hrow, hs⟩ := (Option.any_eq_true _ _).1 hpending
  refine (h _ [] _ status docket (afterMoves_reachable _ _) (List.nil_append _).symm hret hdocket.1).2 1 ?_ row hrow
    (of_decide_eq_true hs)
  rw [hdocket.2]
  exact List.mem_singleton.2 rfl

end SafeOps
