import SafeOps.Bench
import SafeOps.Services.PolicyConditions
import Mathlib.Data.Set.Defs
import Mathlib.Data.Set.Function
import Mathlib.Data.String.Basic

/-! What a set of policies decides about a call, and that the policy engine computes it whatever
order the database returns the policies in. -/

namespace SafeOps
open Concurrent Program

namespace PolicyEngine

/-- The precedence of policies, most specific first. -/
inductive Rank
  | agentId | agentType | toolOnly
  deriving DecidableEq, Repr

def Rank.precedence : Rank → Nat
  | agentId => 0
  | agentType => 1
  | toolOnly => 2

/-- The part of a result that authorises: the decision, with the policy it is attributed to. -/
structure Choice where
  decision : PolicyAction
  matchedPolicy : Option String
  policyId : Option Id
  deriving DecidableEq

def Choice.unmatched : Choice := ⟨.block, none, none⟩

def Choice.of (p : Policy) : Choice := ⟨p.action, some p.policyKey, some p.id⟩

def choice (r : PolicyEvaluationResult) : Choice := ⟨r.decision, r.matchedPolicy, r.policyId⟩

/-- A call to be decided: the evaluator of conditions, its context and the agent. -/
structure Question where
  evaluateConditions : Evaluator
  context : Value
  agentId : Id
  agent : Agent

namespace Question

variable (q : Question)

def Holds (p : Policy) : Prop := q.evaluateConditions p.conditions q.context = .ok true

def Raises (p : Policy) : Prop := ∃ e, q.evaluateConditions p.conditions q.context = .error e

/-- The policies of a rank. -/
def rank (policies : Set Policy) : Rank → Set Policy
  | .agentId => {p ∈ policies | p.agentId = some q.agentId}
  | .agentType => {p ∈ policies | p.agentId = none ∧ p.agentType = some q.agent.type}
  | .toolOnly => {p ∈ policies | p.agentId = none ∧ p.agentType = none}

/-- Some policy of the rank holds or raises. -/
def Decisive (rank : Set Policy) : Prop := ∃ p ∈ rank, q.Holds p ∨ q.Raises p

/-- The policies that hold, of maximal priority. -/
def top (rank : Set Policy) : Set Policy :=
  {p ∈ rank | q.Holds p ∧ ∀ p' ∈ rank, q.Holds p' → p'.priority ≤ p.priority}

/-- What a decisive rank comes to. -/
inductive Resolves (rank : Set Policy) : Choice → Prop
  | raised {p} (hp : p ∈ rank) (raises : q.Raises p) : Resolves rank .unmatched
  | conflict {p p'} (quiet : ∀ p ∈ rank, ¬q.Raises p) (hp : p ∈ q.top rank) (hp' : p' ∈ q.top rank)
      (differ : p.action ≠ p'.action) : Resolves rank .unmatched
  | agreed {p} (quiet : ∀ p ∈ rank, ¬q.Raises p) (hp : p ∈ q.top rank)
      (agree : ∀ p' ∈ q.top rank, p'.action = p.action)
      (smallest : ∀ p' ∈ q.top rank, p.policyKey ≤ p'.policyKey) : Resolves rank (.of p)

/-- The choice a set of policies makes. -/
inductive Decides (policies : Set Policy) : Choice → Prop
  | unmatched (silent : ∀ r, ¬q.Decisive (q.rank policies r)) : Decides policies .unmatched
  | ranked {c} (r : Rank) (decisive : q.Decisive (q.rank policies r))
      (first : ∀ r' : Rank, r'.precedence < r.precedence → ¬q.Decisive (q.rank policies r'))
      (resolves : q.Resolves (q.rank policies r) c) : Decides policies c

variable {q} {policies : Set Policy} {c c' : Choice}

theorem rank_subset (r : Rank) {p : Policy} (hp : p ∈ q.rank policies r) : p ∈ policies := by
  cases r <;> exact hp.1

theorem Resolves.unique {rank : Set Policy} (keys : Set.InjOn Policy.policyKey rank)
    (h : q.Resolves rank c) (h' : q.Resolves rank c') : c = c' := by
  cases h with
  | raised hp raises =>
    cases h' with
    | raised => rfl
    | conflict => rfl
    | agreed quiet => exact absurd raises (quiet _ hp)
  | conflict quiet hp hp' differ =>
    cases h' with
    | raised => rfl
    | conflict => rfl
    | agreed _ _ agree => exact absurd ((agree _ hp).trans (agree _ hp').symm) differ
  | agreed quiet hp agree smallest =>
    cases h' with
    | raised hp' raises => exact absurd raises (quiet _ hp')
    | conflict _ hp' hp'' differ => exact absurd ((agree _ hp').trans (agree _ hp'').symm) differ
    | agreed _ hp' _ smallest' =>
      have key := le_antisymm (smallest _ hp') (smallest' _ hp)
      rw [keys hp.1 hp'.1 key]

theorem Rank.precedence_injective {r r' : Rank} (h : r.precedence = r'.precedence) : r = r' := by
  cases r <;> cases r' <;> first | rfl | cases h

/-- A set of policies with distinct keys decides one way at most. -/
theorem Decides.unique (keys : Set.InjOn Policy.policyKey policies) (h : q.Decides policies c)
    (h' : q.Decides policies c') : c = c' := by
  cases h with
  | unmatched silent =>
    cases h' with
    | unmatched => rfl
    | ranked r decisive => exact absurd decisive (silent r)
  | ranked r decisive first resolves =>
    cases h' with
    | unmatched silent => exact absurd decisive (silent r)
    | ranked r' decisive' first' resolves' =>
      obtain rfl : r = r' := by
        rcases Nat.lt_trichotomy r.precedence r'.precedence with h | h | h
        · exact absurd decisive (first' r h)
        · exact Rank.precedence_injective h
        · exact absurd decisive' (first r' h)
      exact resolves.unique (keys.mono fun _ => rank_subset r) resolves'

end Question

section Resolving

variable {q : Question}

theorem matching_error {policies : List Policy} {e : ConditionFailure}
    (h : matching q.evaluateConditions q.context policies = .error e) : ∃ p ∈ policies, q.Raises p := by
  induction policies with
  | nil => cases h
  | cons p policies ih =>
    rw [matching] at h
    cases hp : q.evaluateConditions p.conditions q.context with
    | error e' => exact ⟨p, by simp, e', hp⟩
    | ok holds =>
      cases hrest : matching q.evaluateConditions q.context policies with
      | error e' =>
        obtain ⟨p', hp', raises⟩ := ih (by rw [hp, hrest] at h; exact hrest.trans h)
        exact ⟨p', by simp [hp'], raises⟩
      | ok rest => rw [hp, hrest] at h; cases h

theorem matching_ok {policies matched : List Policy}
    (h : matching q.evaluateConditions q.context policies = .ok matched) :
    (∀ p ∈ policies, ¬q.Raises p) ∧ ∀ p, p ∈ matched ↔ p ∈ policies ∧ q.Holds p := by
  induction policies generalizing matched with
  | nil => cases h; simp
  | cons p policies ih =>
    rw [matching] at h
    cases hp : q.evaluateConditions p.conditions q.context with
    | error e' => rw [hp] at h; cases h
    | ok holds =>
      cases hrest : matching q.evaluateConditions q.context policies with
      | error e' => rw [hp, hrest] at h; cases h
      | ok rest =>
        rw [hp, hrest] at h
        obtain ⟨quiet, mem⟩ := ih hrest
        have hq : ¬q.Raises p := by rintro ⟨e, he⟩; rw [hp] at he; cases he
        refine ⟨by simpa [hq] using quiet, fun p' => ?_⟩
        obtain rfl : (if holds then p :: rest else rest) = matched := Except.ok.inj h
        cases holds with
        | false =>
          have hn : ¬q.Holds p := by rw [Question.Holds, hp]; simp
          rw [if_neg Bool.false_ne_true, mem]
          refine ⟨fun h => ⟨by simp [h.1], h.2⟩, fun h => ⟨?_, h.2⟩⟩
          rcases List.mem_cons.1 h.1 with rfl | hp'
          · exact absurd h.2 hn
          · exact hp'
        | true =>
          rw [if_pos rfl, List.mem_cons, List.mem_cons, mem]
          refine ⟨?_, ?_⟩
          · rintro (rfl | h)
            · exact ⟨.inl rfl, hp⟩
            · exact ⟨.inr h.1, h.2⟩
          · rintro ⟨rfl | h, holds⟩
            · exact .inl rfl
            · exact .inr ⟨h, holds⟩

theorem firstByKey_mem (first : Policy) (others : List Policy) :
    firstByKey first others ∈ first :: others := by
  induction others generalizing first with
  | nil => simp [firstByKey]
  | cons p others ih =>
    rw [firstByKey, List.foldl_cons]
    split
    · exact List.mem_cons_of_mem _ (ih p)
    · rcases List.mem_cons.1 (ih first) with h | h
      · exact List.mem_cons.2 (.inl h)
      · exact List.mem_cons_of_mem _ (List.mem_cons_of_mem _ h)

theorem firstByKey_le (first : Policy) (others : List Policy) :
    ∀ p ∈ first :: others, (firstByKey first others).policyKey ≤ p.policyKey := by
  induction others generalizing first with
  | nil => simp [firstByKey]
  | cons p others ih =>
    rw [firstByKey, List.foldl_cons]
    intro p' hp'
    split
    · rename_i h
      rcases List.mem_cons.1 hp' with rfl | hp'
      · exact (ih p p (by simp)).trans h.le
      · exact ih p p' hp'
    · rename_i h
      simp only [List.mem_cons] at hp'
      rcases hp' with rfl | rfl | hp'
      · exact ih p' p' (by simp)
      · exact (ih first first (by simp)).trans (not_lt.1 h)
      · exact ih first p' (by simp [hp'])

theorem foldl_max_spec (top : Int) (others : List Policy) :
    let result := others.foldl (fun top p => max top p.priority) top
    (top ≤ result ∧ ∀ p ∈ others, p.priority ≤ result) ∧
      (result = top ∨ ∃ p ∈ others, p.priority = result) := by
  induction others generalizing top with
  | nil => simp
  | cons p others ih =>
    obtain ⟨⟨hle, hall⟩, hattained⟩ := ih (max top p.priority)
    refine ⟨⟨?_, ?_⟩, ?_⟩
    · exact (le_max_left _ _).trans hle
    · intro p' hp'
      rcases List.mem_cons.1 hp' with rfl | hp'
      · exact (le_max_right _ _).trans hle
      · exact hall p' hp'
    · rw [List.foldl_cons]
      rcases hattained with h | ⟨p', hp', h⟩
      · rcases max_choice top p.priority with hm | hm
        · exact .inl (h.trans hm)
        · exact .inr ⟨p, by simp, (h.trans hm).symm⟩
      · exact .inr ⟨p', by simp [hp'], h⟩

theorem resolveMatched_nil {matched : List Policy} (h : resolveMatched matched = none) :
    matched = [] := by
  cases matched with
  | nil => rfl
  | cons first others =>
    obtain ⟨_, hattained⟩ := foldl_max_spec first.priority others
    simp only [resolveMatched] at h
    split at h
    · rename_i hnil
      have none_on_top := List.filter_eq_nil_iff.1 hnil
      rcases hattained with hf | ⟨p, hp, hf⟩
      · exact absurd (by simp [hf]) (none_on_top first (by simp))
      · exact absurd (by simp [hf]) (none_on_top p (by simp [hp]))
    · split at h <;> cases h

/-- The policies a rank resolves among. -/
theorem resolveMatched_resolves {rank : Set Policy} {matched : List Policy}
    {result : PolicyEvaluationResult} (quiet : ∀ p ∈ rank, ¬q.Raises p)
    (mem : ∀ p, p ∈ matched ↔ p ∈ rank ∧ q.Holds p) (h : resolveMatched matched = some result) :
    q.Resolves rank (choice result) := by
  cases matched with
  | nil => cases h
  | cons first others =>
    simp only [resolveMatched] at h
    set highest := others.foldl (fun top p => max top p.priority) first.priority
    obtain ⟨⟨hfirst, hothers⟩, _⟩ := foldl_max_spec first.priority others
    have maximal : ∀ p ∈ first :: others, p.priority ≤ highest := by
      intro p hp
      rcases List.mem_cons.1 hp with rfl | hp
      · exact hfirst
      · exact hothers p hp
    cases hf : (first :: others).filter (·.priority = highest) with
    | nil => rw [hf] at h; cases h
    | cons chosen tied =>
      rw [hf] at h
      have hmem : ∀ p, p ∈ chosen :: tied ↔ p ∈ first :: others ∧ p.priority = highest := by
        simp [← hf, List.mem_filter]
      have top_iff : ∀ p, p ∈ q.top rank ↔ p ∈ chosen :: tied := by
        intro p
        obtain ⟨hc, hchosen⟩ := (hmem chosen).1 (by simp)
        constructor
        · rintro ⟨hp, holds, hmax⟩
          have hp' := (mem p).2 ⟨hp, holds⟩
          have hge := hmax chosen ((mem chosen).1 hc).1 ((mem chosen).1 hc).2
          exact (hmem p).2 ⟨hp', le_antisymm (maximal p hp') (hchosen ▸ hge)⟩
        · intro hp
          obtain ⟨hp', hpriority⟩ := (hmem p).1 hp
          obtain ⟨hr, holds⟩ := (mem p).1 hp'
          exact ⟨hr, holds, fun p' hr' holds' => hpriority ▸ maximal p' ((mem p').2 ⟨hr', holds'⟩)⟩
      simp only at h
      split at h
      · rename_i hany
        obtain ⟨p, hp, differ⟩ := List.any_eq_true.1 hany
        obtain rfl := Option.some.inj h
        exact .conflict quiet ((top_iff p).2 (List.mem_cons_of_mem _ hp)) ((top_iff chosen).2 (by simp))
          (by simpa using differ)
      · rename_i hany
        obtain rfl := Option.some.inj h
        have agree : ∀ p ∈ chosen :: tied, p.action = chosen.action := by
          simpa using hany
        have hk := firstByKey_mem chosen tied
        exact .agreed quiet ((top_iff _).2 hk)
          (fun p hp => (agree p ((top_iff p).1 hp)).trans (agree _ hk).symm)
          fun p hp => firstByKey_le chosen tied p ((top_iff p).1 hp)

/-- How a rank ends: it falls through, or it resolves. -/
theorem resolveRank_cases {policies : List Policy} {rank : Set Policy}
    (hrank : ∀ p, p ∈ policies ↔ p ∈ rank) :
    (resolveRank q.evaluateConditions policies q.context = .ok none ∧ ¬q.Decisive rank) ∨
      ((∃ e, resolveRank q.evaluateConditions policies q.context = .error e) ∧ q.Decisive rank ∧
        q.Resolves rank .unmatched) ∨
      ∃ result, resolveRank q.evaluateConditions policies q.context = .ok (some result) ∧
        q.Decisive rank ∧ q.Resolves rank (choice result) := by
  rw [resolveRank]
  cases hm : matching q.evaluateConditions q.context policies with
  | error e =>
    obtain ⟨p, hp, raises⟩ := matching_error hm
    have decisive : q.Decisive rank := ⟨p, (hrank p).1 hp, .inr raises⟩
    have resolves : q.Resolves rank .unmatched := .raised ((hrank p).1 hp) raises
    cases e with
    | policyConditionError => exact .inr (.inr ⟨_, rfl, decisive, resolves⟩)
    | other => exact .inr (.inl ⟨⟨_, rfl⟩, decisive, resolves⟩)
  | ok matched =>
    obtain ⟨quiet, mem⟩ := matching_ok hm
    have quiet' : ∀ p ∈ rank, ¬q.Raises p := fun p hp => quiet p ((hrank p).2 hp)
    have mem' : ∀ p, p ∈ matched ↔ p ∈ rank ∧ q.Holds p := fun p => by rw [mem, hrank]
    cases hr : resolveMatched matched with
    | none =>
      refine .inl ⟨by simp only [hr], ?_⟩
      rintro ⟨p, hp, holds | raises⟩
      · have := (mem' p).2 ⟨hp, holds⟩
        rw [resolveMatched_nil hr] at this
        cases this
      · exact quiet' p hp raises
    | some result =>
      have resolves := resolveMatched_resolves quiet' mem' hr
      refine .inr (.inr ⟨result, by simp only [hr], ?_, resolves⟩)
      cases matched with
      | nil => cases hr
      | cons p _ =>
        obtain ⟨hp, holds⟩ := (mem' p).1 (by simp)
        exact ⟨p, hp, .inl holds⟩

/-- An exception out of `evaluate` counts as a `BLOCK` without a match. -/
def outcome : Except ConditionFailure PolicyEvaluationResult → Choice
  | .ok result => choice result
  | .error _ => .unmatched

/-- One round of the loop over the ranks. -/
theorem resolveRanks_cons (rank : Set Policy) (policies : List Policy) {broader : List (List Policy)}
    (hrank : ∀ p, p ∈ policies ↔ p ∈ rank) :
    (¬q.Decisive rank ∧ resolveRanks q.evaluateConditions q.context (policies :: broader) =
        resolveRanks q.evaluateConditions q.context broader) ∨
      (q.Decisive rank ∧ q.Resolves rank
        (outcome (resolveRanks q.evaluateConditions q.context (policies :: broader)))) := by
  rw [resolveRanks]
  rcases resolveRank_cases hrank with ⟨h, silent⟩ | ⟨⟨e, h⟩, decisive, resolves⟩ |
    ⟨result, h, decisive, resolves⟩
  · exact .inl ⟨silent, by rw [h]; rfl⟩
  · exact .inr ⟨decisive, by rw [h]; exact resolves⟩
  · exact .inr ⟨decisive, by rw [h]; exact resolves⟩

/-- The engine decides as the set of its policies does. -/
theorem resolveRanks_decides (policies : List Policy) :
    q.Decides {p | p ∈ policies} (outcome (resolveRanks q.evaluateConditions q.context
      (ranks q.agentId q.agent policies))) := by
  rw [ranks]
  rcases resolveRanks_cons (q.rank {p | p ∈ policies} .agentId)
    (policies.filter fun p => p.agentId = some q.agentId)
    (by simp [Question.rank]) with ⟨silent1, h⟩ | ⟨decisive, resolves⟩
  swap
  · exact .ranked .agentId decisive (by simp [Rank.precedence]) resolves
  rw [h]
  rcases resolveRanks_cons (q.rank {p | p ∈ policies} .agentType)
    (policies.filter fun p => p.agentId = none ∧ p.agentType = some q.agent.type)
    (by simp [Question.rank]) with ⟨silent2, h⟩ | ⟨decisive, resolves⟩
  swap
  · refine .ranked .agentType decisive (fun r hr => ?_) resolves
    cases r with
    | agentId => exact silent1
    | agentType => exact absurd hr (Nat.lt_irrefl _)
    | toolOnly => exact absurd hr (by decide)
  rw [h]
  rcases resolveRanks_cons (q.rank {p | p ∈ policies} .toolOnly)
    (policies.filter fun p => p.agentId = none ∧ p.agentType = none)
    (by simp [Question.rank]) with ⟨silent3, h⟩ | ⟨decisive, resolves⟩
  swap
  · refine .ranked .toolOnly decisive (fun r hr => ?_) resolves
    cases r with
    | agentId => exact silent1
    | agentType => exact silent2
    | toolOnly => exact absurd hr (Nat.lt_irrefl _)
  rw [h]
  refine .unmatched fun r => ?_
  cases r with
  | agentId => exact silent1
  | agentType => exact silent2
  | toolOnly => exact silent3

end Resolving
end PolicyEngine

open PolicyEngine ToolGateway

variable {W : World}

/-- What `_handle_conditional` asks the policies. -/
def ToolGateway.Admitted.question (g : Admitted W) (agent : Agent) : Question where
  evaluateConditions := W.evaluateConditions
  context := evaluationContext g.call.agentId agent g.toolRow g.call.arguments g.call.executionId
  agentId := g.call.agentId
  agent := agent

/-- The enabled policies of a tool, in the order of their rows. -/
def Directory.enabled (d : Directory) (toolId : Id) : List Policy :=
  d.policies.filter fun p => p.toolId = some toolId ∧ p.enabled

/-- The policy result of a conditional permission is read off the enabled policies of one moment. -/
theorem policyResult_trace {g : Admitted W} {agent : Agent}
    {steps : List (Op W.Tables × State W.Domain)} {ending : Except Failure PolicyEvaluationResult}
    (h : Trace W.exec (policyResult g agent) steps ending) :
    ∃ s s' result, steps = [(.query (.policies g.toolRow.id), s), (.query .faults, s')] ∧
      ending = .ok result ∧ choice result =
        if s'.faults.policyEvaluation then .unmatched
        else outcome (resolveRanks W.evaluateConditions (g.question agent).context
          (ranks g.call.agentId agent (s.directory.enabled g.toolRow.id))) := by
  cases h with
  | request s h =>
    cases h with
    | request s' h =>
      change Trace W.exec (((if s'.faults.policyEvaluation then .raise .other
        else match resolveRanks W.evaluateConditions (g.question agent).context
          (ranks g.call.agentId agent (s.directory.enabled g.toolRow.id)) with
          | .ok result => pure result
          | .error _ => .raise .other) : Db W PolicyEvaluationResult).tryCatch
            fun _ => pure (blocked policyEvaluationError)) _ _ at h
      split at h
      · rename_i hf
        cases h
        exact ⟨s, s', _, rfl, rfl, by rw [if_pos hf]; rfl⟩
      · rename_i hf
        cases hr : resolveRanks W.evaluateConditions (g.question agent).context
          (ranks g.call.agentId agent (s.directory.enabled g.toolRow.id)) with
        | ok result =>
          rw [hr] at h
          cases h
          exact ⟨s, s', _, rfl, rfl, by rw [if_neg hf, hr]; rfl⟩
        | error e =>
          rw [hr] at h
          cases h
          exact ⟨s, s', _, rfl, rfl, by rw [if_neg hf, hr]; rfl⟩

/-- A conditional call is decided by the set of the tool's enabled policies: the first rank in which
a policy holds or raises decides, an error or a tie of differing actions blocks, and the highest
priority wins. The order of the rows is irrelevant. -/
theorem policy_decision_characterised {g : Admitted W} {agent : Agent}
    {steps : List (Op W.Tables × State W.Domain)} {ending : Except Failure PolicyEvaluationResult}
    (h : Trace W.exec (policyResult g agent) steps ending) :
    ∃ s s' result, steps = [(.query (.policies g.toolRow.id), s), (.query .faults, s')] ∧
      ending = .ok result ∧
      (s'.faults.policyEvaluation = true → choice result = .unmatched) ∧
      (s'.faults.policyEvaluation = false →
        ((s.directory.enabled g.toolRow.id).map (·.policyKey)).Nodup →
        (∀ c, choice result = c ↔
          (g.question agent).Decides {p | p ∈ s.directory.enabled g.toolRow.id} c) ∧
        ∀ policies, policies.Perm (s.directory.enabled g.toolRow.id) →
          outcome (resolveRanks W.evaluateConditions (g.question agent).context
            (ranks g.call.agentId agent policies)) = choice result) := by
  obtain ⟨s, s', result, hsteps, hending, hresult⟩ := policyResult_trace h
  refine ⟨s, s', result, hsteps, hending, fun hf => by rw [hresult, if_pos hf], fun hf hkeys => ?_⟩
  rw [hf, if_neg Bool.false_ne_true] at hresult
  have keys : Set.InjOn Policy.policyKey {p | p ∈ s.directory.enabled g.toolRow.id} :=
    fun p hp p' hp' => List.inj_on_of_nodup_map hkeys hp hp'
  have decides : (g.question agent).Decides {p | p ∈ s.directory.enabled g.toolRow.id}
      (choice result) := hresult ▸ resolveRanks_decides (q := g.question agent) _
  refine ⟨fun c => ⟨fun hc => hc ▸ decides, fun hc => decides.unique keys hc⟩, fun policies hperm => ?_⟩
  have same : {p | p ∈ policies} = {p | p ∈ s.directory.enabled g.toolRow.id} :=
    Set.ext fun p => hperm.mem_iff
  exact (same ▸ resolveRanks_decides (q := g.question agent) policies).unique keys decides

/-- The bench with the source's conditions. -/
def judging : World :=
  { bench with evaluateConditions := PolicyConditions.evaluateConditions Premises.bench.text }

/-- A refund that agent 0, of type `SUPPORT`, asks for. -/
def ToolGateway.Admitted.judged : Admitted judging where
  call := ⟨0, 0, "refund_payment", .dict []⟩
  actor := "support-agent"
  objective := "refund"
  tool := ⟨fun _ => none, fun _ => .ret .null⟩
  toolRow := ⟨0, "refund_payment", .low⟩
  named := rfl
  context := none
  requestId := 0

/-- Three ranks of policies of the tool. The agent's own block has a condition that does not hold, and the block of
everyone comes last. In between, two policies ask for approval, and one of the given priority allows. -/
def tiered (priority : Int) : State Unit :=
  { State.bench .allow with
    directory :=
      { Directory.bench .allow with
        policies :=
          [⟨1, "own", none, some 0, some 0, 9, true, .block,
              .dict [("field", .str "tool.name"), ("operator", .str "eq"), ("value", .str "deploy_staging")]⟩,
            ⟨2, "support-b", some "SUPPORT", none, some 0, 5, true, .requireApproval, .null⟩,
            ⟨3, "support-a", some "SUPPORT", none, some 0, 5, true, .requireApproval, .dict []⟩,
            ⟨4, "support", some "SUPPORT", none, some 0, priority, true, .allow, .null⟩,
            ⟨5, "everyone", none, none, some 0, 9, true, .block, .null⟩] } }

/-- The agent's own rank falls through. In the next one two policies tie, and the smaller key is named: unless the
policy that allows is of the same priority, which makes it a block. -/
theorem policy_decision_characterised_tiered :
    (Admitted.judged.question ⟨"support-agent", "SUPPORT"⟩).Decides {p | p ∈ (tiered 1).directory.enabled 0}
        ⟨.requireApproval, some "support-a", some 3⟩ ∧
      (Admitted.judged.question ⟨"support-agent", "SUPPORT"⟩).Decides {p | p ∈ (tiered 5).directory.enabled 0}
        .unmatched := by
  refine ⟨?_, ?_⟩
  · obtain ⟨s, s', result, hsteps, hending, _, h⟩ := policy_decision_characterised
      (solo_trace judging.exec (tiered 1) (policyResult .judged ⟨"support-agent", "SUPPORT"⟩))
    cases hsteps
    cases hending
    exact ((h rfl (by decide)).1 _).1 rfl
  · obtain ⟨s, s', result, hsteps, hending, _, h⟩ := policy_decision_characterised
      (solo_trace judging.exec (tiered 5) (policyResult .judged ⟨"support-agent", "SUPPORT"⟩))
    cases hsteps
    cases hending
    exact ((h rfl (by decide)).1 _).1 rfl

end SafeOps
