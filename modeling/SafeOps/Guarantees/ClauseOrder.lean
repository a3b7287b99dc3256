import SafeOps.Guarantees.FailClosed
import SafeOps.Guarantees.PolicyChoice

/-! The order in which the clauses of a policy are written: it decides whether a bad clause is noticed, and nothing
else. -/

namespace SafeOps
namespace PolicyConditions

/-- The conditions differ in the order of clauses, or of the keys of a node, at any depth. What a leaf compares with
stays as it is. -/
inductive Reorders : Value → Value → Prop
  | refl (v : Value) : Reorders v v
  | trans {u v w : Value} : Reorders u v → Reorders v w → Reorders u w
  | clauses (c : Combinator) {clauses clauses' : List Value} : clauses.Perm clauses' →
      Reorders (c.node clauses) (c.node clauses')
  | within (c : Combinator) (before after : List Value) {clause clause' : Value} : Reorders clause clause' →
      Reorders (c.node (before ++ clause :: after)) (c.node (before ++ clause' :: after))
  | keys {entries entries' : List (String × Value)} : (entries.map (·.1)).Nodup → entries.Perm entries' →
      Reorders (.dict entries) (.dict entries')

theorem Reorders.symm {v w : Value} (h : Reorders v w) : Reorders w v := by
  induction h with
  | refl v => exact .refl v
  | trans _ _ ih ih' => exact ih'.trans ih
  | clauses c hperm => exact .clauses c hperm.symm
  | within c before after _ ih => exact .within c before after ih
  | keys hkeys hperm => exact .keys ((hperm.map _).nodup_iff.1 hkeys) hperm.symm

section Lookup

variable {α β : Type} [BEq α] [LawfulBEq α] {l l' : List (α × β)}

/-- What is filed under distinct keys is found in any order. -/
theorem lookup_perm (h : l.Perm l') (hkeys : (l.map (·.1)).Nodup) (key : α) : l.lookup key = l'.lookup key := by
  induction h with
  | nil => rfl
  | cons entry _ ih =>
    rw [List.map_cons, List.nodup_cons] at hkeys
    rw [List.lookup_cons, List.lookup_cons, ih hkeys.2]
  | swap entry entry' l =>
    obtain ⟨k, x⟩ := entry
    obtain ⟨k', x'⟩ := entry'
    have hne : k' ≠ k := by
      intro heq
      simp [heq] at hkeys
    simp only [List.lookup_cons]
    by_cases hkey : key = k
    · simp [hkey, beq_false_of_ne hne.symm]
    · simp [beq_false_of_ne hkey]
  | trans hperm _ ih ih' => exact (ih hkeys).trans (ih' ((hperm.map _).nodup_iff.1 hkeys))

end Lookup

section Answering

variable (text : Text) (context : Value)

/-- No leaf of the condition is rejected. -/
inductive Answers : Value → Prop
  | leaf {entries : List (String × Value)} {b : Bool} : ¬Combines entries →
      evaluateLeaf text context entries = .ok b → Answers (.dict entries)
  | node {c : Combinator} {clauses : List Value} : clauses ≠ [] → (∀ clause ∈ clauses, Answers clause) →
      Answers (c.node clauses)

end Answering

variable {text : Text} {context v w : Value} {b b' : Bool} {c : Combinator} {clauses : List Value}
  {entries : List (String × Value)}

/-- An evaluation that is not rejected finds what the condition says. -/
theorem evaluateNode_means (h : evaluateNode text context v = .ok b) : Means text context v b :=
  (read v).means b h

section Leaves

variable {entries' : List (String × Value)} (h : entries.Perm entries')
include h

theorem combines_perm : Combines entries ↔ Combines entries' := by
  simp only [Combines, (h.map _).mem_iff]

theorem evaluateLeaf_perm (hkeys : (entries.map (·.1)).Nodup) :
    evaluateLeaf text context entries = evaluateLeaf text context entries' := by
  have keys : LeafKeys entries ↔ LeafKeys entries' := by
    simp only [LeafKeys, List.subset_def, (h.map _).mem_iff]
  simp only [evaluateLeaf, keys, lookup_perm h hkeys]

/-- An object with a combinator among several keys is the same to `_evaluate_node` in any order. -/
theorem perm_eq_of_single (hlength : entries.length = 1) : entries' = entries := by
  obtain ⟨entry, rfl⟩ := List.length_eq_one_iff.1 hlength
  exact List.perm_singleton.1 h.symm

end Leaves

theorem Means.length (h : Means text context (.dict entries) b) (hcombines : Combines entries) :
    entries.length = 1 := by
  generalize hnode : Value.dict entries = node at h
  cases h with
  | leaf hnot =>
    cases hnode
    exact absurd hcombines hnot
  | throughout | decided =>
    cases hnode
    rfl

/-- Reordered conditions say the same. -/
theorem Reorders.means (h : Reorders v w) : ∀ b, Means text context v b ↔ Means text context w b := by
  induction h with
  | refl v => exact fun _ => .rfl
  | trans _ _ ih ih' => exact fun b => (ih b).trans (ih' b)
  | @clauses c clauses clauses' hperm =>
    intro b
    have hnil : clauses = [] ↔ clauses' = [] := by
      rw [← List.length_eq_zero_iff, hperm.length_eq, List.length_eq_zero_iff]
    simp only [means_node, hperm.mem_iff, ne_eq, hnil]
  | within c before after _ ih =>
    intro b
    simp only [means_node, List.mem_append, List.mem_cons, or_imp, forall_and, forall_eq, or_and_right, exists_or,
      exists_eq_left, ih, ne_eq, List.append_eq_nil_iff, reduceCtorEq, and_false, not_false_eq_true]
  | @keys entries entries' hkeys hperm =>
    intro b
    by_cases hcombines : Combines entries
    · constructor
      · intro hmeans
        rwa [perm_eq_of_single hperm (hmeans.length hcombines)]
      · intro hmeans
        rwa [perm_eq_of_single hperm.symm (hmeans.length ((combines_perm hperm).1 hcombines))]
    · rw [means_leaf hcombines, means_leaf ((combines_perm hperm).not.1 hcombines), evaluateLeaf_perm hperm hkeys]

section Answers

theorem answers_leaf (h : ¬Combines entries) :
    Answers text context (.dict entries) ↔ ∃ b, evaluateLeaf text context entries = .ok b := by
  constructor
  · intro hanswers
    generalize hnode : Value.dict entries = node at hanswers
    cases hanswers with
    | leaf _ heval =>
      cases hnode
      exact ⟨_, heval⟩
    | node =>
      cases hnode
      exact absurd (Combinator.combines _ _) h
  · exact fun ⟨_, heval⟩ => .leaf h heval

theorem answers_node : Answers text context (c.node clauses) ↔
    clauses ≠ [] ∧ ∀ clause ∈ clauses, Answers text context clause := by
  constructor
  · intro hanswers
    generalize hnode : c.node clauses = node at hanswers
    cases hanswers with
    | leaf hcombines =>
      cases hnode
      exact absurd (c.combines clauses) hcombines
    | node hne hall =>
      obtain ⟨rfl, rfl⟩ := Combinator.node_inj hnode
      exact ⟨hne, hall⟩
  · exact fun h => .node h.1 h.2

theorem Answers.length (h : Answers text context (.dict entries)) (hcombines : Combines entries) :
    entries.length = 1 := by
  generalize hnode : Value.dict entries = node at h
  cases h with
  | leaf hnot =>
    cases hnode
    exact absurd hcombines hnot
  | node =>
    cases hnode
    rfl

/-- A condition none of whose leaves is rejected is evaluated. -/
theorem Answers.evaluates (h : Answers text context v) : ∃ b, evaluateNode text context v = .ok b := by
  induction h with
  | leaf hcombines heval => exact ⟨_, (evaluateNode_leaf hcombines).trans heval⟩
  | @node c clauses hne _ ih =>
    rw [evaluateNode_node hne]
    obtain ⟨_, heq⟩ | ⟨before, clause, after, rfl, _, _, heq⟩ := @evaluateClauses_read text context c clauses
    · exact ⟨_, heq⟩
    · rw [heq]
      exact ih clause (by simp)

theorem Reorders.answers (h : Reorders v w) : Answers text context v → Answers text context w := by
  induction h with
  | refl v => exact id
  | trans _ _ ih ih' => exact ih' ∘ ih
  | clauses c hperm =>
    intro hanswers
    obtain ⟨hne, hall⟩ := answers_node.1 hanswers
    exact .node (fun hnil => hne (hnil ▸ hperm).eq_nil) fun clause hmem => hall clause (hperm.mem_iff.2 hmem)
  | within c before after _ ih =>
    intro hanswers
    obtain ⟨_, hall⟩ := answers_node.1 hanswers
    refine .node (by simp) fun clause hmem => ?_
    rw [List.mem_append, List.mem_cons] at hmem
    rcases hmem with hmem | rfl | hmem
    · exact hall clause (by simp [hmem])
    · exact ih (hall _ (by simp))
    · exact hall clause (by simp [hmem])
  | @keys entries entries' hkeys hperm =>
    intro hanswers
    by_cases hcombines : Combines entries
    · rwa [perm_eq_of_single hperm (hanswers.length hcombines)]
    · obtain ⟨b, heval⟩ := (answers_leaf hcombines).1 hanswers
      exact .leaf ((combines_perm hperm).not.1 hcombines) ((evaluateLeaf_perm hperm hkeys).symm.trans heval)

end Answers

theorem Reorders.unconditional (h : Reorders v w) (hv : Unconditional v) : w = v := by
  induction h with
  | refl v => rfl
  | trans _ _ ih ih' =>
    obtain rfl := ih hv
    exact ih' hv
  | clauses | within => rcases hv with hv | hv <;> cases hv
  | keys _ hperm =>
    rcases hv with hv | hv
    · cases hv
    · cases hv
      rw [hperm.nil_eq]

/-- Two orders of the same clauses never evaluate to true and to false. -/
theorem Reorders.evaluate (h : Reorders v w) (hv : evaluateConditions text v context = .ok b)
    (hw : evaluateConditions text w context = .ok b') : b = b' := by
  by_cases hplain : Unconditional v
  · rw [h.unconditional hplain, hv] at hw
    exact Except.ok.inj hw
  · rw [evaluateConditions_node hplain] at hv
    rw [evaluateConditions_node fun hw => hplain (h.symm.unconditional hw ▸ hw)] at hw
    exact ((h.means b).1 (evaluateNode_means hv)).unique (evaluateNode_means hw)

end PolicyConditions

namespace PolicyEngine
open PolicyConditions

/-- The second policy is the first one, with its conditions reordered. -/
structure Rewrites (p p' : Policy) : Prop where
  same : p' = { p with conditions := p'.conditions }
  conditions : Reorders p.conditions p'.conditions

/-- A policy without its conditions. -/
def bare (p : Policy) : Policy := { p with conditions := .null }

theorem Rewrites.bare {p p' : Policy} (h : Rewrites p p') : bare p' = bare p := by
  rw [h.same]
  rfl

theorem firstByKey_bare (first : Policy) (others : List Policy) :
    firstByKey (bare first) (others.map bare) = bare (firstByKey first others) := by
  unfold firstByKey
  rw [List.foldl_map]
  refine List.foldl_hom bare fun best p => ?_
  change (if p.policyKey < best.policyKey then bare p else bare best) = _
  split <;> rfl

/-- The choice among the policies that match does not look at their conditions. -/
theorem resolveMatched_bare (matched : List Policy) : resolveMatched (matched.map bare) = resolveMatched matched := by
  cases matched with
  | nil => rfl
  | cons first others =>
    have hfilter (top : Int) : (bare first :: others.map bare).filter (fun p => p.priority = top) =
        ((first :: others).filter fun p => p.priority = top).map bare := by
      rw [← List.map_cons, List.filter_map]
      rfl
    have hpriority (p : Policy) : (bare p).priority = p.priority := rfl
    simp only [List.map_cons, resolveMatched, List.foldl_map, hpriority, hfilter]
    cases (first :: others).filter fun p =>
        p.priority = others.foldl (fun top p => max top p.priority) first.priority with
    | nil => rfl
    | cons chosen tied =>
      simp only [List.map_cons, List.any_map, firstByKey_bare]
      rfl

section Deciding

variable {evaluateConditions : Evaluator} {context : Value} {policies policies' : List Policy}

/-- The conditions of the two policies, evaluated without an exception, agree. -/
def Agree (evaluateConditions : Evaluator) (context : Value) (p p' : Policy) : Prop :=
  bare p' = bare p ∧ ∀ b b', evaluateConditions p.conditions context = .ok b →
    evaluateConditions p'.conditions context = .ok b' → b = b'

theorem matching_bare (h : List.Forall₂ (Agree evaluateConditions context) policies policies')
    {matched matched' : List Policy} (hm : matching evaluateConditions context policies = .ok matched)
    (hm' : matching evaluateConditions context policies' = .ok matched') : matched'.map bare = matched.map bare := by
  induction h generalizing matched matched' with
  | nil =>
    cases hm
    cases hm'
    rfl
  | @cons p p' policies policies' hagree _ ih =>
    rw [matching] at hm hm'
    cases hb : evaluateConditions p.conditions context with
    | error e => rw [hb] at hm; cases hm
    | ok b =>
      cases hb' : evaluateConditions p'.conditions context with
      | error e => rw [hb'] at hm'; cases hm'
      | ok b' =>
        cases hrest : matching evaluateConditions context policies with
        | error e => rw [hb, hrest] at hm; cases hm
        | ok rest =>
          cases hrest' : matching evaluateConditions context policies' with
          | error e => rw [hb', hrest'] at hm'; cases hm'
          | ok rest' =>
            rw [hb, hrest] at hm
            rw [hb', hrest'] at hm'
            obtain rfl : (if b then p :: rest else rest) = matched := Except.ok.inj hm
            obtain rfl : (if b' then p' :: rest' else rest') = matched' := Except.ok.inj hm'
            obtain rfl := hagree.2 b b' hb hb'
            cases b with
            | false => exact ih hrest hrest'
            | true => simp only [if_true, List.map_cons, hagree.1, ih hrest hrest']

/-- The evaluation refuses the call: with a decision, or by an exception. -/
def Blocks (outcome : Except ConditionFailure PolicyEvaluationResult) : Prop :=
  ∀ result, outcome = .ok result → result.decision = .block

theorem blocks_of_error {e : ConditionFailure} (h : matching evaluateConditions context policies = .error e)
    (broader : List (List Policy)) : Blocks (resolveRanks evaluateConditions context (policies :: broader)) := by
  intro result hresult
  rw [resolveRanks, resolveRank, h] at hresult
  cases e with
  | policyConditionError =>
    obtain rfl := Except.ok.inj hresult
    rfl
  | other => cases hresult

theorem resolveRanks_ok {matched : List Policy} (h : matching evaluateConditions context policies = .ok matched)
    (broader : List (List Policy)) : resolveRanks evaluateConditions context (policies :: broader) =
      (resolveMatched matched).elim (resolveRanks evaluateConditions context broader) .ok := by
  rw [resolveRanks, resolveRank, h]
  cases hr : resolveMatched matched <;> simp only [hr] <;> rfl

/-- The conditions of some policy are rejected. -/
def Rejected (evaluateConditions : Evaluator) (context : Value) (ranks : List (List Policy)) : Prop :=
  ∃ rank ∈ ranks, ∃ p ∈ rank, ∃ e, evaluateConditions p.conditions context = .error e

theorem Rejected.of_matching {e : ConditionFailure} (h : matching evaluateConditions context policies = .error e)
    (broader : List (List Policy)) : Rejected evaluateConditions context (policies :: broader) := by
  obtain ⟨p, hp, raises⟩ := matching_error (q := ⟨evaluateConditions, context, 0, ⟨"", ""⟩⟩) h
  exact ⟨policies, List.mem_cons_self, p, hp, raises⟩

theorem Rejected.broader {ranks : List (List Policy)} (h : Rejected evaluateConditions context ranks)
    (rank : List Policy) : Rejected evaluateConditions context (rank :: ranks) := by
  obtain ⟨rank', hrank', h⟩ := h
  exact ⟨rank', List.mem_cons_of_mem _ hrank', h⟩

/-- Two evaluations that do not agree: one of them has rejected a condition, and blocks. -/
theorem resolveRanks_agree {ranks ranks' : List (List Policy)}
    (h : List.Forall₂ (List.Forall₂ (Agree evaluateConditions context)) ranks ranks') :
    resolveRanks evaluateConditions context ranks = resolveRanks evaluateConditions context ranks' ∨
      (Blocks (resolveRanks evaluateConditions context ranks) ∧ Rejected evaluateConditions context ranks) ∨
        Blocks (resolveRanks evaluateConditions context ranks') ∧ Rejected evaluateConditions context ranks' := by
  induction h with
  | nil => exact .inl rfl
  | @cons rank rank' broader broader' hrank _ ih =>
    cases hm : matching evaluateConditions context rank with
    | error e => exact .inr (.inl ⟨blocks_of_error hm broader, .of_matching hm broader⟩)
    | ok matched =>
      cases hm' : matching evaluateConditions context rank' with
      | error e => exact .inr (.inr ⟨blocks_of_error hm' broader', .of_matching hm' broader'⟩)
      | ok matched' =>
        rw [resolveRanks_ok hm, resolveRanks_ok hm', ← resolveMatched_bare matched', matching_bare hrank hm hm',
          resolveMatched_bare]
        cases resolveMatched matched with
        | none => exact ih.imp_right (Or.imp (And.imp_right (·.broader rank)) (And.imp_right (·.broader rank')))
        | some result => exact .inl rfl

/-- A choice among policies by what is not their conditions keeps them in step. -/
theorem filter_agree {q : Policy → Bool} (hq : ∀ p, q (bare p) = q p)
    (h : List.Forall₂ (Agree evaluateConditions context) policies policies') :
    List.Forall₂ (Agree evaluateConditions context) (policies.filter q) (policies'.filter q) := by
  induction h with
  | nil => exact .nil
  | @cons p p' _ _ hagree _ ih =>
    have heq : q p' = q p := by rw [← hq p', hagree.1, hq]
    rw [List.filter_cons, List.filter_cons, heq]
    split
    · exact .cons hagree ih
    · exact ih

theorem ranks_agree (agentId : Id) (agent : Agent)
    (h : List.Forall₂ (Agree evaluateConditions context) policies policies') :
    List.Forall₂ (List.Forall₂ (Agree evaluateConditions context)) (ranks agentId agent policies)
      (ranks agentId agent policies') :=
  .cons (filter_agree (fun _ => rfl) h) (.cons (filter_agree (fun _ => rfl) h)
    (.cons (filter_agree (fun _ => rfl) h) .nil))

end Deciding

/-- The decision of the enabled policies of a tool about a call. -/
def verdictOf (text : Text) (agentId : Id) (agent : Agent) (context : Value) (policies : List Policy) :
    Except ConditionFailure PolicyEvaluationResult :=
  resolveRanks (evaluateConditions text) context (ranks agentId agent policies)

section Settled

variable {text : Text} {agentId : Id} {agent : Agent} {context : Value} {policies policies' : List Policy}

/-- Every clause of the conditions has an answer. -/
def Settled (text : Text) (context : Value) (p : Policy) : Prop :=
  Unconditional p.conditions ∨ Answers text context p.conditions

theorem Settled.rewrites {p p' : Policy} (h : Settled text context p) (hp : Rewrites p p') :
    Settled text context p' := by
  rcases h with hplain | hanswers
  · rw [Settled, hp.conditions.unconditional hplain]
    exact .inl hplain
  · exact .inr (hp.conditions.answers hanswers)

theorem Settled.evaluates {p : Policy} (h : Settled text context p) :
    ∃ b, evaluateConditions text p.conditions context = .ok b := by
  by_cases hplain : Unconditional p.conditions
  · rcases hplain with hplain | hplain <;> exact ⟨true, by rw [hplain]; rfl⟩
  · rw [evaluateConditions_node hplain]
    exact (h.resolve_left hplain).evaluates

theorem not_rejected (h : ∀ p ∈ policies, Settled text context p) :
    ¬Rejected (evaluateConditions text) context (ranks agentId agent policies) := by
  rintro ⟨rank, hrank, p, hp, e, he⟩
  have hmem : p ∈ policies := by
    simp only [ranks, List.mem_cons, List.not_mem_nil, or_false] at hrank
    rcases hrank with rfl | rfl | rfl <;> exact List.mem_of_mem_filter hp
  obtain ⟨b, hb⟩ := (h p hmem).evaluates
  cases hb.symm.trans he

theorem settled_rewrites (h : List.Forall₂ Rewrites policies policies') (hs : ∀ p ∈ policies, Settled text context p) :
    ∀ p ∈ policies', Settled text context p := by
  induction h with
  | nil => simp
  | cons hp _ ih =>
    rw [List.forall_mem_cons] at hs ⊢
    exact ⟨hs.1.rewrites hp, ih hs.2⟩

end Settled

/-- In whatever order the clauses of the policies are written: two orders decide alike, or one of them comes to a
rejected condition and blocks. They decide alike when every clause has an answer. -/
theorem clause_order (text : Text) (agentId : Id) (agent : Agent) (context : Value) {policies policies' : List Policy}
    (h : List.Forall₂ Rewrites policies policies') :
    (verdictOf text agentId agent context policies = verdictOf text agentId agent context policies' ∨
      (Blocks (verdictOf text agentId agent context policies) ∧
        Rejected (evaluateConditions text) context (ranks agentId agent policies)) ∨
      Blocks (verdictOf text agentId agent context policies') ∧
        Rejected (evaluateConditions text) context (ranks agentId agent policies')) ∧
    ((∀ p ∈ policies, Settled text context p) →
      verdictOf text agentId agent context policies = verdictOf text agentId agent context policies') := by
  have agree : List.Forall₂ (Agree (evaluateConditions text) context) policies policies' :=
    h.imp fun _ _ hp => ⟨hp.bare, fun _ _ => hp.conditions.evaluate⟩
  have agreed := resolveRanks_agree (ranks_agree agentId agent agree)
  refine ⟨agreed, fun hsettled => ?_⟩
  rcases agreed with heq | ⟨_, hrejected⟩ | ⟨_, hrejected⟩
  · exact heq
  · exact absurd hrejected (not_rejected hsettled)
  · exact absurd hrejected (not_rejected (settled_rewrites h hsettled))

/-- `{"field": "x", "operator": "eq", "value": value}`. -/
def fieldEquals (value : String) : Value :=
  .dict [("field", .str "x"), ("operator", .str "eq"), ("value", .str value)]

/-- A policy that allows what meets either of two clauses. -/
def eitherOf (clause other : Value) : Policy where
  id := 1
  policyKey := "x"
  agentType := none
  agentId := none
  toolId := some 0
  priority := 0
  enabled := true
  action := .allow
  conditions := Combinator.any.node [clause, other]

/-- The decision of one such policy about a call with `x = "b"`. -/
def decideEither (clause other : Value) : Except ConditionFailure PolicyEvaluationResult :=
  verdictOf Premises.bench.text 0 ⟨"agent", "support"⟩ (.dict [("x", .str "b")]) [eitherOf clause other]

theorem rewrites_either (clause other : Value) : Rewrites (eitherOf clause other) (eitherOf other clause) :=
  ⟨rfl, .clauses .any (.swap _ _ _)⟩

/-- With answers to both clauses the order is not seen. A bad clause read first blocks what the other order allows. -/
theorem clause_order_either :
    decideEither (fieldEquals "a") (fieldEquals "b") = decideEither (fieldEquals "b") (fieldEquals "a") ∧
      (decideEither (fieldEquals "b") (.str "?")).map (·.decision) = .ok .allow ∧
      Blocks (decideEither (.str "?") (fieldEquals "b")) ∧
      Rejected (evaluateConditions Premises.bench.text) (.dict [("x", .str "b")])
        (ranks 0 ⟨"agent", "support"⟩ [eitherOf (.str "?") (fieldEquals "b")]) := by
  have answers {entries : List (String × Value)} {b : Bool} (hkeys : LeafKeys entries)
      (h : evaluateLeaf Premises.bench.text (.dict [("x", .str "b")]) entries = .ok b) :
      Answers Premises.bench.text (.dict [("x", .str "b")]) (.dict entries) := .leaf hkeys.not_combines h
  have no : Answers Premises.bench.text (.dict [("x", .str "b")]) (fieldEquals "a") :=
    answers (b := false) (by decide) rfl
  have yes : Answers Premises.bench.text (.dict [("x", .str "b")]) (fieldEquals "b") :=
    answers (b := true) (by decide) rfl
  have allowed : (decideEither (fieldEquals "b") (.str "?")).map (·.decision) = .ok .allow := rfl
  refine ⟨(clause_order _ _ _ _ (.cons (rewrites_either _ _) .nil)).2 fun p hp => .inr ?_, allowed, ?_⟩
  · obtain rfl := List.mem_singleton.1 hp
    refine .node (List.cons_ne_nil _ _) fun clause hclause => ?_
    simp only [List.mem_cons, List.not_mem_nil, or_false] at hclause
    rcases hclause with rfl | rfl
    · exact no
    · exact yes
  · obtain heq | ⟨hblocks, -⟩ | hrejected := (clause_order Premises.bench.text 0 ⟨"agent", "support"⟩
      (.dict [("x", .str "b")]) (.cons (rewrites_either (fieldEquals "b") (.str "?")) .nil)).1
    · have blocked : (decideEither (.str "?") (fieldEquals "b")).map (·.decision) = .ok .block := rfl
      rw [decideEither, heq] at allowed
      cases allowed.symm.trans blocked
    · cases hblocks _ rfl
    · exact hrejected

end PolicyEngine
end SafeOps
