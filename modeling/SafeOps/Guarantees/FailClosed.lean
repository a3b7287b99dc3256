import SafeOps.Bench
import SafeOps.Guarantees.ConditionMeaning
import Mathlib.Data.List.Lex

/-! Whether an ill-formed condition is noticed: evaluation stops at the clause that decides, so a bad
node counts only when every clause before it leaves the outcome open. -/

namespace SafeOps
namespace PolicyConditions

/-- The conditions `evaluate_conditions` is written for. -/
inductive WellFormed : Value → Prop
  | combined {c : Combinator} {clauses : List Value} : clauses ≠ [] →
      (∀ clause ∈ clauses, WellFormed clause) → WellFormed (c.node clauses)
  | leaf {entries : List (String × Value)} {name : String} {operator : Operator} : LeafKeys entries →
      entries.lookup "operator" = some (.str name) → Operator.named name = some operator →
      WellFormed (.dict entries)

theorem WellFormed.clauses {c : Combinator} {clauses : List Value} (h : WellFormed (c.node clauses)) :
    ∀ clause ∈ clauses, WellFormed clause := by
  generalize hnode : c.node clauses = node at h
  cases h with
  | combined _ hall =>
    obtain ⟨-, rfl⟩ := Combinator.node_inj hnode
    exact hall
  | leaf hkeys =>
    cases hnode
    exact absurd (c.combines clauses) hkeys.not_combines

/-- Conditions that always hold. -/
def Unconditional (v : Value) : Prop := v = .null ∨ v = .dict []

/-- Some node of the conditions is ill-formed. -/
def IllFormed (conditions : Value) : Prop := ¬Unconditional conditions ∧ ¬WellFormed conditions

/-- A leaf whose operator is a list or an object, which have no hash. -/
def Unhashable (node : Value) : Prop :=
  ∃ entries operator, node = .dict entries ∧ LeafKeys entries ∧ entries.lookup "operator" = some operator ∧
    (operator.kind = .list ∨ operator.kind = .dict)

section Definitions

variable (text : Text) (context : Value)

/-- A node that is bad by its shape, or a leaf by its operator, its field or its operands. -/
inductive Refused : Value → Prop
  | noObject {node : Value} : node.kind ≠ .dict → Refused node
  | mixed {entries : List (String × Value)} : Combines entries → entries.length ≠ 1 → Refused (.dict entries)
  | noClauses {c : Combinator} {clauses : Value} : (∀ clause others, clauses ≠ .list (clause :: others)) →
      Refused (.dict [(c.key, clauses)])
  | keys {entries : List (String × Value)} : ¬Combines entries → ¬LeafKeys entries → Refused (.dict entries)
  | operator {entries : List (String × Value)} {operator : Value} : LeafKeys entries →
      entries.lookup "operator" = some operator → operator.kind ≠ .list → operator.kind ≠ .dict →
      (∀ name, operator = .str name → Operator.named name = none) → Refused (.dict entries)
  | field {entries : List (String × Value)} {operator : Operator} : Leaf entries operator →
      (∀ actual, ¬Finds context (fieldOf entries) actual) → Refused (.dict entries)
  | operands {entries : List (String × Value)} {operator : Operator} {actual : Value} : Leaf entries operator →
      Finds context (fieldOf entries) actual → ¬operator.Takes text actual (valueOf entries) → Refused (.dict entries)

/-- The node stands at this position of the conditions, and the clauses before it on the way are all true in an `all`
and all false in an `any`. -/
inductive Visited : Value → List Nat → Value → Prop
  | here (node : Value) : Visited node [] node
  | clause {c : Combinator} {before after : List Value} {clause node : Value} {path : List Nat} :
      (∀ earlier ∈ before, Means text context earlier c.open?) → Visited clause path node →
      Visited (c.node (before ++ clause :: after)) (before.length :: path) node

/-- A refused node is visited, and no leaf before it has an operator without a hash. -/
def Noticed (conditions : Value) : Prop :=
  ∃ path node, Visited text context conditions path node ∧ Refused text context node ∧
    ∀ path' node', path' < path → Visited text context conditions path' node' → ¬Unhashable node'

/-- A node at which the evaluation raises. -/
def Fault : ConditionFailure → Value → Prop
  | .policyConditionError => Refused text context
  | .other => Unhashable

/-- The first faulty node that is visited raises this. -/
def First (e : ConditionFailure) (v : Value) : Prop :=
  ∃ path node, Visited text context v path node ∧ Fault text context e node ∧
    ∀ path' node', path' < path → Visited text context v path' node' → ∀ e', ¬Fault text context e' node'

end Definitions

variable {text : Text} {context v node : Value} {entries : List (String × Value)} {e : ConditionFailure}
  {c : Combinator} {clauses : List Value} {path : List Nat}

theorem evaluateConditions_node (h : ¬Unconditional v) :
    evaluateConditions text v context = evaluateNode text context v := by
  unfold evaluateConditions
  split
  · exact absurd (.inl rfl) h
  · exact absurd (.inr rfl) h
  · rfl

section Faults

/-- An operator that has no hash ends the evaluation with a `TypeError`. -/
theorem unhashable_operator (h : Unhashable node) : evaluateNode text context node = .error .other := by
  obtain ⟨entries, operator, rfl, hkeys, hlookup, hkind⟩ := h
  have hoperator : operatorOf ((entries.lookup "operator").getD .null) = .error .other := by
    rw [hlookup]
    rcases hkind with hkind | hkind
    · cases operator <;> first | rfl | cases hkind
    · cases operator <;> first | rfl | cases hkind
  rw [evaluateNode_leaf hkeys.not_combines, evaluateLeaf, if_pos hkeys, hoperator]
  rfl

theorem Refused.rejected (h : Refused text context node) : evaluateNode text context node = policyConditionError := by
  cases h with
  | noObject hkind => cases node <;> first | rfl | exact absurd rfl hkind
  | mixed hcombines hlength =>
    unfold evaluateNode
    split
    · rename_i heq
      cases heq
      exact absurd rfl hlength
    · rename_i heq
      cases heq
      exact if_pos hcombines
    · rfl
  | @noClauses c clauses hclauses =>
    unfold evaluateNode
    split
    · rename_i heq
      cases heq
      rename_i clauses
      cases clauses with
      | nil => cases c <;> rfl
      | cons clause others => exact absurd rfl (hclauses clause others)
    · rename_i heq
      cases heq
      exact if_pos (by cases c <;> simp [Combinator.key])
    · rfl
  | keys hcombines hkeys => rw [evaluateNode_leaf hcombines, evaluateLeaf, if_neg hkeys]
  | @operator entries operator hkeys hlookup hlist hdict hname =>
    have hoperator : operatorOf operator = policyConditionError := by
      cases operator with
      | str name => rw [operatorOf, hname name rfl]
      | list => exact absurd rfl hlist
      | dict => exact absurd rfl hdict
      | _ => rfl
    rw [evaluateNode_leaf hkeys.not_combines, evaluateLeaf, if_pos hkeys, hlookup, Option.getD_some, hoperator]
    rfl
  | field hleaf hfield =>
    rw [evaluateNode_leaf hleaf.keys.not_combines, hleaf.evaluate, resolveField_error hfield]
    rfl
  | operands hleaf hfield htakes =>
    rw [evaluateNode_leaf hleaf.keys.not_combines, hleaf.evaluate, resolveField_ok.2 hfield]
    exact Operator.apply_error htakes

theorem Fault.raises (h : Fault text context e node) : evaluateNode text context node = .error e := by
  cases e with
  | policyConditionError => exact Refused.rejected h
  | other => exact unhashable_operator h

/-- A combination of clauses is no fault itself. -/
theorem not_fault_node (hclauses : clauses ≠ []) : ¬Fault text context e (c.node clauses) := by
  have noLeaf : ¬LeafKeys [(c.key, .list clauses)] := fun h => h.not_combines (c.combines clauses)
  cases e with
  | other =>
    rintro ⟨entries, operator, heq, hkeys, -⟩
    cases heq
    exact noLeaf hkeys
  | policyConditionError =>
    intro h
    generalize hnode : c.node clauses = node at h
    cases h with
    | noObject hkind =>
      subst hnode
      exact hkind rfl
    | mixed _ hlength =>
      cases hnode
      exact hlength rfl
    | noClauses hnone =>
      cases clauses with
      | nil => exact hclauses rfl
      | cons clause others =>
        simp only [Combinator.node, Value.dict.injEq, List.cons.injEq, Prod.mk.injEq] at hnode
        exact hnone clause others hnode.1.2.symm
    | keys hcombines =>
      cases hnode
      exact hcombines (c.combines clauses)
    | operator hkeys =>
      cases hnode
      exact noLeaf hkeys
    | field hleaf | operands hleaf =>
      cases hnode
      exact noLeaf hleaf.keys

/-- A leaf says something, or is a fault. -/
theorem says_or_fault (h : ¬Combines entries) :
    (∃ b, Says text context entries b) ∨ ∃ e, Fault text context e (.dict entries) := by
  by_cases hkeys : LeafKeys entries
  · obtain ⟨operator, hlookup⟩ : ∃ operator, entries.lookup "operator" = some operator := by
      obtain ⟨entry, hentry, hkey⟩ := List.mem_map.1 (hkeys.1 (show "operator" ∈ leafKeys by simp [leafKeys]))
      rw [← Option.isSome_iff_exists, List.lookup_isSome_iff]
      exact ⟨entry, hentry, beq_iff_eq.2 hkey.symm⟩
    by_cases hhash : operator.kind = .list ∨ operator.kind = .dict
    · exact .inr ⟨.other, entries, operator, rfl, hkeys, hlookup, hhash⟩
    · by_cases hnamed : ∃ name supported, operator = .str name ∧ Operator.named name = some supported
      · obtain ⟨name, supported, rfl, hname⟩ := hnamed
        have hleaf : Leaf entries supported := ⟨hkeys, name, hlookup, hname⟩
        by_cases hfield : ∃ actual, Finds context (fieldOf entries) actual
        · obtain ⟨actual, hfield⟩ := hfield
          by_cases htakes : supported.Takes text actual (valueOf entries)
          · by_cases htrue : supported.IsTrue text actual (valueOf entries)
            · exact .inl ⟨true, supported, actual, hleaf, hfield, htakes, by simp [htrue]⟩
            · exact .inl ⟨false, supported, actual, hleaf, hfield, htakes, by simp [htrue]⟩
          · exact .inr ⟨.policyConditionError, .operands hleaf hfield htakes⟩
        · exact .inr ⟨.policyConditionError, .field hleaf (not_exists.1 hfield)⟩
      · rw [not_or] at hhash
        refine .inr ⟨.policyConditionError, .operator hkeys hlookup hhash.1 hhash.2 fun name heq => ?_⟩
        cases hname : Operator.named name with
        | none => rfl
        | some supported => exact absurd ⟨name, supported, heq, hname⟩ hnamed
  · exact .inr ⟨.policyConditionError, .keys h hkeys⟩

end Faults

section Visits

theorem visited_node (h : Visited text context (c.node clauses) path node) : (path = [] ∧ node = c.node clauses) ∨
    ∃ before clause after path', clauses = before ++ clause :: after ∧ path = before.length :: path' ∧
      (∀ earlier ∈ before, Means text context earlier c.open?) ∧ Visited text context clause path' node := by
  generalize hnode : c.node clauses = v at h
  cases h with
  | here => exact .inl ⟨rfl, rfl⟩
  | @clause c' before after clause node path' hbefore hclause =>
    obtain ⟨rfl, rfl⟩ := Combinator.node_inj hnode
    exact .inr ⟨before, clause, after, path', rfl, rfl, hbefore, hclause⟩

theorem visited_leaf (h : ¬Combines entries) (hv : Visited text context (.dict entries) path node) :
    node = .dict entries := by
  generalize hnode : Value.dict entries = v at hv
  cases hv with
  | here => rfl
  | clause =>
    cases hnode
    exact absurd (Combinator.combines _ _) h

/-- Two clauses of one list: the same one, or one of them stands before the other. -/
theorem split_cases {α : Type} {before before' after after' : List α} {clause clause' : α}
    (h : before ++ clause :: after = before' ++ clause' :: after') :
    (before.length < before'.length ∧ clause ∈ before') ∨ (before = before' ∧ clause = clause') ∨
      (before'.length < before.length ∧ clause' ∈ before) := by
  rcases List.append_eq_append_iff.1 h with ⟨between, rfl, heq⟩ | ⟨between, rfl, heq⟩
  · cases between with
    | nil =>
      obtain ⟨rfl, -⟩ := List.cons.inj heq
      exact .inr (.inl ⟨(List.append_nil _).symm, rfl⟩)
    | cons first rest =>
      obtain ⟨rfl, -⟩ := List.cons.inj heq
      exact .inl ⟨by simp, by simp⟩
  · cases between with
    | nil =>
      obtain ⟨rfl, -⟩ := List.cons.inj heq
      exact .inr (.inl ⟨List.append_nil _, rfl⟩)
    | cons first rest =>
      obtain ⟨rfl, -⟩ := List.cons.inj heq
      exact .inr (.inr ⟨by simp, by simp⟩)

/-- One node stands at a position. -/
theorem Visited.unique {node' : Value} (h : Visited text context v path node)
    (h' : Visited text context v path node') : node = node' := by
  induction h with
  | here v =>
    generalize hpath : ([] : List Nat) = path at h'
    cases h' with
    | here => rfl
    | clause => cases hpath
  | clause _ _ ih =>
    rcases visited_node h' with ⟨hpath, -⟩ | ⟨before', clause', after', path', heq, hpath, -, hclause⟩
    · cases hpath
    · obtain ⟨hlength, rfl⟩ := List.cons.inj hpath
      rcases split_cases heq with ⟨hlt, -⟩ | ⟨-, rfl⟩ | ⟨hlt, -⟩
      · omega
      · exact ih hclause
      · omega

end Visits

/-- What the evaluation of a node comes to: what the node says when no fault is visited, else the first fault. -/
structure Read (text : Text) (context node : Value) : Prop where
  means : ∀ b, evaluateNode text context node = .ok b → Means text context node b
  clean : ∀ b, evaluateNode text context node = .ok b →
    ∀ path bad, Visited text context node path bad → ∀ e, ¬Fault text context e bad
  first : ∀ e, evaluateNode text context node = .error e → First text context e node

theorem Read.fault (h : Fault text context e node) : Read text context node where
  means b hb := by cases h.raises.symm.trans hb
  clean b hb := by cases h.raises.symm.trans hb
  first e' he := by
    cases h.raises.symm.trans he
    exact ⟨[], node, .here node, h, fun path' _ hlt => absurd hlt (List.not_lt_nil path')⟩

theorem Read.leaf (h : ¬Combines entries) : Read text context (.dict entries) := by
  obtain ⟨b, hsays⟩ | ⟨e, hfault⟩ := @says_or_fault text context entries h
  · have heval : evaluateNode text context (.dict entries) = .ok b :=
      (evaluateNode_leaf h).trans (evaluateLeaf_ok.2 hsays)
    refine ⟨fun b' hb => ?_, fun b' _ path bad hvisited e hfault => ?_, fun e he => ?_⟩
    · cases heval.symm.trans hb
      exact .leaf h hsays
    · obtain rfl := visited_leaf h hvisited
      cases heval.symm.trans hfault.raises
    · cases heval.symm.trans he
  · exact .fault hfault

/-- The clauses before the one that decides are open and without faults, and those after it are not read. -/
theorem Read.combined (hclauses : clauses ≠ []) (h : ∀ clause ∈ clauses, Read text context clause) :
    Read text context (c.node clauses) := by
  have heval : evaluateNode text context (c.node clauses) = _ := evaluateNode_node hclauses
  obtain ⟨hall, heq⟩ | ⟨before, clause, after, rfl, hbefore, hstop, heq⟩ :=
    @evaluateClauses_read text context c clauses
  · rw [heq] at heval
    refine ⟨fun b hb => ?_, fun b _ path bad hvisited e hfault => ?_, fun e he => ?_⟩
    · cases heval.symm.trans hb
      exact .throughout hclauses fun clause hclause => (h clause hclause).means _ (hall clause hclause)
    · rcases visited_node hvisited with ⟨-, rfl⟩ | ⟨before, clause, after, path', rfl, -, -, hclause⟩
      · exact not_fault_node hclauses hfault
      · exact (h clause (by simp)).clean _ (hall clause (by simp)) path' bad hclause e hfault
    · cases heval.symm.trans he
  · rw [heq] at heval
    have opens : ∀ earlier ∈ before, Means text context earlier c.open? := fun earlier hearlier =>
      (h earlier (by simp [hearlier])).means _ (hbefore earlier hearlier)
    have cleans : ∀ earlier ∈ before, ∀ path bad, Visited text context earlier path bad →
        ∀ e, ¬Fault text context e bad := fun earlier hearlier =>
      (h earlier (by simp [hearlier])).clean _ (hbefore earlier hearlier)
    have closes : ∀ b, evaluateNode text context clause = .ok b → b = !c.open? := by
      intro b hb
      rw [hb] at hstop
      cases b <;> cases hopen : c.open? <;> simp_all
    have hread := h clause (by simp)
    refine ⟨fun b hb => ?_, fun b hb path bad hvisited e hfault => ?_, fun e he => ?_⟩
    · have hclause := heval.symm.trans hb
      obtain rfl := closes b hclause
      exact .decided (by simp) (hread.means _ hclause)
    · have hclause := heval.symm.trans hb
      rcases visited_node hvisited with ⟨-, rfl⟩ | ⟨before', clause', after', path', hsplit, -, hopens, hpath⟩
      · exact not_fault_node hclauses hfault
      · rcases split_cases hsplit with ⟨-, hmem⟩ | ⟨-, rfl⟩ | ⟨-, hmem⟩
        · -- beyond the clause that decides nothing is visited
          have hne := closes b hclause
          have hsame := (hopens clause hmem).unique (hread.means b hclause)
          rw [hne] at hsame
          cases hopen : c.open? <;> simp [hopen] at hsame
        · exact hread.clean b hclause path' bad hpath e hfault
        · exact cleans clause' hmem path' bad hpath e hfault
    · obtain ⟨path, bad, hvisited, hfault, hearlier⟩ := hread.first e (heval.symm.trans he)
      refine ⟨before.length :: path, bad, .clause opens hvisited, hfault, fun path' other hlt hother e' hfault' => ?_⟩
      rcases visited_node hother with ⟨-, rfl⟩ | ⟨before', clause', after', path'', hsplit, rfl, -, hpath⟩
      · exact not_fault_node hclauses hfault'
      · have hlt := List.cons_lt_cons_iff.1 hlt
        rcases split_cases hsplit with ⟨hlonger, -⟩ | ⟨rfl, rfl⟩ | ⟨-, hmem⟩
        · omega
        · exact hearlier path'' other (by simpa using hlt) hpath e' hfault'
        · exact cleans clause' hmem path'' other hpath e' hfault'

/-- An object is a leaf, a combination of clauses, or refused. -/
theorem Read.object
    (h : ∀ entry ∈ entries, ∀ clauses, entry.2 = .list clauses → ∀ clause ∈ clauses, Read text context clause) :
    Read text context (.dict entries) := by
  by_cases hcombines : Combines entries
  · by_cases hlength : entries.length = 1
    · obtain ⟨⟨key, value⟩, rfl⟩ := List.length_eq_one_iff.mp hlength
      obtain ⟨c, rfl⟩ : ∃ c : Combinator, key = c.key := by
        rcases hcombines with hkey | hkey
        · exact ⟨.all, (List.mem_singleton.mp hkey).symm⟩
        · exact ⟨.any, (List.mem_singleton.mp hkey).symm⟩
      by_cases hclauses : ∃ clause others, value = .list (clause :: others)
      · obtain ⟨clause, others, rfl⟩ := hclauses
        exact .combined (by simp) (h _ (List.mem_singleton_self _) _ rfl)
      · have hrefused : Refused text context (.dict [(c.key, value)]) := .noClauses (by simpa using hclauses)
        exact .fault (e := .policyConditionError) hrefused
    · have hrefused : Refused text context (.dict entries) := .mixed hcombines hlength
      exact .fault (e := .policyConditionError) hrefused
  · exact .leaf hcombines

theorem Read.scalar (h : node.kind ≠ .dict) : Read text context node := by
  have hrefused : Refused text context node := .noObject h
  exact .fault (e := .policyConditionError) hrefused

theorem read (node : Value) : Read text context node := by
  suffices h : Read text context node ∧
      ∀ clauses, node = .list clauses → ∀ clause ∈ clauses, Read text context clause from h.1
  induction node using Value.induct with
  | list xs ih =>
    refine ⟨.scalar (by simp [Value.kind]), fun clauses h clause hclause => ?_⟩
    cases h
    exact (ih clause hclause).1
  | dict entries ih => exact ⟨.object fun entry hentry => (ih entry hentry).2, fun _ h => by cases h⟩
  | _ => exact ⟨.scalar (by simp [Value.kind]), fun _ h => by cases h⟩

/-- A node is rejected with `PolicyConditionError` exactly when a refused node is visited before any leaf with an
operator that has no hash. -/
theorem noticed_iff (node : Value) :
    evaluateNode text context node = policyConditionError ↔ Noticed text context node := by
  constructor
  · intro h
    obtain ⟨path, bad, hvisited, hrefused, hearlier⟩ := (read node).first _ h
    exact ⟨path, bad, hvisited, hrefused, fun path' other hlt hother => hearlier path' other hlt hother .other⟩
  · rintro ⟨path, bad, hvisited, hrefused, hearlier⟩
    have hfault : Fault text context .policyConditionError bad := hrefused
    cases heval : evaluateNode text context node with
    | ok b => exact absurd hfault ((read node).clean b heval path bad hvisited _)
    | error e =>
      cases e with
      | policyConditionError => rfl
      | other =>
        obtain ⟨path', other, hvisited', hfault', hearlier'⟩ := (read node).first _ heval
        rcases lt_trichotomy path path' with hlt | rfl | hlt
        · exact absurd hfault (hearlier' path bad hlt hvisited _)
        · obtain rfl := hvisited.unique hvisited'
          cases hfault.raises.symm.trans hfault'.raises
        · exact absurd hfault' (hearlier path' other hlt hvisited')

/-- Ill-formed conditions are refused exactly when reading them comes to a refused node in time. -/
theorem fails_closed (text : Text) (conditions context : Value) :
    (IllFormed conditions → evaluateConditions text conditions context = policyConditionError) ↔
      (IllFormed conditions → Noticed text context conditions) := by
  refine imp_congr_right fun hill => ?_
  rw [evaluateConditions_node hill.1]
  exact noticed_iff conditions

/-- `{"any": [{"field": "x", "operator": "eq", "value": "a"}, "?"]}`. -/
def loose : Value :=
  Combinator.any.node [.dict [("field", .str "x"), ("operator", .str "eq"), ("value", .str "a")], .str "?"]

/-- The second clause is no object, yet the first one lets the whole condition pass. -/
theorem ill_formed_passes : ¬∀ conditions context, IllFormed conditions →
    evaluateConditions Premises.bench.text conditions context = policyConditionError := by
  intro h
  have hill : IllFormed loose := by
    refine ⟨by simp [Unconditional, loose, Combinator.node], fun hformed => ?_⟩
    cases hformed.clauses (.str "?") (by simp)
  have hraise := h loose (.dict [("x", .str "a")]) hill
  have hpass : evaluateConditions Premises.bench.text loose (.dict [("x", .str "a")]) = .ok true := rfl
  cases hpass.symm.trans hraise

end PolicyConditions
end SafeOps
