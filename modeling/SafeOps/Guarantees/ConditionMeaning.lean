import SafeOps.Services.PolicyConditions

/-! What a condition says, apart from the order in which `_evaluate_node` reads it: the truth of a leaf by its field,
its operator and its operands, and that of a combination by all of its clauses. -/

namespace SafeOps
namespace PolicyConditions

section Operands

variable (text : Text) (context : Value)

/-- The value is no boolean, and its text is that of a finite number. -/
def ReadsAs (v : Value) (x : Rat) : Prop :=
  v.kind ≠ .bool ∧ ∃ d, text.decimal (text.str v) = some (.finite d) ∧ d.value = x

def IsNumeric (v : Value) : Prop := ∃ x, ReadsAs text v x

/-- The field is a path in the context to a value that is not null. -/
def Finds (field actual : Value) : Prop :=
  ∃ path, field = .str path ∧ path ≠ "" ∧ walk context (segments path.toList) = some actual ∧ actual ≠ .null

/-- The operator takes such operands. -/
def Operator.Takes (operator : Operator) (actual expected : Value) : Prop :=
  match operator with
  | eq | neq => True
  | lt | lte | gt | gte => IsNumeric text actual ∧ IsNumeric text expected
  | isIn => expected.kind = .list

/-- The comparison is true. -/
def Operator.IsTrue (operator : Operator) (actual expected : Value) : Prop :=
  match operator with
  | eq => PolicyConditions.eq text actual expected = true
  | neq => PolicyConditions.eq text actual expected = false
  | lt => ∃ x y, ReadsAs text actual x ∧ ReadsAs text expected y ∧ x < y
  | lte => ∃ x y, ReadsAs text actual x ∧ ReadsAs text expected y ∧ x ≤ y
  | gt => ∃ x y, ReadsAs text actual x ∧ ReadsAs text expected y ∧ y < x
  | gte => ∃ x y, ReadsAs text actual x ∧ ReadsAs text expected y ∧ y ≤ x
  | isIn => ∃ values, expected = .list values ∧ ∃ v ∈ values, actual.pyEq v = true

def fieldOf (entries : List (String × Value)) : Value := (entries.lookup "field").getD .null

def valueOf (entries : List (String × Value)) : Value := (entries.lookup "value").getD .null

/-- A leaf with a supported operator. -/
structure Leaf (entries : List (String × Value)) (operator : Operator) : Prop where
  keys : LeafKeys entries
  operator : ∃ name, entries.lookup "operator" = some (.str name) ∧ Operator.named name = some operator

/-- The leaf compares what its operator takes, and this is the outcome. -/
def Says (entries : List (String × Value)) (b : Bool) : Prop :=
  ∃ operator actual, Leaf entries operator ∧ Finds context (fieldOf entries) actual ∧
    operator.Takes text actual (valueOf entries) ∧ (b = true ↔ operator.IsTrue text actual (valueOf entries))

end Operands

section Outcomes

variable {text : Text} {context : Value} {v field actual expected : Value} {x : Rat} {b : Bool}

theorem asDecimal_ok : asDecimal text v = .ok x ↔ ReadsAs text v x := by
  unfold asDecimal ReadsAs
  split
  · simp [Value.kind, policyConditionError]
  · rename_i hbool
    have hkind : v.kind ≠ .bool := by
      cases v with
      | bool b => exact absurd rfl (hbool b)
      | _ => simp [Value.kind]
    split
    · rename_i d hd
      simp [hkind, hd]
    · rename_i hfinite
      simp only [policyConditionError, reduceCtorEq, hkind, ne_eq, not_false_eq_true, true_and, false_iff]
      rintro ⟨d, hd, -⟩
      exact hfinite d hd

theorem asDecimal_error (h : ¬IsNumeric text v) : asDecimal text v = policyConditionError := by
  cases hread : asDecimal text v with
  | ok x => exact absurd ⟨x, asDecimal_ok.1 hread⟩ h
  | error e =>
    unfold asDecimal at hread
    split at hread
    · exact hread.symm
    · split at hread
      · cases hread
      · exact hread.symm

theorem compare_ok {holds : Rat → Rat → Bool} : compare text holds actual expected = .ok b ↔
    ∃ x y, ReadsAs text actual x ∧ ReadsAs text expected y ∧ holds x y = b := by
  simp only [← asDecimal_ok, compare, bind, Except.bind, pure, Except.pure]
  cases asDecimal text actual <;> cases asDecimal text expected <;> simp

theorem compare_error {holds : Rat → Rat → Bool} (h : ¬(IsNumeric text actual ∧ IsNumeric text expected)) :
    compare text holds actual expected = policyConditionError := by
  by_cases hactual : IsNumeric text actual
  · obtain ⟨x, hx⟩ := hactual
    have hexpected : ¬IsNumeric text expected := fun hexpected => h ⟨⟨x, hx⟩, hexpected⟩
    rw [compare, asDecimal_ok.2 hx, asDecimal_error hexpected]
    rfl
  · rw [compare, asDecimal_error hactual]
    rfl

theorem ReadsAs.unique {y : Rat} (h : ReadsAs text v x) (h' : ReadsAs text v y) : x = y :=
  Except.ok.inj ((asDecimal_ok.2 h).symm.trans (asDecimal_ok.2 h'))

/-- What holds of the two numbers holds of what the two values are read as. -/
theorem ReadsAs.rel_iff {r : Rat → Rat → Prop} {y : Rat} (hx : ReadsAs text actual x) (hy : ReadsAs text expected y) :
    r x y ↔ ∃ x' y', ReadsAs text actual x' ∧ ReadsAs text expected y' ∧ r x' y' := by
  constructor
  · exact fun hr => ⟨x, y, hx, hy, hr⟩
  · rintro ⟨x', y', hx', hy', hr⟩
    rwa [hx.unique hx', hy.unique hy']

/-- The comparison of two numbers is the outcome of the relation between them. -/
theorem compare_iff {r : Rat → Rat → Prop} [DecidableRel r] :
    compare text (fun x y => r x y) actual expected = .ok b ↔ (IsNumeric text actual ∧ IsNumeric text expected) ∧
      (b = true ↔ ∃ x y, ReadsAs text actual x ∧ ReadsAs text expected y ∧ r x y) := by
  rw [compare_ok]
  constructor
  · rintro ⟨x, y, hx, hy, rfl⟩
    exact ⟨⟨⟨x, hx⟩, y, hy⟩, decide_eq_true_iff.trans (hx.rel_iff hy)⟩
  · rintro ⟨⟨⟨x, hx⟩, y, hy⟩, hb⟩
    have hdecide : decide (r x y) = true ↔ b = true := decide_eq_true_iff.trans ((hx.rel_iff hy).trans hb.symm)
    exact ⟨x, y, hx, hy, Bool.eq_iff_iff.2 hdecide⟩

theorem Operator.apply_ok {operator : Operator} : operator.apply text actual expected = .ok b ↔
    operator.Takes text actual expected ∧ (b = true ↔ operator.IsTrue text actual expected) := by
  cases operator with
  | eq =>
    simp only [Operator.apply, Operator.Takes, Operator.IsTrue, Except.ok.injEq, true_and]
    rw [eq_comm, Bool.eq_iff_iff]
  | neq =>
    simp only [Operator.apply, Operator.Takes, Operator.IsTrue, Except.ok.injEq, true_and]
    rw [eq_comm, Bool.eq_iff_iff, Bool.not_eq_true']
  | lt | lte | gt | gte => exact compare_iff
  | isIn =>
    cases expected with
    | list values =>
      simp only [Operator.apply, Operator.Takes, Operator.IsTrue, inList, Except.ok.injEq, Value.kind, true_and]
      rw [eq_comm, Bool.eq_iff_iff, List.any_eq_true]
      simp
    | _ => simp [Operator.apply, Operator.Takes, inList, Value.kind, policyConditionError]

theorem Operator.apply_error {operator : Operator} (h : ¬operator.Takes text actual expected) :
    operator.apply text actual expected = policyConditionError := by
  cases operator with
  | eq | neq => exact absurd trivial h
  | lt | lte | gt | gte => exact compare_error h
  | isIn =>
    cases expected with
    | list values => exact absurd rfl h
    | _ => rfl

theorem resolveField_ok : resolveField field context = .ok actual ↔ Finds context field actual := by
  unfold resolveField Finds
  split
  · rename_i path
    split
    · rename_i hpath
      simp [hpath, policyConditionError]
    · rename_i hpath
      simp only [Value.str.injEq, exists_eq_left', ne_eq, hpath, not_false_eq_true, true_and]
      split
      · rename_i hnull
        simp only [policyConditionError, reduceCtorEq, hnull, Option.some.injEq, false_iff, not_and, not_not]
        exact Eq.symm
      · rename_i hnone
        simp [policyConditionError, hnone]
      · rename_i value hfound hvalue
        simp only [Except.ok.injEq, hvalue, Option.some.injEq]
        constructor
        · rintro rfl
          exact ⟨rfl, hfound⟩
        · exact fun h => h.1
  · rename_i hstr
    simp only [policyConditionError, reduceCtorEq, false_iff]
    rintro ⟨path, hpath, -⟩
    exact hstr path hpath

theorem resolveField_error (h : ∀ actual, ¬Finds context field actual) :
    resolveField field context = policyConditionError := by
  cases hfield : resolveField field context with
  | ok actual => exact absurd (resolveField_ok.1 hfield) (h actual)
  | error e =>
    unfold resolveField at hfield
    split at hfield
    · split at hfield
      · exact hfield.symm
      · split at hfield
        · exact hfield.symm
        · exact hfield.symm
        · cases hfield
    · exact hfield.symm

end Outcomes

inductive Combinator
  | all | any

namespace Combinator

def key : Combinator → String
  | all => "all"
  | any => "any"

/-- The outcome of a clause after which the next one is read. -/
def open? : Combinator → Bool
  | all => true
  | any => false

/-- The node that combines the clauses. -/
def node (c : Combinator) (clauses : List Value) : Value := .dict [(c.key, .list clauses)]

end Combinator

def Combines (entries : List (String × Value)) : Prop :=
  "all" ∈ entries.map (·.1) ∨ "any" ∈ entries.map (·.1)

section Clauses

variable (text : Text) (context : Value)

/-- `evaluateAll` and `evaluateAny`. -/
def evaluateClauses (c : Combinator) (clauses : List Value) : Verdict Bool :=
  match c with
  | .all => evaluateAll text context clauses
  | .any => evaluateAny text context clauses

end Clauses

section Reading

variable {text : Text} {context : Value} {entries : List (String × Value)} {b : Bool} {c : Combinator}
  {clauses : List Value}

theorem LeafKeys.not_combines {entries : List (String × Value)} (h : LeafKeys entries) : ¬Combines entries := by
  rintro (hkey | hkey)
  · exact absurd (h.2 hkey) (by decide)
  · exact absurd (h.2 hkey) (by decide)

theorem evaluateNode_leaf {entries : List (String × Value)} (h : ¬Combines entries) :
    evaluateNode text context (.dict entries) = evaluateLeaf text context entries := by
  unfold evaluateNode
  split
  · rename_i key clauses heq
    cases heq
    simp only [Combines, List.map_cons, List.map_nil, List.mem_singleton, not_or] at h
    simp [Ne.symm h.1, Ne.symm h.2]
  · rename_i heq
    cases heq
    exact if_neg h
  · rename_i hdict
    exact absurd rfl (hdict entries)

theorem evaluateNode_node {c : Combinator} {clauses : List Value} (h : clauses ≠ []) :
    evaluateNode text context (c.node clauses) = evaluateClauses text context c clauses := by
  cases c <;> simp [Combinator.node, Combinator.key, evaluateNode, evaluateClauses, h]

theorem evaluateClauses_nil (c : Combinator) : evaluateClauses text context c [] = .ok c.open? := by
  cases c <;> rfl

theorem evaluateClauses_open {c : Combinator} {clause : Value} {clauses : List Value}
    (h : evaluateNode text context clause = .ok c.open?) :
    evaluateClauses text context c (clause :: clauses) = evaluateClauses text context c clauses := by
  cases c
  · exact show evaluateAll text context _ = _ by rw [evaluateAll, h]; rfl
  · exact show evaluateAny text context _ = _ by rw [evaluateAny, h]; rfl

theorem evaluateClauses_stop {c : Combinator} {clause : Value} {clauses : List Value}
    (h : evaluateNode text context clause ≠ .ok c.open?) :
    evaluateClauses text context c (clause :: clauses) = evaluateNode text context clause := by
  cases c
  · show evaluateAll text context _ = _
    rw [evaluateAll]
    split
    · exact absurd (by assumption) h
    · rfl
  · show evaluateAny text context _ = _
    rw [evaluateAny]
    split
    · exact absurd (by assumption) h
    · rfl

/-- The clauses are all read, or those before the one that decides. -/
theorem evaluateClauses_read (c : Combinator) (clauses : List Value) :
    ((∀ clause ∈ clauses, evaluateNode text context clause = .ok c.open?) ∧
      evaluateClauses text context c clauses = .ok c.open?) ∨
    ∃ before clause after, clauses = before ++ clause :: after ∧
      (∀ earlier ∈ before, evaluateNode text context earlier = .ok c.open?) ∧
      evaluateNode text context clause ≠ .ok c.open? ∧
      evaluateClauses text context c clauses = evaluateNode text context clause := by
  induction clauses with
  | nil => exact .inl ⟨by simp, evaluateClauses_nil c⟩
  | cons clause clauses ih =>
    by_cases hopen : evaluateNode text context clause = .ok c.open?
    · rw [evaluateClauses_open hopen]
      obtain ⟨hall, heq⟩ | ⟨before, decisive, after, rfl, hbefore, hstop, heq⟩ := ih
      · exact .inl ⟨by simpa [hopen] using hall, heq⟩
      · exact .inr ⟨clause :: before, decisive, after, rfl, by simpa [hopen] using hbefore, hstop, heq⟩
    · exact .inr ⟨[], clause, clauses, rfl, by simp, hopen, evaluateClauses_stop hopen⟩

theorem Combinator.combines (c : Combinator) (clauses : List Value) : Combines [(c.key, .list clauses)] := by
  cases c
  · exact .inl (List.mem_singleton_self _)
  · exact .inr (List.mem_singleton_self _)

theorem Combinator.node_inj {c' : Combinator} {clauses' : List Value} (h : c.node clauses = c'.node clauses') :
    c = c' ∧ clauses = clauses' := by
  cases c <;> cases c' <;> simp_all [node, key]

end Reading

section Leaves

variable {text : Text} {context : Value} {entries : List (String × Value)} {operator : Operator} {b : Bool}

theorem Leaf.operatorOf (h : Leaf entries operator) :
    PolicyConditions.operatorOf ((entries.lookup "operator").getD .null) = .ok operator := by
  obtain ⟨name, hlookup, hname⟩ := h.operator
  simp only [hlookup, Option.getD_some, PolicyConditions.operatorOf, hname]

theorem leaf_of_operatorOf (hkeys : LeafKeys entries)
    (h : PolicyConditions.operatorOf ((entries.lookup "operator").getD .null) = .ok operator) :
    Leaf entries operator := by
  refine ⟨hkeys, ?_⟩
  cases hlookup : entries.lookup "operator" with
  | none => simp [hlookup, PolicyConditions.operatorOf, policyConditionError] at h
  | some v =>
    rw [hlookup, Option.getD_some] at h
    cases v with
    | str name =>
      refine ⟨name, rfl, ?_⟩
      unfold PolicyConditions.operatorOf at h
      dsimp only at h
      split at h
      · rename_i hname
        rw [hname, Except.ok.inj h]
      · cases h
    | _ => simp [PolicyConditions.operatorOf, policyConditionError] at h

theorem Leaf.evaluate (h : Leaf entries operator) : evaluateLeaf text context entries =
    (resolveField (fieldOf entries) context).bind (operator.apply text · (valueOf entries)) := by
  rw [evaluateLeaf, if_pos h.keys, h.operatorOf]
  rfl

/-- A leaf evaluates to what it says. -/
theorem evaluateLeaf_ok : evaluateLeaf text context entries = .ok b ↔ Says text context entries b := by
  constructor
  · intro heval
    by_cases hkeys : LeafKeys entries
    · cases hoperator : PolicyConditions.operatorOf ((entries.lookup "operator").getD .null) with
      | error e =>
        rw [evaluateLeaf, if_pos hkeys, hoperator] at heval
        cases heval
      | ok operator =>
        have hleaf := leaf_of_operatorOf hkeys hoperator
        rw [hleaf.evaluate] at heval
        cases hfield : resolveField (fieldOf entries) context with
        | error e =>
          rw [hfield] at heval
          cases heval
        | ok actual =>
          rw [hfield] at heval
          exact ⟨operator, actual, hleaf, resolveField_ok.1 hfield, Operator.apply_ok.1 heval⟩
    · rw [evaluateLeaf, if_neg hkeys] at heval
      cases heval
  · rintro ⟨operator, actual, hleaf, hfield, htrue⟩
    rw [hleaf.evaluate, resolveField_ok.2 hfield]
    exact Operator.apply_ok.2 htrue

end Leaves

section Meaning

variable (text : Text) (context : Value)

/-- What a condition says, whatever the order in which it is read: one clause settles a combination, or all
together do. -/
inductive Means : Value → Bool → Prop
  | leaf {entries : List (String × Value)} {b : Bool} : ¬Combines entries → Says text context entries b →
      Means (.dict entries) b
  | throughout {c : Combinator} {clauses : List Value} : clauses ≠ [] →
      (∀ clause ∈ clauses, Means clause c.open?) → Means (c.node clauses) c.open?
  | decided {c : Combinator} {clauses : List Value} {clause : Value} : clause ∈ clauses →
      Means clause (!c.open?) → Means (c.node clauses) (!c.open?)

variable {text context} {v : Value} {b b' : Bool} {c : Combinator} {clauses : List Value}
  {entries : List (String × Value)}

theorem means_leaf (h : ¬Combines entries) :
    Means text context (.dict entries) b ↔ evaluateLeaf text context entries = .ok b := by
  rw [evaluateLeaf_ok]
  constructor
  · intro hmeans
    generalize hnode : Value.dict entries = node at hmeans
    cases hmeans with
    | leaf _ hsays =>
      cases hnode
      exact hsays
    | throughout | decided =>
      cases hnode
      exact absurd (Combinator.combines _ _) h
  · exact .leaf h

theorem means_node : Means text context (c.node clauses) b ↔
    (clauses ≠ [] ∧ b = c.open? ∧ ∀ clause ∈ clauses, Means text context clause b) ∨
      (b = !c.open?) ∧ ∃ clause ∈ clauses, Means text context clause b := by
  constructor
  · intro hmeans
    generalize hnode : c.node clauses = node at hmeans
    cases hmeans with
    | leaf hcombines =>
      cases hnode
      exact absurd (c.combines clauses) hcombines
    | @throughout c' clauses' hne hall =>
      obtain ⟨rfl, rfl⟩ := Combinator.node_inj hnode
      exact .inl ⟨hne, rfl, hall⟩
    | @decided c' clauses' clause hmem hclause =>
      obtain ⟨rfl, rfl⟩ := Combinator.node_inj hnode
      exact .inr ⟨rfl, clause, hmem, hclause⟩
  · rintro (⟨hne, rfl, hall⟩ | ⟨rfl, clause, hmem, hclause⟩)
    · exact .throughout hne hall
    · exact .decided hmem hclause

/-- A condition says one thing at most. -/
theorem Means.unique (h : Means text context v b) (h' : Means text context v b') : b = b' := by
  induction h generalizing b' with
  | leaf hcombines hsays =>
    exact Except.ok.inj ((evaluateLeaf_ok.2 hsays).symm.trans ((means_leaf hcombines).1 h'))
  | throughout _ _ ih =>
    obtain ⟨_, rfl, _⟩ | ⟨rfl, clause, hmem, hclause⟩ := means_node.1 h'
    · rfl
    · exact ih clause hmem hclause
  | decided hmem _ ih =>
    obtain ⟨_, rfl, hall⟩ | ⟨rfl, _⟩ := means_node.1 h'
    · exact ih (hall _ hmem)
    · rfl

end Meaning

end PolicyConditions
end SafeOps
