import SafeOps.Model.Text
import SafeOps.Model.World

/-! `app/services/policy_conditions.py`: comparison operators over a tree of `all` and `any`. -/

namespace SafeOps

/-- The number by which Python compares a value with others, if it is one. -/
def Value.number : Value → Option Rat
  | bool b => some (if b then 1 else 0)
  | int n => some n
  | float x => some x
  | _ => none

namespace Value

mutual

/-- Python's `==`, in which booleans are numbers and the order of a dict's keys does not count. -/
@[simp] def pyEq : Value → Value → Bool
  | null, null => true
  | str a, str b => a == b
  | list xs, list ys => pyEqList xs ys
  | dict xs, dict ys => xs.length == ys.length && pyEqEntries xs ys
  | other a, other b => a == b
  | bool a, w => w.number == (bool a).number
  | int a, w => w.number == (int a).number
  | float a, w => w.number == (float a).number
  | _, _ => false

@[simp] def pyEqList : List Value → List Value → Bool
  | [], [] => true
  | x :: xs, y :: ys => x.pyEq y && pyEqList xs ys
  | _, _ => false

@[simp] def pyEqEntries : List (String × Value) → List (String × Value) → Bool
  | [], _ => true
  | (key, x) :: xs, ys =>
    (match ys.lookup key with
      | some y => x.pyEq y
      | none => false) && pyEqEntries xs ys

end

/-- `type(value)`. -/
inductive Kind
  | none | bool | int | float | str | list | dict | other
  deriving DecidableEq, Repr

def kind : Value → Kind
  | null => .none
  | bool _ => .bool
  | int _ => .int
  | float _ => .float
  | str _ => .str
  | list _ => .list
  | dict _ => .dict
  | other _ => .other

end Value

namespace PolicyConditions

/-- How a condition evaluates. -/
abbrev Verdict (α : Type) := Except ConditionFailure α

def policyConditionError {α : Type} : Verdict α := .error .policyConditionError

/-- `text.split(".")`. -/
def segments : List Char → List (List Char)
  | [] => [[]]
  | c :: text =>
    if c = '.' then [] :: segments text
    else match segments text with
      | first :: others => (c :: first) :: others
      | [] => [[c]]

/-- The walk of `_resolve_field` along the parts of a field. -/
def walk : Value → List (List Char) → Option Value
  | value, [] => some value
  | value, part :: parts => (value.get? (String.ofList part)).bind (walk · parts)

/-- `_resolve_field`. -/
def resolveField (field context : Value) : Verdict Value :=
  match field with
  | .str field =>
    if field = "" then policyConditionError
    else match walk context (segments field.toList) with
      | some .null | none => policyConditionError
      | some value => .ok value
  | _ => policyConditionError

variable (text : Text)

/-- `_as_decimal`. -/
def asDecimal (value : Value) : Verdict Rat :=
  match value with
  | .bool _ => policyConditionError
  | _ =>
    match text.decimal (text.str value) with
    | some (.finite d) => .ok d.value
    | _ => policyConditionError

/-- `_eq`. -/
def eq (actual expected : Value) : Bool :=
  match asDecimal text actual, asDecimal text expected with
  | .ok x, .ok y => x = y
  | .error _, .error _ => actual.kind = expected.kind && actual.pyEq expected
  | _, _ => false

/-- `_in`. -/
def inList (actual expected : Value) : Verdict Bool :=
  match expected with
  | .list values => .ok (values.any actual.pyEq)
  | _ => policyConditionError

/-- A comparison of two numbers. -/
def compare (holds : Rat → Rat → Bool) (actual expected : Value) : Verdict Bool := do
  let x ← asDecimal text actual
  let y ← asDecimal text expected
  pure (holds x y)

inductive Operator
  | eq | neq | lt | lte | gt | gte | isIn
  deriving DecidableEq, Repr

/-- The keys of `OPERATORS`. -/
def Operator.named (name : String) : Option Operator :=
  [("eq", eq), ("neq", neq), ("lt", lt), ("lte", lte), ("gt", gt), ("gte", gte), ("in", isIn)].lookup name

/-- The values of `OPERATORS`. -/
def Operator.apply (operator : Operator) (actual expected : Value) : Verdict Bool :=
  match operator with
  | eq => .ok (PolicyConditions.eq text actual expected)
  | neq => .ok (!PolicyConditions.eq text actual expected)
  | lt => compare text (fun x y => x < y) actual expected
  | lte => compare text (fun x y => x ≤ y) actual expected
  | gt => compare text (fun x y => y < x) actual expected
  | gte => compare text (fun x y => y ≤ x) actual expected
  | isIn => inList actual expected

/-- `OPERATORS.get(operator)`, which raises for what has no hash. -/
def operatorOf : Value → Verdict Operator
  | .str name =>
    match Operator.named name with
    | some operator => .ok operator
    | none => policyConditionError
  | .list _ | .dict _ => .error .other
  | _ => policyConditionError

def leafKeys : List String := ["field", "operator", "value"]

/-- The keys of the entries are those of a leaf. -/
def LeafKeys (entries : List (String × Value)) : Prop :=
  leafKeys ⊆ entries.map (·.1) ∧ entries.map (·.1) ⊆ leafKeys

instance (entries : List (String × Value)) : Decidable (LeafKeys entries) :=
  inferInstanceAs (Decidable (_ ∧ _))

/-- `_evaluate_leaf`. -/
def evaluateLeaf (context : Value) (entries : List (String × Value)) : Verdict Bool :=
  if LeafKeys entries then do
    let operator ← operatorOf ((entries.lookup "operator").getD .null)
    let actual ← resolveField ((entries.lookup "field").getD .null) context
    operator.apply text actual ((entries.lookup "value").getD .null)
  else policyConditionError

mutual

/-- `_evaluate_node`. -/
def evaluateNode (context : Value) : Value → Verdict Bool
  | .dict [(key, .list clauses)] =>
    if key = "all" then
      if clauses.isEmpty then policyConditionError else evaluateAll context clauses
    else if key = "any" then
      if clauses.isEmpty then policyConditionError else evaluateAny context clauses
    else evaluateLeaf text context [(key, .list clauses)]
  | .dict entries =>
    if "all" ∈ entries.map (·.1) ∨ "any" ∈ entries.map (·.1) then policyConditionError
    else evaluateLeaf text context entries
  | _ => policyConditionError

/-- `all(…)`, which stops at the first clause that is false. -/
def evaluateAll (context : Value) : List Value → Verdict Bool
  | [] => .ok true
  | clause :: clauses =>
    match evaluateNode context clause with
    | .ok true => evaluateAll context clauses
    | verdict => verdict

/-- `any(…)`, which stops at the first clause that is true. -/
def evaluateAny (context : Value) : List Value → Verdict Bool
  | [] => .ok false
  | clause :: clauses =>
    match evaluateNode context clause with
    | .ok false => evaluateAny context clauses
    | verdict => verdict

end

/-- `evaluate_conditions`. -/
def evaluateConditions (conditions context : Value) : Verdict Bool :=
  match conditions with
  | .null | .dict [] => .ok true
  | conditions => evaluateNode text context conditions

end PolicyConditions
end SafeOps
