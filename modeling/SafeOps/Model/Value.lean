import Mathlib.Logic.Basic

/-! The dynamically typed values of tool arguments, contexts and event metadata. -/

namespace SafeOps

/-- A Python value built from JSON data. `other` stands for an object `json.dumps` can only
render through `default=str`. -/
inductive Value
  | null
  | bool (b : Bool)
  | int (n : Int)
  | float (x : Rat)
  | str (s : String)
  | list (xs : List Value)
  | dict (entries : List (String × Value))
  | other (rendered : String)

namespace Value

instance : Inhabited Value := ⟨null⟩

/-- Induction in which a list and a dict may rest on all they hold. -/
theorem induct {P : Value → Prop} (null : P null) (bool : ∀ b, P (bool b)) (int : ∀ n, P (int n))
    (float : ∀ x, P (float x)) (str : ∀ s, P (str s)) (list : ∀ xs, (∀ x ∈ xs, P x) → P (list xs))
    (dict : ∀ entries, (∀ entry ∈ entries, P entry.2) → P (dict entries))
    (other : ∀ rendered, P (other rendered)) (v : Value) : P v :=
  @Value.rec P (fun xs => ∀ x ∈ xs, P x) (fun entries => ∀ entry ∈ entries, P entry.2) (fun entry => P entry.2)
    null bool int float str list dict other (by simp) (fun _ _ hx hxs => List.forall_mem_cons.mpr ⟨hx, hxs⟩)
    (by simp) (fun _ _ hx hxs => List.forall_mem_cons.mpr ⟨hx, hxs⟩) (fun _ _ hx => hx) v

mutual

/-- `json.loads(json.dumps(value, default=str))`. -/
def jsonSafe : Value → Value
  | null => null
  | bool b => bool b
  | int n => int n
  | float x => float x
  | str s => str s
  | list xs => list (jsonSafeList xs)
  | dict entries => dict (jsonSafeEntries entries)
  | other rendered => str rendered

def jsonSafeList : List Value → List Value
  | [] => []
  | x :: xs => x.jsonSafe :: jsonSafeList xs

def jsonSafeEntries : List (String × Value) → List (String × Value)
  | [] => []
  | (key, x) :: entries => (key, x.jsonSafe) :: jsonSafeEntries entries

end

mutual

/-- The value is JSON data throughout. -/
def IsJson : Value → Prop
  | list xs => AllJson xs
  | dict entries => EntriesJson entries
  | other _ => False
  | _ => True

def AllJson : List Value → Prop
  | [] => True
  | x :: xs => x.IsJson ∧ AllJson xs

def EntriesJson : List (String × Value) → Prop
  | [] => True
  | (_, x) :: entries => x.IsJson ∧ EntriesJson entries

end

mutual

/-- JSON data survives the round trip as it is. -/
theorem jsonSafe_of_isJson : ∀ {v : Value}, v.IsJson → v.jsonSafe = v
  | null, _ => rfl
  | bool _, _ => rfl
  | int _, _ => rfl
  | float _, _ => rfl
  | str _, _ => rfl
  | list _, h => congrArg list (jsonSafeList_of_allJson h)
  | dict _, h => congrArg dict (jsonSafeEntries_of_entriesJson h)

theorem jsonSafeList_of_allJson : ∀ {xs}, AllJson xs → jsonSafeList xs = xs
  | [], _ => rfl
  | _ :: _, h => congrArg₂ List.cons (jsonSafe_of_isJson h.1) (jsonSafeList_of_allJson h.2)

theorem jsonSafeEntries_of_entriesJson : ∀ {entries}, EntriesJson entries → jsonSafeEntries entries = entries
  | [], _ => rfl
  | (key, _) :: _, h =>
    congrArg₂ List.cons (congrArg (key, ·) (jsonSafe_of_isJson h.1)) (jsonSafeEntries_of_entriesJson h.2)

end

mutual

/-- Python's `==` on values of one shape, by which the ORM recognises an unchanged column. -/
def same : Value → Value → Bool
  | null, null => true
  | bool a, bool b => a == b
  | int a, int b => a == b
  | float a, float b => a == b
  | str a, str b => a == b
  | list xs, list ys => sameList xs ys
  | dict xs, dict ys => sameEntries xs ys
  | other a, other b => a == b
  | _, _ => false

def sameList : List Value → List Value → Bool
  | [], [] => true
  | x :: xs, y :: ys => x.same y && sameList xs ys
  | _, _ => false

def sameEntries : List (String × Value) → List (String × Value) → Bool
  | [], [] => true
  | (k, x) :: xs, (l, y) :: ys => k == l && x.same y && sameEntries xs ys
  | _, _ => false

end

/-- `value.get(key)` of a dict, `None` on anything else. -/
def get? : Value → String → Option Value
  | dict entries, key => entries.lookup key
  | _, _ => none

theorem lookup_jsonSafeEntries (entries : List (String × Value)) (key : String) :
    (jsonSafeEntries entries).lookup key = (entries.lookup key).map jsonSafe := by
  induction entries with
  | nil => rfl
  | cons entry entries ih =>
    obtain ⟨k, x⟩ := entry
    simp only [jsonSafeEntries, List.lookup_cons, ih]
    split <;> rfl

@[simp] theorem get?_jsonSafe (v : Value) (key : String) :
    v.jsonSafe.get? key = (v.get? key).map jsonSafe := by
  cases v <;> first | rfl | exact lookup_jsonSafeEntries _ _

/-- `bool(value)`. -/
def truthy : Value → Bool
  | null => false
  | bool b => b
  | int n => n ≠ 0
  | float x => x ≠ 0
  | str s => s ≠ ""
  | list xs => !xs.isEmpty
  | dict entries => !entries.isEmpty
  | other _ => true

/-- The text form of an identifier. -/
def id (n : Nat) : Value := str (toString n)

end Value
end SafeOps
