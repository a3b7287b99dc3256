import SafeOps.Model.Value
import SafeOps.Model.Tables
import SafeOps.Serial.Order

/-! `app/core/canonical.py`: the canonical text of an external action, and its hash. -/

namespace SafeOps
open Serial

section Values

namespace Value

mutual

/-- What `json.dumps(value, sort_keys=True, default=str)` serialises. -/
def canonical : Value → Json Rat
  | null => .null
  | bool b => .bool b
  | int n => .int n
  | float x => .float x
  | str s => .str s
  | list xs => .list (canonicalList xs)
  | dict entries => .obj (sortKeys (canonicalEntries entries))
  | other rendered => .str rendered

def canonicalList : List Value → List (Json Rat)
  | [] => []
  | x :: xs => x.canonical :: canonicalList xs

def canonicalEntries : List (String × Value) → List (String × Json Rat)
  | [] => []
  | (key, x) :: entries => (key, x.canonical) :: canonicalEntries entries

end

mutual

/-- The JSON data of a value, `default=str` applied. -/
def toJson : Value → Json Rat
  | null => .null
  | bool b => .bool b
  | int n => .int n
  | float x => .float x
  | str s => .str s
  | list xs => .list (toJsonList xs)
  | dict entries => .obj (toJsonEntries entries)
  | other rendered => .str rendered

def toJsonList : List Value → List (Json Rat)
  | [] => []
  | x :: xs => x.toJson :: toJsonList xs

def toJsonEntries : List (String × Value) → List (String × Json Rat)
  | [] => []
  | (key, x) :: entries => (key, x.toJson) :: toJsonEntries entries

end

mutual

/-- `sort_keys=True` sorts at every depth. -/
theorem canonical_eq_sorted : ∀ v : Value, v.canonical = v.toJson.sorted
  | null | bool _ | int _ | float _ | str _ | other _ => rfl
  | list xs => congrArg Json.list (canonicalList_eq_sorted xs)
  | dict entries => congrArg (fun es => Json.obj (sortKeys es)) (canonicalEntries_eq_sorted entries)

theorem canonicalList_eq_sorted : ∀ xs : List Value, canonicalList xs = Json.sortedItems (toJsonList xs)
  | [] => rfl
  | x :: xs => congrArg₂ List.cons (canonical_eq_sorted x) (canonicalList_eq_sorted xs)

theorem canonicalEntries_eq_sorted : ∀ entries : List (String × Value),
    canonicalEntries entries = Json.sortedEntries (toJsonEntries entries)
  | [] => rfl
  | (key, x) :: entries =>
    congrArg₂ (fun x es => (key, x) :: es) (canonical_eq_sorted x) (canonicalEntries_eq_sorted entries)

end

end Value

/-- `canonical_json` on JSON data, with the rendering of floating-point numbers. -/
def jsonCanonical {φ : Type} (repr : φ → String) (value : Json φ) : String :=
  .ofList (value.sorted.text repr)

theorem jsonCanonical_inj {φ : Type} {repr : φ → String} (hrepr : FloatText repr) {v w : Json φ} :
    jsonCanonical repr v = jsonCanonical repr w ↔ v.sorted = w.sorted := by
  rw [jsonCanonical, jsonCanonical, String.ofList_inj]
  exact (Json.text_injective hrepr).eq_iff

/-- `canonical_json`. -/
def canonicalJson (repr : Rat → String) (value : Value) : String := .ofList (value.canonical.text repr)

theorem canonicalJson_eq (repr : Rat → String) (value : Value) :
    canonicalJson repr value = jsonCanonical repr value.toJson := by
  rw [canonicalJson, jsonCanonical, Value.canonical_eq_sorted]

theorem canonicalJson_inj {repr : Rat → String} (hrepr : FloatText repr) {v w : Value} :
    canonicalJson repr v = canonicalJson repr w ↔ v.canonical = w.canonical := by
  rw [canonicalJson_eq, canonicalJson_eq, jsonCanonical_inj hrepr, Value.canonical_eq_sorted,
    Value.canonical_eq_sorted]

end Values

/-- The arguments of `hash_external_action_payload`. -/
structure ActionPayload where
  safeopsAgentId : Id
  executionId : Option Id
  toolName : String
  arguments : Value
  objective : Option String
  sources : List (String × String)

namespace ActionPayload

def optional {α : Type} (value : α → Value) (a : Option α) : Value := a.elim .null value

def sourceValue (source : String × String) : Value :=
  .dict [("type", .str source.1), ("content", .str source.2)]

/-- The dict `canonical` of `hash_external_action_payload`. -/
def canonical (p : ActionPayload) : Value :=
  .dict [("safeops_agent_id", .id p.safeopsAgentId), ("execution_id", optional .id p.executionId),
    ("tool_name", .str p.toolName), ("arguments", p.arguments), ("objective", optional .str p.objective),
    ("sources", .list (p.sources.map sourceValue))]

/-- `hash_external_action_payload`. -/
def hash (sha256 : String → String) (repr : Rat → String) (p : ActionPayload) : String :=
  sha256 (canonicalJson repr p.canonical)

/-- The payloads are structurally equal up to the order of object keys. -/
structure Same (p q : ActionPayload) : Prop where
  safeopsAgentId : p.safeopsAgentId = q.safeopsAgentId
  executionId : p.executionId = q.executionId
  toolName : p.toolName = q.toolName
  arguments : p.arguments.canonical = q.arguments.canonical
  objective : p.objective = q.objective
  sources : p.sources = q.sources

/-- The items of the dict in the order of their keys. -/
theorem canonical_canonical (p : ActionPayload) : p.canonical.canonical =
    .obj [("arguments", p.arguments.canonical), ("execution_id", (optional .id p.executionId).canonical),
      ("objective", (optional .str p.objective).canonical),
      ("safeops_agent_id", (Value.id p.safeopsAgentId).canonical),
      ("sources", .list (Value.canonicalList (p.sources.map sourceValue))),
      ("tool_name", .str p.toolName)] := by
  simp [canonical, Value.canonical, Value.canonicalEntries, sortKeys]

theorem sourceValue_canonical (source : String × String) : (sourceValue source).canonical =
    .obj [("content", .str source.2), ("type", .str source.1)] := by
  simp [sourceValue, Value.canonical, Value.canonicalEntries, sortKeys]

theorem id_canonical_inj {m n : Nat} (h : (Value.id m).canonical = (Value.id n).canonical) : m = n := by
  have h : toString m = toString n := Json.str.inj h
  rw [Nat.toString_eq_repr, Nat.toString_eq_repr] at h
  exact toDigits_inj (Nat.toList_repr (n := m) ▸ Nat.toList_repr (n := n) ▸ congrArg String.toList h)

theorem optional_canonical_inj {α : Type} {value : α → Value}
    (hinj : ∀ {a b}, (value a).canonical = (value b).canonical → a = b)
    (hnull : ∀ a, (value a).canonical ≠ .null) {a b : Option α}
    (h : (optional value a).canonical = (optional value b).canonical) : a = b := by
  cases a with
  | none =>
    cases b with
    | none => rfl
    | some b => exact absurd h.symm (hnull b)
  | some a =>
    cases b with
    | none => exact absurd h (hnull a)
    | some b => exact congrArg some (hinj h)

theorem sources_canonical_inj {xs ys : List (String × String)}
    (h : Value.canonicalList (xs.map sourceValue) = Value.canonicalList (ys.map sourceValue)) : xs = ys := by
  induction xs generalizing ys with
  | nil =>
    cases ys with
    | nil => rfl
    | cons y ys => cases h
  | cons x xs ih =>
    cases ys with
    | nil => cases h
    | cons y ys =>
      obtain ⟨hhead, htail⟩ := List.cons.inj h
      simp only [sourceValue_canonical, Json.obj.injEq, List.cons.injEq, Prod.mk.injEq, Json.str.injEq,
        true_and, and_true] at hhead
      rw [ih htail, Prod.ext hhead.2 hhead.1]

/-- The canonical text tells payloads apart. -/
theorem same_of_canonical {p q : ActionPayload} (h : p.canonical.canonical = q.canonical.canonical) :
    p.Same q := by
  rw [canonical_canonical, canonical_canonical] at h
  simp only [Json.obj.injEq, List.cons.injEq, Prod.mk.injEq, true_and, and_true] at h
  obtain ⟨harguments, hexecution, hobjective, hagent, hsources, htool⟩ := h
  have text {a b : String} (h : (Value.str a).canonical = (Value.str b).canonical) : a = b := Json.str.inj h
  exact ⟨id_canonical_inj hagent, optional_canonical_inj id_canonical_inj (fun _ h => by cases h) hexecution,
    Json.str.inj htool, harguments, optional_canonical_inj text (fun _ h => by cases h) hobjective,
    sources_canonical_inj (Json.list.inj hsources)⟩

/-- Where SHA-256 has no collision, equal hashes mean equal payloads. -/
theorem same_of_hash {sha256 : String → String} {repr : Rat → String} (hsha : Function.Injective sha256)
    (hrepr : FloatText repr) {p q : ActionPayload} (h : p.hash sha256 repr = q.hash sha256 repr) :
    p.Same q :=
  same_of_canonical ((canonicalJson_inj hrepr).1 (hsha h))

end ActionPayload

/-- The arguments of `hash_external_action_payload`, built from data that a JSON parser yields: no object
repeats a key. -/
structure JsonPayload (φ : Type) where
  safeopsAgentId : Id
  executionId : Option Id
  toolName : String
  arguments : List (String × Json φ)
  objective : Option String
  sources : Option (List (Json φ))
  arguments_distinct : (Json.obj arguments).Distinct
  sources_distinct : (Json.list (sources.getD [])).Distinct

namespace JsonPayload

variable {φ : Type}

def optional {α : Type} (value : α → Json φ) (a : Option α) : Json φ := a.elim .null value

/-- The dict `canonical` of `hash_external_action_payload`. -/
def canonical (p : JsonPayload φ) : Json φ :=
  .obj [("safeops_agent_id", .str (toString p.safeopsAgentId)),
    ("execution_id", optional (fun id => .str (toString id)) p.executionId), ("tool_name", .str p.toolName),
    ("arguments", .obj p.arguments), ("objective", optional .str p.objective),
    ("sources", .list (p.sources.getD []))]

/-- The string that `hash_external_action_payload` hashes. -/
def canonicalText (repr : φ → String) (p : JsonPayload φ) : String := jsonCanonical repr p.canonical

/-- The payloads are structurally equal up to the order of object keys; no sources are the empty list. -/
structure Same (p q : JsonPayload φ) : Prop where
  safeopsAgentId : p.safeopsAgentId = q.safeopsAgentId
  executionId : p.executionId = q.executionId
  toolName : p.toolName = q.toolName
  arguments : (Json.obj p.arguments).Same (.obj q.arguments)
  objective : p.objective = q.objective
  sources : (Json.list (p.sources.getD [])).Same (.list (q.sources.getD []))

end JsonPayload

end SafeOps
