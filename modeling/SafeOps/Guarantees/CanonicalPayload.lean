import SafeOps.Model.Canonical

/-! The canonical text of an external action determines the action up to the order of object keys. -/

namespace SafeOps
open Serial

namespace JsonPayload

variable {φ : Type}

theorem str_id_inj {m n : Nat} (h : Json.str (φ := φ) (toString m) = .str (toString n)) : m = n := by
  have h : toString m = toString n := Json.str.inj h
  rw [Nat.toString_eq_repr, Nat.toString_eq_repr] at h
  exact toDigits_inj (Nat.toList_repr (n := m) ▸ Nat.toList_repr (n := n) ▸ congrArg String.toList h)

theorem optional_str_inj {α : Type} (text : α → String) (hinj : ∀ {a b}, text a = text b → a = b)
    {a b : Option α}
    (h : optional (φ := φ) (fun x => .str (text x)) a = optional (fun x => .str (text x)) b) : a = b := by
  cases a with
  | none =>
    cases b with
    | none => rfl
    | some b => cases h
  | some a =>
    cases b with
    | none => cases h
    | some b => exact congrArg some (hinj (Json.str.inj h))

theorem optional_sorted {α : Type} (text : α → String) (a : Option α) :
    (optional (φ := φ) (fun x => .str (text x)) a).sorted = optional (fun x => .str (text x)) a := by
  cases a <;> rfl

/-- The six items of the dict in the order of their keys. -/
theorem canonical_sorted (p : JsonPayload φ) : p.canonical.sorted =
    .obj [("arguments", (Json.obj p.arguments).sorted),
      ("execution_id", optional (fun id => .str (toString id)) p.executionId),
      ("objective", optional .str p.objective), ("safeops_agent_id", .str (toString p.safeopsAgentId)),
      ("sources", (Json.list (p.sources.getD [])).sorted), ("tool_name", .str p.toolName)] := by
  have hexecution := optional_sorted (φ := φ) (fun id : Id => toString id) p.executionId
  have hobjective := optional_sorted (φ := φ) (fun s : String => s) p.objective
  simp only [canonical, Json.sorted, Json.sortedEntries]
  rw [hexecution, hobjective]
  simp [sortKeys]

theorem same_of_sorted {p q : JsonPayload φ} (h : p.canonical.sorted = q.canonical.sorted) : p.Same q := by
  rw [canonical_sorted, canonical_sorted] at h
  simp only [Json.obj.injEq, List.cons.injEq, Prod.mk.injEq, true_and, and_true] at h
  obtain ⟨harguments, hexecution, hobjective, hagent, hsources, htool⟩ := h
  exact {
    safeopsAgentId := str_id_inj hagent
    executionId := optional_str_inj _ (fun h => str_id_inj (φ := φ) (congrArg Json.str h)) hexecution
    toolName := Json.str.inj htool
    arguments := (Json.sorted_eq_iff q.arguments_distinct).1 harguments
    objective := optional_str_inj (fun s => s) (fun h => h) hobjective
    sources := (Json.sorted_eq_iff q.sources_distinct).1 hsources }

theorem Same.sorted_eq {p q : JsonPayload φ} (h : p.Same q) : p.canonical.sorted = q.canonical.sorted := by
  rw [canonical_sorted, canonical_sorted, h.safeopsAgentId, h.executionId, h.toolName, h.objective,
    h.arguments.sorted_eq q.arguments_distinct, h.sources.sorted_eq q.sources_distinct]

/-- The canonical texts are equal exactly for structurally equal payloads. -/
theorem canonicalText_eq_iff {repr : φ → String} (hrepr : FloatText repr) (p q : JsonPayload φ) :
    p.canonicalText repr = q.canonicalText repr ↔ p.Same q :=
  (jsonCanonical_inj hrepr).trans ⟨same_of_sorted, Same.sorted_eq⟩

section Witness

/-- Python's rendering of a float with an integral value below `10 ^ 16`. -/
def wholeText (n : Int) : String := .ofList (intText n ++ ['.', '0'])

theorem wholeText_toList (n : Int) : (wholeText n).toList = intText n ++ ['.', '0'] := String.toList_ofList

theorem wholeText_floatText : FloatText wholeText where
  injective m n h := intText_injective (List.append_cancel_right (String.ofList_inj.1 h))
  notInt m n h := by
    have hdot : '.' ∈ intText n := by
      rw [intText, ← h, wholeText_toList]
      simp
    exact absurd (intText_digits n '.' hdot) (by decide)
  numeric m c hc := by
    rw [wholeText_toList, List.mem_append] at hc
    rcases hc with hc | hc
    · exact intText_numeric m c hc
    · simp only [List.mem_cons, List.not_mem_nil, or_false] at hc
      rcases hc with rfl | rfl <;> decide
  nonempty m h := by
    have h := congrArg String.toList h
    simp [wholeText_toList] at h

/-- The amounts `5.0` and `5` of an order, both objects in one order of keys or the other. -/
def orderPayload (backwards : Bool) : JsonPayload Int where
  safeopsAgentId := 3
  executionId := none
  toolName := "read_order"
  arguments :=
    let amounts := [("gross", .float 5), ("net", .int 5)]
    let entries := [("order_id", .str "ORD-1"), ("amounts", .obj (cond backwards amounts.reverse amounts))]
    cond backwards entries.reverse entries
  objective := some "investigate"
  sources := cond backwards (some []) none
  arguments_distinct := by cases backwards <;> simp [Json.Distinct, Json.DistinctEntries]
  sources_distinct := by cases backwards <;> trivial

theorem canonicalText_orderPayload :
    (orderPayload false).canonicalText wholeText = (orderPayload true).canonicalText wholeText :=
  (canonicalText_eq_iff wholeText_floatText _ _).2 {
    safeopsAgentId := rfl
    executionId := rfl
    toolName := rfl
    arguments := .obj (.cons (.str _) (.cons (.obj (.cons (.float 5) (.cons (.int 5) .nil)) (.swap ..)) .nil))
      (.swap ..)
    objective := rfl
    sources := .list .nil }

end Witness

end JsonPayload

end SafeOps
