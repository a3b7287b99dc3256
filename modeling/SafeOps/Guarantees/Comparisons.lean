import SafeOps.Services.PolicyConditions
import Mathlib.Data.List.Nodup
import Mathlib.Data.List.Perm.Subperm
import Mathlib.Algebra.Order.Ring.Rat

/-! What the comparison operators have in common. `_eq` reads numbers as decimals, while `_in` and the
items of lists and objects are compared by Python's `==`. -/

namespace SafeOps
namespace Value

/-- The keys of every object in the value differ. -/
inductive Proper : Value → Prop
  | scalar {v : Value} : v.kind ≠ .list → v.kind ≠ .dict → Proper v
  | list {xs : List Value} : (∀ x ∈ xs, Proper x) → Proper (.list xs)
  | dict {entries : List (String × Value)} : (entries.map (·.1)).Nodup →
      (∀ entry ∈ entries, Proper entry.2) → Proper (.dict entries)

theorem mem_of_lookup {entries : List (String × Value)} {key : String} {x : Value}
    (h : entries.lookup key = some x) : (key, x) ∈ entries := by
  obtain ⟨before, after, rfl, -⟩ := List.lookup_eq_some_iff.mp h
  simp

theorem lookup_of_mem {entries : List (String × Value)} (hnodup : (entries.map (·.1)).Nodup)
    {entry : String × Value} (h : entry ∈ entries) : entries.lookup entry.1 = some entry.2 := by
  obtain ⟨before, after, rfl⟩ := List.append_of_mem h
  refine List.lookup_eq_some_iff.mpr ⟨before, after, rfl, fun other hother => ?_⟩
  rw [List.map_append, List.map_cons, List.nodup_append] at hnodup
  exact bne_iff_ne.mpr (hnodup.2.2 _ (List.mem_map_of_mem hother) _ List.mem_cons_self).symm

theorem pyEqList_iff {xs ys : List Value} :
    pyEqList xs ys = true ↔ xs.length = ys.length ∧
      ∀ i (h : i < xs.length) (h' : i < ys.length), xs[i].pyEq ys[i] = true := by
  induction xs generalizing ys with
  | nil => cases ys <;> simp [pyEqList]
  | cons x xs ih =>
    cases ys with
    | nil => simp [pyEqList]
    | cons y ys =>
      rw [pyEqList, Bool.and_eq_true, ih]
      constructor
      · rintro ⟨h, hlength, hrest⟩
        refine ⟨by simp [hlength], fun i hi hi' => ?_⟩
        cases i with
        | zero => exact h
        | succ i => exact hrest i (by simpa using hi) (by simpa using hi')
      · rintro ⟨hlength, hall⟩
        exact ⟨hall 0 (by simp) (by simp), by simpa using hlength,
          fun i hi hi' => hall (i + 1) (by simpa using hi) (by simpa using hi')⟩

theorem pyEqEntries_iff {xs ys : List (String × Value)} :
    pyEqEntries xs ys = true ↔ ∀ entry ∈ xs, ∃ y, ys.lookup entry.1 = some y ∧ entry.2.pyEq y = true := by
  induction xs with
  | nil => simp [pyEqEntries]
  | cons entry xs ih =>
    obtain ⟨key, x⟩ := entry
    simp only [pyEqEntries, Bool.and_eq_true, ih, List.forall_mem_cons]
    cases ys.lookup key <;> simp

theorem pyEq_list {xs : List Value} {w : Value} :
    (list xs).pyEq w = true ↔ ∃ ys, w = list ys ∧ xs.length = ys.length ∧
      ∀ i (h : i < xs.length) (h' : i < ys.length), xs[i].pyEq ys[i] = true := by
  cases w <;> simp [pyEq, pyEqList_iff]

theorem pyEq_dict {xs : List (String × Value)} {w : Value} :
    (dict xs).pyEq w = true ↔ ∃ ys, w = dict ys ∧ xs.length = ys.length ∧
      ∀ entry ∈ xs, ∃ y, ys.lookup entry.1 = some y ∧ entry.2.pyEq y = true := by
  cases w <;> simp [pyEq, pyEqEntries_iff]

/-- What is compared as a number is equal to what has the same number. -/
theorem pyEq_of_number {v w : Value} {x : Rat} (h : v.number = some x) :
    v.pyEq w = true ↔ w.number = some x := by
  cases v <;> cases h <;> simp [pyEq, number]

theorem number_of_pyEq {v w : Value} (h : v.pyEq w = true) : v.number = w.number := by
  cases hv : v.number with
  | some x => exact ((pyEq_of_number hv).mp h).symm
  | none => cases v <;> cases w <;> first | rfl | (simp [pyEq] at h; done) | simp [number] at hv

/-- Values of different types are equal only as numbers. -/
theorem kind_of_pyEq {v w : Value} (h : v.pyEq w = true) (hnumber : v.number = none) : v.kind = w.kind := by
  cases v <;> cases w <;> first | rfl | (simp [pyEq] at h; done) | simp [number] at hnumber

/-- Beside numbers, a scalar is equal to itself alone. -/
theorem eq_of_pyEq {v w : Value} (h : v.pyEq w = true) (hnumber : v.number = none) (hlist : v.kind ≠ .list)
    (hdict : v.kind ≠ .dict) : v = w := by
  cases v <;> cases w <;> first
    | rfl
    | exact absurd rfl hlist
    | exact absurd rfl hdict
    | (simp [number] at hnumber; done)
    | (simp [pyEq] at h; done)
    | simpa [pyEq] using h

theorem pyEq_self {v : Value} (h : v.Proper) : v.pyEq v = true := by
  induction h with
  | @scalar v hlist hdict =>
    cases v <;> first | exact absurd rfl hlist | exact absurd rfl hdict | simp [pyEq]
  | @list xs _ ih =>
    exact pyEq_list.mpr ⟨xs, rfl, rfl, fun i h _ => ih _ (List.getElem_mem h)⟩
  | @dict entries hnodup _ ih =>
    exact pyEq_dict.mpr ⟨entries, rfl, rfl, fun entry h => ⟨entry.2, lookup_of_mem hnodup h, ih entry h⟩⟩

theorem pyEq_symm {v w : Value} (hv : v.Proper) (hw : w.Proper) (h : v.pyEq w = true) : w.pyEq v = true := by
  induction hv generalizing w with
  | @scalar v hlist hdict =>
    cases hnumber : v.number with
    | some x => exact (pyEq_of_number (number_of_pyEq h ▸ hnumber)).mpr hnumber
    | none =>
      cases eq_of_pyEq h hnumber hlist hdict
      exact h
  | @list xs _ ih =>
    obtain ⟨ys, rfl, hlength, hpairs⟩ := pyEq_list.mp h
    cases hw with
    | scalar hlist => exact absurd rfl hlist
    | list hys =>
      refine pyEq_list.mpr ⟨xs, rfl, hlength.symm, fun i hi hi' => ?_⟩
      exact ih _ (List.getElem_mem hi') (hys _ (List.getElem_mem hi)) (hpairs i hi' hi)
  | @dict xs hxs _ ih =>
    obtain ⟨ys, rfl, hlength, hpairs⟩ := pyEq_dict.mp h
    cases hw with
    | scalar _ hdict => exact absurd rfl hdict
    | dict hys hproper =>
      have hkeys : xs.map (·.1) ⊆ ys.map (·.1) := by
        intro key hkey
        obtain ⟨entry, hentry, rfl⟩ := List.mem_map.mp hkey
        obtain ⟨y, hy, -⟩ := hpairs entry hentry
        exact List.mem_map.mpr ⟨_, mem_of_lookup hy, rfl⟩
      have hperm : (xs.map (·.1)).Perm (ys.map (·.1)) :=
        (List.subperm_of_subset hxs hkeys).perm_of_length_le (by simp [hlength])
      refine pyEq_dict.mpr ⟨xs, rfl, hlength.symm, fun entry hentry => ?_⟩
      obtain ⟨other, hother, hkey⟩ := List.mem_map.mp (hperm.mem_iff.mpr (List.mem_map_of_mem hentry))
      obtain ⟨y, hy, heq⟩ := hpairs other hother
      have hsame : y = entry.2 := by
        rw [hkey, lookup_of_mem hys hentry] at hy
        exact (Option.some.inj hy).symm
      refine ⟨other.2, hkey ▸ lookup_of_mem hxs hother, ?_⟩
      subst hsame
      exact ih other hother (hproper _ hentry) heq

theorem pyEq_trans {u v w : Value} (h : u.pyEq v = true) (h' : v.pyEq w = true) : u.pyEq w = true := by
  induction u using Value.induct generalizing v w with
  | list xs ih =>
    obtain ⟨ys, rfl, hlength, hpairs⟩ := pyEq_list.mp h
    obtain ⟨zs, rfl, hlength', hpairs'⟩ := pyEq_list.mp h'
    refine pyEq_list.mpr ⟨zs, rfl, hlength.trans hlength', fun i hi hi' => ?_⟩
    have hmid : i < ys.length := hlength ▸ hi
    exact ih _ (List.getElem_mem hi) (hpairs i hi hmid) (hpairs' i hmid hi')
  | dict xs ih =>
    obtain ⟨ys, rfl, hlength, hpairs⟩ := pyEq_dict.mp h
    obtain ⟨zs, rfl, hlength', hpairs'⟩ := pyEq_dict.mp h'
    refine pyEq_dict.mpr ⟨zs, rfl, hlength.trans hlength', fun entry hentry => ?_⟩
    obtain ⟨y, hy, heq⟩ := hpairs entry hentry
    obtain ⟨z, hz, heq'⟩ := hpairs' _ (mem_of_lookup hy)
    exact ⟨z, hz, ih entry hentry heq heq'⟩
  | null | str | other =>
    cases eq_of_pyEq h rfl (by simp [kind]) (by simp [kind])
    exact h'
  | bool | int | float =>
    have hnumber := (pyEq_of_number rfl).mp h
    exact (pyEq_of_number rfl).mpr ((pyEq_of_number hnumber).mp h')

end Value

namespace PolicyConditions

section Laws

variable (text : Text)

/-- The finite number a value reads as. -/
def reading (v : Value) : Option Rat := (asDecimal text v).toOption

/-- A boolean stands in one value where a number stands in the other. -/
inductive Mixed : Value → Value → Prop
  | left {v w : Value} : v.kind = .bool → w.kind = .int ∨ w.kind = .float → Mixed v w
  | right {v w : Value} : v.kind = .int ∨ v.kind = .float → w.kind = .bool → Mixed v w
  | item {xs ys : List Value} (i : Nat) (h : i < xs.length) (h' : i < ys.length) : Mixed xs[i] ys[i] →
      Mixed (.list xs) (.list ys)
  | entry {xs ys : List (String × Value)} {key : String} {x y : Value} : xs.lookup key = some x →
      ys.lookup key = some y → Mixed x y → Mixed (.dict xs) (.dict ys)

/-- The values differ at most in how their numbers are written. -/
inductive Restated : Value → Value → Prop
  | number {v w : Value} {x : Rat} : reading text v = some x → reading text w = some x → Restated v w
  | same (v : Value) : Restated v v
  | list {xs ys : List Value} : xs.length = ys.length →
      (∀ i (h : i < xs.length) (h' : i < ys.length), Restated xs[i] ys[i]) → Restated (.list xs) (.list ys)
  | dict {xs ys : List (String × Value)} (other : String → Value) : xs.length = ys.length →
      (∀ entry ∈ xs, ys.lookup entry.1 = some (other entry.1)) →
      (∀ entry ∈ xs, Restated entry.2 (other entry.1)) → Restated (.dict xs) (.dict ys)

/-- The laws of one family of operators, on the given values. -/
structure Consistent (values : Value → Prop) : Prop where
  refl : ∀ v, values v → v.kind ≠ .none → eq text v v = true
  symm : ∀ v w, values v → values w → eq text v w = true → eq text w v = true
  trans : ∀ u v w, values u → values v → values w → eq text u v = true → eq text v w = true → eq text u w = true
  restated : ∀ v w, values v → values w → Restated text v w → eq text v w = true
  unmixed : ∀ v w, values v → values w → eq text v w = true → ¬Mixed v w
  neq : ∀ v w, values v → values w → Operator.neq.apply text v w = .ok (!eq text v w)
  isIn : ∀ v ws, values v → (∀ w ∈ ws, values w) →
    Operator.isIn.apply text v (.list ws) = .ok (ws.any (eq text v))
  ordered : ∀ v w x y, values v → values w → reading text v = some x → reading text w = some y →
    ∃ less same greater, Operator.lt.apply text v w = .ok less ∧ Operator.eq.apply text v w = .ok same ∧
      Operator.gt.apply text v w = .ok greater ∧ [less, same, greater].count true = 1 ∧
      Operator.lte.apply text v w = .ok (less || same) ∧ Operator.gte.apply text v w = .ok (greater || same)

/-- What `str` and `Decimal` make of a value: a number's text is a finite number, that of a list or an
object is none. -/
structure Readable (v : Value) : Prop where
  number : v.kind = .int ∨ v.kind = .float → ∃ x, reading text v = some x
  container : v.kind = .list ∨ v.kind = .dict → reading text v = none

/-- Python's `==` and the numbers as they are written part on the two values. -/
inductive Clash (v w : Value) : Prop
  | mixed : v.pyEq w = true → Mixed v w → Clash v w
  | read {x y : Rat} : v.pyEq w = true → reading text v = some x → reading text w = some y → x ≠ y → Clash v w
  | restated : Restated text v w → v.pyEq w = false → Clash v w

end Laws

variable {text : Text} {u v w : Value}

theorem asDecimal_of_reading {x : Rat} (h : reading text v = some x) : asDecimal text v = .ok x := by
  unfold reading at h
  cases hdecimal : asDecimal text v with
  | error e => rw [hdecimal] at h; cases h
  | ok y => rw [hdecimal] at h; cases h; rfl

theorem eq_iff : eq text v w = true ↔
    reading text v = reading text w ∧ (reading text v = none → v.kind = w.kind ∧ v.pyEq w = true) := by
  unfold eq reading
  cases asDecimal text v <;> cases asDecimal text w <;> simp [Except.toOption]

theorem eq_self (h : v.Proper) : eq text v v = true := eq_iff.mpr ⟨rfl, fun _ => ⟨rfl, v.pyEq_self h⟩⟩

theorem eq_symm (hv : v.Proper) (hw : w.Proper) (h : eq text v w = true) : eq text w v = true := by
  obtain ⟨hreading, hsame⟩ := eq_iff.mp h
  refine eq_iff.mpr ⟨hreading.symm, fun hnone => ?_⟩
  obtain ⟨hkind, heq⟩ := hsame (hreading.trans hnone)
  exact ⟨hkind.symm, Value.pyEq_symm hv hw heq⟩

theorem eq_trans (h : eq text u v = true) (h' : eq text v w = true) : eq text u w = true := by
  obtain ⟨hreading, hsame⟩ := eq_iff.mp h
  obtain ⟨hreading', hsame'⟩ := eq_iff.mp h'
  refine eq_iff.mpr ⟨hreading.trans hreading', fun hnone => ?_⟩
  obtain ⟨hkind, heq⟩ := hsame hnone
  obtain ⟨hkind', heq'⟩ := hsame' (hreading ▸ hnone)
  exact ⟨hkind.trans hkind', Value.pyEq_trans heq heq'⟩

theorem inList_eq (v : Value) (ws : List Value) : inList v (.list ws) = .ok (ws.any v.pyEq) := rfl

theorem compare_eq {x y : Rat} (holds : Rat → Rat → Bool) (hv : reading text v = some x)
    (hw : reading text w = some y) : compare text holds v w = .ok (holds x y) := by
  unfold compare
  rw [asDecimal_of_reading hv, asDecimal_of_reading hw]
  rfl

theorem ordered {x y : Rat} (hv : reading text v = some x) (hw : reading text w = some y) :
    ∃ less same greater, Operator.lt.apply text v w = .ok less ∧ Operator.eq.apply text v w = .ok same ∧
      Operator.gt.apply text v w = .ok greater ∧ [less, same, greater].count true = 1 ∧
      Operator.lte.apply text v w = .ok (less || same) ∧ Operator.gte.apply text v w = .ok (greater || same) := by
  have heq : eq text v w = decide (x = y) := by
    rw [Bool.eq_iff_iff, eq_iff, hv, hw]
    simp
  refine ⟨decide (x < y), decide (x = y), decide (y < x), compare_eq _ hv hw, congrArg Except.ok heq,
    compare_eq _ hv hw, ?_, ?_, ?_⟩
  · rcases lt_trichotomy x y with hlt | heq | hgt
    · simp [hlt, hlt.ne, hlt.not_gt]
    · simp [heq]
    · simp [hgt, hgt.ne', hgt.not_gt]
  · exact (compare_eq _ hv hw).trans (by simp [le_iff_lt_or_eq])
  · exact (compare_eq _ hv hw).trans (by simp [le_iff_lt_or_eq, eq_comm])

/-- Values equal to Python are one value, two containers or two numbers, unless a boolean comes in. -/
theorem alike_of_pyEq (h : v.pyEq w = true) (hmixed : ¬Mixed v w) :
    v = w ∨ (v.kind = w.kind ∧ (v.kind = .list ∨ v.kind = .dict)) ∨
      ((v.kind = .int ∨ v.kind = .float) ∧ (w.kind = .int ∨ w.kind = .float)) := by
  cases hnumber : v.number with
  | none =>
    by_cases hcontainer : v.kind = .list ∨ v.kind = .dict
    · exact .inr (.inl ⟨Value.kind_of_pyEq h hnumber, hcontainer⟩)
    · rw [not_or] at hcontainer
      exact .inl (Value.eq_of_pyEq h hnumber hcontainer.1 hcontainer.2)
  | some x =>
    have hother : w.number = some x := (Value.pyEq_of_number hnumber).mp h
    cases v with
    | bool a =>
      cases w with
      | bool b =>
        cases a <;> cases b <;> first
          | exact .inl rfl
          | exact absurd (hnumber.trans hother.symm) (by simp [Value.number])
      | int | float => exact absurd (.left rfl (by simp [Value.kind])) hmixed
      | _ => cases hother
    | int | float =>
      cases w with
      | bool b => exact absurd (.right (by simp [Value.kind]) rfl) hmixed
      | int | float => exact .inr (.inr ⟨by simp [Value.kind], by simp [Value.kind]⟩)
      | _ => cases hother
    | _ => cases hnumber

/-- Where nothing clashes, Python's `==` is the equality of the family. -/
theorem eq_iff_pyEq (hv : v.Proper) (hreadv : Readable text v) (hreadw : Readable text w)
    (hclash : ¬Clash text v w) : eq text v w = true ↔ v.pyEq w = true := by
  constructor
  · intro h
    obtain ⟨hreading, hsame⟩ := eq_iff.mp h
    cases hnumber : reading text v with
    | none => exact (hsame hnumber).2
    | some x =>
      by_contra hne
      exact hclash (.restated (.number hnumber (hreading ▸ hnumber)) (Bool.eq_false_iff.mpr hne))
  · intro h
    obtain rfl | ⟨hkind, hcontainer⟩ | ⟨hnumber, hnumber'⟩ := alike_of_pyEq h fun hmixed => hclash (.mixed h hmixed)
    · exact eq_self hv
    · have hnone := hreadv.container hcontainer
      exact eq_iff.mpr ⟨hnone.trans (hreadw.container (hkind ▸ hcontainer)).symm, fun _ => ⟨hkind, h⟩⟩
    · obtain ⟨x, hx⟩ := hreadv.number hnumber
      obtain ⟨y, hy⟩ := hreadw.number hnumber'
      have hxy : x = y := by
        by_contra hne
        exact hclash (.read h hx hy hne)
      exact eq_iff.mpr ⟨hx.trans (hxy ▸ hy.symm), fun hnone => by cases hx.symm.trans hnone⟩

/-- The operators obey their laws on a class of values exactly when no two of the values clash. -/
theorem comparisons_consistent (text : Text) (values : Value → Prop) (hproper : ∀ v, values v → v.Proper)
    (hreadable : ∀ v, values v → Readable text v) :
    Consistent text values ↔ ∀ v w, values v → values w → ¬Clash text v w := by
  constructor
  · intro h v w hv hw hclash
    have hin : v.pyEq w = eq text v w := by
      have hlist := h.isIn v [w] hv (by simpa using hw)
      simpa [Operator.apply, inList_eq] using hlist
    cases hclash with
    | mixed hpy hmixed => exact h.unmixed v w hv hw (hin ▸ hpy) hmixed
    | read hpy hx hy hne =>
      have hreading := (eq_iff.mp (hin ▸ hpy)).1
      rw [hx, hy] at hreading
      exact hne (Option.some.inj hreading)
    | restated hrestated hpy =>
      rw [hin, h.restated v w hv hw hrestated] at hpy
      cases hpy
  · intro h
    have hpy : ∀ v w, values v → values w → (eq text v w = true ↔ v.pyEq w = true) := by
      intro v w hv hw
      exact eq_iff_pyEq (hproper v hv) (hreadable v hv) (hreadable w hw) (h v w hv hw)
    refine {
      refl := fun v hv _ => eq_self (hproper v hv)
      symm := fun v w hv hw => eq_symm (hproper v hv) (hproper w hw)
      trans := fun u v w _ _ _ => eq_trans
      restated := fun v w hv hw hrestated => ?_
      unmixed := fun v w hv hw heq hmixed => h v w hv hw (.mixed ((hpy v w hv hw).mp heq) hmixed)
      neq := fun _ _ _ _ => rfl
      isIn := fun v ws hv hws => ?_
      ordered := fun _ _ _ _ _ _ => ordered }
    · by_contra hne
      refine h v w hv hw (.restated hrestated (Bool.eq_false_iff.mpr fun heq => hne ((hpy v w hv hw).mpr heq)))
    · show inList v (.list ws) = _
      refine congrArg Except.ok (Bool.eq_iff_iff.mpr ?_)
      simp only [List.any_eq_true]
      exact exists_congr fun w => and_congr_right fun hw => (hpy v w hv (hws w hw)).symm

/-- Decimals of whole amounts, and of one written with cents. -/
def plain : Text where
  lower := id
  upper := id
  render
    | .int n => toString n
    | _ => ""
  decimal s := [("100", ⟨false, 100, 0⟩), ("250", ⟨false, 250, 0⟩), ("100.00", ⟨false, 10000, -2⟩)].lookup s |>.map
    .finite
  decimalText _ := ""

/-- An amount and a currency. -/
def Sample (v : Value) : Prop := v = .int 100 ∨ v = .str "EUR"

theorem comparisons_consistent_sample : Consistent plain Sample := by
  have hamount : reading plain (.int 100) = some 100 := by decide +kernel
  have hcurrency : reading plain (.str "EUR") = none := by decide +kernel
  have hproper : ∀ v, Sample v → v.Proper := by
    rintro v (rfl | rfl) <;> exact .scalar (by decide) (by decide)
  have hreadable : ∀ v, Sample v → Readable plain v := by
    rintro v (rfl | rfl)
    · exact ⟨fun _ => ⟨100, hamount⟩, fun h => absurd h (by decide)⟩
    · exact ⟨fun h => absurd h (by decide), fun _ => hcurrency⟩
  refine (comparisons_consistent plain Sample hproper hreadable).mpr ?_
  rintro v w hv hw (⟨_, hmixed⟩ | ⟨hpy, hx, hy, hne⟩ | ⟨hrestated, hpy⟩)
  · cases hmixed with
    | left h => rcases hv with rfl | rfl <;> exact absurd h (by decide)
    | right _ h => rcases hw with rfl | rfl <;> exact absurd h (by decide)
    | item | entry => simp [Sample] at hv
  · rcases hv with rfl | rfl <;> rcases hw with rfl | rfl <;> simp_all [Value.pyEq, Value.number]
  · cases hrestated with
    | number hx hy => rcases hv with rfl | rfl <;> rcases hw with rfl | rfl <;> simp_all [Value.pyEq]
    | same => rw [Value.pyEq_self (hproper v hv)] at hpy; cases hpy
    | list | dict => simp [Sample] at hv

/-- `in` finds the number one in a list that holds `True`. -/
theorem true_counts_as_one : ¬Consistent plain fun v => v.IsJson ∧ v.Proper := by
  intro h
  have hin := h.isIn (.bool true) [.int 1] ⟨trivial, .scalar (by decide) (by decide)⟩
    (by simpa using ⟨trivial, .scalar (by decide) (by decide)⟩)
  have heq : eq plain (.bool true) (.int 1) = false := by
    refine Bool.eq_false_iff.mpr fun heq => ?_
    cases ((eq_iff.mp heq).2 rfl).1
  simp [Operator.apply, inList_eq, heq, Value.pyEq, Value.number] at hin

end PolicyConditions
end SafeOps
