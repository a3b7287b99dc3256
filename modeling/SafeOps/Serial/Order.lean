import SafeOps.Serial.Json
import Mathlib.Data.List.Perm.Basic
import Mathlib.Data.List.Sort

/-! JSON data up to the order of the keys of its objects. Where no object repeats a key, sorting the keys
at every depth removes exactly that order. -/

namespace SafeOps.Serial

section Keys

variable {α β : Type}

/-- The items of a dict in the order of their keys. -/
def sortKeys (entries : List (String × α)) : List (String × α) :=
  entries.insertionSort fun a b => a.1 ≤ b.1

theorem perm_sortKeys (entries : List (String × α)) : (sortKeys entries).Perm entries :=
  List.perm_insertionSort _ _

theorem sortKeys_ordered (entries : List (String × α)) :
    (sortKeys entries).Pairwise fun a b => a.1 ≤ b.1 := by
  have : Std.Total fun a b : String × α => a.1 ≤ b.1 := ⟨fun a b => String.le_total a.1 b.1⟩
  have : IsTrans (String × α) fun a b => a.1 ≤ b.1 := ⟨fun _ _ _ => String.le_trans⟩
  exact List.pairwise_insertionSort _ _

theorem sortKeys_eq_of_perm {es fs : List (String × α)} (hdistinct : (es.map Prod.fst).Nodup)
    (h : es.Perm fs) : sortKeys es = sortKeys fs := by
  have hperm : (sortKeys es).Perm (sortKeys fs) := (perm_sortKeys es).trans (h.trans (perm_sortKeys fs).symm)
  refine hperm.eq_of_pairwise ?_ (sortKeys_ordered es) (sortKeys_ordered fs)
  intro a b ha hb hab hba
  have hmem : b ∈ es := h.mem_iff.2 ((perm_sortKeys fs).mem_iff.1 hb)
  exact List.inj_on_of_nodup_map hdistinct ((perm_sortKeys es).mem_iff.1 ha) hmem (String.le_antisymm hab hba)

theorem perm_of_sortKeys_eq {es fs : List (String × α)} (h : sortKeys es = sortKeys fs) : es.Perm fs :=
  (perm_sortKeys es).symm.trans (h ▸ perm_sortKeys fs)

/-- A rearrangement of the image of a list is the image of a rearrangement. -/
theorem exists_perm_of_perm_map {f : α → β} {xs : List α} {ys : List β} (h : ys.Perm (xs.map f)) :
    ∃ zs : List α, zs.Perm xs ∧ ys = zs.map f := by
  have himage : List.Forall₂ (fun y x => y = f x) (xs.map f) xs := by
    rw [List.forall₂_map_left_iff, List.forall₂_same]
    exact fun _ _ => rfl
  obtain ⟨zs, hys, hzs⟩ := List.perm_comp_forall₂ h himage
  refine ⟨zs, hzs, ?_⟩
  rwa [← List.forall₂_eq_eq_eq, List.forall₂_map_right_iff]

end Keys

namespace Json

variable {φ : Type}

mutual

/-- The keys of every object in order, at every depth. -/
def sorted : Json φ → Json φ
  | null => null
  | bool b => bool b
  | int n => int n
  | float x => float x
  | str s => str s
  | list xs => list (sortedItems xs)
  | obj entries => obj (sortKeys (sortedEntries entries))

def sortedItems : List (Json φ) → List (Json φ)
  | [] => []
  | x :: xs => x.sorted :: sortedItems xs

def sortedEntries : List (String × Json φ) → List (String × Json φ)
  | [] => []
  | (key, x) :: entries => (key, x.sorted) :: sortedEntries entries

end

mutual

/-- No object repeats a key, at any depth. -/
def Distinct : Json φ → Prop
  | list xs => DistinctItems xs
  | obj entries => (entries.map Prod.fst).Nodup ∧ DistinctEntries entries
  | _ => True

def DistinctItems : List (Json φ) → Prop
  | [] => True
  | x :: xs => x.Distinct ∧ DistinctItems xs

def DistinctEntries : List (String × Json φ) → Prop
  | [] => True
  | (_, x) :: entries => x.Distinct ∧ DistinctEntries entries

end

mutual

/-- Structural equality up to the order of the keys of objects, at every depth. -/
inductive Same : Json φ → Json φ → Prop
  | null : Same null null
  | bool (b : Bool) : Same (bool b) (bool b)
  | int (n : Int) : Same (int n) (int n)
  | float (x : φ) : Same (float x) (float x)
  | str (s : String) : Same (str s) (str s)
  | list {xs ys : List (Json φ)} : SameItems xs ys → Same (list xs) (list ys)
  | obj {es fs gs : List (String × Json φ)} : SameEntries es fs → fs.Perm gs → Same (obj es) (obj gs)

inductive SameItems : List (Json φ) → List (Json φ) → Prop
  | nil : SameItems [] []
  | cons {x y : Json φ} {xs ys : List (Json φ)} : Same x y → SameItems xs ys → SameItems (x :: xs) (y :: ys)

inductive SameEntries : List (String × Json φ) → List (String × Json φ) → Prop
  | nil : SameEntries [] []
  | cons {key : String} {x y : Json φ} {es fs : List (String × Json φ)} :
      Same x y → SameEntries es fs → SameEntries ((key, x) :: es) ((key, y) :: fs)

end

theorem sortedEntries_eq_map (entries : List (String × Json φ)) :
    sortedEntries entries = entries.map fun e => (e.1, e.2.sorted) := by
  induction entries with
  | nil => rfl
  | cons e entries ih => exact congrArg (List.cons _) ih

theorem sortedEntries_keys (entries : List (String × Json φ)) :
    (sortedEntries entries).map Prod.fst = entries.map Prod.fst := by
  rw [sortedEntries_eq_map, List.map_map]
  rfl

theorem distinctItems_iff {xs : List (Json φ)} : DistinctItems xs ↔ ∀ x ∈ xs, x.Distinct := by
  induction xs with
  | nil => exact iff_of_true trivial (List.forall_mem_nil _)
  | cons x xs ih => rw [DistinctItems, List.forall_mem_cons, ih]

theorem distinctEntries_iff {entries : List (String × Json φ)} :
    DistinctEntries entries ↔ ∀ e ∈ entries, e.2.Distinct := by
  induction entries with
  | nil => exact iff_of_true trivial (List.forall_mem_nil _)
  | cons e entries ih => rw [DistinctEntries, List.forall_mem_cons, ih]

theorem DistinctEntries.perm {es fs : List (String × Json φ)} (hdistinct : DistinctEntries es)
    (h : fs.Perm es) : DistinctEntries fs :=
  distinctEntries_iff.2 fun e he => distinctEntries_iff.1 hdistinct e (h.mem_iff.1 he)

mutual

theorem Same.sorted_eq : ∀ {v w : Json φ}, w.Distinct → v.Same w → v.sorted = w.sorted
  | _, _, _, .null | _, _, _, .bool _ | _, _, _, .int _ | _, _, _, .float _ | _, _, _, .str _ => rfl
  | _, _, hw, .list hitems => congrArg list (SameItems.sorted_eq hw hitems)
  | _, _, hw, .obj hentries hperm => by
    obtain ⟨hkeys, hw⟩ := hw
    have hsorted := SameEntries.sorted_eq (hw.perm hperm) hentries
    refine congrArg obj ?_
    rw [hsorted]
    refine sortKeys_eq_of_perm ?_ ?_
    · rw [sortedEntries_keys]
      exact (hperm.map Prod.fst).nodup_iff.2 hkeys
    · rw [sortedEntries_eq_map, sortedEntries_eq_map]
      exact hperm.map _

theorem SameItems.sorted_eq : ∀ {xs ys : List (Json φ)}, DistinctItems ys → SameItems xs ys →
    sortedItems xs = sortedItems ys
  | _, _, _, .nil => rfl
  | _, _, hys, .cons hhead htail => congrArg₂ List.cons (hhead.sorted_eq hys.1) (htail.sorted_eq hys.2)

theorem SameEntries.sorted_eq : ∀ {es fs : List (String × Json φ)}, DistinctEntries fs →
    SameEntries es fs → sortedEntries es = sortedEntries fs
  | _, _, _, .nil => rfl
  | _, _, hfs, .cons hhead htail => by
    rw [sortedEntries, sortedEntries, hhead.sorted_eq hfs.1, htail.sorted_eq hfs.2]

end

mutual

theorem same_of_sorted_eq : ∀ v w : Json φ, v.sorted = w.sorted → v.Same w
  | null, w, h => by cases w <;> first | exact .null | cases h
  | bool b, w, h => by
    cases w with
    | bool b' => cases h; exact .bool b
    | _ => cases h
  | int n, w, h => by
    cases w with
    | int n' => cases h; exact .int n
    | _ => cases h
  | float x, w, h => by
    cases w with
    | float x' => cases h; exact .float x
    | _ => cases h
  | str s, w, h => by
    cases w with
    | str s' => cases h; exact .str s
    | _ => cases h
  | list xs, w, h => by
    cases w with
    | list ys => exact .list (sameItems_of_sorted_eq xs ys (list.inj h))
    | _ => cases h
  | obj es, w, h => by
    cases w with
    | obj gs =>
      have hperm : (sortedEntries es).Perm (sortedEntries gs) := perm_of_sortKeys_eq (obj.inj h)
      -- the same rearrangement takes the unsorted values along
      obtain ⟨fs, hfs, heq⟩ := exists_perm_of_perm_map (sortedEntries_eq_map gs ▸ hperm)
      rw [← sortedEntries_eq_map] at heq
      exact .obj (sameEntries_of_sorted_eq es fs heq) hfs
    | _ => cases h

theorem sameItems_of_sorted_eq : ∀ xs ys : List (Json φ), sortedItems xs = sortedItems ys → SameItems xs ys
  | [], [], _ => .nil
  | [], _ :: _, h | _ :: _, [], h => by cases h
  | x :: xs, y :: ys, h =>
    .cons (same_of_sorted_eq x y (List.cons.inj h).1) (sameItems_of_sorted_eq xs ys (List.cons.inj h).2)

theorem sameEntries_of_sorted_eq : ∀ es fs : List (String × Json φ), sortedEntries es = sortedEntries fs →
    SameEntries es fs
  | [], [], _ => .nil
  | [], _ :: _, h | _ :: _, [], h => by cases h
  | (key, x) :: es, (key', y) :: fs, h => by
    obtain ⟨hhead, htail⟩ := List.cons.inj h
    obtain ⟨rfl, hvalue⟩ := Prod.mk.inj hhead
    exact .cons (same_of_sorted_eq x y hvalue) (sameEntries_of_sorted_eq es fs htail)

end

/-- Sorting the keys at every depth forgets their order and nothing else. -/
theorem sorted_eq_iff {v w : Json φ} (hw : w.Distinct) : v.sorted = w.sorted ↔ v.Same w :=
  ⟨same_of_sorted_eq v w, fun h => h.sorted_eq hw⟩

end Json

end SafeOps.Serial
