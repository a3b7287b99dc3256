import Mathlib.Data.List.DropRight
import Mathlib.Data.List.Infix

/-! A word between separators. A search for anything but such words passes over it. -/

namespace SafeOps.Serial

variable {α : Type} {sep : α} {before after : List α}

/-- Nothing before a word, or something that ends with the separator. -/
def Opens (sep : α) (before : List α) : Prop := before = [] ∨ ∃ xs, before = xs ++ [sep]

/-- Nothing after a word, or something that starts with the separator. -/
def Closes (sep : α) (after : List α) : Prop := after = [] ∨ ∃ ys, after = sep :: ys

theorem Opens.of_append {xs ys : List α} (h : Opens sep (xs ++ ys)) : Opens sep ys := by
  rcases List.eq_nil_or_concat ys with rfl | ⟨zs, c, rfl⟩
  · exact .inl rfl
  · rcases h with h | ⟨ws, h⟩
    · simp at h
    · rw [List.concat_eq_append, ← List.append_assoc] at h
      obtain ⟨-, h⟩ := List.append_inj' h rfl
      obtain rfl := List.singleton_inj.1 h
      exact .inr ⟨zs, List.concat_eq_append⟩

theorem Closes.of_append {xs ys : List α} (h : Closes sep (xs ++ ys)) : Closes sep xs := by
  cases xs with
  | nil => exact .inl rfl
  | cons c xs =>
    rcases h with h | ⟨ws, h⟩
    · simp at h
    · obtain rfl := (List.cons.inj h).1
      exact .inr ⟨xs, rfl⟩

section Splitting

variable [BEq α] [LawfulBEq α]

/-- A word between separators is one of the words. -/
theorem mem_splitOn {word : List α} (hopens : Opens sep before) (hcloses : Closes sep after) (hword : sep ∉ word) :
    word ∈ (before ++ word ++ after).splitOn sep := by
  have hlast : word ∈ (word ++ after).splitOn sep := by
    rcases hcloses with rfl | ⟨ys, rfl⟩
    · rw [List.append_nil, List.splitOn_eq_singleton hword]
      exact List.mem_singleton.2 rfl
    · rw [List.splitOn_append_cons_self_of_not_mem hword]
      exact List.mem_cons_self
  rcases hopens with rfl | ⟨xs, rfl⟩
  · exact hlast
  · rw [List.append_assoc, List.append_assoc, List.singleton_append, List.splitOn_append_cons_self]
    exact List.mem_append_right _ hlast

/-- A phrase of which every word has a letter outside an alphabet is not found across a word over it. -/
theorem infix_between {letter : α → Prop} {phrase word : List α} (hsep : ¬letter sep)
    (hphrase : ∀ w ∈ phrase.splitOn sep, ∃ c ∈ w, ¬letter c) (hopens : Opens sep before)
    (hcloses : Closes sep after) (hword : ∀ c ∈ word, letter c) :
    phrase <:+: before ++ word ++ after ↔ phrase <:+: before ∨ phrase <:+: after := by
  have hforeign {xs w ys : List α} (hxs : Opens sep xs) (hys : Closes sep ys) (hw : ∀ c ∈ w, letter c) :
      phrase ≠ xs ++ w ++ ys := by
    rintro rfl
    obtain ⟨c, hc, hletter⟩ := hphrase w (mem_splitOn hxs hys fun hmem => hsep (hw sep hmem))
    exact hletter (hw c hc)
  constructor
  · rintro ⟨s, t, h⟩
    rw [List.append_assoc, List.append_assoc] at h
    rcases List.append_eq_append_iff.1 h with ⟨a, rfl, hrest⟩ | ⟨c, rfl, hrest⟩
    · rcases List.append_eq_append_iff.1 hrest with ⟨b, rfl, -⟩ | ⟨b, rfl, hend⟩
      · exact .inl ⟨s, b, List.append_assoc _ _ _⟩
      · exfalso
        rcases List.append_eq_append_iff.1 hend with ⟨d, rfl, rfl⟩ | ⟨d, rfl, rfl⟩
        · exact hforeign hopens.of_append hcloses.of_append hword (List.append_assoc _ _ _).symm
        · exact hforeign hopens.of_append (.inl rfl) (fun c hc => hword c (List.mem_append_left _ hc))
            (List.append_nil _).symm
    · rcases List.append_eq_append_iff.1 hrest with ⟨d, rfl, hend⟩ | ⟨d, rfl, hend⟩
      · exact .inr ⟨d, t, by rw [List.append_assoc]; exact hend.symm⟩
      · exfalso
        rcases List.append_eq_append_iff.1 hend with ⟨e, rfl, rfl⟩ | ⟨e, rfl, rfl⟩
        · refine hforeign (.inl rfl) (.inl rfl) (fun c hc => ?_) (List.append_nil _).symm
          exact hword c (List.mem_append_right _ (List.mem_append_left _ hc))
        · exact hforeign (.inl rfl) hcloses.of_append
            (fun c hc => hword c (List.mem_append_right _ hc)) (List.nil_append _).symm
  · rintro (h | h)
    · exact h.trans ⟨[], word ++ after, by simp⟩
    · exact h.trans ⟨before ++ word, [], by simp⟩

end Splitting

end SafeOps.Serial
