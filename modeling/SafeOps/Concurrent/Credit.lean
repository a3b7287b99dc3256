import SafeOps.Concurrent.Pool
import Mathlib.Data.Finset.Card

/-! What threads earn before they spend it: where each spends on its own credit of one, all together have spent no
more than they have earned. -/

namespace SafeOps.Concurrent

variable {S : Signature} (earns spends : Entry S → Bool)

/-- Whether thread `i` has earned something that it has not spent. -/
def credit (i : Nat) : List (Entry S) → Bool
  | [] => false
  | e :: older =>
    if e.thread = i then
      if earns e then true else if spends e then false else credit i older
    else credit i older

variable {earns spends} {e : Entry S} {older : List (Entry S)}

theorem credit_other {i : Nat} (hi : e.thread ≠ i) : credit earns spends i (e :: older) = credit earns spends i older :=
  if_neg hi

theorem credit_earned (he : earns e = true) : credit earns spends e.thread (e :: older) = true := by
  simp [credit, he]

theorem credit_spent (he : earns e = false) (hs : spends e = true) :
    credit earns spends e.thread (e :: older) = false := by
  simp [credit, he, hs]

theorem credit_kept (he : earns e = false) (hs : spends e = false) (i : Nat) :
    credit earns spends i (e :: older) = credit earns spends i older := by
  simp [credit, he, hs]

variable (earns spends)

/-- Whoever spends has credit. -/
def OnCredit (history : List (Entry S)) : Prop :=
  ∀ later e earlier, history = later ++ e :: earlier → spends e = true → credit earns spends e.thread earlier = true

variable {earns spends}

theorem OnCredit.tail (h : OnCredit earns spends (e :: older)) : OnCredit earns spends older :=
  fun later e' earlier he => h (e :: later) e' earlier (by rw [he, List.cons_append])

/-- Spending and outstanding credit together never exceed what has been earned. -/
theorem credit_le_earned {history : List (Entry S)} (h : OnCredit earns spends history) (threads : Finset Nat) :
    (threads.filter fun i => credit earns spends i history = true).card + history.countP spends ≤
      history.countP earns := by
  induction history generalizing threads with
  | nil => simp [credit]
  | cons e older ih =>
    have funded : spends e = true → credit earns spends e.thread older = true := h [] e older rfl
    have ih := ih h.tail
    simp only [List.countP_cons]
    cases he : earns e <;> cases hs : spends e
    · simp only [credit_kept he hs]
      simpa using ih threads
    · -- the spender's credit is gone
      have spent : e.thread ∉ threads.filter fun i => credit earns spends i (e :: older) = true := by
        simp [credit_spent he hs]
      have others : insert e.thread (threads.filter fun i => credit earns spends i (e :: older) = true) ⊆
          (insert e.thread threads).filter fun i => credit earns spends i older = true := by
        intro i hi
        rcases Finset.mem_insert.1 hi with rfl | hi
        · exact Finset.mem_filter.2 ⟨Finset.mem_insert_self _ _, funded hs⟩
        · obtain ⟨hmem, hc⟩ := Finset.mem_filter.1 hi
          have hne : e.thread ≠ i := fun hei => spent (hei ▸ hi)
          exact Finset.mem_filter.2 ⟨Finset.mem_insert_of_mem hmem, credit_other hne ▸ hc⟩
      have hcard := Finset.card_le_card others
      rw [Finset.card_insert_of_notMem spent] at hcard
      have := ih (insert e.thread threads)
      simp only [Bool.false_eq_true, if_false, if_true]
      omega
    · have grown : (threads.filter fun i => credit earns spends i (e :: older) = true) ⊆
          insert e.thread (threads.filter fun i => credit earns spends i older = true) := by
        intro i hi
        obtain ⟨hmem, hc⟩ := Finset.mem_filter.1 hi
        by_cases hei : e.thread = i
        · exact hei ▸ Finset.mem_insert_self _ _
        · exact Finset.mem_insert_of_mem (Finset.mem_filter.2 ⟨hmem, credit_other hei ▸ hc⟩)
      have hcard := (Finset.card_le_card grown).trans (Finset.card_insert_le _ _)
      have := ih threads
      simp only [Bool.false_eq_true, if_false, if_true]
      omega
    · have same : (threads.filter fun i => credit earns spends i (e :: older) = true) ⊆
          (insert e.thread threads).filter fun i => credit earns spends i older = true := by
        intro i hi
        obtain ⟨hmem, hc⟩ := Finset.mem_filter.1 hi
        refine Finset.mem_filter.2 ⟨Finset.mem_insert_of_mem hmem, ?_⟩
        by_cases hei : e.thread = i
        · exact hei ▸ funded hs
        · exact credit_other hei ▸ hc
      have hcard := Finset.card_le_card same
      have := ih (insert e.thread threads)
      simp only [if_true]
      omega

theorem spent_le_earned {history : List (Entry S)} (h : OnCredit earns spends history) :
    history.countP spends ≤ history.countP earns := by
  simpa using credit_le_earned h ∅

end SafeOps.Concurrent
