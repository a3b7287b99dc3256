import SafeOps.Concurrent.Pool

/-! Tables of which nothing is ever lost: rows are added, and change only in ways that a relation allows. -/

namespace SafeOps.Concurrent

variable {ι ρ : Type} {R R' : ρ → ρ → Prop} {t t' t'' : ι → Option ρ}

/-- Every row of the table is still there, and related by `R` to what it was. -/
def Evolves (R : ρ → ρ → Prop) (t t' : ι → Option ρ) : Prop :=
  ∀ i row, t i = some row → ∃ row', t' i = some row' ∧ R row row'

/-- The row keeps what `f` reads of it. -/
def Retains {κ : Type} (f : ρ → κ) (row row' : ρ) : Prop := f row' = f row

theorem Retains.refl {κ : Type} {f : ρ → κ} (row : ρ) : Retains f row row := rfl

theorem Retains.trans {κ : Type} {f : ρ → κ} {row row' row'' : ρ} (h : Retains f row row') (h' : Retains f row' row'') :
    Retains f row row'' :=
  Eq.trans h' h

namespace Evolves

theorem refl (hR : ∀ row, R row row) (t : ι → Option ρ) : Evolves R t t :=
  fun _ row hrow => ⟨row, hrow, hR row⟩

theorem trans (hR : ∀ {a b c}, R a b → R b c → R a c) (h : Evolves R t t') (h' : Evolves R t' t'') :
    Evolves R t t'' := by
  intro i row hrow
  obtain ⟨row', hrow', hr⟩ := h i row hrow
  obtain ⟨row'', hrow'', hr'⟩ := h' i row' hrow'
  exact ⟨row'', hrow'', hR hr hr'⟩

/-- A step that keeps each row, or puts one where there was none, or changes one as `R` allows. -/
theorem of_rows (hR : ∀ row, R row row) (h : ∀ i, t' i = t i ∨ t i = none ∨
    ∃ row row', t i = some row ∧ t' i = some row' ∧ R row row') : Evolves R t t' := by
  intro i row hrow
  rcases h i with he | hfree | ⟨old, new, hold, hnew, hr⟩
  · exact ⟨row, he.trans hrow, hR row⟩
  · rw [hfree] at hrow
    cases hrow
  · obtain rfl := Option.some.inj (hrow.symm.trans hold)
    exact ⟨new, hnew, hr⟩

end Evolves

end SafeOps.Concurrent
