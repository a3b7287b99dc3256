import Mathlib.Data.List.Basic
import Mathlib.Logic.Function.Basic

/-! Texts that can be told apart in front of other texts. A code is a function into texts over an
alphabet `σ`; what may follow a text is part of the question where it ends. -/

namespace SafeOps.Serial

variable {α β σ : Type} {enc : α → List σ} {stop : List σ → Prop} {a : α}

/-- In front of any text with `stop`, the text of `a` is read as that of `a` only, and ends where it
ends. -/
def Readable (stop : List σ → Prop) (enc : α → List σ) (a : α) : Prop :=
  ∀ b s t, stop s → stop t → enc a ++ s = enc b ++ t → a = b ∧ s = t

theorem Readable.eq (h : Readable stop enc a) (hstop : stop []) {b : α} (he : enc a = enc b) : a = b :=
  (h b [] [] hstop hstop (by rw [he])).1

section Runs

variable {K : σ → Prop}

/-- The text does not go on with a letter of `K`. -/
def Ends (K : σ → Prop) (s : List σ) : Prop := ∀ c r, s = c :: r → ¬K c

theorem ends_nil : Ends K [] := by
  intro c r h
  cases h

theorem ends_cons {c : σ} (hc : ¬K c) (s : List σ) : Ends K (c :: s) := by
  intro d r h
  obtain ⟨rfl, _⟩ := List.cons.inj h
  exact hc

/-- A run of letters of `K` ends at the first letter that is not in `K`. -/
theorem run_unique {u v s t : List σ} (hu : ∀ c ∈ u, K c) (hv : ∀ c ∈ v, K c) (hs : Ends K s)
    (ht : Ends K t) (he : u ++ s = v ++ t) : u = v ∧ s = t := by
  induction u generalizing v with
  | nil =>
    cases v with
    | nil => exact ⟨rfl, he⟩
    | cons d v => exact absurd (hv d List.mem_cons_self) (hs d _ he)
  | cons c u ih =>
    cases v with
    | nil => exact absurd (hu c List.mem_cons_self) (ht c _ he.symm)
    | cons d v =>
      obtain ⟨rfl, htail⟩ := List.cons.inj he
      obtain ⟨rfl, hrest⟩ := ih (fun c hc => hu c (List.mem_cons_of_mem _ hc))
        (fun c hc => hv c (List.mem_cons_of_mem _ hc)) htail
      exact ⟨rfl, hrest⟩

end Runs

section Sequences

variable {close sep : σ}

/-- The texts of `as` one after another, and the letter that ends them. -/
def terminated (close : σ) (enc : α → List σ) (as : List α) : List σ := as.flatMap enc ++ [close]

@[simp] theorem terminated_nil : terminated close enc [] = [close] := rfl

@[simp] theorem terminated_cons (as : List α) :
    terminated close enc (a :: as) = enc a ++ terminated close enc as := by
  simp [terminated]

/-- The letter that ends the sequence begins none of its members' texts. -/
def Avoids (close : σ) (enc : α → List σ) : Prop := ∀ a s t, enc a ++ s ≠ close :: t

theorem readable_terminated (havoids : Avoids close enc) (hstop : ∀ as s, stop (terminated close enc as ++ s))
    {as : List α} (has : ∀ a ∈ as, Readable stop enc a) :
    Readable (fun _ => True) (terminated close enc) as := by
  induction as with
  | nil =>
    rintro (_ | ⟨b, bs⟩) s t _ _ he
    · exact ⟨rfl, (List.cons.inj he).2⟩
    · rw [terminated_cons, List.append_assoc] at he
      exact absurd he.symm (havoids b _ _)
  | cons a as ih =>
    rintro (_ | ⟨b, bs⟩) s t _ _ he
    · rw [terminated_cons, List.append_assoc] at he
      exact absurd he (havoids a _ _)
    · rw [terminated_cons, terminated_cons, List.append_assoc, List.append_assoc] at he
      obtain ⟨rfl, htail⟩ := has a List.mem_cons_self b _ _ (hstop as s) (hstop bs t) he
      obtain ⟨rfl, hrest⟩ := ih (fun a ha => has a (List.mem_cons_of_mem _ ha)) bs s t trivial trivial htail
      exact ⟨rfl, hrest⟩

/-- The texts of `as`, separated by `sep`. -/
def separated (sep : σ) (enc : α → List σ) : List α → List σ
  | [] => []
  | [a] => enc a
  | a :: b :: as => enc a ++ sep :: separated sep enc (b :: as)

/-- The rest of a separated sequence, from the first separator on. -/
def onward (sep close : σ) (enc : α → List σ) : List α → List σ := terminated close fun a => sep :: enc a

theorem separated_cons (as : List α) :
    separated sep enc (a :: as) ++ [close] = enc a ++ onward sep close enc as := by
  induction as generalizing a with
  | nil => rfl
  | cons b as ih =>
    rw [onward, terminated_cons]
    change (enc a ++ sep :: separated sep enc (b :: as)) ++ [close] = _
    rw [List.append_assoc, List.cons_append, ih]
    rfl

theorem onward_stops (hsep : ∀ s, stop (sep :: s)) (hclose : ∀ s, stop (close :: s)) (as : List α)
    (s : List σ) : stop (onward sep close enc as ++ s) := by
  cases as with
  | nil => exact hclose _
  | cons a as =>
    rw [onward, terminated_cons]
    exact hsep _

/-- A separated sequence within brackets. -/
theorem readable_separated (hne : sep ≠ close) (havoids : Avoids close enc)
    (hsep : ∀ s, stop (sep :: s)) (hclose : ∀ s, stop (close :: s)) {as : List α}
    (has : ∀ a ∈ as, Readable stop enc a) :
    Readable (fun _ => True) (fun as => separated sep enc as ++ [close]) as := by
  have rest {as : List α} (has : ∀ a ∈ as, Readable stop enc a) :
      Readable (fun _ => True) (onward sep close enc) as := by
    refine readable_terminated (fun a s t he => hne (List.cons.inj he).1)
      (onward_stops hsep hclose) fun a ha b s t hs ht he => ?_
    exact has a ha b s t hs ht (List.cons.inj he).2
  rintro (_ | ⟨b, bs⟩) s t _ _ he
  · cases as with
    | nil => exact ⟨rfl, (List.cons.inj he).2⟩
    | cons a as =>
      simp only [separated_cons, List.append_assoc] at he
      exact absurd he (havoids a _ _)
  · cases as with
    | nil =>
      simp only [separated_cons, List.append_assoc] at he
      exact absurd he.symm (havoids b _ _)
    | cons a as =>
      simp only [separated_cons, List.append_assoc] at he
      obtain ⟨rfl, htail⟩ := has a List.mem_cons_self b _ _ (onward_stops hsep hclose as s)
        (onward_stops hsep hclose bs t) he
      obtain ⟨rfl, hrest⟩ := rest (fun a ha => has a (List.mem_cons_of_mem _ ha)) bs s t trivial trivial htail
      exact ⟨rfl, hrest⟩

/-- A pair of texts with a letter in between. -/
theorem readable_pair {encB : β → List σ} {stopA : List σ → Prop} {b : β} (hsep : ∀ s, stopA (sep :: s))
    (ha : Readable stopA enc a) (hb : Readable stop encB b) :
    Readable stop (fun p : α × β => enc p.1 ++ sep :: encB p.2) (a, b) := by
  rintro ⟨a', b'⟩ s t hs ht he
  simp only [List.append_assoc, List.cons_append] at he
  obtain ⟨rfl, htail⟩ := ha a' _ _ (hsep _) (hsep _) he
  obtain ⟨rfl, hrest⟩ := hb b' s t hs ht (List.cons.inj htail).2
  exact ⟨rfl, hrest⟩

end Sequences

end SafeOps.Serial
