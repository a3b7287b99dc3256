import SafeOps.Guarantees.RiskMonotone
import SafeOps.Serial.Between

/-! The text of an amount among the arguments of a call: to the detectors it is a word without meaning. -/

namespace SafeOps
open Serial

section Collapsing

variable {word blanks : List Char}

theorem collapse_append (blank : Bool) (xs ys : List Char) :
    collapse blank (xs ++ ys) = collapse blank xs ++ collapse (xs.foldl (fun _ c => isSpace c) blank) ys := by
  induction xs generalizing blank with
  | nil => rfl
  | cons c xs ih =>
    rw [List.cons_append, collapse, collapse, List.foldl_cons]
    cases isSpace c with
    | true => cases blank <;> simp [ih]
    | false => simp [ih]

theorem collapse_word (h : ∀ c ∈ word, isSpace c = false) (blank : Bool) : collapse blank word = word := by
  induction word generalizing blank with
  | nil => rfl
  | cons c word ih =>
    obtain ⟨hc, hword⟩ := List.forall_mem_cons.1 h
    rw [collapse, hc, if_neg Bool.false_ne_true, ih hword]

theorem collapse_blanks (h : ∀ c ∈ blanks, isSpace c = true) : collapse true blanks = [] := by
  induction blanks with
  | nil => rfl
  | cons c blanks ih =>
    obtain ⟨hc, hblanks⟩ := List.forall_mem_cons.1 h
    rw [collapse, hc, if_pos rfl, if_pos rfl, ih hblanks]

theorem foldl_isSpace (blank : Bool) (xs : List Char) (c : Char) :
    (xs ++ [c]).foldl (fun _ c => isSpace c) blank = isSpace c := by
  rw [List.foldl_append, List.foldl_cons, List.foldl_nil]

/-- A gap between words is read as one blank. -/
theorem collapse_gap (hne : blanks ≠ []) (h : ∀ c ∈ blanks, isSpace c = true) (rest : List Char) :
    collapse false (blanks ++ rest) = ' ' :: collapse true rest := by
  cases blanks with
  | nil => exact absurd rfl hne
  | cons c blanks =>
    obtain ⟨hc, hblanks⟩ := List.forall_mem_cons.1 h
    have hflag : blanks.foldl (fun _ c => isSpace c) true = true := by
      rcases List.eq_nil_or_concat blanks with rfl | ⟨xs, d, rfl⟩
      · rfl
      · rw [List.concat_eq_append, foldl_isSpace]
        exact hblanks d (by simp)
    rw [List.cons_append, collapse, hc, if_pos rfl, if_neg Bool.false_ne_true, collapse_append,
      collapse_blanks hblanks, hflag, List.nil_append]

theorem isSpace_blank : isSpace ' ' = true := by decide

/-- What normalising leaves in front of a word. -/
theorem exists_opening {before : List Char} (h : Opens ' ' before) : ∃ opening, Opens ' ' opening ∧
    ∀ blanks, (∀ c ∈ blanks, isSpace c = true) →
      (collapse false (before ++ blanks)).dropWhile isSpace = opening := by
  rcases h with rfl | ⟨xs, rfl⟩
  · refine ⟨[], .inl rfl, fun blanks hblanks => ?_⟩
    by_cases hne : blanks = []
    · subst hne
      rfl
    · have hgap := collapse_gap hne hblanks []
      rw [List.append_nil] at hgap
      rw [List.nil_append, hgap]
      rfl
  · set words := xs.rdropWhile isSpace
    refine ⟨(collapse false words ++ [' ']).dropWhile isSpace, ?_, fun blanks hblanks => ?_⟩
    · rw [List.dropWhile_append]
      split
      · exact .inl rfl
      · exact .inr ⟨_, rfl⟩
    · have hsplit : xs ++ [' '] ++ blanks = words ++ (xs.rtakeWhile isSpace ++ ' ' :: blanks) := by
        rw [← List.append_assoc, List.rdropWhile_append_rtakeWhile, List.append_assoc, List.singleton_append]
      have hspaces : ∀ c ∈ xs.rtakeWhile isSpace ++ ' ' :: blanks, isSpace c = true := by
        intro c hc
        rcases List.mem_append.1 hc with hc | hc
        · exact List.mem_rtakeWhile_imp hc
        · rcases List.mem_cons.1 hc with rfl | hc
          · exact isSpace_blank
          · exact hblanks c hc
      have hflag : words.foldl (fun _ c => isSpace c) false = false := by
        rcases List.eq_nil_or_concat words with hnil | ⟨ys, c, hwords⟩
        · rw [hnil]
          rfl
        · rw [List.concat_eq_append] at hwords
          have hlast := List.rdropWhile_last_not isSpace xs (by rw [show xs.rdropWhile isSpace = _ from hwords]; simp)
          rw [hwords, foldl_isSpace]
          simpa [show xs.rdropWhile isSpace = _ from hwords] using hlast
      have hgap := collapse_gap (by simp) hspaces []
      rw [List.append_nil] at hgap
      rw [hsplit, collapse_append, hflag, hgap]
      rfl

/-- What normalising leaves after a word. -/
theorem exists_closing {after : List Char} (h : Closes ' ' after) : ∃ closing, Closes ' ' closing ∧
    ∀ blanks, (∀ c ∈ blanks, isSpace c = true) →
      (collapse false (blanks ++ after)).rdropWhile isSpace = closing := by
  rcases h with rfl | ⟨ys, rfl⟩
  · refine ⟨[], .inl rfl, fun blanks hblanks => ?_⟩
    by_cases hne : blanks = []
    · subst hne
      rfl
    · rw [collapse_gap hne hblanks []]
      rfl
  · refine ⟨(' ' :: collapse true (ys.dropWhile isSpace)).rdropWhile isSpace, ?_, fun blanks hblanks => ?_⟩
    · obtain ⟨rest, hrest⟩ := List.rdropWhile_prefix isSpace (' ' :: collapse true (ys.dropWhile isSpace))
      exact Closes.of_append (.inr ⟨_, hrest⟩)
    · have hsplit : blanks ++ ' ' :: ys = (blanks ++ ' ' :: ys.takeWhile isSpace) ++ ys.dropWhile isSpace := by
        rw [List.append_assoc, List.cons_append, List.takeWhile_append_dropWhile]
      rw [hsplit, collapse_gap (by simp) fun c hc => ?_]
      rcases List.mem_append.1 hc with hc | hc
      · exact hblanks c hc
      · rcases List.mem_cons.1 hc with rfl | hc
        · exact isSpace_blank
        · exact List.mem_takeWhile_imp hc

end Collapsing

section Normalising

theorem strip_eq (text : List Char) : strip text = (text.dropWhile isSpace).rdropWhile isSpace := rfl

/-- A word keeps what stands before and after it apart. -/
theorem strip_word {before word after : List Char} (hne : word ≠ []) (hword : ∀ c ∈ word, isSpace c = false) :
    strip (before ++ word ++ after) =
      before.dropWhile isSpace ++ word ++ after.rdropWhile isSpace := by
  have hlast : ∀ xs : List Char, (xs ++ word).rdropWhile isSpace = xs ++ word := by
    intro xs
    rcases List.eq_nil_or_concat word with hnil | ⟨zs, c, rfl⟩
    · exact absurd hnil hne
    · rw [List.concat_eq_append, ← List.append_assoc]
      exact List.rdropWhile_concat_neg _ _ _ (by simp [hword c (by simp)])
  have hrdrop (xs : List Char) : (xs ++ word ++ after).rdropWhile isSpace =
      xs ++ word ++ after.rdropWhile isSpace := by
    induction after using List.reverseRecOn with
    | nil => rw [List.append_nil, hlast, List.rdropWhile_nil, List.append_nil]
    | append_singleton ys c ih =>
      rw [← List.append_assoc]
      by_cases hc : isSpace c = true
      · rw [List.rdropWhile_concat_pos _ _ _ hc, List.rdropWhile_concat_pos _ _ _ hc, ih]
      · rw [List.rdropWhile_concat_neg _ _ _ hc, List.rdropWhile_concat_neg _ _ _ hc]
        simp
  have hfirst : (word ++ after).dropWhile isSpace = word ++ after := by
    cases word with
    | nil => exact absurd rfl hne
    | cons c word => rw [List.cons_append, List.dropWhile_cons_of_neg (by simp [hword c (by simp)])]
  have hdrop : (before ++ (word ++ after)).dropWhile isSpace = before.dropWhile isSpace ++ (word ++ after) := by
    rw [List.dropWhile_append]
    split
    · rename_i hnil
      rw [hfirst, List.isEmpty_iff.1 hnil, List.nil_append]
    · rfl
  rw [strip_eq, List.append_assoc, hdrop, ← List.append_assoc, hrdrop]

/-- The word is set off on either side once the text has been collapsed and stripped. -/
theorem exists_surroundings {before after : List Char} (hbefore : Opens ' ' before) (hafter : Closes ' ' after) :
    ∃ opening closing, Opens ' ' opening ∧ Closes ' ' closing ∧ ∀ left word right,
      (∀ c ∈ left, isSpace c = true) → (∀ c ∈ right, isSpace c = true) → word ≠ [] →
      (∀ c ∈ word, isSpace c = false) →
      strip (collapse false (before ++ (left ++ word ++ right) ++ after)) = opening ++ word ++ closing := by
  obtain ⟨opening, hopens, hopening⟩ := exists_opening hbefore
  obtain ⟨closing, hcloses, hclosing⟩ := exists_closing hafter
  refine ⟨opening, closing, hopens, hcloses, fun left word right hleft hright hne hword => ?_⟩
  have hflag (blank : Bool) : word.foldl (fun _ c => isSpace c) blank = false := by
    rcases List.eq_nil_or_concat word with hnil | ⟨zs, c, rfl⟩
    · exact absurd hnil hne
    · rw [List.concat_eq_append, foldl_isSpace]
      exact hword c (by simp)
  have hassoc : before ++ (left ++ word ++ right) ++ after = (before ++ left) ++ (word ++ (right ++ after)) := by
    simp
  rw [hassoc, collapse_append, collapse_append _ word, hflag, collapse_word hword, ← List.append_assoc,
    strip_word hne hword, hopening left hleft, hclosing right hright]

end Normalising

/-- A letter with which the lower-case text of an amount may be written. -/
def AmountLetter (c : Char) : Prop := isSpace c = false ∧ c ≠ '@' ∧ (c.isAlpha = true → c = 'e')

instance (c : Char) : Decidable (AmountLetter c) := inferInstanceAs (Decidable (_ ∧ _))

/-- The text is an amount's: a word over its letters between blanks. -/
structure AmountText (text : Text) (s : String) where
  left : List Char
  word : List Char
  right : List Char
  split : s.toList = left ++ word ++ right
  leftBlank : ∀ c ∈ left, isSpace c = true
  rightBlank : ∀ c ∈ right, isSpace c = true
  nonempty : word ≠ []
  unbroken : ∀ c ∈ word, isSpace c = false
  letters : ∀ c ∈ (text.lower (String.ofList word)).toList, AmountLetter c

section Lowering

variable {text : Text} (hlower : ∀ s t, text.lower (s ++ " " ++ t) = text.lower s ++ " " ++ text.lower t)
include hlower

theorem lower_blank (xs ys : List Char) : (text.lower (String.ofList (xs ++ ' ' :: ys))).toList =
    (text.lower (String.ofList xs)).toList ++ ' ' :: (text.lower (String.ofList ys)).toList := by
  have hjoin : String.ofList (xs ++ ' ' :: ys) = String.ofList xs ++ " " ++ String.ofList ys := by
    rw [← String.toList_inj]
    simp
  rw [hjoin, hlower]
  simp

theorem lower_surroundings {before after : List Char} (hbefore : Opens ' ' before) (hafter : Closes ' ' after) :
    ∃ opening closing, Opens ' ' opening ∧ Closes ' ' closing ∧ ∀ word,
      (text.lower (String.ofList (before ++ word ++ after))).toList =
        opening ++ (text.lower (String.ofList word)).toList ++ closing := by
  have hclose : ∃ closing, Closes ' ' closing ∧ ∀ word,
      (text.lower (String.ofList (word ++ after))).toList = (text.lower (String.ofList word)).toList ++ closing := by
    rcases hafter with rfl | ⟨ys, rfl⟩
    · exact ⟨[], .inl rfl, fun word => by rw [List.append_nil, List.append_nil]⟩
    · exact ⟨_, .inr ⟨_, rfl⟩, fun word => lower_blank hlower word ys⟩
  obtain ⟨closing, hcloses, hclosing⟩ := hclose
  rcases hbefore with rfl | ⟨xs, rfl⟩
  · exact ⟨[], closing, .inl rfl, hcloses, hclosing⟩
  · refine ⟨(text.lower (String.ofList xs)).toList ++ [' '], closing, .inr ⟨_, rfl⟩, hcloses, fun word => ?_⟩
    rw [List.append_assoc, List.append_assoc, List.singleton_append, lower_blank hlower, hclosing]
    simp

/-- An amount among other texts: once they are joined and normalised, only its own word depends on it. -/
theorem normalize_amount (before after : List String) : ∃ opening closing, Opens ' ' opening ∧ Closes ' ' closing ∧
    ∀ s, AmountText text s → ∃ word, (∀ c ∈ word, AmountLetter c) ∧
      (text.normalize (" ".intercalate (before ++ s :: after))).toList = opening ++ word ++ closing := by
  have hopen : ∃ front, Opens ' ' front ∧ ∀ rest : List String, rest ≠ [] →
      (" ".intercalate (before ++ rest)).toList = front ++ (" ".intercalate rest).toList := by
    by_cases hnil : before = []
    · subst hnil
      exact ⟨[], .inl rfl, fun rest _ => rfl⟩
    · refine ⟨(" ".intercalate before).toList ++ [' '], .inr ⟨_, rfl⟩, fun rest hrest => ?_⟩
      rw [String.intercalate_append_of_ne_nil hnil hrest]
      simp
  have hclose : ∃ back, Closes ' ' back ∧ ∀ s : String,
      (" ".intercalate (s :: after)).toList = s.toList ++ back := by
    by_cases hnil : after = []
    · subst hnil
      exact ⟨[], .inl rfl, fun s => by rw [String.intercalate_singleton, List.append_nil]⟩
    · refine ⟨' ' :: (" ".intercalate after).toList, .inr ⟨_, rfl⟩, fun s => ?_⟩
      rw [String.intercalate_cons_of_ne_nil hnil]
      simp
  obtain ⟨front, hfront, hjoinFront⟩ := hopen
  obtain ⟨back, hback, hjoinBack⟩ := hclose
  obtain ⟨before', after', hbefore', hafter', hstripped⟩ := exists_surroundings hfront hback
  obtain ⟨opening, closing, hopens, hcloses, hlowered⟩ := lower_surroundings hlower hbefore' hafter'
  refine ⟨opening, closing, hopens, hcloses, fun s amount => ⟨_, amount.letters, ?_⟩⟩
  rw [Text.normalize, hjoinFront _ (List.cons_ne_nil _ _), hjoinBack, amount.split, ← List.append_assoc front,
    hstripped _ _ _ amount.leftBlank amount.rightBlank amount.nonempty amount.unbroken, hlowered]

end Lowering

section Searching

/-- The part of an address from its `@` on. -/
def hostLike : List Char → Bool
  | '@' :: domain =>
    decide ('.' ∈ ((domain.takeWhile fun c => !isSpace c && decide (c ≠ '@')).drop 1).dropLast)
  | _ => false

theorem hostLike_of_ne {c : Char} (h : c ≠ '@') (rest : List Char) : hostLike (c :: rest) = false := by
  unfold hostLike
  split
  · rename_i heq
    exact absurd (List.cons.inj heq).1 h
  · rfl

theorem emailLike_cons (c : Char) (rest : List Char) :
    emailLike (c :: rest) = ((!isSpace c && decide (c ≠ '@')) && hostLike rest || emailLike rest) := by
  cases rest with
  | nil => rfl
  | cons d rest =>
    by_cases hd : d = '@'
    · subst hd
      rfl
    · rw [hostLike_of_ne hd]
      simp [emailLike, hd]

theorem hostLike_blank (xs ys : List Char) : hostLike (xs ++ ' ' :: ys) = hostLike xs := by
  cases xs with
  | nil => rfl
  | cons d xs =>
    by_cases hd : d = '@'
    · subst hd
      have htake : (xs ++ ' ' :: ys).takeWhile (fun c => !isSpace c && decide (c ≠ '@')) =
          xs.takeWhile fun c => !isSpace c && decide (c ≠ '@') := by
        rw [List.takeWhile_append]
        split
        · rename_i hall
          rw [List.takeWhile_cons_of_neg (by simp [isSpace_blank]), List.append_nil]
          exact ((List.takeWhile_prefix _).eq_of_length hall).symm
        · rfl
      rw [List.cons_append, hostLike, hostLike, htake]
    · rw [List.cons_append, hostLike_of_ne hd, hostLike_of_ne hd]

/-- No address reaches across a blank. -/
theorem emailLike_blank (xs ys : List Char) : emailLike (xs ++ ' ' :: ys) = (emailLike xs || emailLike ys) := by
  induction xs with
  | nil => rw [List.nil_append, emailLike_cons, isSpace_blank]; rfl
  | cons c xs ih => rw [List.cons_append, emailLike_cons, emailLike_cons, ih, hostLike_blank, Bool.or_assoc]

theorem emailLike_word {word : List Char} (h : '@' ∉ word) : emailLike word = false := by
  induction word with
  | nil => rfl
  | cons c word ih =>
    have hword : '@' ∉ word := fun hmem => h (List.mem_cons_of_mem _ hmem)
    rw [emailLike_cons, ih hword, Bool.or_false]
    cases word with
    | nil => rw [hostLike, Bool.and_false]; simp
    | cons d word => rw [hostLike_of_ne fun hd => hword (hd ▸ List.mem_cons_self), Bool.and_false]

theorem emailLike_between {before word after : List Char} (hopens : Opens ' ' before) (hcloses : Closes ' ' after)
    (hword : '@' ∉ word) : emailLike (before ++ word ++ after) = (emailLike before || emailLike after) := by
  have hend : emailLike (word ++ after) = emailLike after := by
    rcases hcloses with rfl | ⟨ys, rfl⟩
    · rw [List.append_nil, emailLike_word hword]
      rfl
    · have hblank := emailLike_blank [] ys
      rw [List.nil_append] at hblank
      rw [emailLike_blank, emailLike_word hword, hblank]
      rfl
  rcases hopens with rfl | ⟨xs, rfl⟩
  · rw [List.nil_append, hend]
    rfl
  · have hfront := emailLike_blank xs []
    rw [show emailLike [] = false from rfl, Bool.or_false] at hfront
    rw [List.append_assoc, List.append_assoc, List.singleton_append, emailLike_blank, hend, hfront]

/-- Every word of a keyword has a letter that no amount has. -/
theorem sensitiveDataKeywords_words {phrase : String} (h : phrase ∈ sensitiveDataKeywords) :
    ∀ w ∈ phrase.toList.splitOn ' ', ∃ c ∈ w, ¬AmountLetter c := by
  have hall : (sensitiveDataKeywords.all fun phrase => (phrase.toList.splitOn ' ').all fun w =>
      w.any fun c => !decide (AmountLetter c)) = true := by decide +kernel
  intro w hw
  obtain ⟨c, hc, hletter⟩ := List.any_eq_true.1 (List.all_eq_true.1 (List.all_eq_true.1 hall phrase h) w hw)
  exact ⟨c, hc, by simpa using hletter⟩

/-- Neither the keywords nor the addresses found depend on the word between. -/
theorem search_between {before after word word' : List Char} (hopens : Opens ' ' before)
    (hcloses : Closes ' ' after) (hword : ∀ c ∈ word, AmountLetter c) (hword' : ∀ c ∈ word', AmountLetter c) :
    (∀ phrase ∈ sensitiveDataKeywords, phrase.toList <:+: before ++ word ++ after ↔
      phrase.toList <:+: before ++ word' ++ after) ∧
    emailLike (before ++ word ++ after) = emailLike (before ++ word' ++ after) := by
  have hblank : ¬AmountLetter ' ' := by decide
  have hat {w : List Char} (h : ∀ c ∈ w, AmountLetter c) : '@' ∉ w := fun hmem => (h _ hmem).2.1 rfl
  refine ⟨fun phrase hphrase => ?_, ?_⟩
  · have hwords := sensitiveDataKeywords_words hphrase
    rw [infix_between hblank hwords hopens hcloses hword, infix_between hblank hwords hopens hcloses hword']
  · rw [emailLike_between hopens hcloses (hat hword), emailLike_between hopens hcloses (hat hword')]

end Searching

end SafeOps
