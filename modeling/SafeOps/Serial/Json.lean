import SafeOps.Serial.Codes

/-! JSON data and its compact text with all non-ASCII letters escaped, as `json.dumps` writes it. The
text determines the data. -/

namespace SafeOps.Serial

/-- JSON data whose floating-point numbers are taken from `φ`. -/
inductive Json (φ : Type)
  | null
  | bool (b : Bool)
  | int (n : Int)
  | float (x : φ)
  | str (s : String)
  | list (xs : List (Json φ))
  | obj (entries : List (String × Json φ))

section Strings

/-- Four hexadecimal digits, as `{0:04x}` formats a number below `2 ^ 16`. -/
def hex4 (n : Nat) : List Char :=
  [n / 4096 % 16, n / 256 % 16, n / 16 % 16, n % 16].map Nat.digitChar

/-- One UTF-16 code unit as `\uXXXX`. -/
def escapeUnit (n : Nat) : List Char := '\\' :: 'u' :: hex4 n

/-- `ESCAPE_DCT`: the letter after the backslash of a short escape. -/
def shortEscape : Char → Option Char
  | '\\' => some '\\'
  | '"' => some '"'
  | '\x08' => some 'b'
  | '\x0c' => some 'f'
  | '\n' => some 'n'
  | '\r' => some 'r'
  | '\t' => some 't'
  | _ => none

/-- `py_encode_basestring_ascii` on one letter. -/
def escapeChar (c : Char) : List Char :=
  match shortEscape c with
  | some d => ['\\', d]
  | none =>
    if 32 ≤ c.toNat ∧ c.toNat ≤ 126 then [c]
    else if c.toNat < 65536 then escapeUnit c.toNat
    else
      -- a surrogate pair
      let v := c.toNat - 65536
      escapeUnit (55296 + v / 1024) ++ escapeUnit (56320 + v % 1024)

def stringText (s : String) : List Char := '"' :: terminated '"' escapeChar s.toList

theorem digitChar_injOn : ∀ m < 16, ∀ n < 16, m.digitChar = n.digitChar → m = n := by decide

theorem hex4_injOn {m n : Nat} (hm : m < 65536) (hn : n < 65536) (h : hex4 m = hex4 n) : m = n := by
  have digit (a b : Nat) : (a % 16).digitChar = (b % 16).digitChar → a % 16 = b % 16 :=
    digitChar_injOn _ (Nat.mod_lt _ (by decide)) _ (Nat.mod_lt _ (by decide))
  simp only [hex4, List.map_cons, List.map_nil, List.cons.injEq] at h
  have h₁ := digit _ _ h.1
  have h₂ := digit _ _ h.2.1
  have h₃ := digit _ _ h.2.2.1
  have h₄ := digit _ _ h.2.2.2.1
  omega

theorem escapeUnit_append {m n : Nat} (hm : m < 65536) (hn : n < 65536) {s t : List Char}
    (h : escapeUnit m ++ s = escapeUnit n ++ t) : m = n ∧ s = t := by
  obtain ⟨hunit, hrest⟩ := List.append_inj h (by simp [escapeUnit, hex4])
  exact ⟨hex4_injOn hm hn (List.cons.inj (List.cons.inj hunit).2).2, hrest⟩

theorem shortEscape_inj {c c' d : Char} (h : shortEscape c = some d) (h' : shortEscape c' = some d) :
    c = c' := by
  unfold shortEscape at h
  split at h <;> cases h <;> unfold shortEscape at h' <;> split at h' <;> first | rfl | simp at h'

theorem shortEscape_ne_unit (c : Char) : shortEscape c ≠ some 'u' := by
  unfold shortEscape
  split <;> decide

/-- What the escape of a letter looks like: the letter itself, a short escape, one code unit or two. -/
inductive Escape : Char → List Char → Prop
  | plain (c : Char) : shortEscape c = none → Escape c [c]
  | short (c d : Char) : shortEscape c = some d → Escape c ['\\', d]
  | unit (c : Char) : c.toNat < 65536 → Escape c (escapeUnit c.toNat)
  | pair (c : Char) : 65536 ≤ c.toNat → Escape c
      (escapeUnit (55296 + (c.toNat - 65536) / 1024) ++ escapeUnit (56320 + (c.toNat - 65536) % 1024))

theorem escapeChar_escape (c : Char) : Escape c (escapeChar c) := by
  unfold escapeChar
  split
  · exact .short c _ ‹_›
  · split
    · exact .plain c ‹_›
    · split
      · exact .unit c ‹_›
      · exact .pair c (by omega)

/-- No letter is a surrogate. -/
theorem toNat_valid (c : Char) : c.toNat < 55296 ∨ 57343 < c.toNat ∧ c.toNat < 1114112 := c.valid

theorem Escape.unique {c d : Char} {u v s t : List Char} (hc : Escape c u) (hd : Escape d v)
    (h : u ++ s = v ++ t) : c = d ∧ s = t := by
  have backslash {c : Char} (hc : shortEscape c = none) : c ≠ '\\' := by
    rintro rfl
    cases hc
  have unit {c e : Char} (hc : shortEscape c = some e) : e ≠ 'u' := by
    rintro rfl
    exact shortEscape_ne_unit c hc
  have hvalid := toNat_valid c
  have hvalid' := toNat_valid d
  cases hc with
  | plain hc =>
    cases hd with
    | plain => exact List.cons.inj h
    | short | unit | pair => exact absurd (List.cons.inj h).1 (backslash hc)
  | short e hc =>
    cases hd with
    | plain hd => exact absurd (List.cons.inj h).1.symm (backslash hd)
    | short e' hd =>
      obtain ⟨rfl, hrest⟩ := List.cons.inj (List.cons.inj h).2
      exact ⟨shortEscape_inj hc hd, hrest⟩
    | unit | pair => exact absurd (List.cons.inj (List.cons.inj h).2).1 (unit hc)
  | unit hn =>
    cases hd with
    | plain hd => exact absurd (List.cons.inj h).1.symm (backslash hd)
    | short e' hd => exact absurd (List.cons.inj (List.cons.inj h).2).1.symm (unit hd)
    | unit hn' =>
      obtain ⟨he, hrest⟩ := escapeUnit_append hn hn' h
      exact ⟨Char.toNat_inj.1 he, hrest⟩
    | pair =>
      rw [List.append_assoc] at h
      obtain ⟨he, _⟩ := escapeUnit_append hn (by omega) h
      omega
  | pair hn =>
    rw [List.append_assoc] at h
    cases hd with
    | plain hd => exact absurd (List.cons.inj h).1.symm (backslash hd)
    | short e' hd => exact absurd (List.cons.inj (List.cons.inj h).2).1.symm (unit hd)
    | unit hn' =>
      obtain ⟨he, _⟩ := escapeUnit_append (by omega) hn' h
      omega
    | pair =>
      rw [List.append_assoc] at h
      obtain ⟨hhigh, h⟩ := escapeUnit_append (by omega) (by omega) h
      obtain ⟨hlow, hrest⟩ := escapeUnit_append (by omega) (by omega) h
      exact ⟨Char.toNat_inj.1 (by omega), hrest⟩

theorem readable_escapeChar (stop : List Char → Prop) (c : Char) : Readable stop escapeChar c :=
  fun d _ _ _ _ h => (escapeChar_escape c).unique (escapeChar_escape d) h

theorem escapeChar_avoids : Avoids '"' escapeChar := by
  intro c s t h
  rcases escapeChar_escape c with hc
  generalize escapeChar c = u at hc h
  cases hc with
  | plain hc =>
    obtain ⟨rfl, _⟩ := List.cons.inj h
    cases hc
  | short | unit | pair => cases (List.cons.inj h).1

theorem readable_stringText (stop : List Char → Prop) (s : String) : Readable stop stringText s := by
  intro s' u v _ _ h
  have hseq : Readable (fun _ => True) (terminated '"' escapeChar) s.toList :=
    readable_terminated escapeChar_avoids (fun _ _ => trivial) fun c _ => readable_escapeChar (fun _ => True) c
  obtain ⟨hs, hrest⟩ := hseq s'.toList u v trivial trivial (List.cons.inj h).2
  exact ⟨String.toList_inj.1 hs, hrest⟩

end Strings

section Numbers

/-- The letters of a number. -/
def Numeric (c : Char) : Prop := c.isDigit = true ∨ c ∈ ['-', '+', '.', 'e']

instance : DecidablePred Numeric := fun _ => inferInstanceAs (Decidable (_ ∨ _))

def intText (n : Int) : List Char := (toString n).toList

theorem intText_ofNat (n : Nat) : intText n = Nat.toDigits 10 n := by
  rw [intText, Int.toString_eq_repr, Int.repr_eq_if, if_pos (Int.natCast_nonneg n), Int.toNat_natCast,
    Nat.toList_repr]

theorem intText_negSucc (n : Nat) : intText (.negSucc n) = '-' :: Nat.toDigits 10 (n + 1) := by
  rw [intText, Int.toString_eq_repr, Int.repr_eq_if, if_neg (by simp), String.toList_append,
    Int.neg_negSucc, Int.toNat_natCast, Nat.toList_repr]
  rfl

theorem toDigits_inj {m n : Nat} (h : Nat.toDigits 10 m = Nat.toDigits 10 n) : m = n := by
  rw [← Nat.ofDigitChars_ten_toDigits (n := m), h, Nat.ofDigitChars_ten_toDigits]

theorem toDigits_digits {n : Nat} {c : Char} (hc : c ∈ Nat.toDigits 10 n) : c.isDigit = true :=
  Nat.isDigit_of_mem_toDigits (by decide) (by decide) hc

theorem intText_injective : Function.Injective intText := by
  have signed {m n : Nat} : Nat.toDigits 10 m ≠ '-' :: Nat.toDigits 10 n := by
    intro h
    have := toDigits_digits (n := m) (c := '-') (by simp [h])
    cases this
  intro m n h
  rcases m with m | m <;> rcases n with n | n <;>
    simp only [Int.ofNat_eq_natCast, intText_ofNat, intText_negSucc] at h
  · rw [toDigits_inj h]
  · exact absurd h signed
  · exact absurd h.symm signed
  · rw [Nat.succ.inj (toDigits_inj (List.cons.inj h).2)]

theorem intText_digits (n : Int) : ∀ c ∈ intText n, c.isDigit = true ∨ c = '-' := by
  intro c hc
  rcases n with n | n
  · exact .inl (toDigits_digits (intText_ofNat n ▸ hc))
  · rw [intText_negSucc] at hc
    rcases List.mem_cons.1 hc with rfl | hc
    · exact .inr rfl
    · exact .inl (toDigits_digits hc)

theorem intText_numeric (n : Int) : ∀ c ∈ intText n, Numeric c := by
  intro c hc
  rcases intText_digits n c hc with hdigit | rfl
  · exact .inl hdigit
  · exact .inr (by simp)

theorem intText_ne_nil (n : Int) : intText n ≠ [] := by
  rcases n with n | n
  · rw [Int.ofNat_eq_natCast, intText_ofNat]
    exact Nat.toDigits_ne_nil
  · rw [intText_negSucc]
    exact List.cons_ne_nil _ _

end Numbers

/-- A rendering of floating-point numbers that tells them apart, from each other and from integers. -/
structure FloatText {φ : Type} (repr : φ → String) : Prop where
  injective : Function.Injective repr
  notInt : ∀ x n, repr x ≠ toString (n : Int)
  numeric : ∀ x, ∀ c ∈ (repr x).toList, Numeric c
  nonempty : ∀ x, repr x ≠ ""

namespace Json

variable {φ : Type} (repr : φ → String)

mutual

/-- `json.dumps(value, separators=(",", ":"))`. -/
def text : Json φ → List Char
  | null => ['n', 'u', 'l', 'l']
  | bool true => ['t', 'r', 'u', 'e']
  | bool false => ['f', 'a', 'l', 's', 'e']
  | int n => intText n
  | float x => (repr x).toList
  | str s => stringText s
  | list xs => '[' :: (itemsText xs ++ [']'])
  | obj entries => '{' :: (entriesText entries ++ ['}'])

def itemsText : List (Json φ) → List Char
  | [] => []
  | [x] => x.text
  | x :: y :: xs => x.text ++ ',' :: itemsText (y :: xs)

def entriesText : List (String × Json φ) → List Char
  | [] => []
  | [(key, x)] => stringText key ++ ':' :: x.text
  | (key, x) :: e :: entries => (stringText key ++ ':' :: x.text) ++ ',' :: entriesText (e :: entries)

end

/-- `"key":value`. -/
def entryText (e : String × Json φ) : List Char := stringText e.1 ++ ':' :: e.2.text repr

theorem itemsText_eq (xs : List (Json φ)) : itemsText repr xs = separated ',' (text repr) xs := by
  induction xs with
  | nil => rfl
  | cons x xs ih =>
    cases xs with
    | nil => rfl
    | cons y xs => exact congrArg (fun u => x.text repr ++ ',' :: u) ih

theorem entriesText_eq (entries : List (String × Json φ)) :
    entriesText repr entries = separated ',' (entryText repr) entries := by
  induction entries with
  | nil => rfl
  | cons e entries ih =>
    cases entries with
    | nil => rfl
    | cons e' entries => exact congrArg (fun u => entryText repr e ++ ',' :: u) ih

/-- Before a letter that no number has, the text of the value determines it. -/
abbrev Read (v : Json φ) : Prop := Readable (Ends Numeric) (text repr) v

/-- The kinds of JSON data that the first letter tells apart. -/
inductive Kind
  | null | bool (b : Bool) | number | str | list | obj

def kind : Json φ → Kind
  | null => .null
  | bool b => .bool b
  | int _ | float _ => .number
  | str _ => .str
  | list _ => .list
  | obj _ => .obj

def leadKind : Char → Kind
  | 'n' => .null
  | 't' => .bool true
  | 'f' => .bool false
  | '"' => .str
  | '[' => .list
  | '{' => .obj
  | _ => .number

variable {repr}

theorem leadKind_numeric {c : Char} (h : Numeric c) : leadKind c = .number := by
  unfold leadKind
  split <;> first | rfl | exact absurd h (by decide)

theorem run_kind {u : List Char} (hne : u ≠ []) (hu : ∀ c ∈ u, Numeric c) :
    ∃ c r, u = c :: r ∧ leadKind c = .number := by
  obtain ⟨c, r, rfl⟩ := List.exists_cons_of_ne_nil hne
  exact ⟨c, r, rfl, leadKind_numeric (hu c List.mem_cons_self)⟩

section Reading

variable (hrepr : FloatText repr)
include hrepr

theorem text_kind (v : Json φ) : ∃ c r, v.text repr = c :: r ∧ leadKind c = v.kind := by
  cases v with
  | bool b => cases b <;> exact ⟨_, _, rfl, rfl⟩
  | int n => exact run_kind (intText_ne_nil n) (intText_numeric n)
  | float x => exact run_kind (mt String.toList_eq_nil_iff.1 (hrepr.nonempty x)) (hrepr.numeric x)
  | _ => exact ⟨_, _, rfl, rfl⟩

theorem kind_eq {v w : Json φ} {s t : List Char} (h : v.text repr ++ s = w.text repr ++ t) :
    v.kind = w.kind := by
  obtain ⟨c, r, hv, hc⟩ := text_kind hrepr v
  obtain ⟨d, r', hw, hd⟩ := text_kind hrepr w
  rw [hv, hw] at h
  obtain rfl := (List.cons.inj h).1
  exact hc.symm.trans hd

theorem text_avoids {c : Char} (hc : leadKind c = .number) (hn : ¬Numeric c) : Avoids c (text repr) := by
  intro v s t h
  obtain ⟨d, r, hv, hd⟩ := text_kind hrepr v
  rw [hv] at h
  obtain rfl := (List.cons.inj h).1
  cases v with
  | int n =>
    have hv : intText n = d :: r := hv
    exact hn (intText_numeric n d (by simp [hv]))
  | float x =>
    have hv : (repr x).toList = d :: r := hv
    exact hn (hrepr.numeric x d (by simp [hv]))
  | _ => rw [hc] at hd; cases hd

theorem read_number {v w : Json φ} {s t : List Char} (hs : Ends Numeric s) (ht : Ends Numeric t)
    (hv : v.kind = .number) (hw : w.kind = .number) (h : v.text repr ++ s = w.text repr ++ t) :
    v = w ∧ s = t := by
  have numeric {v : Json φ} (hv : v.kind = .number) : ∀ c ∈ v.text repr, Numeric c := by
    cases v with
    | int n => exact intText_numeric n
    | float x => exact hrepr.numeric x
    | _ => cases hv
  obtain ⟨htext, hrest⟩ := run_unique (numeric hv) (numeric hw) hs ht h
  refine ⟨?_, hrest⟩
  cases v with
  | int n =>
    cases w with
    | int m => rw [intText_injective htext]
    | float x => exact absurd (String.toList_inj.1 htext).symm (hrepr.notInt x n)
    | _ => cases hw
  | float x =>
    cases w with
    | int n => exact absurd (String.toList_inj.1 htext) (hrepr.notInt x n)
    | float y => rw [hrepr.injective (String.toList_inj.1 htext)]
    | _ => cases hw
  | _ => cases hv

theorem read_list {xs : List (Json φ)} (hxs : ∀ x ∈ xs, Read repr x) : Read repr (list xs) := by
  intro w s t _ _ h
  have hk := kind_eq hrepr h
  cases w with
  | list ys =>
    have h : itemsText repr xs ++ [']'] ++ s = itemsText repr ys ++ [']'] ++ t := (List.cons.inj h).2
    rw [itemsText_eq, itemsText_eq] at h
    obtain ⟨rfl, hrest⟩ := readable_separated (by decide) (text_avoids hrepr rfl (by decide))
      (fun _ => ends_cons (by decide) _) (fun _ => ends_cons (by decide) _) hxs ys s t trivial trivial h
    exact ⟨rfl, hrest⟩
  | _ => cases hk

theorem read_obj {entries : List (String × Json φ)}
    (hentries : ∀ e ∈ entries, Readable (Ends Numeric) (entryText repr) e) : Read repr (obj entries) := by
  intro w s t _ _ h
  have hk := kind_eq hrepr h
  have avoids : Avoids '}' (entryText repr) := by
    intro e u v he
    cases (List.cons.inj he).1
  cases w with
  | obj others =>
    have h : entriesText repr entries ++ ['}'] ++ s = entriesText repr others ++ ['}'] ++ t :=
      (List.cons.inj h).2
    rw [entriesText_eq, entriesText_eq] at h
    obtain ⟨rfl, hrest⟩ := readable_separated (by decide) avoids (fun _ => ends_cons (by decide) _)
      (fun _ => ends_cons (by decide) _) hentries others s t trivial trivial h
    exact ⟨rfl, hrest⟩
  | _ => cases hk

theorem read_str (u : String) : Read repr (str u) := by
  intro w s t _ _ h
  have hk := kind_eq hrepr h
  cases w with
  | str v =>
    obtain ⟨rfl, hrest⟩ := readable_stringText (fun _ => True) u v s t trivial trivial h
    exact ⟨rfl, hrest⟩
  | _ => cases hk

theorem read_null : Read repr (null : Json φ) := by
  intro w s t _ _ h
  have hk := kind_eq hrepr h
  cases w with
  | null => exact ⟨rfl, List.append_cancel_left h⟩
  | _ => cases hk

theorem read_bool (b : Bool) : Read repr (bool b : Json φ) := by
  intro w s t _ _ h
  have hk := kind_eq hrepr h
  cases w with
  | bool b' =>
    obtain rfl : b = b' := Kind.bool.inj hk
    exact ⟨rfl, List.append_cancel_left h⟩
  | _ => cases hk

end Reading

mutual

theorem read (hrepr : FloatText repr) : ∀ v : Json φ, Read repr v
  | null => read_null hrepr
  | bool b => read_bool hrepr b
  | int _ | float _ => fun _ _ _ hs ht h => read_number hrepr hs ht rfl (kind_eq hrepr h).symm h
  | str s => read_str hrepr s
  | list xs => read_list hrepr (read_items hrepr xs)
  | obj entries => read_obj hrepr (read_entries hrepr entries)

theorem read_items (hrepr : FloatText repr) : ∀ xs : List (Json φ), ∀ x ∈ xs, Read repr x
  | [] => List.forall_mem_nil _
  | x :: xs => List.forall_mem_cons.2 ⟨read hrepr x, read_items hrepr xs⟩

theorem read_entries (hrepr : FloatText repr) : ∀ entries : List (String × Json φ), ∀ e ∈ entries,
    Readable (Ends Numeric) (entryText repr) e
  | [] => List.forall_mem_nil _
  | (key, x) :: entries => List.forall_mem_cons.2
    ⟨readable_pair (fun _ => trivial) (readable_stringText (fun _ => True) key) (read hrepr x),
      read_entries hrepr entries⟩

end

/-- The text of JSON data determines it. -/
theorem text_injective (hrepr : FloatText repr) : Function.Injective (text repr) :=
  fun v _ h => (read hrepr v).eq ends_nil h

end Json

end SafeOps.Serial
