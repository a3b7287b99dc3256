import SafeOps.Model.Value
import Mathlib.Algebra.Group.Nat.Defs
import Mathlib.Data.List.Infix

/-! Python's text functions, as far as the services use them. -/

namespace SafeOps

/-- A finite `Decimal`. Numbers of one value may be written with different exponents. -/
structure FiniteDecimal where
  negative : Bool
  coefficient : Nat
  exponent : Int

def FiniteDecimal.value (d : FiniteDecimal) : Rat :=
  let size : Rat := match d.exponent with
    | .ofNat n => ((d.coefficient * 10 ^ n : Nat) : Rat)
    | .negSucc n => d.coefficient / ((10 ^ (n + 1) : Nat) : Rat)
  if d.negative then -size else size

/-- A `Decimal`; a NaN has a sign, a kind and a payload, which its text shows. -/
inductive PyDecimal
  | finite (d : FiniteDecimal)
  | infinity (negative : Bool)
  | nan (text : String)

/-- `amount <= threshold`, which raises for a NaN. -/
def PyDecimal.atMost (threshold : Rat) : PyDecimal → Except Unit Bool
  | finite d => .ok (decide (d.value ≤ threshold))
  | infinity negative => .ok negative
  | nan _ => .error ()

/-- What rests on the Unicode tables and on the syntax of numbers. -/
structure Text where
  lower : String → String
  upper : String → String
  /-- `str(v)` of a value that is no string. -/
  render : Value → String
  /-- `Decimal(text)`, unless it raises. -/
  decimal : String → Option PyDecimal
  /-- `str(amount)`. -/
  decimalText : PyDecimal → String

/-- `str.isspace` of one character, and `\s`. -/
def isSpace (c : Char) : Bool :=
  (9 ≤ c.toNat ∧ c.toNat ≤ 13) ∨ (28 ≤ c.toNat ∧ c.toNat ≤ 32) ∨ c.toNat = 0x85 ∨ c.toNat = 0xA0 ∨
    c.toNat = 0x1680 ∨ (0x2000 ≤ c.toNat ∧ c.toNat ≤ 0x200A) ∨ c.toNat = 0x2028 ∨ c.toNat = 0x2029 ∨
    c.toNat = 0x202F ∨ c.toNat = 0x205F ∨ c.toNat = 0x3000

/-- `re.sub(r"\s+", " ", text)`; the flag says that a blank has just been written. -/
def collapse : Bool → List Char → List Char
  | _, [] => []
  | blank, c :: text =>
    if isSpace c then
      if blank then collapse true text else ' ' :: collapse true text
    else c :: collapse false text

/-- `text.strip()`. -/
def strip (text : List Char) : List Char :=
  ((text.dropWhile isSpace).reverse.dropWhile isSpace).reverse

/-- `phrase in text`. -/
def within (phrase text : String) : Bool := decide (phrase.toList <:+: text.toList)

namespace Text

variable (text : Text)

def str : Value → String
  | .str s => s
  | v => text.render v

/-- `_normalize`. -/
def normalize (s : String) : String := text.lower (String.ofList (strip (collapse false s.toList)))

end Text
end SafeOps
