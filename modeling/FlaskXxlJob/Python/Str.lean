import Mathlib.Data.List.DropRight
import Mathlib.Data.List.Infix

/-! Texts: blanks at the two ends, pieces between separators, and parts. -/
namespace Python

/-- `str.isspace` of one character. -/
def isSpace (c : Char) : Bool :=
  (9 ≤ c.toNat && c.toNat ≤ 13) || (28 ≤ c.toNat && c.toNat ≤ 32) || c.toNat == 0x85 ||
  c.toNat == 0xa0 || c.toNat == 0x1680 || (0x2000 ≤ c.toNat && c.toNat ≤ 0x200a) ||
  c.toNat == 0x2028 || c.toNat == 0x2029 || c.toNat == 0x202f || c.toNat == 0x205f ||
  c.toNat == 0x3000

/-- `s.lstrip()` by a predicate. -/
def lstripBy (p : Char → Bool) (s : String) : String := String.ofList (s.toList.dropWhile p)

/-- `s.rstrip()` by a predicate. -/
def rstripBy (p : Char → Bool) (s : String) : String := String.ofList (s.toList.rdropWhile p)

def strip (s : String) : String := rstripBy isSpace (lstripBy isSpace s)

/-- `s.split(sep)` -/
def split (sep : Char) (s : String) : List String := (s.toList.splitOn sep).map String.ofList

/-- `token in text` -/
def Contains (text token : String) : Prop := token.toList <:+: text.toList

instance (text token : String) : Decidable (Contains text token) :=
  inferInstanceAs (Decidable (token.toList <:+: text.toList))

end Python
