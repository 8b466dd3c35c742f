import Mathlib.Data.Rat.Defs
import Mathlib.Data.List.Defs
import Mathlib.Data.Int.Notation

/-! The values a dynamically typed program can be handed. -/
namespace Python

/-- A float: an exact value, or none. -/
inductive Double where
  | finite (q : ℚ)
  | inf
  | negInf
  | nan
  deriving DecidableEq

/-- `x < y`, never true of NaN. -/
def Double.lt : Double → Double → Bool
  | finite p,finite q => p < q
  | negInf,finite _ | negInf,inf | finite _,inf => true
  | _,_ => false

inductive Value where
  | none
  | bool (b : Bool)
  | int (i : ℤ)
  | float (x : Double)
  | str (s : String)
  | list (items : List Value)
  | dict (items : List (String × Value))
  | other (typeName : String)

namespace Value

/-- `type(value).__name__` -/
def typeName : Value → String
  | none => "NoneType"
  | bool _ => "bool"
  | int _ => "int"
  | float _ => "float"
  | str _ => "str"
  | list _ => "list"
  | dict _ => "dict"
  | other name => name

end Value

/-- `items.get(key)`, where a missing key reads as `None`. -/
def get (items : List (String × Value)) (key : String) : Value :=
  (items.lookup key).getD .none

end Python
