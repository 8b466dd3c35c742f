import FlaskXxlJob.Python.Str
import Mathlib.Data.Int.Notation

/-! The decimal texts `int` accepts. -/
namespace Python

/-- The zeros of the decimal digit blocks of Unicode 15. -/
def zeros : List ℕ :=
  [0x30, 0x660, 0x6f0, 0x7c0, 0x966, 0x9e6, 0xa66, 0xae6, 0xb66, 0xbe6, 0xc66, 0xce6, 0xd66, 0xde6,
    0xe50, 0xed0, 0xf20, 0x1040, 0x1090, 0x17e0, 0x1810, 0x1946, 0x19d0, 0x1a80, 0x1a90, 0x1b50,
    0x1bb0, 0x1c40, 0x1c50, 0xa620, 0xa8d0, 0xa900, 0xa9d0, 0xa9f0, 0xaa50, 0xabf0, 0xff10, 0x104a0,
    0x10d30, 0x11066, 0x110f0, 0x11136, 0x111d0, 0x112f0, 0x11450, 0x114d0, 0x11650, 0x116c0,
    0x11730, 0x118e0, 0x11950, 0x11c50, 0x11d50, 0x11da0, 0x11f50, 0x16a60, 0x16ac0, 0x16b50,
    0x1d7ce, 0x1d7d8, 0x1d7e2, 0x1d7ec, 0x1d7f6, 0x1e140, 0x1e2f0, 0x1e4f0, 0x1e950, 0x1fbf0]

def decimal (c : Char) : Option ℕ :=
  (zeros.find? fun z => z ≤ c.toNat && c.toNat < z + 10).map (c.toNat - ·)

/-- Digits with at most one underscore between two of them. -/
def readDigits : List Char → Option (List ℕ)
  | [] => none
  | [c] => (decimal c).map ([·])
  | c :: '_' :: rest => do
    let d ← decimal c
    let ds ← readDigits rest
    return d :: ds
  | c :: rest => do
    let d ← decimal c
    let ds ← readDigits rest
    return d :: ds

/-- The default of `sys.get_int_max_str_digits()`. -/
def maxStrDigits : ℕ := 4300

/-- `int(text)` with `none` for a `ValueError`, applied to text that is stripped already: `strip`
removes U+001C to U+001F as well, which `int` rejects. -/
def parseInt (text : String) : Option ℤ :=
  let (negative,body) := match (strip text).toList with
    | '-' :: cs => (true,cs)
    | '+' :: cs => (false,cs)
    | cs => (false,cs)
  match readDigits body with
  | none => none
  | some ds =>
    if maxStrDigits < ds.length then none
    else
      let n : ℤ := ds.foldl (fun n d => 10 * n + d) 0
      some (if negative then -n else n)

example : ["12"," +1_0\t","-007","1__0","1_","+ 1",""].map parseInt =
    [some 12,some 10,some (-7),none,none,none,none] := by decide

end Python
