import FlaskXxlJob.Config.Settings
import FlaskXxlJob.Python.Str

/-! The checks of single configuration values. -/
namespace FlaskXxlJob.Config
open Python

/-- An `XXLJobConfigError`, or an exception that no check handles. -/
inductive Raised where
  | configError (message : String)
  | other (errorType : String)
  deriving DecidableEq

abbrev Checked := Except Raised

def fail {α : Type} (message : String) : Checked α := .error (.configError message)

/-- A library call returns, raises what its caller handles, or raises something else. -/
inductive LibraryCall (α : Type) where
  | returned (a : α)
  | handled
  | raised (errorType : String)

structure SplitResult where
  scheme : String
  hostname : Option String
  port : Option ℕ
  username : Option String
  password : Option String
  query : String
  fragment : String

/-- The library functions a configuration is checked with. -/
structure Library where
  repr : String → String
  reprFloat : Double → String
  upper : String → String
  lower : String → String
  /-- `float(i)`, which overflows on large integers. -/
  floatOfInt : ℤ → Option Double
  isDigit : Char → Bool
  isAlnum : Char → Bool
  /-- Handled: `ValueError`. -/
  urlsplit : String → LibraryCall SplitResult
  /-- `ipaddress.ip_address` accepts the host. -/
  isIpAddress : String → Bool
  /-- `encode("idna")`, with `none` for a `UnicodeError`. -/
  encodeIdna : String → Option String
  /-- `codecs.lookup`. Handled: `LookupError`. -/
  lookupCodec : String → LibraryCall Unit
  /-- Building the formatter and formatting a record. Handled: `KeyError`, `TypeError` and
  `ValueError`. -/
  formatRecord : String → Option String → LibraryCall Unit

variable (lib : Library) (config : List (String × Value)) (key : String)

def asBool : Checked Bool :=
  match get config key with
  | .bool b => .ok b
  | value => fail s!"{key} must be a boolean (True/False); got type {value.typeName}."

def asStrStrict : Checked String :=
  match get config key with
  | .str s => .ok s
  | value => fail s!"{key} must be a string; got type {value.typeName}."

def asStr : Checked String :=
  match get config key with
  | .none => .ok ""
  | _ => asStrStrict config key

def asNonEmptyStr : Checked String := do
  let value ← asStr config key
  if value = "" then fail s!"{key} must be a non-empty string."
  else return value

def asChoice (allowed : List String) (upper : Bool) : Checked String := do
  let value ← asStr config key
  let normalized := if upper then lib.upper value else lib.lower value
  if normalized ∈ allowed then return normalized
  else
    let expected := " or ".intercalate ((allowed.mergeSort (· ≤ ·)).map lib.repr)
    let shown := lib.repr value
    fail s!"Invalid {key} value {shown}; expected {expected}."

def asStrItems : List Value → Checked (List String)
  | [] => .ok []
  | .str s :: items => (s :: ·) <$> asStrItems items
  | item :: _ =>
    fail (s!"{key} must be a list of non-empty strings; found a list " ++
      s!"item of type {item.typeName}.")

/-- Empty items are dropped. A tuple reads like a list. -/
def asStrList : Checked (List String) := do
  let items ← match get config key with
    | .str s => .ok (split ',' s)
    | .list items => asStrItems key items
    | value =>
      fail (s!"{key} must be a list of strings or a comma-separated string; got " ++
        s!"type {value.typeName}.")
  return items.filter (· ≠ "")

/-- An integer that is not below `least`. -/
def asIntFrom (least : ℤ) (kind bound : String) : Checked ℤ :=
  match get config key with
  | .int i =>
    if i < least then fail s!"{key} must be a {kind} integer ({bound}); got value {i}."
    else .ok i
  | value => fail s!"{key} must be a {kind} integer; got type {value.typeName}."

def asPositiveInt : Checked ℤ := asIntFrom config key 1 "positive" "> 0"

def asNonNegativeInt : Checked ℤ := asIntFrom config key 0 "non-negative" ">= 0"

def asNonNegativeFloat : Checked Double :=
  match get config key with
  | .int i =>
    if i < 0 then fail s!"{key} must be a non-negative number (>= 0); got value {i}."
    else
      match lib.floatOfInt i with
      | some x => .ok x
      | none => .error (.other "OverflowError")
  | .float x =>
    let shown := lib.reprFloat x
    if x.lt (.finite 0) then fail s!"{key} must be a non-negative number (>= 0); got value {shown}."
    else .ok x
  | value => fail s!"{key} must be a non-negative number; got type {value.typeName}."

end FlaskXxlJob.Config
