import FlaskXxlJob.Python.Int
import FlaskXxlJob.Python.Value

/-! Protocol-model field coercion. -/
namespace FlaskXxlJob.Model
open Python

/-- The cases of `ModelParseError`. -/
inductive ModelParseError where
  | notString (field typeName : String)
  | boolean (field : String)
  | fractional (field : String)
  | nonNumeric (field : String)
  | notInteger (field typeName : String)
  deriving DecidableEq

def ModelParseError.field : ModelParseError → String
  | notString field _ | boolean field | fractional field | nonNumeric field
  | notInteger field _ => field

def ModelParseError.message : ModelParseError → String
  | notString field typeName => "field '" ++ field ++ "' must be a string, got " ++ typeName
  | boolean field => "field '" ++ field ++ "' must be an integer, got bool"
  | fractional field => "field '" ++ field ++ "' must be an integer, got a fractional number"
  | nonNumeric field => "field '" ++ field ++ "' must be an integer, got a non-numeric string"
  | notInteger field typeName => "field '" ++ field ++ "' must be an integer, got " ++ typeName

def coerceStr (value : Value) (field : String) (default : String) :
    Except ModelParseError String :=
  match value with
  | .none => .ok default
  | .str s => .ok s
  | v => .error (.notString field v.typeName)

def coerceInt (value : Value) (field : String) (default : ℤ) : Except ModelParseError ℤ :=
  match value with
  | .none => .ok default
  | .bool _ => .error (.boolean field)
  | .int i => .ok i
  | .float (.finite q) => if q.den = 1 then .ok q.num else .error (.fractional field)
  | .float _ => .error (.fractional field)
  | .str s =>
    if strip s = "" then .ok default
    else
      match parseInt (strip s) with
      | some i => .ok i
      | none => .error (.nonNumeric field)
  | v => .error (.notInteger field v.typeName)

/-- An error names the field that was checked. -/
theorem coerceStr_error_field {value : Value} {field default : String} {e : ModelParseError}
    (h : coerceStr value field default = .error e) : e.field = field := by
  unfold coerceStr at h
  split at h <;> cases h
  rfl

theorem coerceInt_error_field {value : Value} {field : String} {default : ℤ}
    {e : ModelParseError} (h : coerceInt value field default = .error e) : e.field = field := by
  unfold coerceInt at h
  split at h
  case h_4 =>
    split at h <;> cases h
    rfl
  case h_6 =>
    split at h
    · cases h
    · split at h <;> cases h
      rfl
  all_goals
    cases h
    try rfl

end FlaskXxlJob.Model
