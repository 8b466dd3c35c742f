import FlaskXxlJob.Python.Value
import FlaskXxlJob.Streaming.Reader

/-!
Executor request-body parsing. The body is read from its stream with one byte more than the
limit, so that an oversized body is noticed without being buffered.
-/
namespace FlaskXxlJob.Protocol
open Python Streaming

inductive RequestParseError where
  | oversized
  | empty
  | invalidJson (exceptionType : String)
  | notObject
  deriving DecidableEq

def RequestParseError.message : RequestParseError → String
  | oversized => "request body exceeds the maximum allowed size"
  | empty => "request body is empty"
  | invalidJson exceptionType => "invalid JSON request body: " ++ exceptionType
  | notObject => "request body must be a JSON object"

variable {σ τ : Type*}

/-- The outcome of `_read_limited_body` and what it did with the stream. -/
def readLimitedBody (R : Reader UInt8 σ) (stream : σ) (contentLength : Option ℤ)
    (maxRequestSize : ℕ) : Except RequestParseError (List UInt8) × Reading UInt8 σ :=
  if contentLength.any (fun n => (maxRequestSize : ℤ) < n) then
    (.error .oversized,.nothing stream)
  else
    let reading := R.readUpTo stream (maxRequestSize + 1)
    if maxRequestSize < reading.bytes.length then (.error .oversized,reading)
    else (.ok reading.bytes,reading)

/-- How `json.loads` ends on a text: a value, a `ValueError` or another `Exception`. -/
inductive Loads where
  | value (v : Value)
  | valueError (exceptionType : String)
  | raised (exceptionType : String)

/-- What leaves `parse_json_object`: its own error, or an `Exception` it does not catch. -/
inductive ParseFailure where
  | parseError (e : RequestParseError)
  | raised (exceptionType : String)
  deriving DecidableEq

def decodeUtf8 (rawBody : List UInt8) : Option String :=
  String.fromUTF8? ⟨rawBody.toArray⟩

def parseJsonObject (loads : String → Loads) (rawBody : List UInt8) (maxRequestSize : ℕ) :
    Except ParseFailure (List (String × Value)) :=
  if rawBody = [] then .error (.parseError .empty)
  else if maxRequestSize < rawBody.length then .error (.parseError .oversized)
  else
    match decodeUtf8 rawBody with
    | none => .error (.parseError (.invalidJson "UnicodeDecodeError"))
    | some text =>
      match loads text with
      | .valueError exceptionType => .error (.parseError (.invalidJson exceptionType))
      | .raised exceptionType => .error (.raised exceptionType)
      | .value (.dict data) => .ok data
      | .value _ => .error (.parseError .notObject)

/-- `check_param_length`, with `None` for no error. -/
def checkParamLength (data : List (String × Value)) (maxParamLength : ℕ) : Option String :=
  match get data "executorParams" with
  | .str params =>
    if maxParamLength < params.length then
      some "executorParams exceeds the maximum allowed length"
    else none
  | _ => none

/-! ### Reading -/

variable (R : Reader UInt8 σ) (stream : σ) (contentLength : Option ℤ) (maxRequestSize : ℕ)

theorem readLimitedBody_declared
    (h : contentLength.any (fun n => (maxRequestSize : ℤ) < n) = true) :
    readLimitedBody R stream contentLength maxRequestSize =
      (.error .oversized,.nothing stream) := if_pos h

theorem readLimitedBody_undeclared
    (h : ¬ contentLength.any (fun n => (maxRequestSize : ℤ) < n) = true) :
    readLimitedBody R stream contentLength maxRequestSize =
      (if maxRequestSize < (R.left stream).length then .error .oversized
        else .ok (R.left stream),R.readUpTo stream (maxRequestSize + 1)) := by
  have hbytes := (R.readUpTo_exact stream (maxRequestSize + 1)).1
  unfold readLimitedBody
  rw [if_neg h]
  simp only [hbytes, List.length_take]
  by_cases hlen : maxRequestSize < (R.left stream).length
  · rw [if_pos (by omega), if_pos hlen]
  · rw [if_neg (by omega), if_neg hlen, List.take_of_length_le (by omega)]

/-- The reads of one call, whatever its outcome. -/
theorem readLimitedBody_reading (r : Reading UInt8 σ)
    (hr : r = (readLimitedBody R stream contentLength maxRequestSize).2) :
    r.asked.length ≤ maxRequestSize + 1 ∧ r.WithinBudget (maxRequestSize + 1) ∧
    r.bytes.length ≤ maxRequestSize + 1 ∧ r.bytes ++ R.left r.stream = R.left stream := by
  by_cases h : contentLength.any (fun n => (maxRequestSize : ℤ) < n) = true
  · rw [readLimitedBody_declared R stream contentLength maxRequestSize h] at hr
    subst hr
    exact ⟨by simp [Reading.nothing],Reading.nothing_withinBudget _ _,
      by simp [Reading.nothing, Reading.bytes],rfl⟩
  · rw [readLimitedBody_undeclared R stream contentLength maxRequestSize h] at hr
    subst hr
    obtain ⟨hbytes,hleft⟩ := R.readUpTo_exact stream (maxRequestSize + 1)
    refine ⟨R.readUpTo_reads _ _,R.readUpTo_withinBudget _ _,?_,?_⟩
    · rw [hbytes]
      exact List.length_take_le _ _
    · rw [hbytes, hleft, List.take_append_drop]

theorem readLimitedBody_outcome_congr (R' : Reader UInt8 τ) (stream' : τ)
    (h : R'.left stream' = R.left stream) :
    (readLimitedBody R' stream' contentLength maxRequestSize).1 =
      (readLimitedBody R stream contentLength maxRequestSize).1 := by
  by_cases hd : contentLength.any (fun n => (maxRequestSize : ℤ) < n) = true
  · rw [readLimitedBody_declared R' _ _ _ hd, readLimitedBody_declared R _ _ _ hd]
  · rw [readLimitedBody_undeclared R' _ _ _ hd, readLimitedBody_undeclared R _ _ _ hd, h]

theorem readLimitedBody_ok_iff (body : List UInt8) :
    (readLimitedBody R stream contentLength maxRequestSize).1 = .ok body ↔
      body = R.left stream ∧ (∀ n, contentLength = some n → n ≤ maxRequestSize) ∧
      body.length ≤ maxRequestSize := by
  by_cases hd : contentLength.any (fun n => (maxRequestSize : ℤ) < n) = true
  · rw [readLimitedBody_declared R _ _ _ hd]
    refine iff_of_false (by simp) ?_
    rintro ⟨-,hle,-⟩
    cases contentLength with
    | none => simp at hd
    | some n =>
      have hn : (maxRequestSize : ℤ) < n := by simpa using hd
      have := hle n rfl
      omega
  · have hle : ∀ n, contentLength = some n → n ≤ (maxRequestSize : ℤ) := by
      rintro n rfl
      simpa using hd
    rw [readLimitedBody_undeclared R _ _ _ hd]
    by_cases hlen : maxRequestSize < (R.left stream).length
    · rw [if_pos hlen]
      refine iff_of_false (by simp) ?_
      rintro ⟨rfl,-,hlen'⟩
      omega
    · rw [if_neg hlen]
      constructor
      · rintro h
        cases h
        exact ⟨rfl,hle,by omega⟩
      · rintro ⟨rfl,-,-⟩
        rfl

theorem parseJsonObject_ne_oversized (loads : String → Loads) {body : List UInt8}
    (h : body.length ≤ maxRequestSize) :
    parseJsonObject loads body maxRequestSize ≠ .error (.parseError .oversized) := by
  unfold parseJsonObject
  rw [if_neg (show ¬ maxRequestSize < body.length by omega)]
  split
  · simp
  · split
    · simp
    · split <;> simp

/-- A bounded read is within its budget, and its outcome is decided by the declared length and
the body alone. -/
theorem read_limited_body_exact (R' : Reader UInt8 τ) (stream' : τ) :
    ∃ outcome reading,
      readLimitedBody R stream contentLength maxRequestSize = (outcome,reading) ∧
      reading.asked.length ≤ maxRequestSize + 1 ∧
      reading.WithinBudget (maxRequestSize + 1) ∧
      reading.bytes.length ≤ maxRequestSize + 1 ∧
      reading.bytes ++ R.left reading.stream = R.left stream ∧
      ((∃ n, contentLength = some n ∧ maxRequestSize < n) →
        outcome = .error .oversized ∧ reading = .nothing stream) ∧
      ((¬ ∃ n, contentLength = some n ∧ maxRequestSize < n) →
        (maxRequestSize < (R.left stream).length → outcome = .error .oversized) ∧
        ((R.left stream).length ≤ maxRequestSize → outcome = .ok (R.left stream))) ∧
      (R'.left stream' = R.left stream →
        (readLimitedBody R' stream' contentLength maxRequestSize).1 = outcome) ∧
      ∀ raw, outcome = .ok raw → ∀ loads,
        parseJsonObject loads raw maxRequestSize ≠ .error (.parseError .oversized) := by
  have hdeclared : (∃ n, contentLength = some n ∧ (maxRequestSize : ℤ) < n) ↔
      contentLength.any (fun n => (maxRequestSize : ℤ) < n) = true := by
    cases contentLength <;> simp
  obtain ⟨hreads,hbudget,hconsumed,hrest⟩ :=
    readLimitedBody_reading R stream contentLength maxRequestSize _ rfl
  refine ⟨(readLimitedBody R stream contentLength maxRequestSize).1,
    (readLimitedBody R stream contentLength maxRequestSize).2,rfl,hreads,hbudget,hconsumed,hrest,
    fun h => ?_,fun h => ?_,fun h => ?_,fun raw hraw loads => ?_⟩
  · rw [readLimitedBody_declared R _ _ _ (hdeclared.mp h)]
    exact ⟨rfl,rfl⟩
  · rw [hdeclared] at h
    rw [readLimitedBody_undeclared R stream contentLength _ h]
    exact ⟨fun hlen => if_pos hlen,fun hlen => if_neg (by omega)⟩
  · exact readLimitedBody_outcome_congr R stream contentLength maxRequestSize R' stream' h
  · exact parseJsonObject_ne_oversized maxRequestSize loads
      ((readLimitedBody_ok_iff R stream contentLength maxRequestSize raw).mp hraw).2.2

end FlaskXxlJob.Protocol
