import FlaskXxlJob.Protocol.Dispatch

/-!
The wire format of the requests: what the values of their fields stand for, which objects are
accepted as which request, and what a refusal names.
-/
namespace FlaskXxlJob.Model
open Python

/-! ### Writing -/

def TriggerRequest.toWire (r : TriggerRequest) : List (String × Value) := [
  ("jobId",.int r.jobId),
  ("executorHandler",.str r.executorHandler),
  ("executorParams",.str r.executorParams),
  ("executorBlockStrategy",.str r.executorBlockStrategy),
  ("executorTimeout",.int r.executorTimeout),
  ("logId",.int r.logId),
  ("logDateTime",.int r.logDateTime),
  ("glueType",.str r.glueType),
  ("glueSource",.str r.glueSource),
  ("glueUpdatetime",.int r.glueUpdateTime),
  ("broadcastIndex",.int r.broadcastIndex),
  ("broadcastTotal",.int r.broadcastTotal)]

def IdleBeatRequest.toWire (r : IdleBeatRequest) : List (String × Value) := [("jobId",.int r.jobId)]

def KillRequest.toWire (r : KillRequest) : List (String × Value) := [("jobId",.int r.jobId)]

def LogRequest.toWire (r : LogRequest) : List (String × Value) := [
  ("logDateTim",.int r.logDateTime),
  ("logId",.int r.logId),
  ("fromLineNum",.int r.fromLineNum)]

def Request.toWire : Request → List (String × Value)
  | trigger r => r.toWire
  | idleBeat r => r.toWire
  | kill r => r.toWire
  | log r => r.toWire

/-! ### Reading a value -/

/-- What a value of a request stands for: a number also as an integral float or as a text, and
nothing at all for the default. -/
inductive Stands : Value → Value → Prop
  | noNumber : Stands .none (.int 0)
  | noText : Stands .none (.str "")
  | number (i : ℤ) : Stands (.int i) (.int i)
  | text (s : String) : Stands (.str s) (.str s)
  | whole {q : ℚ} (h : q.den = 1) : Stands (.float (.finite q)) (.int q.num)
  | blank {s : String} (h : strip s = "") : Stands (.str s) (.int 0)
  | numeral {s : String} {i : ℤ} (hs : strip s ≠ "") (h : parseInt (strip s) = some i) :
      Stands (.str s) (.int i)

theorem coerceStr_ok_iff {v : Value} {field s : String} :
    coerceStr v field "" = .ok s ↔ Stands v (.str s) := by
  constructor
  · intro h
    unfold coerceStr at h
    split at h <;> cases h
    · exact .noText
    · exact .text s
  · intro h
    cases h <;> rfl

theorem coerceInt_ok_iff {v : Value} {field : String} {i : ℤ} :
    coerceInt v field 0 = .ok i ↔ Stands v (.int i) := by
  constructor
  · intro h
    unfold coerceInt at h
    split at h
    case h_4 =>
      split at h
      next hq =>
        cases h
        exact .whole hq
      · cases h
    case h_6 =>
      split at h
      next hs =>
        cases h
        exact .blank hs
      next hs =>
        split at h
        next hp =>
          cases h
          exact .numeral hs hp
        · cases h
    all_goals cases h
    · exact .noNumber
    · exact .number i
  · intro h
    cases h with
    | noNumber | number => rfl
    | whole hq => simp [coerceInt,hq]
    | blank hs => simp [coerceInt,hs]
    | numeral hs hp => simp [coerceInt,hs,hp]

end FlaskXxlJob.Model

namespace FlaskXxlJob.Protocol
open Python Model

def endpointOf : Request → Endpoint
  | .trigger _ => .run
  | .idleBeat _ => .idleBeat
  | .kill _ => .kill
  | .log _ => .log

variable {endpoint : Endpoint} {data : List (String × Value)} {r : Request}

/-! ### Accepted objects -/

/-- Each field of the request has a value that stands for it. -/
def Represents (data : List (String × Value)) (r : Request) : Prop :=
  ∀ f ∈ r.toWire, Stands (get data f.1) f.2

theorem triggerFromWire_ok_iff {t : TriggerRequest} :
    TriggerRequest.fromWire data = .ok t ↔ Represents data (.trigger t) := by
  simp only [TriggerRequest.fromWire,bind_ok_iff,pure_ok_iff,coerceInt_ok_iff,coerceStr_ok_iff,
    Represents,Request.toWire,TriggerRequest.toWire,List.forall_mem_cons,List.not_mem_nil,
    false_implies,implies_true,and_true]
  constructor
  · rintro ⟨_,h₁,_,h₂,_,h₃,_,h₄,_,h₅,_,h₆,_,h₇,_,h₈,_,h₉,_,h₁₀,_,h₁₁,_,h₁₂,rfl⟩
    exact ⟨h₁,h₂,h₃,h₄,h₅,h₆,h₇,h₈,h₉,h₁₀,h₁₁,h₁₂⟩
  · rintro ⟨h₁,h₂,h₃,h₄,h₅,h₆,h₇,h₈,h₉,h₁₀,h₁₁,h₁₂⟩
    exact ⟨_,h₁,_,h₂,_,h₃,_,h₄,_,h₅,_,h₆,_,h₇,_,h₈,_,h₉,_,h₁₀,_,h₁₁,_,h₁₂,rfl⟩

theorem idleBeatFromWire_ok_iff {t : IdleBeatRequest} :
    IdleBeatRequest.fromWire data = .ok t ↔ Represents data (.idleBeat t) := by
  simp only [IdleBeatRequest.fromWire,bind_ok_iff,pure_ok_iff,coerceInt_ok_iff,Represents,
    Request.toWire,IdleBeatRequest.toWire,List.forall_mem_singleton]
  constructor
  · rintro ⟨_,h,rfl⟩
    exact h
  · intro h
    exact ⟨_,h,rfl⟩

theorem killFromWire_ok_iff {t : KillRequest} :
    KillRequest.fromWire data = .ok t ↔ Represents data (.kill t) := by
  simp only [KillRequest.fromWire,bind_ok_iff,pure_ok_iff,coerceInt_ok_iff,Represents,
    Request.toWire,KillRequest.toWire,List.forall_mem_singleton]
  constructor
  · rintro ⟨_,h,rfl⟩
    exact h
  · intro h
    exact ⟨_,h,rfl⟩

theorem logFromWire_ok_iff {t : LogRequest} :
    LogRequest.fromWire data = .ok t ↔ Represents data (.log t) := by
  simp only [LogRequest.fromWire,bind_ok_iff,pure_ok_iff,coerceInt_ok_iff,Represents,
    Request.toWire,LogRequest.toWire,List.forall_mem_cons,List.not_mem_nil,false_implies,
    implies_true,and_true]
  constructor
  · rintro ⟨_,h₁,_,h₂,_,h₃,rfl⟩
    exact ⟨h₁,h₂,h₃⟩
  · rintro ⟨h₁,h₂,h₃⟩
    exact ⟨_,h₁,_,h₂,_,h₃,rfl⟩

theorem map_fromWire_iff {μ : Type} {wire : List (String × Value) → Except ModelParseError μ}
    {toRequest : μ → Request} (hwire : ∀ t, wire data = .ok t ↔ Represents data (toRequest t))
    (hends : ∀ r, endpointOf r = endpoint ↔ ∃ t, toRequest t = r) :
    toRequest <$> wire data = .ok r ↔ endpointOf r = endpoint ∧ Represents data r := by
  rw [map_ok_iff,hends]
  constructor
  · rintro ⟨t,ht,rfl⟩
    exact ⟨⟨t,rfl⟩,(hwire t).mp ht⟩
  · rintro ⟨⟨t,rfl⟩,ht⟩
    exact ⟨t,(hwire t).mpr ht,rfl⟩

theorem fromWire_ok_iff :
    fromWire endpoint data = .ok r ↔ endpointOf r = endpoint ∧ Represents data r := by
  cases endpoint with
  | run =>
    refine map_fromWire_iff (fun _ => triggerFromWire_ok_iff) fun r => ?_
    cases r <;> simp [endpointOf]
  | idleBeat =>
    refine map_fromWire_iff (fun _ => idleBeatFromWire_ok_iff) fun r => ?_
    cases r <;> simp [endpointOf]
  | kill =>
    refine map_fromWire_iff (fun _ => killFromWire_ok_iff) fun r => ?_
    cases r <;> simp [endpointOf]
  | log =>
    refine map_fromWire_iff (fun _ => logFromWire_ok_iff) fun r => ?_
    cases r <;> simp [endpointOf]

/-! ### What is written is read -/

inductive Kind where
  | number
  | text

def Kind.Accepts (data : List (String × Value)) (f : String × Kind) : Prop :=
  match f.2 with
  | number => ∃ i, Stands (get data f.1) (.int i)
  | text => ∃ s, Stands (get data f.1) (.str s)

/-- The fields of an endpoint's request in the order in which they are read. -/
def fields : Endpoint → List (String × Kind)
  | .run => [("jobId",.number),("executorHandler",.text),("executorParams",.text),
      ("executorBlockStrategy",.text),("executorTimeout",.number),("logId",.number),
      ("logDateTime",.number),("glueType",.text),("glueSource",.text),
      ("glueUpdatetime",.number),("broadcastIndex",.number),("broadcastTotal",.number)]
  | .idleBeat => [("jobId",.number)]
  | .kill => [("jobId",.number)]
  | .log => [("logDateTim",.number),("logId",.number),("fromLineNum",.number)]

theorem fields_nodup (endpoint : Endpoint) : ((fields endpoint).map Prod.fst).Nodup := by
  cases endpoint <;> decide +kernel

theorem toWire_fields (r : Request) :
    r.toWire.map Prod.fst = (fields (endpointOf r)).map Prod.fst := by
  cases r <;> rfl

theorem get_toWire {f : String × Value} (h : f ∈ r.toWire) : get r.toWire f.1 = f.2 := by
  obtain ⟨before,after,hsplit⟩ := List.append_of_mem h
  have hnodup := fields_nodup (endpointOf r)
  rw [← toWire_fields,hsplit,List.map_append,List.nodup_append] at hnodup
  have hlookup : r.toWire.lookup f.1 = some f.2 := by
    refine List.lookup_eq_some_iff.mpr ⟨before,after,hsplit,fun g hg => ?_⟩
    simpa using (hnodup.2.2 g.1 (List.mem_map_of_mem hg) f.1 (by simp)).symm
  rw [Python.get,hlookup]
  rfl

theorem stands_self {f : String × Value} (h : f ∈ r.toWire) : Stands f.2 f.2 := by
  have hkind : (∃ i, f.2 = .int i) ∨ ∃ s, f.2 = .str s := by
    revert f
    cases r <;> simp [Request.toWire,TriggerRequest.toWire,IdleBeatRequest.toWire,
      KillRequest.toWire,LogRequest.toWire]
  rcases hkind with ⟨i,hi⟩ | ⟨s,hs⟩
  · rw [hi]
    exact .number i
  · rw [hs]
    exact .text s

/-- An object whose fields are those of a request as it is written reads as that request. -/
theorem represents_of_agrees (h : ∀ f ∈ fields (endpointOf r), get data f.1 = get r.toWire f.1) :
    Represents data r := by
  intro f hf
  have hname : f.1 ∈ (fields (endpointOf r)).map Prod.fst := by
    rw [← toWire_fields]
    exact List.mem_map_of_mem hf
  obtain ⟨g,hg,hgf⟩ := List.mem_map.mp hname
  rw [← hgf,h g hg,hgf,get_toWire hf]
  exact stands_self hf

/-! ### Refusals -/

/-- What fails while the fields are read names the first one without a readable value. -/
def Reads {α : Type} (data : List (String × Value)) (fs : List (String × Kind))
    (x : Except ModelParseError α) : Prop :=
  ∀ e, x = .error e → ∃ before f after, fs = before ++ f :: after ∧ e.field = f.1 ∧
    ¬ Kind.Accepts data f ∧ ∀ g ∈ before, Kind.Accepts data g

namespace Reads
variable {α β : Type} {fs : List (String × Kind)} {name : String}

theorem ok {a : α} : Reads data fs (.ok a) := by
  intro e h
  cases h

theorem cons {x : Except ModelParseError α} {k : α → Except ModelParseError β}
    {f : String × Kind} (hx : (∃ a, x = .ok a) ↔ Kind.Accepts data f)
    (he : ∀ e, x = .error e → e.field = f.1) (hk : ∀ a, Reads data fs (k a)) :
    Reads data (f :: fs) (x >>= k) := by
  intro e h
  cases hxe : x with
  | error e₁ =>
    rw [hxe] at h
    cases h
    refine ⟨[],f,fs,rfl,he e hxe,fun hf => ?_,fun _ hg => absurd hg List.not_mem_nil⟩
    obtain ⟨a,ha⟩ := hx.mpr hf
    rw [hxe] at ha
    cases ha
  | ok a =>
    rw [hxe] at h
    obtain ⟨before,g,after,hsplit,hfield,hg,hbefore⟩ := hk a e h
    refine ⟨f :: before,g,after,by rw [hsplit]; rfl,hfield,hg,?_⟩
    rw [List.forall_mem_cons]
    exact ⟨hx.mp ⟨a,hxe⟩,hbefore⟩

theorem number {k : ℤ → Except ModelParseError β} (hk : ∀ i, Reads data fs (k i)) :
    Reads data ((name,.number) :: fs) (coerceInt (get data name) name 0 >>= k) :=
  cons (exists_congr fun _ => coerceInt_ok_iff) (fun _ => coerceInt_error_field) hk

theorem text {k : String → Except ModelParseError β} (hk : ∀ s, Reads data fs (k s)) :
    Reads data ((name,.text) :: fs) (coerceStr (get data name) name "" >>= k) :=
  cons (exists_congr fun _ => coerceStr_ok_iff) (fun _ => coerceStr_error_field) hk

theorem map {x : Except ModelParseError α} {f : α → β} (h : Reads data fs x) :
    Reads data fs (f <$> x) := by
  intro e he
  cases x with
  | error e₁ =>
    cases he
    exact h e rfl
  | ok a => cases he

end Reads

theorem fromWire_reads : Reads data (fields endpoint) (fromWire endpoint data) := by
  cases endpoint with
  | run =>
    refine .map (.number fun _ => .text fun _ => .text fun _ => .text fun _ => .number fun _ =>
      .number fun _ => .number fun _ => .text fun _ => .text fun _ => .number fun _ =>
      .number fun _ => .number fun _ => .ok)
  | idleBeat | kill => exact .map (.number fun _ => .ok)
  | log => exact .map (.number fun _ => .number fun _ => .number fun _ => .ok)

/-! ### The format -/

theorem fromWire_congr {other : List (String × Value)}
    (h : ∀ f ∈ fields endpoint, get other f.1 = get data f.1) :
    fromWire endpoint other = fromWire endpoint data := by
  cases endpoint with
  | run =>
    simp only [fields,List.forall_mem_cons] at h
    obtain ⟨h₁,h₂,h₃,h₄,h₅,h₆,h₇,h₈,h₉,h₁₀,h₁₁,h₁₂,-⟩ := h
    simp only [fromWire,TriggerRequest.fromWire,h₁,h₂,h₃,h₄,h₅,h₆,h₇,h₈,h₉,h₁₀,h₁₁,h₁₂]
  | idleBeat =>
    simp only [fields,List.forall_mem_singleton] at h
    simp only [fromWire,IdleBeatRequest.fromWire,h]
  | kill =>
    simp only [fields,List.forall_mem_singleton] at h
    simp only [fromWire,KillRequest.fromWire,h]
  | log =>
    simp only [fields,List.forall_mem_cons] at h
    obtain ⟨h₁,h₂,h₃,-⟩ := h
    simp only [fromWire,LogRequest.fromWire,h₁,h₂,h₃]

/-- An object is accepted as a request if and only if its fields stand for those of the request.
What is written is read, whatever else the object holds, and a refusal names the first field that
cannot be read. -/
theorem wire_format (endpoint : Endpoint) (data : List (String × Value)) :
    (∀ r, fromWire endpoint data = .ok r ↔ endpointOf r = endpoint ∧ Represents data r) ∧
    (∀ r, endpointOf r = endpoint → (∀ f ∈ fields endpoint, get data f.1 = get r.toWire f.1) →
      fromWire endpoint data = .ok r) ∧
    (∀ other, (∀ f ∈ fields endpoint, get other f.1 = get data f.1) →
      fromWire endpoint other = fromWire endpoint data) ∧
    ∀ e, fromWire endpoint data = .error e →
      ∃ before f after, fields endpoint = before ++ f :: after ∧ e.field = f.1 ∧
        ¬ Kind.Accepts data f ∧ ∀ g ∈ before, Kind.Accepts data g := by
  refine ⟨fun r => fromWire_ok_iff,fun r he h => ?_,fun other h => fromWire_congr h,
    fromWire_reads⟩
  subst he
  exact fromWire_ok_iff.mpr ⟨rfl,represents_of_agrees h⟩

/-- An integral float, a numeral with blanks around it and a field that is not known. -/
example : fromWire .log [("logId",.str " 7 "),("logDateTim",.float (.finite 3)),
    ("trace",.bool true)] = .ok (.log { logDateTime := 3, logId := 7 }) := by
  rfl

end FlaskXxlJob.Protocol
