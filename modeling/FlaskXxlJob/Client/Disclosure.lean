import FlaskXxlJob.Client.CallbackClient
import FlaskXxlJob.Client.Failover

/-!
What the result of an Admin call shows of the access token. Every text of a result is a fixed
text, an address, the Admin's `msg`, or the rendering of the outcome that decided the call.
-/
namespace FlaskXxlJob.Client
open Python Config Response

/-- No text of the result contains the token. -/
structure CallResult.Omits (token : String) (r : CallResult) : Prop where
  error : ∀ text, r.error = some text → ¬ Contains text token
  msg : ∀ text, r.msg = some text → ¬ Contains text token
  address : ∀ text, r.address = some text → ¬ Contains text token

/-- The texts the program itself puts into a result. -/
def fixedTexts : List String := [
  "no admin address configured",
  "invalid JSON response",
  "JSON response body must be an object",
  "JSON response fields have invalid types",
  "Flask-XXLJob is disabled.",
  "Unexpected error during XXL-JOB executor registration.",
  "Unexpected error during XXL-JOB executor removal.",
  "Registry removal completed without a result.",
  "Failed to start Registry cleanup actor."]

/-- The text an outcome is rendered to: the exception it raised, or its HTTP status. -/
def PostOutcome.rendering : PostOutcome → Option String
  | .timeout exceptionType text | .requestException exceptionType text =>
    some (exceptionType ++ ": " ++ text)
  | .response statusCode _ =>
    if statusCode ≠ 200 then some ("HTTP " ++ toString statusCode) else none

/-- The `msg` of the Admin's response body. -/
def PostOutcome.message : PostOutcome → Option String
  | .response _ (some (.dict items)) =>
    match get items "msg" with
    | .str msg => some msg
    | _ => none
  | _ => none

/-- Where the texts of a result come from. -/
structure CallResult.From (address : String) (outcome : PostOutcome) (r : CallResult) : Prop where
  error : ∀ text, r.error = some text → outcome.rendering = some text ∨ text ∈ fixedTexts
  msg : ∀ text, r.msg = some text → outcome.message = some text
  address : r.address = some address
  rendering : ∀ text, outcome.rendering = some text → r.error = some text

namespace CallResult.From
variable {address : String} {statusCode : ℤ} {body : Body} {r : CallResult}

/-- A result that only shows a fixed text. -/
theorem fixed {text : String} {outcome : PostOutcome} (he : r.error = some text)
    (ht : text ∈ fixedTexts) (hm : r.msg = none) (ha : r.address = some address)
    (hr : outcome.rendering = none) : r.From address outcome where
  error text' h := by
    obtain rfl : text = text' := Option.some.inj (he.symm.trans h)
    exact Or.inr ht
  msg _ h := by simp [hm] at h
  address := ha
  rendering _ h := by simp [hr] at h

/-- A result that only shows the Admin's `msg`. -/
theorem answered {items : List (String × Value)} {msg : Option String} (he : r.error = none)
    (hm : r.msg = msg) (hread : readMsg (get items "msg") = some msg)
    (ha : r.address = some address) : r.From address (.response 200 (some (.dict items))) where
  error _ h := by simp [he] at h
  msg text h := by
    rw [hm] at h
    subst h
    simp only [PostOutcome.message]
    cases hg : get items "msg" <;> simp [readMsg,hg] at hread ⊢
    exact hread
  address := ha
  rendering _ h := by simp [PostOutcome.rendering] at h

end CallResult.From

theorem classify_from (address : String) (attempts : ℕ) (elapsedMs : ℤ) (outcome : PostOutcome) :
    (classify address attempts elapsedMs outcome).From address outcome := by
  cases outcome with
  | timeout | requestException => exact ⟨fun _ => Or.inl,(fun _ h => by cases h),rfl,fun _ => id⟩
  | response statusCode body =>
    by_cases hs : statusCode = 200
    · subst hs
      cases body with
      | none => exact .fixed rfl (by simp [fixedTexts]) rfl rfl rfl
      | some v =>
        cases v with
        | dict items =>
          simp only [classify,ne_eq,not_true_eq_false,if_false]
          split
          next code msg hc hm =>
            split
            next => exact .answered rfl rfl hm rfl
            next => exact .answered rfl rfl hm rfl
          next => exact .fixed rfl (by simp [fixedTexts]) rfl rfl rfl
        | _ => exact .fixed rfl (by simp [fixedTexts]) rfl rfl rfl
    · refine ⟨fun text h => Or.inl ?_,?_,?_,fun text h => ?_⟩
      all_goals simp_all [classify,PostOutcome.rendering]

/-! ### Which results omit the token -/

/-- The Admin's answers do not mention the token. -/
def BodiesOmit (token : String) (outcomes : ℕ → PostOutcome) : Prop :=
  ∀ n msg, (outcomes n).message = some msg → ¬ Contains msg token

/-- The rendering of an outcome does not show the token. -/
def PostOutcome.Silent (token : String) (outcome : PostOutcome) : Prop :=
  ∀ text, outcome.rendering = some text → ¬ Contains text token

/-- The outcome of the last POST that the retry and failover rules allow. -/
def Decides (policy : AdminCallPolicy) (addresses : ℕ) (outcomes : ℕ → PostOutcome)
    (outcome : PostOutcome) : Prop :=
  ∃ ps last, Run policy addresses outcomes 0 ⟨0,0⟩ (ps ++ [last]) ∧ outcomes ps.length = outcome

theorem Decides.unique {policy : AdminCallPolicy} {addresses : ℕ} {outcomes : ℕ → PostOutcome}
    {outcome outcome' : PostOutcome} (h : Decides policy addresses outcomes outcome)
    (h' : Decides policy addresses outcomes outcome') : outcome = outcome' := by
  obtain ⟨ps,last,hrun,rfl⟩ := h
  obtain ⟨qs,last',hrun',rfl⟩ := h'
  obtain ⟨rfl,-⟩ := List.append_inj' (hrun.unique hrun') rfl
  rfl

/-- The texts of the result come from one of the addresses and from the deciding outcome. -/
theorem postToAdmins_from (args : Arguments) (elapsed : ℕ → ℤ) (outcomes : ℕ → PostOutcome)
    (h : args.adminAddresses ≠ []) : ∃ address ∈ args.adminAddresses, ∃ outcome,
      Decides args.effectivePolicy args.adminAddresses.length outcomes outcome ∧
      (∃ n, outcomes n = outcome) ∧
      (postToAdmins args elapsed outcomes).1.From address outcome := by
  obtain ⟨ps,last,hrun,hcall⟩ := postToAdmins_run args elapsed outcomes h
  have hlast := (hrun.address_lt (List.length_pos_of_ne_nil h) last (by simp)).2
  have hmem : args.addressAt last.address ∈ args.adminAddresses := by
    simp [Arguments.addressAt,List.getElem?_eq_getElem hlast]
  refine ⟨_,hmem,_,⟨ps,last,hrun,rfl⟩,⟨_,rfl⟩,?_⟩
  rw [hcall]
  exact classify_from _ _ _ _

/-- A result that shows nothing but a fixed text. -/
structure CallResult.Fixed (r : CallResult) : Prop where
  error : ∃ text ∈ fixedTexts, r.error = some text
  msg : r.msg = none
  address : r.address = none

theorem noAddress_fixed : noAddress.Fixed := ⟨⟨_,by simp [fixedTexts],rfl⟩,rfl,rfl⟩

theorem disabledResult_fixed : disabledResult.Fixed := ⟨⟨_,by simp [fixedTexts],rfl⟩,rfl,rfl⟩

variable {token : String} (hfixed : ∀ text ∈ fixedTexts, ¬ Contains text token)
include hfixed

theorem CallResult.Fixed.omits {r : CallResult} (h : r.Fixed) : r.Omits token where
  error text' he := by
    obtain ⟨text,ht,hr⟩ := h.error
    obtain rfl : text = text' := Option.some.inj (hr.symm.trans he)
    exact hfixed text ht
  msg _ he := by simp [h.msg] at he
  address _ he := by simp [h.address] at he

/-- A result omits the token just when the rendering of its outcome does. -/
theorem CallResult.From.omits_iff {address : String} {outcome : PostOutcome} {r : CallResult}
    (h : r.From address outcome) (haddress : ¬ Contains address token)
    (hbody : ∀ msg, outcome.message = some msg → ¬ Contains msg token) :
    r.Omits token ↔ outcome.Silent token := by
  constructor
  · intro ho text ht
    exact ho.error text (h.rendering text ht)
  · intro hs
    refine ⟨fun text ht => ?_,fun text ht => hbody text (h.msg text ht),fun text ht => ?_⟩
    · rcases h.error text ht with hr | hf
      · exact hs text hr
      · exact hfixed text hf
    · rw [h.address] at ht
      obtain rfl := Option.some.inj ht
      exact haddress

theorem postToAdmins_omits_iff (args : Arguments) (elapsed : ℕ → ℤ) (outcomes : ℕ → PostOutcome)
    (haddresses : ∀ a ∈ args.adminAddresses, ¬ Contains a token)
    (hbodies : BodiesOmit token outcomes) :
    (postToAdmins args elapsed outcomes).1.Omits token ↔ (args.adminAddresses ≠ [] →
      ∀ outcome, Decides args.effectivePolicy args.adminAddresses.length outcomes outcome →
        outcome.Silent token) := by
  by_cases hempty : args.adminAddresses = []
  · rw [postToAdmins_empty args elapsed outcomes hempty]
    simp [noAddress_fixed.omits hfixed,hempty]
  · obtain ⟨a,ha,outcome,hd,⟨n,rfl⟩,hfrom⟩ := postToAdmins_from args elapsed outcomes hempty
    rw [hfrom.omits_iff hfixed (haddresses a ha) (hbodies n)]
    constructor
    · intro hs _ outcome hd'
      exact hd.unique hd' ▸ hs
    · intro hs
      exact hs hempty _ hd

end FlaskXxlJob.Client
