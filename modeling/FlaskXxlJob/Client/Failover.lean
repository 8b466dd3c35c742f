import FlaskXxlJob.Client.PostToAdmins

/-!
The specification of an Admin call: which POSTs a sequence of outcomes leads to, and what the
last of them means. The loops of the call meet it.
-/
namespace FlaskXxlJob.Client
open Python Response Utils

/-! ### Outcomes -/

inductive OutcomeKind where
  | timeout
  | network
  | httpStatus
  | unparsable
  | notObject
  | illTyped
  | success
  | business
  deriving DecidableEq

def PostOutcome.kind : PostOutcome → OutcomeKind
  | .timeout _ _ => .timeout
  | .requestException _ _ => .network
  | .response statusCode body =>
    if statusCode ≠ 200 then .httpStatus
    else
      match body with
      | none => .unparsable
      | some (.dict items) =>
        match get items "code",get items "msg" with
        | .int code,.none | .int code,.str _ => if code = 200 then .success else .business
        | _,_ => .illTyped
      | some _ => .notObject

/-- The outcomes after which the same address may be tried again. -/
def OutcomeKind.Transient : OutcomeKind → Prop
  | timeout | network | httpStatus => True
  | _ => False

instance : DecidablePred OutcomeKind.Transient := fun k => by
  cases k <;> simp only [OutcomeKind.Transient] <;> infer_instance

/-- The outcomes after which the next address may be tried. -/
def OutcomeKind.Eligible (policy : AdminCallPolicy) : OutcomeKind → Prop
  | timeout | network => True
  | httpStatus => policy.failoverOnHttpError = true
  | unparsable | notObject | illTyped => policy.failoverOnInvalidJson = true
  | business => policy.failoverOnBusinessError = true
  | success => False

variable (policy : AdminCallPolicy) (address : String) (attempts : ℕ) (elapsedMs : ℤ)
  (outcome : PostOutcome)

/-- The error type of a result, by the kind of its outcome. -/
def OutcomeKind.errorType : OutcomeKind → Option String
  | timeout => some errorTimeout
  | network => some errorNetwork
  | httpStatus => some errorHttp
  | unparsable => some errorInvalidJson
  | notObject | illTyped => some errorInvalidResponse
  | business => some errorBusiness
  | success => none

/-- The HTTP status an outcome came with. -/
def PostOutcome.status : PostOutcome → Option ℤ
  | .response statusCode _ => some statusCode
  | _ => none

/-- What a result says about its POST. -/
theorem classify_spec :
    (classify address attempts elapsedMs outcome).errorType = outcome.kind.errorType ∧
    (classify address attempts elapsedMs outcome).success = decide (outcome.kind = .success) ∧
    (classify address attempts elapsedMs outcome).address = some address ∧
    (classify address attempts elapsedMs outcome).attemptCount = attempts ∧
    (classify address attempts elapsedMs outcome).httpStatus = outcome.status := by
  cases outcome with
  | timeout => exact ⟨rfl,rfl,rfl,rfl,rfl⟩
  | requestException => exact ⟨rfl,rfl,rfl,rfl,rfl⟩
  | response statusCode body =>
    by_cases hs : statusCode = 200
    · subst hs
      cases body with
      | none => exact ⟨rfl,rfl,rfl,rfl,rfl⟩
      | some v =>
        cases v with
        | dict items =>
          cases hc : get items "code" with
          | int code =>
            by_cases h200 : code = 200
            · cases hm : get items "msg" <;>
                simp [classify, PostOutcome.kind, PostOutcome.status, OutcomeKind.errorType,
                  readMsg, hc, hm, h200, successCode]
            · cases hm : get items "msg" <;>
                simp [classify, PostOutcome.kind, PostOutcome.status, OutcomeKind.errorType,
                  readMsg, hc, hm, h200, successCode]
          | _ =>
            simp [classify, PostOutcome.kind, PostOutcome.status, OutcomeKind.errorType, hc]
        | _ => exact ⟨rfl,rfl,rfl,rfl,rfl⟩
    · simp [classify, PostOutcome.kind, PostOutcome.status, OutcomeKind.errorType, hs]

theorem classify_errorType :
    (classify address attempts elapsedMs outcome).errorType = outcome.kind.errorType :=
  (classify_spec address attempts elapsedMs outcome).1

theorem classify_success :
    (classify address attempts elapsedMs outcome).success = true ↔ outcome.kind = .success := by
  rw [(classify_spec address attempts elapsedMs outcome).2.1, decide_eq_true_eq]

theorem retryable_classify :
    retryable (classify address attempts elapsedMs outcome) = true ↔ outcome.kind.Transient := by
  unfold retryable
  rw [classify_errorType]
  cases outcome.kind <;>
    simp [OutcomeKind.errorType, OutcomeKind.Transient, retryableErrorTypes, errorTimeout,
      errorNetwork, errorHttp, errorInvalidJson, errorInvalidResponse, errorBusiness]

theorem shouldFailover_classify :
    shouldFailover (classify address attempts elapsedMs outcome).errorType policy = true ↔
      outcome.kind.Eligible policy := by
  rw [classify_errorType]
  cases outcome.kind <;>
    simp [OutcomeKind.errorType, OutcomeKind.Eligible, shouldFailover, errorTimeout,
      errorNetwork, errorHttp, errorInvalidJson, errorInvalidResponse, errorBusiness]

/-- A POST succeeds if it is HTTP 200 with an object body whose `code` is the integer 200 and whose
`msg` is a string or null. -/
theorem kind_success_iff : outcome.kind = .success ↔ ∃ items,
    outcome = .response 200 (some (.dict items)) ∧ get items "code" = .int 200 ∧
    (get items "msg" = .none ∨ ∃ msg, get items "msg" = .str msg) := by
  constructor
  · intro h
    cases outcome with
    | timeout => simp [PostOutcome.kind] at h
    | requestException => simp [PostOutcome.kind] at h
    | response statusCode body =>
      by_cases hs : statusCode = 200
      · subst hs
        cases body with
        | none => simp [PostOutcome.kind] at h
        | some v =>
          cases v with
          | dict items =>
            refine ⟨items,rfl,?_⟩
            cases hc : get items "code" with
            | int code => cases hm : get items "msg" <;> simp_all [PostOutcome.kind]
            | _ => simp [PostOutcome.kind, hc] at h
          | _ => simp [PostOutcome.kind] at h
      · simp [PostOutcome.kind, hs] at h
  · rintro ⟨items,rfl,hc,hm | ⟨msg,hm⟩⟩
    · simp [PostOutcome.kind, hc, hm]
    · simp [PostOutcome.kind, hc, hm]

/-! ### The POSTs of a call -/

/-- A POST to the address with this index, after so many earlier ones to it. -/
structure Position where
  address : ℕ
  retry : ℕ
  deriving DecidableEq

def Repeats (retry : ℕ) : Prop := outcome.kind.Transient ∧ retry < policy.retryCount

def MovesOn (addresses address : ℕ) : Prop :=
  outcome.kind.Eligible policy ∧ address + 1 < addresses

variable (addresses : ℕ) (outcomes : ℕ → PostOutcome)

/-- The maximal run from a position: an address is repeated while its outcomes are transient and
retries are left, the next one is tried when the last outcome is eligible for it. -/
inductive Run : ℕ → Position → List Position → Prop
  | again {j i k : ℕ} {ps : List Position} : Repeats policy (outcomes j) k →
      Run (j + 1) ⟨i,k + 1⟩ ps → Run j ⟨i,k⟩ (⟨i,k⟩ :: ps)
  | next {j i k : ℕ} {ps : List Position} : ¬ Repeats policy (outcomes j) k →
      MovesOn policy (outcomes j) addresses i →
      Run (j + 1) ⟨i + 1,0⟩ ps → Run j ⟨i,k⟩ (⟨i,k⟩ :: ps)
  | stop {j i k : ℕ} : ¬ Repeats policy (outcomes j) k →
      ¬ MovesOn policy (outcomes j) addresses i → Run j ⟨i,k⟩ [⟨i,k⟩]

variable {policy addresses outcomes}

namespace Run
variable {j : ℕ} {pos : Position} {ps : List Position}

theorem unique (h : Run policy addresses outcomes j pos ps) {qs : List Position}
    (h' : Run policy addresses outcomes j pos qs) : ps = qs := by
  induction h generalizing qs with
  | again hr _ ih =>
    cases h' with
    | again _ h' => rw [ih h']
    | next hn => exact absurd hr hn
    | stop hn => exact absurd hr hn
  | next hr hm _ ih =>
    cases h' with
    | again hr' => exact absurd hr' hr
    | next _ _ h' => rw [ih h']
    | stop _ hn => exact absurd hm hn
  | stop hr hm =>
    cases h' with
    | again hr' => exact absurd hr' hr
    | next _ hm' => exact absurd hm' hm
    | stop => rfl

theorem address_lt (h : Run policy addresses outcomes j pos ps) (hpos : pos.address < addresses) :
    ∀ q ∈ ps, pos.address ≤ q.address ∧ q.address < addresses := by
  induction h with
  | again _ _ ih =>
    intro q hq
    rcases List.mem_cons.mp hq with rfl | hq
    · exact ⟨le_refl _,hpos⟩
    · exact ih hpos q hq
  | next _ hm _ ih =>
    intro q hq
    rcases List.mem_cons.mp hq with rfl | hq
    · exact ⟨le_refl _,hpos⟩
    · obtain ⟨hle,hlt⟩ := ih hm.2 q hq
      exact ⟨by simp only at hle ⊢; omega,hlt⟩
  | stop =>
    intro q hq
    obtain rfl := List.mem_singleton.mp hq
    exact ⟨le_refl _,hpos⟩

/-- No address is tried more often than once and once for each retry. -/
theorem count_le (h : Run policy addresses outcomes j pos ps) (hpos : pos.address < addresses)
    (hk : pos.retry ≤ policy.retryCount) (i : ℕ) :
    ps.countP (·.address = i) + (if pos.address = i then pos.retry else 0) ≤
      policy.retryCount + 1 := by
  induction h with
  | @again j a k ps hr _ ih =>
    have ih := ih hpos (Nat.succ_le_of_lt hr.2)
    by_cases ha : a = i
    · simp only [ha, List.countP_cons, decide_true, if_true] at ih ⊢
      omega
    · simp only [ha, List.countP_cons, decide_false, if_false, Bool.false_eq_true] at ih ⊢
      omega
  | @next j a k ps hr hm hrun ih =>
    have ih := ih hm.2 (Nat.zero_le _)
    by_cases ha : a = i
    · have hzero : ps.countP (·.address = i) = 0 := by
        refine List.countP_eq_zero.mpr fun q hq => ?_
        have := (hrun.address_lt hm.2 q hq).1
        simp only at this
        simp only [decide_eq_true_eq]
        omega
      simp only [ha, List.countP_cons, decide_true, if_true, hzero]
      simp only at hk
      omega
    · simp only [ha, List.countP_cons, decide_false, if_false, Bool.false_eq_true]
      have := Nat.le_of_add_right_le ih
      omega
  | @stop j a k =>
    simp only at hk
    by_cases ha : a = i
    · simp only [ha, List.countP_cons, List.countP_nil, decide_true, if_true]
      omega
    · simp [ha]

/-- The whole call is bounded by the addresses and the retries. -/
theorem length_le (h : Run policy addresses outcomes j pos ps) (hpos : pos.address < addresses)
    (hk : pos.retry ≤ policy.retryCount) :
    ps.length + pos.retry ≤ (addresses - pos.address) * (policy.retryCount + 1) := by
  induction h with
  | again hr _ ih =>
    have ih := ih hpos (Nat.succ_le_of_lt hr.2)
    simp only [List.length_cons] at ih ⊢
    omega
  | @next j i k ps hr hm _ ih =>
    have ih := ih hm.2 (Nat.zero_le _)
    have hlt := hm.2
    have hsub : addresses - i = (addresses - (i + 1)) + 1 := by omega
    simp only [List.length_cons] at ih hk ⊢
    rw [hsub, Nat.succ_mul]
    omega
  | @stop j i k =>
    have hsub : addresses - i = (addresses - i - 1) + 1 := by
      simp only at hpos
      omega
    simp only [List.length_singleton] at hk ⊢
    rw [hsub, Nat.succ_mul]
    omega

end Run

/-! ### The loops meet the specification -/

section Loops
variable (args : Arguments) (elapsed : ℕ → ℤ) (outcomes : ℕ → PostOutcome)

def Arguments.addressAt (args : Arguments) (i : ℕ) : String := args.adminAddresses[i]?.getD ""

def Arguments.postAt (args : Arguments) (pos : Position) : Post :=
  args.post (args.addressAt pos.address)

/-- From `p` the loops make the POSTs of the run from `pos`, and keep the result of the last. -/
def Meets (pos : Position) (p p' : Progress) : Prop :=
  ∃ ps last,
    Run args.effectivePolicy args.adminAddresses.length outcomes p.attempts pos (ps ++ [last]) ∧
    p'.posts = p.posts ++ (ps ++ [last]).map args.postAt ∧
    p'.attempts = p.attempts + (ps.length + 1) ∧
    p'.lastResult = classify (args.addressAt last.address) p'.attempts (elapsed p'.attempts)
      (outcomes (p.attempts + ps.length))

variable {args elapsed outcomes}

theorem attempt_meets {i k : ℕ} {address : String} {p : Progress} (ha : args.addressAt i = address)
    (hr : ¬ Repeats args.effectivePolicy (outcomes p.attempts) k)
    (hm : ¬ MovesOn args.effectivePolicy (outcomes p.attempts) args.adminAddresses.length i) :
    Meets args elapsed outcomes ⟨i,k⟩ p (attempt args elapsed outcomes address p) := by
  subst ha
  exact ⟨[],⟨i,k⟩,.stop hr hm,rfl,rfl,rfl⟩

/-- One POST in front of a run that is already met. -/
theorem Meets.cons {i k : ℕ} {pos : Position} {address : String} {p p₁ p' : Progress}
    (ha : args.addressAt i = address)
    (hp : p₁.attempts = p.attempts + 1 ∧ p₁.posts = p.posts ++ [args.post address])
    (hrun : ∀ ps, Run args.effectivePolicy args.adminAddresses.length outcomes (p.attempts + 1)
      pos ps → Run args.effectivePolicy args.adminAddresses.length outcomes p.attempts ⟨i,k⟩
        (⟨i,k⟩ :: ps))
    (h : Meets args elapsed outcomes pos p₁ p') : Meets args elapsed outcomes ⟨i,k⟩ p p' := by
  subst ha
  obtain ⟨ps,last,hps,hposts,hattempts,hresult⟩ := h
  rw [hp.1] at hps hattempts hresult
  refine ⟨⟨i,k⟩ :: ps,last,hrun _ hps,?_,?_,?_⟩
  · rw [hposts, hp.2]
    simp [Arguments.postAt]
  · simp only [List.length_cons]
    omega
  · have hj : p.attempts + (⟨i,k⟩ :: ps).length = p.attempts + 1 + ps.length := by
      simp only [List.length_cons]
      omega
    rw [hj]
    exact hresult

theorem backoff_fields (policy : AdminCallPolicy) (p : Progress) :
    (backoff policy p).attempts = p.attempts ∧ (backoff policy p).posts = p.posts := by
  unfold backoff
  split <;> exact ⟨rfl,rfl⟩

variable (args elapsed outcomes) in
/-- What the loop over the addresses does after one of them. -/
def finish (rest : List String) (p : Progress) : Progress :=
  if p.lastResult.success then p
  else if shouldFailover p.lastResult.errorType args.effectivePolicy then
    visit args elapsed outcomes rest p
  else p

/-- The last POST at an address. -/
theorem finish_meets {i k : ℕ} {address : String} {rest : List String} {p : Progress}
    (ha : args.addressAt i = address)
    (hlen : args.adminAddresses.length = i + 1 + rest.length)
    (hr : ¬ Repeats args.effectivePolicy (outcomes p.attempts) k)
    (hrest : rest ≠ [] → ∀ p', Meets args elapsed outcomes ⟨i + 1,0⟩ p'
      (visit args elapsed outcomes rest p')) :
    Meets args elapsed outcomes ⟨i,k⟩ p
      (finish args elapsed outcomes rest (attempt args elapsed outcomes address p)) := by
  have hsuccess := classify_success address (p.attempts + 1) (elapsed (p.attempts + 1))
    (outcomes p.attempts)
  have heligible := shouldFailover_classify args.effectivePolicy address (p.attempts + 1)
    (elapsed (p.attempts + 1)) (outcomes p.attempts)
  by_cases hs : (attempt args elapsed outcomes address p).lastResult.success = true
  · rw [finish, if_pos hs]
    refine attempt_meets ha hr ?_
    rintro ⟨he,-⟩
    rw [hsuccess.mp hs] at he
    exact he
  · by_cases he : shouldFailover (attempt args elapsed outcomes address p).lastResult.errorType
        args.effectivePolicy = true
    · rw [finish, if_neg hs, if_pos he]
      cases rest with
      | nil =>
        refine attempt_meets ha hr ?_
        rintro ⟨-,hlt⟩
        simp only [List.length_nil] at hlen
        omega
      | cons b rest =>
        have hm : MovesOn args.effectivePolicy (outcomes p.attempts)
            args.adminAddresses.length i := by
          refine ⟨heligible.mp he,?_⟩
          simp only [List.length_cons] at hlen
          omega
        exact Meets.cons ha ⟨rfl,rfl⟩ (fun ps hps => .next hr hm hps) (hrest (by simp) _)
    · rw [finish, if_neg hs, if_neg he]
      exact attempt_meets ha hr fun hm => he (heligible.mpr hm.1)

/-- All POSTs at an address. -/
theorem tryAddress_meets {i : ℕ} {address : String} {rest : List String}
    (ha : args.addressAt i = address)
    (hlen : args.adminAddresses.length = i + 1 + rest.length)
    (hrest : rest ≠ [] → ∀ p', Meets args elapsed outcomes ⟨i + 1,0⟩ p'
      (visit args elapsed outcomes rest p'))
    (remaining k : ℕ) (hk : k + remaining = args.effectivePolicy.retryCount) (p : Progress) :
    Meets args elapsed outcomes ⟨i,k⟩ p
      (finish args elapsed outcomes rest
        (tryAddress args elapsed outcomes address remaining p)) := by
  induction remaining generalizing k p with
  | zero =>
    refine finish_meets ha hlen ?_ hrest
    rintro ⟨-,hlt⟩
    omega
  | succ remaining ih =>
    have hretry := retryable_classify address (p.attempts + 1) (elapsed (p.attempts + 1))
      (outcomes p.attempts)
    simp only [tryAddress]
    split
    · rename_i hr
      have hagain : Repeats args.effectivePolicy (outcomes p.attempts) k :=
        ⟨hretry.mp hr,by omega⟩
      refine Meets.cons ha ?_ (fun ps hps => .again hagain hps) (ih (k + 1) (by omega) _)
      exact backoff_fields args.effectivePolicy (attempt args elapsed outcomes address p)
    · rename_i hr
      exact finish_meets ha hlen (fun h => hr (hretry.mpr h.1)) hrest

variable (args elapsed outcomes) in
theorem visit_meets (rest done : List String) (address : String)
    (h : args.adminAddresses = done ++ address :: rest) (p : Progress) :
    Meets args elapsed outcomes ⟨done.length,0⟩ p
      (visit args elapsed outcomes (address :: rest) p) := by
  induction rest generalizing done address p with
  | nil =>
    refine tryAddress_meets ?_ ?_ (fun hne => absurd rfl hne) _ 0 (by omega) p
    · simp [Arguments.addressAt, h]
    · simp [h]
  | cons b rest ih =>
    refine tryAddress_meets ?_ ?_ (fun _ p' => ?_) _ 0 (by omega) p
    · simp [Arguments.addressAt, h]
    · simp only [h, List.length_append, List.length_cons]
      omega
    · have hb := ih (done ++ [address]) b (by simp [h]) p'
      simpa using hb

end Loops

variable (args : Arguments) (elapsed : ℕ → ℤ) (outcomes : ℕ → PostOutcome)

theorem postToAdmins_empty (h : args.adminAddresses = []) :
    postToAdmins args elapsed outcomes = (noAddress,[]) := by
  simp [postToAdmins, h, visit]

theorem postToAdmins_run (h : args.adminAddresses ≠ []) : ∃ ps last,
    Run args.effectivePolicy args.adminAddresses.length outcomes 0 ⟨0,0⟩ (ps ++ [last]) ∧
    postToAdmins args elapsed outcomes =
      (classify (args.addressAt last.address) (ps.length + 1) (elapsed (ps.length + 1))
        (outcomes ps.length),(ps ++ [last]).map args.postAt) := by
  obtain ⟨a,rest,haddr⟩ := List.exists_cons_of_ne_nil h
  obtain ⟨ps,last,hrun,hposts,hattempts,hresult⟩ :=
    visit_meets args elapsed outcomes rest [] a haddr { lastResult := noAddress }
  refine ⟨ps,last,hrun,?_⟩
  simp only [Nat.zero_add] at hattempts hresult
  rw [hattempts] at hresult
  simp only [postToAdmins, haddr]
  rw [hresult, hposts, List.nil_append]

/-- Every POST carries the arguments of the call. -/
theorem postToAdmins_posts {post : Post} (h : post ∈ (postToAdmins args elapsed outcomes).2) :
    ∃ address ∈ args.adminAddresses, post = args.post address := by
  by_cases hempty : args.adminAddresses = []
  · rw [postToAdmins_empty args elapsed outcomes hempty] at h
    simp at h
  · obtain ⟨ps,last,hrun,hcall⟩ := postToAdmins_run args elapsed outcomes hempty
    rw [hcall] at h
    obtain ⟨q,hq,rfl⟩ := List.mem_map.mp h
    have hlt := (hrun.address_lt (List.length_pos_of_ne_nil hempty) q hq).2
    refine ⟨args.addressAt q.address,?_,rfl⟩
    simp [Arguments.addressAt, List.getElem?_eq_getElem hlt]

/-- `post_to_admins` makes exactly the POSTs of the specified run, and its result is what the last
of them means. -/
theorem post_to_admins_refines_spec :
    (args.adminAddresses = [] →
      postToAdmins args elapsed outcomes = (noAddress,[]) ∧
      noAddress.errorType = some errorConfig ∧ noAddress.attemptCount = 0) ∧
    (args.adminAddresses ≠ [] → ∃ ps last result,
      (∀ qs, Run args.effectivePolicy args.adminAddresses.length outcomes 0 ⟨0,0⟩ qs ↔
        qs = ps ++ [last]) ∧
      (∀ q ∈ ps ++ [last], q.address < args.adminAddresses.length) ∧
      (∀ i, (ps ++ [last]).countP (·.address = i) ≤ args.effectivePolicy.retryCount + 1) ∧
      postToAdmins args elapsed outcomes = (result,(ps ++ [last]).map args.postAt) ∧
      result = classify (args.addressAt last.address) (ps.length + 1) (elapsed (ps.length + 1))
        (outcomes ps.length) ∧
      result.address = some (args.addressAt last.address) ∧
      result.httpStatus = (outcomes ps.length).status ∧
      result.errorType = (outcomes ps.length).kind.errorType ∧
      (result.success = true ↔ ∃ items, outcomes ps.length = .response 200 (some (.dict items)) ∧
        get items "code" = .int 200 ∧
        (get items "msg" = .none ∨ ∃ msg, get items "msg" = .str msg))) ∧
    (∀ post ∈ (postToAdmins args elapsed outcomes).2, post.address ∈ args.adminAddresses ∧
      post.url = joinUrl post.address args.apiPath ∧ post.payload = args.payload ∧
      post.headers = buildHeaders args.accessToken ∧ post.timeout = args.timeout) ∧
    (postToAdmins args elapsed outcomes).1.attemptCount =
      (postToAdmins args elapsed outcomes).2.length ∧
    (∀ cfg, args.policy = some (.fromConfig cfg) →
      args.effectivePolicy.retryCount + 1 ≤ 11 ∧
      (postToAdmins args elapsed outcomes).2.length ≤ 11 * args.adminAddresses.length) := by
  have hcap : ∀ cfg, args.policy = some (.fromConfig cfg) →
      args.effectivePolicy.retryCount + 1 ≤ 11 := by
    intro cfg h
    have := AdminCallPolicy.fromConfig_retryCount_le cfg
    simp only [Arguments.effectivePolicy, h, Option.getD_some]
    omega
  have hcarries : ∀ post ∈ (postToAdmins args elapsed outcomes).2,
      post.address ∈ args.adminAddresses ∧ post.url = joinUrl post.address args.apiPath ∧
      post.payload = args.payload ∧ post.headers = buildHeaders args.accessToken ∧
      post.timeout = args.timeout := by
    intro post h
    obtain ⟨address,ha,rfl⟩ := postToAdmins_posts args elapsed outcomes h
    simp only [Arguments.post]
    exact ⟨ha,trivial,trivial,trivial,trivial⟩
  by_cases hempty : args.adminAddresses = []
  · have hcall := postToAdmins_empty args elapsed outcomes hempty
    refine ⟨fun _ => ⟨hcall,rfl,rfl⟩,fun hne => absurd hempty hne,hcarries,?_,
      fun cfg h => ⟨hcap cfg h,?_⟩⟩
    · rw [hcall]
      rfl
    · rw [hcall]
      exact Nat.zero_le _
  · obtain ⟨ps,last,hrun,hcall⟩ := postToAdmins_run args elapsed outcomes hempty
    have hpos : 0 < args.adminAddresses.length := List.length_pos_of_ne_nil hempty
    obtain ⟨htype,-,haddress,hattempts,hstatus⟩ := classify_spec (args.addressAt last.address)
      (ps.length + 1) (elapsed (ps.length + 1)) (outcomes ps.length)
    refine ⟨fun h => absurd h hempty,fun _ => ⟨ps,last,_,fun qs => ?_,?_,fun i => ?_,hcall,rfl,
      haddress,hstatus,htype,?_⟩,hcarries,?_,fun cfg h => ⟨hcap cfg h,?_⟩⟩
    · constructor
      · exact fun h => h.unique hrun
      · rintro rfl
        exact hrun
    · exact fun q hq => (hrun.address_lt hpos q hq).2
    · exact Nat.le_of_add_right_le (hrun.count_le hpos (Nat.zero_le _) i)
    · rw [classify_success, kind_success_iff]
    · rw [hcall]
      simp [hattempts]
    · have hlen := hrun.length_le hpos (Nat.zero_le _)
      have hle := hcap cfg h
      rw [hcall]
      simp only [List.length_map, Nat.add_zero, Nat.sub_zero] at hlen ⊢
      calc (ps ++ [last]).length
          ≤ args.adminAddresses.length * (args.effectivePolicy.retryCount + 1) := hlen
        _ ≤ args.adminAddresses.length * 11 := Nat.mul_le_mul_left _ hle
        _ = 11 * args.adminAddresses.length := Nat.mul_comm _ _

end FlaskXxlJob.Client
