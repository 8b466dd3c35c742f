import FlaskXxlJob.Config.Settings

/-! Admin call policy: bounded, synchronous retry and failover. -/
namespace FlaskXxlJob.Client
open Python Config

def retryCountCap : ℤ := 10
def retryBackoffCap : Double := .finite 30

structure AdminCallPolicy where
  retryCount : ℕ := 0
  retryBackoff : Double := .finite 0
  failoverOnHttpError : Bool := true
  failoverOnInvalidJson : Bool := false
  failoverOnBusinessError : Bool := false
  deriving DecidableEq

/-- `min(x, y)` and `max(x, y)` keep `x` unless the comparison with `y` is strict. -/
def minDouble (x y : Double) : Double := if y.lt x then y else x
def maxDouble (x y : Double) : Double := if x.lt y then y else x

/-- The retry count and the backoff are clamped to their caps. -/
def AdminCallPolicy.fromConfig (cfg : XXLJobConfig) : AdminCallPolicy where
  retryCount := (max 0 (min cfg.adminRetryCount retryCountCap)).toNat
  retryBackoff := maxDouble (.finite 0) (minDouble cfg.adminRetryBackoff retryBackoffCap)
  failoverOnHttpError := cfg.adminFailoverOnHttpError
  failoverOnInvalidJson := cfg.adminFailoverOnInvalidJson
  failoverOnBusinessError := cfg.adminFailoverOnBusinessError

/-- The behaviour without a policy. -/
def AdminCallPolicy.withoutPolicy (stopOnBusinessResponse : Bool) : AdminCallPolicy where
  retryCount := 0
  retryBackoff := .finite 0
  failoverOnHttpError := true
  failoverOnInvalidJson := true
  failoverOnBusinessError := !stopOnBusinessResponse

theorem AdminCallPolicy.fromConfig_retryCount_le (cfg : XXLJobConfig) :
    (fromConfig cfg).retryCount ≤ 10 := by
  simp only [fromConfig, retryCountCap]
  omega

/-- Whatever the configured backoff is, a wait is between nothing and the cap. -/
theorem AdminCallPolicy.fromConfig_retryBackoff (cfg : XXLJobConfig) :
    ∃ q : ℚ, (fromConfig cfg).retryBackoff = .finite q ∧ 0 ≤ q ∧ q ≤ 30 := by
  simp only [fromConfig, retryBackoffCap]
  cases cfg.adminRetryBackoff with
  | inf => exact ⟨30,by decide +kernel,by decide +kernel,by decide +kernel⟩
  | negInf => exact ⟨0,by decide +kernel,by decide +kernel,by decide +kernel⟩
  | nan => exact ⟨0,by decide +kernel,by decide +kernel,by decide +kernel⟩
  | finite q =>
    by_cases hcap : 30 < q
    · refine ⟨30,?_,by decide +kernel,by decide +kernel⟩
      have h30 : (0 : ℚ) < 30 := by decide +kernel
      simp [minDouble, maxDouble, Double.lt, hcap, h30]
    · by_cases hpos : 0 < q
      · refine ⟨q,?_,Rat.le_of_lt hpos,Rat.not_lt.mp hcap⟩
        simp [minDouble, maxDouble, Double.lt, hcap, hpos]
      · refine ⟨0,?_,by decide +kernel,by decide +kernel⟩
        simp [minDouble, maxDouble, Double.lt, hcap, hpos]

end FlaskXxlJob.Client
