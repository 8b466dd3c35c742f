import FlaskXxlJob.Client.AdminClient
import FlaskXxlJob.Client.Batch
import FlaskXxlJob.Config.WellFormed

/-!
The calls of an application whose configuration has been accepted: where their requests go, and
how many requests and waits there are.
-/
namespace FlaskXxlJob.Client
open Python Utils Config

variable {args : Arguments} {elapsed : ℕ → ℤ} {outcomes : ℕ → PostOutcome}

/-! ### One call -/

/-- What a call does at one address: its POSTs and the waits between them. -/
structure Visit where
  posts : List Post := []
  sleeps : List Double := []

/-- At most `n` POSTs, all to `address`, and a wait before each of them but the first at most. -/
structure Visit.Bounded (args : Arguments) (n : ℕ) (v : Visit) (address : String) : Prop where
  posts : v.posts.length ≤ n
  post : ∀ post ∈ v.posts, post = args.post address
  sleeps : v.sleeps.length ≤ v.posts.length - 1
  sleep : ∀ d ∈ v.sleeps, d = args.effectivePolicy.retryBackoff ∧ (Double.finite 0).lt d = true

/-- From `p` to `p'` the call has made the visits `l`. -/
structure Makes (l : List Visit) (p p' : Progress) : Prop where
  posts : p'.posts = p.posts ++ (l.map Visit.posts).flatten
  sleeps : p'.sleeps = p.sleeps ++ (l.map Visit.sleeps).flatten

theorem Makes.trans {l l' : List Visit} {p p₁ p₂ : Progress} (h : Makes l p p₁)
    (h' : Makes l' p₁ p₂) : Makes (l ++ l') p p₂ where
  posts := by rw [h'.posts,h.posts,List.map_append,List.flatten_append,List.append_assoc]
  sleeps := by rw [h'.sleeps,h.sleeps,List.map_append,List.flatten_append,List.append_assoc]

/-- The addresses after the last one that is tried. -/
theorem unvisited (args : Arguments) (n : ℕ) (addresses : List String) (p : Progress) :
    ∃ l, List.Forall₂ (Visit.Bounded args n) l addresses ∧ Makes l p p := by
  induction addresses with
  | nil => exact ⟨[],.nil,by simp,by simp⟩
  | cons address rest ih =>
    obtain ⟨l,hl,hmakes⟩ := ih
    have hempty : Visit.Bounded args n {} address :=
      ⟨Nat.zero_le _,by simp,Nat.zero_le _,by simp⟩
    exact ⟨{} :: l,.cons hempty hl,by simpa using hmakes.posts,by simpa using hmakes.sleeps⟩

variable (args elapsed outcomes)

theorem backoff_sleeps (p : Progress) : ∃ sleeps : List Double,
    (backoff args.effectivePolicy p).posts = p.posts ∧
    (backoff args.effectivePolicy p).sleeps = p.sleeps ++ sleeps ∧ sleeps.length ≤ 1 ∧
    ∀ d ∈ sleeps, d = args.effectivePolicy.retryBackoff ∧ (Double.finite 0).lt d = true := by
  rw [backoff]
  split
  next h => exact ⟨[args.effectivePolicy.retryBackoff],rfl,rfl,le_rfl,by simpa using h⟩
  · exact ⟨[],rfl,by simp,Nat.zero_le _,by simp⟩

/-- An address is tried once, and once more for each retry. -/
theorem tryAddress_makes (address : String) (remaining : ℕ) (p : Progress) :
    ∃ v : Visit, v.Bounded args (remaining + 1) address ∧ v.posts ≠ [] ∧
      Makes [v] p (tryAddress args elapsed outcomes address remaining p) := by
  have hone : ∀ n, Visit.Bounded args (n + 1) { posts := [args.post address] } address :=
    fun n => ⟨by simp,by simp,Nat.zero_le _,by simp⟩
  have hfirst : Makes [{ posts := [args.post address] }] p
      (attempt args elapsed outcomes address p) := ⟨rfl,by simp [attempt]⟩
  induction remaining generalizing p with
  | zero => exact ⟨_,hone 0,by simp,hfirst⟩
  | succ remaining ih =>
    rw [tryAddress]
    split
    · obtain ⟨sleeps,hposts,hsleeps,hlen,hsleep⟩ :=
        backoff_sleeps args (attempt args elapsed outcomes address p)
      obtain ⟨v,hv,hne,hmakes⟩ := ih (backoff args.effectivePolicy
        (attempt args elapsed outcomes address p)) ⟨rfl,by simp [attempt]⟩
      have hpos : 0 < v.posts.length := List.length_pos_iff.mpr hne
      refine ⟨⟨args.post address :: v.posts,sleeps ++ v.sleeps⟩,⟨?_,?_,?_,?_⟩,by simp,?_,?_⟩
      · have := hv.posts
        simpa using this
      · intro post hp
        rcases List.mem_cons.mp hp with rfl | hp
        · rfl
        · exact hv.post post hp
      · have := hv.sleeps
        simp only [List.length_append,List.length_cons]
        omega
      · intro d hd
        rcases List.mem_append.mp hd with hd | hd
        · exact hsleep d hd
        · exact hv.sleep d hd
      · rw [hmakes.posts,hposts,hfirst.posts]
        simp
      · rw [hmakes.sleeps,hsleeps,hfirst.sleeps]
        simp
    · exact ⟨_,hone _,by simp,hfirst⟩

theorem visit_makes (addresses : List String) (p : Progress) :
    ∃ l, List.Forall₂ (Visit.Bounded args (args.effectivePolicy.retryCount + 1)) l addresses ∧
      Makes l p (visit args elapsed outcomes addresses p) := by
  induction addresses generalizing p with
  | nil => exact unvisited args _ [] p
  | cons address rest ih =>
    obtain ⟨v,hv,-,hmakes⟩ := tryAddress_makes args elapsed outcomes address
      args.effectivePolicy.retryCount p
    obtain ⟨l,hl,hnone⟩ := unvisited args (args.effectivePolicy.retryCount + 1) rest
      (tryAddress args elapsed outcomes address args.effectivePolicy.retryCount p)
    have hstop := hmakes.trans hnone
    rw [visit]
    split
    · exact ⟨v :: l,.cons hv hl,hstop⟩
    · split
      · obtain ⟨l',hl',hrest⟩ := ih (tryAddress args elapsed outcomes address
          args.effectivePolicy.retryCount p)
        exact ⟨v :: l',.cons hv hl',hmakes.trans hrest⟩
      · exact ⟨v :: l,.cons hv hl,hstop⟩

/-! ### Accepted configurations -/

def apiPaths : List String := [registryPath,registryRemovePath,callbackPath]

theorem joinUrl_api {address apiPath : String} (ha : address.toList.getLast? ≠ some '/')
    (hp : apiPath ∈ apiPaths) : joinUrl address apiPath = address ++ apiPath := by
  have hbase : rstripBy isSlash address = address := by
    rw [rstripBy,rdropWhile_of_last ha,String.ofList_toList]
  have hpath : ∃ path, rstripBy isSlash (lstripBy isSlash apiPath) = path ∧ path ≠ "" ∧
      apiPath = "/" ++ path := by
    simp only [apiPaths,List.mem_cons,List.not_mem_nil,or_false] at hp
    rcases hp with rfl | rfl | rfl
    · exact ⟨"api/registry",by decide +kernel,by decide,by decide +kernel⟩
    · exact ⟨"api/registryRemove",by decide +kernel,by decide,by decide +kernel⟩
    · exact ⟨"api/callback",by decide +kernel,by decide,by decide +kernel⟩
  obtain ⟨path,htrimmed,hne,heq⟩ := hpath
  rw [joinUrl,hbase,htrimmed]
  simp only [if_neg hne]
  rw [String.append_assoc,← heq]

/-- Where the POSTs and the waits at one address stay. -/
structure Visit.Within (lib : Library) (cfg : XXLJobConfig) (apiPath : String) (payload : Value)
    (v : Visit) (address : String) : Prop where
  valid : HttpUrl lib address
  posts : v.posts.length ≤ 11
  post : ∀ post ∈ v.posts, post.address = address ∧ post.url = address ++ apiPath ∧
    post.payload = payload ∧ 0 < post.timeout.1 ∧ 0 < post.timeout.2 ∧
    post.headers.lookup accessTokenHeader =
      (if cfg.accessToken = "" then none else some cfg.accessToken)
  sleeps : v.sleeps.length ≤ 10
  sleep : ∀ d ∈ v.sleeps, ∃ q, d = .finite q ∧ 0 < q ∧ q ≤ 30

/-- The call makes one visit, which may be empty, to each address of the configuration. -/
def WithinConfiguration (lib : Library) (cfg : XXLJobConfig) (apiPath : String) (payload : Value)
    (p : Progress) : Prop :=
  ∃ l, List.Forall₂ (Visit.Within lib cfg apiPath payload) l cfg.adminAddresses ∧
    p.posts = (l.map Visit.posts).flatten ∧ p.sleeps = (l.map Visit.sleeps).flatten

theorem lookup_token (accessToken : String) : (buildHeaders accessToken).lookup accessTokenHeader =
    if accessToken = "" then none else some accessToken := by
  rw [buildHeaders]
  split
  · rfl
  · rfl

/-- A visit of a call under an accepted configuration. -/
theorem Visit.Bounded.within {lib : Library} {cfg : XXLJobConfig} (hw : WellFormed lib cfg)
    {apiPath : String} (hp : apiPath ∈ apiPaths) {payload : Value} {v : Visit} {address : String}
    (hv : v.Bounded (adminArguments cfg apiPath payload)
      ((AdminCallPolicy.fromConfig cfg).retryCount + 1) address)
    (hurl : HttpUrl lib address) (hlast : address.toList.getLast? ≠ some '/') :
    v.Within lib cfg apiPath payload address where
  valid := hurl
  posts := by
    have hposts := hv.posts
    have hretry := AdminCallPolicy.fromConfig_retryCount_le cfg
    omega
  post post hm := by
    rw [hv.post post hm]
    simp only [Arguments.post,adminArguments]
    exact ⟨trivial,joinUrl_api hlast hp,trivial,hw.limits.timeout.1,hw.limits.timeout.2,
      lookup_token cfg.accessToken⟩
  sleeps := by
    have hposts := hv.posts
    have hsleeps := hv.sleeps
    have hretry := AdminCallPolicy.fromConfig_retryCount_le cfg
    omega
  sleep d hd := by
    obtain ⟨rfl,hpos⟩ := hv.sleep d hd
    obtain ⟨q,hq,-,hle⟩ := AdminCallPolicy.fromConfig_retryBackoff cfg
    have hback : (adminArguments cfg apiPath payload).effectivePolicy.retryBackoff = .finite q := hq
    rw [hback] at hpos ⊢
    exact ⟨q,rfl,of_decide_eq_true hpos,hle⟩

theorem within_visits {lib : Library} {cfg : XXLJobConfig} (hw : WellFormed lib cfg)
    {apiPath : String} (hp : apiPath ∈ apiPaths) {payload : Value} {l : List Visit}
    {addresses : List String} (h : List.Forall₂ (Visit.Bounded (adminArguments cfg apiPath payload)
      ((AdminCallPolicy.fromConfig cfg).retryCount + 1)) l addresses)
    (ha : ∀ address ∈ addresses, HttpUrl lib address ∧ address.toList.getLast? ≠ some '/') :
    List.Forall₂ (Visit.Within lib cfg apiPath payload) l addresses := by
  induction h with
  | nil => exact .nil
  | cons hv _ ih =>
    obtain ⟨hurl,hlast⟩ := ha _ List.mem_cons_self
    exact .cons (hv.within hw hp hurl hlast)
      (ih fun address hm => ha address (List.mem_cons_of_mem _ hm))

/-- The calls of an application with an accepted configuration go to its own Admins, with the
configured token or none, and are bounded in their number, their waits and their timeouts. -/
theorem configured_calls_bounded {lib : Library} (hf : lib.FloatsKeepSign)
    {config : List (String × Value)} {cfg : XXLJobConfig} (h : fromMapping lib config = .ok cfg)
    (hen : cfg.enabled = true) {apiPath : String} (hp : apiPath ∈ apiPaths) (payload : Value)
    (elapsed : ℕ → ℤ) (outcomes : ℕ → PostOutcome) :
    WithinConfiguration lib cfg apiPath payload (visit (adminArguments cfg apiPath payload) elapsed
      outcomes cfg.adminAddresses { lastResult := noAddress }) := by
  have hwell := fromMapping_wellFormed hf h
  obtain ⟨l,hl,hmakes⟩ := visit_makes (adminArguments cfg apiPath payload) elapsed outcomes
    cfg.adminAddresses { lastResult := noAddress }
  exact ⟨l,within_visits hwell hp hl (hwell.adminAddresses hen),by simpa using hmakes.posts,
    by simpa using hmakes.sleeps⟩

/-- Two Admins that never answer, with more retries and longer waits than are allowed. -/
theorem configured_calls_bounded_capped : ∃ cfg p, fromMapping .localhost
      [("XXL_JOB_ADMIN_ADDRESSES",.str "http://a:8080/,http://b:8080"),
        ("XXL_JOB_ADMIN_RETRY_COUNT",.int 20),("XXL_JOB_ADMIN_RETRY_BACKOFF",.int 60)] = .ok cfg ∧
    p.posts.length = 22 ∧ p.sleeps = List.replicate 20 (.finite 30) ∧
    WithinConfiguration .localhost cfg registryPath .none p := by
  obtain ⟨cfg,hcfg,hen,hposts,hsleeps⟩ : ∃ cfg, fromMapping .localhost
      [("XXL_JOB_ADMIN_ADDRESSES",.str "http://a:8080/,http://b:8080"),
        ("XXL_JOB_ADMIN_RETRY_COUNT",.int 20),("XXL_JOB_ADMIN_RETRY_BACKOFF",.int 60)] = .ok cfg ∧
      cfg.enabled = true ∧ (visit (adminArguments cfg registryPath .none) (fun _ => 0)
        (fun _ => .timeout "ReadTimeout" "timed out") cfg.adminAddresses
        { lastResult := noAddress }).posts.length = 22 ∧
      (visit (adminArguments cfg registryPath .none) (fun _ => 0)
        (fun _ => .timeout "ReadTimeout" "timed out") cfg.adminAddresses
        { lastResult := noAddress }).sleeps = List.replicate 20 (.finite 30) :=
    ⟨_,rfl,rfl,by decide +kernel,by decide +kernel⟩
  exact ⟨cfg,_,hcfg,hposts,hsleeps,configured_calls_bounded Config.localhost_floatsKeepSign hcfg
    hen (by decide) .none _ _⟩

end FlaskXxlJob.Client
