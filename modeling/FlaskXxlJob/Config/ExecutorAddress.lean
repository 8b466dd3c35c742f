import FlaskXxlJob.Config.FromMapping
import FlaskXxlJob.Python.Raising

/-!
The advertised executor address against the served paths: the address that Admin gets, followed
by an endpoint's suffix, is the trimmed base address followed by a path the executor serves.
-/
namespace FlaskXxlJob.Config
open Python Utils Delimited

def executorRouteSuffixes : List String := ["/beat","/idleBeat","/run","/kill","/log"]

def executorPaths (routePrefix : String) : List String := executorRouteSuffixes.map (routePrefix ++ ·)

/-! ### Joining -/

theorem rstripBy_idem (p : Char → Bool) (s : String) :
    rstripBy p (rstripBy p s) = rstripBy p s := by
  simp [rstripBy,List.rdropWhile_idempotent]

theorem rdropWhile_of_last {text : List Char} (h : text.getLast? ≠ some '/') :
    text.rdropWhile isSlash = text := by
  rw [List.rdropWhile_eq_self_iff]
  intro hne hlast
  apply h
  rw [List.getLast?_eq_some_getLast hne]
  simpa [isSlash] using hlast

theorem last_rstripBy (s : String) : (rstripBy isSlash s).toList.getLast? ≠ some '/' := by
  intro h
  rw [rstripBy,String.toList_ofList] at h
  obtain ⟨rest,hrest⟩ := List.getLast?_eq_some_iff.mp h
  have hne : s.toList.rdropWhile isSlash ≠ [] := by simp [hrest]
  have hlast := List.rdropWhile_last_not isSlash s.toList hne
  simp [hrest,isSlash] at hlast

theorem dropWhile_slash {text : List Char} (h : text.head? ≠ some '/') :
    ('/' :: text).dropWhile isSlash = text := by
  cases text with
  | nil => rfl
  | cons c text =>
    have hc : c ≠ '/' := by simpa using h
    simp [isSlash,hc]

/-- Joining with a normalized prefix appends it. -/
theorem joinUrl_path {segments : List (List Char)} (h : Path segments) (base : String) :
    joinUrl base (.ofList ('/' :: join segments)) =
      rstripBy isSlash base ++ .ofList ('/' :: join segments) := by
  have htrimmed : rstripBy isSlash (lstripBy isSlash (.ofList ('/' :: join segments))) =
      .ofList (join segments) := by
    rw [rstripBy,lstripBy,String.toList_ofList,String.toList_ofList,
      dropWhile_slash h.head_ne,rdropWhile_of_last h.last_ne]
  have hne : String.ofList (join segments) ≠ "" := by simpa using h.join_ne_nil
  have hcons : String.ofList ('/' :: join segments) = "/" ++ String.ofList (join segments) := by
    rw [← List.singleton_append,String.ofList_append]
  simp only [joinUrl,htrimmed,if_neg hne]
  rw [hcons,String.append_assoc]

theorem applyRoutePrefix_eq {route routePrefix address : String}
    (h : normalizePrefix route = .ok routePrefix) (ha : rstripBy isSlash address ≠ "") :
    applyRoutePrefix (normalizeAddress address) routePrefix =
      rstripBy isSlash address ++ routePrefix := by
  have hne : address ≠ "" := by
    rintro rfl
    exact ha rfl
  rw [normalizeAddress,if_neg hne,applyRoutePrefix]
  cases normalizePrefix_ok_iff.mp h with
  | empty | root => simp
  | @path segments leading trailing hpath =>
    have hresult : String.ofList ('/' :: join segments) ≠ "" := by simp
    rw [if_neg (not_or.mpr ⟨ha,hresult⟩),joinUrl_path hpath,rstripBy_idem]

/-- Two texts meet at one slash. -/
structure Meet (left right : String) : Prop where
  left : left.toList.getLast? ≠ some '/'
  right : ∃ rest, right.toList = '/' :: rest ∧ rest.head? ≠ some '/'

theorem head_normalized {route routePrefix : String} (h : normalizePrefix route = .ok routePrefix)
    (hne : routePrefix ≠ "") :
    ∃ rest, routePrefix.toList = '/' :: rest ∧ rest.head? ≠ some '/' := by
  cases normalizePrefix_ok_iff.mp h with
  | empty | root => exact absurd rfl hne
  | @path segments leading trailing hpath => exact ⟨join segments,by simp,hpath.head_ne⟩

theorem suffix_slash {suffix : String} (h : suffix ∈ executorRouteSuffixes) :
    ∃ rest, suffix.toList = '/' :: rest ∧ rest.head? ≠ some '/' := by
  simp only [executorRouteSuffixes,List.mem_cons,List.not_mem_nil,or_false] at h
  rcases h with rfl | rfl | rfl | rfl | rfl <;> exact ⟨_,rfl,by decide⟩

theorem last_normalized {route routePrefix : String} (h : normalizePrefix route = .ok routePrefix) :
    routePrefix.toList.getLast? ≠ some '/' := by
  cases normalizePrefix_ok_iff.mp h with
  | empty | root => decide
  | path leading trailing hpath =>
    rw [String.toList_ofList,← List.singleton_append,
      List.getLast?_append_of_ne_nil _ hpath.join_ne_nil]
    exact hpath.last_ne

/-! ### What a configuration keeps of its addresses -/

structure SameAddresses (cfg cfg' : XXLJobConfig) : Prop where
  enabled : cfg'.enabled = cfg.enabled
  executorAddress : cfg'.executorAddress = cfg.executorAddress
  routePrefix : cfg'.routePrefix = cfg.routePrefix

variable {lib : Library} {merged : List (String × Value)} {cfg cfg' : XXLJobConfig}

theorem readLimits_same (h : readLimits lib merged cfg = .ok cfg') : SameAddresses cfg cfg' := by
  rw [readLimits] at h
  iterate 12 obtain ⟨_,-,h⟩ := bind_ok_iff.mp h
  cases h
  exact ⟨rfl,rfl,rfl⟩

theorem readLogging_same (h : readLogging lib merged cfg = .ok cfg') : SameAddresses cfg cfg' := by
  rw [readLogging] at h
  iterate 14 obtain ⟨_,-,h⟩ := bind_ok_iff.mp h
  cases h
  exact ⟨rfl,rfl,rfl⟩

theorem asStrStrict_ok {key text : String} (h : asStrStrict merged key = .ok text) :
    get merged key = .str text := by
  rw [asStrStrict] at h
  split at h
  next hget =>
    cases h
    exact hget
  next => cases h

theorem readAddresses_ok (h : readAddresses merged = .ok cfg) (hen : cfg.enabled = true) :
    ∃ route address, get merged "XXL_JOB_ROUTE_PREFIX" = .str route ∧
      get merged "XXL_JOB_EXECUTOR_ADDRESS" = .str address ∧
      normalizePrefix route = .ok cfg.routePrefix ∧
      cfg.executorAddress = applyRoutePrefix (normalizeAddress address) cfg.routePrefix := by
  rw [readAddresses] at h
  iterate 5 obtain ⟨_,-,h⟩ := bind_ok_iff.mp h
  obtain ⟨route,hroute,h⟩ := bind_ok_iff.mp h
  obtain ⟨address,haddress,h⟩ := bind_ok_iff.mp h
  obtain ⟨rawAdmin,-,h⟩ := bind_ok_iff.mp h
  obtain ⟨interpreted,hi,h⟩ := bind_ok_iff.mp h
  cases h
  simp only at hen
  rw [interpretAddresses,if_pos hen] at hi
  obtain ⟨routePrefix,hp,hi⟩ := bind_ok_iff.mp hi
  cases hi
  exact ⟨route,address,asStrStrict_ok hroute,asStrStrict_ok haddress,hp,rfl⟩

theorem fromMapping_ok {config : List (String × Value)} (h : fromMapping lib config = .ok cfg)
    (hen : cfg.enabled = true) :
    ∃ route address, get (merge config) "XXL_JOB_ROUTE_PREFIX" = .str route ∧
      get (merge config) "XXL_JOB_EXECUTOR_ADDRESS" = .str address ∧
      normalizePrefix route = .ok cfg.routePrefix ∧
      cfg.executorAddress = applyRoutePrefix (normalizeAddress address) cfg.routePrefix := by
  rw [fromMapping] at h
  obtain ⟨_,-,h⟩ := bind_ok_iff.mp h
  obtain ⟨cfg₁,h₁,h⟩ := bind_ok_iff.mp h
  obtain ⟨cfg₂,h₂,h⟩ := bind_ok_iff.mp h
  obtain ⟨cfg₃,h₃,h⟩ := bind_ok_iff.mp h
  obtain ⟨_,-,h⟩ := bind_ok_iff.mp h
  cases h
  have hlimits := readLimits_same h₂
  have hlogging := readLogging_same h₃
  have hen₁ : cfg₁.enabled = true := by rw [← hlimits.enabled,← hlogging.enabled,hen]
  have := readAddresses_ok h₁ hen₁
  rwa [← hlimits.executorAddress,← hlimits.routePrefix,← hlogging.executorAddress,
    ← hlogging.routePrefix] at this

/-- The route prefix has the grammar, and the advertised address agrees with the served paths. -/
theorem route_prefix_agrees (lib : Library) :
    (∀ route result, normalizePrefix route = .ok result ↔ Normalizes route result) ∧
    (∀ route, (∀ result, ¬ Normalizes route result) →
      ∃ message, normalizePrefix route = .error (.configError message)) ∧
    (∀ route result, normalizePrefix route = .ok result → normalizePrefix result = .ok result) ∧
    ∀ config cfg address, fromMapping lib config = .ok cfg → cfg.enabled = true →
      get (merge config) "XXL_JOB_EXECUTOR_ADDRESS" = .str address →
      rstripBy isSlash address ≠ "" →
      cfg.executorAddress = rstripBy isSlash address ++ cfg.routePrefix ∧
      (cfg.routePrefix ≠ "" → Meet (rstripBy isSlash address) cfg.routePrefix) ∧
      ∀ suffix ∈ executorRouteSuffixes,
        cfg.routePrefix ++ suffix ∈ executorPaths cfg.routePrefix ∧
        cfg.executorAddress ++ suffix = rstripBy isSlash address ++ (cfg.routePrefix ++ suffix) ∧
        Meet cfg.executorAddress suffix ∧ Meet cfg.routePrefix suffix := by
  refine ⟨fun _ _ => normalizePrefix_ok_iff,?_,fun _ _ => normalizePrefix_idem,?_⟩
  · intro route hroute
    exact normalizePrefix_rejects fun result h => hroute result (.of_ok h)
  · intro config cfg address hcfg hen haddress htrimmed
    obtain ⟨route,address',-,haddress',hroute,hexec⟩ := fromMapping_ok hcfg hen
    obtain rfl : address = address' := by
      rw [haddress] at haddress'
      exact Value.str.inj haddress'
    rw [applyRoutePrefix_eq hroute htrimmed] at hexec
    refine ⟨hexec,fun hne => ⟨last_rstripBy address,head_normalized hroute hne⟩,?_⟩
    intro suffix hsuffix
    have hlast : cfg.executorAddress.toList.getLast? ≠ some '/' := by
      rw [hexec,String.toList_append]
      by_cases hne : cfg.routePrefix = ""
      · simpa [hne] using last_rstripBy address
      · rw [List.getLast?_append_of_ne_nil _ (by simpa using hne)]
        exact last_normalized hroute
    have hslash := suffix_slash hsuffix
    refine ⟨List.mem_map_of_mem hsuffix,?_,⟨hlast,hslash⟩,⟨last_normalized hroute,hslash⟩⟩
    rw [hexec,String.append_assoc]

/-- A library that parses every address as `http://localhost:8080`. -/
def Library.localhost : Library where
  repr s := "'" ++ s ++ "'"
  reprFloat _ := "-1.0"
  upper s := s
  lower s := s
  floatOfInt i := some (.finite i)
  isDigit c := c.isDigit
  isAlnum c := c.isAlphanum
  urlsplit _ := .returned
    { scheme := "http", hostname := some "localhost", port := some 8080, username := none,
      password := none, query := "", fragment := "" }
  isIpAddress _ := false
  encodeIdna s := some s
  lookupCodec _ := .returned ()
  formatRecord _ _ := .returned ()

/-- A nested prefix behind an address with two trailing slashes. -/
theorem route_prefix_agrees_nested : ∃ cfg,
    fromMapping .localhost [("XXL_JOB_ROUTE_PREFIX",.str "api/job/"),
      ("XXL_JOB_EXECUTOR_ADDRESS",.str "http://localhost:8080//")] = .ok cfg ∧
    cfg.executorAddress ++ "/run" = "http://localhost:8080/api/job/run" := by
  obtain ⟨cfg,hcfg,hen,hroute⟩ : ∃ cfg, fromMapping .localhost
      [("XXL_JOB_ROUTE_PREFIX",.str "api/job/"),
        ("XXL_JOB_EXECUTOR_ADDRESS",.str "http://localhost:8080//")] = .ok cfg ∧
      cfg.enabled = true ∧ cfg.routePrefix = "/api/job" := ⟨_,rfl,rfl,rfl⟩
  have h := (route_prefix_agrees .localhost).2.2.2 _ cfg "http://localhost:8080//" hcfg hen
    rfl (by decide +kernel)
  refine ⟨cfg,hcfg,?_⟩
  rw [h.1,hroute]
  decide +kernel

end FlaskXxlJob.Config
