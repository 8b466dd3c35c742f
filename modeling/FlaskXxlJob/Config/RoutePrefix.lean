import FlaskXxlJob.Config.Checks
import FlaskXxlJob.Delimited.Segments
import FlaskXxlJob.Utils.Url

/-!
The route prefix: which texts are accepted, what they are normalized to, and how the executor
address and the executor's paths are made of the normalized prefix.
-/
namespace FlaskXxlJob.Config
open Python Utils Delimited

/-! ### Normalization -/

/-- The control characters the checks reject. -/
def isControl (c : Char) : Bool := c.toNat < 0x20 || c.toNat == 0x7f

def isForbidden (c : Char) : Bool :=
  ['?','#','%','\\','<','>'].contains c || isControl c || isSpace c

def dropLeadingSlash : List Char → List Char
  | '/' :: rest => rest
  | text => text

def dropTrailingSlash (text : List Char) : List Char :=
  if text.getLast? = some '/' then text.dropLast else text

/-- `_normalize_prefix` -/
def normalizePrefix (route : String) : Checked String :=
  if route = "" then .ok ""
  else if route = "/" then .ok ""
  else if route.toList.any isForbidden then
    fail ("XXL_JOB_ROUTE_PREFIX must be a static Flask path without " ++
      "whitespace, control characters, query syntax, fragments, " ++
      "percent encoding, backslashes, or converters.")
  else if ['/','/'] <:+: route.toList then
    fail "XXL_JOB_ROUTE_PREFIX must not contain consecutive slashes."
  else
    let normalized := dropTrailingSlash (dropLeadingSlash route.toList)
    if normalized = [] ∨ ∃ segment ∈ normalized.splitOn '/', segment ∈ [['.'],['.','.']] then
      fail ("XXL_JOB_ROUTE_PREFIX must be a static path without '.' or '..' " ++
        "segments.")
    else .ok (.ofList ('/' :: normalized))

/-! ### The grammar -/

/-- A character without a meaning of its own in a URL or in a route, which is neither white space
nor a control character. -/
structure Static (c : Char) : Prop where
  query : c ≠ '?'
  fragment : c ≠ '#'
  percent : c ≠ '%'
  backslash : c ≠ '\\'
  less : c ≠ '<'
  greater : c ≠ '>'
  space : isSpace c = false
  printing : 0x20 ≤ c.toNat
  delete : c.toNat ≠ 0x7f

theorem isForbidden_eq_false_iff {c : Char} : isForbidden c = false ↔ Static c := by
  have hstatic : Static c ↔ (c ≠ '?' ∧ c ≠ '#' ∧ c ≠ '%' ∧ c ≠ '\\' ∧ c ≠ '<' ∧ c ≠ '>') ∧
      (0x20 ≤ c.toNat ∧ c.toNat ≠ 0x7f) ∧ isSpace c = false := by
    constructor
    · rintro ⟨h₁,h₂,h₃,h₄,h₅,h₆,h₇,h₈,h₉⟩
      exact ⟨⟨h₁,h₂,h₃,h₄,h₅,h₆⟩,⟨h₈,h₉⟩,h₇⟩
    · rintro ⟨⟨h₁,h₂,h₃,h₄,h₅,h₆⟩,⟨h₈,h₉⟩,h₇⟩
      exact ⟨h₁,h₂,h₃,h₄,h₅,h₆,h₇,h₈,h₉⟩
  rw [hstatic]
  simp [isForbidden,isControl,and_assoc]

/-- The segments of a static path. -/
structure Path (segments : List (List Char)) : Prop extends Proper '/' segments where
  static : ∀ s ∈ segments, ∀ c ∈ s, Static c
  dots : ∀ s ∈ segments, s ≠ ['.'] ∧ s ≠ ['.','.']

/-- The text of a path, without slashes at its ends. -/
abbrev join (segments : List (List Char)) : List Char := ['/'].intercalate segments

def slash : Bool → List Char
  | true => ['/']
  | false => []

/-- The accepted prefixes and what they stand for. -/
inductive Normalizes : String → String → Prop
  | empty : Normalizes "" ""
  | root : Normalizes "/" ""
  | path {segments : List (List Char)} (leading trailing : Bool) : Path segments →
      Normalizes (.ofList (slash leading ++ join segments ++ slash trailing))
        (.ofList ('/' :: join segments))

theorem dropLeadingSlash_of_head {text : List Char} (h : text.head? ≠ some '/') :
    dropLeadingSlash text = text := by
  fun_cases dropLeadingSlash text
  next rest => exact absurd rfl h
  next => rfl

theorem exists_dropLeadingSlash (text : List Char) : ∃ leading,
    text = slash leading ++ dropLeadingSlash text ∧
    (leading = false → (dropLeadingSlash text).head? ≠ some '/') := by
  by_cases h : text.head? = some '/'
  · obtain ⟨rest,rfl⟩ := List.head?_eq_some_iff.mp h
    exact ⟨true,rfl,by simp⟩
  · exact ⟨false,by simp [slash,dropLeadingSlash_of_head h],fun _ => by
      rwa [dropLeadingSlash_of_head h]⟩

theorem exists_dropTrailingSlash (text : List Char) : ∃ trailing,
    text = dropTrailingSlash text ++ slash trailing ∧
    (trailing = false → (dropTrailingSlash text).getLast? ≠ some '/') := by
  rw [dropTrailingSlash]
  split
  next h =>
    obtain ⟨rest,rfl⟩ := List.getLast?_eq_some_iff.mp h
    exact ⟨true,by simp [slash],by simp⟩
  next h => exact ⟨false,by simp [slash],fun _ => h⟩

namespace Path

variable {segments : List (List Char)} (h : Path segments)
include h

theorem isForbidden_join {c : Char} (hc : c ∈ join segments) : isForbidden c = false := by
  rcases mem_intercalate hc with rfl | ⟨s,hs,hcs⟩
  · rfl
  · exact isForbidden_eq_false_iff.mpr (h.static s hs c hcs)

theorem splitOn_join : (join segments).splitOn '/' = segments :=
  List.splitOn_intercalate '/' h.segment h.nonempty

theorem dropLeadingSlash_join (leading : Bool) (rest : List Char) :
    dropLeadingSlash (slash leading ++ (join segments ++ rest)) = join segments ++ rest := by
  cases leading with
  | true => rfl
  | false =>
    apply dropLeadingSlash_of_head
    rw [slash,List.nil_append,List.head?_append_of_ne_nil _ h.join_ne_nil]
    exact h.head_ne

theorem dropTrailingSlash_join (trailing : Bool) :
    dropTrailingSlash (join segments ++ slash trailing) = join segments := by
  cases trailing with
  | true => simp [dropTrailingSlash,slash]
  | false =>
    rw [dropTrailingSlash,slash,List.append_nil,if_neg h.last_ne]

/-- A path between at most two more slashes doubles none. -/
theorem not_doubled_slashes (leading trailing : Bool) :
    ¬ ['/','/'] <:+: slash leading ++ join segments ++ slash trailing := by
  intro hx
  apply h.not_doubled
  apply hx.trans
  cases leading <;> cases trailing
  · exact ⟨['/'],['/'],by simp [slash]⟩
  · exact ⟨['/'],[],by simp [slash]⟩
  · exact ⟨[],['/'],by simp [slash]⟩
  · exact ⟨[],[],by simp [slash]⟩

theorem normalizePrefix_join (leading trailing : Bool) :
    normalizePrefix (.ofList (slash leading ++ join segments ++ slash trailing)) =
      .ok (.ofList ('/' :: join segments)) := by
  have hdrop : dropTrailingSlash (dropLeadingSlash (slash leading ++ join segments ++
      slash trailing)) = join segments := by
    rw [List.append_assoc,h.dropLeadingSlash_join,h.dropTrailingSlash_join]
  generalize htext : slash leading ++ join segments ++ slash trailing = text at *
  have hne : dropTrailingSlash (dropLeadingSlash text) ≠ [] := by
    rw [hdrop]
    exact h.join_ne_nil
  have hempty : String.ofList text ≠ "" := by
    intro he
    apply hne
    rw [show text = [] by simpa using he]
    rfl
  have hroot : String.ofList text ≠ "/" := by
    intro he
    apply hne
    rw [show text = ['/'] by simpa using congrArg String.toList he]
    rfl
  have hchars : text.any isForbidden = false := by
    rw [List.any_eq_false]
    intro c hc
    rw [← htext,List.mem_append,List.mem_append] at hc
    have hslash : ∀ b, c ∈ slash b → isForbidden c = false := by
      intro b hb
      cases b with
      | true =>
        obtain rfl := List.mem_singleton.mp hb
        rfl
      | false => cases hb
    rcases hc with (hl | hm) | ht
    · simp [hslash _ hl]
    · simp [h.isForbidden_join hm]
    · simp [hslash _ ht]
  have hdouble : ¬ ['/','/'] <:+: text := by
    rw [← htext]
    exact h.not_doubled_slashes leading trailing
  have hdots : ¬ (join segments = [] ∨
      ∃ segment ∈ segments, segment ∈ [['.'],['.','.']]) := by
    rintro (hnil | ⟨s,hs,hd⟩)
    · exact h.join_ne_nil hnil
    · have := h.dots s hs
      simp only [List.mem_cons,List.not_mem_nil,or_false] at hd
      exact hd.elim this.1 this.2
  rw [normalizePrefix,if_neg hempty,if_neg hroot]
  simp only [String.toList_ofList,hchars,hdrop,h.splitOn_join,if_neg hdouble,if_neg hdots]
  rfl

end Path

/-- A text that doubles no slash has no empty segment between its outer slashes. -/
theorem doubled_outer {body : List Char} (hbody : body ≠ []) {leading trailing : Bool}
    (hlead : leading = false → body.head? ≠ some '/')
    (htrail : trailing = false → body.getLast? ≠ some '/')
    (h : ['/','/'] <:+: '/' :: (body ++ ['/'])) :
    ['/','/'] <:+: slash leading ++ (body ++ slash trailing) := by
  have hleft : ['/','/'] <:+: slash leading ++ body ++ ['/'] := by
    cases leading with
    | true => exact h
    | false =>
      apply doubled_cons _ h
      rw [List.head?_append_of_ne_nil _ hbody]
      exact hlead rfl
  rw [← List.append_assoc]
  cases trailing with
  | true => exact hleft
  | false =>
    rw [slash,List.append_nil]
    apply doubled_concat _ hleft
    rw [List.getLast?_append_of_ne_nil _ hbody]
    exact htrail rfl

/-- The checks leave a path between the dropped slashes. -/
theorem path_splitOn {body : List Char} {leading trailing : Bool} (hbody : body ≠ [])
    (hlead : leading = false → body.head? ≠ some '/')
    (htrail : trailing = false → body.getLast? ≠ some '/')
    (hdouble : ¬ ['/','/'] <:+: slash leading ++ (body ++ slash trailing))
    (hchars : ∀ c ∈ body, isForbidden c = false)
    (hdots : ∀ s ∈ body.splitOn '/', s ∉ [['.'],['.','.']]) : Path (body.splitOn '/') where
  toSegmented := segmented_splitOn '/' body
  full := by
    intro hnil
    have hd := (segmented_splitOn '/' body).doubled_iff.mpr hnil
    rw [List.intercalate_splitOn] at hd
    exact hdouble (doubled_outer hbody hlead htrail hd)
  static s hs c hc := by
    have hmem := mem_intercalate_of_mem (a := '/') hs hc
    rw [List.intercalate_splitOn] at hmem
    exact isForbidden_eq_false_iff.mp (hchars c hmem)
  dots s hs := by simpa using hdots s hs

theorem Normalizes.of_ok {route result : String} (h : normalizePrefix route = .ok result) :
    Normalizes route result := by
  rw [normalizePrefix] at h
  split at h
  next he =>
    cases h
    subst he
    exact .empty
  next =>
  split at h
  next he =>
    cases h
    subst he
    exact .root
  next =>
  split at h
  next => cases h
  next hchars =>
  split at h
  next => cases h
  next hdouble =>
  simp only at h
  split at h
  next => cases h
  next hdots =>
  cases h
  obtain ⟨leading,hl,hlead⟩ := exists_dropLeadingSlash route.toList
  obtain ⟨trailing,ht,htrail⟩ := exists_dropTrailingSlash (dropLeadingSlash route.toList)
  generalize dropTrailingSlash (dropLeadingSlash route.toList) = body at *
  rw [ht] at hl hlead
  have hbody : body ≠ [] := fun hb => hdots (Or.inl hb)
  have hpath : Path (body.splitOn '/') := by
    apply path_splitOn hbody _ htrail (hl ▸ hdouble)
    · intro c hc
      have hroute : c ∈ route.toList := by simp [hl,hc]
      simpa using List.any_eq_false.mp (by simpa using hchars) c hroute
    · exact fun s hs hd => hdots (Or.inr ⟨s,hs,hd⟩)
    · intro hfalse
      have := hlead hfalse
      rwa [List.head?_append_of_ne_nil _ hbody] at this
  have hjoin : join (body.splitOn '/') = body := List.intercalate_splitOn '/'
  have hn := Normalizes.path leading trailing hpath
  rw [hjoin,List.append_assoc,← hl,String.ofList_toList] at hn
  exact hn

/-- A prefix is accepted just when the grammar has it, and then becomes what the grammar says. -/
theorem normalizePrefix_ok_iff {route result : String} :
    normalizePrefix route = .ok result ↔ Normalizes route result := by
  constructor
  · exact .of_ok
  · intro h
    cases h with
    | empty => rfl
    | root => rfl
    | path leading trailing hpath => exact hpath.normalizePrefix_join leading trailing

/-- What is not accepted is a configuration error. -/
theorem normalizePrefix_rejects {route : String}
    (h : ∀ result, normalizePrefix route ≠ .ok result) :
    ∃ message, normalizePrefix route = .error (.configError message) := by
  revert h
  fun_cases normalizePrefix route with
  | case1 | case2 | case6 => exact fun h => absurd rfl (h _)
  | case3 | case4 | case5 => exact fun _ => ⟨_,rfl⟩

/-- A normalized prefix is normalized to itself. -/
theorem normalizePrefix_idem {route result : String} (h : normalizePrefix route = .ok result) :
    normalizePrefix result = .ok result := by
  rw [normalizePrefix_ok_iff] at h ⊢
  cases h with
  | empty | root => exact .empty
  | path leading trailing hpath =>
    have := Normalizes.path true false hpath
    simpa [slash] using this

end FlaskXxlJob.Config
