import FlaskXxlJob.Python.Str
import FlaskXxlJob.Registry.Status
import FlaskXxlJob.Rewriting.Spans

/-!
Redaction of the plugin's diagnostic text, and where the redacted texts end up: in the
messages of the managed log records and in the Registry status.
-/
namespace FlaskXxlJob.Logging
open Python FlaskXxlJob.Client Rewriting

/-! ### The redacted text -/

/-- `value.replace(old, new)` for a non-empty `old`. -/
def replace (value old new : String) : String :=
  .ofList (replaceAll old.toList new.toList value.toList)

/-- What `_PRIVATE_KEY.sub` puts in place of a match. -/
def IsPrivateKeyMarker (_ marker : List Char) : Prop := marker = "<redacted-private-key>".toList

/-- What `_SENSITIVE_ASSIGNMENT.sub` puts in place of a match, which begins with the keyword. -/
def IsAssignmentMarker (span marker : List Char) : Prop :=
  ∃ keyword, keyword <+: span ∧ marker = keyword ++ "=<redacted>".toList

/-- The two substitutions, by the spans they replace. -/
structure Patterns where
  privateKey : String → String
  sensitiveAssignment : String → String
  privateKey_spans : ∀ text, Spans IsPrivateKeyMarker text.toList (privateKey text).toList
  sensitiveAssignment_spans : ∀ text,
    Spans IsAssignmentMarker text.toList (sensitiveAssignment text).toList

/-- `redact_text` -/
def redactText (re : Patterns) (value accessToken : String) : String :=
  let text := if accessToken = "" then value else replace value accessToken "<redacted>"
  re.sensitiveAssignment (re.privateKey text)

/-- A token that no marker can help to form. -/
structure Redactable (token : String) : Prop where
  nonempty : token ≠ ""
  lt : '<' ∉ token.toList
  gt : '>' ∉ token.toList
  eq : '=' ∉ token.toList
  marker : ¬ Contains "redacted-private-key" token

namespace Redactable

variable {token : String} (h : Redactable token)
include h

theorem toList_ne_nil : token.toList ≠ [] := by
  simpa using h.nonempty

theorem free_redacted : ¬ token.toList <:+: "redacted".toList := by
  intro hw
  have hpre : "redacted".toList <:+: "redacted-private-key".toList := ⟨[],"-private-key".toList,rfl⟩
  exact h.marker (hw.trans hpre)

theorem tokenMarker : Marker token.toList [] "<redacted>".toList where
  shape := ⟨[],'<',"redacted".toList,'>',rfl,List.prefix_rfl,h.lt,h.gt,h.free_redacted⟩

theorem privateKeyMarker {span marker : List Char} (hm : IsPrivateKeyMarker span marker) :
    Marker token.toList span marker where
  shape := ⟨[],'<',"redacted-private-key".toList,'>',hm,List.nil_prefix,h.lt,h.gt,h.marker⟩

theorem assignmentMarker {span marker : List Char} (hm : IsAssignmentMarker span marker) :
    Marker token.toList span marker := by
  obtain ⟨keyword,hkeyword,rfl⟩ := hm
  have hlt : ¬ token.toList <:+: "<redacted".toList := by
    intro hw
    rcases infix_append_cons (x := []) h.lt hw with hnil | htail
    · exact h.toList_ne_nil (List.infix_nil.mp hnil)
    · exact h.free_redacted htail
  exact ⟨keyword,'=',"<redacted".toList,'>',rfl,hkeyword,h.eq,h.gt,hlt⟩

/-- The scan leaves no occurrence, and neither substitution forms a new one. -/
theorem not_contains (re : Patterns) (value : String) :
    ¬ Contains (redactText re value token) token := by
  have hscan : ¬ token.toList <:+: (replace value token "<redacted>").toList := by
    simpa [replace] using replaceAll_free h.toList_ne_nil h.tokenMarker value.toList
  have hkey := (re.privateKey_spans _).free (fun _ _ => h.privateKeyMarker) hscan
  have hassign :=
    (re.sensitiveAssignment_spans _).free (fun _ _ => h.assignmentMarker) hkey
  simpa only [Contains,redactText,if_neg h.nonempty] using hassign

end Redactable

/-! ### Managed log records -/

structure LogRecord (Obj : Type) where
  msg : String
  args : List Obj

/-- `getMessage`; the parameter is `%` formatting. -/
def LogRecord.getMessage {Obj : Type} (format : String → List Obj → String)
    (record : LogRecord Obj) : String :=
  if record.args.isEmpty then record.msg else format record.msg record.args

structure SensitiveDataFilter where
  accessToken : String

/-- `SensitiveDataFilter.filter` keeps every record and rewrites its message. -/
def SensitiveDataFilter.filter {Obj : Type} (re : Patterns) (format : String → List Obj → String)
    (self : SensitiveDataFilter) (record : LogRecord Obj) : LogRecord Obj × Bool :=
  (⟨redactText re (record.getMessage format) self.accessToken,[]⟩,true)

theorem SensitiveDataFilter.getMessage_filter {Obj : Type} (re : Patterns)
    (format : String → List Obj → String) (self : SensitiveDataFilter) (record : LogRecord Obj) :
    (self.filter re format record).1.getMessage format =
      redactText re (record.getMessage format) self.accessToken := rfl

/-! ### The Registry status -/

/-- The message of a redacted result is a redacted text. -/
theorem message_safeResult {cfg : Registry.Config} {r : CallResult} {m : String}
    (h : (cfg.safeResult r).message = some m) : ∃ text, m = cfg.redact text := by
  simp only [Registry.Config.safeResult,CallResult.message] at h
  cases hmsg : r.msg with
  | some text =>
    simp only [hmsg,Option.map_some,Option.some.injEq] at h
    exact ⟨text,h.symm⟩
  | none =>
    simp only [hmsg,Option.map_none] at h
    obtain ⟨text,-,rfl⟩ := Option.map_eq_some_iff.mp h
    exact ⟨text,rfl⟩

theorem message_described {cfg : Registry.Config} {n : Registry.Snapshot}
    {history : List Registry.Event} (h : n.Describes cfg history) {m : String}
    (hm : n.lastRegistryMessage = some m) : ∃ text, m = cfg.redact text := by
  cases h with
  | blank _ hn =>
    subst hn
    cases hm
  | completion _ _ _ _ _ r _ _ _ _ hshows =>
    exact message_safeResult (hshows.message.symm.trans hm)
  | localFailure _ _ r _ _ _ hshows =>
    exact message_safeResult (hshows.message.symm.trans hm)

/-- One recorded result, as `_record_result_locked` receives it. -/
structure Record where
  now : String
  result : CallResult
  operation : Registry.Operation

def recordAll (cfg : Registry.Config) (s : Registry.State) (records : List Record) :
    Registry.State :=
  records.foldl (fun s x => Registry.recordResultLocked cfg x.now s x.result x.operation) s

theorem message_recordAll {cfg : Registry.Config} {s : Registry.State} {records : List Record}
    (hs : s.lastRegistryMessage = none) {m : String}
    (hm : (recordAll cfg s records).lastRegistryMessage = some m) :
    ∃ text, m = cfg.redact text := by
  induction records using List.reverseRecOn with
  | nil => exact absurd (hs.symm.trans hm) (by simp)
  | append_singleton records x _ =>
    rw [recordAll,List.foldl_append] at hm
    exact message_safeResult hm

/-- Redaction leaves no occurrence of the token: not in the text, not in a managed log message,
and not in the status after any records or in any run. -/
theorem redaction_complete (re : Patterns) {token : String} (h : Redactable token) :
    (∀ value, ¬ Contains (redactText re value token) token) ∧
    (∀ (Obj : Type) (format : String → List Obj → String) (record : LogRecord Obj),
      ¬ Contains (((SensitiveDataFilter.mk token).filter re format record).1.getMessage format)
        token) ∧
    ∀ cfg : Registry.Config, cfg.redact = (redactText re · token) →
      (∀ records m, (recordAll cfg .blank records).lastRegistryMessage = some m →
        ¬ Contains m token) ∧
      ∀ s, Registry.Reachable cfg s → ∀ m, s.shared.lastRegistryMessage = some m →
        ¬ Contains m token := by
  refine ⟨h.not_contains re,?_,?_⟩
  · intro Obj format record
    rw [SensitiveDataFilter.getMessage_filter]
    exact h.not_contains re _
  · intro cfg hcfg
    have hclean : ∀ {m : String}, (∃ text, m = cfg.redact text) → ¬ Contains m token := by
      rintro _ ⟨text,rfl⟩
      rw [hcfg]
      exact h.not_contains re text
    constructor
    · intro records m hm
      exact hclean (message_recordAll rfl hm)
    · intro s hs m hm
      exact hclean (message_described hs.status.described hm)

/-- The substitutions on texts that match nothing but one assignment. -/
def Patterns.cookie : Patterns where
  privateKey text := text
  sensitiveAssignment text :=
    if text = "cookie: <redacted>" then "cookie=<redacted>" else text
  privateKey_spans text := .kept _
  sensitiveAssignment_spans text := by
    split
    next h =>
      subst h
      have hspan : IsAssignmentMarker "cookie: <redacted>".toList "cookie=<redacted>".toList :=
        ⟨"cookie".toList,⟨": <redacted>".toList,rfl⟩,rfl⟩
      exact .span (k := []) hspan (.kept [])
    next => exact .kept _

/-- A self-overlapping token in a failed registration. -/
theorem redaction_complete_cookie : Redactable "aba" ∧
    redactText .cookie "cookie: aba" "aba" = "cookie=<redacted>" ∧
    ∃ s : Registry.System, s.shared.lastRegistryMessage = some "<redacted>ba" ∧
      ¬ Contains "<redacted>ba" "aba" := by
  have h : Redactable "aba" := ⟨by decide,by decide,by decide,by decide,by decide⟩
  refine ⟨h,by decide +kernel,?_⟩
  obtain ⟨s,hr,hp⟩ := Interleaving.Run.exists_of_schedule
    (f := Registry.step { Registry.Config.plain with redact := (redactText .cookie · "aba") })
    (s := .blank)
    (l := [.call .registerExecutor,
      .run 0 { outcome := .returned { success := false, error := some "ababa" } },
      .run 0 { outcome := .returned { success := false, error := some "ababa" } },
      .run 0 { outcome := .returned { success := false, error := some "ababa" } },
      .run 0 { outcome := .returned { success := false, error := some "ababa" } }])
    (p := fun s => s.shared.lastRegistryMessage = some "<redacted>ba") (by decide +kernel)
  have hm : s.shared.lastRegistryMessage = some "<redacted>ba" := by simpa using hp
  exact ⟨s,hm,((redaction_complete .cookie h).2.2 _ rfl).2 s hr _ hm⟩

end FlaskXxlJob.Logging
