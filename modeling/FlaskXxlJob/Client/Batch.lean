import FlaskXxlJob.Client.CallbackClient
import FlaskXxlJob.Client.Failover
import FlaskXxlJob.Python.Raising
import Mathlib.Data.List.Forall2

/-!
A batch is refused as a whole or sent as a whole: one entry for each item, in order, and the same
array in every POST.
-/
namespace FlaskXxlJob.Client
open Python Config Model

/-! ### One item -/

def IsInt (v : Value) : Prop := ∃ i, v = .int i

/-- A message is a string or null. -/
def IsMessage (v : Value) : Prop := v = .none ∨ ∃ s, v = .str s

def CallbackRequest.Typed (r : CallbackRequest) : Prop :=
  IsInt r.logId ∧ IsInt r.logDateTime ∧ IsInt r.handleCode ∧ IsMessage r.handleMsg

/-- The fields an item has; a dict without `handle_code` reads as 200. -/
def CallbackItem.fields : CallbackItem → Option CallbackRequest
  | .request r => some r
  | .dict items => do
    let logId ← items.lookup "log_id"
    let logDateTime ← items.lookup "log_date_time"
    return { logId, logDateTime, handleCode := (items.lookup "handle_code").getD (.int 200),
             handleMsg := get items "handle_msg" }
  | .other _ => none

/-- An item that is neither a request nor a dict, lacks a field or has one of a wrong type. -/
def CallbackItem.Invalid (item : CallbackItem) : Prop :=
  item.fields = none ∨ ∃ r, item.fields = some r ∧ ¬ r.Typed

def messageText : Value → String
  | .str s => s
  | _ => ""

variable (cfg : XXLJobConfig)

def truncate (message : String) : String :=
  if cfg.callbackMessageMaxLength < message.length then
    sliceTo message cfg.callbackMessageMaxLength
  else message

def normalized (r : CallbackRequest) : CallbackRequest :=
  { r with handleMsg := .str (truncate cfg (messageText r.handleMsg)) }

theorem requireInt_ok_iff {index : ℕ} {name : String} {v : Value} {u : Unit} :
    requireInt index name v = .ok u ↔ IsInt v := by
  cases v <;> simp [requireInt, IsInt]

theorem requireStr_ok_iff {index : ℕ} {name s : String} {v : Value} :
    requireStr index name v = .ok s ↔ IsMessage v ∧ messageText v = s := by
  cases v <;> simp [requireStr, coerceStr, IsMessage, messageText]

theorem requireKey_ok_iff {index : ℕ} {items : List (String × Value)} {key : String} {v : Value} :
    requireKey index items key = .ok v ↔ items.lookup key = some v := by
  unfold requireKey
  cases items.lookup key <;> simp

/-- A dict is read as the request with its fields, with its message already checked. -/
theorem toRequest_ok_iff {index : ℕ} {item : CallbackItem} {r : CallbackRequest} :
    toRequest index item = .ok r ↔ item = .request r ∨ ∃ items r', item = .dict items ∧
      item.fields = some r' ∧ IsMessage r'.handleMsg ∧
      r = { r' with handleMsg := .str (messageText r'.handleMsg) } := by
  cases item with
  | request r' => simp [toRequest]
  | other typeName => simp [toRequest]
  | dict items =>
    simp only [toRequest, bind_ok_iff, pure_ok_iff, requireKey_ok_iff, requireStr_ok_iff]
    constructor
    · rintro ⟨logId,hid,logDateTime,hdt,s,⟨hmsg,rfl⟩,rfl⟩
      have hfields : (CallbackItem.dict items).fields = some
          ⟨logId,logDateTime,(items.lookup "handle_code").getD (.int 200),
            get items "handle_msg"⟩ := by
        simp [CallbackItem.fields, hid, hdt]
      exact Or.inr ⟨items,_,rfl,hfields,hmsg,rfl⟩
    · rintro (h | ⟨-,r',-,hfields,hmsg,rfl⟩)
      · cases h
      · simp only [CallbackItem.fields, Option.bind_eq_bind, Option.bind_eq_some_iff,
          Option.pure_def, Option.some.injEq] at hfields
        obtain ⟨logId,hid,logDateTime,hdt,rfl⟩ := hfields
        exact ⟨logId,hid,logDateTime,hdt,_,⟨hmsg,rfl⟩,rfl⟩

theorem normalizeItem_ok_iff {index : ℕ} {item : CallbackItem} {r : CallbackRequest} :
    normalizeItem cfg index item = .ok r ↔
      ∃ r', item.fields = some r' ∧ r'.Typed ∧ r = normalized cfg r' := by
  simp only [normalizeItem, bind_ok_iff, pure_ok_iff, requireInt_ok_iff, requireStr_ok_iff,
    toRequest_ok_iff]
  constructor
  · rintro ⟨r',rfl | ⟨items,r',rfl,hfields,hmsg',rfl⟩,-,hid,-,hdt,-,hcode,s,⟨hmsg,rfl⟩,rfl⟩
    · exact ⟨r',rfl,⟨hid,hdt,hcode,hmsg⟩,rfl⟩
    · exact ⟨r',hfields,⟨hid,hdt,hcode,hmsg'⟩,rfl⟩
  · rintro ⟨r',hfields,⟨hid,hdt,hcode,hmsg⟩,rfl⟩
    cases item with
    | other typeName => cases hfields
    | request r =>
      cases hfields
      exact ⟨r',Or.inl rfl,(),hid,(),hdt,(),hcode,_,⟨hmsg,rfl⟩,rfl⟩
    | dict items =>
      exact ⟨_,Or.inr ⟨items,r',rfl,hfields,hmsg,rfl⟩,(),hid,(),hdt,(),hcode,_,
        ⟨Or.inr ⟨_,rfl⟩,rfl⟩,rfl⟩

theorem normalizeItem_error {item : CallbackItem} (h : item.Invalid) (index : ℕ) :
    ∃ e, normalizeItem cfg index item = .error e := by
  apply exists_error
  intro r hr
  obtain ⟨r',hfields,htyped,-⟩ := (normalizeItem_ok_iff cfg).mp hr
  rcases h with hnone | ⟨r'',hr'',hbad⟩
  · rw [hnone] at hfields
    cases hfields
  · rw [hfields] at hr''
    cases hr''
    exact hbad htyped

theorem exists_typed {item : CallbackItem} (h : ¬ item.Invalid) :
    ∃ r, item.fields = some r ∧ r.Typed := by
  cases hf : item.fields with
  | none => exact absurd (Or.inl hf) h
  | some r => exact ⟨r,rfl,by_contra fun hbad => h (Or.inr ⟨r,hf,hbad⟩)⟩

/-! ### The batch -/

/-- An item and the request it is normalized to. -/
def NormalizesTo (item : CallbackItem) (r : CallbackRequest) : Prop :=
  ∃ r', item.fields = some r' ∧ r'.Typed ∧ r = normalized cfg r'

theorem normalizeItems_ok_iff {index : ℕ} {items : List CallbackItem}
    {requests : List CallbackRequest} :
    normalizeItems cfg index items = .ok requests ↔
      List.Forall₂ (NormalizesTo cfg) items requests := by
  induction items generalizing index requests with
  | nil => simp [normalizeItems, eq_comm]
  | cons item items ih =>
    simp only [normalizeItems, bind_ok_iff, pure_ok_iff, normalizeItem_ok_iff, ih,
      List.forall₂_cons_left_iff]
    constructor
    · rintro ⟨r,hr,rs,hrs,rfl⟩
      exact ⟨r,rs,hr,hrs,rfl⟩
    · rintro ⟨r,rs,hr,hrs,rfl⟩
      exact ⟨r,hr,rs,hrs,rfl⟩

/-- One invalid item refuses the batch. -/
theorem normalizeItems_error {items : List CallbackItem} (h : ∃ item ∈ items, item.Invalid)
    (index : ℕ) : ∃ e, normalizeItems cfg index items = .error e := by
  obtain ⟨item,hi,hinvalid⟩ := h
  apply exists_error
  intro requests hreq
  have hall := (normalizeItems_ok_iff cfg).mp hreq
  obtain ⟨r,hr⟩ : ∃ r, NormalizesTo cfg item r := by
    clear hreq
    induction hall with
    | nil => simp at hi
    | cons hr _ ih =>
      rcases List.mem_cons.mp hi with rfl | hi
      · exact ⟨_,hr⟩
      · exact ih hi
  obtain ⟨e,he⟩ := normalizeItem_error cfg hinvalid 0
  rw [(normalizeItem_ok_iff cfg).mpr hr] at he
  cases he

theorem normalizeItems_ok {items : List CallbackItem} (h : ∀ item ∈ items, ¬ item.Invalid)
    (index : ℕ) : ∃ requests, normalizeItems cfg index items = .ok requests := by
  induction items generalizing index with
  | nil => exact ⟨[],rfl⟩
  | cons item items ih =>
    obtain ⟨r,hfields,htyped⟩ := exists_typed (h item List.mem_cons_self)
    obtain ⟨rs,hrs⟩ := ih (fun item' hi => h item' (List.mem_cons_of_mem _ hi)) (index + 1)
    refine ⟨normalized cfg r :: rs,?_⟩
    rw [normalizeItems, (normalizeItem_ok_iff cfg).mpr ⟨r,hfields,htyped,rfl⟩]
    simp [hrs, bind, Except.bind, pure, Except.pure]

/-! ### Entries -/

/-- `short` is the longest prefix of `message` within the limit. -/
def LongestPrefix (limit : ℤ) (message short : String) : Prop :=
  short.toList <+: message.toList ∧ (0 ≤ limit → (short.length : ℤ) = min limit message.length)

theorem truncate_longestPrefix (message : String) :
    LongestPrefix cfg.callbackMessageMaxLength message (truncate cfg message) := by
  have hchars : message.length = message.toList.length := String.length_toList.symm
  unfold truncate
  split
  · rename_i hlt
    refine ⟨?_,fun h0 => ?_⟩
    · simp only [sliceTo, String.toList_ofList]
      exact List.take_prefix _ _
    · have hlen : (sliceTo message cfg.callbackMessageMaxLength).length =
          min cfg.callbackMessageMaxLength.toNat message.toList.length := by
        rw [← String.length_toList, sliceTo, String.toList_ofList, if_pos h0, List.length_take]
      rw [hlen]
      omega
  · exact ⟨List.prefix_refl _,fun h0 => by omega⟩

/-- The entry of an item: its integers, and its message within the limit. -/
def EntryOf (limit : ℤ) (item : CallbackItem) (entry : Value) : Prop :=
  ∃ (logId logDateTime handleCode : ℤ) (message : Value) (short : String),
    item.fields = some ⟨.int logId,.int logDateTime,.int handleCode,message⟩ ∧
    IsMessage message ∧ LongestPrefix limit (messageText message) short ∧
    entry = .dict [("logId",.int logId),("logDateTim",.int logDateTime),
      ("handleCode",.int handleCode),("handleMsg",.str short)]

theorem NormalizesTo.entryOf {item : CallbackItem} {r : CallbackRequest}
    (h : NormalizesTo cfg item r) : EntryOf cfg.callbackMessageMaxLength item r.toWire := by
  obtain ⟨⟨_,_,_,message⟩,hfields,⟨⟨logId,rfl⟩,⟨logDateTime,rfl⟩,⟨handleCode,rfl⟩,hmsg⟩,rfl⟩ := h
  exact ⟨logId,logDateTime,handleCode,message,_,hfields,hmsg,truncate_longestPrefix cfg _,rfl⟩

variable (elapsed : ℕ → ℤ) (outcomes : ℕ → PostOutcome)

/-- The batches that are refused. -/
def Refused (items : List CallbackItem) : Prop :=
  items = [] ∨ cfg.callbackBatchMaxSize < items.length ∨ ∃ item ∈ items, item.Invalid

theorem callbackMany_refused (henabled : cfg.enabled = true) {items : List CallbackItem}
    (h : Refused cfg items) : ∃ e, callbackMany cfg elapsed outcomes items = ⟨.error e,[]⟩ := by
  unfold callbackMany
  rw [if_neg (by simp [henabled])]
  split
  · exact ⟨_,rfl⟩
  · split
    · exact ⟨_,rfl⟩
    · rename_i hne hle
      obtain ⟨e,he⟩ := normalizeItems_error cfg ((h.resolve_left hne).resolve_left hle) 0
      rw [he]
      exact ⟨e,rfl⟩

theorem callbackMany_sent (henabled : cfg.enabled = true) {items : List CallbackItem}
    (h : ¬ Refused cfg items) : ∃ requests, List.Forall₂ (NormalizesTo cfg) items requests ∧
      callbackMany cfg elapsed outcomes items =
        ⟨.ok (postToAdmins (callbackArguments cfg
            (.list (requests.map CallbackRequest.toWire))) elapsed outcomes).1,
          (postToAdmins (callbackArguments cfg
            (.list (requests.map CallbackRequest.toWire))) elapsed outcomes).2⟩ := by
  unfold Refused at h
  push Not at h
  obtain ⟨hne,hle,hall⟩ := h
  obtain ⟨requests,hreq⟩ := normalizeItems_ok cfg hall 0
  refine ⟨requests,(normalizeItems_ok_iff cfg).mp hreq,?_⟩
  rw [callbackMany, if_neg (by simp [henabled]), if_neg hne, if_neg (by omega), hreq]

/-- A dict and a request with the same fields are normalized alike. -/
theorem normalizeItem_dict {items : List (String × Value)} {r : CallbackRequest}
    (hid : items.lookup "log_id" = some r.logId)
    (hdt : items.lookup "log_date_time" = some r.logDateTime)
    (hcode : items.lookup "handle_code" = some r.handleCode)
    (hmsg : items.lookup "handle_msg" = some r.handleMsg) (index : ℕ) (r' : CallbackRequest) :
    normalizeItem cfg index (.dict items) = .ok r' ↔
      normalizeItem cfg index (.request r) = .ok r' := by
  have hfields : (CallbackItem.dict items).fields = (CallbackItem.request r).fields := by
    simp [CallbackItem.fields, hid, hdt, hcode, Python.get, hmsg]
  rw [normalizeItem_ok_iff, normalizeItem_ok_iff, hfields]

theorem callback_eq_callbackMany (logId logDateTime handleCode handleMsg : Value) :
    callback cfg elapsed outcomes logId logDateTime handleCode handleMsg =
      callbackMany cfg elapsed outcomes
        [.request { logId, logDateTime, handleCode, handleMsg }] := by
  by_cases henabled : cfg.enabled = false
  · rw [callback, if_pos henabled, callbackMany, if_pos henabled]
  · rw [callback, if_neg henabled]
    cases handleMsg with
    | none =>
      have hnorm : normalizeItem cfg 0 (.request ⟨logId,logDateTime,handleCode,orEmpty .none⟩) =
          normalizeItem cfg 0 (.request ⟨logId,logDateTime,handleCode,.none⟩) := by
        simp [normalizeItem, toRequest, requireStr, coerceStr, bind, Except.bind, orEmpty]
      simp only [callbackMany, normalizeItems, hnorm, List.length_singleton, List.cons_ne_nil]
    | _ => rfl

/-- Batch callbacks are all or nothing, and keep their order. -/
theorem callback_many_all_or_nothing (henabled : cfg.enabled = true)
    (items : List CallbackItem) :
    ((∃ e, callbackMany cfg elapsed outcomes items = ⟨.error e,[]⟩) ↔ Refused cfg items) ∧
    (¬ Refused cfg items → ∃ entries result posts,
      callbackMany cfg elapsed outcomes items = ⟨.ok result,posts⟩ ∧
      List.Forall₂ (EntryOf cfg.callbackMessageMaxLength) items entries ∧
      (∀ post ∈ posts, post.payload = .list entries) ∧
      (result,posts) =
        postToAdmins (callbackArguments cfg (.list entries)) elapsed outcomes) ∧
    (∀ (d : List (String × Value)) (r : CallbackRequest), d.lookup "log_id" = some r.logId →
      d.lookup "log_date_time" = some r.logDateTime →
      d.lookup "handle_code" = some r.handleCode → d.lookup "handle_msg" = some r.handleMsg →
      ∀ index r', normalizeItem cfg index (.dict d) = .ok r' ↔
        normalizeItem cfg index (.request r) = .ok r') ∧
    (∀ logId logDateTime handleCode handleMsg,
      callback cfg elapsed outcomes logId logDateTime handleCode handleMsg =
        callbackMany cfg elapsed outcomes
          [.request { logId, logDateTime, handleCode, handleMsg }]) := by
  refine ⟨⟨?_,callbackMany_refused cfg elapsed outcomes henabled⟩,fun h => ?_,
    fun d r hid hdt hcode hmsg => normalizeItem_dict cfg hid hdt hcode hmsg,
    callback_eq_callbackMany cfg elapsed outcomes⟩
  · rintro ⟨e,he⟩
    by_contra h
    obtain ⟨requests,-,hsent⟩ := callbackMany_sent cfg elapsed outcomes henabled h
    rw [hsent] at he
    cases he
  · obtain ⟨requests,hnorm,hsent⟩ := callbackMany_sent cfg elapsed outcomes henabled h
    refine ⟨requests.map CallbackRequest.toWire,_,_,hsent,?_,fun post hpost => ?_,rfl⟩
    · rw [List.forall₂_map_right_iff]
      exact hnorm.imp fun _ _ => NormalizesTo.entryOf cfg
    · obtain ⟨address,-,rfl⟩ := postToAdmins_posts _ elapsed outcomes hpost
      rfl

theorem callback_many_all_or_nothing_truncated :
    ∃ entries result posts,
      callbackMany { adminAddresses := ["http://a:8080"], callbackMessageMaxLength := 3 }
        (fun _ => 0) (fun _ => .timeout "ReadTimeout" "timed out")
        [.dict [("log_id",.int 5),("log_date_time",.int 6)],
          .request ⟨.int 1,.int 2,.int 500,.str "failed"⟩] = ⟨.ok result,posts⟩ ∧
      List.Forall₂ (EntryOf 3) [.dict [("log_id",.int 5),("log_date_time",.int 6)],
          .request ⟨.int 1,.int 2,.int 500,.str "failed"⟩] entries ∧
      ∀ post ∈ posts, post.payload = .list entries := by
  obtain ⟨entries,result,posts,hcall,hentries,hposts,-⟩ := (callback_many_all_or_nothing
    { adminAddresses := ["http://a:8080"], callbackMessageMaxLength := 3 } (fun _ => 0)
    (fun _ => .timeout "ReadTimeout" "timed out") rfl
    [.dict [("log_id",.int 5),("log_date_time",.int 6)],
      .request ⟨.int 1,.int 2,.int 500,.str "failed"⟩]).2.1 (by
        rintro (h | h | ⟨item,hi,h⟩)
        · cases h
        · exact absurd h (by decide)
        · simp only [List.mem_cons, List.not_mem_nil, or_false] at hi
          rcases hi with rfl | rfl
          · rcases h with h | ⟨r,h,hbad⟩ <;> cases h
            exact hbad ⟨⟨5,rfl⟩,⟨6,rfl⟩,⟨200,rfl⟩,Or.inl rfl⟩
          · rcases h with h | ⟨r,h,hbad⟩ <;> cases h
            exact hbad ⟨⟨1,rfl⟩,⟨2,rfl⟩,⟨500,rfl⟩,Or.inr ⟨_,rfl⟩⟩)
  exact ⟨entries,result,posts,hcall,hentries,hposts⟩

end FlaskXxlJob.Client
