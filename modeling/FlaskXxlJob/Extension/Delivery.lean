import FlaskXxlJob.Extension.Isolation
import FlaskXxlJob.Protocol.Wire

/-!
From a registration to a request. What has been registered receives the requests that are
addressed to it as they were sent, and what receives a request has been registered for it.
-/
namespace FlaskXxlJob.Extension
open Python Streaming Callback Keyed Model Response Protocol

variable {φ σ : Type} {w w₁ : World φ} {e a : ℕ} {context : Option ℕ} {o : Owner}
  {callable : φ → Bool} {p : Place} {f : φ}

/-! ### Requests -/

/-- The place of the callback of a request. -/
def placeOf : Request → Place
  | .trigger r => .run (.str r.executorHandler)
  | .idleBeat _ => .single .idleBeat
  | .kill _ => .single .kill
  | .log _ => .single .log

theorem registered_at (s : Slots φ) (model : Request) :
    registered s model = s.at (placeOf model) := by
  cases model <;> rfl

/-- A request that carries `model`: a JSON text whose fields stand for it, in pieces as the stream
cuts them, within the limits and with the configured token. -/
structure Carries (R : Reader UInt8 σ) (loads : String → Loads) (cfg : Protocol.Config)
    (request : Incoming σ) (model : Request) : Prop where
  endpoint : request.endpoint = endpointOf model
  token : Authorized cfg.accessToken request.token
  declared : ∀ n, request.contentLength = some n → n ≤ cfg.maxRequestSize
  body : ∃ s text data, request.body = .stream s ∧ R.left s = text.toUTF8.data.toList ∧
    text ≠ "" ∧ text.toUTF8.size ≤ cfg.maxRequestSize ∧ loads text = .value (.dict data) ∧
    Represents data model
  params : ∀ r, model = .trigger r → r.executorParams.length ≤ cfg.maxParamLength

theorem decodeUtf8_encoded (text : String) : decodeUtf8 text.toUTF8.data.toList = some text := by
  have hvalid : (⟨text.toUTF8.data.toList.toArray⟩ : ByteArray).IsValidUTF8 := by
    simpa using text.isValidUTF8
  rw [decodeUtf8,String.fromUTF8?,dif_pos hvalid]
  exact congrArg some (String.toByteArray_inj.mp rfl)

theorem Carries.admitted {R : Reader UInt8 σ} {loads : String → Loads} {cfg : Protocol.Config}
    {request : Incoming σ} {model : Request} (h : Carries R loads cfg request model)
    {s : Slots φ} (hs : s.at (placeOf model) = some f) :
    Admitted R loads cfg s request f model := by
  obtain ⟨stream,text,data,hbody,hleft,hne,hsize,hloads,hfields⟩ := h.body
  have hwire : fromWire request.endpoint data = .ok model := by
    rw [h.endpoint]
    exact fromWire_ok_iff.mpr ⟨rfl,hfields⟩
  refine ⟨h.token,data,⟨stream,text,hbody,h.declared,?_,?_,?_,hloads⟩,fun hrun => ?_,hwire,?_⟩
  · rw [hleft]
    exact hsize
  · rw [hleft]
    intro hnil
    have hdata : text.toByteArray.data = #[] := by simpa using hnil
    exact hne (String.toByteArray_inj.mp (ByteArray.ext hdata))
  · rw [hleft]
    exact decodeUtf8_encoded text
  · intro params hparams
    cases model with
    | trigger r =>
      have hstands := hfields ("executorParams",.str r.executorParams)
        (by simp [Request.toWire,TriggerRequest.toWire])
      rw [hparams] at hstands
      cases hstands
      exact h.params r rfl
    | _ => simp [h.endpoint,endpointOf] at hrun
  · rw [registered_at]
    exact hs

/-! ### Where a callback comes from -/

/-- The action is a call that gives `f` for `p` to the registry of `o`. -/
def Registers (callable : φ → Bool) (w : World φ) (x : HostAction φ) (o : Owner) (p : Place)
    (f : φ) : Prop :=
  ∃ e context r, x = .register e context r ∧ Chosen w e context r.app o ∧
    (register w e context callable r).1 = .ok () ∧ (p,f) ∈ r.batch.members

/-- A call of the run does. -/
def Given (callable : φ → Bool) (w : World φ) (actions : List (HostAction φ)) (o : Owner)
    (p : Place) (f : φ) : Prop :=
  ∃ before x after, actions = before ++ x :: after ∧
    Registers callable (w.run callable before) x o p f

theorem Given.append {actions : List (HostAction φ)} (h : Given callable w actions o p f)
    (more : List (HostAction φ)) : Given callable w (actions ++ more) o p f := by
  obtain ⟨before,x,after,rfl,hx⟩ := h
  exact ⟨before,x,after ++ more,by simp,hx⟩

theorem Registers.given {actions : List (HostAction φ)} {x : HostAction φ}
    (h : Registers callable (w.run callable actions) x o p f) :
    Given callable w (actions ++ [x]) o p f :=
  ⟨actions,x,[],rfl,h⟩

theorem slots_put (w : World φ) (self : Slots φ) (o : Owner) : (w.put self o).slots o = self := by
  cases o <;> simp [World.put,World.slots]

/-- A place of a registry is as it was, or as the action has asked for. -/
theorem routed_at {x : HostAction φ}
    (h : ((x.routed w o).foldl (perform callable) (w.slots o)).at p = some f) :
    (w.slots o).at p = some f ∨ Registers callable w x o p f := by
  cases x with
  | initApp | collect => exact Or.inl h
  | register e context r =>
    simp only [HostAction.routed] at h
    cases ht : r.target w e context with
    | error err =>
      simp only [ht] at h
      exact Or.inl h
    | ok o' =>
      simp only [ht] at h
      by_cases ho : o' = o
      · subst ho
        rw [if_pos rfl] at h
        rcases register_cases callable w e context r with
          ⟨err,he⟩ | ⟨d,hd,hchosen,he,-,hov⟩
        · have hsame := slots_put w (perform callable (w.slots o') r.operation) o'
          rw [← register_chosen ht,he] at hsame
          left
          rw [hsame]
          exact h
        · obtain rfl := Except.ok.inj (ht.symm.trans hd)
          rcases (hov p f).mp h with hm | ⟨-,hold⟩
          · exact Or.inr ⟨e,context,r,rfl,hchosen,by rw [he],hm⟩
          · exact Or.inl hold
      · rw [if_neg ho] at h
        exact Or.inl h

/-- Given to the extension before it initialised the application, or to the application since. -/
def Origin (callable : φ → Bool) (actions : List (HostAction φ)) (a : ℕ) (p : Place) (f : φ) :
    Prop :=
  ∃ before e after, Life callable actions a before e after ∧
    (Given callable {} before (.extension e) p f ∨
      Given callable (World.run callable {} (before ++ [.initApp e a true])) after (.app a) p f)

/-- Everything an extension or an application has comes from a call. -/
structure Originates (callable : φ → Bool) (actions : List (HostAction φ)) (w : World φ) :
    Prop where
  deferred : ∀ e p f, (w.deferred e).at p = some f → Given callable {} actions (.extension e) p f
  registry : ∀ a s, w.registry a = some s →
    ∃ before e after, Life callable actions a before e after ∧ ∀ p f, s.at p = some f →
      Given callable {} before (.extension e) p f ∨
        Given callable (World.run callable {} (before ++ [.initApp e a true])) after (.app a) p f

namespace Originates
variable {actions : List (HostAction φ)}

theorem snoc_deferred (h : Originates callable actions (World.run callable {} actions))
    (x : HostAction φ) (e : ℕ) (p : Place) (f : φ)
    (hp : (((World.run callable {} actions).act callable x).deferred e).at p = some f) :
    Given callable {} (actions ++ [x]) (.extension e) p f := by
  rw [act_deferred] at hp
  have hslots : (World.run callable {} actions).slots (.extension e) =
      (World.run callable {} actions).deferred e := rfl
  rw [← hslots] at hp
  rcases routed_at hp with hold | hnew
  · exact (h.deferred e p f hold).append [x]
  · exact hnew.given

theorem snoc_registry (h : Originates callable actions (World.run callable {} actions))
    (x : HostAction φ) (a : ℕ) (s : Slots φ)
    (hs : ((World.run callable {} actions).act callable x).registry a = some s) :
    ∃ before e after, Life callable (actions ++ [x]) a before e after ∧
      ∀ p f, s.at p = some f → Given callable {} before (.extension e) p f ∨
        Given callable (World.run callable {} (before ++ [.initApp e a true])) after (.app a)
          p f := by
  cases hold : (World.run callable {} actions).registry a with
  | some s₀ =>
    have hx : x ≠ .collect a := by
      rintro rfl
      simp [World.act,World.collect] at hs
    have hslots : (World.run callable {} actions).slots (.app a) = s₀ := by
      simp [World.slots,hold]
    obtain ⟨before,e,after,hlife,hgiven⟩ := h.registry a s₀ hold
    rw [act_registry hold hx] at hs
    obtain rfl := Option.some.inj hs
    refine ⟨before,e,after ++ [x],hlife.snoc hx,fun p f hp => ?_⟩
    rw [← hslots] at hp
    rcases routed_at hp with hp | hnew
    · rw [hslots] at hp
      exact (hgiven p f hp).imp_right fun hg => hg.append [x]
    · right
      apply Registers.given
      rw [← run_append,List.append_assoc,List.singleton_append,← hlife.split]
      exact hnew
  | none =>
    rcases act_unknown callable hold x with hnone | ⟨e,rfl,hnew,-⟩
    · rw [hnone] at hs
      cases hs
    · rw [hnew] at hs
      obtain rfl := Option.some.inj hs
      refine ⟨actions,e,[],.start e hold,fun p f hp => Or.inl ?_⟩
      rw [seedFrom_new] at hp
      exact h.deferred e p f hp

end Originates

theorem originates (callable : φ → Bool) (actions : List (HostAction φ)) :
    Originates callable actions (World.run callable {} actions) := by
  induction actions using List.reverseRecOn with
  | nil =>
    refine ⟨fun e p f hp => ?_,fun a s hs => ?_⟩
    · cases p with
      | run key => cases key <;> simp [World.run,Slots.at,named] at hp
      | single slot => cases slot <;> simp [World.run,Slots.at,Slots.single] at hp
    · cases hs
  | append_singleton actions x ih =>
    have hrun : World.run callable {} (actions ++ [x]) =
        (World.run callable {} actions).act callable x := run_append _ _ _
    rw [hrun]
    exact ⟨ih.snoc_deferred x,ih.snoc_registry x⟩

/-! ### Delivery -/

variable {R : Reader UInt8 σ} {loads : String → Loads} {cfg : Protocol.Config}
  {request : Incoming σ} {model : Request} (custom : String → Bool)
  (behave : φ → Request → Returned)

theorem Chosen.unique {app : Option ℕ} {o' : Owner} (h : Chosen w e context app o)
    (h' : Chosen w e context app o') : o = o' :=
  Except.ok.inj ((registryFor_chosen.mpr h).symm.trans (registryFor_chosen.mpr h'))

theorem Carries.handled (h : Carries R loads cfg request model) {s : Slots φ}
    (hs : s.at (placeOf model) = some f) : handle R loads cfg s request custom behave =
      ⟨json custom <$> respond request.endpoint (behave f model),[(f,model)]⟩ := by
  rw [handle,(view_ok_iff R loads cfg s request).mpr (h.admitted hs)]

/-- Without `replace`, what has been registered for the place of a request receives the request,
once and as it was sent, from the application or from any application of the extension. -/
theorem registered_receives {r : Registration φ}
    (h : register w e context callable r = (.ok (),w₁)) (hm : (placeOf model,f) ∈ r.batch.members)
    {more : List (HostAction φ)} (hmore : ∀ x ∈ more, x.replaces = false) {s : Slots φ}
    (hs : (w₁.run callable more).registry a = some s)
    (ha : (Chosen w e context r.app (.app a) ∧ ∀ x ∈ more, x ≠ .collect a) ∨
      Chosen w e context r.app (.extension e) ∧ a ∈ (w₁.run callable more).applications e)
    (hc : Carries R loads cfg request model) :
    handle R loads cfg s request custom behave =
      ⟨json custom <$> respond request.endpoint (behave f model),[(f,model)]⟩ := by
  have hplace : ∃ s', (w₁.run callable more).registry a = some s' ∧
      s'.at (placeOf model) = some f := by
    obtain ⟨-,⟨b,hchosen,hkept⟩ | ⟨hchosen,hkept⟩⟩ := registered_kept h hm hmore
    · rcases ha with ⟨happ,hlive⟩ | ⟨hext,-⟩
      · cases hchosen.unique happ
        exact hkept hlive
      · cases hchosen.unique hext
    · rcases ha with ⟨happ,-⟩ | ⟨-,hmem⟩
      · cases hchosen.unique happ
      · exact hkept a hmem
  obtain ⟨s',hs',hp⟩ := hplace
  obtain rfl := Option.some.inj (hs.symm.trans hs')
  exact hc.handled custom behave hp

def demoText : String := "\x7b\"executorHandler\": \"demo\", \"logId\": \"12\"\x7d"

def demoLoads (text : String) : Loads :=
  if text = demoText then .value (.dict [("executorHandler",.str "demo"),("logId",.str "12")])
  else .valueError "JSONDecodeError"

/-- The text in a piece of four bytes and the rest. -/
def demoRequest : Incoming (List ℕ × List UInt8) where
  endpoint := .run
  token := some "secret"
  contentLength := none
  body := .stream ([3],demoText.toUTF8.data.toList)

theorem demoRequest_carries : Carries (.cutting UInt8) demoLoads ⟨"secret",1024,64⟩ demoRequest
    (.trigger { executorHandler := "demo", logId := 12 }) where
  endpoint := rfl
  token := Or.inr rfl
  declared n hn := by cases hn
  body := by
    refine ⟨_,demoText,_,rfl,rfl,by decide +kernel,by decide +kernel,if_pos rfl,?_⟩
    rw [← triggerFromWire_ok_iff]
    rfl
  params r hr := by
    cases hr
    decide

/-- A handler of the extension, its application initialised later, and a handler next to it. -/
theorem registered_receives_demo : ∃ (w₁ : World ℕ) (s : Slots ℕ),
    register {} 0 none (fun _ => true) (.onRun (.str "demo") 7) = (.ok (),w₁) ∧
    (w₁.run (fun _ => true) [.initApp 0 3 true,.register 0 none (.onRun (.str "other") 8)]).registry
      3 = some s ∧
    (handle (.cutting UInt8) demoLoads ⟨"secret",1024,64⟩ s demoRequest (fun _ => false)
      fun _ _ => .response (.success none .none)).invoked =
        [(7,.trigger { executorHandler := "demo", logId := 12 })] := by
  have h : (register {} 0 none (fun _ => true) (.onRun (.str "demo") 7)).1 = .ok () := by rfl
  obtain ⟨s,hs⟩ := Option.isSome_iff_exists.mp (show (((register {} 0 none (fun _ => true)
    (.onRun (.str "demo") 7)).2.run (fun _ => true) [.initApp 0 3 true,
      .register 0 none (.onRun (.str "other") 8)]).registry 3).isSome from rfl)
  have hm : (placeOf (.trigger { executorHandler := "demo", logId := 12 }),7) ∈
      (Registration.onRun (.str "demo") 7).batch.members := by
    simp [Registration.batch,Batch.items,placeOf]
  have hmore : ∀ x ∈ [HostAction.initApp 0 3 true,.register 0 none (.onRun (.str "other") 8)],
      x.replaces = false := by decide
  have hreceives := registered_receives (fun _ => false)
    (fun _ _ => .response (.success none .none)) (Prod.ext h rfl) hm hmore hs
    (Or.inr ⟨.deferred rfl rfl,by decide⟩) demoRequest_carries
  exact ⟨_,s,Prod.ext h rfl,hs,congrArg Handled.invoked hreceives⟩

/-- A callback that receives a request was given for its place in a call that had chosen the
application since its initialisation, or its extension before. -/
theorem invoked_originates (actions : List (HostAction φ)) (a : ℕ) {s : Slots φ}
    (hs : (World.run callable {} actions).registry a = some s) :
    ∀ m ∈ (handle R loads cfg s request custom behave).invoked,
      Origin callable actions a (placeOf m.2) m.1 := by
  rintro ⟨g,sent⟩ hm
  obtain ⟨before,e,after,hlife,hgiven⟩ := (originates callable actions).registry a s hs
  rcases handle_cases R loads cfg s request custom behave with
    ⟨-,⟨msg,he⟩ | ⟨exceptionType,-,he⟩⟩ | ⟨c,m,hadm,he⟩
  · rw [he] at hm
    cases hm
  · rw [he] at hm
    cases hm
  · rw [he] at hm
    obtain ⟨rfl,rfl⟩ := Prod.mk.inj (List.mem_singleton.mp hm)
    obtain ⟨-,data,-,-,-,hreg⟩ := hadm
    rw [registered_at] at hreg
    exact ⟨before,e,after,hlife,hgiven _ _ hreg⟩

/-- The handler of a request was deferred before the application was initialised. -/
theorem invoked_originates_demo : Origin (fun _ => true) [.register 0 none (.onRun (.str "demo") 7),
    .initApp 0 3 true] 3 (.run (.str "demo")) 7 := by
  obtain ⟨s,hs⟩ := Option.isSome_iff_exists.mp (show ((World.run (fun _ => true) {}
    [.register 0 none (.onRun (.str "demo") 7),.initApp 0 3 true]).registry 3).isSome from rfl)
  have hplace : s.at (.run (.str "demo")) = some 7 := by
    cases hs
    rfl
  have hmem : (7,Request.trigger { executorHandler := "demo", logId := 12 }) ∈
      (handle (.cutting UInt8) demoLoads ⟨"secret",1024,64⟩ s demoRequest (fun _ => false)
        fun _ _ => .response (.success none .none)).invoked := by
    rw [demoRequest_carries.handled _ _ hplace]
    exact List.mem_singleton_self _
  exact invoked_originates _ _ _ 3 hs _ hmem

end FlaskXxlJob.Extension
