import FlaskXxlJob.Extension.Registrations
import FlaskXxlJob.Python.Raising

/-!
Applications do not see each other's registrations. The registry of an application is what the
calls that chose it have made of the defaults it was seeded with.
-/
namespace FlaskXxlJob.Extension
open Python Callback Keyed

variable {φ : Type} {w : World φ} {e : ℕ} {context app : Option ℕ} {o : Owner}

/-! ### Choosing a registry -/

/-- The registry a call with this `app` argument works on: named, of the context, of the only
application, or deferred before there is one. -/
inductive Chosen (w : World φ) (e : ℕ) (context : Option ℕ) : Option ℕ → Owner → Prop
  | named {a : ℕ} (h : (w.registry a).isSome) : Chosen w e context (some a) (.app a)
  | inContext {a : ℕ} (hc : context = some a) (h : (w.registry a).isSome) :
      Chosen w e context none (.app a)
  | only {a : ℕ} (hc : context = none) (ha : w.applications e = [a])
      (h : (w.registry a).isSome) : Chosen w e context none (.app a)
  | deferred (hc : context = none) (ha : w.applications e = []) :
      Chosen w e context none (.extension e)

theorem resolve_ok_iff {apps : List ℕ} {a : ℕ} : resolve apps none = .ok a ↔ apps = [a] := by
  match apps with
  | [] => simp [resolve]
  | [b] => simp [resolve]
  | _ :: _ :: _ => simp [resolve]

theorem getRuntime_ok_iff {a : ℕ} : getRuntime w e context app = .ok a ↔
    resolveApp w e context app = .ok a ∧ (w.registry a).isSome := by
  rw [getRuntime,bind_ok_iff]
  constructor
  · rintro ⟨b,hb,h⟩
    split at h
    · cases h
      exact ⟨hb,‹_›⟩
    · cases h
  · rintro ⟨hb,h⟩
    exact ⟨a,hb,by rw [if_pos h]⟩

theorem targetRegistry_chosen : targetRegistry w e context = .ok o ↔ Chosen w e context none o := by
  unfold targetRegistry
  cases context with
  | some a =>
    rw [if_pos Option.isSome_some,map_ok_iff]
    constructor
    · rintro ⟨b,hb,rfl⟩
      obtain ⟨hr,h⟩ := getRuntime_ok_iff.mp hb
      cases hr
      exact .inContext rfl h
    · rintro (_ | ⟨hc,h⟩ | ⟨hc,-,-⟩ | ⟨hc,-⟩)
      · cases hc
        exact ⟨_,getRuntime_ok_iff.mpr ⟨rfl,h⟩,rfl⟩
      · cases hc
      · cases hc
  | none =>
    rw [if_neg (by simp)]
    split
    next hnil =>
      constructor
      · rintro ⟨⟩
        exact .deferred rfl hnil
      · rintro (_ | ⟨hc,-⟩ | ⟨-,ha,-⟩ | -)
        · cases hc
        · rw [hnil] at ha
          cases ha
        · rfl
    next hne =>
      rw [bind_ok_iff]
      simp only [resolve_ok_iff,map_ok_iff,getRuntime_ok_iff]
      constructor
      · rintro ⟨a,ha,b,⟨hb,h⟩,rfl⟩
        cases hb
        exact .only rfl ha h
      · rintro (_ | ⟨hc,-⟩ | ⟨-,ha,h⟩ | ⟨-,ha⟩)
        · cases hc
        · exact ⟨_,ha,_,⟨rfl,h⟩,rfl⟩
        · exact absurd ha hne

theorem registryFor_chosen : registryFor w e context app = .ok o ↔ Chosen w e context app o := by
  cases app with
  | none => exact targetRegistry_chosen
  | some a =>
    rw [registryFor,map_ok_iff]
    simp only [getRuntime_ok_iff]
    constructor
    · rintro ⟨b,⟨hb,h⟩,rfl⟩
      cases hb
      exact .named h
    · rintro ⟨h⟩
      exact ⟨a,⟨rfl,h⟩,rfl⟩

theorem Registration.target_chosen {r : Registration φ} (h : r.target w e context = .ok o) :
    Chosen w e context r.app o := by
  cases r with
  | onRun key func =>
    obtain ⟨name,-,hname⟩ := bind_ok_iff.mp h
    exact targetRegistry_chosen.mp hname
  | onIdleBeat | onKill | onLog => exact targetRegistry_chosen.mp h
  | _ => exact registryFor_chosen.mp h

theorem Chosen.slots {a : ℕ} (h : Chosen w e context app (.app a)) :
    w.registry a = some (w.slots (.app a)) := by
  have hsome : (w.registry a).isSome := by cases h <;> assumption
  obtain ⟨s,hs⟩ := Option.isSome_iff_exists.mp hsome
  rw [World.slots,hs]
  rfl

theorem Chosen.extension {d : ℕ} (h : Chosen w e context app (.extension d)) :
    w.applications e = [] ∧ d = e := by
  cases h with
  | deferred _ ha => exact ⟨ha,rfl⟩

/-! ### One registration -/

/-- The batch behind a registering method. -/
def Registration.batch : Registration φ → Batch φ
  | onRun key func | setRunCallback _ key func _ =>
    { run := some (.mapping [(key,func)] (List.nodup_singleton _)) }
  | onIdleBeat func | setIdleBeatCallback _ func _ => { idleBeat := func }
  | onKill func | setKillCallback _ func _ => { kill := func }
  | onLog func | setLogCallback _ func _ => { log := func }
  | registerCallbacks _ batch _ => batch

variable {callable : φ → Bool}

theorem Registration.method_eq (r : Registration φ) : registryMethod callable r.operation =
    Callback.registerCallbacks callable r.batch r.replaces := by
  cases r <;> rfl

theorem Registration.perform_eq (r : Registration φ) (self : Slots φ) :
    perform callable self r.operation =
      (invoke (Callback.registerCallbacks callable r.batch r.replaces) self).2 := by
  cases r <;> rfl

theorem Chosen.put_slots (h : Chosen w e context app o) : w.put (w.slots o) o = w := by
  cases o with
  | extension e' => simp [World.put,World.slots]
  | app a => simp [World.put,← h.slots]

/-- A registration raises and changes nothing, or it overrides the registry it has chosen. -/
theorem register_cases (callable : φ → Bool) (w : World φ) (e : ℕ) (context : Option ℕ)
    (r : Registration φ) :
    (∃ err, register w e context callable r = (.error err,w)) ∨
    ∃ o, r.target w e context = .ok o ∧ Chosen w e context r.app o ∧
      register w e context callable r =
        (.ok (),w.put (perform callable (w.slots o) r.operation) o) ∧
      ¬ Rejected callable (w.slots o) r.batch r.replaces ∧
      Overrides r.batch.members (w.slots o).at
        (perform callable (w.slots o) r.operation).at := by
  rw [register]
  cases ht : r.target w e context with
  | error err => exact Or.inl ⟨err,rfl⟩
  | ok o =>
    have hchosen := Registration.target_chosen ht
    simp only [r.method_eq]
    rcases registerCallbacks_spec callable r.replaces r.batch (w.slots o) with
      ⟨-,err,he⟩ | ⟨hrej,s',hs',hov⟩
    · rw [he]
      exact Or.inl ⟨.registration err,by rw [hchosen.put_slots]; rfl⟩
    · right
      refine ⟨o,rfl,hchosen,?_,hrej,?_⟩ <;> rw [r.perform_eq,hs']
      · rfl
      · exact hov

/-! ### Replaying a run -/

/-- What an action asks of the registry of `o`. -/
def HostAction.routed (w : World φ) (o : Owner) : HostAction φ → List (Operation φ)
  | .register e context r =>
    match r.target w e context with
    | .ok o' => if o' = o then [r.operation] else []
    | .error _ => []
  | .initApp .. | .collect _ => []

/-- What a run asks of the registry of `o`. -/
def routed (callable : φ → Bool) (o : Owner) : World φ → List (HostAction φ) → List (Operation φ)
  | _,[] => []
  | w,x :: actions => x.routed w o ++ routed callable o (w.act callable x) actions

theorem run_append (w : World φ) (xs ys : List (HostAction φ)) :
    w.run callable (xs ++ ys) = (w.run callable xs).run callable ys := List.foldl_append

theorem routed_append (w : World φ) (xs ys : List (HostAction φ)) : routed callable o w (xs ++ ys) =
    routed callable o w xs ++ routed callable o (w.run callable xs) ys := by
  induction xs generalizing w with
  | nil => rfl
  | cons x xs ih => rw [List.cons_append,routed,ih,routed,List.append_assoc,World.run,World.run,
      List.foldl_cons]

theorem register_chosen {r : Registration φ} (h : r.target w e context = .ok o) :
    (register w e context callable r).2 = w.put (perform callable (w.slots o) r.operation) o := by
  simp [register,h,r.method_eq,r.perform_eq]

theorem act_deferred (w : World φ) (x : HostAction φ) (e : ℕ) : (w.act callable x).deferred e =
    (x.routed w (.extension e)).foldl (perform callable) (w.deferred e) := by
  cases x with
  | initApp e' a stays =>
    simp only [World.act,World.initApp,HostAction.routed]
    split <;> rfl
  | collect a => rfl
  | register e' context r =>
    simp only [World.act,HostAction.routed]
    cases ht : r.target w e' context with
    | error err => simp [register,ht]
    | ok o =>
      rw [register_chosen ht]
      cases o with
      | app a => simp [World.put]
      | extension d =>
        by_cases hd : d = e
        · subst hd
          simp [World.put,World.slots]
        · simp [World.put,hd,Ne.symm hd]

theorem act_registry {a : ℕ} {s : Slots φ} (hs : w.registry a = some s) {x : HostAction φ}
    (hx : x ≠ .collect a) : (w.act callable x).registry a =
      some ((x.routed w (.app a)).foldl (perform callable) s) := by
  cases x with
  | initApp e' b stays =>
    simp only [World.act,World.initApp,HostAction.routed]
    split
    · exact hs
    · have hne : a ≠ b := by
        rintro rfl
        simp_all
      simpa [hne] using hs
  | collect b =>
    have hne : a ≠ b := by
      rintro rfl
      exact hx rfl
    simpa [World.act,World.collect,hne,HostAction.routed] using hs
  | register e' context r =>
    simp only [World.act,HostAction.routed]
    cases ht : r.target w e' context with
    | error err => simp [register,ht,hs]
    | ok o =>
      rw [register_chosen ht]
      cases o with
      | extension d => simpa [World.put] using hs
      | app b =>
        by_cases hb : b = a
        · subst hb
          simp [World.put,World.slots,hs]
        · simp [World.put,hb,Ne.symm hb,hs]

/-- An application gets its Runtime from an `init_app` of it only. -/
theorem act_unknown (callable : φ → Bool) {a : ℕ} (hs : w.registry a = none) (x : HostAction φ) :
    (w.act callable x).registry a = none ∨
    ∃ e, x = .initApp e a true ∧
      (w.act callable x).registry a = some (seedFrom {} (w.deferred e)) ∧
      (w.act callable x).applications =
        Function.update w.applications e ((w.applications e).insert a) := by
  cases x with
  | initApp e' b stays =>
    simp only [World.act,World.initApp]
    split
    · exact Or.inl hs
    next hn =>
      by_cases hb : b = a
      · subst hb
        obtain rfl : stays = true := by simpa [hs] using hn
        exact Or.inr ⟨e',rfl,by simp,rfl⟩
      · exact Or.inl (by simpa [Ne.symm hb] using hs)
  | collect b =>
    by_cases hb : a = b <;> simp [World.act,World.collect,hb,hs]
  | register e' context r =>
    left
    simp only [World.act]
    cases ht : r.target w e' context with
    | error err => simp [register,ht,hs]
    | ok o =>
      rw [register_chosen ht]
      cases o with
      | extension d => exact hs
      | app b =>
        have hb := (Registration.target_chosen ht).slots
        have hne : a ≠ b := by
          rintro rfl
          simp [hs] at hb
        simpa [World.put,hne] using hs

theorem act_applications {a : ℕ} (hs : (w.registry a).isSome) {x : HostAction φ}
    (hx : x ≠ .collect a) (e : ℕ) :
    a ∈ (w.act callable x).applications e ↔ a ∈ w.applications e := by
  cases x with
  | initApp e' b stays =>
    simp only [World.act,World.initApp]
    split
    · rfl
    · have hne : a ≠ b := by
        rintro rfl
        simp_all
      by_cases he : e = e'
      · subst he
        simp [List.mem_insert_iff,hne]
      · simp [he]
  | collect b =>
    have hne : a ≠ b := by
      rintro rfl
      exact hx rfl
    simp [World.act,World.collect,hne]
  | register e' context r =>
    simp only [World.act]
    cases ht : r.target w e' context with
    | error err => simp [register,ht]
    | ok o =>
      rw [register_chosen ht]
      cases o <;> rfl

theorem act_recorded {a : ℕ} (x : HostAction φ) (ha : a ∈ (w.act callable x).applications e) :
    a ∈ w.applications e ∨ ((w.act callable x).registry a).isSome := by
  cases x with
  | initApp e' b stays =>
    simp only [World.act,World.initApp] at ha ⊢
    split at ha
    · exact Or.inl ha
    next hn =>
      rw [if_neg hn]
      by_cases hb : a = b
      · simp [hb]
      · by_cases he : e = e'
        · subst he
          exact Or.inl (by simpa [List.mem_insert_iff,hb] using ha)
        · exact Or.inl (by simpa [he] using ha)
  | collect b => exact Or.inl (List.mem_of_mem_filter ha)
  | register e' context r =>
    left
    simp only [World.act] at ha
    cases ht : r.target w e' context with
    | error err => simpa [register,ht] using ha
    | ok o =>
      rw [register_chosen ht] at ha
      cases o <;> exact ha

/-! ### Every run -/

/-- The call after `before`, by extension `e`, has initialised application `a`, which had no
registry then and has not been collected since. -/
structure Life (callable : φ → Bool) (actions : List (HostAction φ)) (a : ℕ)
    (before : List (HostAction φ)) (e : ℕ) (after : List (HostAction φ)) : Prop where
  split : actions = before ++ .initApp e a true :: after
  fresh : (World.run callable {} before).registry a = none
  lives : .collect a ∉ after

theorem Life.start {actions : List (HostAction φ)} {a : ℕ} (e : ℕ)
    (h : (World.run callable {} actions).registry a = none) :
    Life callable (actions ++ [.initApp e a true]) a actions e [] :=
  ⟨rfl,h,List.not_mem_nil⟩

theorem Life.snoc {actions before after : List (HostAction φ)} {a : ℕ}
    (h : Life callable actions a before e after) {x : HostAction φ} (hx : x ≠ .collect a) :
    Life callable (actions ++ [x]) a before e (after ++ [x]) where
  split := by rw [h.split,List.append_assoc,List.cons_append]
  fresh := h.fresh
  lives hm := (List.mem_append.mp hm).elim h.lives fun hm => hx (List.mem_singleton.mp hm).symm

/-- Extension `e` has initialised application `a`, and `s` is what the calls that chose `a` since
then have made of the defaults of `e` at that time. -/
def SeededBy (callable : φ → Bool) (actions : List (HostAction φ)) (e a : ℕ) (s : Slots φ) : Prop :=
  ∃ before after, Life callable actions a before e after ∧
    s = (routed callable (.app a) (World.run callable {} (before ++ [.initApp e a true]))
      after).foldl (perform callable) (seedFrom {} ((World.run callable {} before).deferred e))

theorem SeededBy.snoc {actions : List (HostAction φ)} {a : ℕ} {s : Slots φ}
    (h : SeededBy callable actions e a s) {x : HostAction φ} (hx : x ≠ .collect a) :
    SeededBy callable (actions ++ [x]) e a ((x.routed (World.run callable {} actions)
      (.app a)).foldl (perform callable) s) := by
  obtain ⟨before,after,hlife,rfl⟩ := h
  refine ⟨before,after ++ [x],hlife.snoc hx,?_⟩
  rw [hlife.split,routed_append,List.foldl_append,← run_append]
  simp [routed]

/-- What holds of the world after a run. -/
structure Isolated (callable : φ → Bool) (actions : List (HostAction φ)) (w : World φ) : Prop where
  deferred : ∀ e, w.deferred e =
    (routed callable (.extension e) {} actions).foldl (perform callable) {}
  recorded : ∀ e a, a ∈ w.applications e → (w.registry a).isSome
  registry : ∀ a s, w.registry a = some s →
    ∃ e, SeededBy callable actions e a s ∧ ∀ e', a ∈ w.applications e' ↔ e' = e
  reachable : ∀ o, Callback.Reachable callable (w.slots o)
  calls : ∀ e context r, (∃ err, register w e context callable r = (.error err,w)) ∨
    ∃ o, Chosen w e context r.app o ∧ register w e context callable r =
      (.ok (),w.put (perform callable (w.slots o) r.operation) o)

theorem performs_reachable {self : Slots φ} (h : Callback.Reachable callable self)
    {r : List (Operation φ)} (hr : ∀ op ∈ r, ∀ other, op ≠ .seedFrom other) :
    Callback.Reachable callable (r.foldl (perform callable) self) := by
  induction r generalizing self with
  | nil => exact h
  | cons op r ih =>
    exact ih (.perform op h fun other ho => absurd ho (hr op List.mem_cons_self other))
      fun op' hop => hr op' (List.mem_cons_of_mem _ hop)

theorem HostAction.routed_ne_seed (w : World φ) (o : Owner) (x : HostAction φ) :
    ∀ op ∈ x.routed w o, ∀ other, op ≠ .seedFrom other := by
  intro op hop other
  cases x with
  | register e context r =>
    simp only [routed] at hop
    split at hop
    · split at hop
      · obtain rfl := List.mem_singleton.mp hop
        cases r <;> simp [Registration.operation]
      · cases hop
    · cases hop
  | _ => cases hop

namespace Isolated
variable {actions : List (HostAction φ)}

theorem snoc_deferred (h : Isolated callable actions (World.run callable {} actions))
    (x : HostAction φ) (e : ℕ) : ((World.run callable {} actions).act callable x).deferred e =
      (routed callable (.extension e) {} (actions ++ [x])).foldl (perform callable) {} := by
  rw [act_deferred,h.deferred e,routed_append,List.foldl_append]
  simp [routed]

theorem snoc_recorded (h : Isolated callable actions w) (x : HostAction φ) {e a : ℕ}
    (ha : a ∈ (w.act callable x).applications e) : ((w.act callable x).registry a).isSome := by
  rcases act_recorded x ha with hold | hnew
  · obtain ⟨s,hs⟩ := Option.isSome_iff_exists.mp (h.recorded e a hold)
    by_cases hx : x = .collect a
    · subst hx
      simp [World.act,World.collect] at ha
    · rw [act_registry hs hx]
      rfl
  · exact hnew

theorem snoc_registry (h : Isolated callable actions (World.run callable {} actions))
    (x : HostAction φ) {a : ℕ} {s : Slots φ}
    (hs : ((World.run callable {} actions).act callable x).registry a = some s) :
    ∃ e, SeededBy callable (actions ++ [x]) e a s ∧
      ∀ e', a ∈ ((World.run callable {} actions).act callable x).applications e' ↔ e' = e := by
  cases hold : (World.run callable {} actions).registry a with
  | some s₀ =>
    have hx : x ≠ .collect a := by
      rintro rfl
      simp [World.act,World.collect] at hs
    obtain ⟨e,hseed,hown⟩ := h.registry a s₀ hold
    rw [act_registry hold hx] at hs
    obtain rfl := Option.some.inj hs
    exact ⟨e,hseed.snoc hx,fun e' => (act_applications (by simp [hold]) hx e').trans (hown e')⟩
  | none =>
    rcases act_unknown callable hold x with hnone | ⟨e,rfl,hnew,happs⟩
    · rw [hnone] at hs
      cases hs
    · rw [hnew] at hs
      obtain rfl := Option.some.inj hs
      refine ⟨e,⟨actions,[],.start e hold,rfl⟩,fun e' => ?_⟩
      have hfree : a ∉ (World.run callable {} actions).applications e' := fun ha => by
        have hsome := h.recorded e' a ha
        simp [hold] at hsome
      rw [happs]
      by_cases he : e' = e
      · subst he
        simp
      · simp [he,hfree]

theorem snoc_reachable (h : Isolated callable actions w) (x : HostAction φ) (o : Owner) :
    Callback.Reachable callable ((w.act callable x).slots o) := by
  have hnew : ∀ e, Callback.Reachable callable (seedFrom {} (w.deferred e)) := fun e =>
    .perform (.seedFrom _) .new fun other ho => by
      cases ho
      exact h.reachable (.extension e)
  cases o with
  | extension e =>
    rw [World.slots,act_deferred]
    exact performs_reachable (h.reachable (.extension e)) (x.routed_ne_seed w _)
  | app a =>
    rw [World.slots]
    cases hs : w.registry a with
    | none =>
      rcases act_unknown callable hs x with he | ⟨e,-,he,-⟩ <;> rw [he]
      · exact .new
      · exact hnew e
    | some s =>
      by_cases hx : x = .collect a
      · subst hx
        simpa [World.act,World.collect] using Callback.Reachable.new
      · rw [act_registry hs hx]
        refine performs_reachable ?_ (x.routed_ne_seed w _)
        simpa [World.slots,hs] using h.reachable (.app a)

end Isolated

theorem register_confined (w : World φ) (e : ℕ) (context : Option ℕ) (r : Registration φ) :
    (∃ err, register w e context callable r = (.error err,w)) ∨
    ∃ o, Chosen w e context r.app o ∧ register w e context callable r =
      (.ok (),w.put (perform callable (w.slots o) r.operation) o) := by
  rcases register_cases callable w e context r with herr | ⟨o,-,hchosen,he,-⟩
  · exact Or.inl herr
  · exact Or.inr ⟨o,hchosen,he⟩

/-- The registry of every application and the defaults of every extension are those of the calls
that chose them, and of no other. -/
theorem registrations_isolated (callable : φ → Bool) (actions : List (HostAction φ)) :
    Isolated callable actions (World.run callable {} actions) := by
  induction actions using List.reverseRecOn with
  | nil =>
    refine ⟨fun e => rfl,fun e a ha => ?_,fun a s hs => ?_,fun o => ?_,?_⟩
    · cases ha
    · cases hs
    · cases o <;> exact .new
    · exact register_confined _
  | append_singleton actions x ih =>
    have hrun : World.run callable {} (actions ++ [x]) =
        (World.run callable {} actions).act callable x := run_append _ _ _
    rw [hrun]
    exact ⟨ih.snoc_deferred x,fun _ _ => ih.snoc_recorded x,fun _ _ => ih.snoc_registry x,
      ih.snoc_reachable x,register_confined _⟩

/-! ### Nothing registered is lost -/

def HostAction.replaces : HostAction φ → Bool
  | .register _ _ r => r.replaces
  | .initApp .. | .collect _ => false

theorem HostAction.routed_replaces {x : HostAction φ} (hx : x.replaces = false) (w : World φ)
    (o : Owner) : ∀ op ∈ x.routed w o, op.replaces = false := by
  intro op hop
  cases x with
  | register e context r =>
    simp only [routed] at hop
    split at hop
    · split at hop
      · obtain rfl := List.mem_singleton.mp hop
        cases r <;> first | rfl | exact hx
      · cases hop
    · cases hop
  | _ => cases hop

/-- What `get_*_callback(app, ...)` finds at a place. -/
def getCallback (w : World φ) (e : ℕ) (context app : Option ℕ) :
    Place → Except ExtensionError (Option φ)
  | .run key => getRunCallback w e context app key
  | .single slot => getSingleCallback w e context app slot

/-- Whichever extension is asked, application `a` has the callback. -/
def Serves (w : World φ) (m : Place × φ) (a : ℕ) : Prop :=
  ∀ e context, getCallback w e context (some a) m.1 = .ok (some m.2)

theorem serves_of {m : Place × φ} (hv : m.1.Valid) {a : ℕ} {s : Slots φ}
    (hs : w.registry a = some s) (hm : s.at m.1 = some m.2) : Serves w m a := by
  intro e context
  have hfor : registryFor w e context (some a) = .ok (.app a) :=
    registryFor_chosen.mpr (.named (by simp [hs]))
  have hslots : w.slots (.app a) = s := by simp [World.slots,hs]
  obtain ⟨key | slot,f⟩ := m
  · obtain ⟨name,rfl,hname⟩ := validateExecutorHandler_ok hv
    refine bind_ok_iff.mpr ⟨name,by rw [hname]; rfl,bind_ok_iff.mpr ⟨_,hfor,?_⟩⟩
    rw [hslots]
    exact congrArg Except.ok hm
  · refine bind_ok_iff.mpr ⟨_,hfor,?_⟩
    rw [hslots]
    exact congrArg Except.ok hm

theorem registry_keeps {p : Place} {f : φ} {a : ℕ} {more : List (HostAction φ)}
    (hmore : ∀ x ∈ more, x.replaces = false) (hlive : ∀ x ∈ more, x ≠ .collect a)
    (h : ∃ s, w.registry a = some s ∧ s.at p = some f) :
    ∃ s, (w.run callable more).registry a = some s ∧ s.at p = some f := by
  induction more generalizing w with
  | nil => exact h
  | cons x more ih =>
    obtain ⟨s,hs,hp⟩ := h
    have hkeep := performs_extends callable s
      (HostAction.routed_replaces (hmore x List.mem_cons_self) w (.app a))
    exact ih (fun y hy => hmore y (List.mem_cons_of_mem _ hy))
      (fun y hy => hlive y (List.mem_cons_of_mem _ hy))
      ⟨_,act_registry hs (hlive x List.mem_cons_self),hkeep p f hp⟩

theorem seedFrom_new (other : Slots φ) : (seedFrom {} other).at = other.at := by
  funext place
  rw [seedFrom_at,fallback]
  have hnone : ({} : Slots φ).at place = none := by
    cases place with
    | run key => cases key <;> simp [Slots.at,named]
    | single slot => cases slot <;> rfl
  simp [hnone]

/-- A default of the extension is also in every application it has initialised. -/
def Spread (e : ℕ) (p : Place) (f : φ) (w : World φ) : Prop :=
  (w.deferred e).at p = some f ∧
    ∀ a ∈ w.applications e, ∃ s, w.registry a = some s ∧ s.at p = some f

theorem Spread.act {p : Place} {f : φ} (h : Spread e p f w) {x : HostAction φ}
    (hx : x.replaces = false) : Spread e p f (w.act callable x) := by
  obtain ⟨hdef,happs⟩ := h
  refine ⟨?_,fun a ha => ?_⟩
  · rw [act_deferred]
    exact performs_extends callable _ (HostAction.routed_replaces hx w _) p f hdef
  · have hlive : x ≠ .collect a := by
      rintro rfl
      simp [World.act,World.collect] at ha
    cases hs : w.registry a with
    | some s =>
      obtain ⟨s',hs',hp⟩ := happs a ((act_applications (by simp [hs]) hlive e).mp ha)
      have hkeep := performs_extends callable s' (HostAction.routed_replaces hx w (.app a))
      exact ⟨_,act_registry hs' hlive,hkeep p f hp⟩
    | none =>
      have hfree : a ∉ w.applications e := fun hmem => by
        obtain ⟨s',hs',-⟩ := happs a hmem
        simp [hs] at hs'
      rcases act_unknown callable hs x with hnone | ⟨e',-,hnew,hadd⟩
      · rcases act_recorded x ha with hold | hsome
        · exact absurd hold hfree
        · simp [hnone] at hsome
      · obtain rfl : e = e' := by
          by_contra hne
          rw [hadd,Function.update_of_ne hne] at ha
          exact hfree ha
        exact ⟨_,hnew,by rw [seedFrom_new]; exact hdef⟩

theorem Spread.run {p : Place} {f : φ} (h : Spread e p f w) {more : List (HostAction φ)}
    (hmore : ∀ x ∈ more, x.replaces = false) : Spread e p f (w.run callable more) := by
  induction more generalizing w with
  | nil => exact h
  | cons x more ih =>
    exact ih (h.act (hmore x List.mem_cons_self)) fun y hy => hmore y (List.mem_cons_of_mem _ hy)

/-- Without `replace` a callback stays where a registration has put it, and spreads from the
defaults of an extension to the applications it initialises. -/
theorem registered_kept {w₁ : World φ} {r : Registration φ}
    (h : register w e context callable r = (.ok (),w₁)) {m : Place × φ} (hm : m ∈ r.batch.members)
    {more : List (HostAction φ)} (hmore : ∀ x ∈ more, x.replaces = false) : m.1.Valid ∧
    ((∃ a, Chosen w e context r.app (.app a) ∧ ((∀ x ∈ more, x ≠ .collect a) →
      ∃ s, (w₁.run callable more).registry a = some s ∧ s.at m.1 = some m.2)) ∨
    Chosen w e context r.app (.extension e) ∧ ∀ a ∈ (w₁.run callable more).applications e,
      ∃ s, (w₁.run callable more).registry a = some s ∧ s.at m.1 = some m.2) := by
  rcases register_cases callable w e context r with ⟨err,he⟩ | ⟨o,-,hchosen,he,hrej,hov⟩
  · rw [he] at h
    cases h
  · rw [he] at h
    obtain rfl := (Prod.mk.inj h).2
    refine ⟨((not_rejected_iff.mp hrej).2 m hm).1,?_⟩
    have hput := (hov m.1 m.2).mpr (Or.inl hm)
    cases o with
    | app a => exact Or.inl ⟨a,hchosen,fun hlive =>
        registry_keeps hmore hlive ⟨_,Function.update_self ..,hput⟩⟩
    | extension d =>
      obtain ⟨hnil,rfl⟩ := hchosen.extension
      have hspread : Spread d m.1 m.2
          (w.put (perform callable (w.slots (.extension d)) r.operation) (.extension d)) :=
        ⟨by simpa [World.put] using hput,by simp [World.put,hnil]⟩
      exact Or.inr ⟨hchosen,(hspread.run hmore).2⟩

/-- Without `replace` a callback that has been registered is served by its application as long as
that lives, and a deferred one by every application that its extension initialises. -/
theorem registered_served {w₁ : World φ} {r : Registration φ}
    (h : register w e context callable r = (.ok (),w₁)) {m : Place × φ} (hm : m ∈ r.batch.members)
    {more : List (HostAction φ)} (hmore : ∀ x ∈ more, x.replaces = false) :
    (∃ a, Chosen w e context r.app (.app a) ∧
      ((∀ x ∈ more, x ≠ .collect a) → Serves (w₁.run callable more) m a)) ∨
    Chosen w e context r.app (.extension e) ∧
      ∀ a ∈ (w₁.run callable more).applications e, Serves (w₁.run callable more) m a := by
  obtain ⟨hv,⟨a,hchosen,hkept⟩ | ⟨hchosen,hkept⟩⟩ := registered_kept h hm hmore
  · refine Or.inl ⟨a,hchosen,fun hlive => ?_⟩
    obtain ⟨s,hs,hp⟩ := hkept hlive
    exact serves_of hv hs hp
  · refine Or.inr ⟨hchosen,fun a ha => ?_⟩
    obtain ⟨s,hs,hp⟩ := hkept a ha
    exact serves_of hv hs hp

/-- A default that two applications of the extension serve, one of them with a handler of its
own. -/
theorem registered_served_seeded : ∃ w₁ : World ℕ,
    (∃ a b, w₁.applications 0 = [a,b] ∧ a ≠ b) ∧
    ∀ a ∈ w₁.applications 0, Serves w₁ (.run (.str "demo"),7) a := by
  have h : (register {} 0 none (fun _ => true) (.onRun (.str "demo") 7)).1 = .ok () := by rfl
  have hm : (Place.run (.str "demo"),7) ∈ (Registration.onRun (.str "demo") 7).batch.members := by
    simp [Registration.batch,Batch.items]
  have hmore : ∀ x ∈ [HostAction.initApp 0 0 true,
      .register 0 none (.setRunCallback (some 0) (.str "own") 8 false),.initApp 0 1 true],
      x.replaces = false := by decide
  have hs := registered_served (Prod.ext h rfl) hm hmore
  rcases hs with ⟨a,hc,-⟩ | ⟨-,hs⟩
  · cases hc with
    | inContext hc => cases hc
    | only _ ha => cases ha
  · refine ⟨_,⟨1,0,?_,by decide⟩,hs⟩
    rfl

end FlaskXxlJob.Extension
