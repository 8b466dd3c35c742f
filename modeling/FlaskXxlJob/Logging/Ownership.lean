import FlaskXxlJob.Logging.Manager
import Mathlib.Data.List.Nodup
import Mathlib.Data.List.Range

/-!
Who holds a managed handler. A manager lists the handlers it has made until it closes them, and
only its own logger carries them.
-/
namespace FlaskXxlJob.Logging
open Python Config

variable {w w' : Process}

/-- The owner of a handler and how often it has been closed. -/
def Handler.account (h : Handler) : ℕ × ℕ := (h.owner,h.closes)

def Process.account (w : Process) (n : ℕ) : Option (ℕ × ℕ) := (w.handler n).map Handler.account

structure Owned (w : Process) : Prop where
  ids : ∀ i m, w.manager i = some m → i < w.runtimeIds ∧ ∃ appName, m.name = loggerName appName i
  made : ∀ n, w.made ≤ n → w.account n = none
  held : ∀ i m n, w.manager i = some m → n ∈ m.handlers → w.account n = some (i,0)
  listed : ∀ i m, w.manager i = some m → m.handlers.Nodup
  once : ∀ n i c, w.account n = some (i,c) →
    c ≤ 1 ∧ (c = 0 → ∃ m, w.manager i = some m ∧ n ∈ m.handlers)
  attached : ∀ p n, .managed n ∈ (w.loggers p).handlers →
    ∃ i m, w.manager i = some m ∧ p = path m.name ∧ n ∈ m.handlers
  single : ∀ p, (w.loggers p).handlers.Nodup
  closed : ∀ i m, w.manager i = some m → m.closed = true → m.handlers = []

/-! ### The parts of a step -/

namespace Process

@[simp] theorem updateLogger_runtimeIds (p : Path) (f : Logger → Logger) :
    (w.updateLogger p f).runtimeIds = w.runtimeIds := rfl

@[simp] theorem updateLogger_made (p : Path) (f : Logger → Logger) :
    (w.updateLogger p f).made = w.made := rfl

@[simp] theorem updateLogger_manager (p : Path) (f : Logger → Logger) :
    (w.updateLogger p f).manager = w.manager := rfl

@[simp] theorem updateLogger_handler (p : Path) (f : Logger → Logger) :
    (w.updateLogger p f).handler = w.handler := rfl

theorem updateLogger_loggers (p q : Path) (f : Logger → Logger) :
    (w.updateLogger p f).loggers q = if q = p then f (w.loggers p) else w.loggers q := by
  by_cases h : q = p
  · subst h
    simp [updateLogger]
  · simp [updateLogger,h]

end Process

/-- A step that keeps the managers and the accounts may only take managed handlers off a
logger. -/
theorem Owned.mono (h : Owned w) (hids : w'.runtimeIds = w.runtimeIds) (hmade : w'.made = w.made)
    (hman : w'.manager = w.manager) (hacc : w'.account = w.account)
    (hlog : ∀ p, (w'.loggers p).handlers.Nodup ∧
      ∀ n, .managed n ∈ (w'.loggers p).handlers → .managed n ∈ (w.loggers p).handlers) :
    Owned w' where
  ids := by
    rw [hman,hids]
    exact h.ids
  made := by
    rw [hmade,hacc]
    exact h.made
  held := by
    rw [hman,hacc]
    exact h.held
  listed := by
    rw [hman]
    exact h.listed
  once := by
    rw [hman,hacc]
    exact h.once
  attached p n hn := by
    rw [hman]
    exact h.attached p n ((hlog p).2 n hn)
  single p := (hlog p).1
  closed := by
    rw [hman]
    exact h.closed

/-- The same for a step on one logger. -/
theorem Owned.updateLogger (h : Owned w) (p : Path) {f : Logger → Logger}
    (hnd : (w.loggers p).handlers.Nodup → (f (w.loggers p)).handlers.Nodup)
    (hsub : ∀ n, .managed n ∈ (f (w.loggers p)).handlers →
      .managed n ∈ (w.loggers p).handlers) : Owned (w.updateLogger p f) := by
  refine h.mono rfl rfl rfl rfl fun q => ?_
  rw [Process.updateLogger_loggers]
  by_cases hq : q = p
  · subst hq
    rw [if_pos rfl]
    exact ⟨hnd (h.single q),hsub⟩
  · rw [if_neg hq]
    exact ⟨h.single q,fun n hn => hn⟩

theorem Owned.removeHandler (h : Owned w) (p : Path) (x : HandlerId) :
    Owned (w.removeHandler p x) :=
  h.updateLogger p (fun hnd => hnd.erase x) fun _ hn => List.mem_of_mem_erase hn

theorem Owned.addHostHandler (h : Owned w) (p : Path) (n : ℕ) :
    Owned (w.addHandler p (.host n)) := by
  refine h.updateLogger p (fun hnd => ?_) fun k hk => ?_
  · split
    · exact hnd
    next hn => exact hnd.append (List.nodup_singleton _) (by simpa using hn)
  · split at hk
    · exact hk
    · simpa using hk

theorem Owned.setStream (h : Owned w) (n : ℕ) (b : Bool) :
    Owned (w.updateHandler n fun x => { x with streamClosed := b }) := by
  refine h.mono rfl rfl rfl ?_ fun p => ⟨h.single p,fun _ hn => hn⟩
  funext k
  by_cases hk : k = n
  · subst hk
    simp [Process.account,Process.updateHandler,Function.comp_def]
    rfl
  · simp [Process.account,Process.updateHandler,hk]

/-! ### Detaching -/

/-- The handlers of a list are off their logger and closed, and nothing else has changed. -/
structure Detached (p : Path) (gone : List ℕ) (w w' : Process) : Prop where
  runtimeIds : w'.runtimeIds = w.runtimeIds
  made : w'.made = w.made
  manager : w'.manager = w.manager
  others : ∀ q, q ≠ p → w'.loggers q = w.loggers q
  level : (w'.loggers p).level = (w.loggers p).level
  propagate : (w'.loggers p).propagate = (w.loggers p).propagate
  handlers : (w.loggers p).handlers.Nodup →
    (w'.loggers p).handlers = (w.loggers p).handlers.filter fun x => ∀ n ∈ gone, x ≠ .managed n
  handler : ∀ n, w'.handler n =
    (w.handler n).map fun h => { h with closes := h.closes + gone.count n }

theorem Detached.nil (p : Path) (w : Process) : Detached p [] w w where
  runtimeIds := rfl
  made := rfl
  manager := rfl
  others _ _ := rfl
  level := rfl
  propagate := rfl
  handlers _ := by simp
  handler n := by simp

theorem Detached.cons {p : Path} {n : ℕ} {gone : List ℕ}
    (h : Detached p gone (LogManager.detach p w n) w') : Detached p (n :: gone) w w' where
  runtimeIds := h.runtimeIds
  made := h.made
  manager := h.manager
  others q hq := by
    rw [h.others q hq]
    exact Function.update_of_ne hq ..
  level := by
    rw [h.level]
    simp [LogManager.detach,Process.removeHandler,Process.updateLogger,Process.closeHandler,
      Process.updateHandler]
  propagate := by
    rw [h.propagate]
    simp [LogManager.detach,Process.removeHandler,Process.updateLogger,Process.closeHandler,
      Process.updateHandler]
  handlers hnd := by
    have hone : ((LogManager.detach p w n).loggers p).handlers =
        (w.loggers p).handlers.erase (.managed n) := by
      simp [LogManager.detach,Process.removeHandler,Process.updateLogger,Process.closeHandler,
        Process.updateHandler]
    rw [h.handlers (hone ▸ hnd.erase _),hone,hnd.erase_eq_filter,List.filter_filter]
    refine List.filter_congr fun x _ => ?_
    rw [Bool.and_comm]
    simp [bne,beq_eq_decide]
  handler k := by
    rw [h.handler k]
    by_cases hk : k = n
    · subst hk
      simp [LogManager.detach,Process.removeHandler,Process.updateLogger,Process.closeHandler,
        Process.updateHandler,Function.comp_def,Nat.add_assoc,Nat.add_comm 1]
    · simp [LogManager.detach,Process.removeHandler,Process.updateLogger,Process.closeHandler,
        Process.updateHandler,hk,Ne.symm hk]

theorem detached_foldl (p : Path) (gone : List ℕ) (w : Process) :
    Detached p gone w (gone.foldl (LogManager.detach p) w) := by
  induction gone generalizing w with
  | nil => exact .nil p w
  | cons n gone ih => exact (ih _).cons

/-- A manager that gives up some of its handlers, which leave its logger and are closed. -/
theorem Owned.release (h : Owned w) {i : ℕ} {m m' : LogManager} {gone : List ℕ}
    (hm : w.manager i = some m) (hname : m'.name = m.name)
    (hparts : m.handlers.Perm (gone ++ m'.handlers))
    (hclosed : m'.closed = true → m'.handlers = [])
    (hd : Detached (path m.name) gone w w') : Owned (w'.putManager i m') := by
  have hnd : (gone ++ m'.handlers).Nodup := hparts.nodup_iff.mp (h.listed i m hm)
  obtain ⟨hgone,hrest,hdisj⟩ := List.nodup_append.mp hnd
  have hput : ∀ j x, (w'.putManager i m').manager j = some x →
      j = i ∧ x = m' ∨ j ≠ i ∧ w.manager j = some x := by
    intro j x hx
    by_cases hj : j = i
    · subst hj
      exact Or.inl ⟨rfl,by simpa [Process.putManager,eq_comm] using hx⟩
    · exact Or.inr ⟨hj,by simpa [Process.putManager,hj,hd.manager] using hx⟩
  have hacc : ∀ n, w'.account n = (w.account n).map fun a => (a.1,a.2 + gone.count n) := by
    intro n
    simp only [Process.account,hd.handler n,Option.map_map]
    rfl
  have hkept : ∀ n, n ∉ gone → w'.account n = w.account n := by
    intro n hn
    rw [hacc,List.count_eq_zero_of_not_mem hn]
    simp
  have hother : ∀ j x n, j ≠ i → w.manager j = some x → n ∈ x.handlers → n ∉ gone := by
    intro j x n hj hx hn hg
    have h₁ := h.held j x n hx hn
    have h₂ := h.held i m n hm (hparts.mem_iff.mpr (List.mem_append_left _ hg))
    rw [h₁] at h₂
    exact hj (Prod.mk.inj (Option.some.inj h₂)).1
  have hself : (w'.putManager i m').manager i = some m' := by simp [Process.putManager]
  have hsame : ∀ j, j ≠ i → (w'.putManager i m').manager j = w.manager j := fun j hj => by
    simp [Process.putManager,hj,hd.manager]
  refine ⟨fun j x hx => ?_,fun n hn => ?_,fun j x n hx hn => ?_,fun j x hx => ?_,
    fun n j c ha => ?_,fun q n hn => ?_,fun q => ?_,fun j x hx => ?_⟩
  · rw [show (w'.putManager i m').runtimeIds = w.runtimeIds from hd.runtimeIds]
    rcases hput j x hx with ⟨rfl,rfl⟩ | ⟨-,hx⟩
    · rw [hname]
      exact h.ids j m hm
    · exact h.ids j x hx
  · have hnone := h.made n (hd.made ▸ hn)
    change w'.account n = none
    rw [hacc,hnone]
    rfl
  · change w'.account n = some (j,0)
    rcases hput j x hx with ⟨rfl,rfl⟩ | ⟨hj,hx⟩
    · rw [hkept n fun hg => hdisj n hg n hn rfl]
      exact h.held j m n hm (hparts.mem_iff.mpr (List.mem_append_right _ hn))
    · rw [hkept n (hother j x n hj hx hn)]
      exact h.held j x n hx hn
  · rcases hput j x hx with ⟨rfl,rfl⟩ | ⟨-,hx⟩
    · exact hrest
    · exact h.listed j x hx
  · change w'.account n = some (j,c) at ha
    by_cases hg : n ∈ gone
    · rw [hacc,h.held i m n hm (hparts.mem_iff.mpr (List.mem_append_left _ hg)),
        List.count_eq_one_of_mem hgone hg] at ha
      cases ha
      exact ⟨le_rfl,fun hc => absurd hc Nat.one_ne_zero⟩
    · rw [hkept n hg] at ha
      obtain ⟨hle,hopen⟩ := h.once n j c ha
      refine ⟨hle,fun hc => ?_⟩
      obtain ⟨x,hx,hn⟩ := hopen hc
      by_cases hj : j = i
      · subst hj
        obtain rfl := Option.some.inj (hm.symm.trans hx)
        exact ⟨m',hself,(List.mem_append.mp (hparts.mem_iff.mp hn)).resolve_left hg⟩
      · exact ⟨x,by rw [hsame j hj]; exact hx,hn⟩
  · change .managed n ∈ (w'.loggers q).handlers at hn
    have hold : .managed n ∈ (w.loggers q).handlers ∧ (q = path m.name → n ∉ gone) := by
      by_cases hq : q = path m.name
      · subst hq
        rw [hd.handlers (h.single _),List.mem_filter] at hn
        exact ⟨hn.1,fun _ hg => by simpa using of_decide_eq_true hn.2 n hg⟩
      · rw [hd.others q hq] at hn
        exact ⟨hn,fun he => absurd he hq⟩
    obtain ⟨j,x,hx,rfl,hmem⟩ := h.attached q n hold.1
    by_cases hj : j = i
    · subst hj
      obtain rfl := Option.some.inj (hm.symm.trans hx)
      refine ⟨j,m',hself,by rw [hname],?_⟩
      exact (List.mem_append.mp (hparts.mem_iff.mp hmem)).resolve_left (hold.2 rfl)
    · exact ⟨j,x,by rw [hsame j hj]; exact hx,rfl,hmem⟩
  · change (w'.loggers q).handlers.Nodup
    by_cases hq : q = path m.name
    · subst hq
      rw [hd.handlers (h.single _)]
      exact (h.single _).filter _
    · rw [hd.others q hq]
      exact h.single q
  · rcases hput j x hx with ⟨rfl,rfl⟩ | ⟨-,hx⟩
    · exact hclosed
    · exact h.closed j x hx

theorem detachUnavailable_eq (p : Path) (l : List ℕ) (w : Process) :
    LogManager.detachUnavailable p l w =
      ((l.filter fun n => (w.handler n).any Handler.streamClosed).foldl (LogManager.detach p) w,
        l.filter fun n => !(w.handler n).any Handler.streamClosed) := by
  have hsame : ∀ (w : Process) (k n : ℕ),
      ((LogManager.detach p w k).handler n).any Handler.streamClosed =
        (w.handler n).any Handler.streamClosed := by
    intro w k n
    rw [(Detached.nil p _).cons.handler n]
    cases w.handler n <;> rfl
  induction l generalizing w with
  | nil => rfl
  | cons n l ih =>
    rw [LogManager.detachUnavailable]
    split
    next hn => simp [ih,hsame,hn]
    next hn => simp [ih,hn]

theorem Owned.prepareShutdown (h : Owned w) (i : ℕ) : Owned (LogManager.prepareShutdown i w) := by
  unfold LogManager.prepareShutdown
  split
  · exact h
  next m hm =>
    rw [detachUnavailable_eq]
    refine h.release hm rfl ?_ (fun hc => ?_) (detached_foldl ..)
    · exact (List.filter_append_perm _ _).symm
    · simp [h.closed i m hm hc]

theorem Owned.close (h : Owned w) (i : ℕ) : Owned (LogManager.close i w) := by
  unfold LogManager.close
  split
  · exact h
  next m hm =>
    split
    · exact h
    · refine Owned.updateLogger ?_ _ id fun _ hn => hn
      exact h.release hm rfl (by simp) (fun _ => rfl) (detached_foldl ..)

/-! ### Making -/

/-- The handlers of a list are new, and on `c` calls of `close`. -/
structure Created (i c k : ℕ) (w w' : Process) : Prop where
  runtimeIds : w'.runtimeIds = w.runtimeIds
  made : w'.made = w.made + k
  manager : w'.manager = w.manager
  loggers : w'.loggers = w.loggers
  old : ∀ n, n ∉ List.range' w.made k → w'.account n = w.account n
  new : ∀ n ∈ List.range' w.made k, w'.account n = some (i,c)

theorem created_makeHandlers (i : ℕ) (config : XXLJobConfig) (l : List HandlerType)
    (w : Process) : Created i 0 l.length w (LogManager.makeHandlers i config l w) := by
  induction l generalizing w with
  | nil => exact ⟨rfl,rfl,rfl,rfl,fun _ _ => rfl,fun n hn => by simp at hn⟩
  | cons t l ih =>
    have hi := ih (w.makeHandler (LogManager.prepareHandler i config t))
    have hmade : (w.makeHandler (LogManager.prepareHandler i config t)).made = w.made + 1 := rfl
    refine ⟨hi.runtimeIds,?_,hi.manager,hi.loggers,fun n hn => ?_,fun n hn => ?_⟩
    · rw [LogManager.makeHandlers,List.foldl_cons]
      exact hi.made.trans (by rw [hmade,List.length_cons]; omega)
    · rw [List.length_cons,List.range'_succ,List.mem_cons,not_or] at hn
      refine (hi.old n hn.2).trans ?_
      simp [Process.account,Process.makeHandler,hn.1]
    · rw [List.length_cons,List.range'_succ,List.mem_cons] at hn
      rcases hn with rfl | hn
      · refine (hi.old w.made (by simp [hmade])).trans ?_
        simp [Process.account,Process.makeHandler,LogManager.prepareHandler,Handler.account]
      · exact hi.new n hn

theorem closeHandlers_eq (l : List ℕ) (w : Process) : l.foldl Process.closeHandler w =
    { w with handler := fun n => (w.handler n).map fun h =>
        { h with closes := h.closes + l.count n } } := by
  induction l generalizing w with
  | nil => simp
  | cons k l ih =>
    rw [List.foldl_cons,ih]
    simp only [Process.closeHandler,Process.updateHandler]
    congr 1
    funext n
    by_cases hn : n = k
    · subst hn
      simp [Function.comp_def,Nat.add_assoc,Nat.add_comm 1]
    · simp [hn,Ne.symm hn]

theorem Created.closed {i k : ℕ} (h : Created i 0 k w w') :
    Created i 1 k w ((List.range' w.made k).foldl Process.closeHandler w') := by
  have hacc : ∀ n, ((List.range' w.made k).foldl Process.closeHandler w').account n =
      (w'.account n).map fun a => (a.1,a.2 + (List.range' w.made k).count n) := by
    intro n
    rw [closeHandlers_eq]
    simp only [Process.account,Option.map_map]
    rfl
  refine ⟨?_,?_,?_,?_,fun n hn => ?_,fun n hn => ?_⟩
  · rw [closeHandlers_eq]
    exact h.runtimeIds
  · rw [closeHandlers_eq]
    exact h.made
  · rw [closeHandlers_eq]
    exact h.manager
  · rw [closeHandlers_eq]
    exact h.loggers
  · rw [hacc,h.old n hn,List.count_eq_zero_of_not_mem hn]
    simp
  · rw [hacc,h.new n hn,List.count_eq_one_of_mem List.nodup_range' hn]
    rfl

/-- `addHandler` of every number, on one logger. -/
def Logger.addAll (l : Logger) (numbers : List ℕ) : Logger :=
  numbers.foldl (fun l n =>
    if .managed n ∈ l.handlers then l else { l with handlers := l.handlers ++ [.managed n] }) l

theorem addHandlers_eq (p : Path) (numbers : List ℕ) (w : Process) :
    numbers.foldl (fun w n => w.addHandler p (.managed n)) w =
      w.updateLogger p fun l => l.addAll numbers := by
  induction numbers generalizing w with
  | nil => simp [Logger.addAll,Process.updateLogger]
  | cons n numbers ih =>
    rw [List.foldl_cons,ih]
    simp [Process.addHandler,Process.updateLogger,Logger.addAll]

theorem Logger.mem_addAll (l : Logger) (numbers : List ℕ) (x : HandlerId) :
    x ∈ (l.addAll numbers).handlers ↔ x ∈ l.handlers ∨ ∃ n ∈ numbers, x = .managed n := by
  induction numbers generalizing l with
  | nil => simp [addAll]
  | cons n numbers ih =>
    rw [addAll,List.foldl_cons]
    refine (ih _).trans ?_
    split
    next hn =>
      constructor
      · rintro (hx | ⟨k,hk,rfl⟩)
        · exact Or.inl hx
        · exact Or.inr ⟨k,List.mem_cons_of_mem _ hk,rfl⟩
      · rintro (hx | ⟨k,hk,rfl⟩)
        · exact Or.inl hx
        · rcases List.mem_cons.mp hk with rfl | hk
          · exact Or.inl hn
          · exact Or.inr ⟨k,hk,rfl⟩
    · simp [or_assoc]

theorem Logger.nodup_addAll {l : Logger} (h : l.handlers.Nodup) (numbers : List ℕ) :
    (l.addAll numbers).handlers.Nodup := by
  induction numbers generalizing l with
  | nil => exact h
  | cons n numbers ih =>
    rw [addAll,List.foldl_cons]
    refine ih ?_
    split
    · exact h
    next hn => exact h.append (List.nodup_singleton _) (by simpa using hn)

theorem Owned.created {i k : ℕ} (h : Owned w) (hc : Created i 1 k w w') : Owned w' where
  ids := by
    rw [hc.manager,hc.runtimeIds]
    exact h.ids
  made n hn := by
    rw [hc.made] at hn
    rw [hc.old n (by simp; omega)]
    exact h.made n (by omega)
  held j m n hm hn := by
    rw [hc.manager] at hm
    have hacc := h.held j m n hm hn
    rw [hc.old n fun hmem => ?_]
    · exact hacc
    · rw [h.made n (List.mem_range'_1.mp hmem).1] at hacc
      cases hacc
  listed := by
    rw [hc.manager]
    exact h.listed
  once n j c ha := by
    rw [hc.manager]
    by_cases hn : n ∈ List.range' w.made k
    · rw [hc.new n hn] at ha
      cases ha
      exact ⟨le_rfl,fun hc => absurd hc Nat.one_ne_zero⟩
    · rw [hc.old n hn] at ha
      exact h.once n j c ha
  attached := by
    rw [hc.manager,hc.loggers]
    exact h.attached
  single := by
    rw [hc.loggers]
    exact h.single
  closed := by
    rw [hc.manager]
    exact h.closed

/-- A new manager that lists exactly the handlers that are new. -/
theorem Owned.adopt {i k : ℕ} {m : LogManager} {f : Logger → Logger} (h : Owned w)
    (hi : w.manager i = none) (hlt : i < w.runtimeIds) (hc : Created i 0 k w w')
    (hname : ∃ appName, m.name = loggerName appName i) (hopen : m.closed = false)
    (hnumbers : m.handlers = List.range' w.made k)
    (hnd : ∀ l : Logger, l.handlers.Nodup → (f l).handlers.Nodup)
    (hsub : ∀ (l : Logger) n, .managed n ∈ (f l).handlers →
      .managed n ∈ l.handlers ∨ n ∈ m.handlers) :
    Owned ((w'.updateLogger (path m.name) f).putManager i m) := by
  have hman : ∀ j x, ((w'.updateLogger (path m.name) f).putManager i m).manager j = some x →
      j = i ∧ x = m ∨ w.manager j = some x := by
    intro j x hx
    by_cases hj : j = i
    · subst hj
      exact Or.inl ⟨rfl,by simpa [Process.putManager,eq_comm] using hx⟩
    · exact Or.inr (by simpa [Process.putManager,hj,hc.manager] using hx)
  have hkeep : ∀ j x, w.manager j = some x →
      ((w'.updateLogger (path m.name) f).putManager i m).manager j = some x := by
    intro j x hx
    have hj : j ≠ i := by
      rintro rfl
      simp [hi] at hx
    simpa [Process.putManager,hj,hc.manager] using hx
  have hself : ((w'.updateLogger (path m.name) f).putManager i m).manager i = some m := by
    simp [Process.putManager]
  have hold : ∀ j x n, w.manager j = some x → n ∈ x.handlers → w'.account n = w.account n := by
    intro j x n hx hn
    refine hc.old n fun hmem => ?_
    have hacc := h.held j x n hx hn
    rw [h.made n (List.mem_range'_1.mp hmem).1] at hacc
    cases hacc
  refine ⟨fun j x hx => ?_,fun n hn => ?_,fun j x n hx hn => ?_,fun j x hx => ?_,
    fun n j c ha => ?_,fun q n hn => ?_,fun q => ?_,fun j x hx => ?_⟩
  · change j < w'.runtimeIds ∧ _
    rw [hc.runtimeIds]
    rcases hman j x hx with ⟨rfl,rfl⟩ | hx
    · exact ⟨hlt,hname⟩
    · exact h.ids j x hx
  · change w'.made ≤ n at hn
    change w'.account n = none
    rw [hc.made] at hn
    rw [hc.old n (by simp; omega)]
    exact h.made n (by omega)
  · change w'.account n = _
    rcases hman j x hx with ⟨rfl,rfl⟩ | hx
    · exact hc.new n (hnumbers ▸ hn)
    · rw [hold j x n hx hn]
      exact h.held j x n hx hn
  · rcases hman j x hx with ⟨-,rfl⟩ | hx
    · rw [hnumbers]
      exact List.nodup_range'
    · exact h.listed j x hx
  · change w'.account n = _ at ha
    by_cases hn : n ∈ List.range' w.made k
    · rw [hc.new n hn] at ha
      cases ha
      exact ⟨Nat.zero_le _,fun _ => ⟨m,hself,hnumbers ▸ hn⟩⟩
    · rw [hc.old n hn] at ha
      obtain ⟨hle,hopen⟩ := h.once n j c ha
      refine ⟨hle,fun hc₀ => ?_⟩
      obtain ⟨x,hx,hmem⟩ := hopen hc₀
      exact ⟨x,hkeep j x hx,hmem⟩
  · have hcases : .managed n ∈ (w.loggers q).handlers ∨ q = path m.name ∧ n ∈ m.handlers := by
      change .managed n ∈ ((w'.updateLogger (path m.name) f).loggers q).handlers at hn
      rw [Process.updateLogger_loggers,hc.loggers] at hn
      by_cases hq : q = path m.name
      · subst hq
        rw [if_pos rfl] at hn
        exact (hsub _ n hn).imp id fun hmem => ⟨rfl,hmem⟩
      · rw [if_neg hq] at hn
        exact Or.inl hn
    rcases hcases with hmem | ⟨rfl,hmem⟩
    · obtain ⟨j,x,hx,hq,hlist⟩ := h.attached q n hmem
      exact ⟨j,x,hkeep j x hx,hq,hlist⟩
    · exact ⟨i,m,hself,rfl,hmem⟩
  · change ((w'.updateLogger (path m.name) f).loggers q).handlers.Nodup
    rw [Process.updateLogger_loggers,hc.loggers]
    split
    · exact hnd _ (h.single _)
    · exact h.single q
  · rcases hman j x hx with ⟨-,rfl⟩ | hx
    · intro hcl
      rw [hopen] at hcl
      cases hcl
    · exact h.closed j x hx

theorem Owned.nextId (h : Owned w) : Owned { w with runtimeIds := w.runtimeIds + 1 } where
  ids i m hm := ⟨(h.ids i m hm).1.trans (Nat.lt_succ_self _),(h.ids i m hm).2⟩
  made := h.made
  held := h.held
  listed := h.listed
  once := h.once
  attached := h.attached
  single := h.single
  closed := h.closed

theorem Owned.unknown (h : Owned w) : w.manager w.runtimeIds = none := by
  by_contra hn
  obtain ⟨m,hm⟩ := Option.ne_none_iff_exists'.mp hn
  exact absurd (h.ids _ m hm).1 (lt_irrefl _)

/-- `_configure` leaves the logger alone, closes what it has made, or hands it to the manager. -/
theorem configure_cases (i : ℕ) (m : LogManager) (streams : Streams) (w : Process) :
    LogManager.configure i m streams w = (none,m,w) ∨
    (∃ message k w', Created i 1 k w w' ∧
      LogManager.configure i m streams w = (some message,m,w')) ∨
    ∃ k w' logFile, Created i 0 k w w' ∧ LogManager.configure i m streams w =
      (none,{ m with handlers := List.range' w.made k, logFile },
        w'.updateLogger (path m.name) fun l => Logger.addAll
          { l with level := levelNumber m.config.logLevel, propagate := m.config.logPropagate }
          (List.range' w.made k)) := by
  unfold LogManager.configure
  split
  · exact Or.inl rfl
  split
  · exact Or.inl rfl
  obtain ⟨raised,created,logFile⟩ := LogManager.createHandlers m.config streams
  have hmade := created_makeHandlers i m.config created w
  cases raised with
  | some errorType => exact Or.inr (Or.inl ⟨_,_,_,hmade.closed,rfl⟩)
  | none =>
    refine Or.inr (Or.inr ⟨_,_,logFile,hmade,?_⟩)
    simp [addHandlers_eq,Process.updateLogger]

theorem Owned.construct (h : Owned w) (appName : String) (config : XXLJobConfig)
    (streams : Streams) : Owned (LogManager.construct appName config streams w).2 := by
  have hnone : ({ w with runtimeIds := w.runtimeIds + 1 } : Process).manager w.runtimeIds = none :=
    h.unknown
  unfold LogManager.construct
  simp only
  generalize hm : LogManager.unconfigured (loggerName appName w.runtimeIds) config
    (w.loggers (path (loggerName appName w.runtimeIds))) = m
  have hname : ∃ a, m.name = loggerName a w.runtimeIds := ⟨appName,by rw [← hm]; rfl⟩
  have hopen : m.closed = false := by rw [← hm]; rfl
  have hempty : m.handlers = [] := by rw [← hm]; rfl
  rcases configure_cases w.runtimeIds m streams { w with runtimeIds := w.runtimeIds + 1 } with
    he | ⟨message,k,w',hc,he⟩ | ⟨k,w',logFile,hc,he⟩ <;> rw [he]
  · have hid : ∀ w : Process, w.updateLogger (path m.name) id = w := fun w => by
      simp [Process.updateLogger]
    have hadopt := h.nextId.adopt (m := m) (f := id) hnone (Nat.lt_succ_self _)
      (created_makeHandlers w.runtimeIds config [] _) hname hopen hempty (fun _ hl => hl)
      fun _ _ hn => Or.inl hn
    rw [hid] at hadopt
    exact hadopt
  · exact h.nextId.created hc
  · refine h.nextId.adopt (m := { m with handlers := List.range' w.made k, logFile }) hnone
      (Nat.lt_succ_self _) hc hname hopen rfl (fun l hl => ?_) fun l n hn => ?_
    · exact Logger.nodup_addAll (l := { l with
        level := levelNumber m.config.logLevel, propagate := m.config.logPropagate }) hl _
    · rcases (Logger.mem_addAll _ _ _).mp hn with hold | ⟨j,hj,he⟩
      · exact Or.inl hold
      · cases he
        exact Or.inr hj

/-! ### Every run -/

theorem Owned.act (h : Owned w) (x : LogAction) : Owned (w.act x) := by
  cases x with
  | construct appName config streams => exact h.construct appName config streams
  | prepareShutdown i => exact h.prepareShutdown i
  | close i => exact h.close i
  | setLevel p level =>
    exact h.updateLogger p (f := fun l => { l with level }) id fun _ hn => hn
  | setPropagate p propagate =>
    exact h.updateLogger p (f := fun l => { l with propagate }) id fun _ hn => hn
  | addHostHandler p n => exact h.addHostHandler p n
  | removeHandler p x => exact h.removeHandler p x
  | setStream n b => exact h.setStream n b

theorem owned_blank : Owned {} where
  ids _ _ hm := by cases hm
  made _ _ := rfl
  held _ _ _ hm := by cases hm
  listed _ _ hm := by cases hm
  once _ _ _ ha := by cases ha
  attached p n hn := by
    by_cases hp : p = [] <;> simp [hp] at hn
  single p := by
    by_cases hp : p = [] <;> simp [hp]
  closed _ _ hm := by cases hm

theorem Owned.run (h : Owned w) (actions : List LogAction) : Owned (w.run actions) := by
  induction actions generalizing w with
  | nil => exact h
  | cons x actions ih => exact ih (h.act x)

end FlaskXxlJob.Logging
