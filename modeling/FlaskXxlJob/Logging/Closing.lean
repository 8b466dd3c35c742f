import FlaskXxlJob.Logging.Ownership

/-!
Closing a log manager. Every runtime has a logger of its own, which gets back the settings it had
before; the handlers of the host and of other runtimes stay as they are.
-/
namespace FlaskXxlJob.Logging
open Python Config

variable {w w' : Process}

/-! ### Names of loggers -/

theorem split_append_dot (a b : String) :
    split '.' (a ++ "." ++ b) = split '.' a ++ split '.' b := by
  unfold split
  rw [← List.map_append,← List.splitOn_append_cons_self]
  simp

theorem split_toString (i : ℕ) : split '.' (toString i) = [toString i] := by
  unfold split
  rw [List.splitOn_eq_singleton]
  · exact congrArg (fun s => [s]) String.ofList_toList
  · intro h
    have hd : '.' ∈ Nat.toDigits 10 i := by simpa [toString,Nat.repr] using h
    have hdigit := Nat.isDigit_of_mem_toDigits (by decide) (by decide) hd
    simp at hdigit

theorem toString_inj {i j : ℕ} (h : toString i = toString j) : i = j := by
  have hread := congrArg (fun s : String => Nat.ofDigitChars 10 s.toList 0) h
  simpa [toString,Nat.repr] using hread

theorem split_root : split '.' "flask_xxljob.app" = ["flask_xxljob","app"] := by decide +kernel

theorem path_loggerName (appName : String) (i : ℕ) : path (loggerName appName i) =
    toString i :: ((split '.' (safeAppName appName)).reverse ++ ["app","flask_xxljob"]) := by
  have hid := split_toString i
  unfold path loggerName
  generalize toString i = n at hid ⊢
  generalize safeAppName appName = s
  have hroot : "flask_xxljob.app." ++ s = "flask_xxljob.app" ++ "." ++ s :=
    congrArg (· ++ s) (show "flask_xxljob.app." = "flask_xxljob.app" ++ "." by decide +kernel)
  rw [split_append_dot,hid,hroot,split_append_dot,split_root]
  simp

/-- Managers have different loggers. -/
theorem Owned.path_inj (h : Owned w) {i j : ℕ} {m x : LogManager} (hm : w.manager i = some m)
    (hx : w.manager j = some x) (hp : path m.name = path x.name) : i = j := by
  obtain ⟨a,ha⟩ := (h.ids i m hm).2
  obtain ⟨b,hb⟩ := (h.ids j x hx).2
  rw [ha,hb,path_loggerName,path_loggerName] at hp
  exact toString_inj (List.cons.inj hp).1

/-! ### What later steps keep -/

/-- The parts of a manager that no method changes. -/
def LogManager.identity (m : LogManager) : String × ℕ × Bool :=
  (m.name,m.originalLevel,m.originalPropagate)

theorem act_identity (h : Owned w) (x : LogAction) {i : ℕ} {m : LogManager}
    (hm : w.manager i = some m) : ∃ m', (w.act x).manager i = some m' ∧
      m'.identity = m.identity := by
  cases x with
  | construct appName config streams =>
    have hne : i ≠ w.runtimeIds := (h.ids i m hm).1.ne
    refine ⟨m,?_,rfl⟩
    simp only [Process.act,LogManager.construct]
    rcases configure_cases w.runtimeIds (LogManager.unconfigured (loggerName appName w.runtimeIds)
        config (w.loggers (path (loggerName appName w.runtimeIds)))) streams
        { w with runtimeIds := w.runtimeIds + 1 } with
      he | ⟨message,k,w',hc,he⟩ | ⟨k,w',logFile,hc,he⟩ <;> rw [he]
    · simpa [Process.putManager,hne] using hm
    · rw [hc.manager]
      exact hm
    · simpa [Process.putManager,hne,hc.manager] using hm
  | prepareShutdown j =>
    simp only [Process.act,LogManager.prepareShutdown]
    split
    · exact ⟨m,hm,rfl⟩
    next x hx =>
      rw [detachUnavailable_eq]
      by_cases hj : i = j
      · subst hj
        obtain rfl := Option.some.inj (hm.symm.trans hx)
        exact ⟨_,Function.update_self ..,rfl⟩
      · exact ⟨m,by simpa [Process.putManager,hj,(detached_foldl _ _ _).manager] using hm,rfl⟩
  | close j =>
    simp only [Process.act,LogManager.close]
    split
    · exact ⟨m,hm,rfl⟩
    next x hx =>
      split
      · exact ⟨m,hm,rfl⟩
      · by_cases hj : i = j
        · subst hj
          obtain rfl := Option.some.inj (hm.symm.trans hx)
          exact ⟨_,Function.update_self ..,rfl⟩
        · exact ⟨m,by simpa [Process.putManager,hj,(detached_foldl _ _ _).manager] using hm,rfl⟩
  | _ => exact ⟨m,hm,rfl⟩

theorem account_detached {p : Path} {gone : List ℕ} (h : Detached p gone w w') {n i c : ℕ}
    (ha : w.account n = some (i,c)) : w'.account n = some (i,c + gone.count n) := by
  obtain ⟨x,hx,he⟩ := Option.map_eq_some_iff.mp ha
  rw [Process.account,h.handler n,hx]
  cases he
  rfl

theorem act_account (h : Owned w) (x : LogAction) {n i c : ℕ} (ha : w.account n = some (i,c)) :
    ∃ c', (w.act x).account n = some (i,c') := by
  have hlt : n < w.made := by
    by_contra hn
    rw [h.made n (not_lt.mp hn)] at ha
    cases ha
  cases x with
  | construct appName config streams =>
    refine ⟨c,?_⟩
    simp only [Process.act,LogManager.construct]
    have hnew : ∀ k, n ∉ List.range' w.made k := fun k hn => by
      have := (List.mem_range'_1.mp hn).1
      omega
    rcases configure_cases w.runtimeIds (LogManager.unconfigured (loggerName appName w.runtimeIds)
        config (w.loggers (path (loggerName appName w.runtimeIds)))) streams
        { w with runtimeIds := w.runtimeIds + 1 } with
      he | ⟨message,k,w',hc,he⟩ | ⟨k,w',logFile,hc,he⟩ <;> rw [he]
    · exact ha
    · exact (hc.old n (hnew k)).trans ha
    · exact (hc.old n (hnew k)).trans ha
  | prepareShutdown j =>
    simp only [Process.act,LogManager.prepareShutdown]
    split
    · exact ⟨c,ha⟩
    · rw [detachUnavailable_eq]
      exact ⟨_,account_detached (detached_foldl ..) ha⟩
  | close j =>
    simp only [Process.act,LogManager.close]
    split
    · exact ⟨c,ha⟩
    · split
      · exact ⟨c,ha⟩
      · exact ⟨_,account_detached (detached_foldl ..) ha⟩
  | setStream k b =>
    refine ⟨c,?_⟩
    obtain ⟨x,hx,he⟩ := Option.map_eq_some_iff.mp ha
    cases he
    by_cases hk : n = k
    · subst hk
      simp [Process.act,Process.account,Process.updateHandler,hx,Handler.account]
    · simp [Process.act,Process.account,Process.updateHandler,hk,hx,Handler.account]
  | _ => exact ⟨c,ha⟩

/-! ### The handlers of the host -/

def LogAction.byManager : LogAction → Bool
  | .construct .. | .prepareShutdown _ | .close _ => true
  | _ => false

/-- The host's handlers on a logger, in their order. -/
def Process.hosts (w : Process) (p : Path) : List HandlerId :=
  (w.loggers p).handlers.filter HandlerId.isHost

theorem Process.putManager_hosts (i : ℕ) (m : LogManager) :
    (w.putManager i m).hosts = w.hosts := rfl

theorem Logger.addAll_hosts (l : Logger) (numbers : List ℕ) :
    (l.addAll numbers).handlers.filter HandlerId.isHost =
      l.handlers.filter HandlerId.isHost := by
  induction numbers generalizing l with
  | nil => rfl
  | cons n numbers ih =>
    rw [addAll,List.foldl_cons]
    refine (ih _).trans ?_
    split
    · rfl
    · simp [HandlerId.isHost]

theorem Detached.hosts (h : Owned w) {p : Path} {gone : List ℕ} (hd : Detached p gone w w')
    (q : Path) : w'.hosts q = w.hosts q := by
  by_cases hq : q = p
  · subst hq
    rw [Process.hosts,hd.handlers (h.single q),List.filter_filter]
    refine List.filter_congr fun x _ => ?_
    cases x <;> simp [HandlerId.isHost]
  · rw [Process.hosts,hd.others q hq]
    rfl

/-- No method of a manager touches a handler of the host. -/
theorem act_hosts (h : Owned w) {x : LogAction} (hx : x.byManager = true) (p : Path) :
    (w.act x).hosts p = w.hosts p := by
  cases x with
  | construct appName config streams =>
    simp only [Process.act,LogManager.construct]
    generalize LogManager.unconfigured _ _ _ = m
    rcases configure_cases w.runtimeIds m streams { w with runtimeIds := w.runtimeIds + 1 } with
      he | ⟨message,k,w',hc,he⟩ | ⟨k,w',logFile,hc,he⟩ <;> rw [he]
    · rfl
    · rw [Process.hosts,hc.loggers]
      rfl
    · generalize path m.name = q
      change ((Process.updateLogger w' q _).putManager w.runtimeIds _).hosts p = _
      rw [Process.putManager_hosts,Process.hosts,Process.updateLogger_loggers,hc.loggers]
      split
      next hp =>
        subst hp
        exact Logger.addAll_hosts _ _
      · rfl
  | prepareShutdown i =>
    simp only [Process.act,LogManager.prepareShutdown]
    split
    · rfl
    next m hm =>
      generalize path m.name = q
      rw [detachUnavailable_eq]
      exact (detached_foldl q _ w).hosts h p
  | close i =>
    simp only [Process.act,LogManager.close]
    split
    · rfl
    next m hm =>
      split
      · rfl
      · generalize path m.name = q
        rw [Process.hosts,Process.updateLogger_loggers]
        split
        next hp =>
          subst hp
          exact (detached_foldl p m.handlers w).hosts h p
        · exact (detached_foldl q m.handlers w).hosts h p
  | _ => cases hx

/-- In every run the managers keep to their own handlers and their own loggers: a handler is open
just as long as its manager lists it, and closed once. -/
theorem managed_handlers_owned (actions : List LogAction) :
    Owned (Process.run {} actions) ∧
    (∀ i j m x, (Process.run {} actions).manager i = some m →
      (Process.run {} actions).manager j = some x → i ≠ j → path m.name ≠ path x.name) ∧
    ∀ x : LogAction, x.byManager = true →
      ((Process.run {} actions).act x).hosts = (Process.run {} actions).hosts := by
  have howned := owned_blank.run actions
  exact ⟨howned,fun i j m x hm hx hne hp => hne (howned.path_inj hm hx hp),fun x hx =>
    funext fun p => act_hosts howned hx p⟩

/-! ### Closing a manager -/

/-- What `close` leaves of runtime `i`, whose logger was `before` when it was constructed; it has
made the handlers from `first` to `next`. -/
structure Restored (i : ℕ) (p : Path) (before : Logger) (first next : ℕ) (w w' : Process) :
    Prop where
  level : (w'.loggers p).level = before.level
  propagate : (w'.loggers p).propagate = before.propagate
  handlers : (w'.loggers p).handlers = (w.loggers p).handlers.filter HandlerId.isHost
  loggers : ∀ q, q ≠ p → w'.loggers q = w.loggers q
  closed : ∀ n, first ≤ n → n < next → w'.account n = some (i,1)
  others : ∀ n, (∀ c, w.account n ≠ some (i,c)) → w'.account n = w.account n
  managers : ∀ j, j ≠ i → w'.manager j = w.manager j
  again : LogManager.close i w' = w' ∧ LogManager.prepareShutdown i w' = w'

theorem close_closed {i : ℕ} {m : LogManager} (hm : w.manager i = some m)
    (hc : m.closed = true) : LogManager.close i w = w := by
  simp [LogManager.close,hm,hc]

theorem prepareShutdown_empty {i : ℕ} {m : LogManager} (hm : w.manager i = some m)
    (hempty : m.handlers = []) : LogManager.prepareShutdown i w = w := by
  have hsame : ({ m with handlers := [] } : LogManager) = m := by
    rw [← hempty]
  simp only [LogManager.prepareShutdown,hm,hempty,LogManager.detachUnavailable,hsame,
    Process.putManager]
  rw [Function.update_eq_self_iff.mpr hm.symm]

theorem close_restored (h : Owned w) {i first next : ℕ} {m : LogManager} {before : Logger}
    (hm : w.manager i = some m) (hopen : m.closed = false)
    (hid : m.originalLevel = before.level ∧ m.originalPropagate = before.propagate)
    (hmade : ∀ n, first ≤ n → n < next → ∃ c, w.account n = some (i,c)) :
    Restored i (path m.name) before first next w (LogManager.close i w) := by
  have hd := detached_foldl (path m.name) m.handlers w
  have hclose : LogManager.close i w =
      ((m.handlers.foldl (LogManager.detach (path m.name)) w).putManager i
        { m with closed := true, handlers := [] }).updateLogger (path m.name) fun l =>
          { l with level := m.originalLevel, propagate := m.originalPropagate } := by
    simp [LogManager.close,hm,hopen]
  have hmanager : (LogManager.close i w).manager i =
      some { m with closed := true, handlers := [] } := by
    rw [hclose]
    exact Function.update_self ..
  have hacc : (LogManager.close i w).account =
      (m.handlers.foldl (LogManager.detach (path m.name)) w).account := by
    rw [hclose]
    rfl
  have hlogger : (LogManager.close i w).loggers (path m.name) =
      { (m.handlers.foldl (LogManager.detach (path m.name)) w).loggers (path m.name) with
        level := m.originalLevel, propagate := m.originalPropagate } := by
    rw [hclose,Process.updateLogger_loggers,if_pos rfl]
    rfl
  refine ⟨?_,?_,?_,fun q hq => ?_,fun n hle hlt => ?_,fun n hn => ?_,fun j hj => ?_,?_,?_⟩
  · rw [hlogger]
    exact hid.1
  · rw [hlogger]
    exact hid.2
  · rw [hlogger]
    refine (hd.handlers (h.single _)).trans (List.filter_congr fun x hx => ?_)
    cases x with
    | host n => simp [HandlerId.isHost]
    | managed n =>
      obtain ⟨j,x,hj,hp,hmem⟩ := h.attached _ n hx
      obtain rfl := h.path_inj hm hj hp
      obtain rfl := Option.some.inj (hm.symm.trans hj)
      simpa [HandlerId.isHost] using hmem
  · rw [hclose,Process.updateLogger_loggers,if_neg hq]
    exact hd.others q hq
  · obtain ⟨c,hc⟩ := hmade n hle hlt
    have hnew : (LogManager.close i w).account n = some (i,c + m.handlers.count n) := by
      rw [hacc]
      exact account_detached hd hc
    obtain ⟨hle,hopen⟩ := (h.close i).once n i _ hnew
    have hpos : c + m.handlers.count n ≠ 0 := fun hzero => by
      obtain ⟨x,hx,hmem⟩ := hopen hzero
      obtain rfl := Option.some.inj (hmanager.symm.trans hx)
      cases hmem
    rw [hnew,show c + m.handlers.count n = 1 by omega]
  · have hfree : n ∉ m.handlers := fun hmem => hn 0 (h.held i m n hm hmem)
    rw [hacc,Process.account,hd.handler n,List.count_eq_zero_of_not_mem hfree]
    simp [Process.account]
  · rw [hclose]
    exact (Function.update_of_ne hj ..).trans (congrFun hd.manager j)
  · exact close_closed hmanager rfl
  · exact prepareShutdown_empty hmanager rfl

theorem run_identity (h : Owned w) (actions : List LogAction) {i : ℕ} {m : LogManager}
    (hm : w.manager i = some m) : ∃ m', (w.run actions).manager i = some m' ∧
      m'.identity = m.identity := by
  induction actions generalizing w m with
  | nil => exact ⟨m,hm,rfl⟩
  | cons x actions ih =>
    obtain ⟨m₁,hm₁,hid₁⟩ := act_identity h x hm
    obtain ⟨m₂,hm₂,hid₂⟩ := ih (h.act x) hm₁
    exact ⟨m₂,hm₂,hid₂.trans hid₁⟩

theorem run_account (h : Owned w) (actions : List LogAction) {n i c : ℕ}
    (ha : w.account n = some (i,c)) : ∃ c', (w.run actions).account n = some (i,c') := by
  induction actions generalizing w c with
  | nil => exact ⟨c,ha⟩
  | cons x actions ih =>
    obtain ⟨c₁,h₁⟩ := act_account h x ha
    exact ih (h.act x) h₁

/-- What a construction that returns leaves: the manager, and the handlers it has made. -/
theorem construct_returned {appName : String} {config : XXLJobConfig} {streams : Streams}
    (hc : LogManager.construct appName config streams w = (none,w')) :
    (∃ m, w'.manager w.runtimeIds = some m ∧ m.identity =
      (loggerName appName w.runtimeIds,(w.loggers (path (loggerName appName w.runtimeIds))).level,
        (w.loggers (path (loggerName appName w.runtimeIds))).propagate)) ∧
    ∀ n, w.made ≤ n → n < w'.made → w'.account n = some (w.runtimeIds,0) := by
  unfold LogManager.construct at hc
  simp only at hc
  rcases configure_cases w.runtimeIds (LogManager.unconfigured (loggerName appName w.runtimeIds)
      config (w.loggers (path (loggerName appName w.runtimeIds)))) streams
      { w with runtimeIds := w.runtimeIds + 1 } with
    he | ⟨message,k,w₁,hcr,he⟩ | ⟨k,w₁,logFile,hcr,he⟩ <;> rw [he] at hc
  · obtain rfl := (Prod.mk.inj hc).2
    refine ⟨⟨_,Function.update_self ..,rfl⟩,fun n hle hlt => ?_⟩
    exact absurd hle (not_le.mpr hlt)
  · cases hc
  · obtain rfl := (Prod.mk.inj hc).2
    refine ⟨⟨_,Function.update_self ..,rfl⟩,fun n hle hlt => ?_⟩
    exact hcr.new n (List.mem_range'_1.mpr ⟨hle,hcr.made ▸ hlt⟩)

/-- Whatever has happened since its construction, closing a manager takes its handlers off its
logger, closes each of them that is open, and gives the logger its settings back. -/
theorem closed_manager_restores {before after : List LogAction} {appName : String}
    {config : XXLJobConfig} {streams : Streams} {w₁ : Process}
    (hc : LogManager.construct appName config streams (Process.run {} before) = (none,w₁))
    (hopen : ∀ m, (w₁.run after).manager (Process.run {} before).runtimeIds = some m →
      m.closed = false) :
    Restored (Process.run {} before).runtimeIds
      (path (loggerName appName (Process.run {} before).runtimeIds))
      ((Process.run {} before).loggers
        (path (loggerName appName (Process.run {} before).runtimeIds)))
      (Process.run {} before).made w₁.made (w₁.run after)
      (LogManager.close (Process.run {} before).runtimeIds (w₁.run after)) := by
  have hstart := owned_blank.run before
  have hnew : Owned w₁ := by
    have := hstart.construct appName config streams
    rwa [hc] at this
  obtain ⟨⟨m,hm,hid⟩,hmade⟩ := construct_returned hc
  obtain ⟨m',hm',hid'⟩ := run_identity hnew after hm
  obtain ⟨hname,horiginal⟩ := Prod.mk.inj (hid'.trans hid)
  obtain ⟨hlevel,hpropagate⟩ := Prod.mk.inj horiginal
  have hname : m'.name = loggerName appName (Process.run {} before).runtimeIds := hname
  rw [← hname]
  refine close_restored (hnew.run after) hm' (hopen m' hm') ?_ fun n hle hlt =>
    run_account hnew after (hmade n hle hlt)
  rw [hname]
  exact ⟨hlevel,hpropagate⟩

theorem open_of_any {x : Option LogManager} (h : x.any LogManager.closed = false) :
    ∀ m, x = some m → m.closed = false := by
  rintro m rfl
  exact h

/-- A file and a console handler, one of which loses its stream, next to a handler of the host. -/
theorem closed_manager_restores_targets : ∃ w₁ : Process, LogManager.construct "demo"
      { logEnabled := true } ⟨.ok "/logs/flask-xxljob.log",none⟩ {} = (none,w₁) ∧ w₁.made = 2 ∧
    ∃ w₂ : Process, (w₂.loggers (path (loggerName "demo" 1))).handlers = [.managed 0,.host 5] ∧
      Restored 1 (path (loggerName "demo" 1)) ((Process.run {} []).loggers
        (path (loggerName "demo" 1))) 0 2 w₂ (LogManager.close 1 w₂) := by
  have hc : (LogManager.construct "demo" { logEnabled := true }
      ⟨.ok "/logs/flask-xxljob.log",none⟩ (Process.run {} [])).1 = none := by decide +kernel
  have hopen : (((LogManager.construct "demo" { logEnabled := true }
      ⟨.ok "/logs/flask-xxljob.log",none⟩ (Process.run {} [])).2.run
        [.addHostHandler (path (loggerName "demo" 1)) 5,.setStream 1 true,.prepareShutdown 1,
          .setLevel (path (loggerName "demo" 1)) 40]).manager 1).any LogManager.closed = false := by
    decide +kernel
  have hconstruct : LogManager.construct "demo" { logEnabled := true }
      ⟨.ok "/logs/flask-xxljob.log",none⟩ (Process.run {} []) = (none,_) := Prod.ext hc rfl
  have hs := closed_manager_restores hconstruct (open_of_any hopen)
  exact ⟨_,hconstruct,by decide +kernel,_,by decide +kernel,hs⟩

end FlaskXxlJob.Logging
