import FlaskXxlJob.Logging.Closing

/-!
Where a record goes. It is emitted by the handlers of its own runtime, and by those of another one
only if it propagates and the other logger's name is above its own.
-/
namespace FlaskXxlJob.Logging
open Python Config

variable {w : Process}

/-! ### Walking up the loggers -/

theorem mem_callHandlers {p : Path} {x : HandlerId} (h : x ∈ w.callHandlers p) :
    ∃ q, q <:+ p ∧ x ∈ (w.loggers q).handlers ∧
      ∀ r, r <:+ p → q <:+ r → q ≠ r → (w.loggers r).propagate = true := by
  induction p with
  | nil => exact ⟨[],List.suffix_rfl,h,fun r hr _ hne => absurd (List.suffix_nil.mp hr).symm hne⟩
  | cons part parent ih =>
    rw [Process.callHandlers,List.mem_append] at h
    rcases h with h | h
    · exact ⟨part :: parent,List.suffix_rfl,h,fun r hr hq hne =>
        absurd (hq.eq_of_length_le hr.length_le) hne⟩
    · split at h
      next hp =>
        obtain ⟨q,hq,hx,hall⟩ := ih h
        refine ⟨q,hq.trans (List.suffix_cons ..),hx,fun r hr hqr hne => ?_⟩
        rcases List.suffix_cons_iff.mp hr with rfl | hr
        · exact hp
        · exact hall r hr hqr hne
      · cases h

theorem callHandlers_self {p : Path} {x : HandlerId} (h : x ∈ (w.loggers p).handlers) :
    x ∈ w.callHandlers p := by
  cases p with
  | nil => exact h
  | cons part parent => exact List.mem_append_left _ h

theorem effectiveLevel_self {p : Path} (h : (w.loggers p).level ≠ 0) :
    w.effectiveLevel p = (w.loggers p).level := by
  cases p with
  | nil => rfl
  | cons part parent => exact if_pos h

theorem mem_passes {l : List HandlerId} {levelno n : ℕ} (h : n ∈ l.filterMap (w.passes levelno)) :
    .managed n ∈ l ∧ ∃ x, w.handler n = some x ∧ x.level ≤ levelno := by
  obtain ⟨x,hx,hpass⟩ := List.mem_filterMap.mp h
  cases x with
  | host k => cases hpass
  | managed k =>
    simp only [Process.passes,Option.ite_none_right_eq_some,Option.some.injEq] at hpass
    obtain ⟨hlevel,rfl⟩ := hpass
    obtain ⟨x,hx',hle⟩ := (Option.any_eq_true _ _).mp hlevel
    exact ⟨hx,x,hx',of_decide_eq_true hle⟩

/-- A managed handler is on one logger only. -/
theorem Owned.attached_once (h : Owned w) {p q : Path} {n : ℕ}
    (hp : .managed n ∈ (w.loggers p).handlers) (hq : .managed n ∈ (w.loggers q).handlers) :
    p = q := by
  obtain ⟨i,m,hm,rfl,hn⟩ := h.attached p n hp
  obtain ⟨j,x,hx,rfl,hn'⟩ := h.attached q n hq
  have hacc := (h.held i m n hm hn).symm.trans (h.held j x n hx hn')
  obtain rfl := (Prod.mk.inj (Option.some.inj hacc)).1
  rw [Option.some.inj (hm.symm.trans hx)]

theorem Owned.emitters_nodup (h : Owned w) (p : Path) (levelno : ℕ) :
    (w.emitters p levelno).Nodup := by
  have hone : ∀ (l : List HandlerId), l.Nodup → (l.filterMap (w.passes levelno)).Nodup := by
    intro l hl
    refine hl.filterMap fun x y k hx hy => ?_
    cases x <;> cases y <;> simp_all [Process.passes]
  have hall : ((w.callHandlers p).filterMap (w.passes levelno)).Nodup := by
    induction p with
    | nil => exact hone _ (h.single [])
    | cons part parent ih =>
      rw [Process.callHandlers,List.filterMap_append]
      refine List.Nodup.append (hone _ (h.single _)) ?_ fun k hk hk' => ?_
      · split
        · exact ih
        · exact List.nodup_nil
      · split at hk'
        · obtain ⟨q,hq,hmem,-⟩ := mem_callHandlers (mem_passes hk').1
          have hlen := hq.length_le
          rw [← h.attached_once (mem_passes hk).1 hmem,List.length_cons] at hlen
          omega
        · cases hk'
  unfold Process.emitters
  split
  · exact hall
  · exact List.nodup_nil

/-! ### Records of a runtime -/

theorem path_componentName (m : LogManager) (component : Component) :
    path (m.componentName component) = component.text :: path m.name := by
  have hsplit : split '.' component.text = [component.text] := by
    cases component <;> decide +kernel
  unfold path LogManager.componentName
  rw [split_append_dot,hsplit]
  simp

/-- No runtime id reads as the name of a component. -/
theorem componentText_ne (component : Component) (i : ℕ) : component.text ≠ toString i := by
  intro he
  have hdigit : ∀ c ∈ component.text.toList, c.isDigit = true := by
    rw [he]
    intro c hc
    have hd : c ∈ Nat.toDigits 10 i := by simpa [toString,Nat.repr] using hc
    exact Nat.isDigit_of_mem_toDigits (by decide) (by decide) hd
  have hall : component.text.toList.all Char.isDigit = true := List.all_eq_true.mpr hdigit
  cases component <;> revert hall <;> decide +kernel

theorem mem_substitute {c : Char} {b : Bool} {l : List Char} (h : c ∈ substitute b l) :
    c ∈ l ∨ c = '_' := by
  induction l generalizing b with
  | nil => cases h
  | cons d l ih =>
    have hrest : ∀ b, c ∈ substitute b l → c ∈ d :: l ∨ c = '_' := fun b hb =>
      (ih hb).imp (List.mem_cons_of_mem d) id
    rw [substitute] at h
    split at h
    · rcases List.mem_cons.mp h with rfl | h
      · exact Or.inl List.mem_cons_self
      · exact hrest _ h
    split at h
    · exact hrest _ h
    · rcases List.mem_cons.mp h with rfl | h
      · exact Or.inr rfl
      · exact hrest _ h

/-- A name without dots stays without dots. -/
theorem dot_safeAppName {appName : String} (h : '.' ∉ appName.toList) :
    '.' ∉ (safeAppName appName).toList := by
  intro hdot
  unfold safeAppName at hdot
  simp only at hdot
  split at hdot
  · revert hdot
    decide +kernel
  · rw [rstripBy,String.toList_ofList] at hdot
    have hl := (List.rdropWhile_prefix _ _).subset hdot
    rw [lstripBy,String.toList_ofList] at hl
    have hs := (List.dropWhile_suffix _).subset hl
    rw [String.toList_ofList] at hs
    rcases mem_substitute hs with hmem | he
    · exact h hmem
    · cases he

/-- Which managed handlers emit the records that a component of runtime `i` logs. -/
structure Isolated (w : Process) (i : ℕ) (m : LogManager) (component : Component)
    (levelno : ℕ) : Prop where
  once : (w.emitters (path (m.componentName component)) levelno).Nodup
  owner : ∀ n ∈ w.emitters (path (m.componentName component)) levelno,
    ∃ j x, w.manager j = some x ∧ n ∈ x.handlers ∧
      (j = i ∨ (w.loggers (path m.name)).propagate = true ∧ path x.name <:+ path m.name ∧
        path x.name ≠ path m.name)
  own : ∀ appName, m.name = loggerName appName i → '.' ∉ appName.toList →
    ∀ n ∈ w.emitters (path (m.componentName component)) levelno, n ∈ m.handlers
  reached : w.loggers (path (m.componentName component)) = {} →
    (w.loggers (path m.name)).level ≠ 0 → (w.loggers (path m.name)).level ≤ levelno →
    ∀ n x, .managed n ∈ (w.loggers (path m.name)).handlers → w.handler n = some x →
      x.level ≤ levelno → n ∈ w.emitters (path (m.componentName component)) levelno

theorem Owned.emitter_owner (h : Owned w) {i : ℕ} {m : LogManager} (hm : w.manager i = some m)
    (component : Component) (levelno : ℕ) {n : ℕ}
    (hn : n ∈ w.emitters (path (m.componentName component)) levelno) :
    ∃ j x, w.manager j = some x ∧ n ∈ x.handlers ∧
      (j = i ∨ (w.loggers (path m.name)).propagate = true ∧ path x.name <:+ path m.name ∧
        path x.name ≠ path m.name) := by
  have hcall : .managed n ∈ w.callHandlers (path (m.componentName component)) := by
    unfold Process.emitters at hn
    split at hn
    · exact (mem_passes hn).1
    · cases hn
  obtain ⟨q,hq,hmem,hall⟩ := mem_callHandlers hcall
  obtain ⟨j,x,hx,rfl,hlist⟩ := h.attached q n hmem
  refine ⟨j,x,hx,hlist,?_⟩
  rw [path_componentName,List.suffix_cons_iff] at hq
  rcases hq with he | hsuffix
  · obtain ⟨a,ha⟩ := (h.ids j x hx).2
    rw [ha,path_loggerName] at he
    exact absurd (List.cons.inj he).1.symm (componentText_ne component j)
  · by_cases hp : path x.name = path m.name
    · exact Or.inl (h.path_inj hx hm hp)
    · refine Or.inr ⟨hall (path m.name) ?_ hsuffix hp,hsuffix,hp⟩
      rw [path_componentName]
      exact List.suffix_cons ..

/-- A record is emitted by each handler at most once, by every handler of its own runtime that it
passes, and by no other one unless it propagates to a logger above; without a dot in the name of
the application there is none. -/
theorem records_isolated (actions : List LogAction) {i : ℕ} {m : LogManager}
    (hm : (Process.run {} actions).manager i = some m) (component : Component) (levelno : ℕ) :
    Isolated (Process.run {} actions) i m component levelno := by
  have h := owned_blank.run actions
  refine ⟨h.emitters_nodup _ _,fun n hn => h.emitter_owner hm component levelno hn,
    fun appName hname hdot n hn => ?_,fun hblank hlevel hle n x hn hx hxl => ?_⟩
  · obtain ⟨j,x,hx,hlist,hj | ⟨-,hsuffix,hne⟩⟩ := h.emitter_owner hm component levelno hn
    · subst hj
      rw [Option.some.inj (hm.symm.trans hx)]
      exact hlist
    · obtain ⟨a,ha⟩ := (h.ids j x hx).2
      have hsplit : split '.' (safeAppName appName) = [safeAppName appName] := by
        unfold split
        rw [List.splitOn_eq_singleton (dot_safeAppName hdot)]
        exact congrArg (fun s => [s]) String.ofList_toList
      have hpos : 0 < (split '.' (safeAppName a)).length :=
        List.length_pos_iff.mpr (by simp [split])
      refine absurd (hsuffix.eq_of_length_le ?_) hne
      rw [ha,hname,path_loggerName,path_loggerName,hsplit]
      simp
      omega
  · rw [path_componentName] at hblank ⊢
    have heff : (Process.run {} actions).effectiveLevel (component.text :: path m.name) =
        ((Process.run {} actions).loggers (path m.name)).level := by
      rw [Process.effectiveLevel,hblank]
      exact effectiveLevel_self hlevel
    have hcall : .managed n ∈
        (Process.run {} actions).callHandlers (component.text :: path m.name) := by
      rw [Process.callHandlers,hblank]
      exact callHandlers_self hn
    rw [Process.emitters,heff,if_pos hle]
    exact List.mem_filterMap.mpr ⟨_,hcall,by simp [Process.passes,hx,hxl]⟩

/-- Two runtimes with a console, the second one named below the first. -/
def nestedRuntimes : List LogAction :=
  [.construct "demo" { logEnabled := true, logFileEnabled := false } ⟨.ok "",none⟩,
    .construct "demo.1"
      { logEnabled := true, logFileEnabled := false, logPropagate := true } ⟨.ok "",none⟩]

theorem records_isolated_nested : ∃ m, (Process.run {} nestedRuntimes).manager 2 = some m ∧
    (Process.run {} nestedRuntimes).emitters (path (m.componentName .registry)) 20 = [1,0] ∧
    Isolated (Process.run {} nestedRuntimes) 2 m .registry 20 := by
  have hw : ((Process.run {} nestedRuntimes).manager 2).any fun m =>
      (Process.run {} nestedRuntimes).emitters (path (m.componentName .registry)) 20 = [1,0] := by
    decide +kernel
  obtain ⟨m,hm,hem⟩ := (Option.any_eq_true _ _).mp hw
  exact ⟨m,hm,of_decide_eq_true hem,records_isolated _ hm .registry 20⟩

end FlaskXxlJob.Logging
