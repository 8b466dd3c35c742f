import FlaskXxlJob.Registry.Status

/-!
A thread runs one call. An explicit register issues one RPC on its thread and commits that
RPC's result; a call that has not begun is alone on its thread.
-/
namespace FlaskXxlJob.Registry
open FlaskXxlJob.Client Interleaving

variable {cfg : Config}

/-- The first instruction of a synchronous call. -/
def Instr.opens : Instr → Bool
  | .joinRegister | .removeOnce => true
  | _ => false

/-- An explicit register that has not issued its RPC. -/
def Instr.registering : Instr → Bool
  | .joinRegister | .network (.register ..) | .rpc (.register ..) => true
  | _ => false

/-- An explicit register that has not committed. -/
def Instr.registers : Instr → Bool
  | .commit (.register ..) _ _ => true
  | i => i.registering

theorem Instr.registers_of_registering {i : Instr} (h : i.registering = true) :
    i.registers = true := by
  cases i with
  | commit call => cases call <;> simp [Instr.registering] at h
  | _ => exact h

theorem Instr.registers_of_role {i : Instr} {k : Option ℕ} {g : ℕ}
    (h : i.role = .call (.register k g)) : i.registers = true := by
  cases i with
  | network | rpc | commit =>
    obtain rfl := Role.call.inj h
    rfl
  | _ => cases h

theorem Instr.role_of_holdsToken {i : Instr} {k : ℕ} (h : i.plays (Role.holdsToken k) = true) :
    ∃ g, i.role = .call (.register (some k) g) := by
  unfold Instr.plays at h
  cases hi : i.role with
  | call call =>
    cases call with
    | register k' g => exact ⟨g,by simpa [hi,Role.holdsToken] using h⟩
    | _ => simp [hi,Role.holdsToken] at h
  | _ => simp [hi,Role.holdsToken] at h

section
variable (cfg) (s : State) (alive : ℕ → Bool) (t fresh : ℕ) (ch : Choice) {i j : Instr}

theorem effect_push_opens (hj : j ∈ (effect cfg alive t fresh ch s i).push) :
    j.opens = false := by
  have hnext := effect_push_next cfg s alive t fresh ch hj
  by_contra hn
  have hn : j.opens = true := by simpa using hn
  cases j <;> simp [Instr.opens] at hn
  all_goals
    cases i with
    | commit call => cases call <;> simp [Instr.Next] at hnext
    | schedulePendingRemove caller =>
      cases caller <;> simp [Instr.Next,Scheduler.returned,Scheduler.failed] at hnext
    | _ => simp [Instr.Next] at hnext

theorem Instr.Next.call_cases {call : RpcCall} (hnext : i.Next (.network call)) :
    i = .joinRegister ∧ (∃ k g, call = .register k g) ∨ call = .remove ∨ (∃ c, call = .worker c) ∨
      ∃ o, call = .active o := by
  cases i with
  | commit call' => cases call' <;> simp [Instr.Next] at hnext
  | schedulePendingRemove caller =>
    cases caller <;> simp [Instr.Next,Scheduler.returned,Scheduler.failed] at hnext
  | joinRegister =>
    obtain ⟨k,g,rfl⟩ : ∃ k g, call = .register k g := by simpa [Instr.Next] using hnext
    exact Or.inl ⟨rfl,k,g,rfl⟩
  | terminalRemove g =>
    have hnext : call = .remove ∨ ∃ o, call = .active o := by simpa [Instr.Next] using hnext
    rcases hnext with rfl | ⟨o,rfl⟩ <;> simp
  | _ => simp [Instr.Next] at hnext <;> simp [hnext]

/-- A register goes on as the same register. -/
theorem effect_push_register (hj : j ∈ (effect cfg alive t fresh ch s i).push)
    (hr : j.registers = true) : (i = .joinRegister ∧ j.registering = true) ∨
    (∃ k g, i = .network (.register k g) ∧ j = .rpc (.register k g)) ∨
    ∃ k g, i = .rpc (.register k g) ∧
      j = .commit (.register k g) (s.rpcSequence + 1) ((RpcCall.register k g).outcome ch.outcome) := by
  have hnext := effect_push_next cfg s alive t fresh ch hj
  cases j with
  | joinRegister => simpa [Instr.opens] using effect_push_opens cfg s alive t fresh ch hj
  | network call =>
    cases call with
    | register k g =>
      rcases hnext.call_cases with ⟨hi,-⟩ | he | ⟨c,he⟩ | ⟨o,he⟩
      · exact Or.inl ⟨hi,rfl⟩
      all_goals cases he
    | _ => simp [Instr.registers,Instr.registering] at hr
  | rpc call =>
    cases call with
    | register k g =>
      cases i with
      | network call' =>
        obtain rfl : .register k g = call' := by simpa [Instr.Next] using hnext
        exact Or.inr (Or.inl ⟨k,g,rfl,rfl⟩)
      | commit call' => cases call' <;> simp [Instr.Next] at hnext
      | schedulePendingRemove caller =>
        cases caller <;> simp [Instr.Next,Scheduler.returned,Scheduler.failed] at hnext
      | _ => simp [Instr.Next] at hnext
    | _ => simp [Instr.registers,Instr.registering] at hr
  | commit call q r =>
    cases call with
    | register k g =>
      cases i with
      | rpc call' =>
        have hj := List.mem_singleton.mp hj
        obtain ⟨rfl,rfl,rfl⟩ := Instr.commit.inj hj
        exact Or.inr (Or.inr ⟨k,g,rfl,rfl⟩)
      | commit call' => cases call' <;> simp [Instr.Next] at hnext
      | schedulePendingRemove caller =>
        cases caller <;> simp [Instr.Next,Scheduler.returned,Scheduler.failed] at hnext
      | _ => simp [Instr.Next] at hnext
    | _ => simp [Instr.registers,Instr.registering] at hr
  | _ => simp [Instr.registers,Instr.registering] at hr

/-- A token is given out when a register joins, and then handed on. -/
theorem effect_push_token (h : CleanupInv s) (hj : j ∈ (effect cfg alive t fresh ch s i).push)
    {k g : ℕ} (hk : j.role = .call (.register (some k) g)) :
    i.role = .call (.register (some k) g) ∨
    (i = .joinRegister ∧ (effect cfg alive t fresh ch s i).state.generation = g ∧
      (effect cfg alive t fresh ch s i).state.registerCoordination = some k ∧
      ((s.coordinations k).cleanupRequested = false ∨ k = s.nextCoordination)) := by
  rcases effect_push_register cfg s alive t fresh ch hj (Instr.registers_of_role hk) with
    ⟨rfl,-⟩ | ⟨k',g',rfl,rfl⟩ | ⟨k',g',rfl,rfl⟩
  · refine Or.inr ⟨rfl,?_⟩
    simp only [effect,joinRegister] at hj ⊢
    rcases h.join_cases with ⟨k',-,-,he⟩ | ⟨k',hk',hreq,he⟩ | ⟨-,he⟩ <;> rw [he] at hj ⊢ <;>
      obtain rfl : j = _ := by simpa using hj
    · cases hk
    · cases hk
      exact ⟨rfl,hk',Or.inl hreq⟩
    · cases hk
      exact ⟨rfl,rfl,Or.inr rfl⟩
  · exact Or.inl hk
  · exact Or.inl hk

theorem effect_push_registers : (effect cfg alive t fresh ch s i).push.countP Instr.registers ≤
    if i.registers then 1 else 0 := by
  by_cases hi : i = .joinRegister
  · subst hi
    simp only [effect,joinRegister,List.countP_append]
    have h0 : ((joinRegisterCoordination s).2.2.2.toList.map Instr.setCoordinationDone).countP
        Instr.registers = 0 := by
      cases (joinRegisterCoordination s).2.2.2 <;> rfl
    rw [h0]
    exact le_rfl
  by_cases hno : (effect cfg alive t fresh ch s i).push.countP Instr.registers = 0
  · omega
  obtain ⟨j,hj,hr⟩ := List.countP_pos_iff.mp (Nat.pos_of_ne_zero hno)
  rcases effect_push_register cfg s alive t fresh ch hj hr with
    ⟨he,-⟩ | ⟨k,g,rfl,-⟩ | ⟨k,g,rfl,-⟩
  · exact absurd he hi
  · exact le_rfl
  · exact le_rfl

theorem effect_spawn_registers : ∀ body, (effect cfg alive t fresh ch s i).spawn = some body →
    ∀ j ∈ body, j.registers = false ∧ j.opens = false := by
  intro body hb j hj
  rcases effect_spawn_cases cfg s t fresh alive ch i with
    hs | ⟨a,-,-,-,hs⟩ | ⟨c,o,-,-,-,hs⟩ <;> rw [hs] at hb
  · cases hb
  · obtain rfl := Option.some.inj hb
    simp only [List.mem_cons,List.not_mem_nil,or_false] at hj
    rcases hj with rfl | rfl <;> exact ⟨rfl,rfl⟩
  · obtain rfl := Option.some.inj hb
    obtain rfl := List.mem_singleton.mp hj
    exact ⟨rfl,rfl⟩

end

/-- An RPC of an explicit register on thread `t`. -/
def Event.RegisterRpc (t : ℕ) : Event → Prop
  | .rpc t' _ k _ => t' = t ∧ ∃ g, k = .register g
  | _ => False

structure Calls (s : System) : Prop where
  opened : ∀ t i, i ∈ s.code t → i.opens = true → s.code t = [i]
  single : ∀ t, (s.code t).countP Instr.registers ≤ 1
  commits : s.Everywhere fun t i => ∀ k g q r, i = .commit (.register k g) q r →
    .rpc t q (.register g) r ∈ s.history
  waiting : s.Everywhere fun t i => i.registering = true → ∀ e ∈ s.history, ¬ e.RegisterRpc t
  unique : ∀ t, ∀ e ∈ s.history, ∀ e' ∈ s.history, e.RegisterRpc t → e'.RegisterRpc t → e = e'
  named : ∀ t, ∀ e ∈ s.history, e.RegisterRpc t → t < s.next
  entered : ∀ t g, .enteredRemove t g ∈ s.history → t < s.next ∧ .removeOnce ∉ s.code t
  tokens : s.Everywhere fun _ i => ∀ k g, i.role = .call (.register (some k) g) →
    k < s.shared.nextCoordination ∧ (s.shared.coordinations k).generation = g

namespace Calls
variable {s : System} {t : ℕ} {i : Instr} {rest : List Instr} {ch : Choice}

theorem blank : Calls .blank where
  opened t i hi := by simp [System.blank] at hi
  single t := by simp [System.blank]
  commits t i hi := by simp [System.blank] at hi
  waiting t i hi := by simp [System.blank] at hi
  unique t e he := by simp [System.blank] at he
  named t e he := by simp [System.blank] at he
  entered t g he := by simp [System.blank] at he
  tokens t i hi := by simp [System.blank] at hi

theorem entry_le_one (cfg : Config) (c : Call) : (entry cfg c).length ≤ 1 := by
  rcases entry_cases cfg c with he | ⟨i,he,-⟩ <;> simp [he]

theorem called (h : Calls s) (c : Call) : Calls (s.called cfg c) := by
  have hcode : ∀ t, (s.called cfg c).code t = s.code t ∨
      (t = s.next ∧ (s.called cfg c).code t = entry cfg c) := by
    intro t
    by_cases ht : t = s.next
    · exact Or.inr ⟨ht,by subst ht; simp [Machine.start,machine]⟩
    · exact Or.inl (by simp [Machine.start,ht])
  have hmem : ∀ e, e ∈ (s.called cfg c).history → (∀ t c', e ≠ .called t c') → e ∈ s.history := by
    intro e he hne
    rcases List.mem_append.mp he with he | he
    · exact he
    · exact absurd (List.mem_singleton.mp he) (hne _ _)
  have hrpc : ∀ t, ∀ e ∈ (s.called cfg c).history, e.RegisterRpc t → e ∈ s.history := by
    intro t e he hr
    exact hmem e he fun t' c' heq => by subst heq; exact hr
  have hlen := entry_le_one cfg c
  refine ⟨fun t i hi ho => ?_,fun t => ?_,?_,?_,fun t e he e' he' hr hr' => ?_,
    fun t e he hr => ?_,fun t g he => ?_,?_⟩
  · rcases hcode t with he | ⟨-,he⟩ <;> rw [he] at hi ⊢
    · exact h.opened t i hi ho
    · obtain ⟨pre,post,hsplit⟩ := List.append_of_mem hi
      have : pre = [] ∧ post = [] := by
        rw [hsplit] at hlen
        simp only [List.length_append,List.length_cons] at hlen
        exact ⟨List.length_eq_zero_iff.mp (by omega),List.length_eq_zero_iff.mp (by omega)⟩
      simp [hsplit,this]
  · rcases hcode t with he | ⟨-,he⟩ <;> rw [he]
    · exact h.single t
    · exact (List.countP_le_length).trans hlen
  · intro t i hi k g q r hik
    rcases hcode t with he | ⟨-,he⟩ <;> rw [he] at hi
    · exact List.mem_append_left _ (h.commits t i hi k g q r hik)
    · have hp := Plain.entry cfg c i hi
      subst hik
      simp at hp
  · intro t i hi hreg e he hr
    have he := hrpc t e he hr
    rcases hcode t with heq | ⟨rfl,-⟩
    · rw [heq] at hi
      exact h.waiting t i hi hreg e he hr
    · exact absurd (h.named _ e he hr) (lt_irrefl _)
  · exact h.unique t e (hrpc t e he hr) e' (hrpc t e' he' hr') hr hr'
  · exact (h.named t e (hrpc t e he hr) hr).trans (Nat.lt_succ_self _)
  · obtain ⟨hlt,hno⟩ := h.entered t g (hmem _ he (by simp))
    refine ⟨hlt.trans (Nat.lt_succ_self _),?_⟩
    rcases hcode t with heq | ⟨rfl,-⟩
    · rw [heq]
      exact hno
    · exact absurd hlt (lt_irrefl _)
  · refine Machine.Everywhere.start h.tokens fun i hi k g hk => ?_
    simp [Plain.entry cfg c i hi] at hk

/-- A thread has one register at most. -/
theorem one_register (h : Calls s) {j : Instr} (hi : i ∈ s.code t) (hj : j ∈ s.code t)
    (hir : i.registers = true) (hjr : j.registers = true) : i = j := by
  by_contra hne
  have hone := h.single t
  obtain ⟨pre,post,hsplit⟩ := List.append_of_mem hi
  have hrest : j ∈ pre ++ post := by
    rw [hsplit] at hj
    simp only [List.mem_append,List.mem_cons] at hj ⊢
    exact hj.imp_right fun hj => hj.resolve_left (Ne.symm hne)
  have hpos := List.countP_pos_iff.mpr ⟨j,hrest,hjr⟩
  rw [hsplit,List.countP_append,List.countP_cons_of_pos hir] at hone
  rw [List.countP_append] at hpos
  omega

section After
variable (h : Calls s) (hn : s.Named) (hc : s.code t = i :: rest)

variable (cfg ch) in
include hn hc in
theorem code_cases (t' : ℕ) : (t' = t ∧ (s.after cfg t i rest ch).code t' =
      (effect cfg s.alive t s.next ch s.shared i).push ++ rest) ∨
    (t' = s.next ∧ ∃ body, (effect cfg s.alive t s.next ch s.shared i).spawn = some body ∧
      (s.after cfg t i rest ch).code t' = body) ∨
    (t' ≠ t ∧ (s.after cfg t i rest ch).code t' = s.code t') :=
  Sys.advance_code_cases (hn.lt (by simp [hc])) t'

/-- The register RPC that a step issues is that of the register it runs. -/
theorem rpc_of_effect {t' : ℕ} {e : Event}
    (he : e ∈ (effect cfg s.alive t s.next ch s.shared i).events) (hr : e.RegisterRpc t') :
    t' = t ∧ ∃ k g, i = .rpc (.register k g) ∧
      (effect cfg s.alive t s.next ch s.shared i).events = [e] := by
  have hem := effect_event_emits cfg s.shared s.alive t s.next ch he
  cases e with
  | rpc x q k r =>
    cases i with
    | rpc call =>
      have he := List.mem_singleton.mp he
      obtain ⟨rfl,g,rfl⟩ := hr
      obtain ⟨rfl,-,hk,-⟩ := Event.rpc.inj he
      cases call with
      | register k' g' => exact ⟨rfl,k',g',rfl,congrArg (fun e => [e]) he.symm⟩
      | _ => cases hk
    | _ => simp [Instr.Emits,Event.OfPending] at hem
  | _ => exact hr.elim

include h hc

/-- Nothing else on the thread of a register is one. -/
theorem rest_not_registers (hi : i.registers = true) {j : Instr} (hj : j ∈ rest) :
    j.registers = false := by
  by_contra hr
  have hpos := List.countP_pos_iff.mpr ⟨j,hj,by simpa using hr⟩
  have hone := h.single t
  rw [hc,List.countP_cons_of_pos hi] at hone
  omega

/-- A call that has not begun is not below another instruction. -/
theorem rest_not_opens {j : Instr} (hj : j ∈ rest) : j.opens = false := by
  by_contra ho
  have hone := h.opened t j (by simp [hc,hj]) (by simpa using ho)
  rw [hc] at hone
  obtain ⟨-,rfl⟩ := List.cons_eq_cons.mp hone
  cases hj

include hn

theorem opened_step {t' : ℕ} {j : Instr} (hj : j ∈ (s.after cfg t i rest ch).code t')
    (ho : j.opens = true) : (s.after cfg t i rest ch).code t' = [j] := by
  rcases code_cases cfg ch hn hc t' with ⟨rfl,he⟩ | ⟨rfl,body,hb,he⟩ | ⟨-,he⟩ <;> rw [he] at hj ⊢
  · rcases List.mem_append.mp hj with hj | hj
    · simp [effect_push_opens cfg s.shared s.alive t' s.next ch hj] at ho
    · simp [h.rest_not_opens hc hj] at ho
  · simp [(effect_spawn_registers cfg s.shared s.alive t s.next ch body hb j hj).2] at ho
  · exact h.opened t' j hj ho

theorem single_step (t' : ℕ) :
    ((s.after cfg t i rest ch).code t').countP Instr.registers ≤ 1 := by
  rcases code_cases cfg ch hn hc t' with ⟨rfl,he⟩ | ⟨rfl,body,hb,he⟩ | ⟨-,he⟩ <;> rw [he]
  · have hpush := effect_push_registers cfg s.shared s.alive t' s.next ch (i := i)
    have hone := h.single t'
    rw [hc,List.countP_cons] at hone
    rw [List.countP_append]
    omega
  · have h0 : body.countP Instr.registers = 0 := List.countP_eq_zero.mpr fun j hj => by
      simp [(effect_spawn_registers cfg s.shared s.alive t s.next ch body hb j hj).1]
    omega
  · exact h.single t'

theorem commits_step : (s.after cfg t i rest ch).Everywhere fun t' j => ∀ k g q r,
    j = .commit (.register k g) q r →
    .rpc t' q (.register g) r ∈ (s.after cfg t i rest ch).history := by
  refine h.commits.advance (hn.lt (by simp [hc])) hc (fun t' j hj _ hold k g q r he => ?_)
    (fun j hj k g q r he => ?_) fun body hb j hj k g q r he => ?_
  · exact List.mem_append_left _ (hold k g q r he)
  · subst he
    rcases effect_push_register cfg s.shared s.alive t s.next ch hj rfl with
      ⟨-,hr⟩ | ⟨k',g',-,he⟩ | ⟨k',g',rfl,he⟩
    · simp [Instr.registering] at hr
    · cases he
    · obtain ⟨hcall,rfl,rfl⟩ := Instr.commit.inj he
      obtain ⟨rfl,rfl⟩ := RpcCall.register.inj hcall
      exact List.mem_append_right _ List.mem_cons_self
  · subst he
    have := (effect_spawn_registers cfg s.shared s.alive t s.next ch body hb _ hj).1
    simp [Instr.registers] at this

theorem waiting_step : (s.after cfg t i rest ch).Everywhere fun t' j => j.registering = true →
    ∀ e ∈ (s.after cfg t i rest ch).history, ¬ e.RegisterRpc t' := by
  intro t' j hj hreg e he hr
  have hjr := Instr.registers_of_registering hreg
  have hold : ∀ e ∈ s.history, ¬ e.RegisterRpc t' := by
    rcases code_cases cfg ch hn hc t' with ⟨rfl,heq⟩ | ⟨rfl,body,hb,heq⟩ | ⟨-,heq⟩ <;> rw [heq] at hj
    · rcases List.mem_append.mp hj with hj | hj
      · refine h.waiting t' i (by simp [hc]) ?_
        rcases effect_push_register cfg s.shared s.alive t' s.next ch hj hjr with
          ⟨rfl,-⟩ | ⟨k,g,rfl,-⟩ | ⟨k,g,rfl,-⟩ <;> rfl
      · exact h.waiting t' j (by simp [hc,hj]) hreg
    · simp [(effect_spawn_registers cfg s.shared s.alive t s.next ch body hb j hj).1] at hjr
    · exact h.waiting t' j hj hreg
  rcases List.mem_append.mp he with he | he
  · exact hold e he hr
  · obtain ⟨rfl,k,g,rfl,-⟩ := rpc_of_effect he hr
    rw [Sys.advance_code_self (hn.lt (by simp [hc]))] at hj
    rcases List.mem_append.mp hj with hj | hj
    · obtain rfl := List.mem_singleton.mp hj
      cases hreg
    · simp [h.rest_not_registers hc rfl hj] at hjr

omit hn in
theorem unique_step {t' : ℕ} {e e' : Event} (he : e ∈ (s.after cfg t i rest ch).history)
    (he' : e' ∈ (s.after cfg t i rest ch).history) (hr : e.RegisterRpc t')
    (hr' : e'.RegisterRpc t') : e = e' := by
  have hnew : ∀ {x y}, x ∈ s.history → x.RegisterRpc t' →
      y ∈ (effect cfg s.alive t s.next ch s.shared i).events → ¬ y.RegisterRpc t' := by
    intro x y hx hxr hy hyr
    obtain ⟨rfl,k,g,rfl,-⟩ := rpc_of_effect hy hyr
    exact h.waiting t' _ (by rw [hc]; exact List.mem_cons_self) rfl x hx hxr
  rcases List.mem_append.mp he with he | he <;> rcases List.mem_append.mp he' with he' | he'
  · exact h.unique t' e he e' he' hr hr'
  · exact absurd hr' (hnew he hr he')
  · exact absurd hr (hnew he' hr' he)
  · obtain ⟨-,-,-,-,hone⟩ := rpc_of_effect he hr
    rw [hone] at he'
    exact (List.mem_singleton.mp he').symm

theorem entered_step {t' g : ℕ} (he : .enteredRemove t' g ∈ (s.after cfg t i rest ch).history) :
    t' < (s.after cfg t i rest ch).next ∧ .removeOnce ∉ (s.after cfg t i rest ch).code t' := by
  have hnext := Sys.advance_next_le s t ((effect cfg s.alive t s.next ch s.shared i).push ++ rest)
    (effect cfg s.alive t s.next ch s.shared i)
  have hno : .removeOnce ∉ (effect cfg s.alive t s.next ch s.shared i).push ++ rest := by
    intro hm
    rcases List.mem_append.mp hm with hm | hm
    · simpa [Instr.opens] using effect_push_opens cfg s.shared s.alive t s.next ch hm
    · simpa [Instr.opens] using h.rest_not_opens hc hm
  rcases List.mem_append.mp he with he | he
  · obtain ⟨hlt,hold⟩ := h.entered t' g he
    refine ⟨hlt.trans_le hnext,?_⟩
    rcases code_cases cfg ch hn hc t' with ⟨rfl,heq⟩ | ⟨rfl,body,hb,heq⟩ | ⟨-,heq⟩ <;> rw [heq]
    · exact hno
    · exact absurd hlt (lt_irrefl _)
    · exact hold
  · have hem := effect_event_emits cfg s.shared s.alive t s.next ch he
    obtain rfl : t' = t := by
      cases i with
      | removeOnce =>
        obtain ⟨g',heq⟩ := hem
        exact (Event.enteredRemove.inj heq).1
      | _ => simp [Instr.Emits,Event.OfPending] at hem
    refine ⟨(hn.lt (by simp [hc])).trans_le hnext,?_⟩
    rw [Sys.advance_code_self (hn.lt (by simp [hc]))]
    exact hno

omit hn in
theorem tokens_step (hinv : Invariant s) : (s.after cfg t i rest ch).Everywhere fun _ j =>
    ∀ k g, j.role = .call (.register (some k) g) →
    k < (s.after cfg t i rest ch).shared.nextCoordination ∧
    ((s.after cfg t i rest ch).shared.coordinations k).generation = g := by
  have hmem : i ∈ s.code t := by simp [hc]
  have hgrow := effect_cleanup_grows cfg hinv.rep s.alive t s.next ch (hinv.owned hmem)
  have hrep := hinv.rep.effect cfg s.alive t s.next ch (hinv.owned hmem)
  have hkeep : ∀ k g, k < s.shared.nextCoordination ∧
      (s.shared.coordinations k).generation = g →
      k < (s.after cfg t i rest ch).shared.nextCoordination ∧
      ((s.after cfg t i rest ch).shared.coordinations k).generation = g := fun k g hold =>
    ⟨hold.1.trans_le hgrow.coordinations,(hgrow.coordination k hold.1).1.trans hold.2⟩
  refine h.tokens.advance (hinv.named.lt (by simp [hc])) hc
    (fun t' j _ _ hold k g hk => hkeep k g (hold k g hk)) (fun j hj k g hk => ?_)
    fun body hb j hj k g hk => ?_
  · rcases effect_push_token cfg s.shared s.alive t s.next ch hinv.rep.cleanup hj hk with
      hi | ⟨-,hg,hk',-⟩
    · exact hkeep k g (h.tokens t i hmem k g hi)
    · obtain ⟨hlt,hgen,-⟩ := hrep.cleanup.coordination k hk'
      exact ⟨hlt,hgen.trans hg⟩
  · have hno := (effect_spawn_registers cfg s.shared s.alive t s.next ch body hb j hj).1
    simp [Instr.registers_of_role hk] at hno

theorem after (hinv : Invariant s) : Calls (s.after cfg t i rest ch) := by
  refine ⟨fun t' j hj ho => h.opened_step hn hc hj ho,h.single_step hn hc,h.commits_step hn hc,
    h.waiting_step hn hc,fun t' e he e' he' hr hr' => h.unique_step hc he he' hr hr',
    fun t' e he hr => ?_,fun t' g he => h.entered_step hn hc he,h.tokens_step hc hinv⟩
  have hnext := Sys.advance_next_le s t ((effect cfg s.alive t s.next ch s.shared i).push ++ rest)
    (effect cfg s.alive t s.next ch s.shared i)
  rcases List.mem_append.mp he with he | he
  · exact (h.named t' e he hr).trans_le hnext
  · obtain ⟨rfl,-⟩ := rpc_of_effect he hr
    exact (hn.lt (by simp [hc])).trans_le hnext

end After
end Calls

theorem Reachable.calls {s : System} (h : Reachable cfg s) : Calls s :=
  h.induct .blank (fun _ c _ hcl => hcl.called c)
    fun _ _ _ _ _ hinv hcl hc _ => hcl.after hinv.named hc hinv

end FlaskXxlJob.Registry
