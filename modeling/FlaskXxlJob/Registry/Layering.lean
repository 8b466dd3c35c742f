import FlaskXxlJob.Interleaving.Rest
import FlaskXxlJob.Registry.ControlFlow
import FlaskXxlJob.Registry.Invariant

/-!
What may wait below what on the stacks of the service. A thread that blocks keeps nothing below
the blocked instruction that another thread could be waiting for.
-/
namespace FlaskXxlJob.Registry
open FlaskXxlJob.Client Interleaving

variable {cfg : Config} {s : State}

namespace Instr

/-- The instructions that may come to wait for an Event or for the renewal interval. -/
def waits : Instr → Bool
  | .waitActivate _ | .preparedWorkerEntry _ | .runWorker _ | .waitRemove .. | .recheckWorker _
  | .workerLoop _ | .performWorkerRegistry _ | .sleep _ | .network (.worker _) | .rpc (.worker _)
  | .commit (.worker _) _ _ | .removeOnce | .terminalRemove _ | .waitOperation _
  | .waitCoordination _ | .pendingResult .. | .schedulePendingRemove (.observer ..) => true
  | _ => false

/-- The instructions of `remove_executor` that may come to wait. -/
def observes : Instr → Bool
  | .removeOnce | .terminalRemove _ | .waitOperation _ | .waitCoordination _ | .pendingResult ..
  | .schedulePendingRemove (.observer ..) => true
  | _ => false

/-- The instructions that go on with what `remove_executor` has waited for. -/
def collects : Instr → Bool
  | .terminalRemove _ | .operationResult _ | .pendingResult .. => true
  | _ => false

/-- `j` goes on with what `i` has waited for. -/
def Resumes (i j : Instr) : Prop :=
  (∃ p, i = .waitActivate p ∧ j = .preparedWorkerEntry p) ∨
    (i.observes = true ∧ j.collects = true)

/-- The middle of `shutdown`, which goes on to close the logs. -/
def finalizes : Instr → Bool
  | .shutdownRequest _ | .schedulePendingRemove .shutdown => true
  | _ => false

/-- Setting the Events of a cancelled token. -/
def wakes : Instr → Bool
  | .setStop _ | .setActivate _ => true
  | _ => false

/-- `j` may wait below `i`. -/
structure Above (i j : Instr) : Prop where
  idle : j.holdsNetwork = false
  resumes : i.waits = true → i.Resumes j
  wakes : j.finalizes = true → i.wakes = true

/-- Only what may wait goes on to something that may wait. -/
theorem waits_of_next {i j : Instr} (hn : i.Next j) (hj : j.waits = true) : i.waits = true := by
  cases i with
  | schedulePendingRemove caller =>
    cases caller <;> simp [Next,Scheduler.returned,Scheduler.failed] at hn <;> grind [waits]
  | commit call q r => cases call <;> simp only [Next] at hn <;> grind [waits]
  | network call => cases call <;> simp only [Next] at hn <;> grind [waits]
  | rpc call =>
    obtain ⟨q,r,rfl⟩ := hn
    cases call <;> simp_all [waits]
  | _ => simp only [Next] at hn <;> grind [waits]

theorem observes_of_next {i j : Instr} (hn : i.Next j) (hi : i.observes = true)
    (hj : j.waits = true) : j.observes = true := by
  cases i with
  | schedulePendingRemove caller =>
    cases caller <;> simp [Next,Scheduler.returned,Scheduler.failed] at hn <;>
      grind [waits,observes]
  | _ => simp [observes] at hi <;> simp only [Next] at hn <;> grind [waits,observes]

theorem Above.of_next {i j b : Instr} (hn : i.Next j) (h : i.Above b) : j.Above b where
  idle := h.idle
  resumes hj := by
    rcases h.resumes (waits_of_next hn hj) with ⟨p,rfl,-⟩ | ⟨ho,hb⟩
    · exact absurd hn (by simp [Next])
    · exact Or.inr ⟨observes_of_next hn ho hj,hb⟩
  wakes hb := by
    have hi := h.wakes hb
    cases i <;> simp [Instr.wakes] at hi <;> exact absurd hn (by simp [Next])

/-- Only the network lock and the middle of `shutdown` go on to something that may not wait
below others. -/
theorem sinks_of_next {i j : Instr} (hn : i.Next j) (hc : ∀ call, i ≠ .network call)
    (hs : ∀ b, i ≠ .shutdown b) (hr : ∀ g, i ≠ .shutdownRequest g) :
    j.holdsNetwork = false ∧ j.finalizes = false := by
  cases i with
  | schedulePendingRemove caller =>
    cases caller <;> simp [Next,Scheduler.returned,Scheduler.failed] at hn <;>
      grind [holdsNetwork,finalizes]
  | commit call q r => cases call <;> simp only [Next] at hn <;> grind [holdsNetwork,finalizes]
  | network call => exact absurd rfl (hc call)
  | shutdown b => exact absurd rfl (hs b)
  | shutdownRequest g => exact absurd rfl (hr g)
  | rpc call =>
    obtain ⟨q,r,rfl⟩ := hn
    exact ⟨rfl,rfl⟩
  | _ => simp only [Next] at hn <;> grind [holdsNetwork,finalizes]

/-- The middle of `shutdown` follows its first section. -/
theorem finalizes_of_next {i j : Instr} (hn : i.Next j) (hj : j.finalizes = true) :
    i.finalizes = true ∨ ∃ b, i = .shutdown b := by
  by_cases hs : ∃ b, i = .shutdown b
  · exact Or.inr hs
  cases i with
  | network call => simp only [Next] at hn; grind [finalizes]
  | shutdownRequest g => exact Or.inl rfl
  | shutdown b => exact absurd ⟨b,rfl⟩ hs
  | _ =>
    have hno := (sinks_of_next hn (by simp) (by simp) (by simp)).2
    simp [hno] at hj

/-- Instructions that wait for nothing may stand in any order. -/
theorem pairwise_above {l : List Instr} (hw : ∀ i ∈ l, i.waits = false)
    (hs : ∀ j ∈ l, j.holdsNetwork = false ∧ j.finalizes = false) : l.Pairwise Above := by
  refine List.pairwise_of_forall_mem_list fun i hi j hj => ⟨(hs j hj).1,fun h => ?_,fun h => ?_⟩
  · simp [hw i hi] at h
  · simp [(hs j hj).2] at h

end Instr

section
variable (cfg : Config) (s : State) (alive : ℕ → Bool) (t fresh : ℕ) (ch : Choice)

/-- An instruction that never waits pushes nothing that waits. -/
theorem effect_push_prompt {i : Instr} (hi : i.waits = false) :
    ∀ j ∈ (effect cfg alive t fresh ch s i).push, j.waits = false := by
  intro j hj
  by_contra hw
  have hn := effect_push_next cfg s alive t fresh ch hj
  simp [Instr.waits_of_next hn (by simpa using hw)] at hi

theorem exitRequest_pairwise (b : Bool) :
    (exitRequest cfg s b ++ [Instr.maybeCloseLogs]).Pairwise Instr.Above := by
  unfold exitRequest
  split
  · split
    · simp
      exact ⟨rfl,by simp [Instr.waits],by simp [Instr.finalizes]⟩
    · simp
      exact ⟨rfl,by simp [Instr.waits],by simp [Instr.finalizes]⟩
  · simp

theorem effect_push_above (i : Instr) :
    (effect cfg alive t fresh ch s i).push.Pairwise Instr.Above := by
  cases hw : i.waits with
  | false =>
    have hprompt := effect_push_prompt cfg s alive t fresh ch hw
    by_cases hsink : ∀ j ∈ (effect cfg alive t fresh ch s i).push,
        j.holdsNetwork = false ∧ j.finalizes = false
    · exact Instr.pairwise_above hprompt hsink
    cases i with
    | network call =>
      simp only [effect]
      rcases enterNetwork_cases s t call with ⟨-,he⟩ | ⟨c,-,-,he⟩ <;> rw [he] <;> simp
    | shutdownRequest g =>
      simp only [effect,shutdownRequest]
      split
      · cases (requestRemoveLocked s).2 <;> simp [scheduleFor]
      · simp
    | shutdown b =>
      simp only [effect,shutdown,List.append_assoc]
      refine List.pairwise_append.mpr ⟨?_,exitRequest_pairwise cfg _ b,?_⟩
      · cases s.preparedStart <;> simp [wakeCancelled]
        exact ⟨rfl,by simp [Instr.waits],by simp [Instr.finalizes]⟩
      · intro x hx y hy
        have hwx : x.wakes = true ∧ x.waits = false := by
          rcases mem_wakeCancelled hx with ⟨c,rfl⟩ | ⟨p,-,rfl⟩ <;> exact ⟨rfl,rfl⟩
        refine ⟨?_,by simp [hwx.2],fun _ => hwx.1⟩
        unfold exitRequest at hy
        split at hy
        · split at hy <;> simp at hy <;> rcases hy with rfl | rfl <;> rfl
        · simp at hy
          subst hy
          rfl
    | _ =>
      exact absurd (fun j hj => Instr.sinks_of_next (effect_push_next cfg s alive t fresh ch hj)
        (by simp) (by simp) (by simp)) hsink
  | true =>
    cases i with
    | terminalRemove g =>
      simp only [effect,terminalRemove]
      split <;> simp
      all_goals exact ⟨rfl,by simp [Instr.waits,Instr.Resumes,Instr.observes,Instr.collects],
        by simp [Instr.finalizes]⟩
    | schedulePendingRemove caller =>
      simp only [effect]
      rcases schedulePendingRemove_cases cfg ch.now s t fresh alive caller ch.startError with
        ⟨-,he⟩ | ⟨o,-,-,he⟩ | ⟨o,e,-,-,he⟩ <;> rw [he] <;>
        cases caller <;> simp [Scheduler.returned,Scheduler.failed]
      all_goals exact ⟨rfl,by simp [Instr.waits,Instr.Resumes,Instr.observes,Instr.collects],
        by simp [Instr.finalizes]⟩
    | removeOnce =>
      simp only [effect]
      rcases removeOnce_cases s t with ⟨-,he⟩ | ⟨-,he⟩ <;> rw [he] <;> simp
    | network call =>
      simp only [effect]
      rcases enterNetwork_cases s t call with ⟨-,he⟩ | ⟨c,-,-,he⟩ <;> rw [he] <;> simp
    | commit call q r =>
      cases call <;> simp [Instr.waits] at hw
      simp [effect,commitRpc,commitWorker]
    | preparedWorkerEntry c =>
      simp only [effect]
      split <;> simp
    | runWorker c | workerLoop c | recheckWorker c | performWorkerRegistry c =>
      simp only [effect]
      rcases guardCurrent_cases s c _ with ⟨-,he⟩ | ⟨-,he⟩ <;> rw [he] <;> simp
    | _ => simp [Instr.waits] at hw <;> simp [effect,callRegistry]

end

/-- The stacks of every reachable system. -/
theorem Reachable.layered {s : System} (h : Reachable cfg s) : s.Layered Instr.Above := by
  refine h.induct (fun t => .nil) (fun s c _ hl => hl.start c ?_) fun s t i rest ch hinv hl hc _ =>
    hl.advance (hinv.named.lt (by simp [hc])) hc (effect_push_above cfg _ _ _ _ _ i)
      (fun j hj b => .of_next (effect_push_next cfg _ _ _ _ _ hj)) fun body hb => ?_
  · rcases entry_cases cfg c with he | ⟨i,he,-⟩ <;> simp [machine,he]
  · rcases effect_spawn_cases cfg s.shared t s.next s.alive ch i with
      hs | ⟨a,-,-,-,hs⟩ | ⟨c,o,-,-,-,hs⟩ <;> rw [hs] at hb
    · cases hb
    · obtain rfl := Option.some.inj hb
      simp
      exact ⟨rfl,by simp [Instr.waits,Instr.Resumes],by simp [Instr.finalizes]⟩
    · obtain rfl := Option.some.inj hb
      simp

end FlaskXxlJob.Registry
