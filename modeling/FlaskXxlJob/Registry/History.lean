import FlaskXxlJob.Registry.ControlFlow
import FlaskXxlJob.Registry.Invariant

/-! The real RPCs that a history records, and what each instruction adds to them. -/
namespace FlaskXxlJob.Registry
open FlaskXxlJob.Client Interleaving

/-- A real RPC: its network sequence, what issued it and what Admin answered. -/
structure Rpc where
  sequence : ℕ
  kind : RpcKind
  result : CallResult
  deriving DecidableEq

def Event.toRpc : Event → Option Rpc
  | .rpc _ q k r => some ⟨q,k,r⟩
  | _ => none

/-- The RPCs of a history, in the order of their execution. -/
def rpcsOf (history : List Event) : List Rpc := history.filterMap Event.toRpc

def System.rpcs (s : System) : List Rpc := rpcsOf s.history

@[simp] theorem rpcsOf_nil : rpcsOf [] = [] := rfl

@[simp] theorem rpcsOf_append (l l' : List Event) : rpcsOf (l ++ l') = rpcsOf l ++ rpcsOf l' :=
  List.filterMap_append

section
variable (cfg : Config) (s : State) (alive : ℕ → Bool) (t fresh : ℕ) (ch : Choice)

theorem effect_silent {i : Instr} (hi : ∀ call, i ≠ .rpc call) :
    rpcsOf (effect cfg alive t fresh ch s i).events = [] := by
  unfold rpcsOf
  rw [List.filterMap_eq_nil_iff]
  intro e he
  cases e with
  | rpc x q k r =>
    have hem := effect_event_emits cfg s alive t fresh ch he
    cases i <;> simp [Instr.Emits,Event.OfPending] at hem hi
  | _ => rfl

/-- Only an `rpc` instruction moves the sequence. -/
theorem effect_rpcSequence {i : Instr} (hi : ∀ call, i ≠ .rpc call) :
    (effect cfg alive t fresh ch s i).state.rpcSequence = s.rpcSequence := by
  cases i with
  | prepareStart activate =>
    simp only [effect]
    rcases prepareStart_cases s t fresh activate ch.startError with
      he | ⟨e,he⟩ | ⟨-,he⟩ <;> rw [he]
    simp
  | activatePreparedStart p =>
    simp only [effect,activatePreparedStart]
    split <;> simp
  | cancelPreparedStart p =>
    simp only [effect,cancelPreparedStart]
    split <;> simp
  | settlePrepared p =>
    simp only [effect]
    rcases settlePrepared_cases s p with he | ⟨-,he⟩ | ⟨-,-,-,he⟩ <;> rw [he]
    simp
  | stop remove => cases remove <;> simp [effect,stop,stopSection]
  | shutdown deregister => simp [effect,shutdown]
  | shutdownRequest g =>
    simp only [effect,shutdownRequest]
    split <;> simp
  | runWorker c | workerLoop c | recheckWorker c | performWorkerRegistry c =>
    simp only [effect]
    rcases guardCurrent_cases s c _ with ⟨-,he⟩ | ⟨-,he⟩ <;> rw [he]
  | finishWorker c =>
    simp only [effect]
    rcases finishWorker_cases s t c with ⟨o,-,-,-,he⟩ | ⟨-,he⟩ <;> simp [he]
  | network call =>
    simp only [effect]
    rcases enterNetwork_cases s t call with ⟨-,he⟩ | ⟨c,-,-,he⟩ <;> rw [he]
  | rpc call => exact absurd rfl (hi call)
  | commit call q r =>
    cases call with
    | register k g => cases k <;> simp [effect,commitRpc,commitRegister]
    | remove | worker | active =>
      simp [effect,commitRpc,commitRemove,commitWorker,commitActive]
  | joinRegister => simp [effect,joinRegister]
  | removeOnce =>
    simp only [effect]
    rcases removeOnce_cases s t with ⟨-,he⟩ | ⟨-,he⟩ <;> rw [he]
  | terminalRemove g =>
    simp only [effect,terminalRemove]
    split <;> simp
  | schedulePendingRemove caller =>
    simp only [effect]
    rcases schedulePendingRemove_cases cfg ch.now s t fresh alive caller ch.startError with
      ⟨-,he⟩ | ⟨o,-,-,he⟩ | ⟨o,e,-,-,he⟩ <;> simp [he]
  | runCleanupActor o =>
    simp only [effect]
    rcases runCleanupActor_cases s o with ⟨-,-,he⟩ | ⟨-,he⟩ <;> simp [he]
  | maybeCloseLogs =>
    simp only [effect]
    split <;> rfl
  | _ => simp [effect,State.updateOperation,State.updateCoordination]

/-- The RPC an instruction issues. -/
def Instr.issues (s : State) (ch : Choice) : Instr → List Rpc
  | .rpc call => [⟨s.rpcSequence + 1,call.kind s,call.outcome ch.outcome⟩]
  | _ => []

theorem effect_rpcs (i : Instr) :
    rpcsOf (effect cfg alive t fresh ch s i).events = i.issues s ch ∧
    (effect cfg alive t fresh ch s i).state.rpcSequence =
      s.rpcSequence + (i.issues s ch).length := by
  by_cases hi : ∃ call, i = .rpc call
  · obtain ⟨call,rfl⟩ := hi
    exact ⟨rfl,rfl⟩
  · have hs := effect_silent cfg s alive t fresh ch fun call hc => hi ⟨call,hc⟩
    have hq := effect_rpcSequence cfg s alive t fresh ch fun call hc => hi ⟨call,hc⟩
    have hno : i.issues s ch = [] := by
      cases i <;> first | rfl | exact absurd ⟨_,rfl⟩ hi
    exact ⟨by rw [hs,hno],by rw [hq,hno]; rfl⟩

end

variable {cfg : Config}

/-- The RPCs of the history are numbered from one, in the order of their execution. -/
structure Numbered (s : System) : Prop where
  sequences : s.rpcs.map Rpc.sequence = List.range' 1 s.shared.rpcSequence

theorem System.rpcs_called (s : System) (c : Call) : (s.called cfg c).rpcs = s.rpcs := by
  simp [System.rpcs,Machine.start,machine,rpcsOf,Event.toRpc]

theorem System.rpcs_after (s : System) (t : ℕ) (i : Instr) (rest : List Instr) (ch : Choice) :
    (s.after cfg t i rest ch).rpcs = s.rpcs ++ i.issues s.shared ch := by
  simp only [System.rpcs,Sys.advance_history,rpcsOf_append]
  rw [(effect_rpcs cfg s.shared s.alive t s.next ch i).1]

theorem Numbered.called {s : System} (h : Numbered s) (c : Call) : Numbered (s.called cfg c) :=
  ⟨by rw [System.rpcs_called]; exact h.sequences⟩

theorem Numbered.after {s : System} (h : Numbered s) (t : ℕ) (i : Instr) (rest : List Instr)
    (ch : Choice) : Numbered (s.after cfg t i rest ch) := by
  refine ⟨?_⟩
  rw [System.rpcs_after,List.map_append,h.sequences,Sys.advance_shared,
    (effect_rpcs cfg s.shared s.alive t s.next ch i).2]
  cases i with
  | rpc call => simp [Instr.issues,List.range'_concat,Nat.add_comm]
  | _ => simp [Instr.issues]

theorem Reachable.numbered {s : System} (h : Reachable cfg s) : Numbered s :=
  h.induct ⟨rfl⟩ (fun _ c _ hn => hn.called c) fun _ t i rest ch _ hn _ _ => hn.after t i rest ch

namespace Numbered
variable {s : System}

/-- Sequences grow with the execution order. -/
theorem sorted (h : Numbered s) : s.rpcs.Pairwise fun x y => x.sequence < y.sequence := by
  have hp : (s.rpcs.map Rpc.sequence).Pairwise (· < ·) := by
    rw [h.sequences]
    exact List.pairwise_lt_range'
  exact List.pairwise_map.mp hp

/-- A relation of the execution order is one of the sequences. -/
theorem of_sequence_lt (h : Numbered s) {R : Rpc → Rpc → Prop} (hr : s.rpcs.Pairwise R)
    {x y : Rpc} (hx : x ∈ s.rpcs) (hy : y ∈ s.rpcs) (hlt : x.sequence < y.sequence) : R x y := by
  obtain ⟨m,hm,rfl⟩ := List.mem_iff_getElem.mp hx
  obtain ⟨n,hn,rfl⟩ := List.mem_iff_getElem.mp hy
  rcases Nat.lt_trichotomy m n with hmn | rfl | hmn
  · exact List.pairwise_iff_getElem.mp hr m n hm hn hmn
  · exact absurd hlt (lt_irrefl _)
  · exact absurd (List.pairwise_iff_getElem.mp h.sorted n m hn hm hmn) (not_lt.mpr hlt.le)

theorem eq_of_sequence (h : Numbered s) {x y : Rpc} (hx : x ∈ s.rpcs) (hy : y ∈ s.rpcs)
    (he : x.sequence = y.sequence) : x = y := by
  obtain ⟨m,hm,rfl⟩ := List.mem_iff_getElem.mp hx
  obtain ⟨n,hn,rfl⟩ := List.mem_iff_getElem.mp hy
  rcases Nat.lt_trichotomy m n with hmn | rfl | hmn
  · exact absurd (List.pairwise_iff_getElem.mp h.sorted m n hm hn hmn) (by omega)
  · rfl
  · exact absurd (List.pairwise_iff_getElem.mp h.sorted n m hn hm hmn) (by omega)

end Numbered

end FlaskXxlJob.Registry
