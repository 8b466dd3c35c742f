import FlaskXxlJob.Keyed.Override
import FlaskXxlJob.Python.Str
import Mathlib.Data.Finmap

/-!
The request-callbacks of one application: named `/run` callbacks and three single slots.
A batch is validated while it is built and committed in one go.
-/
namespace FlaskXxlJob.Callback
open Python Keyed

/-- A key of the `run` mapping: a string, or an object that is not one. -/
inductive HandlerKey where
  | str (name : String)
  | other (id : ℕ)
  deriving DecidableEq

inductive Single where
  | idleBeat
  | kill
  | log
  deriving DecidableEq

def Single.text : Single → String
  | idleBeat => "idleBeat"
  | kill => "kill"
  | log => "log"

/-- The cases of `XXLJobCallbackRegistrationError`. -/
inductive RegistrationError where
  | invalidName
  | notMapping
  | runNotCallable (name : String)
  | notCallable (slot : Single)
  | runOccupied (name : String)
  | occupied (slot : Single)
  deriving DecidableEq

def RegistrationError.message (repr : String → String) : RegistrationError → String
  | invalidName => "XXL-JOB executor_handler must be a non-empty string without " ++
      "leading or trailing whitespace"
  | notMapping => "XXL-JOB run callbacks must be a mapping of executor_handler names to callables"
  | runNotCallable name => "XXL-JOB run[" ++ repr name ++ "] callback must be callable"
  | notCallable slot => "XXL-JOB " ++ slot.text ++ " callback must be callable"
  | runOccupied name => "XXL-JOB run callback for executor_handler " ++ repr name ++
      " has already been registered; pass replace=True to override it"
  | occupied slot => "XXL-JOB " ++ slot.text ++
      " callback has already been registered; pass replace=True to override it"

/-- A name `validate_executor_handler` lets through. -/
def ValidName (name : String) : Prop := name ≠ "" ∧ strip name = name

instance (name : String) : Decidable (ValidName name) :=
  inferInstanceAs (Decidable (_ ∧ _))

def validateExecutorHandler : HandlerKey → Except RegistrationError String
  | .other _ => .error .invalidName
  | .str name => if name = "" ∨ strip name ≠ name then .error .invalidName else .ok name

variable {φ : Type}

/-- The `run` argument when it is not `None`; a mapping has each key once. -/
inductive RunArgument (φ : Type) where
  | notMapping
  | mapping (items : List (HandlerKey × φ)) (nodup : (items.map Prod.fst).Nodup)

/-- The callbacks given to `register_callbacks`, `none` where one is omitted. -/
structure Batch (φ : Type) where
  run : Option (RunArgument φ) := none
  idleBeat : Option φ := none
  kill : Option φ := none
  log : Option φ := none

/-- The attributes of `CallbackRegistry`. -/
structure Slots (φ : Type) where
  run : Finmap (fun _ : String => φ) := ∅
  idleBeat : Option φ := none
  kill : Option φ := none
  log : Option φ := none

def validateCallback (callable : φ → Bool) (e : RegistrationError) (func : φ) :
    Except RegistrationError Unit :=
  if callable func then .ok () else .error e

/-- The loop of `register_callbacks` over the items of `run`. -/
def registerRun (callable : φ → Bool) (replace : Bool) :
    List (HandlerKey × φ) → Finmap (fun _ : String => φ) →
      Except RegistrationError (Finmap (fun _ : String => φ))
  | [],newRun => .ok newRun
  | (executorHandler,func) :: items,newRun => do
    let name ← validateExecutorHandler executorHandler
    validateCallback callable (.runNotCallable name) func
    if name ∈ newRun ∧ replace = false then throw (.runOccupied name)
    registerRun callable replace items (newRun.insert name func)

/-- The new run mapping of a batch. -/
def validateRun (callable : φ → Bool) (run : Option (RunArgument φ))
    (existing : Finmap (fun _ : String => φ)) (replace : Bool) :
    Except RegistrationError (Finmap (fun _ : String => φ)) :=
  match run with
  | none => .ok existing
  | some .notMapping => .error .notMapping
  | some (.mapping items _) => registerRun callable replace items existing

def validateSingle (callable : φ → Bool) (slot : Single) (func existing : Option φ)
    (replace : Bool) : Except RegistrationError Unit :=
  match func with
  | none => .ok ()
  | some f => do
    validateCallback callable (.notCallable slot) f
    if existing.isSome ∧ replace = false then throw (.occupied slot)

/-- A method of the registry: it raises or returns, and leaves the attributes it has set. -/
abbrev Method (φ : Type) : Type → Type := ExceptT RegistrationError (StateM (Slots φ))

def registerCallbacks (callable : φ → Bool) (batch : Batch φ) (replace : Bool) :
    Method φ Unit := do
  let self ← get
  let newRun ← MonadExcept.ofExcept (validateRun callable batch.run self.run replace)
  MonadExcept.ofExcept (validateSingle callable .idleBeat batch.idleBeat self.idleBeat replace)
  MonadExcept.ofExcept (validateSingle callable .kill batch.kill self.kill replace)
  MonadExcept.ofExcept (validateSingle callable .log batch.log self.log replace)
  let newIdleBeat := batch.idleBeat <|> self.idleBeat
  let newKill := batch.kill <|> self.kill
  let newLog := batch.log <|> self.log
  modify fun s => { s with run := newRun }
  modify fun s => { s with idleBeat := newIdleBeat }
  modify fun s => { s with kill := newKill }
  modify fun s => { s with log := newLog }

def setRun (callable : φ → Bool) (executorHandler : HandlerKey) (func : φ) (replace : Bool) :
    Method φ Unit :=
  registerCallbacks callable { run := some (.mapping [(executorHandler,func)] (by simp)) } replace

def setIdleBeat (callable : φ → Bool) (func : Option φ) (replace : Bool) : Method φ Unit :=
  registerCallbacks callable { idleBeat := func } replace

def setKill (callable : φ → Bool) (func : Option φ) (replace : Bool) : Method φ Unit :=
  registerCallbacks callable { kill := func } replace

def setLog (callable : φ → Bool) (func : Option φ) (replace : Bool) : Method φ Unit :=
  registerCallbacks callable { log := func } replace

/-- Every name goes through `setdefault`, every single slot is set where it is `None`. -/
def seedFrom (self other : Slots φ) : Slots φ where
  run := self.run ∪ other.run
  idleBeat := self.idleBeat <|> other.idleBeat
  kill := self.kill <|> other.kill
  log := self.log <|> other.log

/-! ### Slots by place -/

/-- Where a callback is kept. -/
inductive Place where
  | run (key : HandlerKey)
  | single (slot : Single)
  deriving DecidableEq

def named (run : Finmap (fun _ : String => φ)) : HandlerKey → Option φ
  | .str name => run.lookup name
  | .other _ => none

def Slots.single (s : Slots φ) : Single → Option φ
  | .idleBeat => s.idleBeat
  | .kill => s.kill
  | .log => s.log

def Slots.at (s : Slots φ) : Place → Option φ
  | .run key => named s.run key
  | .single slot => s.single slot

theorem Slots.ext_at {s s' : Slots φ} (h : s.at = s'.at) : s = s' := by
  have hrun : s.run = s'.run := Finmap.ext_lookup fun name => congrFun h (.run (.str name))
  have hidle : s.idleBeat = s'.idleBeat := congrFun h (.single .idleBeat)
  have hkill : s.kill = s'.kill := congrFun h (.single .kill)
  have hlog : s.log = s'.log := congrFun h (.single .log)
  cases s
  cases s'
  simp_all

def Batch.items (b : Batch φ) : List (HandlerKey × φ) :=
  match b.run with
  | some (.mapping items _) => items
  | _ => []

def Batch.single (b : Batch φ) : Single → Option φ
  | .idleBeat => b.idleBeat
  | .kill => b.kill
  | .log => b.log

def Batch.members (b : Batch φ) : List (Place × φ) :=
  b.items.map (fun item => (.run item.1,item.2)) ++
    [Single.idleBeat,.kill,.log].filterMap fun slot => (b.single slot).map (.single slot,·)

namespace Batch
variable {b : Batch φ}

theorem items_nodup (b : Batch φ) : (b.items.map Prod.fst).Nodup := by
  unfold items
  split
  · assumption
  · exact List.nodup_nil

@[simp] theorem run_mem_members {key : HandlerKey} {f : φ} :
    (.run key,f) ∈ b.members ↔ (key,f) ∈ b.items := by
  simp [members]

@[simp] theorem single_mem_members {slot : Single} {f : φ} :
    (.single slot,f) ∈ b.members ↔ b.single slot = some f := by
  cases slot <;> simp [members]

theorem members_nodup (b : Batch φ) : (b.members.map Prod.fst).Nodup := by
  unfold members
  rw [List.map_append, List.nodup_append]
  refine ⟨?_,?_,?_⟩
  · rw [List.map_map]
    have h : (b.items.map Prod.fst).map Place.run = b.items.map (Prod.fst ∘ fun item =>
        ((.run item.1,item.2) : Place × φ)) := by simp
    rw [← h]
    exact (b.items_nodup).map fun _ _ h => by cases h; rfl
  · cases h₁ : b.single .idleBeat <;> cases h₂ : b.single .kill <;> cases h₃ : b.single .log <;>
      simp [h₁, h₂, h₃]
  · intro x hx y hy
    obtain ⟨e,he,rfl⟩ := List.mem_map.mp hx
    obtain ⟨item,-,rfl⟩ := List.mem_map.mp he
    obtain ⟨e',he',rfl⟩ := List.mem_map.mp hy
    obtain ⟨slot,-,hslot⟩ := List.mem_filterMap.mp he'
    obtain ⟨f,-,rfl⟩ := Option.map_eq_some_iff.mp hslot
    simp

end Batch

end FlaskXxlJob.Callback
