import Bindery.Generation.Report

/-!
Working on types with several workers at once. The workers share a counter: each takes the next
number from it, works on the type of that number and stores the outcome in the slot of that number,
until the numbers run out. A schedule says which worker moves next, so any order of their moves is
one.
-/

set_option autoImplicit false

namespace Bindery

inductive Worker (β : Type) where
  | idle
  | claimed (index : Nat)
  | computed (index : Nat) (value : β)
  | stopped
  deriving DecidableEq, Repr

def Worker.isStopped {β : Type} : Worker β → Bool
  | stopped => true
  | _ => false

structure Pool (β : Type) where
  /-- The counter that the workers share. -/
  next : Nat
  workers : List (Worker β)
  slots : List β
  /-- The numbers of the slots stored to so far, the latest first. -/
  stores : List Nat
  deriving DecidableEq, Repr

namespace Pool

/-- The number of workers for a number of types. Where no number is asked for, it is that of the
machine, or four where the machine does not know. The number asked for is compared as a word, so a
negative one means a worker for each type. -/
def width (hardware : UInt32) (jobs : Int) (types : Nat) : Int :=
  let wanted :=
    if jobs = 0 then
      if hardware.toInt32 = 0 then 4 else hardware.toInt32.toInt
    else jobs
  if types < (UInt64.ofInt wanted).toNat then (Int32.ofNat types).toInt else wanted

section
variable {α β : Type}

def start (workers : Nat) (slots : List β) : Pool β := ⟨0, List.replicate workers .idle, slots, []⟩

def finished (p : Pool β) : Bool := p.workers.all Worker.isStopped

/-- One move of a worker: it takes a number from the counter, or computes what belongs into the slot
of its number, or stores that. A worker that has stopped does not move. -/
def step? (process : α → β) (items : List α) (p : Pool β) (worker : Nat) : Option (Pool β) :=
  match p.workers[worker]? with
  | some .idle =>
    some { p with
      next := p.next + 1
      workers :=
        p.workers.set worker (if p.next < items.length then .claimed p.next else .stopped) }
  | some (.claimed index) =>
    items[index]?.map fun item =>
      { p with workers := p.workers.set worker (.computed index (process item)) }
  | some (.computed index value) =>
    some { p with
      workers := p.workers.set worker .idle
      slots := p.slots.set index value
      stores := index :: p.stores }
  | some .stopped => none
  | none => none

def run (process : α → β) (items : List α) (p : Pool β) (schedule : List Nat) : Option (Pool β) :=
  schedule.foldlM (step? process items) p

end

end Pool

def TypeOutcome.blank (t : TypeDef) : TypeOutcome := ⟨t, [], [], none⟩

def processPooled (hardware : UInt32) (schedule : List Nat) (r : Registry) (target : Target)
    (o : Options) (enabled : List TypeId) : Option (List TypeOutcome) :=
  let types := enabledTypes r enabled
  let width := Pool.width hardware o.jobs types.length
  if width ≤ 1 then some (processAll r target o enabled)
  else do
    let p ← (Pool.start width.toNat (types.map TypeOutcome.blank)).run
      (processType (contextOf r target o enabled)) types schedule
    if p.finished then some p.slots else none

/-- Runs the generator with as many workers as the options ask for. There is no report if the
schedule breaks off before all of them have stopped. -/
def generatePooled (hardware : UInt32) (schedule : List Nat) (r : Registry) (target : Target)
    (o : Options) : Option Report :=
  match o.problem? target with
  | some message => some (.failed message)
  | none =>
    let selection := (Availability.mk target.name o.features).select r
    (processPooled hardware schedule r target o selection.enabled).map fun outcomes =>
      assembleReport r target o selection (resolveCollisions outcomes)

end Bindery
