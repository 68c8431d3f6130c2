import KernelAx.Eevdf.Model
import KernelAx.Eevdf.Tree
import Mathlib.Data.Prod.Lex

/-!
# EEVDF — Tasks

A task carries its published parameters, an owner word, its node in a scheduler's tree and a state
slot that only the holder of the owner word may touch. The owner word is `unowned`, `configuring`
while a transaction or a token claims the task, or the identifier of a scheduler.

Published parameters are kept unpacked: only validated tuples are published, and unpacking returns
them. The caller's own value inside a task plays no role and is left out.
-/

namespace KernelAx.Eevdf

inductive SchedulerError
  | alreadyQueued
  | foreignQueue
  | identifierExhausted
  | sequenceExhausted
  | arithmeticExhausted
  | taskBusy
  | invalidParameters
  | incompatibleClass
  | inconsistentState
  deriving DecidableEq, Repr

/-! ### Parameters -/

def fairRuntimeMinNs : Nat := 100000
def fairRuntimeMaxNs : Nat := 100000000

def clampFairRuntimeNs (runtimeNs : Nat) : Nat :=
  if runtimeNs = 0 then 0
  else if runtimeNs < fairRuntimeMinNs then fairRuntimeMinNs
  else if fairRuntimeMaxNs < runtimeNs then fairRuntimeMaxNs
  else runtimeNs

def nice2weightPos : List Nat :=
  [1024, 820, 655, 526, 423, 335, 272, 215, 172, 137, 110, 87, 70, 56, 45, 36, 29, 23, 18, 15]

def nice2weightNeg : List Nat :=
  [1024, 1277, 1586, 1991, 2501, 3121, 3906, 4904, 6100, 7620, 9548, 11916, 14949, 18705, 23254,
    29154, 36291, 46273, 56483, 71755, 88761]

inductive TaskClass
  | normal
  | batch
  | idle
  | roundRobin
  | fifo
  | deadline
  deriving DecidableEq, Repr

def TaskClass.isRt : TaskClass → Bool
  | .roundRobin | .fifo | .deadline => true
  | .normal | .batch | .idle => false

def TaskClass.isDeadline : TaskClass → Bool
  | .deadline => true
  | .normal | .batch | .idle | .roundRobin | .fifo => false

def TaskClass.fair : TaskClass → Option RequestClass
  | .normal => some .normal
  | .batch => some .batch
  | .idle => some .idle
  | .roundRobin | .fifo | .deadline => none

structure TaskParams where
  cls : TaskClass
  nice : Int
  rtPriority : Nat
  deriving DecidableEq, Repr

namespace TaskParams

def default : TaskParams := ⟨.normal, 0, 0⟩

/-- The tuple with the components of the other classes cleared, if it is in range. -/
def validated (p : TaskParams) : Option TaskParams :=
  match p.cls with
  | .idle => some ⟨.idle, 19, 0⟩
  | .normal | .batch =>
    if -20 ≤ p.nice ∧ p.nice ≤ 19 then some { p with rtPriority := 0 } else none
  | .roundRobin | .fifo =>
    if 1 ≤ p.rtPriority ∧ p.rtPriority ≤ 255 then some { p with nice := 0 } else none
  | .deadline => if p.rtPriority = 0 then some { p with nice := 0 } else none

end TaskParams

def weightForNice (nice : Int) : Option Nat :=
  if -20 ≤ nice ∧ nice ≤ 19 then
    if 0 ≤ nice then nice2weightPos[nice.toNat]? else nice2weightNeg[(-nice).toNat]?
  else none

def weightFor (params : TaskParams) : Option Nat := do
  let params ← params.validated
  match params.cls with
  | .idle => weightForNice 19
  | .normal | .batch => weightForNice params.nice
  | .roundRobin | .fifo | .deadline => weightForNice 0

/-- One reservation of `runtimeNs` every `periodNs`. -/
structure DeadlineConfig where
  runtimeNs : Nat
  deadlineNs : Nat
  periodNs : Nat
  deriving DecidableEq, Repr

def DeadlineConfig.isValid (c : DeadlineConfig) : Bool :=
  c.runtimeNs ≠ 0 ∧ c.runtimeNs ≤ c.deadlineNs ∧ c.deadlineNs ≤ c.periodNs

/-! ### The shared admission ledger -/

def deadlineUtilScale : Nat := 1000000000

/-- The bandwidth that deadline tasks have reserved. -/
structure DeadlineAdmissionDomain where
  utilization : Nat
  capacity : Nat
  deriving DecidableEq, Repr

namespace DeadlineAdmissionDomain

def new : DeadlineAdmissionDomain := ⟨0, deadlineUtilScale⟩

def replace (d : DeadlineAdmissionDomain) (old new : Nat) :
    Except SchedulerError DeadlineAdmissionDomain :=
  if maxU64 < old ∨ maxU64 < new then .error .arithmeticExhausted
  else if d.utilization < old then .error .inconsistentState
  else if maxU64 < d.utilization - old + new then .error .arithmeticExhausted
  else if d.capacity < d.utilization - old + new then .error .taskBusy
  else .ok { d with utilization := d.utilization - old + new }

end DeadlineAdmissionDomain

/-! ### Keys -/

/-- The order of a ready task: its class, then its place within the class. -/
structure ReadyKey where
  classRank : Nat
  order : Nat
  sequence : Int
  deriving DecidableEq, Repr

namespace ReadyKey

def toProd (k : ReadyKey) : Nat ×ₗ Nat ×ₗ Int := toLex (k.classRank, toLex (k.order, k.sequence))

theorem toProd_injective : Function.Injective toProd := by
  intro a b h
  cases a
  cases b
  simp only [toProd, toLex_inj, Prod.mk.injEq] at h
  obtain ⟨rfl, rfl, rfl⟩ := h
  rfl

instance : LinearOrder ReadyKey := LinearOrder.lift' toProd toProd_injective

end ReadyKey

/-- What a child takes from its parent when it is admitted. -/
structure ForkSeed where
  cls : RequestClass
  lag : Int
  deriving DecidableEq, Repr

/-- The lag of a fork seed, rebounded at the class of the child. -/
def forkLagForClass (seed : Option ForkSeed) (childClass : RequestClass) : Int :=
  match seed with
  | none => 0
  | some seed => max (-creditCap childClass) (min seed.lag (creditCap childClass))

/-! ### Scheduler-owned state -/

inductive MigrationOrigin
  | ready
  | running
  deriving DecidableEq, Repr

/-- What a migration in flight keeps of its source; `δ` names the shared ledgers. -/
structure MigrationState (δ : Type) where
  sourceSchedulerId : Nat
  params : TaskParams
  snapshot : Option MigrationSnapshot
  sourceClock : Clock
  detachedClock : Clock
  sourceEntity : Option Entity
  sourceKey : ReadyKey
  sourceEligibleAt : Nat
  rrRemaining : Nat
  runtimeRemainderNs : Nat
  runtimeFractionRemainderNs : Nat
  runtimeFractionPeriodNs : Nat
  runtimeFractionClass : TaskClass
  runtimeFractionWeight : Nat
  rrFractionQ : Nat
  dormantFair : Option Entity
  deadlineRemainingNs : Nat
  deadlineAbsoluteNs : Nat
  deadlineReplenishAtNs : Nat
  deadlineThrottled : Bool
  deadlineDomain : Option δ
  origin : MigrationOrigin
  deriving DecidableEq

/-- The part of a task that its scheduler owns. -/
structure OwnedState (δ : Type) where
  entity : Option Entity
  runtimeRemainderNs : Nat
  runtimeFractionRemainderNs : Nat
  runtimeFractionPeriodNs : Nat
  runtimeFractionClass : TaskClass
  runtimeFractionWeight : Nat
  rrFractionQ : Nat
  migration : Option (MigrationState δ)
  dormantFair : Option Entity
  rtSleeping : Bool
  forkSeed : Option ForkSeed
  sleepV : Option Int
  deadlineRemainingNs : Nat
  deadlineAbsoluteNs : Nat
  deadlineReplenishAtNs : Nat
  deadlineThrottled : Bool
  deriving DecidableEq

/-- The state of a task that was never admitted. -/
def OwnedState.initial {δ : Type} : OwnedState δ where
  entity := none
  runtimeRemainderNs := 0
  runtimeFractionRemainderNs := 0
  runtimeFractionPeriodNs := 0
  runtimeFractionClass := .normal
  runtimeFractionWeight := 0
  rrFractionQ := 0
  migration := none
  dormantFair := none
  rtSleeping := false
  forkSeed := none
  sleepV := none
  deadlineRemainingNs := 0
  deadlineAbsoluteNs := 0
  deadlineReplenishAtNs := 0
  deadlineThrottled := false

def unowned : Nat := 0

def configuring : Nat := maxU64

/-- A task with its node: `linked` says that the node hangs in some tree. -/
structure Task (δ : Type) where
  params : TaskParams
  fairRuntimeNs : Nat
  deadlineConfig : DeadlineConfig
  owner : Nat
  rrRemaining : Nat
  key : ReadyKey
  eligibleAt : Nat
  linked : Bool
  state : OwnedState δ
  deriving DecidableEq

namespace Task

variable {δ : Type}

def new : Task δ where
  params := .default
  fairRuntimeNs := 0
  deadlineConfig := ⟨0, 0, 0⟩
  owner := unowned
  rrRemaining := 0
  key := ⟨1, 0, 0⟩
  eligibleAt := 0
  linked := false
  state := .initial

def isVirgin (t : Task δ) : Bool :=
  t.state.entity.isNone && t.state.migration.isNone && t.state.dormantFair.isNone &&
    !t.state.rtSleeping

/-- The node of the task, as a tree holds it. -/
def entry {ι : Type} (t : Task δ) (id : ι) : Entry ReadyKey ι := ⟨t.key, t.eligibleAt, id⟩

/-! ### Claims on the owner word -/

def claim (t : Task δ) (owner : Nat) : Except SchedulerError (Task δ) :=
  if owner = unowned ∨ owner = configuring then .error .inconsistentState
  else if t.owner = unowned then .ok { t with owner := owner }
  else if t.owner = owner then .error .alreadyQueued
  else if t.owner = configuring then .error .taskBusy
  else .error .foreignQueue

def transferOwner (t : Task δ) (source target : Nat) : Except SchedulerError (Task δ) :=
  if t.owner = source then .ok { t with owner := target } else .error .inconsistentState

/-- The claim of a configuration transaction; a claim that is refused changes nothing. -/
def claimReconfiguration (t : Task δ) : Except SchedulerError (Task δ) :=
  if t.owner = unowned then .ok { t with owner := configuring }
  else if t.owner = configuring then .error .taskBusy
  else .error .alreadyQueued

def claimMigration (t : Task δ) : Except SchedulerError (Task δ) := do
  let claimed ← t.claimReconfiguration
  if claimed.state.migration.isSome then .ok claimed else .error .inconsistentState

def claimConfiguration (t : Task δ) : Except SchedulerError (Task δ) := do
  let claimed ← t.claimReconfiguration
  if claimed.isVirgin then .ok claimed else .error .alreadyQueued

def claimReservation (t : Task δ) : Except SchedulerError (Task δ) := t.claimConfiguration

/-- The end of a configuration transaction. -/
def finish (t : Task δ) : Except SchedulerError (Task δ) := t.transferOwner configuring unowned

/-! ### Configuration of virgin tasks -/

/-- `apply_validated`, with the slice that round-robin tasks get. -/
def applyValidated (t : Task δ) (params : TaskParams) (rrTimesliceTicks : Nat) : Task δ :=
  { t with
    params := params
    rrRemaining := if params.cls = .roundRobin then rrTimesliceTicks else 0 }

def configure (t : Task δ) (params : TaskParams) (rrTimesliceTicks : Nat) :
    Except SchedulerError (Task δ) :=
  match params.validated with
  | none => .error .invalidParameters
  | some params => do
    let claimed ← t.claimConfiguration
    (claimed.applyValidated params rrTimesliceTicks).finish

def configureDeadline (t : Task δ) (config : DeadlineConfig) : Except SchedulerError (Task δ) :=
  if config.isValid then do
    let claimed ← t.claimConfiguration
    finish { claimed with deadlineConfig := config }
  else .error .invalidParameters

def configureFairRuntimeNs (t : Task δ) (runtimeNs : Nat) : Except SchedulerError (Task δ) := do
  let claimed ← t.claimConfiguration
  if clampFairRuntimeNs runtimeNs ≠ 0 ∧ claimed.params.cls ≠ .normal ∧
      claimed.params.cls ≠ .batch then .error .invalidParameters
  else finish { claimed with fairRuntimeNs := clampFairRuntimeNs runtimeNs }

def installForkSeed (t : Task δ) (seed : ForkSeed) : Except SchedulerError (Task δ) := do
  let claimed ← t.claimConfiguration
  if claimed.state.forkSeed.isSome then .error .alreadyQueued
  else finish { claimed with state := { claimed.state with forkSeed := some seed } }

end Task

end KernelAx.Eevdf
