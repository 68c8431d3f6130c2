import KernelAx.Eevdf.Task

/-!
# CFS — tasks

A `CFSTask`: its parameters, its virtual runtime, its round-robin budget, the key under which it is
linked into a ready queue, and the word that says which scheduler owns it. `isize` arithmetic
saturates where the source says so.
-/

namespace KernelAx.Cfs

open Eevdf (SchedulerError)

/-- `isize::MAX`. -/
def isizeMax : Int := 2 ^ 63 - 1

/-- `isize::MIN`. -/
def isizeMin : Int := -2 ^ 63

/-- The result of a saturating operation. -/
def saturate (x : Int) : Int := max isizeMin (min isizeMax x)

/-- `usize as isize`. -/
def asIsize (x : Nat) : Int := if (x : Int) ≤ isizeMax then x else x - 2 ^ 64

def unowned : Nat := 0

/-- `usize::MAX`. -/
def configuring : Nat := 2 ^ 64 - 1

def rtPriorityMin : Nat := 1
def rtPriorityMax : Nat := 255
def niceRangePos : Int := 19
def fairPreemptGranularityTicks : Int := 2

inductive CfsTaskClass where
  | normal
  | batch
  | idle
  | roundRobin
  | fifo
  deriving DecidableEq, Repr

structure CfsTaskParams where
  «class» : CfsTaskClass
  nice : Int
  rtPriority : Nat
  deriving DecidableEq, Repr

namespace CfsTaskParams

def default : CfsTaskParams := ⟨.normal, 0, 0⟩

def isRealtime (params : CfsTaskParams) : Bool :=
  match params.class with
  | .roundRobin | .fifo => true
  | .normal | .batch | .idle => false

def validated (params : CfsTaskParams) : Option CfsTaskParams :=
  let params := match params.class with
    | .idle => { params with nice := niceRangePos, rtPriority := 0 }
    | .normal | .batch => { params with rtPriority := 0 }
    | .roundRobin | .fifo => { params with nice := 0 }
  let valid := match params.class with
    | .roundRobin | .fifo =>
      decide (rtPriorityMin ≤ params.rtPriority ∧ params.rtPriority ≤ rtPriorityMax)
    | .normal | .batch | .idle => decide (-20 ≤ params.nice ∧ params.nice ≤ 19)
  if valid then some params else none

end CfsTaskParams

def nice2WeightPos : List Int :=
  [1024, 820, 655, 526, 423, 335, 272, 215, 172, 137, 110, 87, 70, 56, 45, 36, 29, 23, 18, 15]

def nice2WeightNeg : List Int :=
  [1024, 1277, 1586, 1991, 2501, 3121, 3906, 4904, 6100, 7620, 9548, 11916, 14949, 18705, 23254,
    29154, 36291, 46273, 56483, 71755, 88761]

/-- Class, order and sequence, compared in this order. -/
abbrev ReadyKey := Nat ×ₗ Int ×ₗ Int

/-- A task as the scheduler sees it; `ready_*` is its key in the queue. -/
structure CfsTask where
  params : CfsTaskParams
  readyClass : Nat
  readyOrder : Int
  /-- `id`. -/
  sequence : Int
  initVruntime : Int
  delta : Int
  seededVruntime : Bool
  rrTimeSlice : Int
  migrationVruntimeOffset : Int
  migrationVruntimeOffsetValid : Bool
  queueOwner : Nat

namespace CfsTask

def new : CfsTask := ⟨.default, 1, 0, 0, 0, 0, false, 5, 0, false, unowned⟩

def claim (task : CfsTask) (schedulerId : Nat) : Except SchedulerError CfsTask :=
  if task.queueOwner = unowned then .ok { task with queueOwner := schedulerId }
  else if task.queueOwner = schedulerId then .error .alreadyQueued
  else if task.queueOwner = configuring then .error .taskBusy
  else .error .foreignQueue

def effectiveNice (params : CfsTaskParams) : Int :=
  match params.class with
  | .idle => niceRangePos
  | .normal | .batch => params.nice
  | .roundRobin | .fifo => 0

def weightFor (params : CfsTaskParams) : Int :=
  let nice := effectiveNice params
  if 0 ≤ nice then nice2WeightPos.getD nice.toNat 0 else nice2WeightNeg.getD (-nice).toNat 0

def getVruntimeWith (task : CfsTask) (params : CfsTaskParams) : Int :=
  let weight := weightFor params
  if weight = 1024 then saturate (task.initVruntime + task.delta)
  else saturate (task.initVruntime + (saturate (task.delta * 1024)).tdiv weight)

def rebaseVruntime (task : CfsTask) (v : Int) : CfsTask :=
  { task with initVruntime := v, delta := 0 }

def clearMigrationVruntimeOffset (task : CfsTask) : CfsTask :=
  { task with migrationVruntimeOffsetValid := false }

def stageMigrationVruntimeOffset (task : CfsTask) (sourceFloor : Int) : CfsTask :=
  if task.params.isRealtime then task.clearMigrationVruntimeOffset
  else
    { task with
      migrationVruntimeOffset := saturate (task.getVruntimeWith task.params - sourceFloor)
      migrationVruntimeOffsetValid := true }

def takeMigrationVruntime (task : CfsTask) (destinationFloor : Int) : Int × CfsTask :=
  (if task.migrationVruntimeOffsetValid then
      saturate (destinationFloor + task.migrationVruntimeOffset)
    else max (task.getVruntimeWith task.params) destinationFloor,
    task.clearMigrationVruntimeOffset)

def resetRrTimeSlice (task : CfsTask) (rrTimesliceTicks : Nat) : CfsTask :=
  { task with rrTimeSlice := asIsize rrTimesliceTicks }

/-- The slice before the tick, and the task after it. -/
def taskTickRr (task : CfsTask) : Int × CfsTask :=
  (task.rrTimeSlice, { task with rrTimeSlice := saturate (task.rrTimeSlice - 1) })

def taskTick (task : CfsTask) : CfsTask := { task with delta := saturate (task.delta + 1) }

/-- `set_sched_params`, `apply_validated`. -/
def setSchedParams (task : CfsTask) (rrTimesliceTicks : Nat) (params : CfsTaskParams) : CfsTask :=
  let task := task.rebaseVruntime (task.getVruntimeWith task.params)
  let task := if params.isRealtime then task.resetRrTimeSlice rrTimesliceTicks
    else { task with rrTimeSlice := 0 }
  { task with params }

def stageReadyKey (task : CfsTask) («class» : Nat) (order sequence : Int) : CfsTask :=
  { task with readyClass := «class», readyOrder := order, sequence }

def readyKey (task : CfsTask) : ReadyKey :=
  toLex (task.readyClass, toLex (task.readyOrder, task.sequence))

def readyIsRt (task : CfsTask) : Bool := decide (task.readyClass = 0)

/-- The fields of `CfsTaskStateSnapshot` are put back. -/
def restoreReconfigurationState (task snapshot : CfsTask) : CfsTask :=
  { task with
    params := snapshot.params
    readyClass := snapshot.readyClass
    readyOrder := snapshot.readyOrder
    sequence := snapshot.sequence
    initVruntime := snapshot.initVruntime
    delta := snapshot.delta
    seededVruntime := snapshot.seededVruntime
    rrTimeSlice := snapshot.rrTimeSlice }

/-- `configure`; the claim of the configuration is given up again in any case. -/
def configure (task : CfsTask) (rrTimesliceTicks : Nat) (params : CfsTaskParams) :
    Except SchedulerError Unit × CfsTask :=
  match params.validated with
  | none => (.error .invalidParameters, task)
  | some params =>
    if task.queueOwner = unowned then (.ok (), task.setSchedParams rrTimesliceTicks params)
    else if task.queueOwner = configuring then (.error .taskBusy, task)
    else (.error .alreadyQueued, task)

def configureNice (task : CfsTask) (rrTimesliceTicks : Nat) (nice : Int) :
    Except SchedulerError Unit × CfsTask :=
  if task.queueOwner = unowned then
    if task.params.isRealtime then (.error .incompatibleClass, task)
    else
      match (⟨task.params.class, nice, 0⟩ : CfsTaskParams).validated with
      -- not for a nice value that was checked
      | none => (.error .invalidParameters, task)
      | some params => (.ok (), task.setSchedParams rrTimesliceTicks params)
  else if task.queueOwner = configuring then (.error .taskBusy, task)
  else (.error .alreadyQueued, task)

def inheritFairVruntimeFrom (task parent : CfsTask) : Except SchedulerError Unit × CfsTask :=
  if task.queueOwner = unowned then
    if task.params.isRealtime || parent.params.isRealtime then (.error .incompatibleClass, task)
    else
      (.ok (), { task.rebaseVruntime
          (saturate (parent.getVruntimeWith parent.params + fairPreemptGranularityTicks)) with
        seededVruntime := true })
  else if task.queueOwner = configuring then (.error .taskBusy, task)
  else (.error .alreadyQueued, task)

end CfsTask

def rtPriorityKey (priority : Nat) : Int := rtPriorityMax - priority

end KernelAx.Cfs
