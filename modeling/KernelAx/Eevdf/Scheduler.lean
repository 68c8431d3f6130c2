import KernelAx.Eevdf.Task
import KernelAx.Transaction

/-!
# EEVDF — The scheduler and its helpers

An operation works on one scheduler and, almost always, on one task. `Local` is what it sees: the
scheduler, the task in hand, the ledger the scheduler is bound to and the global counters. The
other tasks are there to be read only; the one operation that writes to several tasks, the
replenishment of throttled servers, is put together from steps on one task each.

A failed operation leaves behind what it wrote before it failed, as the source does.
-/

namespace KernelAx.Eevdf

open Transaction Op

/-- A run queue; `ι` names the tasks and `δ` the shared ledgers. -/
structure Scheduler (ι δ : Type) where
  readyTree : EevdfTree ReadyKey ι
  deadlineThrottled : EevdfTree ReadyKey ι
  running : Option ι
  clock : Clock
  id : Nat
  fairSequence : Int
  rtFrontSequence : Int
  rtBackSequence : Int
  deadlineNowNs : Nat
  deadlineUtilization : Nat
  deadlineDomain : Option δ
  deriving DecidableEq

def Scheduler.new {ι δ : Type} : Scheduler ι δ where
  readyTree := .new
  deadlineThrottled := .new
  running := none
  clock := .new 0
  id := unowned
  fairSequence := 0
  rtFrontSequence := 0
  rtBackSequence := 0
  deadlineNowNs := 0
  deadlineUtilization := 0
  deadlineDomain := none

/-- What an operation of one scheduler on one task sees. -/
structure Local (ι δ : Type) where
  self : Scheduler ι δ
  task : Task δ
  domain : DeadlineAdmissionDomain
  nextSchedulerId : Nat
  rrTimesliceTicks : Nat
  peers : ι → Task δ

abbrev SchedOp (ι δ α : Type) : Type := Op SchedulerError (Local ι δ) α

def modelError : ModelError → SchedulerError
  | .arithmeticExhausted => .arithmeticExhausted
  | .invalidWeight | .invalidState => .inconsistentState

def treeError : TreeError → SchedulerError
  | .alreadyLinked => .alreadyQueued
  | .duplicateKey | .foreignNode => .inconsistentState

/-- A checked calculation of the value model. -/
def model {ι δ α : Type} (x : Except ModelError α) : SchedOp ι δ α :=
  lift (x.mapError modelError)

variable {ι δ : Type}

def modifySelf (f : Scheduler ι δ → Scheduler ι δ) : SchedOp ι δ Unit :=
  modify fun l => { l with self := f l.self }

def modifyTask (f : Task δ → Task δ) : SchedOp ι δ Unit :=
  modify fun l => { l with task := f l.task }

def modifyState (f : OwnedState δ → OwnedState δ) : SchedOp ι δ Unit :=
  modifyTask fun t => { t with state := f t.state }

/-- A change of the task in hand that may be refused. -/
def updateTask (f : Task δ → Except SchedulerError (Task δ)) : SchedOp ι δ Unit := do
  let task ← lift (f (← read (·.task)))
  modifyTask fun _ => task

/-! ### Identity and sequences -/

def ensureId : SchedOp ι δ Nat := do
  let l ← read id
  if l.self.id = unowned then
    require (l.nextSchedulerId < maxU64) .identifierExhausted
    modify fun l => { l with
      self := { l.self with id := l.nextSchedulerId }
      nextSchedulerId := l.nextSchedulerId + 1 }
    pure l.nextSchedulerId
  else pure l.self.id

def nextFairSequence : SchedOp ι δ Int := do
  let sequence ← read (·.self.fairSequence)
  require (sequence + 1 ≤ maxI128) .sequenceExhausted
  modifySelf fun s => { s with fairSequence := s.fairSequence + 1 }
  pure sequence

def nextRtSequence (front : Bool) : SchedOp ι δ Int := do
  let s ← read (·.self)
  if front then
    require (minI128 ≤ s.rtFrontSequence - 1) .sequenceExhausted
    modifySelf fun s => { s with rtFrontSequence := s.rtFrontSequence - 1 }
    pure (s.rtFrontSequence - 1)
  else
    require (s.rtBackSequence + 1 ≤ maxI128) .sequenceExhausted
    modifySelf fun s => { s with rtBackSequence := s.rtBackSequence + 1 }
    pure s.rtBackSequence

def peekFairSequence : SchedOp ι δ Int := do
  let sequence ← read (·.self.fairSequence)
  require (sequence ≠ maxI128) .sequenceExhausted
  pure sequence

def peekRtSequence (front : Bool) : SchedOp ι δ Int := do
  let s ← read (·.self)
  if front then
    require (minI128 ≤ s.rtFrontSequence - 1) .sequenceExhausted
    pure (s.rtFrontSequence - 1)
  else
    require (s.rtBackSequence + 1 ≤ maxI128) .sequenceExhausted
    pure s.rtBackSequence

def commitFairSequence : SchedOp ι δ Unit :=
  modifySelf fun s => { s with fairSequence := min (s.fairSequence + 1) maxI128 }

def commitRtSequence (front : Bool) : SchedOp ι δ Unit :=
  modifySelf fun s =>
    if front then { s with rtFrontSequence := max (s.rtFrontSequence - 1) minI128 }
    else { s with rtBackSequence := min (s.rtBackSequence + 1) maxI128 }

/-! ### The admission ledgers -/

def DeadlineConfig.utilization (c : DeadlineConfig) : Except SchedulerError Nat :=
  if c.isValid then
    if c.runtimeNs * deadlineUtilScale + (c.periodNs - 1) ≤ maxU128 then
      .ok ((c.runtimeNs * deadlineUtilScale + (c.periodNs - 1)) / c.periodNs)
    else .error .arithmeticExhausted
  else .error .invalidParameters

/-- The utilization of an optional reservation. -/
def optionalUtilization : Option DeadlineConfig → Except SchedulerError Nat
  | none => .ok 0
  | some config => config.utilization

/-- `DeadlineAdmissionDomain::replace` on the ledger of the scheduler. -/
def replaceDomain (old new : Nat) : SchedOp ι δ Unit := do
  let l ← read id
  let domain ← lift (l.domain.replace old new)
  modify fun l => { l with domain := domain }

def admitDeadlineLocal (config : DeadlineConfig) : SchedOp ι δ Unit := do
  let util ← lift config.utilization
  let total ← read fun l => l.self.deadlineUtilization + util
  require (total ≤ maxU128) .arithmeticExhausted
  require (total ≤ deadlineUtilScale) .taskBusy
  modifySelf fun s => { s with deadlineUtilization := total }

def releaseDeadlineLocal (config : DeadlineConfig) : SchedOp ι δ Unit :=
  let util := match config.utilization with | .ok util => util | .error _ => 0
  modifySelf fun s => { s with deadlineUtilization := s.deadlineUtilization - util }

def admitDeadline (config : DeadlineConfig) : SchedOp ι δ Unit := do
  admitDeadlineLocal config
  let s ← read (·.self)
  if s.deadlineDomain.isSome then
    let util ← lift config.utilization
    match ← attempt (replaceDomain 0 util) with
    | .ok () => pure ()
    | .error error =>
      releaseDeadlineLocal config
      fail error
  else pure ()

def releaseDeadline (config : DeadlineConfig) : SchedOp ι δ Unit := do
  let util := match config.utilization with | .ok util => util | .error _ => 0
  let s ← read (·.self)
  if s.deadlineDomain.isSome then
    expect (replaceDomain util 0)
    releaseDeadlineLocal config
  else releaseDeadlineLocal config

def replaceDeadlineDomain (old new : Option DeadlineConfig) : SchedOp ι δ Unit := do
  let s ← read (·.self)
  if s.deadlineDomain.isSome then
    let old ← lift (optionalUtilization old)
    let new ← lift (optionalUtilization new)
    replaceDomain old new
  else pure ()

/-- The utilization after a replacement, which the caller publishes. -/
def replacedDeadlineUtilization (old new : Option DeadlineConfig) : SchedOp ι δ Nat := do
  let old ← lift (optionalUtilization old)
  let new ← lift (optionalUtilization new)
  let s ← read (·.self)
  require (old ≤ s.deadlineUtilization) .inconsistentState
  let total := s.deadlineUtilization - old + new
  require (total ≤ maxU128) .arithmeticExhausted
  require (total ≤ deadlineUtilScale) .taskBusy
  pure total

/-! ### Keys and trees -/

def deadlineClassRank : Nat := 0
def rtClassRank : Nat := 1
def fairClassRank : Nat := 2

def rtOrder (priority : Nat) : Nat := 255 - priority

def fairKey (entity : Entity) (sequence : Int) : Except ModelError (ReadyKey × Nat) := do
  let eligibleAt ← entity.eligibleAt
  .ok (⟨fairClassRank, biasI128 entity.request.deadline, sequence⟩, biasI128 eligibleAt)

def rtKey (params : TaskParams) (sequence : Int) : ReadyKey :=
  ⟨rtClassRank, rtOrder params.rtPriority, sequence⟩

def deadlineKey (absoluteNs : Nat) (sequence : Int) : ReadyKey :=
  ⟨deadlineClassRank, absoluteNs, sequence⟩

def throttledDeadlineKey (replenishNs : Nat) (sequence : Int) : ReadyKey :=
  ⟨deadlineClassRank, replenishNs, sequence⟩

def stageKey (key : ReadyKey) (eligibleAt : Nat) : SchedOp ι δ Unit :=
  modifyTask fun t => { t with key := key, eligibleAt := eligibleAt }

/-- The two trees of a scheduler. -/
inductive Queue
  | ready
  | throttled
  deriving DecidableEq

namespace Scheduler

def tree (s : Scheduler ι δ) : Queue → EevdfTree ReadyKey ι
  | .ready => s.readyTree
  | .throttled => s.deadlineThrottled

def setTree (s : Scheduler ι δ) (queue : Queue) (tree : EevdfTree ReadyKey ι) : Scheduler ι δ :=
  match queue with
  | .ready => { s with readyTree := tree }
  | .throttled => { s with deadlineThrottled := tree }

end Scheduler

/-- The tree a task is looked for in. -/
def queueOf (throttled : Bool) : Queue := if throttled then .throttled else .ready

section Trees

variable [DecidableEq ι]

/-- Links the node of the task in hand. -/
def insertNode (t : ι) (queue : Queue) : SchedOp ι δ Unit := do
  let l ← read id
  let tree ← lift (((l.self.tree queue).insert l.task.linked (l.task.entry t)).mapError treeError)
  modify fun l => { l with
    self := l.self.setTree queue tree
    task := { l.task with linked := true } }

/-- Unlinks the node of the task in hand. -/
def removeNode (t : ι) (queue : Queue) : SchedOp ι δ Unit := do
  let l ← read id
  let tree ← lift (((l.self.tree queue).remove l.task.linked l.task.key t).mapError treeError)
  modify fun l => { l with
    self := l.self.setTree queue tree
    task := { l.task with linked := false } }

def insertStaged (t : ι) (key : ReadyKey) (eligibleAt : Nat) (oldKey : ReadyKey)
    (oldEligibleAt : Nat) : SchedOp ι δ Unit := do
  stageKey key eligibleAt
  match ← attempt (insertNode t .ready) with
  | .ok () => pure ()
  | .error error =>
    stageKey oldKey oldEligibleAt
    fail error

end Trees

/-! ### Fair requests and runtime residues -/

def fairWeight (params : TaskParams) : Except SchedulerError Nat :=
  match weightFor params with
  | some weight => .ok weight
  | none => .error .invalidParameters

def fairRuntimeQuantum (runtimeNs periodNs : Nat) : Except SchedulerError Nat :=
  if periodNs = 0 then .error .invalidParameters
  else .ok (max (min (runtimeNs + (periodNs - 1)) maxU64 / periodNs) 1)

/-- The period with which an admission rebinds a custom fair runtime. -/
def defaultPeriodNs : Nat := 10000000

def rebindFairRuntime (entity : Entity) (runtimeNs totalWeight periodNs : Nat) :
    Except SchedulerError Entity :=
  if runtimeNs = 0 then (entity.rebindDefaultRequestQuantum totalWeight).mapError modelError
  else do
    let quantum ← fairRuntimeQuantum runtimeNs periodNs
    (entity.rebindRequestQuantum quantum).mapError modelError

def runtimeFractionWeight (params : TaskParams) : Except SchedulerError Nat :=
  if params.cls.isRt then .ok 0 else fairWeight params

/-- A residue is valid only under the class and weight that produced it. -/
def validateRuntimeFractionOwner (t : Task δ) : Except SchedulerError Unit :=
  if t.state.runtimeRemainderNs = 0 ∧ t.state.runtimeFractionRemainderNs = 0 then .ok ()
  else do
    let weight ← runtimeFractionWeight t.params
    if t.state.runtimeFractionClass ≠ t.params.cls ∨ t.state.runtimeFractionWeight ≠ weight ∨
        t.state.runtimeFractionPeriodNs = 0 then .error .inconsistentState
    else .ok ()

namespace OwnedState

def clearRuntimeFraction (s : OwnedState δ) : OwnedState δ :=
  { s with
    runtimeFractionRemainderNs := 0
    runtimeFractionPeriodNs := 0
    runtimeFractionClass := .normal
    runtimeFractionWeight := 0 }

def publishRuntimeFractionOwner (s : OwnedState δ) (params : TaskParams)
    (weight remainder periodNs : Nat) : OwnedState δ :=
  if remainder = 0 ∧ s.runtimeRemainderNs = 0 then s.clearRuntimeFraction
  else
    { s with
      runtimeFractionRemainderNs := remainder
      runtimeFractionPeriodNs := periodNs
      runtimeFractionClass := params.cls
      runtimeFractionWeight := weight }

/-- The fields that an admission and a removal reset. -/
def published (s : OwnedState δ) (entity : Option Entity) : OwnedState δ :=
  { s with
    entity := entity
    runtimeRemainderNs := 0
    runtimeFractionRemainderNs := 0
    runtimeFractionPeriodNs := 0
    runtimeFractionClass := .normal
    runtimeFractionWeight := 0
    rrFractionQ := 0
    migration := none
    dormantFair := none
    rtSleeping := false
    forkSeed := none
    sleepV := none }

/-- A fresh budget with its deadline and the next replenishment. -/
def withBudget (s : OwnedState δ) (remaining absolute replenish : Nat) : OwnedState δ :=
  { s with
    deadlineRemainingNs := remaining
    deadlineAbsoluteNs := absolute
    deadlineReplenishAtNs := replenish
    deadlineThrottled := false }

end OwnedState

/-- `checked_add` on the nanosecond clock. -/
def checkedAddNs (a b : Nat) : Except SchedulerError Nat :=
  if a + b ≤ maxU64 then .ok (a + b) else .error .arithmeticExhausted

/-- Budget and deadline are written before the replenishment instant is checked. -/
def initializeDeadlineState : SchedOp ι δ Unit := do
  let l ← read id
  let config := l.task.deadlineConfig
  require config.isValid .invalidParameters
  let absolute ← lift (checkedAddNs l.self.deadlineNowNs config.deadlineNs)
  modifyState fun s => { s with
    deadlineRemainingNs := config.runtimeNs, deadlineAbsoluteNs := absolute }
  let replenish ← lift (checkedAddNs l.self.deadlineNowNs config.periodNs)
  modifyState fun s => { s with deadlineReplenishAtNs := replenish, deadlineThrottled := false }

def resetRrSlice : SchedOp ι δ Unit :=
  modify fun l => { l with
    task := { l.task with
      rrRemaining := l.rrTimesliceTicks
      state := { l.task.state with rrFractionQ := 0 } } }

def releaseClaim : SchedOp ι δ Unit := do
  let s ← read (·.self)
  expect (updateTask (·.transferOwner s.id unowned))

/-- Releases the claim of the scheduler and fails. -/
def releaseAndFail {α : Type} (error : SchedulerError) : SchedOp ι δ α := do
  releaseClaim
  fail error

/-- Runs a fallible calculation; when it fails, the claim of the scheduler is released. -/
def orRelease {α : Type} (m : SchedOp ι δ α) : SchedOp ι δ α := do
  match ← attempt m with
  | .ok a => pure a
  | .error error => releaseAndFail error

/-! ### What waits in the ready tree -/

namespace Scheduler

def hasReadyRt (s : Scheduler ι δ) : Bool :=
  s.readyTree.front.any fun e => decide (e.key.classRank ≤ rtClassRank)

def hasHigherRt (s : Scheduler ι δ) (priority : Nat) : Bool :=
  s.readyTree.front.any fun e => decide (e.key.classRank = deadlineClassRank ∨
    e.key.classRank = rtClassRank ∧ e.key.order < rtOrder priority)

def hasSameRt (s : Scheduler ι δ) (priority : Nat) : Bool :=
  s.readyTree.front.any fun e => decide (e.key.classRank = rtClassRank ∧
    e.key.order = rtOrder priority)

def hasEarlierEligibleFair (s : Scheduler ι δ) (deadline : Int) : Bool :=
  (s.readyTree.peekEarliestEligible (biasI128 s.clock.v)).any fun e =>
    decide (e.key.classRank = fairClassRank ∧ e.key.order < biasI128 deadline)

end Scheduler

end KernelAx.Eevdf
