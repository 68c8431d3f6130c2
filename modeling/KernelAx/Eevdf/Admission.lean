import KernelAx.Eevdf.Scheduler

/-!
# EEVDF — Admission

A virgin task enters a scheduler in one of three ways: it is enqueued as new, it is reserved and
committed later, or it is adopted as the first current task.
-/

namespace KernelAx.Eevdf

open Transaction Op

variable {ι δ : Type}

/-- What an admission stages before it links the node. -/
structure Staged where
  nextClock : Clock
  entity : Option Entity
  key : ReadyKey
  eligibleAt : Nat

/-- The clock with the weight of a new fair task, and its entity. -/
def admittedFair (clock : Clock) (params : TaskParams) (forkSeed : Option ForkSeed) :
    Except SchedulerError (Clock × Entity) := do
  let weight ← fairWeight params
  let nextClock ← (clock.checkedAddWeight weight).mapError modelError
  match params.cls.fair with
  | none => .error .inconsistentState
  | some cls =>
    let entity ← (Entity.withLag cls weight nextClock.totalWeight nextClock.v
      (forkLagForClass forkSeed cls)).mapError modelError
    .ok (nextClock, entity)

/-- The same with the request rebound to the fair runtime of the task. -/
def admittedRequest (clock : Clock) (task : Task δ) : Except SchedulerError (Clock × Entity) := do
  let (nextClock, entity) ← admittedFair clock task.params task.state.forkSeed
  let entity ← rebindFairRuntime entity task.fairRuntimeNs nextClock.totalWeight defaultPeriodNs
  .ok (nextClock, entity)

/-- Admits a server to the ledgers and gives it its first budget. -/
def admitServer : SchedOp ι δ Unit := do
  let config ← read (·.task.deadlineConfig)
  admitDeadline config
  match ← attempt initializeDeadlineState with
  | .ok () => pure ()
  | .error error =>
    releaseDeadline config
    fail error

/-- Takes a server out of the ledgers when its admission fails later on. -/
def withdrawServer (params : TaskParams) : SchedOp ι δ Unit := do
  let config ← read (·.task.deadlineConfig)
  if params.cls.isDeadline then releaseDeadline config else pure ()

section New

variable [DecidableEq ι]

def stageNewRt (params : TaskParams) : SchedOp ι δ Staged := do
  (if params.cls.isDeadline then orRelease admitServer else pure ())
  let sequence ← (do
    match ← attempt (nextRtSequence false) with
    | .ok sequence => pure sequence
    | .error error =>
      withdrawServer params
      releaseAndFail error)
  let l ← read id
  let key := if params.cls.isDeadline then deadlineKey l.task.state.deadlineAbsoluteNs sequence
    else rtKey params sequence
  pure ⟨l.self.clock, none, key, 0⟩

def stageNewFair : SchedOp ι δ Staged := do
  let l ← read id
  let (nextClock, entity) ← orRelease (lift (admittedRequest l.self.clock l.task))
  let sequence ← orRelease nextFairSequence
  let (key, eligibleAt) ← orRelease (model (fairKey entity sequence))
  pure ⟨nextClock, some entity, key, eligibleAt⟩

def enqueueNew (t : ι) : SchedOp ι δ Unit := do
  let schedulerId ← ensureId
  updateTask (·.claim schedulerId)
  let task ← read (·.task)
  if ¬ task.isVirgin then releaseAndFail .alreadyQueued
  else if task.params.cls.isRt ∧ task.state.forkSeed.isSome then
    releaseAndFail .incompatibleClass
  else do
    let staged ← (if task.params.cls.isRt then stageNewRt task.params else stageNewFair)
    match ← attempt (insertStaged t staged.key staged.eligibleAt task.key 0) with
    | .error error =>
      withdrawServer task.params
      releaseAndFail error
    | .ok () =>
      modifyState (·.published staged.entity)
      (if task.params.cls = .roundRobin then resetRrSlice else pure ())
      modifySelf fun s => { s with clock := staged.nextClock }

/-! ### Reservations -/

/-- A reserved admission: the task is claimed and its sequence is taken. -/
structure TaskReservation (ι : Type) where
  task : ι
  schedulerId : Nat
  sequence : Int
  params : TaskParams
  deriving DecidableEq

def reserveNewTask (t : ι) : SchedOp ι δ (TaskReservation ι) := do
  let schedulerId ← ensureId
  updateTask (·.claimReservation)
  let params ← read (·.task.params)
  match ← attempt (if params.cls.isRt then nextRtSequence false else nextFairSequence) with
  | .ok sequence => pure ⟨t, schedulerId, sequence, params⟩
  | .error error =>
    expect (updateTask (·.transferOwner configuring unowned))
    fail error

def stageReserved (reservation : TaskReservation ι) : SchedOp ι δ Staged := do
  let l ← read id
  let params := reservation.params
  if params.cls.isRt then
    if params.cls.isDeadline then
      let config := l.task.deadlineConfig
      require config.isValid .invalidParameters
      let absolute ← lift (checkedAddNs l.self.deadlineNowNs config.deadlineNs)
      pure ⟨l.self.clock, none, deadlineKey absolute reservation.sequence, 0⟩
    else pure ⟨l.self.clock, none, rtKey params reservation.sequence, 0⟩
  else do
    let (nextClock, entity) ← lift (admittedRequest l.self.clock l.task)
    let (key, eligibleAt) ← model (fairKey entity reservation.sequence)
    pure ⟨nextClock, some entity, key, eligibleAt⟩

/-- Commits a reservation; when it fails, the reservation is still live. -/
def commitReservedTask (reservation : TaskReservation ι) : SchedOp ι δ Unit := do
  let l ← read id
  require (reservation.schedulerId = l.self.id ∧ l.self.id ≠ unowned) .foreignQueue
  require (l.task.owner = configuring ∧ l.task.params = reservation.params ∧ l.task.isVirgin)
    .inconsistentState
  let params := reservation.params
  require (¬ (params.cls.isRt ∧ l.task.state.forkSeed.isSome)) .incompatibleClass
  let staged ← stageReserved reservation
  (if params.cls.isDeadline then admitServer else pure ())
  let oldKey ← read (·.task.key)
  match ← attempt (insertStaged reservation.task staged.key staged.eligibleAt oldKey 0) with
  | .error error =>
    withdrawServer params
    (if params.cls.isDeadline then modifyState fun _ => l.task.state else pure ())
    fail error
  | .ok () =>
    (if params.cls = .roundRobin then resetRrSlice else pure ())
    modifyState (·.published staged.entity)
    let s ← read (·.self)
    expect (updateTask (·.transferOwner configuring s.id))
    modifySelf fun s => { s with clock := staged.nextClock }

/-! ### The first current task -/

def validateRunning (t : ι) : SchedOp ι δ Unit := do
  let l ← read id
  require (l.self.id ≠ unowned ∧ l.task.owner = l.self.id) .foreignQueue
  require (l.self.running = some t) .inconsistentState

/-- Adopts a virgin task as the current one. -/
def adoptRunning (t : ι) : SchedOp ι δ Unit := do
  let l ← read id
  require (l.task.owner = unowned)
    (if l.task.owner = l.self.id then .inconsistentState else .foreignQueue)
  let schedulerId ← ensureId
  updateTask (·.claim schedulerId)
  let task ← read (·.task)
  if ¬ task.isVirgin then releaseAndFail .inconsistentState
  else if task.params.cls.isRt ∧ task.state.forkSeed.isSome then
    releaseAndFail .incompatibleClass
  else do
    let clock ← read (·.self.clock)
    let (nextClock, entity) ← (
      if task.params.cls.isRt then do
        (if task.params.cls.isDeadline then orRelease admitServer else pure ())
        pure (clock, none)
      else do
        let (nextClock, entity) ←
          orRelease (lift (admittedFair clock task.params task.state.forkSeed))
        pure (nextClock, some entity))
    modifyState fun s => { s with
      entity := entity
      migration := none
      dormantFair := none
      rtSleeping := false
      forkSeed := none
      sleepV := none }
    (if task.params.cls = .roundRobin then resetRrSlice else pure ())
    modifySelf fun s => { s with clock := nextClock, running := some t }

def ensureRunning (t : ι) : SchedOp ι δ Unit := do
  let s ← read (·.self)
  if s.running.isSome then validateRunning t else adoptRunning t

end New

end KernelAx.Eevdf
