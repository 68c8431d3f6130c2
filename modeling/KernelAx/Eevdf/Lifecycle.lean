import KernelAx.Eevdf.Migration

/-!
# EEVDF — Wakeup, requeueing, sleep and exit

The transitions of a task that has been admitted: it is put back in the tree it was picked from, it
goes to sleep and wakes up, it exits or is removed.
-/

namespace KernelAx.Eevdf

open Transaction Op

variable {ι δ : Type} [DecidableEq ι]

/-! ### Wakeup -/

structure StagedWakeup where
  nextClock : Clock
  entity : Option Entity
  dormantFair : Option Entity
  key : ReadyKey
  eligibleAt : Nat
  renewed : Option (Nat × Nat × Nat)
  throttle : Bool

/-- The clock and the entity of a fair task that wakes up. -/
def wakeEntity (clock : Clock) (params : TaskParams) (entity : Entity) :
    Except SchedulerError (Clock × Entity) := do
  let weight ← fairWeight params
  let nextClock ← (clock.checkedAddWeight weight).mapError modelError
  let next ← (entity.wakePreservingProgress clock.v).mapError modelError
  let next ← (if nextClock.v ≠ clock.v then next.activatePreservingProgress nextClock.v
    else .ok next).mapError modelError
  match params.cls.fair with
  | none => .error .incompatibleClass
  | some cls =>
    if next.cls ≠ cls ∨ next.weight ≠ weight then .error .inconsistentState
    else .ok (nextClock, next)

def stageFairWakeup (entity : Entity) : SchedOp ι δ StagedWakeup := do
  let l ← read id
  let (nextClock, next) ← orRelease (lift (wakeEntity l.self.clock l.task.params entity))
  let sequence ← orRelease nextFairSequence
  let (key, eligibleAt) ← orRelease (model (fairKey next sequence))
  pure ⟨nextClock, some next, l.task.state.dormantFair, key, eligibleAt, none, false⟩

/-- The fresh budget of a server that wakes up after its deadline or its replenishment. -/
def renewedBudget (now : Nat) (task : Task δ) : Except SchedulerError (Option (Nat × Nat × Nat)) :=
  let exhausted := task.state.deadlineRemainingNs = 0
  if exhausted ∧ task.state.deadlineReplenishAtNs ≤ now ∨
      ¬ exhausted ∧ task.state.deadlineAbsoluteNs ≤ now then do
    let absolute ← checkedAddNs now task.deadlineConfig.deadlineNs
    let replenish ← checkedAddNs now task.deadlineConfig.periodNs
    .ok (some (task.deadlineConfig.runtimeNs, absolute, replenish))
  else .ok none

/-- The eligibility point of every real-time wakeup is zero, that of a throttled server too. -/
def stageRtWakeup : SchedOp ι δ StagedWakeup := do
  let l ← read id
  let task := l.task
  let dormant ← orRelease (model (match task.state.dormantFair with
    | none => .ok none
    | some dormant => (dormant.endSleepFrozen l.self.clock.v).map some))
  let sequence ← orRelease (nextRtSequence false)
  if task.params.cls.isDeadline then do
    let renewed ← orRelease (lift (renewedBudget l.self.deadlineNowNs task))
    let throttle := decide (task.state.deadlineRemainingNs = 0 ∧ renewed = none)
    let absolute := match renewed with
      | some (_, absolute, _) => absolute
      | none => task.state.deadlineAbsoluteNs
    let key := if throttle then throttledDeadlineKey task.state.deadlineReplenishAtNs sequence
      else deadlineKey absolute sequence
    pure ⟨l.self.clock, none, dormant, key, 0, renewed, throttle⟩
  else pure ⟨l.self.clock, none, dormant, rtKey task.params sequence, 0, none, false⟩

def stageWakeup : SchedOp ι δ StagedWakeup := do
  let task ← read (·.task)
  match task.state.entity with
  | some entity =>
    if ¬ entity.isSleeping ∨ task.state.rtSleeping then releaseAndFail .inconsistentState
    else stageFairWakeup entity
  | none =>
    if task.params.cls.isRt ∧ task.state.rtSleeping then stageRtWakeup
    else releaseAndFail .inconsistentState

/-- The state a woken task is published with. -/
def OwnedState.woken (s : OwnedState δ) (staged : StagedWakeup) : OwnedState δ :=
  let s := { s with
    entity := staged.entity
    dormantFair := staged.dormantFair
    rtSleeping := false
    sleepV := none }
  match staged.renewed with
  | some (remaining, absolute, replenish) => s.withBudget remaining absolute replenish
  | none => if staged.throttle then { s with deadlineThrottled := true } else s

def enqueueWakeup (t : ι) : SchedOp ι δ Unit := do
  let schedulerId ← ensureId
  let owner ← read (·.task.owner)
  require (owner = unowned) (if owner = schedulerId then .alreadyQueued else .foreignQueue)
  updateTask (·.claim schedulerId)
  let l ← read id
  if l.task.state.migration.isSome then releaseAndFail .taskBusy
  else if l.self.running = some t ∨ l.task.linked then releaseAndFail .alreadyQueued
  else do
    let staged ← stageWakeup
    let old := l.task
    orRelease (if staged.throttle then do
        stageKey staged.key staged.eligibleAt
        match ← attempt (insertNode t .throttled) with
        | .ok () => pure ()
        | .error error =>
          stageKey old.key old.eligibleAt
          fail error
      else insertStaged t staged.key staged.eligibleAt old.key old.eligibleAt)
    modifyState (·.woken staged)
    (if old.params.cls = .roundRobin then resetRrSlice else pure ())
    modifySelf fun s => { s with clock := staged.nextClock }

/-! ### Requeueing -/

inductive RequeueReason
  | yield
  | preempt
  deriving DecidableEq

def requeuedEntity (reason : RequeueReason) (entity : Entity) (clock : Clock) :
    Except ModelError Entity :=
  match reason with
  | .yield => entity.yieldRequest clock.totalWeight clock.v
  | .preempt =>
    if entity.request.remaining = 0 then entity.renew clock.totalWeight clock.v
    else entity.preemptRequest

/-- Whether a real-time task goes to the front of its priority, and whether its slice is renewed. -/
def rtRequeue (reason : RequeueReason) (task : Task δ) : Bool × Bool :=
  match task.params.cls, reason with
  | .fifo, .preempt => (true, false)
  | .roundRobin, .yield => (false, true)
  | .roundRobin, .preempt => if 0 < task.rrRemaining then (true, false) else (false, true)
  | _, _ => (false, false)

def putServer (t : ι) : SchedOp ι δ Unit := do
  let task ← read (·.task)
  let sequence ← nextRtSequence false
  (if task.state.deadlineThrottled then
      insertThrottled t task.state.deadlineReplenishAtNs sequence
    else insertStaged t (deadlineKey task.state.deadlineAbsoluteNs sequence) 0 task.key
      task.eligibleAt)
  modifySelf fun s => { s with running := none }

/-- The entity, the key and the slice a requeued task is published with. -/
def stageRequeue (reason : RequeueReason) :
    SchedOp ι δ (Option Entity × ReadyKey × Nat × Bool) := do
  let l ← read id
  match l.task.state.entity with
  | some entity => do
    let next ← model (requeuedEntity reason entity l.self.clock)
    let sequence ← nextFairSequence
    let (key, eligibleAt) ← model (fairKey next sequence)
    pure (some next, key, eligibleAt, false)
  | none =>
    if l.task.params.cls.isRt then do
      let (front, resetRr) := rtRequeue reason l.task
      let sequence ← nextRtSequence front
      pure (none, rtKey l.task.params sequence, 0, resetRr)
    else fail .inconsistentState

def putRunning (t : ι) (reason : RequeueReason) : SchedOp ι δ Unit := do
  ensureRunning t
  settleBeforeLifecycle t
  let task ← read (·.task)
  if task.params.cls.isDeadline then putServer t
  else do
    let (entity, key, eligibleAt, resetRr) ← stageRequeue reason
    insertStaged t key eligibleAt task.key task.eligibleAt
    (if resetRr then resetRrSlice else pure ())
    modifyState fun s => { s with
      entity := entity, rtSleeping := false, migration := none, sleepV := none }
    modifySelf fun s => { s with running := none }

/-! ### Removal, sleep and exit -/

/-- Takes a task out of the tree. The budget fields of a server stay as they are. -/
def removeReady (t : ι) : SchedOp ι δ Bool := do
  let l ← read id
  if l.task.owner = unowned then pure false
  else do
    require (¬ (l.task.owner ≠ l.self.id ∨ l.self.id = unowned)) .foreignQueue
    require (l.self.running ≠ some t) .inconsistentState
    require (l.task.linked = true) .inconsistentState
    let nextClock ← (if l.task.state.entity.isSome then do
        let weight ← lift (fairWeight l.task.params)
        model (l.self.clock.checkedSubWeight weight)
      else pure l.self.clock)
    removeNode t (queueOf l.task.state.deadlineThrottled)
    (if l.task.params.cls.isDeadline then releaseDeadline l.task.deadlineConfig else pure ())
    modifySelf fun s => { s with clock := nextClock }
    modifyState (·.published none)
    expect (updateTask (·.transferOwner l.self.id unowned))
    pure true

def sleepRunning : SchedOp ι δ Unit := do
  let l ← read id
  if l.task.params.cls.isRt then do
    modifyState fun s => { s with rtSleeping := true, sleepV := some l.self.clock.v }
    modifySelf fun s => { s with running := none }
    updateTask (·.transferOwner l.self.id unowned)
  else do
    let weight ← lift (fairWeight l.task.params)
    match l.task.state.entity with
    | none => fail .inconsistentState
    | some entity => do
      let next ← model (entity.beginSleep l.self.clock.v)
      let nextClock ← model (l.self.clock.checkedSubWeight weight)
      modifyState fun s => { s with
        entity := some next, rtSleeping := false, sleepV := some l.self.clock.v }
      modifySelf fun s => { s with clock := nextClock, running := none }
      updateTask (·.transferOwner l.self.id unowned)

def exitRunning : SchedOp ι δ Unit := do
  let l ← read id
  (if l.task.params.cls.isDeadline then releaseDeadline l.task.deadlineConfig else pure ())
  let nextClock ← (if l.task.params.cls.isRt then pure l.self.clock
    else do
      let weight ← lift (fairWeight l.task.params)
      model (l.self.clock.checkedSubWeight weight))
  modifyState fun s => (s.published none).withBudget 0 0 0
  modifySelf fun s => { s with clock := nextClock, running := none }
  updateTask (·.transferOwner l.self.id unowned)

inductive DeactivateReason
  | sleep
  | exit
  | migrate
  deriving DecidableEq

/-- The lifecycle edges are infallible: what fails in them is a panic. -/
def deactivateTask (t : ι) (reason : DeactivateReason) : SchedOp ι δ Unit :=
  expect do
    ensureRunning t
    settleBeforeLifecycle t
    match reason with
    | .sleep => sleepRunning
    | .exit => exitRunning
    | .migrate => do
      let _ ← beginRunningMigration t
      park

/-! ### Replenishment of one server -/

/-- The throttled server at the front gets a fresh budget and becomes ready. -/
def replenishServer (t : ι) : SchedOp ι δ Unit :=
  expect do
    removeNode t .throttled
    let l ← read id
    let config := l.task.deadlineConfig
    require config.isValid .inconsistentState
    let absolute ← lift (checkedAddNs l.self.deadlineNowNs config.deadlineNs)
    let replenish ← lift (checkedAddNs l.self.deadlineNowNs config.periodNs)
    let sequence ← nextRtSequence false
    modifyState (·.withBudget config.runtimeNs absolute replenish)
    stageKey (deadlineKey absolute sequence) 0
    insertNode t .ready

/-! ### Picking -/

/-- The picked node leaves the ready tree and its task becomes the current one. -/
def pickTask (t : ι) (queue : EevdfTree ReadyKey ι) : SchedOp ι δ Unit := do
  let l ← read id
  modify fun l => { l with
    self := { l.self with readyTree := queue }, task := { l.task with linked := false } }
  expect (updateTask (·.transferOwner l.self.id l.self.id))
  modifySelf fun s => { s with running := some t }

/-! ### Samples of the current task -/

def tickTask : SchedOp ι δ Bool := do
  let cls ← read (·.task.params.cls)
  if cls.isDeadline then accountDeadlineRuntime 1
  else if cls.isRt then rrServiceTransaction 1 0
  else fairServiceTransaction 1 0

/-- The current task is charged a sample; the deadline clock has been advanced before. -/
def accountTask (delta : RuntimeDelta) : SchedOp ι δ Bool := do
  let cls ← read (·.task.params.cls)
  if cls.isDeadline then accountDeadlineRuntime delta.elapsedNs else accountPeriods delta

end KernelAx.Eevdf
