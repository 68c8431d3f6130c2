import KernelAx.Eevdf.Service

/-!
# EEVDF — Migration

A migration takes a task out of its scheduler, keeps everything needed to put it back in the task's
own record, and either commits it on another scheduler or rolls it back on its own. A token is a
capability for the task and carries no state. A parked migration is unowned; it can be resumed.
-/

namespace KernelAx.Eevdf

open Transaction Op

variable {ι δ : Type}

/-- What the source scheduler gives to the destination. -/
structure MigrationToken (ι : Type) where
  task : ι
  sourceSchedulerId : Nat
  origin : MigrationOrigin
  parked : Bool
  deriving DecidableEq

/-- The record of a migration that starts in this state. -/
def migrationRecord (l : Local ι δ) (snapshot : Option MigrationSnapshot) (detachedClock : Clock)
    (origin : MigrationOrigin) : MigrationState δ where
  sourceSchedulerId := l.self.id
  params := l.task.params
  snapshot := snapshot
  sourceClock := l.self.clock
  detachedClock := detachedClock
  sourceEntity := l.task.state.entity
  sourceKey := l.task.key
  sourceEligibleAt := l.task.eligibleAt
  rrRemaining := l.task.rrRemaining
  runtimeRemainderNs := l.task.state.runtimeRemainderNs
  runtimeFractionRemainderNs := l.task.state.runtimeFractionRemainderNs
  runtimeFractionPeriodNs := l.task.state.runtimeFractionPeriodNs
  runtimeFractionClass := l.task.state.runtimeFractionClass
  runtimeFractionWeight := l.task.state.runtimeFractionWeight
  rrFractionQ := l.task.state.rrFractionQ
  dormantFair := l.task.state.dormantFair
  deadlineRemainingNs := l.task.state.deadlineRemainingNs
  deadlineAbsoluteNs := l.task.state.deadlineAbsoluteNs
  deadlineReplenishAtNs := l.task.state.deadlineReplenishAtNs
  deadlineThrottled := l.task.state.deadlineThrottled
  deadlineDomain := l.self.deadlineDomain
  origin := origin

namespace OwnedState

def stageMigration (s : OwnedState δ) (migration : MigrationState δ) : OwnedState δ :=
  { s with
    entity := none
    runtimeRemainderNs := 0
    migration := some migration
    dormantFair := none
    rtSleeping := false
    sleepV := none }

/-- The state with which a migrated task is published again. -/
def landed (s : OwnedState δ) (m : MigrationState δ) (entity : Option Entity) (renewRr : Bool) :
    OwnedState δ :=
  { s with
    entity := entity
    runtimeRemainderNs := m.runtimeRemainderNs
    runtimeFractionRemainderNs := m.runtimeFractionRemainderNs
    runtimeFractionPeriodNs := m.runtimeFractionPeriodNs
    runtimeFractionClass := m.runtimeFractionClass
    runtimeFractionWeight := m.runtimeFractionWeight
    rrFractionQ := if renewRr then 0 else m.rrFractionQ
    dormantFair := m.dormantFair
    deadlineRemainingNs := m.deadlineRemainingNs
    deadlineAbsoluteNs := m.deadlineAbsoluteNs
    deadlineReplenishAtNs := m.deadlineReplenishAtNs
    deadlineThrottled := m.deadlineThrottled
    migration := none
    rtSleeping := false
    forkSeed := none
    sleepV := none }

end OwnedState

/-! ### Detaching -/

/-- The snapshot of a fair task and the clock without its weight. -/
def detach (clock : Clock) (entity : Option Entity) :
    Except ModelError (Option MigrationSnapshot × Clock) :=
  match entity with
  | none => .ok (none, clock)
  | some entity => do
    let snapshot ← entity.migrationSnapshot clock.v
    let detached ← clock.checkedSubWeight entity.weight
    .ok (some snapshot, detached)

/-- Gives up the reservation of a server; a shared ledger keeps it through the handoff. -/
def releaseForMigration (params : TaskParams) : SchedOp ι δ Unit := do
  let l ← read id
  if params.cls.isDeadline then
    if l.self.deadlineDomain.isSome then releaseDeadlineLocal l.task.deadlineConfig
    else releaseDeadline l.task.deadlineConfig
  else pure ()

variable [DecidableEq ι]

def beginReadyMigration (t : ι) : SchedOp ι δ (MigrationToken ι) := do
  let l ← read id
  require (l.self.id ≠ unowned ∧ l.task.owner = l.self.id) .foreignQueue
  require (l.self.running ≠ some t) .inconsistentState
  require (l.task.linked = true) .inconsistentState
  let (snapshot, detachedClock) ← model (detach l.self.clock l.task.state.entity)
  removeNode t (queueOf l.task.state.deadlineThrottled)
  expect (updateTask (·.transferOwner l.self.id configuring))
  modifyState (·.stageMigration (migrationRecord l snapshot detachedClock .ready))
  releaseForMigration l.task.params
  modifySelf fun s => { s with clock := detachedClock }
  pure ⟨t, l.self.id, .ready, false⟩

def beginRunningMigration (t : ι) : SchedOp ι δ (MigrationToken ι) := do
  ensureRunning t
  settleBeforeLifecycle t
  let l ← read id
  let (snapshot, detachedClock) ← model (detach l.self.clock l.task.state.entity)
  modifyState (·.stageMigration (migrationRecord l snapshot detachedClock .running))
  releaseForMigration l.task.params
  modifySelf fun s => { s with clock := detachedClock, running := none }
  expect (updateTask (·.transferOwner l.self.id configuring))
  pure ⟨t, l.self.id, .running, false⟩

/-- `EevdfMigration::park`; on failure the token is dropped, which changes nothing then. -/
def park : SchedOp ι δ Unit := updateTask (·.transferOwner configuring unowned)

/-- Dropping a token parks the migration if the task is still claimed. -/
def dropMigration : SchedOp ι δ Unit :=
  modifyTask fun t => if t.owner = configuring then { t with owner := unowned } else t

/-! ### Landing -/

def claimMigrationForCommit : SchedOp ι δ Unit := do
  let task ← read (·.task)
  if task.owner = configuring then pure ()
  else if task.owner = unowned then updateTask (·.claimMigration)
  else fail .foreignQueue

/-- Fails and keeps a parked migration parked. -/
def migrationError {α : Type} (token : MigrationToken ι) (error : SchedulerError) :
    SchedOp ι δ α := do
  (if token.parked then dropMigration else pure ())
  fail error

/-- Runs a preparation; when it fails, a parked migration stays parked. -/
def orMigrationError {α : Type} (token : MigrationToken ι) (m : SchedOp ι δ α) : SchedOp ι δ α := do
  match ← attempt m with
  | .ok a => pure a
  | .error error => migrationError token error

/-- The record a token refers to, once the task is claimed. -/
def claimRecord (token : MigrationToken ι) : SchedOp ι δ (MigrationState δ) :=
  orMigrationError token do
    claimMigrationForCommit
    let task ← read (·.task)
    match task.state.migration with
    | none => fail .inconsistentState
    | some m => do
      require (m.sourceSchedulerId = token.sourceSchedulerId ∧ m.origin = token.origin ∧
        task.params = m.params) .inconsistentState
      pure m

/-- The entity of a snapshot on this clock, with the clock that carries its weight. -/
def fromSnapshot (clock : Clock) (snapshot : MigrationSnapshot) :
    Except ModelError (Clock × Entity) := do
  let nextClock ← clock.checkedAddWeight snapshot.weight
  let entity ← Entity.fromMigration snapshot nextClock.v
  .ok (nextClock, entity)

/-- The destination must share the ledger that holds the reservation. -/
def requireDomain [DecidableEq δ] (m : MigrationState δ) (error : SchedulerError) :
    SchedOp ι δ Unit := do
  let s ← read (·.self)
  require (m.deadlineDomain.isNone ∨ s.deadlineDomain = m.deadlineDomain) error

def admitMigrated (m : MigrationState δ) : SchedOp ι δ Unit := do
  let config ← read (·.task.deadlineConfig)
  if m.params.cls.isDeadline then
    if m.deadlineDomain.isSome then admitDeadlineLocal config else admitDeadline config
  else pure ()

def withdrawMigrated (m : MigrationState δ) : SchedOp ι δ Unit := do
  let config ← read (·.task.deadlineConfig)
  if m.params.cls.isDeadline then
    if m.deadlineDomain.isSome then releaseDeadlineLocal config else releaseDeadline config
  else pure ()

/-- Links a server in the throttled tree until its replenishment. -/
def insertThrottled (t : ι) (replenishNs : Nat) (sequence : Int) : SchedOp ι δ Unit := do
  stageKey (throttledDeadlineKey replenishNs sequence) replenishNs
  insertNode t .throttled

def stageCommit (m : MigrationState δ) : SchedOp ι δ Staged := do
  let s ← read (·.self)
  match m.snapshot with
  | some snapshot => do
    let (nextClock, entity) ← model (fromSnapshot s.clock snapshot)
    let sequence ← peekFairSequence
    let (key, eligibleAt) ← model (fairKey entity sequence)
    pure ⟨nextClock, some entity, key, eligibleAt⟩
  | none => do
    let sequence ← peekRtSequence false
    pure ⟨s.clock, none, if m.params.cls.isDeadline then deadlineKey m.deadlineAbsoluteNs sequence
      else rtKey m.params sequence, 0⟩

def commitMigration [DecidableEq δ] (token : MigrationToken ι) : SchedOp ι δ Unit := do
  let t := token.task
  let s ← read (·.self)
  require (¬ (token.sourceSchedulerId = s.id ∧ s.id ≠ unowned)) .foreignQueue
  let m ← claimRecord token
  let destinationId ← orMigrationError token ensureId
  let staged ← orMigrationError token (stageCommit m)
  orMigrationError token (requireDomain m .foreignQueue)
  orMigrationError token (admitMigrated m)
  let inserted ← (
    if m.deadlineThrottled then do
      let sequence ← orMigrationError token (peekRtSequence false)
      attempt (insertThrottled t m.deadlineReplenishAtNs sequence)
    else attempt (insertStaged t staged.key staged.eligibleAt m.sourceKey m.sourceEligibleAt))
  match inserted with
  | .error error =>
    withdrawMigrated m
    migrationError token error
  | .ok () =>
    let renewRr := decide (m.params.cls = .roundRobin ∧ m.rrRemaining = 0)
    modify fun l => { l with
      task := { l.task with
        rrRemaining := if renewRr then l.rrTimesliceTicks else m.rrRemaining
        state := l.task.state.landed m staged.entity renewRr } }
    expect (updateTask (·.transferOwner configuring destinationId))
    modifySelf fun s => { s with clock := staged.nextClock }
    if staged.entity.isSome then commitFairSequence else commitRtSequence false

def resumeMigration (t : ι) : SchedOp ι δ (MigrationToken ι) := do
  let task ← read (·.task)
  require (task.owner = unowned)
    (if task.owner = configuring then .taskBusy else .foreignQueue)
  updateTask (·.claimMigration)
  match task.state.migration with
  | some m => pure ⟨t, m.sourceSchedulerId, m.origin, true⟩
  | none =>
    expect (updateTask (·.transferOwner configuring unowned))
    fail .inconsistentState

/-- What a rollback publishes: the recorded source state when its clock has not moved since. -/
def stageRollback (m : MigrationState δ) : SchedOp ι δ Staged := do
  let s ← read (·.self)
  if s.clock = m.detachedClock then
    pure ⟨m.sourceClock, m.sourceEntity, m.sourceKey, m.sourceEligibleAt⟩
  else
    match m.snapshot with
    | some snapshot => do
      let (nextClock, entity) ← model (fromSnapshot s.clock snapshot)
      let (key, eligibleAt) ← model (fairKey entity m.sourceKey.sequence)
      pure ⟨nextClock, some entity, key, eligibleAt⟩
    | none => pure ⟨s.clock, none, m.sourceKey, m.sourceEligibleAt⟩

def rollbackMigration [DecidableEq δ] (token : MigrationToken ι) : SchedOp ι δ Unit := do
  let t := token.task
  let s ← read (·.self)
  require (¬ (s.id = unowned ∨ token.sourceSchedulerId ≠ s.id)) .foreignQueue
  let m ← claimRecord token
  let staged ← orMigrationError token (stageRollback m)
  orMigrationError token (requireDomain m .inconsistentState)
  orMigrationError token (admitMigrated m)
  let inserted ← attempt (
    if m.deadlineThrottled then insertThrottled t m.deadlineReplenishAtNs m.sourceKey.sequence
    else insertStaged t staged.key staged.eligibleAt m.sourceKey m.sourceEligibleAt)
  match inserted with
  | .error error =>
    withdrawMigrated m
    migrationError token error
  | .ok () =>
    let renewRr := decide (m.params.cls = .roundRobin ∧ m.origin = .running ∧
      m.rrRemaining = 0)
    modify fun l => { l with
      task := { l.task with
        rrRemaining := if renewRr then l.rrTimesliceTicks else m.rrRemaining
        state := l.task.state.landed m staged.entity renewRr } }
    expect (updateTask (·.transferOwner configuring s.id))
    modifySelf fun s => { s with clock := staged.nextClock }

/-- Resumes a parked migration here; a token that fails is dropped. -/
def enqueueMigratedTask [DecidableEq δ] (t : ι) : SchedOp ι δ Unit := do
  let token ← resumeMigration t
  let s ← read (·.self)
  match ← attempt (if token.sourceSchedulerId = s.id then rollbackMigration token
      else commitMigration token) with
  | .ok () => pure ()
  | .error error =>
    dropMigration
    fail error

def removeTaskForMigration (t : ι) : SchedOp ι δ Unit := do
  let _ ← beginReadyMigration t
  park

end KernelAx.Eevdf
