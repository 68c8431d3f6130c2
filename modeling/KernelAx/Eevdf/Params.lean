import KernelAx.Eevdf.Service

/-!
# EEVDF — Parameter updates

A scheduling tuple, a reservation or a fair runtime may change while the task is virgin, asleep,
ready, throttled or running. The fallible calculations come first; where the source writes before a
calculation that can still fail, so do the definitions here.
-/

namespace KernelAx.Eevdf

open Transaction Op

variable {ι δ : Type}

/-- Whether an update asks for the current task to be preempted. -/
inductive ParamUpdate (ι : Type)
  | noPreemption
  | preemptCurrent (task : ι)
  deriving DecidableEq

/-! ### Fair state across a change of parameters -/

/-- The fair and the dormant entity of an awake task under new parameters. -/
def activeReconfiguredState (state : OwnedState δ) (oldParams newParams : TaskParams)
    (nextTotalWeight : Nat) (clockV : Int) (fairRuntimeNs : Nat) :
    Except SchedulerError (Option Entity × Option Entity) :=
  if oldParams.cls.isRt then
    match newParams.cls.fair with
    | none => .ok (none, state.dormantFair)
    | some cls => do
      let weight ← fairWeight newParams
      let entity ← (match state.dormantFair with
        | some dormant => dormant.reconfigureFrozen cls weight nextTotalWeight clockV
        | none => Entity.new cls weight nextTotalWeight clockV).mapError modelError
      let entity ← rebindFairRuntime entity fairRuntimeNs nextTotalWeight defaultPeriodNs
      .ok (some entity, none)
  else
    match state.entity with
    | none => .error .inconsistentState
    | some entity =>
      if entity.isSleeping then .error .inconsistentState
      else
        match newParams.cls.fair with
        | some cls => do
          let weight ← fairWeight newParams
          let entity ←
            (entity.reconfigure cls weight nextTotalWeight clockV).mapError modelError
          let entity ← rebindFairRuntime entity fairRuntimeNs nextTotalWeight defaultPeriodNs
          .ok (some entity, none)
        | none => do
          let dormant ← (entity.freezeAt clockV).mapError modelError
          .ok (none, some dormant)

/-- The entity of a sleeper that leaves a real-time class. -/
def sleepingFromRt (dormant : Option Entity) (cls : RequestClass) (weight totalWeight : Nat)
    (anchor : Int) : Except ModelError Entity :=
  match dormant with
  | some dormant => do
    let dormant ← (if dormant.isSleeping then .ok dormant else dormant.beginSleepFrozen anchor)
    dormant.reconfigureSleeping cls weight totalWeight
  | none => do
    let fresh ← Entity.new cls weight totalWeight anchor
    fresh.beginSleep anchor

/-- The fair and the dormant entity of a sleeper under new parameters, and its real-time marker. -/
def sleepingReconfiguredState (clock : Clock) (state : OwnedState δ)
    (oldParams newParams : TaskParams) (fairRuntimeNs : Nat) :
    Except SchedulerError (Option Entity × Option Entity × Bool) :=
  match newParams.cls.fair with
  | none =>
    if oldParams.cls.isRt then .ok (none, state.dormantFair, true)
    else .ok (none, state.entity, true)
  | some cls =>
    if oldParams.cls.isRt then do
      let weight ← fairWeight newParams
      let totalWeight := clock.totalWeight + weight
      if maxU128 < totalWeight then .error .arithmeticExhausted
      else
        let entity ← (sleepingFromRt state.dormantFair cls weight totalWeight
          (state.sleepV.getD clock.v)).mapError modelError
        let entity ← rebindFairRuntime entity fairRuntimeNs totalWeight defaultPeriodNs
        .ok (some entity, none, false)
    else
      match state.entity with
      | none => .error .inconsistentState
      | some entity => do
        let weight ← fairWeight newParams
        let totalWeight := clock.totalWeight + weight
        if maxU128 < totalWeight then .error .arithmeticExhausted
        else
          let entity ←
            (entity.reconfigureSleeping cls weight totalWeight).mapError modelError
          let entity ← rebindFairRuntime entity fairRuntimeNs totalWeight defaultPeriodNs
          .ok (some entity, none, false)

def nextRrBudget (oldParams newParams : TaskParams) (oldRemaining timeslice : Nat) : Nat :=
  if newParams.cls ≠ .roundRobin then 0
  else if oldParams.cls = .roundRobin then oldRemaining
  else timeslice

/-- A residue is dropped when the tuple that owns it changes. -/
def clearsFraction (task : Task δ) (params : TaskParams) : Except SchedulerError Bool := do
  validateRuntimeFractionOwner task
  let oldWeight ← runtimeFractionWeight task.params
  let newWeight ← runtimeFractionWeight params
  .ok (decide (task.state.runtimeFractionRemainderNs ≠ 0 ∧
    (task.params.cls ≠ params.cls ∨ oldWeight ≠ newWeight)))

/-- The round-robin fraction survives only within the class. -/
def keptRrFraction (task : Task δ) (params : TaskParams) : Nat :=
  if task.params.cls = .roundRobin ∧ params.cls = .roundRobin then task.state.rrFractionQ else 0

/-! ### Claims -/

/-- Releases the claim of a configuration transaction. -/
def dropClaim : SchedOp ι δ Unit :=
  modifyTask fun t => if t.owner = configuring then { t with owner := unowned } else t

/-- A configuration transaction on an unowned task. -/
def withClaim {α : Type} (body : SchedOp ι δ α) : SchedOp ι δ α := do
  updateTask (·.claimReconfiguration)
  match ← attempt body with
  | .ok a =>
    updateTask (·.finish)
    pure a
  | .error error =>
    dropClaim
    fail error

variable [DecidableEq ι]

/-- Whether the ready set outranks the current task after an update. -/
def postUpdateOutcome (t : ι) : SchedOp ι δ (ParamUpdate ι) := do
  let l ← read id
  match l.self.running with
  | none => pure .noPreemption
  | some current => do
    let task := if current = t then l.task else l.peers current
    let shouldPreempt ← (
      if task.params.cls.isRt then pure (l.self.hasHigherRt task.params.rtPriority)
      else
        match task.state.entity with
        | none => pure false
        | some entity =>
          if l.self.hasReadyRt then pure true
          else do
            if ← expect (model (entity.isEligible l.self.clock.v)) then
              pure (l.self.hasEarlierEligibleFair entity.request.deadline)
            else
              pure (l.self.readyTree.peekEarliestEligible (biasI128 l.self.clock.v)).isSome)
    if shouldPreempt then pure (.preemptCurrent current) else pure .noPreemption

/-! ### The scheduling tuple -/

/-- An unowned server gets its first budget; a failure leaves what was written before it. -/
def sleepingBudget (params : TaskParams) : SchedOp ι δ Unit := do
  let l ← read id
  if params.cls.isDeadline then
    let config := l.task.deadlineConfig
    require config.isValid .invalidParameters
    modifyState fun s => { s with deadlineRemainingNs := config.runtimeNs }
    let absolute ← lift (checkedAddNs l.self.deadlineNowNs config.deadlineNs)
    modifyState fun s => { s with deadlineAbsoluteNs := absolute }
    let replenish ← lift (checkedAddNs l.self.deadlineNowNs config.periodNs)
    modifyState fun s => { s with deadlineReplenishAtNs := replenish, deadlineThrottled := false }
  else modifyState fun s => s.withBudget 0 0 0

def setUnownedParams (params : TaskParams) (allowSettledFraction : Bool) :
    SchedOp ι δ (ParamUpdate ι) := do
  let l ← read id
  let task := l.task
  require task.state.migration.isNone .taskBusy
  require (task.state.runtimeRemainderNs = 0 ∧
    (allowSettledFraction = true ∨ task.state.runtimeFractionRemainderNs = 0)) .inconsistentState
  let clearFraction ← lift (clearsFraction task params)
  let cleared := fun s : OwnedState δ => if clearFraction then s.clearRuntimeFraction else s
  if task.state.entity.isNone ∧ task.state.rtSleeping = false ∧ task.state.dormantFair.isNone then
    modifyState fun s => cleared
      { s with forkSeed := if params.cls.isRt then none else s.forkSeed }
    modifyTask (·.applyValidated params l.rrTimesliceTicks)
    pure .noPreemption
  else do
    let (entity, dormant, rtSleeping) ← lift
      (sleepingReconfiguredState l.self.clock task.state task.params params task.fairRuntimeNs)
    modifyState fun s => { s with
      entity := entity
      rrFractionQ := keptRrFraction task params
      dormantFair := dormant
      rtSleeping := rtSleeping }
    sleepingBudget params
    modifyState cleared
    modifyTask fun t => { t with
      params := params
      rrRemaining := nextRrBudget task.params params task.rrRemaining l.rrTimesliceTicks }
    pure .noPreemption

/-- The clock with the weight of the task replaced. -/
def reweightedClock (clock : Clock) (oldParams newParams : TaskParams) :
    Except SchedulerError Clock := do
  let oldWeight ← (if oldParams.cls.isRt then .ok 0 else fairWeight oldParams)
  let newWeight ← (if newParams.cls.isRt then .ok 0 else fairWeight newParams)
  if clock.totalWeight < oldWeight then .error .inconsistentState
  else if maxU128 < clock.totalWeight - oldWeight + newWeight then .error .arithmeticExhausted
  else if clock.totalWeight - oldWeight + newWeight = clock.totalWeight then .ok clock
  else (clock.setTotalWeight (clock.totalWeight - oldWeight + newWeight)).mapError modelError

/-- The key under which a ready task is linked again. -/
def replacementKey (params : TaskParams) (entity : Option Entity) :
    SchedOp ι δ (ReadyKey × Nat) := do
  let sequence ← (if params.cls.isRt then peekRtSequence false else peekFairSequence)
  match entity with
  | some entity => model (fairKey entity sequence)
  | none => do
    let l ← read id
    if params.cls.isDeadline then
      let config := l.task.deadlineConfig
      require config.isValid .invalidParameters
      let absolute ← lift (checkedAddNs l.self.deadlineNowNs config.deadlineNs)
      pure (deadlineKey absolute sequence, 0)
    else pure (rtKey params sequence, 0)

/-- Links a ready task again under another key; `undo` takes back what was done to the ledgers. -/
def relink (t : ι) (key : ReadyKey) (eligibleAt : Nat) (undo : SchedOp ι δ Unit) :
    SchedOp ι δ Unit := do
  let old ← read (·.task)
  let queue := queueOf old.state.deadlineThrottled
  match ← attempt (removeNode t queue) with
  | .error error =>
    undo
    fail error
  | .ok () =>
    match ← attempt (insertStaged t key eligibleAt old.key old.eligibleAt) with
    | .error error =>
      expect (insertNode t queue)
      undo
      fail error
    | .ok () => pure ()

/-- The reservation of a task of that class. -/
def reservationOf (task : Task δ) (params : TaskParams) : Option DeadlineConfig :=
  if params.cls.isDeadline then some task.deadlineConfig else none

def setOwnedParams (t : ι) (params : TaskParams) (allowSettledFraction : Bool) :
    SchedOp ι δ (ParamUpdate ι) := do
  let l ← read id
  let task := l.task
  require (task.state.runtimeRemainderNs = 0 ∧
    (allowSettledFraction = true ∨ task.state.runtimeFractionRemainderNs = 0)) .inconsistentState
  let clearFraction ← lift (clearsFraction task params)
  let running := decide (l.self.running = some t)
  require (running = true ∨ task.linked = true) .inconsistentState
  let nextClock ← lift (reweightedClock l.self.clock task.params params)
  let (entity, dormant) ← lift (activeReconfiguredState task.state task.params params
    nextClock.totalWeight nextClock.v task.fairRuntimeNs)
  let oldDeadline := reservationOf task task.params
  let newDeadline := reservationOf task params
  let nextDeadlineUtilization ← replacedDeadlineUtilization oldDeadline newDeadline
  let replacement ← (if running then pure none
    else do pure (some (← replacementKey params entity)))
  replaceDeadlineDomain oldDeadline newDeadline
  (match replacement with
    | none => pure ()
    | some (key, eligibleAt) => do
      relink t key eligibleAt (expect (replaceDeadlineDomain newDeadline oldDeadline))
      if params.cls.isRt then commitRtSequence false else commitFairSequence)
  let budget ← (
    if params.cls.isDeadline then do
      let config := task.deadlineConfig
      let absolute ← expect (lift (checkedAddNs l.self.deadlineNowNs config.deadlineNs))
      let replenish ← expect (lift (checkedAddNs l.self.deadlineNowNs config.periodNs))
      pure (config.runtimeNs, absolute, replenish)
    else pure (0, 0, 0))
  modifyState fun s =>
    let next := { s with
      entity := entity
      rrFractionQ := keptRrFraction task params
      dormantFair := dormant
      rtSleeping := false
      migration := none
      sleepV := none }.withBudget budget.1 budget.2.1 budget.2.2
    if clearFraction then next.clearRuntimeFraction else next
  modifyTask fun t => { t with
    params := params
    rrRemaining := nextRrBudget task.params params task.rrRemaining l.rrTimesliceTicks }
  modifySelf fun s => { s with
    clock := nextClock, deadlineUtilization := nextDeadlineUtilization }
  postUpdateOutcome t

def setTaskParamsImpl (t : ι) (params : TaskParams) (allowSettledFraction : Bool) :
    SchedOp ι δ (ParamUpdate ι) := do
  match params.validated with
  | none => fail .invalidParameters
  | some params => do
    let l ← read id
    if l.task.owner = configuring then fail .taskBusy
    else if l.task.owner = unowned then
      withClaim (setUnownedParams params allowSettledFraction)
    else if l.task.owner ≠ l.self.id ∨ l.self.id = unowned then fail .foreignQueue
    else setOwnedParams t params allowSettledFraction

def setTaskParams (t : ι) (params : TaskParams) : SchedOp ι δ (ParamUpdate ι) :=
  setTaskParamsImpl t params false

/-- Runs an update after the residue of the current task is settled; when the update fails, the
settlement is taken back. -/
def settledUpdate (t : ι) (periodNs : Nat) (update : SchedOp ι δ (ParamUpdate ι)) :
    SchedOp ι δ (ParamUpdate ι) := do
  let before ← read id
  let _ ← settleRuntimeRemainder t periodNs
  match ← attempt update with
  | .ok result => pure result
  | .error error =>
    modifySelf fun s => { s with clock := before.self.clock }
    modifyTask fun t => { t with
      state := before.task.state, rrRemaining := before.task.rrRemaining }
    fail error

def setTaskParamsWithRuntime (t : ι) (params : TaskParams) (periodNs : Nat) :
    SchedOp ι δ (ParamUpdate ι) := do
  require params.validated.isSome .invalidParameters
  let s ← read (·.self)
  if s.running = some t then settledUpdate t periodNs (setTaskParamsImpl t params true)
  else setTaskParamsImpl t params true

def setPriorityImpl (t : ι) (prio : Int) (allowSettledFraction : Bool) :
    SchedOp ι δ (ParamUpdate ι) := do
  require (-20 ≤ prio ∧ prio ≤ 19) .invalidParameters
  let l ← read id
  require (l.task.owner ≠ configuring) .taskBusy
  require (¬ (l.task.owner ≠ unowned ∧ (l.self.id = unowned ∨ l.task.owner ≠ l.self.id)))
    .foreignQueue
  require (l.task.params.cls.isRt = false) .incompatibleClass
  setTaskParamsImpl t ⟨l.task.params.cls, prio, 0⟩ allowSettledFraction

def setPriority (t : ι) (prio : Int) : SchedOp ι δ (ParamUpdate ι) := setPriorityImpl t prio false

def setPriorityWithRuntime (t : ι) (prio : Int) (periodNs : Nat) : SchedOp ι δ (ParamUpdate ι) := do
  require (-20 ≤ prio ∧ prio ≤ 19) .invalidParameters
  let s ← read (·.self)
  if s.running = some t then settledUpdate t periodNs (setPriorityImpl t prio true)
  else setPriorityImpl t prio true

/-! ### The reservation -/

def setUnownedDeadlineConfig (config : DeadlineConfig) : SchedOp ι δ (ParamUpdate ι) := do
  let l ← read id
  require l.task.state.migration.isNone .taskBusy
  if l.task.params.cls.isDeadline ∧ l.task.state.rtSleeping = true then do
    let old := some l.task.deadlineConfig
    let nextUtilization ← replacedDeadlineUtilization old (some config)
    let absolute ← lift (checkedAddNs l.self.deadlineNowNs config.deadlineNs)
    let replenish ← lift (checkedAddNs l.self.deadlineNowNs config.periodNs)
    replaceDeadlineDomain old (some config)
    modifyTask fun t => { t with
      deadlineConfig := config
      state := t.state.withBudget config.runtimeNs absolute replenish }
    stageKey (deadlineKey absolute l.task.key.sequence) 0
    modifySelf fun s => { s with deadlineUtilization := nextUtilization }
    pure .noPreemption
  else do
    modifyTask fun t => { t with deadlineConfig := config }
    pure .noPreemption

/-- Links a server again with its new deadline. A collision puts the node back in the ready tree
and leaves the shared ledger as it is. -/
def relinkServer (t : ι) (absolute : Nat) (undo : SchedOp ι δ Unit) : SchedOp ι δ Unit := do
  let old ← read (·.task)
  match ← attempt (peekRtSequence false) with
  | .error error =>
    undo
    fail error
  | .ok sequence =>
    match ← attempt (removeNode t (queueOf old.state.deadlineThrottled)) with
    | .error error =>
      undo
      fail error
    | .ok () =>
      match ← attempt (insertStaged t (deadlineKey absolute sequence) 0 old.key old.eligibleAt) with
      | .error error =>
        expect (insertNode t .ready)
        fail error
      | .ok () => commitRtSequence false

def setOwnedDeadlineConfig (t : ι) (config : DeadlineConfig) : SchedOp ι δ (ParamUpdate ι) := do
  let l ← read id
  let old := some l.task.deadlineConfig
  let nextUtilization ← replacedDeadlineUtilization old (some config)
  replaceDeadlineDomain old (some config)
  let absolute ← lift (checkedAddNs l.self.deadlineNowNs config.deadlineNs)
  let replenish ← lift (checkedAddNs l.self.deadlineNowNs config.periodNs)
  (if l.self.running = some t then pure ()
    else relinkServer t absolute (expect (replaceDeadlineDomain (some config) old)))
  modifyTask fun t => { t with
    deadlineConfig := config
    state := t.state.withBudget config.runtimeNs absolute replenish }
  modifySelf fun s => { s with deadlineUtilization := nextUtilization }
  postUpdateOutcome t

def setTaskDeadlineConfigWithRuntime (t : ι) (config : DeadlineConfig) :
    SchedOp ι δ (ParamUpdate ι) := do
  let l ← read id
  require (config.isValid = true ∧ l.task.params.cls.isDeadline = true) .invalidParameters
  if l.task.owner = unowned then withClaim (setUnownedDeadlineConfig config)
  else if l.task.owner ≠ l.self.id ∨ l.self.id = unowned then fail .foreignQueue
  else setOwnedDeadlineConfig t config

def stageTaskDeadlineConfig (config : DeadlineConfig) : SchedOp ι δ Unit := do
  let l ← read id
  require config.isValid .invalidParameters
  if l.task.owner = unowned then
    withClaim do
      require l.task.state.migration.isNone .taskBusy
      modifyTask fun t => { t with deadlineConfig := config }
  else if l.task.owner = l.self.id ∧ l.self.id ≠ unowned then
    modifyTask fun t => { t with deadlineConfig := config }
  else fail .foreignQueue

/-! ### The fair runtime -/

def setUnownedFairRuntime (runtimeNs periodNs : Nat) : SchedOp ι δ (ParamUpdate ι) := do
  let l ← read id
  require l.task.state.migration.isNone .taskBusy
  (match l.task.state.entity with
    | none => pure ()
    | some entity => do
      let next ← lift (rebindFairRuntime entity runtimeNs l.self.clock.totalWeight periodNs)
      modifyState fun s => { s with entity := some next })
  modifyTask fun t => { t with fairRuntimeNs := runtimeNs }
  pure .noPreemption

def setRunningFairRuntime (runtimeNs periodNs : Nat) : SchedOp ι δ (ParamUpdate ι) := do
  let l ← read id
  match l.task.state.entity with
  | none => fail .inconsistentState
  | some entity => do
    let next ← lift (rebindFairRuntime entity runtimeNs l.self.clock.totalWeight periodNs)
    modifyTask fun t => { t with
      state := { t.state with entity := some next }, fairRuntimeNs := runtimeNs }
    pure .noPreemption

def setReadyFairRuntime (t : ι) (runtimeNs periodNs : Nat) : SchedOp ι δ (ParamUpdate ι) := do
  let l ← read id
  require (l.task.linked = true) .inconsistentState
  match l.task.state.entity with
  | none => fail .inconsistentState
  | some entity => do
    let next ← lift (rebindFairRuntime entity runtimeNs l.self.clock.totalWeight periodNs)
    let sequence ← peekFairSequence
    let (key, eligibleAt) ← model (fairKey next sequence)
    removeNode t .ready
    match ← attempt (insertStaged t key eligibleAt l.task.key l.task.eligibleAt) with
    | .error error =>
      match ← attempt (insertNode t .ready) with
      | .error _ => fail .inconsistentState
      | .ok () => fail error
    | .ok () =>
      modifyTask fun t => { t with
        state := { t.state with entity := some next }, fairRuntimeNs := runtimeNs }
      commitFairSequence
      pure .noPreemption

def setTaskFairRuntimeWithRuntime (t : ι) (runtimeNs periodNs : Nat) :
    SchedOp ι δ (ParamUpdate ι) := do
  let runtimeNs := clampFairRuntimeNs runtimeNs
  let l ← read id
  let cls := l.task.params.cls
  require (¬ (runtimeNs ≠ 0 ∧ cls ≠ .normal ∧ cls ≠ .batch)) .invalidParameters
  if cls.isRt then do
    modifyTask fun t => { t with fairRuntimeNs := 0 }
    pure .noPreemption
  else if l.task.owner = configuring then fail .taskBusy
  else if l.task.owner = unowned then withClaim (setUnownedFairRuntime runtimeNs periodNs)
  else if l.task.owner ≠ l.self.id ∨ l.self.id = unowned then fail .foreignQueue
  else if l.self.running = some t then
    settledUpdate t periodNs (setRunningFairRuntime runtimeNs periodNs)
  else setReadyFairRuntime t runtimeNs periodNs

end KernelAx.Eevdf
