import KernelAx.Eevdf.Admission

/-!
# EEVDF — Service

The current task is charged for the time it ran: a fair task through its entity and the virtual
clock, a round-robin task through its slice, a deadline server through its budget. Time below one
scheduler period stays with the task until a boundary settles it.
-/

namespace KernelAx.Eevdf

open Transaction Op

variable {ι δ : Type}

/-- Whether the ready tree asks for the processor after a fair task was served. -/
def fairReschedule (s : Scheduler ι δ) (entity : Entity) (clock : Clock) : Except ModelError Bool :=
  if s.hasReadyRt then .ok true
  else do
    if ← entity.isEligible clock.v then .ok (s.hasEarlierEligibleFair entity.request.deadline)
    else .ok (s.readyTree.peekEarliestEligible (biasI128 clock.v)).isSome

/-- One staged fair service: the entity and the clock after it, and whether to reschedule. -/
def fairService (s : Scheduler ι δ) (entity : Entity) (ticks fractionQ : Nat) :
    Except ModelError (Entity × Clock × Bool) := do
  let boundary := entity.request.isExhausted && !s.readyTree.isEmpty
  let entity ← (if entity.request.isExhausted && s.readyTree.isEmpty then
      entity.renew s.clock.totalWeight s.clock.v else .ok entity)
  let (entity, clock) ← entity.service s.clock ticks fractionQ
  let outranked ← fairReschedule s entity clock
  if entity.request.isExhausted then
    if s.readyTree.isEmpty then
      let entity ← entity.renew clock.totalWeight clock.v
      .ok (entity, clock, boundary || outranked)
    else .ok (entity, clock, true)
  else .ok (entity, clock, boundary || outranked)

def fairServiceTransaction (ticks fractionQ : Nat) : SchedOp ι δ Bool := do
  let l ← read id
  if ticks = 0 ∧ fractionQ = 0 then pure false
  else
    match l.task.state.entity with
    | none => fail .inconsistentState
    | some entity =>
      let (next, clock, reschedule) ← model (fairService l.self entity ticks fractionQ)
      modifySelf fun s => { s with clock := clock }
      modifyState fun s => { s with entity := some next }
      pure reschedule

/-- The budget left of a fresh slice after `served` ticks of it. -/
def freshSlice (slice served : Nat) : Nat :=
  if served % slice = 0 then slice else slice - served % slice

/-- The slice and the fraction of a tick after a round-robin service. -/
def rrNext (slice before serviceTicks nextFraction : Nat) (higher same : Bool) : Nat × Nat :=
  if higher then
    if before = 0 ∨ before ≤ serviceTicks then (0, 0) else (before - serviceTicks, nextFraction)
  else if before = 0 then
    if same then (0, 0) else (freshSlice slice (serviceTicks - 1), nextFraction)
  else if serviceTicks < before then (before - serviceTicks, nextFraction)
  else if same then (0, 0)
  else (freshSlice slice (serviceTicks - before), nextFraction)

def rrServiceTransaction (ticks fractionQ : Nat) : SchedOp ι δ Bool := do
  let l ← read id
  let priority := l.task.params.rtPriority
  if ticks = 0 ∧ fractionQ = 0 then pure false
  else if l.task.params.cls ≠ .roundRobin then pure (l.self.hasHigherRt priority)
  else do
    require (l.task.state.rrFractionQ < one) .inconsistentState
    let fractionTotal := l.task.state.rrFractionQ + fractionQ
    require (fractionTotal ≤ maxU128) .arithmeticExhausted
    let serviceTicks := ticks + fractionTotal / one
    require (serviceTicks ≤ maxU128) .arithmeticExhausted
    let before := l.task.rrRemaining
    let higher := l.self.hasHigherRt priority
    let same := l.self.hasSameRt priority
    let (nextRemaining, nextRrFraction) :=
      rrNext l.rrTimesliceTicks before serviceTicks (fractionTotal % one) higher same
    modifyTask fun t => { t with
      rrRemaining := nextRemaining
      state := { t.state with rrFractionQ := nextRrFraction } }
    pure (higher || same && decide (before ≤ serviceTicks))

/-! ### Settling residues -/

/-- The residues a task carries belong to this period. -/
def residuesFit (s : OwnedState δ) (periodNs : Nat) : Prop :=
  ¬ (periodNs ≤ s.runtimeRemainderNs
    ∨ s.runtimeRemainderNs ≠ 0 ∧ s.runtimeFractionPeriodNs ≠ 0 ∧
        s.runtimeFractionPeriodNs ≠ periodNs
    ∨ s.runtimeFractionRemainderNs ≠ 0 ∧
        (s.runtimeFractionPeriodNs = 0 ∨ s.runtimeFractionPeriodNs ≤ s.runtimeFractionRemainderNs))

instance (s : OwnedState δ) (periodNs : Nat) : Decidable (residuesFit s periodNs) :=
  inferInstanceAs (Decidable (¬ _))

/-- The conversion residue that counts under this period. -/
def oldRemainder (s : OwnedState δ) (periodNs : Nat) : Nat :=
  if s.runtimeFractionPeriodNs = periodNs then s.runtimeFractionRemainderNs else 0

variable [DecidableEq ι]

def settleRuntimeRemainder (t : ι) (periodNs : Nat) : SchedOp ι δ Bool := do
  ensureRunning t
  require (periodNs ≠ 0) .inconsistentState
  let task ← read (·.task)
  require (residuesFit task.state periodNs) .inconsistentState
  lift (validateRuntimeFractionOwner task)
  require (¬ (task.state.runtimeFractionRemainderNs ≠ 0 ∧
    task.state.runtimeFractionPeriodNs ≠ periodNs)) .inconsistentState
  let numerator := task.state.runtimeRemainderNs * one + oldRemainder task.state periodNs
  require (numerator ≤ maxU128) .arithmeticExhausted
  let fractionTicks := numerator / periodNs
  require (fractionTicks ≤ one) .inconsistentState
  let fractionWeight ← lift (runtimeFractionWeight task.params)
  let s ← read (·.self)
  let reschedule ← (
    if task.params.cls.isRt then
      if task.params.cls = .roundRobin then
        rrServiceTransaction (fractionTicks / one) (fractionTicks % one)
      else pure (s.hasHigherRt task.params.rtPriority)
    else fairServiceTransaction (fractionTicks / one) (fractionTicks % one))
  modifyState fun s => { s with runtimeRemainderNs := 0 }.publishRuntimeFractionOwner
    task.params fractionWeight (numerator % periodNs) periodNs
  pure reschedule

def settleBeforeLifecycle (t : ι) : SchedOp ι δ Unit := do
  let state ← read (·.task.state)
  if state.runtimeRemainderNs ≠ 0 ∨ state.runtimeFractionRemainderNs ≠ 0 then do
    let _ ← settleRuntimeRemainder t state.runtimeFractionPeriodNs
    pure ()
  else pure ()

/-! ### Samples -/

def accountDeadlineRuntime (elapsedNs : Nat) : SchedOp ι δ Bool := do
  let l ← read id
  let state := l.task.state
  require (¬ (state.deadlineThrottled = true ∨ state.deadlineRemainingNs = 0)) .inconsistentState
  let exhausted := decide (state.deadlineRemainingNs ≤ elapsedNs)
  modifyState fun s => { s with
    deadlineRemainingNs := state.deadlineRemainingNs - elapsedNs
    deadlineThrottled := exhausted }
  pure (exhausted || l.self.readyTree.front.any fun e =>
    decide (e.key.classRank = deadlineClassRank ∧ e.key.order < state.deadlineAbsoluteNs))

/-- The part of `account_runtime_transaction` that charges a task of another class. -/
def accountPeriods (delta : RuntimeDelta) : SchedOp ι δ Bool := do
  let task ← read (·.task)
  let period := delta.periodNs
  require (residuesFit task.state period ∧ ¬ (task.state.runtimeFractionRemainderNs ≠ 0 ∧
    task.state.runtimeFractionPeriodNs ≠ period)) .inconsistentState
  lift (validateRuntimeFractionOwner task)
  let fractionWeight ← lift (runtimeFractionWeight task.params)
  let total := task.state.runtimeRemainderNs + delta.elapsedNs
  require (total ≤ maxU128) .arithmeticExhausted
  let remainder := total % period
  let numerator := remainder * one + oldRemainder task.state period
  require (numerator ≤ maxU128) .arithmeticExhausted
  let extraQ := numerator / period
  let periods := total / period + (if one ≤ extraQ then extraQ / one else 0)
  require (periods ≤ maxU128) .arithmeticExhausted
  let reschedule ← (
    if periods = 0 then pure false
    else if task.params.cls.isRt then rrServiceTransaction periods 0
    else fairServiceTransaction periods 0)
  modifyState fun s =>
    { s with runtimeRemainderNs := if one ≤ extraQ then 0 else remainder
      }.publishRuntimeFractionOwner task.params fractionWeight (numerator % period) period
  pure reschedule

end KernelAx.Eevdf
