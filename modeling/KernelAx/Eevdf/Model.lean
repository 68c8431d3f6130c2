import KernelAx.Eevdf.Arith

/-!
# EEVDF — The value model

Requests, the virtual clock and the entities of the fair class: plain values with checked
arithmetic, as the scheduler embeds them in its tasks. An operation that mutates its receiver
returns the new value; every one of them completes its checked calculations before it writes.
-/

namespace KernelAx.Eevdf

open ModelError

/-! ### Constants -/

/-- Tuning constants selected when the scheduler is built. -/
structure EevdfProfile where
  normalTargetTicks : Nat
  batchTargetTicks : Nat
  idleTargetTicks : Nat
  sleeperGraceTicks : Nat
  sleeperDecayTicks : Nat

/-- The balanced profile, that of a build without a profile feature. -/
def eevdfProfile : EevdfProfile := ⟨8, 32, 8, 8, 64⟩

/-- One tick in fixed point. -/
def one : Nat := 2 ^ 32
def nice0 : Nat := 1024
/-- Work of one tick at nice zero. -/
def work : Nat := nice0 * one
def grace : Int := eevdfProfile.sleeperGraceTicks * one
def decayWindow : Int := eevdfProfile.sleeperDecayTicks * one

/-- A sample of wall-clock time; a zero period is represented as a zero delta. -/
structure RuntimeDelta where
  elapsedNs : Nat
  periodNs : Nat

def RuntimeDelta.new (elapsedNs periodNs : Nat) : RuntimeDelta :=
  if periodNs = 0 then ⟨0, 1⟩ else ⟨elapsedNs, periodNs⟩

inductive RequestClass
  | normal
  | batch
  | idle
  deriving DecidableEq, Repr

def RequestClass.targetTicks : RequestClass → Nat
  | .normal => eevdfProfile.normalTargetTicks
  | .batch => eevdfProfile.batchTargetTicks
  | .idle => eevdfProfile.idleTargetTicks

def checkedWork (ticks : Nat) : Except ModelError Int := do
  checkedI128 (← inU128 (ticks * work))

def checkedVirtualLength (q weight : Nat) : Except ModelError Int :=
  if weight = 0 then .error invalidWeight
  else do checkedI128 (← checkedMulDivCeil q work weight)

def checkedLagAt (lag stamp : Int) (weight : Nat) (v : Int) : Except ModelError Int :=
  if weight = 0 then .error invalidWeight
  else do
    let delta ← inI128 (v - stamp)
    let change ← checkedMulI128U128 delta weight
    inI128 (lag + change)

def checkedDeadline (start length : Int) : Except ModelError Int := inI128 (start + length)

def requestQuantum (cls : RequestClass) (weight totalWeight : Nat) : Except ModelError Nat :=
  if weight = 0 ∨ totalWeight = 0 then .error invalidWeight
  else if totalWeight ≤ weight then .ok cls.targetTicks
  else do
    let q ← checkedMulDivCeil cls.targetTicks weight totalWeight
    .ok (min (max q 1) cls.targetTicks)

/-- `⌈-value / denominator⌉`. -/
def signedCeilNegDiv (value : Int) (denominator : Nat) : Except ModelError Int :=
  if denominator = 0 then .error invalidWeight
  else if 0 ≤ value then .ok (-(value.natAbs / denominator : Nat))
  else do checkedI128 (← checkedCeilDiv value.natAbs denominator)

def requestStart (v materializedLag : Int) (weight : Nat) : Except ModelError Int := do
  inI128 (v + (← signedCeilNegDiv materializedLag weight))

/-! ### Requests -/

/-- A request of `q` ticks; `remainingFractionNum / remainingFractionDen` of it is left, and
`remainingWork` and `remainingTicks` are the ceilings of that. -/
structure Request where
  cls : RequestClass
  q : Nat
  remainingTicks : Nat
  remainingWork : Nat
  remainingFractionNum : Nat
  remainingFractionDen : Nat
  virtualLength : Int
  start : Int
  deadline : Int
  deriving DecidableEq, Repr

namespace Request

/-- The remaining work and the remaining ticks of a fraction of `q`. -/
def projection (q fractionNum fractionDen : Nat) : Except ModelError (Nat × Nat) :=
  if q = 0 ∨ fractionDen = 0 ∨ fractionDen < fractionNum then .error invalidState
  else do
    let (wholeTicks, fractionalTicks) ← checkedMulDivRem fractionNum q fractionDen
    let fractionalWork ← (if fractionalTicks = 0 then .ok 0
      else checkedMulDivCeil fractionalTicks work fractionDen)
    let wholeWork ← inU128 (wholeTicks * work)
    let remainingWork ← inU128 (wholeWork + fractionalWork)
    let remainingTicks ← checkedCeilDiv remainingWork work
    .ok (remainingWork, remainingTicks)

def exactValid (r : Request) : Except ModelError Unit := do
  let (remainingWork, remainingTicks) ←
    projection r.q r.remainingFractionNum r.remainingFractionDen
  if remainingWork ≠ r.remainingWork ∨ remainingTicks ≠ r.remainingTicks then .error invalidState
  else .ok ()

def remainingVirtualLength (r : Request) (weight : Nat) : Except ModelError Int :=
  if weight = 0 then .error invalidWeight
  else do
    r.exactValid
    checkedI128 (← checkedRatioCeil r.remainingFractionNum r.q work r.remainingFractionDen weight)

def setFraction (r : Request) (fractionNum fractionDen : Nat) : Except ModelError Request := do
  let gcd := Nat.gcd fractionNum fractionDen
  let num := if gcd = 0 then 0 else fractionNum / gcd
  let den := if gcd = 0 then 1 else fractionDen / gcd
  let (remainingWork, remainingTicks) ← projection r.q num den
  .ok { r with
    remainingFractionNum := num
    remainingFractionDen := den
    remainingWork := remainingWork
    remainingTicks := remainingTicks }

/-- The reduced difference of the two products, and the factor it was reduced by. -/
def serviceDifference (num rightDen serviceNum leftDen denominatorGcd : Nat) :
    Except ModelError (Nat × Nat) :=
  if num * rightDen ≤ maxU128 ∧ serviceNum * leftDen ≤ maxU128 then
    if num * rightDen < serviceNum * leftDen then .error invalidState
    else
      let numerator := num * rightDen - serviceNum * leftDen
      let reducedGcd := Nat.gcd numerator denominatorGcd
      .ok (numerator / reducedGcd, reducedGcd)
  else
    match Wide.mulU128 num rightDen, Wide.mulU128 serviceNum leftDen with
    | some left, some right =>
      if left.cmp right = .lt then .error invalidState
      else do
        let numerator := left.wrappingSub right
        let reducedGcd ← (if denominatorGcd = 1 then .ok 1
          else do
            let leftMod ← numerator.remU128 denominatorGcd
            .ok (Nat.gcd leftMod denominatorGcd))
        let numerator ← (← numerator.divExactU128 reducedGcd).lowU128
        .ok (numerator, reducedGcd)
    | _, _ => .error arithmeticExhausted

def nextAfterService (r : Request) (amount : Nat) (saturating : Bool) :
    Except ModelError Request := do
  r.exactValid
  if amount % nice0 ≠ 0 then .error invalidState
  else
    let serviceTicks := amount / nice0
    let serviceDen ← inU128 (r.q * one)
    let (remainingService, remainingRemainder) ←
      checkedMulDivRem r.remainingFractionNum serviceDen r.remainingFractionDen
    if remainingService < serviceTicks then
      if saturating then r.setFraction 0 1 else .error invalidState
    else if serviceTicks = remainingService ∧ remainingRemainder = 0 then r.setFraction 0 1
    else if serviceTicks = 0 then .ok r
    else
      -- both fractions in lowest terms before the common denominator is taken
      let serviceGcd := Nat.gcd serviceTicks serviceDen
      let serviceNum := serviceTicks / serviceGcd
      let serviceDen := serviceDen / serviceGcd
      let denominatorGcd := Nat.gcd r.remainingFractionDen serviceDen
      let leftDen := r.remainingFractionDen / denominatorGcd
      let rightDen := serviceDen / denominatorGcd
      let (numerator, reducedGcd) ←
        serviceDifference r.remainingFractionNum rightDen serviceNum leftDen denominatorGcd
      let partialDen ← inU128 (leftDen * (denominatorGcd / reducedGcd))
      let denominator ← inU128 (partialDen * rightDen)
      r.setFraction numerator denominator

def new (cls : RequestClass) (weight totalWeight : Nat) (v materializedLag : Int) :
    Except ModelError Request := do
  let q ← requestQuantum cls weight totalWeight
  let virtualLength ← checkedVirtualLength q weight
  let start ← requestStart v materializedLag weight
  let deadline ← checkedDeadline start virtualLength
  setFraction ⟨cls, q, q, 0, 1, 1, virtualLength, start, deadline⟩ 1 1

def remaining (r : Request) : Nat := r.remainingTicks

def isExhausted (r : Request) : Bool := r.remainingFractionNum = 0

/-- Service up to the end of the request. -/
def consumeWorkUpTo (r : Request) (amount : Nat) : Except ModelError Request :=
  r.nextAfterService amount true

/-- Service that must not pass the end of the request. -/
def consumeWork (r : Request) (amount : Nat) : Except ModelError Request :=
  r.nextAfterService amount false

def consume (r : Request) (ticks : Nat) : Except ModelError Request :=
  if r.remainingTicks < ticks then .error invalidState
  else do r.consumeWorkUpTo (← checkedWork ticks).toNat

def setQuantum (r : Request) (q : Nat) : Except ModelError Request :=
  if q = 0 then .error invalidState
  else do
    let (remainingWork, remainingTicks) ←
      projection q r.remainingFractionNum r.remainingFractionDen
    .ok { r with q := q, remainingWork := remainingWork, remainingTicks := remainingTicks }

def yielded (r : Request) (weight totalWeight : Nat) (v materializedLag : Int) :
    Except ModelError Request := do
  let next ← new r.cls weight totalWeight v materializedLag
  let start := max next.start r.deadline
  let deadline ← checkedDeadline start next.virtualLength
  .ok { next with start := start, deadline := deadline }

end Request

/-! ### The virtual clock -/

/-- Virtual time, with the remainder of the last division by the total weight. -/
structure Clock where
  v : Int
  remainder : Nat
  totalWeight : Nat
  accountedTicks : Nat
  deriving DecidableEq, Repr

/-- A clock advance that was calculated and not yet written. -/
structure ClockAdvance where
  v : Int
  remainder : Nat
  accountedTicks : Nat
  deltaV : Int

namespace Clock

def new (totalWeight : Nat) : Clock := ⟨0, 0, totalWeight, 0⟩

def previewWorkWithTicks (c : Clock) (amount accountedTickDelta : Nat) :
    Except ModelError ClockAdvance :=
  if amount = 0 then do
    let accountedTicks ← inU128 (c.accountedTicks + accountedTickDelta)
    .ok ⟨c.v, c.remainder, accountedTicks, 0⟩
  else if c.totalWeight = 0 then .error invalidWeight
  else if c.totalWeight ≤ c.remainder then .error invalidState
  else do
    let (deltaV, productRemainder) ← checkedMulDivRem amount 1 c.totalWeight
    let (remainderQuotient, remainder) ←
      checkedDiv129 (decide (2 ^ 128 ≤ productRemainder + c.remainder))
        ((productRemainder + c.remainder) % 2 ^ 128) c.totalWeight
    let deltaV ← checkedI128 (← inU128 (deltaV + remainderQuotient))
    let v ← inI128 (c.v + deltaV)
    let accountedTicks ← inU128 (c.accountedTicks + accountedTickDelta)
    .ok ⟨v, remainder, accountedTicks, deltaV⟩

def jumpTo (c : Clock) (v : Int) : Except ModelError Clock :=
  if v < c.v then .error invalidState else .ok { c with v := v }

def setTotalWeight (c : Clock) (totalWeight : Nat) : Except ModelError Clock :=
  if c.totalWeight = totalWeight then
    .ok (if totalWeight = 0 then { c with remainder := 0 } else c)
  else if c.totalWeight = 0 ∨ totalWeight = 0 then
    .ok { c with totalWeight := totalWeight, remainder := 0 }
  else if c.totalWeight ≤ c.remainder then .error invalidState
  else do
    let rounded ← checkedMulDivRoundNearestEven c.remainder totalWeight c.totalWeight
    if rounded = totalWeight then
      let v ← inI128 (c.v + 1)
      .ok { c with v := v, remainder := 0, totalWeight := totalWeight }
    else if rounded < totalWeight then
      .ok { c with remainder := rounded, totalWeight := totalWeight }
    else .error invalidState

def checkedAddWeight (c : Clock) (weight : Nat) : Except ModelError Clock := do
  c.setTotalWeight (← inU128 (c.totalWeight + weight))

def checkedSubWeight (c : Clock) (weight : Nat) : Except ModelError Clock :=
  if c.totalWeight < weight then .error invalidWeight
  else c.setTotalWeight (c.totalWeight - weight)

end Clock

def creditCap (cls : RequestClass) : Int := cls.targetTicks * work

def boundedSleeperDecayInner (cls : RequestClass) (lag elapsed : Int) : Except ModelError Int :=
  let cap := creditCap cls
  let lag := if cap < lag then cap else lag
  if elapsed < 0 then .error invalidState
  else if elapsed ≤ grace then .ok lag
  else do
    let beyond := min (← inI128 (elapsed - grace)) decayWindow
    if decayWindow ≤ beyond then .ok 0
    else
      let remaining ← inI128 (decayWindow - beyond)
      if lag = 0 then .ok 0
      else
        let scaled ← checkedMulDivCeil lag.natAbs remaining.toNat decayWindow.toNat
        if lag < 0 then .ok (-scaled)
        else checkedI128 (min scaled cap.toNat)

/-! ### Entities -/

/-- The fair state of a task: its lag at `lagStamp`, its request, and the point at which it went to
sleep, if it sleeps. -/
structure Entity where
  cls : RequestClass
  weight : Nat
  lag : Int
  lagStamp : Int
  request : Request
  sleeperV : Option Int
  deriving DecidableEq, Repr

/-- An entity with its request relative to the virtual time of its source. -/
structure MigrationSnapshot where
  cls : RequestClass
  weight : Nat
  request : Request
  lag : Int
  sourceV : Int
  startOffset : Int
  deadlineOffset : Int
  deriving DecidableEq, Repr

namespace Entity

def isSleeping (e : Entity) : Bool := e.sleeperV.isSome

/-- The request rebound to a quantum, class and weight, with the fraction left unchanged. -/
def reconfiguredRequest (e : Entity) (newClass : RequestClass) (newQ newWeight : Nat)
    (anchor lag : Int) : Except ModelError Request := do
  e.request.exactValid
  let request ← { e.request with cls := newClass }.setQuantum newQ
  let fullR ← checkedVirtualLength newQ newWeight
  let remainingR ← request.remainingVirtualLength newWeight
  let start ← requestStart anchor lag newWeight
  let deadline ← checkedDeadline start remainingR
  .ok { request with virtualLength := fullR, start := start, deadline := deadline }

def rebindRequestQuantum (e : Entity) (quantum : Nat) : Except ModelError Entity :=
  if quantum = 0 then .error invalidState
  else do
    let anchor := e.sleeperV.getD e.lagStamp
    let request ← e.reconfiguredRequest e.cls quantum e.weight anchor e.lag
    .ok { e with request := request, lagStamp := anchor }

def rebindDefaultRequestQuantum (e : Entity) (totalWeight : Nat) : Except ModelError Entity := do
  e.rebindRequestQuantum (← requestQuantum e.cls e.weight totalWeight)

def withLag (cls : RequestClass) (weight totalWeight : Nat) (v lag : Int) :
    Except ModelError Entity := do
  let request ← Request.new cls weight totalWeight v lag
  .ok ⟨cls, weight, lag, v, request, none⟩

def new (cls : RequestClass) (weight totalWeight : Nat) (v : Int) : Except ModelError Entity :=
  withLag cls weight totalWeight v 0

def lagAt (e : Entity) (v : Int) : Except ModelError Int :=
  if e.weight = 0 then .error invalidWeight
  else if e.sleeperV.isSome then .ok e.lag
  else checkedLagAt e.lag e.lagStamp e.weight v

def materialize (e : Entity) (v : Int) : Except ModelError Entity := do
  let next ← e.lagAt v
  .ok (if e.sleeperV.isNone then { e with lag := next, lagStamp := v } else e)

def freezeAt (e : Entity) (v : Int) : Except ModelError Entity := e.materialize v

def eligibleAt (e : Entity) : Except ModelError Int :=
  if e.weight = 0 then .error invalidWeight
  else if 0 ≤ e.lag then .ok e.lagStamp
  else do
    let offset ← checkedI128 (← checkedCeilDiv e.lag.natAbs e.weight)
    inI128 (e.lagStamp + offset)

def isEligible (e : Entity) (v : Int) : Except ModelError Bool := do
  .ok (decide (0 ≤ (← e.lagAt v)))

/-- Whole and fractional service, staged and then written to the entity and the clock. -/
def service (e : Entity) (clock : Clock) (ticks fractionQ : Nat) :
    Except ModelError (Entity × Clock) :=
  if one ≤ fractionQ then .error invalidState
  else if ticks = 0 ∧ fractionQ = 0 then .ok (e, clock)
  else if e.weight = 0 then .error invalidWeight
  else if e.sleeperV.isSome then .error invalidState
  else do
    let wholeWork := (← checkedWork ticks).toNat
    let fractionalWork ← inU128 (fractionQ * nice0)
    let serviceWork ← inU128 (wholeWork + fractionalWork)
    let next ← clock.previewWorkWithTicks serviceWork ticks
    let lag ← checkedLagAt e.lag e.lagStamp e.weight next.v
    let nextLag ← inI128 (lag - (← checkedI128 serviceWork))
    let request ← e.request.consumeWorkUpTo serviceWork
    .ok ({ e with lag := nextLag, lagStamp := next.v, request := request },
      { clock with
        v := next.v, remainder := next.remainder, accountedTicks := next.accountedTicks })

def renew (e : Entity) (totalWeight : Nat) (v : Int) : Except ModelError Entity :=
  if e.sleeperV.isSome then .error invalidState
  else do
    let lag ← e.lagAt v
    let next ← Request.new e.cls e.weight totalWeight v lag
    .ok { e with lag := lag, lagStamp := v, request := next }

def yieldRequest (e : Entity) (totalWeight : Nat) (v : Int) : Except ModelError Entity :=
  if e.sleeperV.isSome then .error invalidState
  else do
    let lag ← e.lagAt v
    let next ← e.request.yielded e.weight totalWeight v lag
    .ok { e with lag := lag, lagStamp := v, request := next }

def preemptRequest (e : Entity) : Except ModelError Entity :=
  if e.sleeperV.isSome then .error invalidState else .ok e

def beginSleep (e : Entity) (v : Int) : Except ModelError Entity :=
  if e.sleeperV.isSome then .error invalidState
  else do
    let lag ← e.lagAt v
    .ok { e with lag := min lag (creditCap e.cls), lagStamp := v, sleeperV := some v }

def beginSleepFrozen (e : Entity) (v : Int) : Except ModelError Entity :=
  if e.weight = 0 then .error invalidWeight
  else if e.sleeperV.isSome then .error invalidState
  else .ok { e with lagStamp := v, sleeperV := some v }

def endSleepFrozen (e : Entity) (v : Int) : Except ModelError Entity :=
  if e.weight = 0 then .error invalidWeight
  else if e.sleeperV.any (fun sleptAt => decide (v < sleptAt)) then .error invalidState
  else .ok { e with sleeperV := none, lagStamp := v }

def wakePreservingProgress (e : Entity) (v : Int) : Except ModelError Entity := do
  match e.sleeperV with
  | none => .error invalidState
  | some sleptAt =>
    let elapsed ← inI128 (v - sleptAt)
    if e.weight = 0 ∨ e.request.q = 0 then .error invalidState
    else
      e.request.exactValid
      let lag ← boundedSleeperDecayInner e.cls e.lag elapsed
      let start ← requestStart v lag e.weight
      let remainingR ← e.request.remainingVirtualLength e.weight
      let deadline ← checkedDeadline start remainingR
      .ok { e with
        lag := lag
        lagStamp := v
        request := { e.request with start := start, deadline := deadline }
        sleeperV := none }

def activatePreservingProgress (e : Entity) (v : Int) : Except ModelError Entity :=
  if e.sleeperV.isSome then .error invalidState
  else if e.weight = 0 then .error invalidWeight
  else if e.request.q = 0 then .error invalidState
  else do
    e.request.exactValid
    let lag ← e.lagAt v
    let start ← requestStart v lag e.weight
    let remainingR ← e.request.remainingVirtualLength e.weight
    let deadline ← checkedDeadline start remainingR
    .ok { e with
      lag := lag
      lagStamp := v
      request := { e.request with start := start, deadline := deadline } }

/-- A change of class and weight of an entity in fair accounting, its lag brought to `v`. -/
def reconfigure (e : Entity) (newClass : RequestClass) (newWeight newTotalWeight : Nat)
    (v : Int) : Except ModelError Entity :=
  if newWeight = 0 then .error invalidWeight
  else if e.sleeperV.isSome then .error invalidState
  else do
    let lag ← e.lagAt v
    let newQ ← requestQuantum newClass newWeight newTotalWeight
    let request ← e.reconfiguredRequest newClass newQ newWeight v lag
    .ok { e with
      cls := newClass, weight := newWeight, lag := lag, lagStamp := v, request := request }

/-- A change of class and weight of a frozen entity: the lag is taken over as it is. -/
def reconfigureFrozen (e : Entity) (newClass : RequestClass) (newWeight newTotalWeight : Nat)
    (v : Int) : Except ModelError Entity :=
  if newWeight = 0 then .error invalidWeight
  else if e.sleeperV.isSome then .error invalidState
  else do
    let newQ ← requestQuantum newClass newWeight newTotalWeight
    let request ← e.reconfiguredRequest newClass newQ newWeight v e.lag
    .ok ⟨newClass, newWeight, e.lag, v, request, none⟩

def reconfigureSleeping (e : Entity) (newClass : RequestClass) (newWeight newTotalWeight : Nat) :
    Except ModelError Entity := do
  match e.sleeperV with
  | none => .error invalidState
  | some sleeperV =>
    if newWeight = 0 then .error invalidWeight
    else
      let newQ ← requestQuantum newClass newWeight newTotalWeight
      let request ← e.reconfiguredRequest newClass newQ newWeight sleeperV e.lag
      .ok ⟨newClass, newWeight, e.lag, sleeperV, request, some sleeperV⟩

def migrationSnapshot (e : Entity) (sourceV : Int) : Except ModelError MigrationSnapshot :=
  if e.weight = 0 then .error invalidWeight
  else if e.sleeperV.isSome then .error invalidState
  else do
    let lag ← e.lagAt sourceV
    let startOffset ← inI128 (e.request.start - sourceV)
    let deadlineOffset ← inI128 (e.request.deadline - sourceV)
    .ok ⟨e.cls, e.weight, e.request, lag, sourceV, startOffset, deadlineOffset⟩

def fromMigration (snapshot : MigrationSnapshot) (destinationV : Int) : Except ModelError Entity :=
  if snapshot.weight = 0 ∨ snapshot.request.q = 0 then .error invalidState
  else if snapshot.request.cls ≠ snapshot.cls then .error invalidState
  else if snapshot.cls.targetTicks < snapshot.request.q
      ∨ snapshot.request.q < snapshot.request.remainingTicks
      ∨ snapshot.request.remainingFractionDen = 0
      ∨ snapshot.request.remainingFractionDen < snapshot.request.remainingFractionNum then
    .error invalidState
  else do
    snapshot.request.exactValid
    let expectedLength ← checkedVirtualLength snapshot.request.q snapshot.weight
    if snapshot.request.virtualLength ≠ expectedLength then .error invalidState
    else
      let startOffset ← inI128 (snapshot.request.start - snapshot.sourceV)
      if snapshot.startOffset ≠ startOffset then .error invalidState
      else
        let deadlineOffset ← inI128 (snapshot.request.deadline - snapshot.sourceV)
        if snapshot.deadlineOffset ≠ deadlineOffset then .error invalidState
        else
          let start ← inI128 (destinationV + snapshot.startOffset)
          let deadline ← inI128 (destinationV + snapshot.deadlineOffset)
          .ok ⟨snapshot.cls, snapshot.weight, snapshot.lag, destinationV,
            { snapshot.request with start := start, deadline := deadline }, none⟩

end Entity

end KernelAx.Eevdf
