import KernelAx.Cfs.Task
import KernelAx.Ordered

/-!
# CFS — schedulers that share tasks

Any number of `CFScheduler`s over a common pool of tasks, with the reservations that callers hold,
and every operation on them. The ready tree is the list of its tasks in the order of their keys,
which it reads from the tasks. The tree is a library's. Assumed of it is that a node is inserted
behind those whose key is not greater, that the node given is the one removed, and that a lower
bound is the first node whose key is not below it.

Not part of the program are the tasks that are `running` on a scheduler: picked, and not enqueued,
put to sleep or exited since.
-/

namespace KernelAx.Cfs

open Eevdf (SchedulerError)

variable {ι κ : Type} [DecidableEq ι] [DecidableEq κ]

/-- The queue, the floor of virtual runtime and the counters that number the tasks. -/
structure CfsScheduler (ι : Type) where
  readyQueue : List ι
  minVruntime : Option Int
  id : Nat
  fairSequence : Int
  rtFrontSeq : Int
  rtBackSeq : Int

/-- A place that a new task has drawn before it is linked. -/
structure CfsTaskReservation (ι : Type) where
  task : ι
  schedulerId : Nat
  sequence : Int
  params : CfsTaskParams
  deriving DecidableEq

inductive CfsEnqueueAction where
  | new
  | wakeup
  | explicitYield
  | requeue (preempt : Bool)
  | migrate
  deriving DecidableEq, Repr

inductive DeactivateReason where
  | sleep
  | exit
  | migrate
  deriving DecidableEq, Repr

/-- All schedulers with all tasks; `running` are the tasks that were picked. -/
structure World (ι κ : Type) where
  tasks : ι → CfsTask
  schedulers : κ → CfsScheduler ι
  nextSchedulerId : Nat
  rrTimesliceTicks : Nat
  reservations : List (CfsTaskReservation ι)
  running : κ → List ι

namespace CfsScheduler

def new : CfsScheduler ι := ⟨[], none, unowned, 0, 0, 0⟩

def queueFloor (scheduler : CfsScheduler ι) : Int := scheduler.minVruntime.getD 0

def nextFairSequence (scheduler : CfsScheduler ι) : Except SchedulerError (Int × CfsScheduler ι) :=
  if scheduler.fairSequence < isizeMax then
    .ok (scheduler.fairSequence, { scheduler with fairSequence := scheduler.fairSequence + 1 })
  else .error .sequenceExhausted

def nextRtSeq (scheduler : CfsScheduler ι) (front : Bool) :
    Except SchedulerError (Int × CfsScheduler ι) :=
  if front then
    if isizeMin < scheduler.rtFrontSeq then
      .ok (scheduler.rtFrontSeq - 1, { scheduler with rtFrontSeq := scheduler.rtFrontSeq - 1 })
    else .error .sequenceExhausted
  else if scheduler.rtBackSeq < isizeMax then
    .ok (scheduler.rtBackSeq, { scheduler with rtBackSeq := scheduler.rtBackSeq + 1 })
  else .error .sequenceExhausted

/-- The least order of the fair tasks that are linked. -/
def minReadyVruntime (tasks : ι → CfsTask) (scheduler : CfsScheduler ι) : Option Int :=
  let bound : ReadyKey := toLex (1, toLex (isizeMin, isizeMin))
  match scheduler.readyQueue.dropWhile fun t => decide ((tasks t).readyKey < bound) with
  | [] => none
  | t :: _ => if (tasks t).readyIsRt then none else some (tasks t).readyOrder

def refreshMinVruntime (tasks : ι → CfsTask) (scheduler : CfsScheduler ι)
    (currentVruntime : Option Int) : CfsScheduler ι :=
  let candidate := match currentVruntime, scheduler.minReadyVruntime tasks with
    | some current, some ready => some (min current ready)
    | some current, none => some current
    | none, some ready => some ready
    | none, none => none
  { scheduler with
    minVruntime := match scheduler.minVruntime, candidate with
      | _, none => none
      | some old, some new => some (max old new)
      | none, some new => some new }

def wakeupFloor (scheduler : CfsScheduler ι) (params : CfsTaskParams) : Int :=
  let floor := scheduler.queueFloor
  match params.class with
  | .normal => saturate (floor + fairPreemptGranularityTicks)
  | .batch => saturate (floor + (fairPreemptGranularityTicks + 1))
  | .idle => saturate (floor + (fairPreemptGranularityTicks + 2))
  | .roundRobin | .fifo => floor

end CfsScheduler

/-! ### Enqueues -/

/-- Whether a real-time task goes to the front, and whether its slice is renewed. -/
def realtimePlace (task : CfsTask) (action : CfsEnqueueAction) : Bool × Bool :=
  match task.params.class, action with
  | .fifo, .requeue true => (true, false)
  | .fifo, _ => (false, false)
  | .roundRobin, .requeue true => if 0 < task.rrTimeSlice then (true, false) else (false, true)
  | .roundRobin, .migrate => (false, !decide (0 < task.rrTimeSlice))
  | .roundRobin, _ => (false, true)
  -- not reached: the class is that of a real-time task
  | .normal, _ | .batch, _ | .idle, _ => (false, false)

/-- The virtual runtime at which a fair task is placed, and the task without what was used up. -/
def fairPlace (tasks : ι → CfsTask) (scheduler : CfsScheduler ι) (task : CfsTask)
    (action : CfsEnqueueAction) : Int × CfsTask :=
  match action with
  | .new =>
    (if task.seededVruntime then
        max (task.getVruntimeWith task.params) scheduler.queueFloor
      else scheduler.queueFloor,
      { task with seededVruntime := false }.clearMigrationVruntimeOffset)
  | .wakeup =>
    (max (task.getVruntimeWith task.params) (scheduler.wakeupFloor task.params),
      task.clearMigrationVruntimeOffset)
  | .explicitYield =>
    let floor := saturate
      ((scheduler.minReadyVruntime tasks).getD scheduler.queueFloor + fairPreemptGranularityTicks)
    (max (task.getVruntimeWith task.params) floor, task.clearMigrationVruntimeOffset)
  | .requeue _ => (task.getVruntimeWith task.params, task.clearMigrationVruntimeOffset)
  | .migrate => task.takeMigrationVruntime scheduler.queueFloor

namespace World

def initial (ι κ : Type) : World ι κ :=
  ⟨fun _ => .new, fun _ => .new, 1, 5, [], fun _ => []⟩

variable (w : World ι κ)

def setTask (t : ι) (task : CfsTask) : World ι κ :=
  { w with tasks := Function.update w.tasks t task }

def setScheduler (s : κ) (scheduler : CfsScheduler ι) : World ι κ :=
  { w with schedulers := Function.update w.schedulers s scheduler }

/-- The task is not running any more. -/
def stop (t : ι) : World ι κ := { w with running := fun s => (w.running s).erase t }

/-- The task is linked under the key that it has. -/
def link (s : κ) (t : ι) : World ι κ :=
  let scheduler := w.schedulers s
  w.setScheduler s { scheduler with
    readyQueue := insertBy (fun t => (w.tasks t).readyKey) t scheduler.readyQueue }

def refresh (s : κ) (currentVruntime : Option Int) : World ι κ :=
  w.setScheduler s ((w.schedulers s).refreshMinVruntime w.tasks currentVruntime)

def ensureId (s : κ) : Except SchedulerError Nat × World ι κ :=
  if (w.schedulers s).id = unowned then
    if w.nextSchedulerId < configuring then
      (.ok w.nextSchedulerId,
        { w.setScheduler s { w.schedulers s with id := w.nextSchedulerId } with
          nextSchedulerId := w.nextSchedulerId + 1 })
    else (.error .identifierExhausted, w)
  else (.ok (w.schedulers s).id, w)

def enqueueWithAction (s : κ) (t : ι) (action : CfsEnqueueAction) :
    Except SchedulerError Unit × World ι κ :=
  match w.ensureId s with
  | (.error e, w) => (.error e, w)
  | (.ok id, w) =>
    match (w.tasks t).claim id with
    | .error e => (.error e, w)
    | .ok task =>
      if task.params.isRealtime then
        let (front, resetRr) := realtimePlace task action
        match (w.schedulers s).nextRtSeq front with
        -- the claim is dropped
        | .error e => (.error e, w)
        | .ok (sequence, scheduler) =>
          let task := task.clearMigrationVruntimeOffset
          let task := if resetRr then task.resetRrTimeSlice w.rrTimesliceTicks else task
          let task := task.stageReadyKey 0 (rtPriorityKey task.params.rtPriority) sequence
          (.ok (), (((w.setTask t task).setScheduler s scheduler).link s t).stop t)
      else
        match (w.schedulers s).nextFairSequence with
        | .error e => (.error e, w)
        | .ok (sequence, scheduler) =>
          let (vruntime, task) := fairPlace w.tasks scheduler task action
          let task := (task.rebaseVruntime vruntime).stageReadyKey 1 vruntime sequence
          (.ok (), ((((w.setTask t task).setScheduler s scheduler).link s t).refresh s
            none).stop t)

/-! ### Reservations -/

def reserveNewTask (s : κ) (t : ι) : Except SchedulerError (CfsTaskReservation ι) × World ι κ :=
  match w.ensureId s with
  | (.error e, w) => (.error e, w)
  | (.ok schedulerId, w) =>
    let task := w.tasks t
    if task.queueOwner = unowned then
      match if task.params.isRealtime then (w.schedulers s).nextRtSeq false
        else (w.schedulers s).nextFairSequence with
      | .error e => (.error e, w)
      | .ok (sequence, scheduler) =>
        let reservation := ⟨t, schedulerId, sequence, task.params⟩
        let w := (w.setTask t { task with queueOwner := configuring }).setScheduler s scheduler
        (.ok reservation, { w with reservations := reservation :: w.reservations })
    else if task.queueOwner = configuring then (.error .taskBusy, w)
    else if task.queueOwner = schedulerId then (.error .alreadyQueued, w)
    else (.error .foreignQueue, w)

/-- Only reservations that are held can be committed; one that fails is kept. -/
def commitReservedTask (s : κ) (reservation : CfsTaskReservation ι) :
    Except SchedulerError Unit × World ι κ :=
  if reservation ∈ w.reservations then
    let t := reservation.task
    let task := w.tasks t
    let scheduler := w.schedulers s
    if reservation.schedulerId ≠ scheduler.id then (.error .foreignQueue, w)
    else if task.queueOwner ≠ configuring ∨ task.params ≠ reservation.params then
      (.error .inconsistentState, w)
    else
      let task := { task with queueOwner := scheduler.id }
      let w := { w with reservations := w.reservations.erase reservation }
      let params := reservation.params
      if params.isRealtime then
        let task := if params.class = .roundRobin then task.resetRrTimeSlice w.rrTimesliceTicks
          else task
        let task := task.stageReadyKey 0 (rtPriorityKey params.rtPriority) reservation.sequence
        (.ok (), ((w.setTask t task).link s t).stop t)
      else
        let vruntime := if task.seededVruntime then
            max (task.getVruntimeWith params) scheduler.queueFloor
          else scheduler.queueFloor
        let task := ({ task with seededVruntime := false }.rebaseVruntime vruntime).stageReadyKey 1
          vruntime reservation.sequence
        (.ok (), (((w.setTask t task).link s t).refresh s none).stop t)
  else (.error .inconsistentState, w)

/-- `cancel` and `drop`. -/
def cancelReservation (reservation : CfsTaskReservation ι) : World ι κ :=
  if reservation ∈ w.reservations then
    let task := w.tasks reservation.task
    let w := { w with reservations := w.reservations.erase reservation }
    w.setTask reservation.task
      (if task.queueOwner = configuring then { task with queueOwner := unowned } else task)
  else w

/-! ### Tasks that are linked -/

def removeOwnedTask (s : κ) (t : ι) (nextOwner : Nat) (preserveMigrationVruntimeOffset : Bool) :
    Except SchedulerError (Option ι) × World ι κ :=
  let task := w.tasks t
  let scheduler := w.schedulers s
  if task.queueOwner = unowned then (.ok none, w)
  else if task.queueOwner = configuring then (.error .taskBusy, w)
  else if task.queueOwner ≠ scheduler.id ∨ scheduler.id = unowned then (.error .foreignQueue, w)
  else
    let key := task.readyKey
    -- the cursor goes from the lower bound over the tasks with the same key
    let found := (scheduler.readyQueue.dropWhile fun u => decide ((w.tasks u).readyKey < key)
      ).takeWhile fun u => decide ((w.tasks u).readyKey = key)
    if t ∈ found then
      let task := if preserveMigrationVruntimeOffset then
          task.stageMigrationVruntimeOffset scheduler.queueFloor
        else task
      let scheduler := { scheduler with readyQueue := scheduler.readyQueue.erase t }
      let w := (w.setTask t { task with queueOwner := nextOwner }).setScheduler s scheduler
      (.ok (some t), if task.readyClass ≠ 0 then w.refresh s none else w)
    else (.error .inconsistentState, w)

def removeTask (s : κ) (t : ι) : Except SchedulerError (Option ι) × World ι κ :=
  w.removeOwnedTask s t unowned false

def removeTaskForMigration (s : κ) (t : ι) : Except SchedulerError (Option ι) × World ι κ :=
  w.removeOwnedTask s t unowned true

def reinsertReconfigured (s : κ) (t : ι) (params : CfsTaskParams) :
    Except SchedulerError Unit × World ι κ :=
  match w.ensureId s with
  | (.error e, w) => (.error e, w)
  | (.ok schedulerId, w) =>
    let task := w.tasks t
    if params.isRealtime then
      match (w.schedulers s).nextRtSeq false with
      | .error e => (.error e, w)
      | .ok (sequence, scheduler) =>
        let task := { task.stageReadyKey 0 (rtPriorityKey params.rtPriority) sequence with
          queueOwner := schedulerId }
        (.ok (), ((w.setTask t task).setScheduler s scheduler).link s t)
    else
      match (w.schedulers s).nextFairSequence with
      | .error e => (.error e, w)
      | .ok (sequence, scheduler) =>
        let task := { task.stageReadyKey 1 (task.getVruntimeWith params) sequence with
          queueOwner := schedulerId }
        (.ok (), (((w.setTask t task).setScheduler s scheduler).link s t).refresh s none)

def setTaskParams (s : κ) (t : ι) (params : CfsTaskParams) :
    Except SchedulerError Unit × World ι κ :=
  match params.validated with
  | none => (.error .invalidParameters, w)
  | some params =>
    let task := w.tasks t
    let scheduler := w.schedulers s
    if task.queueOwner = unowned then
      match task.configure w.rrTimesliceTicks params with
      | (result, task) => (result, w.setTask t task)
    else if task.queueOwner = configuring then (.error .taskBusy, w)
    else if task.queueOwner ≠ scheduler.id ∨ scheduler.id = unowned then (.error .foreignQueue, w)
    else
      match w.removeOwnedTask s t configuring false with
      | (.error e, w) => (.error e, w)
      | (.ok none, w) => (.error .inconsistentState, w)
      | (.ok (some _), removed) =>
        let applied := removed.setTask t
          ((removed.tasks t).setSchedParams removed.rrTimesliceTicks params)
        match applied.reinsertReconfigured s t params with
        | (.ok (), w) => (.ok (), w)
        -- the task is put back where it was
        | (.error e, failed) =>
          let restored := failed.setTask t
            { (failed.tasks t).restoreReconfigurationState task with
              queueOwner := (failed.schedulers s).id }
          let linked := restored.link s t
          (.error e, linked.setScheduler s
            { linked.schedulers s with minVruntime := scheduler.minVruntime })

def setPriority (s : κ) (t : ι) (prio : Int) : Except SchedulerError Unit × World ι κ :=
  let task := w.tasks t
  let scheduler := w.schedulers s
  if ¬ (-20 ≤ prio ∧ prio ≤ 19) then (.error .invalidParameters, w)
  else if task.queueOwner = unowned then
    match task.configureNice w.rrTimesliceTicks prio with
    | (result, task) => (result, w.setTask t task)
  else if task.queueOwner = configuring then (.error .taskBusy, w)
  else if task.queueOwner ≠ scheduler.id ∨ scheduler.id = unowned then (.error .foreignQueue, w)
  else if task.params.isRealtime then (.error .incompatibleClass, w)
  else w.setTaskParams s t ⟨task.params.class, prio, 0⟩

/-! ### The running task -/

def deactivateTask (s : κ) (t : ι) (reason : DeactivateReason) : World ι κ :=
  let task := w.tasks t
  match reason with
  | .migrate => w.setTask t (task.stageMigrationVruntimeOffset (w.schedulers s).queueFloor)
  | .sleep | .exit => (w.setTask t task.clearMigrationVruntimeOffset).stop t

def pickNextTask (s : κ) : Option ι × World ι κ :=
  match (w.schedulers s).readyQueue with
  | [] => (none, w.refresh s none)
  | t :: rest =>
    let task := w.tasks t
    let w := (w.setTask t { task with queueOwner := unowned }).setScheduler s
      { w.schedulers s with readyQueue := rest }
    let w := { w with running := Function.update w.running s (t :: w.running s) }
    (some t, if task.readyIsRt then w else w.refresh s (some task.readyOrder))

def hasReadyRtWithHigherPriority (s : κ) (currentPriority : Nat) : Bool :=
  match (w.schedulers s).readyQueue with
  | [] => false
  | t :: _ =>
    (w.tasks t).readyIsRt && decide ((w.tasks t).readyOrder < rtPriorityKey currentPriority)

def hasReadyRtWithSamePriority (s : κ) (currentPriority : Nat) : Bool :=
  let key := rtPriorityKey currentPriority
  let bound : ReadyKey := toLex (0, toLex (key, isizeMin))
  match (w.schedulers s).readyQueue.dropWhile fun t => decide ((w.tasks t).readyKey < bound) with
  | [] => false
  | t :: _ => (w.tasks t).readyIsRt && decide ((w.tasks t).readyOrder = key)

def taskTick (s : κ) (t : ι) : Bool × World ι κ :=
  let current := w.tasks t
  match current.params.class with
  | .fifo => (w.hasReadyRtWithHigherPriority s current.params.rtPriority, w)
  | .roundRobin =>
    if w.hasReadyRtWithHigherPriority s current.params.rtPriority then (true, w)
    else
      let (oldSlice, current) := current.taskTickRr
      let ticked := w.setTask t current
      if oldSlice ≤ 1 then
        if w.hasReadyRtWithSamePriority s current.params.rtPriority then (true, ticked)
        else (false, w.setTask t (current.resetRrTimeSlice w.rrTimesliceTicks))
      else (false, ticked)
  | .normal | .batch | .idle =>
    match (w.schedulers s).readyQueue.head?.filter fun u => (w.tasks u).readyIsRt with
    | some _ => (true, w)
    | none =>
      let current := current.taskTick
      let currentVruntime := current.getVruntimeWith current.params
      let w := (w.setTask t current).refresh s (some currentVruntime)
      (match (w.schedulers s).minReadyVruntime w.tasks with
        | some readyMin =>
          decide (saturate (readyMin + fairPreemptGranularityTicks) < currentVruntime)
        | none => false, w)

end World

/-! ### Runs -/

/-- The operations of the scheduler. -/
inductive Op (ι κ : Type) where
  | setRrTimesliceTicks (ticks : Nat)
  | configure (t : ι) (params : CfsTaskParams)
  | inheritFairVruntimeFrom (t parent : ι)
  /-- `add_task`, `put_prev_task` and `enqueue_task`. -/
  | enqueue (s : κ) (t : ι) (action : CfsEnqueueAction)
  | reserve (s : κ) (t : ι)
  | commit (s : κ) (reservation : CfsTaskReservation ι)
  | cancel (reservation : CfsTaskReservation ι)
  | remove (s : κ) (t : ι)
  | removeForMigration (s : κ) (t : ι)
  | setTaskParams (s : κ) (t : ι) (params : CfsTaskParams)
  | setPriority (s : κ) (t : ι) (prio : Int)
  | deactivate (s : κ) (t : ι) (reason : DeactivateReason)
  | pick (s : κ)
  | tick (s : κ) (t : ι)

namespace World

def apply (w : World ι κ) : Op ι κ → World ι κ
  | .setRrTimesliceTicks ticks => if ticks = 0 then w else { w with rrTimesliceTicks := ticks }
  | .configure t params => w.setTask t ((w.tasks t).configure w.rrTimesliceTicks params).2
  | .inheritFairVruntimeFrom t parent =>
    w.setTask t ((w.tasks t).inheritFairVruntimeFrom (w.tasks parent)).2
  | .enqueue s t action => (w.enqueueWithAction s t action).2
  | .reserve s t => (w.reserveNewTask s t).2
  | .commit s reservation => (w.commitReservedTask s reservation).2
  | .cancel reservation => w.cancelReservation reservation
  | .remove s t => (w.removeTask s t).2
  | .removeForMigration s t => (w.removeTaskForMigration s t).2
  | .setTaskParams s t params => (w.setTaskParams s t params).2
  | .setPriority s t prio => (w.setPriority s t prio).2
  | .deactivate s t reason => w.deactivateTask s t reason
  | .pick s => (w.pickNextTask s).2
  | .tick s t => (w.taskTick s t).2

def run (w : World ι κ) (ops : List (Op ι κ)) : World ι κ := ops.foldl apply w

end World

end KernelAx.Cfs
