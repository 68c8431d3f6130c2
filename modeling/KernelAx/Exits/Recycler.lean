import KernelAx.Exits.Queue
import KernelAx.Interleaving

/-!
# Exited tasks — the recycler

On one CPU, tasks exit into the queue, and a recycler that is pinned to the CPU takes batches off
it. A task that is still owned or referenced goes back to the tail; the last reference of the
others is unwrapped, the stack is recycled and the task is destroyed. `GcWake` tells the recycler
when to look: a pending bit with a waker, and a countdown of timer ticks after a batch that had to
keep a task.

The parts of an exit, of a request and of a turn of the recycler that touch the shared memory once
are steps of their own. References of tasks that neither the queue nor the recycler holds come and
go with the calls of `references`. A timer tick runs to completion.

The waker is a library's and a flag here, `waiter`. Assumed of it is that a registration is in place
when `register` returns, and that `wake` takes it and wakes the recycler, each at once.
-/

namespace KernelAx.Exits

open Interleaving
open Function (update)

def gcRetryMinTicks : Nat := 1

def gcRetryMaxTicks : Nat := 64

def u32Max : Nat := 2 ^ 32 - 1

/-- A task that was destroyed, and what was known of it then. -/
structure Destroyed where
  serial : Nat
  others : Nat
  cpuHandoff : Bool
  wakeHandoff : Bool
  kstack : Bool
  deriving DecidableEq, Repr

/-- What the program does not have: who holds the references, and what happened. Tasks are told
apart by the order in which they were spawned, since addresses are used again. -/
structure History where
  /-- The references of a task that neither the queue nor the recycler holds. -/
  others : TaskPtr → Nat
  exited : TaskPtr → Bool
  serial : TaskPtr → Nat
  spawned : Nat
  /-- The waker of the latest `register` has been invoked. -/
  woken : Bool
  exits : List Nat
  /-- What was pushed to the queue, by exits and by the recycler, and what was popped. -/
  pushed : List Nat
  popped : List Nat
  /-- What was queued at the start of the latest batch, and what the batch popped since. -/
  snapshot : List Nat
  examined : List Nat
  destroyed : List Destroyed
  recycled : List Nat
  faults : List TaskExitQueueFault

/-- What the calls share: the tasks, the queue and the state of the recycler. -/
structure Memory where
  tasks : TaskPtr → Task
  /-- The strong count of the `Arc`; there is no task where it is zero. -/
  strong : TaskPtr → Nat
  queue : ExitedTaskQueue
  pending : Bool
  waiter : Bool
  retryTicks : Nat
  retryDelay : Nat
  history : History

inductive Gc where
  | poll
  | register
  | recheck
  /-- The poll returned `Pending`. -/
  | waiting
  | batch
  /-- `left` turns of the loop remain. -/
  | scan (left : Nat) (retained : Bool)
  /-- `can_reclaim_stack` loads the two words. -/
  | checkCpu (task : TaskPtr) (left : Nat) (retained : Bool)
  | checkWake (task : TaskPtr) (left : Nat) (retained : Bool)
  | unwrap (task : TaskPtr) (left : Nat) (retained : Bool)
  /-- A failure to requeue a task that may still be running stops the system. -/
  | requeue (task : TaskPtr) (left : Nat) (running : Bool)
  | finish (retained : Bool)
  | arm
  | armDelay (delay : Nat)
  | armTicks (delay : Nat)
  | resetTicks
  | resetDelay
  deriving DecidableEq, Repr

inductive Call where
  | idle
  /-- `count` references of the task are held elsewhere from now on, and it has, or does not have,
  an owner and a wake handoff. -/
  | references (task : TaskPtr) (count : Nat) (cpuHandoff wakeHandoff : Bool)
  | spawn (task : TaskPtr) (kstack : Bool)
  | exit (task : TaskPtr)
  | request
  | tick
  /-- The stores of `notify_new_work` and of `request_reclaim`. -/
  | notify
  | publish
  | wake
  | gc (point : Gc)
  | done
  /-- `system_off`, or a panic. -/
  | off
  deriving DecidableEq, Repr

namespace Memory

def isEmpty (m : Memory) : Bool := m.queue.isEmpty

def wake (m : Memory) : Memory :=
  { m with
    waiter := false
    history := { m.history with woken := m.history.woken || m.waiter } }

/-- A wake handoff holds a reference, and a task that has exited is not run again. -/
def Allows (m : Memory) (task : TaskPtr) (count : Nat) (cpuHandoff wakeHandoff : Bool) : Prop :=
  0 < m.strong task ∧ (wakeHandoff = true → 0 < count) ∧
    (m.history.exited task = true → cpuHandoff = true → (m.tasks task).cpuHandoff = true)

instance (m : Memory) (task : TaskPtr) (count : Nat) (cpuHandoff wakeHandoff : Bool) :
    Decidable (m.Allows task count cpuHandoff wakeHandoff) :=
  inferInstanceAs (Decidable (_ ∧ _ ∧ _))

def hold (m : Memory) (task : TaskPtr) (count : Nat) (cpuHandoff wakeHandoff : Bool) : Memory :=
  { m with
    tasks := set m.tasks task { m.tasks task with cpuHandoff, wakeHandoff }
    strong := update m.strong task
      (m.strong task - m.history.others task + count)
    history :=
      { m.history with others := update m.history.others task count } }

/-- The new task has one reference. -/
def spawn (m : Memory) (task : TaskPtr) (kstack : Bool) : Memory :=
  { m with
    tasks := set m.tasks task (.new kstack)
    strong := update m.strong task 1
    history :=
      { m.history with
        others := update m.history.others task 1
        exited := update m.history.exited task false
        serial := update m.history.serial task m.history.spawned
        spawned := m.history.spawned + 1 } }

/-- The queue has a clone of the reference. -/
def enter (m : Memory) (queue : ExitedTaskQueue) (tasks : TaskPtr → Task) (ptr : TaskPtr) :
    Memory :=
  { m with
    queue, tasks
    strong := update m.strong ptr (m.strong ptr + 1)
    history :=
      { m.history with
        exited := update m.history.exited ptr true
        exits := m.history.exits ++ [m.history.serial ptr]
        pushed := m.history.pushed ++ [m.history.serial ptr] } }

/-- A reference stays with the call that stops the system. -/
def strand (m : Memory) (queue : ExitedTaskQueue) (tasks : TaskPtr → Task)
    (error : ExitedTaskEnqueueError) : Memory :=
  { m with
    queue, tasks
    history :=
      { m.history with
        others := update m.history.others error.task (m.history.others error.task + 1)
        faults := m.history.faults ++ [error.fault] } }

def clone (m : Memory) (ptr : TaskPtr) : Memory :=
  { m with strong := update m.strong ptr (m.strong ptr + 1) }

/-- `push_exited_task` with a clone of the current task, up to the notification. -/
def exit (m : Memory) (ptr : TaskPtr) : Memory × Call :=
  match m.queue.pushBack m.tasks ptr with
  | (.ok (), queue, tasks) => (m.enter queue tasks ptr, .notify)
  | (.error error, queue, tasks) => ((m.clone ptr).strand queue tasks error, .off)

def retryTimerTick (m : Memory) : Memory :=
  if m.retryTicks = 0 then m
  else if m.retryTicks = 1 then { m with retryTicks := 0, pending := true }.wake
  else { m with retryTicks := m.retryTicks - 1 }

/-! ### The recycler -/

def batch (m : Memory) : Memory :=
  { m with
    history :=
      { m.history with
        snapshot := m.history.pushed.drop m.history.popped.length
        examined := [] } }

/-- The recycler has the reference of the queue. -/
def dequeue (m : Memory) (queue : ExitedTaskQueue) (tasks : TaskPtr → Task)
    (dequeued : ExitedTaskDequeue) : Memory :=
  { m with
    queue, tasks
    history :=
      { m.history with
        popped := m.history.popped ++ [m.history.serial dequeued.task]
        examined := m.history.examined ++ [m.history.serial dequeued.task]
        faults := m.history.faults ++ dequeued.fault.toList } }

def pop (m : Memory) (left : Nat) (retained : Bool) : Memory × Call :=
  match m.queue.popFront m.tasks with
  | (none, queue, tasks) => ({ m with queue, tasks }, .gc (.finish retained))
  | (some dequeued, queue, tasks) =>
    (m.dequeue queue tasks dequeued, .gc (.checkCpu dequeued.task left retained))

/-- The task is destroyed with its last reference, and its stack is recycled. -/
def destroy (m : Memory) (ptr : TaskPtr) : Memory :=
  let task := m.tasks ptr
  { m with
    tasks := set m.tasks ptr { task with kstack := false }
    strong := update m.strong ptr 0
    history :=
      { m.history with
        destroyed := m.history.destroyed ++ [⟨m.history.serial ptr, m.history.others ptr,
          task.cpuHandoff, task.wakeHandoff, task.kstack⟩]
        recycled := m.history.recycled ++ if task.kstack then [m.history.serial ptr] else [] } }

def unwrap (m : Memory) (ptr : TaskPtr) (left : Nat) (retained : Bool) : Memory × Call :=
  if m.strong ptr = 1 then
    -- the assertion of `take_kernel_stack`
    if (m.tasks ptr).canReclaimStack then (m.destroy ptr, .gc (.scan left retained)) else (m, .off)
  else (m, .gc (.requeue ptr left false))

/-- The queue has the reference of the recycler. -/
def requeued (m : Memory) (queue : ExitedTaskQueue) (tasks : TaskPtr → Task) (ptr : TaskPtr) :
    Memory :=
  { m with
    queue, tasks
    history := { m.history with pushed := m.history.pushed ++ [m.history.serial ptr] } }

def abandon (m : Memory) (queue : ExitedTaskQueue) (tasks : TaskPtr → Task)
    (error : ExitedTaskEnqueueError) : Memory :=
  { m with
    queue, tasks
    strong := update m.strong error.task (m.strong error.task - 1)
    history := { m.history with faults := m.history.faults ++ [error.fault] } }

def requeue (m : Memory) (ptr : TaskPtr) (left : Nat) (running : Bool) : Memory × Call :=
  match m.queue.pushBack m.tasks ptr with
  | (.ok (), queue, tasks) => (m.requeued queue tasks ptr, .gc (.scan left true))
  | (.error error, queue, tasks) =>
    if running then (m.strand queue tasks error, .off)
    else (m.abandon queue tasks error, .gc (.scan left true))

end Memory

def Gc.step (m : Memory) : Gc → Memory × Call
  | .poll => if m.pending then ({ m with pending := false }, .gc .batch) else (m, .gc .register)
  | .register =>
    ({ m with waiter := true, history := { m.history with woken := false } }, .gc .recheck)
  | .recheck => if m.pending then ({ m with pending := false }, .gc .batch) else (m, .gc .waiting)
  -- the executor may poll again at any time
  | .waiting => (m, .gc .poll)
  | .batch => (m.batch, .gc (.scan m.queue.reclaimLen false))
  | .scan 0 retained => (m, .gc (.finish retained))
  | .scan (left + 1) retained => m.pop left retained
  | .checkCpu task left retained =>
    if (m.tasks task).cpuHandoff then (m, .gc (.requeue task left true))
    else (m, .gc (.checkWake task left retained))
  | .checkWake task left retained =>
    if (m.tasks task).wakeHandoff then (m, .gc (.requeue task left true))
    else (m, .gc (.unwrap task left retained))
  | .unwrap task left retained => m.unwrap task left retained
  | .requeue task left running => m.requeue task left running
  | .finish retained =>
    let remaining := !m.isEmpty
    if retained && remaining then (m, .gc .arm)
    else if !remaining then (m, .gc .resetTicks)
    else (m, .gc .poll)
  | .arm => (m, .gc (.armDelay (min (max m.retryDelay gcRetryMinTicks) gcRetryMaxTicks)))
  | .armDelay delay =>
    ({ m with retryDelay := min (min (delay * 2) u32Max) gcRetryMaxTicks }, .gc (.armTicks delay))
  | .armTicks delay => ({ m with retryTicks := delay }, .gc .poll)
  | .resetTicks => ({ m with retryTicks := 0 }, .gc .resetDelay)
  | .resetDelay => ({ m with retryDelay := gcRetryMinTicks }, .gc .poll)

def Call.step (m : Memory) : Call → List (Memory × Call)
  | .idle | .done | .off => []
  | .references task count cpuHandoff wakeHandoff =>
    if m.Allows task count cpuHandoff wakeHandoff then
      [(m.hold task count cpuHandoff wakeHandoff, .done)]
    else []
  | .spawn task kstack => if m.strong task = 0 then [(m.spawn task kstack, .done)] else []
  -- the task is running
  | .exit task =>
    if 0 < m.history.others task ∧ m.history.exited task = false then [m.exit task] else []
  | .request => if m.isEmpty then [(m, .done)] else [(m, .notify)]
  | .tick => [(m.retryTimerTick, .done)]
  | .notify => [({ m with retryTicks := 0 }, .publish)]
  | .publish => [({ m with pending := true }, .wake)]
  | .wake => [(m.wake, .done)]
  | .gc point => [point.step m]

def Call.Starts : Call → Prop
  | .references _ _ _ _ | .spawn _ _ | .exit _ | .request | .tick => True
  | _ => False

/-- The recycler is the call `none`. -/
def system (ι : Type) : System (Option ι) Memory Call where
  idle := .idle
  Starts _ := Call.Starts
  step _ := Call.step

def History.new : History :=
  { others := fun _ => 0
    exited := fun _ => false
    serial := fun _ => 0
    spawned := 0
    woken := false
    exits := []
    pushed := []
    popped := []
    snapshot := []
    examined := []
    destroyed := []
    recycled := []
    faults := [] }

/-- There are no tasks yet, and the recycler is about to poll. -/
def initial (ι : Type) : Config (Option ι) Memory Call where
  shared :=
    { tasks := fun _ => .new false
      strong := fun _ => 0
      queue := .new
      pending := false
      waiter := false
      retryTicks := 0
      retryDelay := gcRetryMinTicks
      history := .new }
  calls
    | none => .gc .poll
    | some _ => .idle

end KernelAx.Exits
