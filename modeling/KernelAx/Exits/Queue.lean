import Mathlib.Algebra.GroupWithZero.Nat
import Mathlib.Data.Fintype.Card
import Mathlib.Logic.Function.Basic

/-!
# Exited tasks — the queue

`ExitedTaskQueue` is a queue of tasks that is linked through the tasks themselves: `exit_next` is
the successor of a task, `exit_queued` claims its link for one membership, and each membership
raises `exit_queue_generation`. The queue owns one reference of each task that it holds.

A task is a non-null address; its fields here are those that the queue and the recycler read.
-/

namespace KernelAx.Exits

/-- `u64::MAX` and `usize::MAX`. -/
def u64Max : Nat := 2 ^ 64 - 1

/-- A non-null `*mut AxTask`. -/
abbrev TaskPtr : Type := Fin u64Max

instance : NeZero u64Max := ⟨by decide⟩

inductive TaskExitQueueFault where
  | duplicateEnqueue
  | generationExhausted
  | lengthExhausted
  | corruptLink
  deriving DecidableEq, Repr

/-- The part of a task that the exit path reads and writes. -/
structure Task where
  exitNext : Option TaskPtr
  exitQueued : Bool
  exitQueueGeneration : Nat
  exitQueueFault : Option TaskExitQueueFault
  /-- `cpu_handoff` is not `CPU_OWNER_NONE`. -/
  cpuHandoff : Bool
  /-- `wake_handoff` is not null. -/
  wakeHandoff : Bool
  /-- `kstack` is some stack. -/
  kstack : Bool

namespace Task

def new (kstack : Bool) : Task := ⟨none, false, 0, none, false, false, kstack⟩

/-- The first fault stays. -/
def recordExitQueueFault (task : Task) (fault : TaskExitQueueFault) : Task :=
  match task.exitQueueFault with
  | none => { task with exitQueueFault := some fault }
  | some _ => task

def admitExitQueue (task : Task) : Except TaskExitQueueFault Unit × Task :=
  if task.exitQueued then
    (.error .duplicateEnqueue, task.recordExitQueueFault .duplicateEnqueue)
  else if task.exitNext.isSome then
    -- `exit_queued` has been set, and is reset
    (.error .corruptLink, { task with exitQueued := false }.recordExitQueueFault .corruptLink)
  else if task.exitQueueGeneration < u64Max then
    (.ok (), { task with exitQueued := true, exitQueueGeneration := task.exitQueueGeneration + 1 })
  else
    (.error .generationExhausted,
      { task with exitQueued := false }.recordExitQueueFault .generationExhausted)

def rollbackExitQueueAdmission (task : Task) : Task := { task with exitQueued := false }

def linkExitQueueSuccessor (task : Task) (successor : Option TaskPtr) :
    Except TaskExitQueueFault Unit × Task :=
  if successor.isNone || !task.exitQueued then
    (.error .corruptLink, task.recordExitQueueFault .corruptLink)
  else if task.exitNext.isNone then (.ok (), { task with exitNext := successor })
  else (.error .corruptLink, task.recordExitQueueFault .corruptLink)

def takeExitQueueSuccessor (task : Task) : Option TaskPtr × Task :=
  (task.exitNext, { task with exitNext := none })

def finishExitDequeue (task : Task) : Except TaskExitQueueFault Unit × Task :=
  if task.exitQueued then (.ok (), { task with exitQueued := false })
  else (.error .corruptLink, task.recordExitQueueFault .corruptLink)

def hasCpuOwnerOrHandoff (task : Task) : Bool := task.cpuHandoff || task.wakeHandoff

def canReclaimStack (task : Task) : Bool := !task.hasCpuOwnerOrHandoff

end Task

/-- The task at an address is replaced. -/
abbrev set (tasks : TaskPtr → Task) (ptr : TaskPtr) (task : Task) : TaskPtr → Task :=
  Function.update tasks ptr task

/-- A queue through the `exit_next` links of its tasks. -/
structure ExitedTaskQueue where
  head : Option TaskPtr
  tail : Option TaskPtr
  len : Nat
  deriving DecidableEq, Repr

structure ExitedTaskEnqueueError where
  fault : TaskExitQueueFault
  /-- The reference is given back. -/
  task : TaskPtr
  deriving DecidableEq, Repr

/-- The task that was taken, with the fault that was found on the way. -/
structure ExitedTaskDequeue where
  task : TaskPtr
  fault : Option TaskExitQueueFault
  deriving DecidableEq, Repr

namespace ExitedTaskQueue

def new : ExitedTaskQueue := ⟨none, none, 0⟩

def isEmpty (queue : ExitedTaskQueue) : Bool := queue.head.isNone && queue.tail.isNone

def reclaimLen (queue : ExitedTaskQueue) : Nat := if queue.isEmpty then 0 else max queue.len 1

def pushBack (queue : ExitedTaskQueue) (tasks : TaskPtr → Task) (task : TaskPtr) :
    Except ExitedTaskEnqueueError Unit × ExitedTaskQueue × (TaskPtr → Task) :=
  let empty := queue.head.isNone
  if empty != queue.tail.isNone || empty != (queue.len == 0) then
    (.error ⟨.corruptLink, task⟩, queue,
      set tasks task ((tasks task).recordExitQueueFault .corruptLink))
  else if queue.len = u64Max then
    (.error ⟨.lengthExhausted, task⟩, queue,
      set tasks task ((tasks task).recordExitQueueFault .lengthExhausted))
  else
    match (tasks task).admitExitQueue with
    | (.error fault, admitted) => (.error ⟨fault, task⟩, queue, set tasks task admitted)
    | (.ok (), admitted) =>
      let tasks := set tasks task admitted
      match queue.head, queue.tail with
      | some _, some tail =>
        match (tasks tail).linkExitQueueSuccessor (some task) with
        | (.ok (), linked) =>
          (.ok (), { queue with tail := some task, len := queue.len + 1 },
            set tasks tail linked)
        | (.error fault, linked) =>
          let tasks := set tasks tail linked
          let rolledBack := (tasks task).rollbackExitQueueAdmission
          (.error ⟨fault, task⟩, queue,
            set tasks task (rolledBack.recordExitQueueFault fault))
      | _, _ => (.ok (), ⟨some task, some task, queue.len + 1⟩, tasks)

/-- The head is taken, with the fault that was found before. -/
def detach (queue : ExitedTaskQueue) (tasks : TaskPtr → Task) (raw : TaskPtr)
    (fault : Option TaskExitQueueFault) :
    ExitedTaskDequeue × ExitedTaskQueue × (TaskPtr → Task) :=
  let (next, task) := (tasks raw).takeExitQueueSuccessor
  let corrupt :=
    match next with
    | none => queue.tail != some raw || queue.len != 1
    | some _ => queue.tail == some raw || decide (queue.len ≤ 1)
  let task := if corrupt then task.recordExitQueueFault .corruptLink else task
  let fault := if corrupt then some .corruptLink else fault
  let queue : ExitedTaskQueue :=
    match next with
    | none => ⟨none, none, 0⟩
    | some next => { queue with head := some next, len := max (queue.len - 1) 1 }
  match task.finishExitDequeue with
  | (.ok (), task) => (⟨raw, fault⟩, queue, set tasks raw task)
  | (.error error, task) => (⟨raw, fault <|> some error⟩, queue, set tasks raw task)

def popFront (queue : ExitedTaskQueue) (tasks : TaskPtr → Task) :
    Option ExitedTaskDequeue × ExitedTaskQueue × (TaskPtr → Task) :=
  match queue.head, queue.tail with
  | none, none => (none, { queue with len := 0 }, tasks)
  | none, some tail =>
    -- the reference of the tail is kept from being lost
    let tasks := set tasks tail ((tasks tail).recordExitQueueFault .corruptLink)
    let (dequeued, queue, tasks) :=
      detach { queue with head := some tail, len := 1 } tasks tail (some .corruptLink)
    (some dequeued, queue, tasks)
  | some head, _ =>
    let (dequeued, queue, tasks) := queue.detach tasks head none
    (some dequeued, queue, tasks)

end ExitedTaskQueue

end KernelAx.Exits
