import KernelAx.Cfs.Scheduler

/-!
# CFS — the lines of the tasks

What the sequence numbers of a scheduler are for, without them. The tasks of a scheduler stand in
two lines, one for the real-time and one for the fair tasks. A task gets its place when it is
enqueued, reserved or reconfigured: before all others if it was preempted and may go on, behind all
others if not. It keeps the place until it is picked, removed or its reservation is cancelled.

The real-time tasks of one priority that are linked are the `queue` of this priority, and
`Dispatched` says which task is next.
-/

namespace KernelAx.Cfs

variable {ι κ : Type} [DecidableEq ι] [DecidableEq κ]

/-- A preempted Fifo task, or a preempted round-robin task with budget left. -/
def Resumes (task : CfsTask) (action : CfsEnqueueAction) : Prop :=
  action = .requeue true ∧
    (task.params.class = .fifo ∨ task.params.class = .roundRobin ∧ 0 < task.rrTimeSlice)

instance (task : CfsTask) (action : CfsEnqueueAction) : Decidable (Resumes task action) :=
  inferInstanceAs (Decidable (_ ∧ (_ ∨ _ ∧ _)))

/-- The real-time tasks of a priority that are linked, in their order. -/
def World.realtimeQueue (w : World ι κ) (s : κ) (priority : Nat) : List ι :=
  (w.schedulers s).readyQueue.filter fun t =>
    decide ((w.tasks t).params.isRealtime ∧ (w.tasks t).params.rtPriority = priority)

/-- For real-time tasks (`true`) and for fair ones, and for each scheduler. -/
abbrev Lines (ι κ : Type) := Bool → κ → List ι

namespace Lines

def take (lines : Lines ι κ) (realtime : Bool) (s : κ) (t : ι) (first : Bool) : Lines ι κ :=
  fun b u =>
    if b = realtime ∧ u = s then if first then t :: lines b u else lines b u ++ [t]
    else lines b u

def leave (lines : Lines ι κ) (t : ι) : Lines ι κ := fun b s => (lines b s).erase t

/-- What an operation in a world does to the lines. -/
def apply (w : World ι κ) (lines : Lines ι κ) : Op ι κ → Lines ι κ
  | .enqueue s t action =>
    match (w.enqueueWithAction s t action).1 with
    | .ok () => lines.take (w.tasks t).params.isRealtime s t (decide (Resumes (w.tasks t) action))
    | .error _ => lines
  | .reserve s t =>
    match (w.reserveNewTask s t).1 with
    | .ok _ => lines.take (w.tasks t).params.isRealtime s t false
    | .error _ => lines
  -- the place is the one of the reservation
  | .commit _ _ => lines
  | .cancel reservation =>
    if w.reservations.contains reservation then lines.leave reservation.task else lines
  | .remove s t =>
    match (w.removeTask s t).1 with
    | .ok (some t) => lines.leave t
    | _ => lines
  | .removeForMigration s t =>
    match (w.removeTaskForMigration s t).1 with
    | .ok (some t) => lines.leave t
    | _ => lines
  | .setTaskParams s t params =>
    match (w.setTaskParams s t params).1 with
    | .ok () =>
      if t ∈ (w.schedulers s).readyQueue then
        (lines.leave t).take params.isRealtime s t false
      else lines
    | .error _ => lines
  | .setPriority s t prio =>
    match (w.setPriority s t prio).1 with
    | .ok () =>
      if t ∈ (w.schedulers s).readyQueue then
        (lines.leave t).take (w.tasks t).params.isRealtime s t false
      else lines
    | .error _ => lines
  | .pick s =>
    match (w.pickNextTask s).1 with
    | some t => lines.leave t
    | none => lines
  | .setRrTimesliceTicks _ | .configure _ _ | .inheritFairVruntimeFrom _ _ | .deactivate _ _ _
  | .tick _ _ => lines

/-- The lines after operations, from the world and the lines before them. -/
def run (w : World ι κ) (lines : Lines ι κ) : List (Op ι κ) → Lines ι κ
  | [] => lines
  | op :: ops => run (w.apply op) (lines.apply w op) ops

def empty (ι κ : Type) : Lines ι κ := fun _ _ => []

/-- The real-time tasks of a priority that are linked. -/
def queue (lines : Lines ι κ) (w : World ι κ) (s : κ) (priority : Nat) : List ι :=
  (lines true s).filter fun t =>
    decide (t ∈ (w.schedulers s).readyQueue ∧ (w.tasks t).params.rtPriority = priority)

/-- The task that has to be picked next. -/
inductive Dispatched (lines : Lines ι κ) (w : World ι κ) (s : κ) : Option ι → Prop
  | realtime {priority : Nat} {t : ι} {rest : List ι} (first : lines.queue w s priority = t :: rest)
      (highest : ∀ higher, priority < higher → lines.queue w s higher = []) :
      Dispatched lines w s (some t)
  | fair {t : ι} (idle : ∀ priority, lines.queue w s priority = [])
      (ready : t ∈ (w.schedulers s).readyQueue)
      (least : ∀ u ∈ (w.schedulers s).readyQueue, u ≠ t →
        toLex ((w.tasks t).readyOrder, (w.tasks t).sequence) <
          toLex ((w.tasks u).readyOrder, (w.tasks u).sequence)) :
      Dispatched lines w s (some t)
  | none (idle : ∀ priority, lines.queue w s priority = [])
      (empty : (w.schedulers s).readyQueue = []) : Dispatched lines w s none

end Lines

end KernelAx.Cfs
