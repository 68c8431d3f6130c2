import KernelAx.Eevdf.Lifecycle
import KernelAx.Eevdf.Params

/-!
# EEVDF — Schedulers that share tasks

The state of a collection of schedulers, the tasks they share, the admission ledgers and the live
tokens, and every operation a caller can perform on them. The operations of one scheduler exclude
each other by its run-queue lock and meet those of others only at the owner word of a task, so a run
is a sequence of whole operations in any order.
-/

namespace KernelAx.Eevdf

open Transaction Op

/-- Tasks `ι`, schedulers `κ` and ledgers `δ`, with the global counters and the live tokens. -/
structure World (ι κ δ : Type) where
  task : ι → Task δ
  sched : κ → Scheduler ι δ
  domain : δ → DeadlineAdmissionDomain
  nextSchedulerId : Nat
  rrTimesliceTicks : Nat
  reservations : List (TaskReservation ι)
  migrations : List (MigrationToken ι)
  seeds : List ForkSeed

variable {ι κ δ : Type}

namespace World

/-- The first state, with ledgers of one processor each. -/
def initial : World ι κ δ where
  task := fun _ => .new
  sched := fun _ => .new
  domain := fun _ => .new
  nextSchedulerId := 1
  rrTimesliceTicks := 5
  reservations := []
  migrations := []
  seeds := []

/-- What the operations of scheduler `i` on task `t` see. -/
def localAt (i : κ) (t : ι) (w : World ι κ δ) : Local ι δ where
  self := w.sched i
  task := w.task t
  domain := match (w.sched i).deadlineDomain with
    | some d => w.domain d
    | none => .new
  nextSchedulerId := w.nextSchedulerId
  rrTimesliceTicks := w.rrTimesliceTicks
  peers := w.task

variable [DecidableEq ι] [DecidableEq κ] [DecidableEq δ]

/-- The state with what an operation of `i` on `t` left behind. -/
def setLocal (i : κ) (t : ι) (l : Local ι δ) (w : World ι κ δ) : World ι κ δ :=
  { w with
    task := Function.update w.task t l.task
    sched := Function.update w.sched i l.self
    domain := match (w.sched i).deadlineDomain with
      | some d => Function.update w.domain d l.domain
      | none => w.domain
    nextSchedulerId := l.nextSchedulerId }

omit [DecidableEq ι] [DecidableEq κ] [DecidableEq δ] in
@[simp] theorem localAt_task (i : κ) (t : ι) (w : World ι κ δ) :
    (localAt i t w).task = w.task t := rfl

omit [DecidableEq ι] [DecidableEq κ] [DecidableEq δ] in
@[simp] theorem localAt_self (i : κ) (t : ι) (w : World ι κ δ) :
    (localAt i t w).self = w.sched i := rfl

@[simp] theorem setLocal_task_self (i : κ) (t : ι) (l : Local ι δ) (w : World ι κ δ) :
    (setLocal i t l w).task t = l.task := by
  simp [setLocal]

theorem setLocal_task_of_ne (i : κ) {t u : ι} (h : u ≠ t) (l : Local ι δ) (w : World ι κ δ) :
    (setLocal i t l w).task u = w.task u := by
  simp [setLocal, h]

@[simp] theorem setLocal_sched_self (i : κ) (t : ι) (l : Local ι δ) (w : World ι κ δ) :
    (setLocal i t l w).sched i = l.self := by
  simp [setLocal]

theorem setLocal_localAt (i : κ) (t : ι) (w : World ι κ δ) :
    setLocal i t (localAt i t w) w = w := by
  unfold setLocal
  simp only [localAt_task, localAt_self, Function.update_eq_self]
  cases hd : (w.sched i).deadlineDomain with
  | none => rfl
  | some d => simp [localAt, hd, Function.update_eq_self]

end World

abbrev WorldOp (ι κ δ α : Type) : Type := Op SchedulerError (World ι κ δ) α

section Operations

variable [DecidableEq ι] [DecidableEq κ] [DecidableEq δ]

def onTask {α : Type} (i : κ) (t : ι) (m : SchedOp ι δ α) : WorldOp ι κ δ α :=
  focus (World.localAt i t) (World.setLocal i t) m

/-- An operation on a task that needs no scheduler. -/
def onTaskOnly (t : ι) (f : World ι κ δ → Task δ → Except SchedulerError (Task δ)) :
    WorldOp ι κ δ Unit := do
  let w ← read id
  let task ← lift (f w (w.task t))
  modify fun w => { w with task := Function.update w.task t task }

def modifySched (i : κ) (f : Scheduler ι δ → Scheduler ι δ) : WorldOp ι κ δ Unit :=
  modify fun w => { w with sched := Function.update w.sched i (f (w.sched i)) }

/-! ### Operations on several tasks -/

/-- Moves the expired servers at the front of the throttled tree to the ready tree, at most `fuel`
of them. -/
def replenishLoop (i : κ) : Nat → WorldOp ι κ δ Unit
  | 0 => pure ()
  | fuel + 1 => do
    let s ← read (·.sched i)
    match s.deadlineThrottled.front with
    | none => pure ()
    | some e =>
      if s.deadlineNowNs < e.eligibleAt then pure ()
      else do
        onTask i e.value (replenishServer e.value)
        replenishLoop i fuel

/-- Every iteration takes a server out of the throttled tree, so its length bounds the loop. -/
def replenishDeadlines (i : κ) : WorldOp ι κ δ Unit := do
  let s ← read (·.sched i)
  replenishLoop i s.deadlineThrottled.len

def rebaseDeadlineClock (i : κ) (nowNs : Nat) : WorldOp ι κ δ Unit := do
  let s ← read (·.sched i)
  if s.deadlineNowNs < nowNs then do
    modifySched i fun s => { s with deadlineNowNs := nowNs }
    replenishDeadlines i
  else pure ()

def pickRtFront (i : κ) : WorldOp ι κ δ (Option ι) := do
  let s ← read (·.sched i)
  match s.readyTree.front with
  | none => pure none
  | some e =>
    match s.readyTree.remove true e.key e.value with
    | .error _ => crash
    | .ok tree => do
      onTask i e.value (pickTask e.value tree)
      pure (some e.value)

/-- The clock moves forward to the least eligibility point when nothing is eligible; `none` when
nothing is ready. -/
def jumpClock (s : Scheduler ι δ) : Option (Except ModelError Clock) :=
  if (s.readyTree.peekEarliestEligible (biasI128 s.clock.v)).isNone then
    match s.readyTree.minEligibleAt with
    | none => none
    | some least =>
      if s.clock.v < unbiasI128 least then some (s.clock.jumpTo (unbiasI128 least))
      else some (.ok s.clock)
  else some (.ok s.clock)

def pickFair (i : κ) : WorldOp ι κ δ (Option ι) := do
  let s ← read (·.sched i)
  match jumpClock s with
  | none => pure none
  | some (.error _) => crash
  | some (.ok clock) => do
    modifySched i fun s => { s with clock := clock }
    match s.readyTree.popEarliestEligible (biasI128 clock.v) with
    | none => pure none
    | some (e, tree) => do
      onTask i e.value (pickTask e.value tree)
      pure (some e.value)

def pickNextTask (i : κ) : WorldOp ι κ δ (Option ι) := do
  let s ← read (·.sched i)
  if s.running.isSome then pure none
  else do
    replenishDeadlines i
    let s ← read (·.sched i)
    if s.hasReadyRt then pickRtFront i else pickFair i

def taskTick (i : κ) (t : ι) : WorldOp ι κ δ Bool :=
  expect do
    onTask i t (ensureRunning t)
    let w ← read id
    (if (w.task t).params.cls.isDeadline then replenishDeadlines i else pure ())
    onTask i t tickTask

def accountRuntime (i : κ) (t : ι) (delta : RuntimeDelta) : WorldOp ι κ δ Bool :=
  expect do
    onTask i t (ensureRunning t)
    let s ← read (·.sched i)
    let now ← lift (checkedAddNs s.deadlineNowNs delta.elapsedNs)
    modifySched i fun s => { s with deadlineNowNs := now }
    replenishDeadlines i
    onTask i t (accountTask delta)

def forkSeed (i : κ) (t : ι) : WorldOp ι κ δ ForkSeed := do
  let w ← read id
  let s := w.sched i
  let parent := w.task t
  require (¬ (s.id = unowned ∨ parent.owner ≠ s.id)) .foreignQueue
  match parent.state.entity with
  | none => fail .incompatibleClass
  | some entity => do
    require (entity.isSleeping = false) .incompatibleClass
    let lag ← lift ((entity.lagAt s.clock.v).mapError modelError)
    pure ⟨entity.cls, max (-creditCap entity.cls) (min lag (creditCap entity.cls))⟩

def setDeadlineAdmissionDomain (i : κ) (d : δ) : WorldOp ι κ δ Unit := do
  let s ← read (·.sched i)
  require (¬ (s.deadlineUtilization ≠ 0 ∨ s.deadlineDomain.isSome)) .taskBusy
  modifySched i fun s => { s with deadlineDomain := some d }

end Operations

/-! ### Commands -/

/-- The operations a caller can perform. Cancelling and dropping a token are one command each: they
release the claim, if the task is still claimed, and consume the token. -/
inductive Command (ι κ δ : Type)
  | configure (t : ι) (params : TaskParams)
  | configureDeadline (t : ι) (config : DeadlineConfig)
  | configureFairRuntime (t : ι) (runtimeNs : Nat)
  | installForkSeed (t : ι) (seed : ForkSeed)
  | setRrTimeslice (ticks : Nat)
  | setDomain (i : κ) (d : δ)
  | rebase (i : κ) (nowNs : Nat)
  | forkSeed (i : κ) (t : ι)
  | addTask (i : κ) (t : ι)
  | reserve (i : κ) (t : ι)
  | commitReserved (i : κ) (r : TaskReservation ι)
  | cancelReservation (r : TaskReservation ι)
  | beginReady (i : κ) (t : ι)
  | beginRunning (i : κ) (t : ι)
  | parkMigration (m : MigrationToken ι)
  | commitMigration (i : κ) (m : MigrationToken ι)
  | resumeMigration (i : κ) (t : ι)
  | rollbackMigration (i : κ) (m : MigrationToken ι)
  | enqueueMigrated (i : κ) (t : ι)
  | removeForMigration (i : κ) (t : ι)
  | setParams (i : κ) (t : ι) (params : TaskParams)
  | setParamsWithRuntime (i : κ) (t : ι) (params : TaskParams) (periodNs : Nat)
  | setPriority (i : κ) (t : ι) (prio : Int)
  | setPriorityWithRuntime (i : κ) (t : ι) (prio : Int) (periodNs : Nat)
  | setDeadlineConfig (i : κ) (t : ι) (config : DeadlineConfig)
  | stageDeadlineConfig (i : κ) (t : ι) (config : DeadlineConfig)
  | setFairRuntime (i : κ) (t : ι) (runtimeNs periodNs : Nat)
  | wakeup (i : κ) (t : ι)
  | put (i : κ) (t : ι) (reason : RequeueReason)
  | removeTask (i : κ) (t : ι)
  | deactivate (i : κ) (t : ι) (reason : DeactivateReason)
  | pick (i : κ)
  | tick (i : κ) (t : ι)
  | account (i : κ) (t : ι) (elapsedNs periodNs : Nat)
  | settle (i : κ) (t : ι) (periodNs : Nat)

section Commands

variable [DecidableEq ι] [DecidableEq κ] [DecidableEq δ]

def discard {α : Type} (m : WorldOp ι κ δ α) : WorldOp ι κ δ Unit := do
  let _ ← m
  pure ()

def keepMigration (m : WorldOp ι κ δ (MigrationToken ι)) : WorldOp ι κ δ Unit := do
  let token ← m
  modify fun w => { w with migrations := token :: w.migrations }

/-- An operation that consumes its token when it succeeds. -/
def spendMigration (token : MigrationToken ι) (m : WorldOp ι κ δ Unit) : WorldOp ι κ δ Unit := do
  m
  modify fun w => { w with migrations := w.migrations.erase token }

def spendReservation (r : TaskReservation ι) (m : WorldOp ι κ δ Unit) : WorldOp ι κ δ Unit := do
  m
  modify fun w => { w with reservations := w.reservations.erase r }

/-- The claim of a token is given up, if it is still there. -/
def releaseToken (t : ι) : WorldOp ι κ δ Unit :=
  onTaskOnly t fun _ task =>
    .ok (if task.owner = configuring then { task with owner := unowned } else task)

def Command.exec : Command ι κ δ → WorldOp ι κ δ Unit
  | .configure t params => onTaskOnly t fun w task => task.configure params w.rrTimesliceTicks
  | .configureDeadline t config => onTaskOnly t fun _ task => task.configureDeadline config
  | .configureFairRuntime t runtimeNs =>
    onTaskOnly t fun _ task => task.configureFairRuntimeNs runtimeNs
  | .installForkSeed t seed => onTaskOnly t fun _ task => task.installForkSeed seed
  | .setRrTimeslice ticks =>
    modify fun w => if ticks = 0 then w else { w with rrTimesliceTicks := ticks }
  | .setDomain i d => setDeadlineAdmissionDomain i d
  | .rebase i nowNs => rebaseDeadlineClock i nowNs
  | .forkSeed i t => do
    let seed ← Eevdf.forkSeed i t
    modify fun w => { w with seeds := seed :: w.seeds }
  | .addTask i t => onTask i t (enqueueNew t)
  | .reserve i t => do
    let r ← onTask i t (reserveNewTask t)
    modify fun w => { w with reservations := r :: w.reservations }
  | .commitReserved i r => spendReservation r (onTask i r.task (commitReservedTask r))
  | .cancelReservation r => spendReservation r (releaseToken r.task)
  | .beginReady i t => keepMigration (onTask i t (beginReadyMigration t))
  | .beginRunning i t => keepMigration (onTask i t (beginRunningMigration t))
  | .parkMigration m => spendMigration m (releaseToken m.task)
  | .commitMigration i m => spendMigration m (onTask i m.task (Eevdf.commitMigration m))
  | .resumeMigration i t => keepMigration (onTask i t (Eevdf.resumeMigration t))
  | .rollbackMigration i m => spendMigration m (onTask i m.task (Eevdf.rollbackMigration m))
  | .enqueueMigrated i t => onTask i t (enqueueMigratedTask t)
  | .removeForMigration i t => onTask i t (removeTaskForMigration t)
  | .setParams i t params => discard (onTask i t (setTaskParams t params))
  | .setParamsWithRuntime i t params periodNs =>
    discard (onTask i t (setTaskParamsWithRuntime t params periodNs))
  | .setPriority i t prio => discard (onTask i t (Eevdf.setPriority t prio))
  | .setPriorityWithRuntime i t prio periodNs =>
    discard (onTask i t (Eevdf.setPriorityWithRuntime t prio periodNs))
  | .setDeadlineConfig i t config =>
    discard (onTask i t (setTaskDeadlineConfigWithRuntime t config))
  | .stageDeadlineConfig i t config => onTask i t (stageTaskDeadlineConfig config)
  | .setFairRuntime i t runtimeNs periodNs =>
    discard (onTask i t (setTaskFairRuntimeWithRuntime t runtimeNs periodNs))
  | .wakeup i t => onTask i t (enqueueWakeup t)
  | .put i t reason => onTask i t (putRunning t reason)
  | .removeTask i t => discard (onTask i t (removeReady t))
  | .deactivate i t reason => onTask i t (deactivateTask t reason)
  | .pick i => discard (pickNextTask i)
  | .tick i t => discard (taskTick i t)
  | .account i t elapsedNs periodNs =>
    discard (accountRuntime i t (.new elapsedNs periodNs))
  | .settle i t periodNs => discard (onTask i t (settleRuntimeRemainder t periodNs))

/-- The tokens and seeds a command uses have been issued. -/
def Command.Enabled (w : World ι κ δ) : Command ι κ δ → Prop
  | .commitReserved _ r | .cancelReservation r => r ∈ w.reservations
  | .parkMigration m | .commitMigration _ m | .rollbackMigration _ m => m ∈ w.migrations
  | .installForkSeed _ seed => seed ∈ w.seeds
  | _ => True

instance (w : World ι κ δ) (c : Command ι κ δ) : Decidable (c.Enabled w) := by
  cases c <;> unfold Command.Enabled <;> infer_instance

/-- One operation, whether it succeeds or fails. -/
inductive Step (w : World ι κ δ) (c : Command ι κ δ) (w' : World ι κ δ) : Prop
  | ok (h : c.Enabled w) (e : c.exec w = .ok () w')
  | error (h : c.Enabled w) (kind : SchedulerError) (e : c.exec w = .error kind w')

/-- The states reached by operations that each meet the condition in the state they start from. -/
inductive Runs (Allowed : World ι κ δ → Command ι κ δ → Prop) (w : World ι κ δ) : World ι κ δ → Prop
  | refl : Runs Allowed w w
  | step {w₁ w₂ : World ι κ δ} {c : Command ι κ δ} (run : Runs Allowed w w₁)
      (allowed : Allowed w₁ c) (step : Step w₁ c w₂) : Runs Allowed w w₂

/-- Runs a list of operations, for examples; `none` when one of them is not allowed or panics. -/
def execute (Allowed : World ι κ δ → Command ι κ δ → Prop) [∀ w c, Decidable (Allowed w c)] :
    List (Command ι κ δ) → World ι κ δ → Option (World ι κ δ)
  | [], w => some w
  | c :: cs, w =>
    if c.Enabled w ∧ Allowed w c then
      match c.exec w with
      | .ok () w' | .error _ w' => execute Allowed cs w'
      | .panic => none
    else none

theorem execute_runs {Allowed : World ι κ δ → Command ι κ δ → Prop}
    [∀ w c, Decidable (Allowed w c)] {cs : List (Command ι κ δ)} {w₀ w w' : World ι κ δ}
    (run : Runs Allowed w₀ w) (h : execute Allowed cs w = some w') : Runs Allowed w₀ w' := by
  induction cs generalizing w with
  | nil =>
    cases h
    exact run
  | cons c cs ih =>
    rw [execute] at h
    split at h
    · next hc =>
        cases he : c.exec w with
        | ok a w₁ =>
          rw [he] at h
          exact ih (run.step hc.2 (.ok hc.1 he)) h
        | error kind w₁ =>
          rw [he] at h
          exact ih (run.step hc.2 (.error hc.1 kind he)) h
        | panic =>
          rw [he] at h
          cases h
    · cases h

/-- A list of operations that can be run, and what holds after it. -/
theorem execute_any (Allowed : World ι κ δ → Command ι κ δ → Prop)
    [∀ w c, Decidable (Allowed w c)] (cs : List (Command ι κ δ)) (w₀ : World ι κ δ)
    (p : World ι κ δ → Prop) [DecidablePred p]
    (h : (execute Allowed cs w₀).any (fun w => decide (p w)) = true) :
    ∃ w, Runs Allowed w₀ w ∧ p w := by
  cases hw : execute Allowed cs w₀ with
  | none =>
    rw [hw] at h
    cases h
  | some w =>
    rw [hw] at h
    exact ⟨w, execute_runs .refl hw, of_decide_eq_true h⟩

def Command.Returns (c : Command ι κ δ) (w : World ι κ δ) (p : World ι κ δ → Prop) : Prop :=
  match c.exec w with
  | .ok () w' => p w'
  | .error _ _ | .panic => False

instance (c : Command ι κ δ) (w : World ι κ δ) (p : World ι κ δ → Prop) [DecidablePred p] :
    Decidable (c.Returns w p) := by
  unfold Command.Returns
  split <;> infer_instance

theorem Command.Returns.exists {c : Command ι κ δ} {w : World ι κ δ} {p : World ι κ δ → Prop}
    (h : c.Returns w p) : ∃ w', c.exec w = .ok () w' ∧ p w' := by
  unfold Command.Returns at h
  split at h
  · next w' he => exact ⟨w', he, h⟩
  · exact h.elim
  · exact h.elim

end Commands

end KernelAx.Eevdf
