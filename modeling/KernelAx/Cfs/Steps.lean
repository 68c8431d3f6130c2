import KernelAx.Cfs.Lines

/-!
# CFS — what an operation can do

One description for each operation that links or unlinks a task: when it fails, and the world that
it leaves if it succeeds. A task enters a ready queue by `enter`, with a number that was drawn at
one of the ends of a line (`Draws`) and a key that was staged for its class (`Staged`). `Agrees` is
for what is left when the floors, the running tasks and the tasks of no one are not looked at.
-/

namespace KernelAx.Cfs

open Eevdf (SchedulerError)
open Function (update update_self update_of_ne forall_update_iff)

open CfsTask

variable {ι κ : Type}

/-! ### Virtual runtimes -/

theorem saturate_of_range {x : Int} (h : isizeMin ≤ x ∧ x ≤ isizeMax) : saturate x = x := by
  unfold saturate
  omega

theorem saturate_range (x : Int) : isizeMin ≤ saturate x ∧ saturate x ≤ isizeMax := by
  unfold saturate isizeMin isizeMax
  omega

namespace CfsTask

theorem getVruntimeWith_range (task : CfsTask) (params : CfsTaskParams) :
    isizeMin ≤ task.getVruntimeWith params ∧ task.getVruntimeWith params ≤ isizeMax := by
  unfold getVruntimeWith
  dsimp only
  split <;> exact saturate_range _

variable {task : CfsTask}

/-- A task that has not run since it was placed has the runtime at which it was placed. -/
theorem getVruntimeWith_of_delta (hdelta : task.delta = 0)
    (hrange : isizeMin ≤ task.initVruntime ∧ task.initVruntime ≤ isizeMax)
    (params : CfsTaskParams) : task.getVruntimeWith params = task.initVruntime := by
  have hzero : (saturate (0 * 1024)).tdiv (weightFor params) = 0 := Int.zero_tdiv _
  unfold getVruntimeWith
  dsimp only
  rw [hdelta, hzero, add_zero, saturate_of_range hrange]
  exact ite_self _

theorem claim_ok {task' : CfsTask} {id : Nat} (h : task.claim id = .ok task') :
    task.queueOwner = unowned ∧ task' = { task with queueOwner := id } := by
  unfold claim at h
  split_ifs at h with hfree
  cases h
  exact ⟨hfree, rfl⟩

theorem readyKey_lt {task' : CfsTask} : task.readyKey < task'.readyKey ↔
    task.readyClass < task'.readyClass ∨ task.readyClass = task'.readyClass ∧
      (task.readyOrder < task'.readyOrder ∨
        task.readyOrder = task'.readyOrder ∧ task.sequence < task'.sequence) := by
  unfold readyKey
  rw [Prod.Lex.toLex_lt_toLex, Prod.Lex.toLex_lt_toLex]

/-- The key is the one of the task's class. -/
def Staged (task : CfsTask) : Prop :=
  if task.params.isRealtime then
    task.readyClass = 0 ∧ task.readyOrder = rtPriorityKey task.params.rtPriority
  else task.readyClass = 1 ∧ task.readyOrder = task.initVruntime

theorem staged_realtime (hrt : task.params.isRealtime = true) (sequence : Int) :
    (task.stageReadyKey 0 (rtPriorityKey task.params.rtPriority) sequence).Staged := by
  unfold Staged
  rw [if_pos (by exact hrt)]
  exact ⟨rfl, rfl⟩

theorem staged_fair (hrt : task.params.isRealtime = false) {vruntime : Int}
    (hinit : vruntime = task.initVruntime) (sequence : Int) :
    (task.stageReadyKey 1 vruntime sequence).Staged := by
  unfold Staged
  rw [if_neg (by exact ne_true_of_eq_false hrt)]
  exact ⟨rfl, hinit⟩

theorem Staged.of_realtime (h : task.Staged) (hrt : task.params.isRealtime = true) :
    task.readyClass = 0 ∧ task.readyOrder = rtPriorityKey task.params.rtPriority := by
  unfold Staged at h
  rwa [if_pos hrt] at h

theorem Staged.of_fair (h : task.Staged) (hrt : task.params.isRealtime = false) :
    task.readyClass = 1 ∧ task.readyOrder = task.initVruntime := by
  unfold Staged at h
  rwa [if_neg (ne_true_of_eq_false hrt)] at h

theorem Staged.readyIsRt (h : task.Staged) : task.readyIsRt = task.params.isRealtime := by
  unfold Staged at h
  unfold CfsTask.readyIsRt
  split_ifs at h with hrt
  · rw [h.1, hrt]
    rfl
  · rw [h.1, Bool.eq_false_of_not_eq_true hrt]
    rfl

end CfsTask

namespace CfsTask

/-- The operations on a task change only tasks of no scheduler, and leave them so. -/
theorem configure_snd (task : CfsTask) (ticks : Nat) (params : CfsTaskParams) :
    (task.configure ticks params).2.queueOwner = task.queueOwner ∧
      (task.queueOwner ≠ unowned → (task.configure ticks params).2 = task) := by
  unfold configure
  split
  · exact ⟨rfl, fun _ => rfl⟩
  · split_ifs with hfree
    · refine ⟨?_, fun h => absurd hfree h⟩
      unfold setSchedParams
      dsimp only
      split <;> rfl
    · exact ⟨rfl, fun _ => rfl⟩
    · exact ⟨rfl, fun _ => rfl⟩

theorem configureNice_snd {task : CfsTask} (ticks : Nat) (nice : Int) :
    (task.configureNice ticks nice).2.queueOwner = task.queueOwner := by
  unfold configureNice
  split_ifs
  · rfl
  · split
    · rfl
    · unfold setSchedParams
      dsimp only
      split <;> rfl
  · rfl
  · rfl

theorem inheritFairVruntimeFrom_snd (task parent : CfsTask) :
    (task.inheritFairVruntimeFrom parent).2.queueOwner = task.queueOwner ∧
      (task.queueOwner ≠ unowned → (task.inheritFairVruntimeFrom parent).2 = task) := by
  unfold inheritFairVruntimeFrom
  split_ifs with hfree
  · exact ⟨rfl, fun _ => rfl⟩
  · exact ⟨rfl, fun h => absurd hfree h⟩
  · exact ⟨rfl, fun _ => rfl⟩
  · exact ⟨rfl, fun _ => rfl⟩

theorem setSchedParams_spec (task : CfsTask) (ticks : Nat) (params : CfsTaskParams) :
    (task.setSchedParams ticks params).params = params ∧
      (task.setSchedParams ticks params).delta = 0 ∧
      (task.setSchedParams ticks params).initVruntime = task.getVruntimeWith task.params := by
  unfold setSchedParams
  dsimp only
  split <;> exact ⟨rfl, rfl, rfl⟩

end CfsTask

theorem CfsTaskParams.validated_isRealtime {params params' : CfsTaskParams}
    (h : params.validated = some params') : params'.isRealtime = params.isRealtime := by
  obtain ⟨c, nice, priority⟩ := params
  unfold validated at h
  cases c <;> (dsimp only at h; split_ifs at h; cases h; rfl)

/-! ### Numbers -/

/-- A number of the line of the real-time (`true`) or the fair tasks, at the front (`true`) or the
back, and the scheduler after it was drawn. -/
inductive Draws (scheduler : CfsScheduler ι) : Bool → Bool → Int → CfsScheduler ι → Prop
  | front : Draws scheduler true true (scheduler.rtFrontSeq - 1)
      { scheduler with rtFrontSeq := scheduler.rtFrontSeq - 1 }
  | back : Draws scheduler true false scheduler.rtBackSeq
      { scheduler with rtBackSeq := scheduler.rtBackSeq + 1 }
  | fair : Draws scheduler false false scheduler.fairSequence
      { scheduler with fairSequence := scheduler.fairSequence + 1 }

namespace Draws

variable {scheduler scheduler' : CfsScheduler ι} {first : Bool} {sequence : Int}

theorem of_rt (h : scheduler.nextRtSeq first = .ok (sequence, scheduler')) :
    Draws scheduler true first sequence scheduler' := by
  unfold CfsScheduler.nextRtSeq at h
  cases first with
  | true =>
    rw [if_pos rfl] at h
    split at h
    · cases h
      exact .front
    · cases h
  | false =>
    rw [if_neg Bool.false_ne_true] at h
    split at h
    · cases h
      exact .back
    · cases h

theorem of_fair (h : scheduler.nextFairSequence = .ok (sequence, scheduler')) :
    Draws scheduler false false sequence scheduler' := by
  unfold CfsScheduler.nextFairSequence at h
  split at h
  · cases h
    exact .fair
  · cases h

theorem of_class {realtime : Bool}
    (h : (if realtime then scheduler.nextRtSeq false else scheduler.nextFairSequence)
      = .ok (sequence, scheduler')) : Draws scheduler realtime false sequence scheduler' := by
  cases realtime with
  | true => exact of_rt h
  | false => exact of_fair h

variable {realtime : Bool} (h : Draws scheduler realtime first sequence scheduler')
include h

theorem id : scheduler'.id = scheduler.id := by cases h <;> rfl

theorem readyQueue : scheduler'.readyQueue = scheduler.readyQueue := by cases h <;> rfl

theorem minVruntime : scheduler'.minVruntime = scheduler.minVruntime := by cases h <;> rfl

theorem of_eq_false (hfair : realtime = false) : sequence = scheduler.fairSequence := by
  cases h with
  | front | back => cases hfair
  | fair => rfl

end Draws

theorem realtimePlace_front {task : CfsTask} {action : CfsEnqueueAction}
    (hrt : task.params.isRealtime = true) :
    (realtimePlace task action).1 = decide (Resumes task action) := by
  rw [Bool.eq_iff_iff, decide_eq_true_iff]
  unfold realtimePlace Resumes
  cases hclass : task.params.class with
  | fifo => cases action with
    | requeue preempt => cases preempt <;> simp
    | _ => simp
  | roundRobin => cases action with
    | requeue preempt =>
      cases preempt with
      | false => simp
      | true => by_cases hslice : 0 < task.rrTimeSlice <;> simp [hslice]
    | _ => simp
  | normal | batch | idle => simp [CfsTaskParams.isRealtime, hclass] at hrt

theorem fairPlace_kept (tasks : ι → CfsTask) (scheduler : CfsScheduler ι) (task : CfsTask)
    (action : CfsEnqueueAction) :
    (fairPlace tasks scheduler task action).2.params = task.params ∧
      (fairPlace tasks scheduler task action).2.queueOwner = task.queueOwner := by
  cases action <;> exact ⟨rfl, rfl⟩

/-! ### Worlds -/

/-- The task is the same for the scheduler that owns it. -/
def CfsTask.Kept (task task' : CfsTask) : Prop :=
  task'.params = task.params ∧ task'.readyClass = task.readyClass ∧
    task'.readyOrder = task.readyOrder ∧ task'.sequence = task.sequence ∧
    task'.initVruntime = task.initVruntime

theorem CfsTask.Kept.refl {task : CfsTask} : task.Kept task := ⟨rfl, rfl, rfl, rfl, rfl⟩

theorem CfsTask.kept_stageMigrationVruntimeOffset (task : CfsTask) (floor : Int) :
    task.Kept (task.stageMigrationVruntimeOffset floor) := by
  unfold stageMigrationVruntimeOffset
  split <;> exact ⟨rfl, rfl, rfl, rfl, rfl⟩

theorem CfsTask.owner_stageMigrationVruntimeOffset (task : CfsTask) (floor : Int) :
    (task.stageMigrationVruntimeOffset floor).queueOwner = task.queueOwner := by
  unfold stageMigrationVruntimeOffset
  split <;> rfl

/-- The scheduler is the same but for its floor. -/
def CfsScheduler.Alike (scheduler scheduler' : CfsScheduler ι) : Prop :=
  scheduler'.readyQueue = scheduler.readyQueue ∧ scheduler'.id = scheduler.id ∧
    scheduler'.fairSequence = scheduler.fairSequence ∧
    scheduler'.rtFrontSeq = scheduler.rtFrontSeq ∧ scheduler'.rtBackSeq = scheduler.rtBackSeq

theorem CfsScheduler.Alike.refl {scheduler : CfsScheduler ι} : scheduler.Alike scheduler :=
  ⟨rfl, rfl, rfl, rfl, rfl⟩

/-- Tasks stay where they are; what is written is not read in a queue. -/
structure Agrees (w w' : World ι κ) : Prop where
  schedulers (s : κ) : (w.schedulers s).Alike (w'.schedulers s)
  nextSchedulerId : w'.nextSchedulerId = w.nextSchedulerId
  reservations : w'.reservations = w.reservations
  owner (t : ι) : (w'.tasks t).queueOwner = (w.tasks t).queueOwner
  kept {t : ι} : (w.tasks t).queueOwner ≠ unowned → (w.tasks t).Kept (w'.tasks t)

namespace Agrees

variable {w w' w'' : World ι κ}

theorem refl : Agrees w w := ⟨fun _ => .refl, rfl, rfl, fun _ => rfl, fun _ => .refl⟩

theorem trans (h : Agrees w w') (h' : Agrees w' w'') : Agrees w w'' where
  schedulers s := by
    obtain ⟨h1, h2, h3, h4, h5⟩ := h.schedulers s
    obtain ⟨h1', h2', h3', h4', h5'⟩ := h'.schedulers s
    exact ⟨h1'.trans h1, h2'.trans h2, h3'.trans h3, h4'.trans h4, h5'.trans h5⟩
  nextSchedulerId := h'.nextSchedulerId.trans h.nextSchedulerId
  reservations := h'.reservations.trans h.reservations
  owner t := (h'.owner t).trans (h.owner t)
  kept {t} ht := by
    obtain ⟨h1, h2, h3, h4, h5⟩ := h.kept ht
    obtain ⟨h1', h2', h3', h4', h5'⟩ := h'.kept (t := t) (by rwa [h.owner])
    exact ⟨h1'.trans h1, h2'.trans h2, h3'.trans h3, h4'.trans h4, h5'.trans h5⟩

theorem id (h : Agrees w w') (s : κ) : (w'.schedulers s).id = (w.schedulers s).id :=
  (h.schedulers s).2.1

theorem readyQueue (h : Agrees w w') (s : κ) :
    (w'.schedulers s).readyQueue = (w.schedulers s).readyQueue :=
  (h.schedulers s).1

end Agrees

namespace World

variable (w : World ι κ) (s : κ) (t : ι) (task : CfsTask) (scheduler : CfsScheduler ι)

section Schedulers

variable [DecidableEq κ]

/-- The floor is computed again, but not for a real-time task. -/
def settle (realtime : Bool) : World ι κ := if realtime then w else w.refresh s none

theorem tasks_settle (realtime : Bool) : (w.settle s realtime).tasks = w.tasks := by
  cases realtime <;> rfl

theorem schedulers_settle_of_ne {u : κ} (hu : u ≠ s) (realtime : Bool) :
    (w.settle s realtime).schedulers u = w.schedulers u := by
  cases realtime with
  | true => rfl
  | false => exact update_of_ne hu ..

theorem settle_realtime {realtime : Bool} (h : realtime = true) : w.settle s realtime = w :=
  if_pos h

theorem settle_fair {realtime : Bool} (h : realtime = false) :
    w.settle s realtime = w.refresh s none :=
  if_neg (ne_true_of_eq_false h)

theorem agrees_setScheduler (h : (w.schedulers s).Alike scheduler) :
    Agrees w (w.setScheduler s scheduler) where
  __ := Agrees.refl (w := w)
  schedulers := (forall_update_iff w.schedulers fun u x => (w.schedulers u).Alike x).mpr
    ⟨h, fun _ _ => .refl⟩

theorem agrees_refresh (v : Option Int) : Agrees w (w.refresh s v) :=
  w.agrees_setScheduler s _ ⟨rfl, rfl, rfl, rfl, rfl⟩

theorem agrees_settle (realtime : Bool) : Agrees w (w.settle s realtime) := by
  cases realtime with
  | true => exact .refl
  | false => exact w.agrees_refresh s none

variable {s scheduler} in
/-- What one scheduler keeps, all do. -/
theorem update_frame {α : Type} (f : CfsScheduler ι → α) (h : f scheduler = f (w.schedulers s))
    (u : κ) : f (update w.schedulers s scheduler u) = f (w.schedulers u) :=
  (forall_update_iff w.schedulers fun u x => f x = f (w.schedulers u)).mpr ⟨h, fun _ _ => rfl⟩ u

variable {w s}

theorem ensureId_ok {id : Nat} (hnext : w.nextSchedulerId ≠ unowned)
    (h : (w.ensureId s).1 = .ok id) :
    ((w.ensureId s).2.schedulers s).id = id ∧ id ≠ unowned := by
  unfold ensureId at h ⊢
  split_ifs at h ⊢ with hnew
  · cases h
    have hs : ((w.setScheduler s { w.schedulers s with id := w.nextSchedulerId }).schedulers s) =
        { w.schedulers s with id := w.nextSchedulerId } := update_self ..
    exact ⟨congrArg CfsScheduler.id hs, hnext⟩
  · cases h
    exact ⟨rfl, hnew⟩

theorem tasks_ensureId : (w.ensureId s).2.tasks = w.tasks := by
  unfold ensureId
  split_ifs <;> rfl

theorem reservations_ensureId : (w.ensureId s).2.reservations = w.reservations := by
  unfold ensureId
  split_ifs <;> rfl

/-- Only the identifier of a scheduler changes, and only if it has none. -/
theorem schedulers_ensureId (u : κ) : ∃ id, (w.ensureId s).2.schedulers u =
    { w.schedulers u with id } ∧
      (id = (w.schedulers u).id ∨ (w.schedulers u).id = unowned ∧ id = w.nextSchedulerId) := by
  unfold ensureId
  split_ifs with hnew hlt
  · rcases eq_or_ne u s with rfl | hu
    · exact ⟨w.nextSchedulerId, update_self .., .inr ⟨hnew, rfl⟩⟩
    · exact ⟨(w.schedulers u).id, update_of_ne hu .., .inl rfl⟩
  · exact ⟨(w.schedulers u).id, rfl, .inl rfl⟩
  · exact ⟨(w.schedulers u).id, rfl, .inl rfl⟩

theorem ensureId_of_identified (h : (w.schedulers s).id ≠ unowned) :
    w.ensureId s = (.ok (w.schedulers s).id, w) := if_neg h

end Schedulers

variable [DecidableEq ι]

theorem kept_setTask (h : (w.tasks t).Kept task) (u : ι) :
    (w.tasks u).Kept (update w.tasks t task u) :=
  (forall_update_iff w.tasks fun u x => (w.tasks u).Kept x).mpr ⟨h, fun _ _ => .refl⟩ u

theorem agrees_setTask (howner : task.queueOwner = (w.tasks t).queueOwner)
    (hkept : (w.tasks t).queueOwner ≠ unowned → (w.tasks t).Kept task) :
    Agrees w (w.setTask t task) where
  __ := Agrees.refl (w := w)
  owner := (forall_update_iff w.tasks fun u x => x.queueOwner = (w.tasks u).queueOwner).mpr
    ⟨howner, fun _ _ => rfl⟩
  kept {u} := (forall_update_iff w.tasks fun u x =>
    (w.tasks u).queueOwner ≠ unowned → (w.tasks u).Kept x).mpr ⟨hkept, fun _ _ _ => .refl⟩ u

theorem agrees_stop : Agrees w (w.stop t) :=
  ⟨fun _ => .refl, rfl, rfl, fun _ => rfl, fun _ => .refl⟩

variable [DecidableEq κ]

/-- The task is linked as it is given, and the scheduler is the one that is given. -/
def enter : World ι κ := ((w.setTask t task).setScheduler s scheduler).link s t

/-- The task is unlinked. -/
def leave : World ι κ :=
  (w.setTask t task).setScheduler s
    { w.schedulers s with readyQueue := (w.schedulers s).readyQueue.erase t }

theorem schedulers_leave : (w.leave s t task).schedulers = update w.schedulers s
    { w.schedulers s with readyQueue := (w.schedulers s).readyQueue.erase t } := rfl

theorem schedulers_enter : (w.enter s t task scheduler).schedulers =
    update w.schedulers s { scheduler with
      readyQueue := insertBy (fun u => (update w.tasks t task u).readyKey) t
        scheduler.readyQueue } := by
  unfold enter link setScheduler setTask
  dsimp only
  rw [Function.update_idem, update_self]

variable {s' : κ}

theorem mem_enter {u : ι} (h : scheduler.readyQueue = (w.schedulers s).readyQueue) :
    u ∈ ((w.enter s t task scheduler).schedulers s').readyQueue ↔
      s' = s ∧ u = t ∨ u ∈ (w.schedulers s').readyQueue := by
  rw [schedulers_enter]
  rcases eq_or_ne s' s with rfl | hs
  · rw [update_self, mem_insertBy, h, eq_self, true_and]
  · rw [update_of_ne hs]
    simp only [hs, false_and, false_or]

theorem id_enter (h : scheduler.id = (w.schedulers s).id) :
    ((w.enter s t task scheduler).schedulers s').id = (w.schedulers s').id := by
  rw [schedulers_enter]
  exact w.update_frame (·.id) (by exact h) s'

theorem minVruntime_enter (h : scheduler.minVruntime = (w.schedulers s).minVruntime) :
    ((w.enter s t task scheduler).schedulers s').minVruntime = (w.schedulers s').minVruntime := by
  rw [schedulers_enter]
  exact w.update_frame (·.minVruntime) (by exact h) s'

theorem minVruntime_leave :
    ((w.leave s t task).schedulers s').minVruntime = (w.schedulers s').minVruntime :=
  w.update_frame (·.minVruntime) (by rfl) s'

theorem mem_leave {u : ι} (h : (w.schedulers s).readyQueue.Nodup) :
    u ∈ ((w.leave s t task).schedulers s').readyQueue ↔
      ¬ (s' = s ∧ u = t) ∧ u ∈ (w.schedulers s').readyQueue := by
  rw [schedulers_leave]
  rcases eq_or_ne s' s with rfl | hs
  · rw [update_self, h.mem_erase_iff, eq_self, true_and]
  · rw [update_of_ne hs]
    simp only [hs, false_and, not_false_eq_true, true_and]

theorem id_leave : ((w.leave s t task).schedulers s').id = (w.schedulers s').id :=
  w.update_frame (·.id) (by rfl) s'

theorem enter_self : w.enter s t task (w.schedulers s) = (w.setTask t task).link s t :=
  congrArg (link · s t) (congrArg (fun schedulers => { w.setTask t task with schedulers })
    (Function.update_eq_self s w.schedulers))

theorem enter_setTask (task' : CfsTask) :
    (w.setTask t task').enter s t task scheduler = w.enter s t task scheduler := by
  have h : (w.setTask t task').setTask t task = w.setTask t task :=
    congrArg (fun tasks => { w with tasks }) (Function.update_idem task' task w.tasks)
  unfold enter
  rw [h]

end World

/-! ### Operations -/

variable [DecidableEq ι] [DecidableEq κ]

/-- The task is owned and has its key and a number. -/
structure Joins (w : World ι κ) (s : κ) (first : Bool) (task : CfsTask)
    (scheduler : CfsScheduler ι) : Prop where
  staged : task.Staged
  owner : task.queueOwner = (w.schedulers s).id
  draws : Draws (w.schedulers s) task.params.isRealtime first task.sequence scheduler

/-- `enqueue_with_action`, once the scheduler has its identifier. -/
inductive Enqueues (w : World ι κ) (s : κ) (t : ι) (action : CfsEnqueueAction) :
    Except SchedulerError Unit × World ι κ → Prop
  | refused (e : SchedulerError) : Enqueues w s t action (.error e, w)
  | enqueued {task : CfsTask} {scheduler : CfsScheduler ι} {w' : World ι κ}
      (identified : (w.schedulers s).id ≠ unowned) (free : (w.tasks t).queueOwner = unowned)
      (joins : Joins w s (decide (Resumes (w.tasks t) action)) task scheduler)
      (params : task.params = (w.tasks t).params)
      (order : task.params.isRealtime = false → task.readyOrder = (fairPlace w.tasks scheduler
        { w.tasks t with queueOwner := (w.schedulers s).id } action).1)
      (world : w' = ((w.enter s t task scheduler).settle s task.params.isRealtime).stop t) :
      Enqueues w s t action (.ok (), w')

/-- `reserve_new_task`, once the scheduler has its identifier. -/
inductive Reserves (w : World ι κ) (s : κ) (t : ι) :
    Except SchedulerError (CfsTaskReservation ι) × World ι κ → Prop
  | refused (e : SchedulerError) : Reserves w s t (.error e, w)
  | reserved {sequence : Int} {scheduler : CfsScheduler ι}
      (identified : (w.schedulers s).id ≠ unowned) (free : (w.tasks t).queueOwner = unowned)
      (draws : Draws (w.schedulers s) (w.tasks t).params.isRealtime false sequence scheduler) :
      Reserves w s t (.ok ⟨t, (w.schedulers s).id, sequence, (w.tasks t).params⟩,
        { (w.setTask t { w.tasks t with queueOwner := configuring }).setScheduler s scheduler with
          reservations :=
            ⟨t, (w.schedulers s).id, sequence, (w.tasks t).params⟩ :: w.reservations })

/-- The outcomes of `commit_reserved_task`. -/
inductive Commits (w : World ι κ) (s : κ) (r : CfsTaskReservation ι) :
    Except SchedulerError Unit × World ι κ → Prop
  | refused (e : SchedulerError) : Commits w s r (.error e, w)
  | committed {task : CfsTask} {w' : World ι κ} (held : r ∈ w.reservations)
      (scheduler : r.schedulerId = (w.schedulers s).id)
      (staged : task.Staged) (params : task.params = r.params)
      (owner : task.queueOwner = (w.schedulers s).id) (sequence : task.sequence = r.sequence)
      (order : task.params.isRealtime = false →
        task.readyOrder = (w.schedulers s).queueFloor ∨
          task.readyOrder = max ((w.tasks r.task).getVruntimeWith r.params)
            (w.schedulers s).queueFloor)
      (world : w' = ((World.enter { w with reservations := w.reservations.erase r } s r.task task
        (w.schedulers s)).settle s task.params.isRealtime).stop r.task) :
      Commits w s r (.ok (), w')

/-- `remove_owned_task`. -/
inductive Removes (w : World ι κ) (s : κ) (t : ι) (nextOwner : Nat) :
    Except SchedulerError (Option ι) × World ι κ → Prop
  | refused (e : SchedulerError) : Removes w s t nextOwner (.error e, w)
  | absent : Removes w s t nextOwner (.ok none, w)
  | removed {task : CfsTask} {w' : World ι κ} (linked : t ∈ (w.schedulers s).readyQueue)
      (owned : (w.tasks t).queueOwner = (w.schedulers s).id)
      (kept : (w.tasks t).Kept task) (owner : task.queueOwner = nextOwner)
      (world : w' = (w.leave s t task).settle s (w.tasks t).readyIsRt) :
      Removes w s t nextOwner (.ok (some t), w')

/-- The outcomes of `pick_next_task`. -/
inductive Picks (w : World ι κ) (s : κ) : Option ι × World ι κ → Prop
  | none (empty : (w.schedulers s).readyQueue = []) : Picks w s (none, w.refresh s none)
  | some {t : ι} {rest : List ι} {w' : World ι κ} (ready : (w.schedulers s).readyQueue = t :: rest)
      (world : w' = { w.leave s t { w.tasks t with queueOwner := unowned } with
        running := update w.running s (t :: w.running s) }) :
      Picks w s (some t, if (w.tasks t).readyIsRt then w'
        else w'.refresh s (some (w.tasks t).readyOrder))

/-- `set_task_params`: a task that is linked is removed and enters again. -/
inductive Reconfigures (w : World ι κ) (s : κ) (t : ι) (params : CfsTaskParams) :
    Except SchedulerError Unit × World ι κ → Prop
  | refused (e : SchedulerError) : Reconfigures w s t params (.error e, w)
  | configured {task result} (free : (w.tasks t).queueOwner = unowned)
      (owner : task.queueOwner = unowned) :
      Reconfigures w s t params (result, w.setTask t task)
  | restored {w'} (e : SchedulerError) (agrees : Agrees w w')
      (floor : ∀ s, (w'.schedulers s).minVruntime = (w.schedulers s).minVruntime) :
      Reconfigures w s t params (.error e, w')
  | moved {task task' scheduler w₁ w'} (linked : t ∈ (w.schedulers s).readyQueue)
      (owned : (w.tasks t).queueOwner = (w.schedulers s).id)
      (kept : (w.tasks t).Kept task)
      (removed : w₁ = (w.leave s t task).settle s (w.tasks t).readyIsRt)
      (joins : Joins w₁ s false task' scheduler)
      (realtime : task'.params.isRealtime = params.isRealtime)
      (order : task'.params.isRealtime = false →
        isizeMin ≤ task'.readyOrder ∧ task'.readyOrder ≤ isizeMax)
      (world : w' = (w₁.enter s t task' scheduler).settle s task'.params.isRealtime) :
      Reconfigures w s t params (.ok (), w')

/-- `task_tick`: the runtime of a fair task is seen by the floor. -/
inductive Ticks (w : World ι κ) (s : κ) (t : ι) : World ι κ → Prop
  | unseen {task : CfsTask} (kept : (w.tasks t).Kept task)
      (owner : task.queueOwner = (w.tasks t).queueOwner) : Ticks w s t (w.setTask t task)
  | seen {task : CfsTask} (kept : (w.tasks t).Kept task)
      (owner : task.queueOwner = (w.tasks t).queueOwner) :
      Ticks w s t ((w.setTask t task).refresh s (some (task.getVruntimeWith task.params)))

namespace World

variable {w : World ι κ} {s : κ} {t : ι}

theorem enqueues (hnext : w.nextSchedulerId ≠ unowned) (action : CfsEnqueueAction) :
    Enqueues (w.ensureId s).2 s t action (w.enqueueWithAction s t action) := by
  unfold enqueueWithAction
  split
  case _ e w' hid =>
    obtain rfl : (w.ensureId s).2 = w' := congrArg Prod.snd hid
    exact .refused e
  case _ id w' hid =>
    obtain rfl : (w.ensureId s).2 = w' := congrArg Prod.snd hid
    obtain ⟨rfl, hidentified⟩ := ensureId_ok hnext (congrArg Prod.fst hid)
    generalize (w.ensureId s).2 = w at hidentified ⊢
    split
    case _ e _ => exact .refused e
    case _ task hclaim =>
      obtain ⟨hfree, rfl⟩ := claim_ok hclaim
      by_cases hrt : (w.tasks t).params.isRealtime = true
      · rw [if_pos hrt]
        dsimp only
        split
        case _ e _ => exact .refused e
        case _ sequence scheduler hseq =>
          rw [realtimePlace_front (by exact hrt)] at hseq
          generalize (realtimePlace _ action).2 = resetRr
          -- renewing the slice changes neither the parameters nor the owner
          generalize htask : (if resetRr = true then _ else _ : CfsTask) = task
          have hparams : task.params = (w.tasks t).params := by
            rw [← htask]
            cases resetRr <;> rfl
          have howner : task.queueOwner = (w.schedulers s).id := by
            rw [← htask]
            cases resetRr <;> rfl
          have hrt' : task.params.isRealtime = true := hparams ▸ hrt
          have hstaged := staged_realtime hrt' sequence
          have hdraws := Draws.of_rt hseq
          rw [← hrt'] at hdraws
          refine .enqueued hidentified hfree ⟨hstaged, howner, hdraws⟩ hparams (fun hfair => ?_) ?_
          · exact absurd hfair (by exact ne_false_of_eq_true hrt')
          · rw [settle_realtime _ _ (by exact hrt')]
            rfl
      · rw [if_neg hrt]
        split
        case _ e _ => exact .refused e
        case _ sequence scheduler hseq =>
          have hplace := fairPlace_kept w.tasks scheduler
            { w.tasks t with queueOwner := (w.schedulers s).id } action
          generalize heq : fairPlace w.tasks scheduler _ action = place at hplace ⊢
          obtain ⟨vruntime, task⟩ := place
          obtain ⟨hparams, howner⟩ := hplace
          have hfair : task.params.isRealtime = false := by
            rw [hparams]
            exact Bool.eq_false_of_not_eq_true hrt
          have hfair' : (task.rebaseVruntime vruntime).params.isRealtime = false := hfair
          have hstaged := staged_fair hfair' (rfl : vruntime = _) sequence
          have hresumes : decide (Resumes (w.tasks t) action) = false := by
            rw [decide_eq_false_iff_not]
            rintro ⟨-, hclass | ⟨hclass, -⟩⟩ <;>
              exact hrt (by simp [CfsTaskParams.isRealtime, hclass])
          have hdraws : Draws (w.schedulers s) (task.rebaseVruntime vruntime).params.isRealtime
              (decide (Resumes (w.tasks t) action)) sequence scheduler := by
            rw [hresumes, hfair']
            exact Draws.of_fair hseq
          refine .enqueued hidentified hfree ⟨hstaged, howner, hdraws⟩ hparams (fun _ => ?_) ?_
          · exact congrArg Prod.fst heq.symm
          · rw [settle_fair _ _ (by exact hfair)]
            rfl

theorem reserves (hnext : w.nextSchedulerId ≠ unowned) :
    Reserves (w.ensureId s).2 s t (w.reserveNewTask s t) := by
  unfold reserveNewTask
  split
  case _ e w' hid =>
    obtain rfl : (w.ensureId s).2 = w' := congrArg Prod.snd hid
    exact .refused e
  case _ id w' hid =>
    obtain rfl : (w.ensureId s).2 = w' := congrArg Prod.snd hid
    obtain ⟨rfl, hidentified⟩ := ensureId_ok hnext (congrArg Prod.fst hid)
    generalize (w.ensureId s).2 = w at hidentified ⊢
    by_cases hfree : (w.tasks t).queueOwner = unowned
    · dsimp only
      rw [if_pos hfree]
      split
      case _ e _ => exact .refused e
      case _ sequence scheduler hseq => exact .reserved hidentified hfree (Draws.of_class hseq)
    · dsimp only
      rw [if_neg hfree]
      split_ifs <;> exact .refused _

theorem commits (r : CfsTaskReservation ι) : Commits w s r (w.commitReservedTask s r) := by
  unfold commitReservedTask
  by_cases hheld : r ∈ w.reservations
  · rw [if_pos hheld]
    dsimp only
    by_cases hid : r.schedulerId ≠ (w.schedulers s).id
    · rw [if_pos hid]
      exact .refused _
    rw [if_neg hid]
    by_cases hbad : (w.tasks r.task).queueOwner ≠ configuring ∨ (w.tasks r.task).params ≠ r.params
    · rw [if_pos hbad]
      exact .refused _
    rw [if_neg hbad]
    obtain ⟨-, hparams⟩ : _ ∧ (w.tasks r.task).params = r.params := by
      simpa only [not_or, not_not] using hbad
    rw [not_not] at hid
    by_cases hrt : r.params.isRealtime = true
    · rw [if_pos hrt]
      generalize htask : (if r.params.class = .roundRobin then _ else _ : CfsTask) = task
      have hparams' : task.params = r.params := by
        rw [← htask]
        split <;> exact hparams
      have howner : task.queueOwner = (w.schedulers s).id := by
        rw [← htask]
        split <;> rfl
      have hrt' : task.params.isRealtime = true := hparams' ▸ hrt
      have hstaged := staged_realtime hrt' r.sequence
      rw [hparams'] at hstaged
      refine .committed hheld hid hstaged hparams' howner rfl (fun hfair => ?_) ?_
      · exact absurd hfair (by exact ne_false_of_eq_true hrt')
      · rw [settle_realtime _ _ (by exact hrt')]
        exact congrArg (stop · r.task) (enter_self _ s r.task _).symm
    · rw [if_neg hrt]
      have hfair : r.params.isRealtime = false := Bool.eq_false_of_not_eq_true hrt
      generalize hv : (if (w.tasks r.task).seededVruntime = true then _ else _ : Int) = vruntime
      have hfair' : ({ w.tasks r.task with
          queueOwner := (w.schedulers s).id, seededVruntime := false }.rebaseVruntime
            vruntime).params.isRealtime = false := by
        rw [← hfair, ← hparams]
        rfl
      have hstaged := staged_fair hfair' (rfl : vruntime = _) r.sequence
      refine .committed hheld hid hstaged hparams rfl rfl (fun _ => ?_) ?_
      · change vruntime = _ ∨ vruntime = _
        rw [← hv]
        split
        · exact .inr rfl
        · exact .inl rfl
      · rw [settle_fair _ _ (by exact hfair')]
        exact congrArg (fun w => (refresh w s none).stop r.task) (enter_self _ s r.task _).symm
  · rw [if_neg hheld]
    exact .refused _

theorem removes (nextOwner : Nat) (preserve : Bool) :
    Removes w s t nextOwner (w.removeOwnedTask s t nextOwner preserve) := by
  unfold removeOwnedTask
  dsimp only
  split
  · exact .absent
  split
  · exact .refused _
  split
  · exact .refused _
  case _ hforeign =>
    split
    case _ hfound =>
      have hlinked : t ∈ (w.schedulers s).readyQueue :=
        (List.dropWhile_suffix _).subset ((List.takeWhile_prefix _).subset hfound)
      have howned : (w.tasks t).queueOwner = (w.schedulers s).id := by
        by_contra hne
        exact hforeign (.inl hne)
      generalize htask : (if preserve = true then _ else _ : CfsTask) = task
      have hkept : (w.tasks t).Kept task := by
        rw [← htask]
        cases preserve with
        | true => exact (w.tasks t).kept_stageMigrationVruntimeOffset _
        | false => exact .refl
      have hclass : task.readyClass = (w.tasks t).readyClass := hkept.2.1
      have hkept' : (w.tasks t).Kept { task with queueOwner := nextOwner } := hkept
      refine .removed hlinked howned hkept' rfl ?_
      rw [hclass]
      unfold settle readyIsRt leave
      by_cases hrt : (w.tasks t).readyClass = 0
      · rw [if_neg (not_not_intro hrt), if_pos (decide_eq_true hrt)]
      · rw [if_pos hrt, if_neg (by simpa using hrt)]
    · exact .refused _

theorem picks : Picks w s (w.pickNextTask s) := by
  unfold pickNextTask
  split
  case _ hempty => exact .none hempty
  case _ t rest hready =>
    refine .some hready ?_
    unfold leave
    rw [hready, List.erase_cons_head]
    rfl

theorem reinserts {params : CfsTaskParams} (hid : (w.schedulers s).id ≠ unowned)
    (hparams : (w.tasks t).params = params) (hdelta : (w.tasks t).delta = 0)
    (hrange : isizeMin ≤ (w.tasks t).initVruntime ∧ (w.tasks t).initVruntime ≤ isizeMax) :
    (∃ e, w.reinsertReconfigured s t params = (.error e, w)) ∨
      ∃ task scheduler, task.params = params ∧ Joins w s false task scheduler ∧
        (task.params.isRealtime = false →
          isizeMin ≤ task.readyOrder ∧ task.readyOrder ≤ isizeMax) ∧
        w.reinsertReconfigured s t params =
          (.ok (), (w.enter s t task scheduler).settle s task.params.isRealtime) := by
  unfold reinsertReconfigured
  rw [ensureId_of_identified hid]
  dsimp only
  by_cases hrt : params.isRealtime = true
  · rw [if_pos hrt]
    have hrt' : (w.tasks t).params.isRealtime = true := hparams ▸ hrt
    split
    case _ e _ => exact .inl ⟨e, rfl⟩
    case _ sequence scheduler hseq =>
      have hdraws := Draws.of_rt hseq
      rw [← hrt'] at hdraws
      have hstaged := staged_realtime hrt' sequence
      rw [hparams] at hstaged
      refine .inr ⟨{ (w.tasks t).stageReadyKey 0 (rtPriorityKey params.rtPriority) sequence with
        queueOwner := (w.schedulers s).id }, scheduler, hparams, ⟨hstaged, rfl, hdraws⟩,
        fun hfair => absurd hfair (by exact ne_false_of_eq_true hrt'), ?_⟩
      rw [settle_realtime _ _ (by exact hrt')]
      rfl
  · rw [if_neg hrt]
    have hfair : (w.tasks t).params.isRealtime = false :=
      hparams ▸ Bool.eq_false_of_not_eq_true hrt
    split
    case _ e _ => exact .inl ⟨e, rfl⟩
    case _ sequence scheduler hseq =>
      have hdraws := Draws.of_fair hseq
      nth_rewrite 1 [← hfair] at hdraws
      have hstaged := staged_fair hfair
        (getVruntimeWith_of_delta hdelta hrange params) sequence
      refine .inr ⟨{ (w.tasks t).stageReadyKey 1 ((w.tasks t).getVruntimeWith params) sequence with
        queueOwner := (w.schedulers s).id }, scheduler, hparams, ⟨hstaged, rfl, hdraws⟩,
        fun _ => getVruntimeWith_range .., ?_⟩
      rw [settle_fair _ _ (by exact hfair)]
      rfl

/-- A task that was taken out and is put back with its old key stands where it stood. -/
theorem agrees_restored {task applied restored : CfsTask} {realtime : Bool} {w' linked : World ι κ}
    (hasc : Ascending (fun u => (w.tasks u).readyKey) (w.schedulers s).readyQueue)
    (ht : t ∈ (w.schedulers s).readyQueue)
    (hw' : w' = (w.leave s t task).settle s realtime)
    (hlinked : linked = ((w'.setTask t applied).setTask t restored).link s t)
    (hkept : (w.tasks t).Kept restored) (howner : restored.queueOwner = (w.tasks t).queueOwner) :
    Agrees w (linked.setScheduler s
      { linked.schedulers s with minVruntime := (w.schedulers s).minVruntime }) := by
  have htasks : linked.tasks = update w.tasks t restored := by
    have hw'tasks : w'.tasks = update w.tasks t task := by
      rw [hw', tasks_settle]
      rfl
    rw [hlinked]
    change update (update w'.tasks t applied) t restored = _
    rw [hw'tasks, Function.update_idem, Function.update_idem]
  have hkey (u : ι) : (linked.tasks u).readyKey = (w.tasks u).readyKey := by
    rw [htasks]
    rcases eq_or_ne u t with rfl | hu
    · obtain ⟨-, hclass, horder, hseq, -⟩ := hkept
      rw [update_self, readyKey, readyKey, hclass, horder, hseq]
    · rw [update_of_ne hu]
  have hleft : ((w.leave s t task).schedulers s).Alike (w'.schedulers s) :=
    hw' ▸ (agrees_settle (w.leave s t task) s realtime).schedulers s
  rw [schedulers_leave, update_self] at hleft
  obtain ⟨hready, hid, hfair, hfront, hback⟩ := hleft
  have hs : linked.schedulers s = { w'.schedulers s with
      readyQueue := insertBy (fun u => (linked.tasks u).readyKey) t
        (w'.schedulers s).readyQueue } := by
    rw [hlinked]
    exact update_self ..
  have hrestored : insertBy (fun u => (linked.tasks u).readyKey) t (w'.schedulers s).readyQueue =
      (w.schedulers s).readyQueue := by
    rw [hready, funext hkey]
    exact hasc.insertBy_erase ht
  have hsettle := agrees_settle (w.leave s t task) s realtime
  rw [← hw'] at hsettle
  have htask (u : ι) : linked.tasks u = (w.setTask t restored).tasks u := congrFun htasks u
  refine (w.agrees_setTask t restored howner fun _ => hkept).trans
    ⟨fun u => ?_, ?_, ?_, fun u => ?_, fun {u} _ => ?_⟩
  · rcases eq_or_ne u s with rfl | hu
    · change (w.schedulers u).Alike (update linked.schedulers u _ u)
      rw [update_self, hs]
      exact ⟨hrestored, hid, hfair, hfront, hback⟩
    · have hother : linked.schedulers u = w'.schedulers u := by
        rw [hlinked]
        exact update_of_ne hu ..
      change (w.schedulers u).Alike (update linked.schedulers s _ u)
      rw [update_of_ne hu, hother, hw', schedulers_settle_of_ne _ _ hu, schedulers_leave,
        update_of_ne hu]
      exact .refl
  · rw [hlinked]
    exact hsettle.nextSchedulerId
  · rw [hlinked]
    exact hsettle.reservations
  · exact congrArg queueOwner (htask u)
  · change ((w.setTask t restored).tasks u).Kept (linked.tasks u)
    rw [htask]
    exact .refl

theorem minVruntime_restored {task applied restored : CfsTask} {realtime : Bool}
    {w' linked : World ι κ} (hw' : w' = (w.leave s t task).settle s realtime)
    (hlinked : linked = ((w'.setTask t applied).setTask t restored).link s t) (u : κ) :
    ((linked.setScheduler s
      { linked.schedulers s with minVruntime := (w.schedulers s).minVruntime }).schedulers
        u).minVruntime = (w.schedulers u).minVruntime := by
  change (update linked.schedulers s _ u).minVruntime = _
  rcases eq_or_ne u s with rfl | hu
  · rw [update_self]
  · have hother : linked.schedulers u = w'.schedulers u := by
      rw [hlinked]
      exact update_of_ne hu ..
    rw [update_of_ne hu, hother, hw', schedulers_settle_of_ne _ _ hu, schedulers_leave,
      update_of_ne hu]

theorem reconfigures (params : CfsTaskParams)
    (hasc : Ascending (fun u => (w.tasks u).readyKey) (w.schedulers s).readyQueue) :
    Reconfigures w s t params (w.setTaskParams s t params) := by
  unfold setTaskParams
  split
  · exact .refused _
  case _ params' hvalid =>
    dsimp only
    split
    case _ hfree =>
      exact .configured hfree (((w.tasks t).configure_snd _ _).1.trans hfree)
    split
    · exact .refused _
    split
    · exact .refused _
    case _ hforeign =>
      have hremoves : Removes w s t configuring (w.removeOwnedTask s t configuring false) :=
        removes configuring false
      generalize w.removeOwnedTask s t configuring false = removal at hremoves ⊢
      cases hremoves with
      | refused e => exact .refused e
      | absent => exact .refused _
      | @removed task w' hlinked howned hkept howner hworld =>
        dsimp only
        have hid : (w'.schedulers s).id = (w.schedulers s).id := by
          rw [hworld, (agrees_settle _ s _).id, schedulers_leave, update_self]
        obtain ⟨hparams, hdelta, hinit⟩ :=
          (w'.tasks t).setSchedParams_spec w'.rrTimesliceTicks params'
        have hrange := (w'.tasks t).getVruntimeWith_range (w'.tasks t).params
        rw [← hinit] at hrange
        generalize (w'.tasks t).setSchedParams w'.rrTimesliceTicks params' = applied
          at hparams hdelta hrange ⊢
        have happlied : (w'.setTask t applied).tasks t = applied := update_self ..
        rw [← happlied] at hparams hdelta hrange
        have hidentified : ((w'.setTask t applied).schedulers s).id ≠ unowned :=
          fun h => hforeign (.inr (hid ▸ h))
        obtain ⟨e, heq⟩ | ⟨task', scheduler, hparams', hjoins, horder, heq⟩ :=
          reinserts hidentified hparams hdelta hrange
        · rw [heq]
          exact .restored e (agrees_restored hasc hlinked hworld rfl ⟨rfl, rfl, rfl, rfl, rfl⟩
            (hid.trans howned.symm)) (minVruntime_restored hworld rfl)
        · rw [heq]
          refine .moved hlinked howned hkept hworld { hjoins with } ?_ horder ?_
          · rw [hparams', CfsTaskParams.validated_isRealtime hvalid]
          · rw [enter_setTask]

/-- `set_priority` is `set_task_params` for a fair task that is linked. -/
theorem setPriority_cases (prio : Int) :
    (∃ e, w.setPriority s t prio = (.error e, w)) ∨
      (∃ result task, (w.tasks t).queueOwner = unowned ∧ task.queueOwner = unowned ∧
        w.setPriority s t prio = (result, w.setTask t task)) ∨
      ((w.tasks t).params.isRealtime = false ∧
        w.setPriority s t prio = w.setTaskParams s t ⟨(w.tasks t).params.class, prio, 0⟩) := by
  unfold setPriority
  dsimp only
  split
  · exact .inl ⟨_, rfl⟩
  split
  case _ hfree =>
    exact .inr (.inl ⟨_, _, hfree, (configureNice_snd _ _).trans hfree, rfl⟩)
  split
  · exact .inl ⟨_, rfl⟩
  split
  · exact .inl ⟨_, rfl⟩
  split
  · exact .inl ⟨_, rfl⟩
  case _ hrt => exact .inr (.inr ⟨Bool.eq_false_of_not_eq_true hrt, rfl⟩)

theorem ticks : Ticks w s t (w.taskTick s t).2 := by
  have hsame : Ticks w s t w := by
    have hself : w.setTask t (w.tasks t) = w :=
      congrArg (fun tasks => { w with tasks }) (Function.update_eq_self t w.tasks)
    have h : Ticks w s t (w.setTask t (w.tasks t)) := .unseen .refl rfl
    rwa [hself] at h
  unfold taskTick
  dsimp only
  split
  · exact hsame
  · split
    · exact hsame
    · split
      · split
        · exact .unseen ⟨rfl, rfl, rfl, rfl, rfl⟩ rfl
        · exact .unseen ⟨rfl, rfl, rfl, rfl, rfl⟩ rfl
      · exact .unseen ⟨rfl, rfl, rfl, rfl, rfl⟩ rfl
  all_goals
    split
    · exact hsame
    · exact .seen ⟨rfl, rfl, rfl, rfl, rfl⟩ rfl

/-! ### Operations that link no task -/

theorem agrees_configure (params : CfsTaskParams) : Agrees w (w.apply (.configure t params)) := by
  obtain ⟨howner, hkept⟩ := (w.tasks t).configure_snd w.rrTimesliceTicks params
  refine w.agrees_setTask t _ howner fun hne => ?_
  rw [hkept hne]
  exact .refl

theorem agrees_inherit (parent : ι) : Agrees w (w.apply (.inheritFairVruntimeFrom t parent)) := by
  obtain ⟨howner, hkept⟩ := (w.tasks t).inheritFairVruntimeFrom_snd (w.tasks parent)
  refine w.agrees_setTask t _ howner fun hne => ?_
  rw [hkept hne]
  exact .refl

theorem agrees_deactivate (reason : DeactivateReason) :
    Agrees w (w.apply (.deactivate s t reason)) := by
  cases reason with
  | migrate =>
    exact w.agrees_setTask t _ ((w.tasks t).owner_stageMigrationVruntimeOffset _)
      fun _ => (w.tasks t).kept_stageMigrationVruntimeOffset _
  | sleep | exit =>
    refine (w.agrees_setTask t (w.tasks t).clearMigrationVruntimeOffset rfl fun _ => ?_).trans
      (agrees_stop ..)
    exact ⟨rfl, rfl, rfl, rfl, rfl⟩

end World

end KernelAx.Cfs
