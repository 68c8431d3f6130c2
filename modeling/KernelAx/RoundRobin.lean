import Mathlib.Data.List.Count
import KernelAx.Eevdf.Task
import KernelAx.Transaction

/-!
# Round robin — the remaining slices

Any number of `RRScheduler`s with the same slice length over one set of tasks. A task brings its
remaining slice with it wherever it is queued: a yield and a preemption without a rest renew it, a
migration renews it when it is used up, and a new task and a wake take it as it is.

Every command is described by what it does to the slices and the ready queues (`exec_effect`); which
scheduler owns a task decides only whether a command is refused.

The ready queue is a library's intrusive list and a `List` here. Assumed of it is that it links at
either end, pops at the front and unlinks the node it is given.
-/

namespace KernelAx.RoundRobin

open Transaction Op
open Function (update update_self update_of_ne)
open Eevdf (unowned)

variable {ι κ : Type}

inductive SchedulerError
  | alreadyQueued
  | foreignQueue
  | identifierExhausted
  | invalidTimeSlice
  deriving DecidableEq

inductive EnqueueReason
  | new
  | wakeup
  | yield
  | preempt
  | migrate
  deriving DecidableEq

/-- A task as the scheduler sees it: the rest of its slice and the queue it is in. -/
structure RRTask where
  timeSlice : Nat
  queueOwner : Nat
  deriving DecidableEq

/-- The tasks, and the ready queue and the identifier of every scheduler. -/
structure World (ι κ : Type) where
  tasks : ι → RRTask
  readyQueue : κ → List ι
  id : κ → Nat
  nextSchedulerId : Nat

abbrev WorldOp (ι κ α : Type) : Type := Op SchedulerError (World ι κ) α

section

variable [DecidableEq ι] [DecidableEq κ] (S : Nat)

def modifyTask (t : ι) (f : RRTask → RRTask) : WorldOp ι κ Unit :=
  modify fun w => { w with tasks := update w.tasks t (f (w.tasks t)) }

def modifyQueue (s : κ) (f : List ι → List ι) : WorldOp ι κ Unit :=
  modify fun w => { w with readyQueue := update w.readyQueue s (f (w.readyQueue s)) }

def ensureId (s : κ) : WorldOp ι κ Nat := do
  let w ← read id
  if w.id s = unowned then
    require (w.nextSchedulerId < 2 ^ 64 - 1) .identifierExhausted
    modify fun w => { w with
      id := update w.id s w.nextSchedulerId
      nextSchedulerId := w.nextSchedulerId + 1 }
    pure w.nextSchedulerId
  else pure (w.id s)

def claim (s : κ) (t : ι) : WorldOp ι κ Unit := do
  require (S ≠ 0) .invalidTimeSlice
  let schedulerId ← ensureId s
  let owner ← read fun w => (w.tasks t).queueOwner
  if owner = unowned then modifyTask t ({ · with queueOwner := schedulerId })
  else fail (if owner = schedulerId then .alreadyQueued else .foreignQueue)

def release (s : κ) (t : ι) : WorldOp ι κ Unit := do
  let w ← read id
  if (w.tasks t).queueOwner = w.id s then modifyTask t ({ · with queueOwner := unowned }) else crash

def resetTimeSlice (t : ι) : WorldOp ι κ Unit := modifyTask t ({ · with timeSlice := S })

def addTask (s : κ) (t : ι) : WorldOp ι κ Unit := do
  claim S s t
  modifyQueue s (· ++ [t])

def removeTask (s : κ) (t : ι) : WorldOp ι κ (Option ι) := do
  let w ← read id
  let owner := (w.tasks t).queueOwner
  if owner = unowned then pure none
  else if owner ≠ w.id s ∨ w.id s = unowned then fail .foreignQueue
  else if t ∈ w.readyQueue s then
    modifyQueue s (·.erase t)
    release s t
    pure (some t)
  else crash

def pickNextTask (s : κ) : WorldOp ι κ (Option ι) := do
  match ← read (·.readyQueue s) with
  | [] => pure none
  | t :: _ =>
    modifyQueue s (·.tail)
    release s t
    pure (some t)

def putPrevTask (s : κ) (prev : ι) (preempt : Bool) : WorldOp ι κ Unit := do
  claim S s prev
  let slice ← read fun w => (w.tasks prev).timeSlice
  if slice > 0 ∧ preempt then modifyQueue s (prev :: ·)
  else
    resetTimeSlice S prev
    modifyQueue s (· ++ [prev])

def enqueueTask (s : κ) (t : ι) (reason : EnqueueReason) : WorldOp ι κ Unit :=
  match reason with
  | .new | .wakeup => addTask S s t
  | .yield => putPrevTask S s t false
  | .preempt => putPrevTask S s t true
  | .migrate => do
    claim S s t
    let slice ← read fun w => (w.tasks t).timeSlice
    if slice = 0 then resetTimeSlice S t
    modifyQueue s (· ++ [t])

def taskTick (current : ι) : WorldOp ι κ Bool := do
  let oldSlice ← read fun w => (w.tasks current).timeSlice
  modifyTask current fun task => { task with timeSlice := task.timeSlice - 1 }
  pure (oldSlice ≤ 1)

/-- The operations of the scheduler, each with the scheduler and the task it is called for. -/
inductive Command (ι κ : Type)
  | enqueue (s : κ) (t : ι) (reason : EnqueueReason)
  | remove (s : κ) (t : ι)
  | pick (s : κ)
  | tick (current : ι)

def Command.exec : Command ι κ → WorldOp ι κ Unit
  | .enqueue s t reason => enqueueTask S s t reason
  | .remove s t => do let _ ← removeTask s t
  | .pick s => do let _ ← pickNextTask s
  | .tick current => do let _ ← taskTick current

end

def World.slice (w : World ι κ) (t : ι) : Nat := (w.tasks t).timeSlice

/-- New tasks, in no queue. -/
def World.initial (S : Nat) : World ι κ := ⟨fun _ => ⟨S, unowned⟩, fun _ => [], fun _ => unowned, 1⟩

/-! ### Effects -/

/-- Whether a task goes to the front of the queue, and its slice from then on. -/
def placed (S : Nat) (reason : EnqueueReason) (slice : Nat) : Bool × Nat :=
  match reason with
  | .new | .wakeup => (false, slice)
  | .yield => (false, S)
  | .preempt => if slice > 0 then (true, slice) else (false, S)
  | .migrate => (false, if slice = 0 then S else slice)

variable [DecidableEq ι] [DecidableEq κ] {S : Nat}

/-- What a command does to the slices and the queues. -/
structure Effect (S : Nat) (w : World ι κ) (cmd : Command ι κ) (w' : World ι κ) : Prop where
  slice (u : ι) : w'.slice u = w.slice u ∨ cmd = .tick u ∧ w'.slice u = w.slice u - 1 ∨
    ∃ s reason, cmd = .enqueue s u reason ∧ w'.slice u = (placed S reason (w.slice u)).2
  queue (s : κ) : (w'.readyQueue s).Sublist (w.readyQueue s) ∨
    ∃ t reason, cmd = .enqueue s t reason ∧ w'.slice t = (placed S reason (w.slice t)).2 ∧
      w'.readyQueue s = if (placed S reason (w.slice t)).1 then t :: w.readyQueue s
        else w.readyQueue s ++ [t]

/-- Neither a slice nor a queue has changed. -/
def Same (w w' : World ι κ) : Prop := w'.slice = w.slice ∧ w'.readyQueue = w.readyQueue

variable {w w' : World ι κ} {s : κ} {t : ι} {cmd : Command ι κ}

omit [DecidableEq ι] [DecidableEq κ] in
theorem Same.effect (h : Same w w') : Effect S w cmd w' :=
  ⟨fun u => .inl (congrFun h.1 u), fun _ => .inl (h.2 ▸ .refl _)⟩

omit [DecidableEq κ] in
theorem slice_modifyTask (w : World ι κ) (t : ι) (task : RRTask) :
    World.slice { w with tasks := update w.tasks t task } =
      update w.slice t task.timeSlice :=
  funext fun _ => Function.apply_update (fun _ => RRTask.timeSlice) ..

omit [DecidableEq κ] in
theorem same_owner (w : World ι κ) (t : ι) (id : Nat) :
    Same w { w with tasks := update w.tasks t { w.tasks t with queueOwner := id } } :=
  ⟨(slice_modifyTask ..).trans (Function.update_eq_self t w.slice), rfl⟩

theorem claim_same : Post (claim S s t) w (fun _ w' => Same w w') fun _ w' => Same w w' := by
  unfold claim ensureId modifyTask
  simp only [post_bind, post_require, post_read, post_ite, post_modify, post_pure, post_fail]
  refine ⟨fun _ => ⟨fun _ => ⟨fun _ => ⟨fun _ => ?_, fun _ => ?_⟩, fun _ => ⟨rfl, rfl⟩⟩,
    fun _ => ⟨fun _ => same_owner .., fun _ => ⟨rfl, rfl⟩⟩⟩, fun _ => ⟨rfl, rfl⟩⟩
  · exact same_owner ..
  · exact ⟨rfl, rfl⟩

omit [DecidableEq κ] in
theorem release_same : Post (release s t) w (fun _ w' => Same w w') fun _ _ => False := by
  unfold release modifyTask
  rw [post_bind, post_read, post_ite]
  exact ⟨fun _ => same_owner .., fun _ => trivial⟩

variable {reason : EnqueueReason} {slice : Nat}

/-- A task that was claimed gets its slice and its place. -/
theorem Effect.enter {w'' : World ι κ} {front : Bool} (hsame : Same w w')
    (hplaced : placed S reason (w'.slice t) = (front, slice))
    (hslice : w''.slice = update w'.slice t slice)
    (hqueue : w''.readyQueue = update w'.readyQueue s
      (if front then t :: w'.readyQueue s else w'.readyQueue s ++ [t])) :
    Effect S w (.enqueue s t reason) w'' := by
  rw [hsame.1] at hplaced hslice
  rw [hsame.2] at hqueue
  have ht : w''.slice t = (placed S reason (w.slice t)).2 := by
    rw [hslice, hplaced, update_self]
  refine ⟨fun u => ?_, fun s' => ?_⟩
  · rcases eq_or_ne u t with rfl | hu
    · exact .inr (.inr ⟨s, reason, rfl, ht⟩)
    · exact .inl (by rw [hslice, update_of_ne hu])
  · rw [hqueue]
    rcases eq_or_ne s' s with rfl | hs
    · exact .inr ⟨t, reason, rfl, ht, by rw [hplaced, update_self]⟩
    · exact .inl (by rw [update_of_ne hs])

theorem enqueue_effect (reason : EnqueueReason) :
    Post (enqueueTask S s t reason) w (fun _ => Effect S w (.enqueue s t reason))
      fun _ => Effect S w (.enqueue s t reason) := by
  -- a claim that is refused changes nothing, and one that is granted only the owner
  have hclaim {m : Unit → WorldOp ι κ Unit} (h : ∀ w', Same w w' →
      Post (m ()) w' (fun _ => Effect S w (.enqueue s t reason)) fun _ _ => False) :
      Post (claim S s t >>= m) w (fun _ => Effect S w (.enqueue s t reason))
        fun _ => Effect S w (.enqueue s t reason) :=
    post_bind.mpr (claim_same.mono (fun _ w' hsame => (h w' hsame).mono (fun _ _ => id) nofun)
      fun _ _ hsame => hsame.effect)
  have hkept {w' : World ι κ} : w'.slice = update w'.slice t (w'.slice t) :=
    (Function.update_eq_self t w'.slice).symm
  cases reason with
  | new | wakeup => exact hclaim fun w' hsame => .enter hsame rfl hkept rfl
  | yield =>
    refine hclaim fun w' hsame => ?_
    rw [post_bind, post_read, if_neg (by simp)]
    exact .enter hsame rfl (slice_modifyTask ..) rfl
  | preempt =>
    refine hclaim fun w' hsame => ?_
    rw [post_bind, post_read, post_ite]
    refine ⟨fun hpos => ?_, fun hzero => ?_⟩
    · exact .enter hsame (if_pos hpos.1) hkept rfl
    · exact .enter hsame (if_neg fun hpos => hzero ⟨hpos, rfl⟩) (slice_modifyTask ..) rfl
  | migrate =>
    refine hclaim fun w' hsame => ?_
    rw [post_bind, post_read]
    by_cases hzero : (w'.tasks t).timeSlice = 0
    · rw [if_pos hzero]
      exact .enter hsame (congrArg (false, ·) (if_pos hzero)) (slice_modifyTask ..) rfl
    · rw [if_neg hzero]
      exact .enter hsame (congrArg (false, ·) (if_neg hzero)) hkept rfl

/-- A task is unlinked and released. -/
theorem unlink_effect {f : List ι → List ι} (hf : (f (w.readyQueue s)).Sublist (w.readyQueue s)) :
    Post (modifyQueue s f >>= fun _ => release s t) w (fun _ => Effect S w cmd)
      fun _ => Effect S w cmd := by
  rw [post_bind, modifyQueue, post_modify]
  refine release_same.mono (fun _ w' hsame => ?_) nofun
  refine ⟨fun u => .inl (congrFun hsame.1 u), fun s' => .inl ?_⟩
  rw [hsame.2]
  rcases eq_or_ne s' s with rfl | hs
  · simpa using hf
  · simp [hs]

theorem exec_effect (cmd : Command ι κ) :
    Post (cmd.exec S) w (fun _ => Effect S w cmd) fun _ => Effect S w cmd := by
  have hsame {cmd : Command ι κ} : Effect S w cmd w := Same.effect ⟨rfl, rfl⟩
  cases cmd with
  | enqueue s t reason => exact enqueue_effect reason
  | remove s t =>
    simp only [Command.exec, removeTask, post_bind, post_read, post_ite, post_pure, post_fail]
    refine ⟨fun _ => hsame, fun _ => ⟨fun _ => hsame, fun _ => ⟨fun _ => ?_, fun _ => trivial⟩⟩⟩
    exact post_bind.mp (unlink_effect List.erase_sublist)
  | pick s =>
    unfold Command.exec pickNextTask
    rw [post_bind, post_bind, post_read]
    cases w.readyQueue s with
    | nil => exact hsame
    | cons t rest =>
      simp only [post_bind, post_pure]
      exact post_bind.mp (unlink_effect (List.tail_sublist _))
  | tick t =>
    refine ⟨fun u => ?_, fun s => .inl (.refl _)⟩
    rcases eq_or_ne u t with rfl | hu
    · exact .inr (.inl ⟨rfl, by rw [slice_modifyTask, update_self]; rfl⟩)
    · exact .inl (by rw [slice_modifyTask, update_of_ne hu])

/-! ### Runs -/

/-- The command returns or fails. -/
def Step (S : Nat) (cmd : Command ι κ) (w w' : World ι κ) : Prop :=
  cmd.exec S w = .ok () w' ∨ ∃ e, cmd.exec S w = .error e w'

/-- A run and the commands it makes, the last one first. -/
inductive Runs (S : Nat) (Allowed : World ι κ → Command ι κ → Prop) (w : World ι κ) :
    List (Command ι κ) → World ι κ → Prop
  | refl : Runs S Allowed w [] w
  | tail {cmds : List (Command ι κ)} {w' w'' : World ι κ} {cmd : Command ι κ}
      (run : Runs S Allowed w cmds w') (allowed : Allowed w' cmd)
      (step : Step S cmd w' w'') : Runs S Allowed w (cmd :: cmds) w''

theorem effect_of_step (h : Step S cmd w w') : Effect S w cmd w' := by
  rcases h with h | ⟨e, h⟩
  · exact (exec_effect cmd).of_ok h
  · exact (exec_effect cmd).of_error h

/-- Ticks go to tasks that run, which are in no queue. -/
def Running (w : World ι κ) : Command ι κ → Prop
  | .tick t => ∀ s, t ∉ w.readyQueue s
  | _ => True

/-- A task is created or woken with a rest of its slice. -/
def WithRest (w : World ι κ) (cmd : Command ι κ) : Prop :=
  Running w cmd ∧ ∀ s t, cmd = .enqueue s t .new ∨ cmd = .enqueue s t .wakeup → 0 < w.slice t

/-- No slice is longer than `S`, and a queued task has a rest of its slice. -/
structure Sliced (S : Nat) (w : World ι κ) : Prop where
  le : ∀ t, w.slice t ≤ S
  pos : ∀ s, ∀ t ∈ w.readyQueue s, 0 < w.slice t

theorem placed_le (h : slice ≤ S) (reason : EnqueueReason) : (placed S reason slice).2 ≤ S := by
  cases reason with
  | new | wakeup => exact h
  | yield => exact le_rfl
  | preempt | migrate => simp only [placed]; split_ifs <;> first | exact h | exact le_rfl

theorem placed_pos (hS : 0 < S) (h : reason = .new ∨ reason = .wakeup → 0 < slice) :
    0 < (placed S reason slice).2 := by
  cases reason with
  | new => exact h (.inl rfl)
  | wakeup => exact h (.inr rfl)
  | yield => exact hS
  | preempt | migrate => simp only [placed]; split_ifs <;> omega

theorem placed_front (h : (placed S reason slice).1 = true) : reason = .preempt ∧ 0 < slice := by
  cases reason with
  | preempt =>
    refine ⟨rfl, Nat.pos_of_ne_zero fun hzero => ?_⟩
    simp [placed, hzero] at h
  | _ => cases h

omit [DecidableEq ι] [DecidableEq κ] in
theorem Sliced.step (hS : 0 < S) (h : Sliced S w) (hallowed : WithRest w cmd)
    (heffect : Effect S w cmd w') : Sliced S w' := by
  have hrest {s : κ} {t : ι} {reason : EnqueueReason} (hcmd : cmd = .enqueue s t reason) :
      0 < (placed S reason (w.slice t)).2 :=
    placed_pos hS fun hreason => hallowed.2 s t (by rcases hreason with rfl | rfl <;> simp [hcmd])
  have hkept {s : κ} {u : ι} (hu : u ∈ w.readyQueue s) : 0 < w'.slice u := by
    rcases heffect.slice u with hslice | ⟨rfl, -⟩ | ⟨s', reason, hcmd, hslice⟩
    · exact hslice ▸ h.pos s u hu
    · exact absurd hu (hallowed.1 s)
    · exact hslice ▸ hrest hcmd
  refine ⟨fun u => ?_, fun s u hu => ?_⟩
  · rcases heffect.slice u with hslice | ⟨-, hslice⟩ | ⟨s, reason, -, hslice⟩ <;> rw [hslice]
    · exact h.le u
    · exact (Nat.sub_le ..).trans (h.le u)
    · exact placed_le (h.le u) reason
  · rcases heffect.queue s with hqueue | ⟨t, reason, hcmd, hslice, hqueue⟩
    · exact hkept (hqueue.subset hu)
    · rcases eq_or_ne u t with rfl | hne
      · exact hslice ▸ hrest hcmd
      · rw [hqueue] at hu
        exact hkept (s := s) (by split_ifs at hu <;> simpa [hne] using hu)

/-- The ticks of a task. -/
def ticksOf (t : ι) (cmds : List (Command ι κ)) : Nat :=
  cmds.countP fun
    | .tick u => u = t
    | _ => false

theorem slice_run {Allowed : World ι κ → Command ι κ → Prop} {cmds : List (Command ι κ)}
    (run : Runs S Allowed w cmds w') (hidle : ∀ s reason, .enqueue s t reason ∉ cmds) :
    w'.slice t = w.slice t - ticksOf t cmds := by
  induction run with
  | refl => rfl
  | @tail cmds w' w'' cmd run allowed step ih =>
    have ih := ih fun s reason h => hidle s reason (List.mem_cons_of_mem _ h)
    by_cases hcmd : cmd = .tick t
    · subst hcmd
      obtain ⟨⟨⟩⟩ | ⟨e, ⟨⟩⟩ := step
      have hticks : ticksOf t (.tick t :: cmds) = ticksOf t cmds + 1 :=
        List.countP_cons_of_pos (decide_eq_true rfl)
      rw [slice_modifyTask, update_self, hticks, ← Nat.sub_sub, ← ih]
      rfl
    · have hticks : ticksOf t (cmd :: cmds) = ticksOf t cmds := by
        refine List.countP_cons_of_neg ?_
        cases cmd with
        | tick u => simpa using hcmd
        | _ => exact Bool.false_ne_true
      rw [hticks, ← ih]
      rcases (effect_of_step step).slice t with hslice | ⟨htick, -⟩ | ⟨s, reason, henqueue, -⟩
      · exact hslice
      · exact absurd htick hcmd
      · exact absurd (henqueue ▸ List.mem_cons_self) (hidle s reason)

theorem pick_slice (hpick : pickNextTask s w = .ok (some t) w') : w'.slice t = w.slice t := by
  have hexec : (Command.pick s : Command ι κ).exec 0 w = .ok () w' := bind_of_ok hpick
  rcases (effect_of_step (.inl hexec)).slice t with hslice | ⟨⟨⟩, -⟩ | ⟨s, reason, ⟨⟩, -⟩
  exact hslice

theorem sliced_run (hS : 0 < S) {cmds : List (Command ι κ)}
    (run : Runs S WithRest (World.initial S) cmds w) : Sliced S w := by
  induction run with
  | refl => exact ⟨fun _ => le_rfl, fun _ _ hu => absurd hu List.not_mem_nil⟩
  | tail _ allowed step ih => exact ih.step hS allowed (effect_of_step step)

/-- **Slices.**  When tasks are created and woken with a rest of their slice, a task in a ready
queue has a slice, a task that was picked is asked to reschedule at its last tick and not before,
and a task enters a queue at the back unless it was preempted with a rest of its slice. -/
theorem slices_positive (hS : 0 < S) {cmds : List (Command ι κ)}
    (run : Runs S WithRest (World.initial S) cmds w) :
    (∀ s, ∀ t ∈ w.readyQueue s, 1 ≤ w.slice t ∧ w.slice t ≤ S) ∧
    (∀ {s t w₁ cmds' w₂ w₃ asked}, pickNextTask s w = .ok (some t) w₁ →
      Runs S WithRest w₁ cmds' w₂ → (∀ s reason, .enqueue s t reason ∉ cmds') →
      taskTick t w₂ = .ok asked w₃ → (asked = true ↔ w.slice t ≤ ticksOf t cmds' + 1)) ∧
    ∀ {cmd w'}, Step S cmd w w' → ∀ s,
      (w'.readyQueue s).Sublist (w.readyQueue s) ∨
      (∃ t, w'.readyQueue s = w.readyQueue s ++ [t]) ∨
      ∃ t, cmd = .enqueue s t .preempt ∧ 0 < w.slice t ∧
        w'.readyQueue s = t :: w.readyQueue s := by
  have hsliced := sliced_run hS run
  refine ⟨fun s t ht => ⟨hsliced.pos s t ht, hsliced.le t⟩, ?_, ?_⟩
  · rintro s t w₁ cmds' w₂ _ asked hpick run' hidle ⟨⟩
    have hslice := slice_run run' hidle
    rw [pick_slice hpick] at hslice
    rw [decide_eq_true_iff]
    show w₂.slice t ≤ 1 ↔ _
    omega
  · intro cmd w' hstep s
    rcases (effect_of_step hstep).queue s with hqueue | ⟨t, reason, rfl, -, hqueue⟩
    · exact .inl hqueue
    · rw [hqueue]
      split_ifs with hfront
      · obtain ⟨rfl, hpos⟩ := placed_front hfront
        exact .inr (.inr ⟨t, rfl, hpos, rfl⟩)
      · exact .inr (.inl ⟨t, rfl⟩)

theorem slices_positive_preempted : ∃ cmds, ∃ w : World (Fin 1) (Fin 1),
    Runs 2 WithRest (World.initial 2) cmds w ∧ w.readyQueue 0 = [0] ∧ 1 ≤ w.slice 0 := by
  have hrun : Runs 2 WithRest (World.initial 2 : World (Fin 1) (Fin 1))
      [.enqueue 0 0 .preempt, .tick 0, .pick 0, .enqueue 0 0 .new] _ :=
    .tail (.tail (.tail (.tail .refl ⟨trivial, fun _ _ _ => Nat.two_pos⟩ (.inl rfl))
      ⟨trivial, by simp⟩ (.inl rfl)) ⟨by unfold Running; decide, by simp⟩ (.inl rfl))
      ⟨trivial, by simp⟩ (.inl rfl)
  exact ⟨_, _, hrun, rfl, ((slices_positive Nat.two_pos hrun).1 0 0 (by decide)).1⟩

/-- A task that blocks right after its last tick is woken without a slice. -/
theorem woken_without_slice : ∃ cmds, ∃ w : World (Fin 1) (Fin 1),
    Runs 2 Running (World.initial 2) cmds w ∧ w.readyQueue 0 = [0] ∧ w.slice 0 = 0 :=
  ⟨[.enqueue 0 0 .wakeup, .tick 0, .tick 0, .pick 0, .enqueue 0 0 .new], _,
    .tail (.tail (.tail (.tail (.tail .refl trivial (.inl rfl)) trivial (.inl rfl))
      (by unfold Running; decide) (.inl rfl)) (by unfold Running; decide) (.inl rfl)) trivial
      (.inl rfl), rfl, rfl⟩

end KernelAx.RoundRobin
