import KernelAx.Cfs.Refinement
import Mathlib.Data.List.TakeWhile

/-!
# CFS — the placement floor

`min_vruntime` is computed from the tasks that are linked and, on a tick and on a pick, from the
running task. It does not fall as long as one of them is seen (`Climbs`); an operation that takes
the last fair task out of the tree, and a pick from an empty tree, resets it although a fair task
may be running. `Keeps` are the operations that do not.
-/

namespace KernelAx.Cfs

open Eevdf (SchedulerError)
open Function (update_self update_of_ne forall_update_iff)

open CfsScheduler

variable {ι κ : Type}

/-- `isize`. -/
def Within (x : Int) : Prop := isizeMin ≤ x ∧ x ≤ isizeMax

/-- The floor and the fair keys in a queue are `isize` values. -/
structure Ranged (w : World ι κ) : Prop where
  floor {s : κ} {v : Int} : (w.schedulers s).minVruntime = some v → Within v
  order {s : κ} {t : ι} : t ∈ (w.schedulers s).readyQueue →
    (w.tasks t).readyIsRt = false → Within (w.tasks t).readyOrder

/-- The floor of a scheduler is set and does not fall. -/
def Climbs (w w' : World ι κ) (s : κ) : Prop :=
  ∀ v, (w.schedulers s).minVruntime = some v →
    ∃ v', (w'.schedulers s).minVruntime = some v' ∧ v ≤ v'

namespace Climbs

variable {w w' w'' : World ι κ} {s : κ}

theorem of_eq (h : (w'.schedulers s).minVruntime = (w.schedulers s).minVruntime) : Climbs w w' s :=
  fun v hv => ⟨v, h.trans hv, le_rfl⟩

theorem trans (h : Climbs w w' s) (h' : Climbs w' w'' s) : Climbs w w'' s := by
  intro v hv
  obtain ⟨v', hv', hle⟩ := h v hv
  obtain ⟨v'', hv'', hle'⟩ := h' v' hv'
  exact ⟨v'', hv'', hle.trans hle'⟩

end Climbs

/-! ### The least runtime in the tree -/

theorem CfsTask.readyKey_lt_fair {task : CfsTask} :
    task.readyKey < toLex (1, toLex (isizeMin, isizeMin)) ↔
      task.readyClass < 1 ∨ task.readyClass = 1 ∧ (task.readyOrder < isizeMin ∨
        task.readyOrder = isizeMin ∧ task.sequence < isizeMin) := by
  unfold CfsTask.readyKey
  rw [Prod.Lex.toLex_lt_toLex, Prod.Lex.toLex_lt_toLex]

section MinReady

variable {w : World ι κ} {s : κ}

theorem minReadyVruntime_some {v : Int} (h : (w.schedulers s).minReadyVruntime w.tasks = some v) :
    ∃ t ∈ (w.schedulers s).readyQueue, (w.tasks t).readyIsRt = false ∧
      (w.tasks t).readyOrder = v := by
  unfold minReadyVruntime at h
  dsimp only at h
  split at h
  · cases h
  case _ t rest heq =>
    split_ifs at h with hrt
    cases h
    have ht : t ∈ (w.schedulers s).readyQueue :=
      (List.dropWhile_suffix _).subset (heq ▸ List.mem_cons_self)
    exact ⟨t, ht, Bool.eq_false_of_not_eq_true hrt, rfl⟩

/-- A fair task is in the tree. -/
def Seen (w : World ι κ) (s : κ) : Prop :=
  ∃ t ∈ (w.schedulers s).readyQueue, (w.tasks t).readyClass = 1 ∧
    isizeMin ≤ (w.tasks t).readyOrder ∧ isizeMin ≤ (w.tasks t).sequence

theorem Seen.minReadyVruntime (h : Seen w s) :
    (w.schedulers s).minReadyVruntime w.tasks ≠ none := by
  obtain ⟨t, ht, hclass, horder, hseq⟩ := h
  unfold CfsScheduler.minReadyVruntime
  dsimp only
  split
  case _ hnil =>
    have hdropped := List.dropWhile_eq_nil_iff.mp hnil t ht
    have hlt := CfsTask.readyKey_lt_fair.mp (of_decide_eq_true hdropped)
    omega
  case _ u rest heq =>
    have hfirst := List.head?_dropWhile_not
      (fun t => decide ((w.tasks t).readyKey < toLex (1, toLex (isizeMin, isizeMin))))
      (w.schedulers s).readyQueue
    rw [heq] at hfirst
    have hge := mt CfsTask.readyKey_lt_fair.mpr (of_decide_eq_false hfirst)
    have hrt : (w.tasks u).readyIsRt = false := decide_eq_false (by omega)
    rw [hrt]
    exact Option.some_ne_none _

end MinReady

section Refresh

variable {tasks : ι → CfsTask} {scheduler : CfsScheduler ι} {current : Option Int}

/-- A floor is one that was seen. -/
theorem minVruntime_refresh {v : Int}
    (h : (scheduler.refreshMinVruntime tasks current).minVruntime = some v) :
    scheduler.minVruntime = some v ∨ current = some v ∨
      scheduler.minReadyVruntime tasks = some v := by
  unfold refreshMinVruntime at h
  dsimp only at h
  generalize scheduler.minReadyVruntime tasks = ready at h ⊢
  generalize scheduler.minVruntime = old at h ⊢
  rcases old with _ | old <;> rcases current with _ | current <;> rcases ready with _ | ready <;>
    simp only [reduceCtorEq, Option.some.injEq, false_or, or_false] at h ⊢ <;> omega

theorem minVruntime_refresh_of_seen {v : Int} (h : scheduler.minVruntime = some v)
    (hseen : current ≠ none ∨ scheduler.minReadyVruntime tasks ≠ none) :
    ∃ v', (scheduler.refreshMinVruntime tasks current).minVruntime = some v' ∧ v ≤ v' := by
  unfold refreshMinVruntime
  dsimp only
  rw [h]
  generalize scheduler.minReadyVruntime tasks = ready at hseen ⊢
  rcases current with _ | current <;> rcases ready with _ | ready
  · exact absurd hseen (by simp)
  all_goals exact ⟨_, rfl, le_max_left ..⟩

end Refresh

/-! ### What changes the floor -/

namespace Ranged

variable {w w' : World ι κ} {s : κ} {t : ι}

/-- The floors stay, and so do the keys, but for those that are known to be in range. -/
theorem carry (h : Ranged w)
    (hfloor : ∀ s, (w'.schedulers s).minVruntime = (w.schedulers s).minVruntime)
    (horder : ∀ {s t}, t ∈ (w'.schedulers s).readyQueue →
      t ∈ (w.schedulers s).readyQueue ∧ (w.tasks t).Kept (w'.tasks t) ∨
        ((w'.tasks t).readyIsRt = false → Within (w'.tasks t).readyOrder)) : Ranged w' where
  floor hv := h.floor (hfloor _ ▸ hv)
  order {s t} ht hrt := by
    rcases horder ht with ⟨ht', -, hclass, hkey, -, -⟩ | hnew
    · unfold CfsTask.readyIsRt at hrt
      rw [hclass] at hrt
      rw [hkey]
      exact h.order ht' hrt
    · exact hnew hrt

theorem agrees (h : Ranged w) (howned : Owned w) (hagrees : Agrees w w')
    (hfloor : ∀ s, (w'.schedulers s).minVruntime = (w.schedulers s).minVruntime) : Ranged w' := by
  refine h.carry hfloor fun ht => .inl ?_
  rw [hagrees.readyQueue] at ht
  obtain ⟨howner, hid⟩ := howned.linked.mp ht
  exact ⟨ht, hagrees.kept (howner ▸ hid)⟩

variable [DecidableEq ι] [DecidableEq κ]

omit [DecidableEq ι] in
theorem refresh {v : Option Int} (h : Ranged w) (hv : ∀ x, v = some x → Within x) :
    Ranged (w.refresh s v) where
  floor {s' x} hx := by
    rcases eq_or_ne s' s with rfl | hs
    · have hs' : (w.refresh s' v).schedulers s' = (w.schedulers s').refreshMinVruntime w.tasks v :=
        update_self ..
      rw [hs'] at hx
      rcases minVruntime_refresh hx with hold | hcurrent | hready
      · exact h.floor hold
      · exact hv x hcurrent
      · obtain ⟨t, ht, hrt, rfl⟩ := minReadyVruntime_some hready
        exact h.order ht hrt
    · have hs' : (w.refresh s v).schedulers s' = w.schedulers s' := update_of_ne hs ..
      rw [hs'] at hx
      exact h.floor hx
  order {s' t} ht := by
    rw [(w.agrees_refresh s v).readyQueue] at ht
    exact h.order ht

omit [DecidableEq ι] in
theorem settle (h : Ranged w) (realtime : Bool) : Ranged (w.settle s realtime) := by
  cases realtime with
  | true => exact h
  | false => exact h.refresh fun x hx => by cases hx

theorem enter {task : CfsTask} {scheduler : CfsScheduler ι} (h : Ranged w)
    (hunlinked : ∀ s, t ∉ (w.schedulers s).readyQueue)
    (hready : scheduler.readyQueue = (w.schedulers s).readyQueue)
    (hfloor : scheduler.minVruntime = (w.schedulers s).minVruntime)
    (horder : task.readyIsRt = false → Within task.readyOrder) :
    Ranged (w.enter s t task scheduler) := by
  refine h.carry (fun _ => w.minVruntime_enter s t task scheduler hfloor) fun {s' u} hu => ?_
  rcases (w.mem_enter s t task scheduler hready).mp hu with ⟨-, rfl⟩ | hu'
  · have htask : (w.enter s u task scheduler).tasks u = task := update_self ..
    rw [htask]
    exact .inr horder
  · have hother : (w.enter s t task scheduler).tasks u = w.tasks u :=
      update_of_ne (fun heq : u = t => hunlinked s' (heq ▸ hu')) ..
    rw [hother]
    exact .inl ⟨hu', .refl⟩

theorem leave {task : CfsTask} (h : Ranged w) (hkept : (w.tasks t).Kept task) :
    Ranged (w.leave s t task) := by
  refine h.carry (fun _ => w.minVruntime_leave s t task) fun {s' u} hu =>
    .inl ⟨?_, w.kept_setTask t task hkept u⟩
  exact (forall_update_iff w.schedulers fun u x => x.readyQueue ⊆ (w.schedulers u).readyQueue).mpr
    ⟨List.erase_subset, fun _ _ => List.Subset.refl _⟩ s' hu

end Ranged

namespace Climbs

variable [DecidableEq ι] [DecidableEq κ] {w w' : World ι κ} {s : κ} {t : ι}

variable {s' : κ}

omit [DecidableEq ι] in
theorem refresh {v : Option Int} (h : s' = s → v ≠ none ∨ Seen w s) :
    Climbs w (w.refresh s v) s' := by
  rcases eq_or_ne s' s with rfl | hs
  · intro x hx
    have hs' : (w.refresh s' v).schedulers s' = (w.schedulers s').refreshMinVruntime w.tasks v :=
      update_self ..
    rw [hs']
    exact minVruntime_refresh_of_seen hx ((h rfl).imp_right Seen.minReadyVruntime)
  · exact .of_eq (congrArg minVruntime (update_of_ne hs ..))

omit [DecidableEq ι] in
theorem settle {realtime : Bool} (h : s' = s → realtime = false → Seen w s) :
    Climbs w (w.settle s realtime) s' := by
  cases realtime with
  | true => exact .of_eq rfl
  | false => exact refresh fun hs => .inr (h hs rfl)

end Climbs

/-! ### Placements -/

theorem Within.max {x y : Int} (hx : Within x) (hy : Within y) : Within (max x y) := by
  unfold Within at *
  omega

theorem within_saturate (x : Int) : Within (saturate x) := saturate_range x

namespace Ranged

variable {w : World ι κ} {s : κ}

theorem queueFloor (h : Ranged w) (s : κ) : Within (w.schedulers s).queueFloor := by
  unfold CfsScheduler.queueFloor
  cases hmin : (w.schedulers s).minVruntime with
  | none => exact ⟨by decide, by decide⟩
  | some v => exact h.floor hmin

end Ranged

section Placement

variable {tasks : ι → CfsTask} {scheduler : CfsScheduler ι} {task : CfsTask}
variable {action : CfsEnqueueAction}

theorem wakeupFloor_spec (h : Within scheduler.queueFloor) (params : CfsTaskParams) :
    Within (scheduler.wakeupFloor params) ∧
      scheduler.queueFloor ≤ scheduler.wakeupFloor params := by
  unfold wakeupFloor fairPreemptGranularityTicks saturate
  unfold Within at *
  dsimp only
  split <;> omega

theorem fairPlace_within (h : Within scheduler.queueFloor) :
    Within (fairPlace tasks scheduler task action).1 := by
  have hv : Within (task.getVruntimeWith task.params) := task.getVruntimeWith_range _
  unfold fairPlace
  cases action with
  | new =>
    dsimp only
    split
    · exact hv.max h
    · exact h
  | wakeup => exact hv.max (wakeupFloor_spec h _).1
  | explicitYield => exact hv.max (within_saturate _)
  | requeue preempt => exact hv
  | migrate =>
    unfold CfsTask.takeMigrationVruntime
    dsimp only
    split
    · exact within_saturate _
    · exact hv.max h

/-- A new task and one that wakes up are not placed below the floor. -/
theorem queueFloor_le_fairPlace (h : Within scheduler.queueFloor)
    (haction : action = .new ∨ action = .wakeup) :
    scheduler.queueFloor ≤ (fairPlace tasks scheduler task action).1 := by
  unfold fairPlace
  rcases haction with rfl | rfl
  · dsimp only
    split
    · exact le_max_right ..
    · exact le_rfl
  · exact (wakeupFloor_spec h task.params).2.trans (le_max_right ..)

end Placement

end KernelAx.Cfs
