import KernelAx.Cfs.Steps

/-!
# CFS — owners

The owner word of a task is the identifier of the scheduler that has it linked, or it says that the
task is reserved, or that no one has it (`Owned`).
-/

namespace KernelAx.Cfs

open Eevdf (SchedulerError)
open Function (update update_self update_of_ne)

variable {ι κ : Type}

/-- Who owns a task is where it stands: linked in the queue of its owner, reserved, or nowhere. -/
structure Owned (w : World ι κ) : Prop where
  distinct {s s' : κ} : (w.schedulers s).id = (w.schedulers s').id →
    (w.schedulers s).id ≠ unowned → s = s'
  issued (s : κ) : (w.schedulers s).id < w.nextSchedulerId
  next : w.nextSchedulerId ≤ configuring
  linked {s : κ} {t : ι} : t ∈ (w.schedulers s).readyQueue ↔
    (w.tasks t).queueOwner = (w.schedulers s).id ∧ (w.schedulers s).id ≠ unowned
  reserved {t : ι} : (w.tasks t).queueOwner = configuring ↔ ∃ r ∈ w.reservations, r.task = t
  known (t : ι) : (w.tasks t).queueOwner < w.nextSchedulerId ∨
    (w.tasks t).queueOwner = configuring
  once : w.reservations.Pairwise fun r r' => r.task ≠ r'.task
  granted {r : CfsTaskReservation ι} : r ∈ w.reservations →
    r.schedulerId ≠ unowned ∧ r.schedulerId < w.nextSchedulerId ∧
      r.params = (w.tasks r.task).params

/-- Only one task changes hands. -/
structure Reassigns (w w' : World ι κ) (t : ι) : Prop where
  id (s : κ) : (w'.schedulers s).id = (w.schedulers s).id
  next : w'.nextSchedulerId = w.nextSchedulerId
  tasks {u : ι} : u ≠ t → w'.tasks u = w.tasks u
  ready {s : κ} {u : ι} : u ≠ t →
    (u ∈ (w'.schedulers s).readyQueue ↔ u ∈ (w.schedulers s).readyQueue)
  reservations {r : CfsTaskReservation ι} : r.task ≠ t → (r ∈ w'.reservations ↔ r ∈ w.reservations)

namespace Reassigns

variable {w : World ι κ} {s : κ} {t : ι} {task : CfsTask} {scheduler : CfsScheduler ι}
  {r : CfsTaskReservation ι} [DecidableEq ι]

theorem cancel : Reassigns w
    (World.setTask { w with reservations := w.reservations.erase r } r.task task) r.task :=
  ⟨fun _ => rfl, rfl, fun hu => update_of_ne hu .., fun _ => .rfl,
    fun hne => List.mem_erase_of_ne fun heq => hne (heq ▸ rfl)⟩

variable [DecidableEq κ]

theorem leave (hnodup : (w.schedulers s).readyQueue.Nodup) : Reassigns w (w.leave s t task) t := by
  refine ⟨fun _ => w.id_leave s t task, rfl, fun hu => update_of_ne hu .., fun hu => ?_,
    fun _ => .rfl⟩
  rw [w.mem_leave s t task hnodup]
  simp only [hu, and_false, not_false_eq_true, true_and]

variable (hid : scheduler.id = (w.schedulers s).id)
  (hready : scheduler.readyQueue = (w.schedulers s).readyQueue)
include hid hready

theorem enter : Reassigns w (w.enter s t task scheduler) t := by
  refine ⟨fun _ => w.id_enter s t task scheduler hid, rfl, fun hu => update_of_ne hu ..,
    fun hu => ?_, fun _ => .rfl⟩
  rw [w.mem_enter s t task scheduler hready]
  simp only [hu, and_false, false_or]

theorem reserve : Reassigns w { (w.setTask r.task task).setScheduler s scheduler with
    reservations := r :: w.reservations } r.task := by
  refine ⟨fun s' => ?_, rfl, fun hu => update_of_ne hu .., fun {s' u} _ => ?_, fun hne => ?_⟩
  · exact w.update_frame (·.id) hid s'
  · exact iff_of_eq (congrArg (u ∈ ·) (w.update_frame (·.readyQueue) hready s'))
  · rw [List.mem_cons]
    exact or_iff_right fun heq => hne (heq ▸ rfl)

omit hid hready in
theorem commit : Reassigns w (World.enter { w with reservations := w.reservations.erase r } s r.task
    task (w.schedulers s)) r.task where
  __ := enter (w := { w with reservations := w.reservations.erase r }) rfl rfl
  reservations := (@cancel _ _ w task r _).reservations

end Reassigns

namespace Owned

variable {w w' : World ι κ} {s : κ} {t : ι}

/-- No scheduler has the identifier that marks a reservation. -/
theorem id_lt (h : Owned w) (s : κ) : (w.schedulers s).id < configuring :=
  (h.issued s).trans_le h.next

/-- The next identifier is not the one that marks a task of no one. -/
theorem next_ne (h : Owned w) (s : κ) : w.nextSchedulerId ≠ unowned :=
  ((Nat.zero_le _).trans_lt (h.issued s)).ne'

/-- A task of no one stands nowhere. -/
theorem absent (h : Owned w) (ht : (w.tasks t).queueOwner = unowned) :
    (∀ s, t ∉ (w.schedulers s).readyQueue) ∧ ∀ r ∈ w.reservations, r.task ≠ t := by
  refine ⟨fun s hs => ?_, fun r hr hrt => ?_⟩
  · obtain ⟨howner, hid⟩ := h.linked.mp hs
    exact hid (howner.symm.trans ht)
  · have := h.reserved.mpr ⟨r, hr, hrt⟩
    rw [ht] at this
    exact absurd this (by decide)

/-- A task that is linked is linked in one place. -/
theorem elsewhere (h : Owned w) (ht : t ∈ (w.schedulers s).readyQueue) :
    (∀ s', t ∈ (w.schedulers s').readyQueue → s' = s) ∧ ∀ r ∈ w.reservations, r.task ≠ t := by
  obtain ⟨howner, hid⟩ := h.linked.mp ht
  refine ⟨fun s' hs' => ?_, fun r hr hrt => ?_⟩
  · obtain ⟨howner', hid'⟩ := h.linked.mp hs'
    exact h.distinct (howner'.symm.trans howner) hid'
  · have hbusy := h.reserved.mpr ⟨r, hr, hrt⟩
    have := h.id_lt s
    omega

/-- An operation that moves no task. -/
theorem agrees (h : Owned w) (hagrees : Agrees w w') : Owned w' where
  distinct {s s'} := by
    rw [hagrees.id, hagrees.id]
    exact h.distinct
  issued s := by
    rw [hagrees.id, hagrees.nextSchedulerId]
    exact h.issued s
  next := hagrees.nextSchedulerId ▸ h.next
  linked {s t} := by
    rw [hagrees.readyQueue, hagrees.owner, hagrees.id]
    exact h.linked
  reserved {t} := by
    rw [hagrees.owner, hagrees.reservations]
    exact h.reserved
  known t := by
    rw [hagrees.owner, hagrees.nextSchedulerId]
    exact h.known t
  once := hagrees.reservations ▸ h.once
  granted {r} hr := by
    rw [hagrees.reservations] at hr
    obtain ⟨hid, hlt, hparams⟩ := h.granted hr
    have howner := h.reserved.mpr ⟨r, hr, rfl⟩
    have hkept := hagrees.kept (by rw [howner]; decide)
    exact ⟨hid, hagrees.nextSchedulerId ▸ hlt, hparams.trans hkept.1.symm⟩

/-- Only one task changes hands. -/
theorem reassign (h : Owned w) (hw : Reassigns w w' t)
    (hlinked : ∀ s, t ∈ (w'.schedulers s).readyQueue ↔
      (w'.tasks t).queueOwner = (w.schedulers s).id ∧ (w.schedulers s).id ≠ unowned)
    (hreserved : (w'.tasks t).queueOwner = configuring ↔ ∃ r ∈ w'.reservations, r.task = t)
    (hknown : (w'.tasks t).queueOwner < w.nextSchedulerId ∨ (w'.tasks t).queueOwner = configuring)
    (honce : w'.reservations.Pairwise fun r r' => r.task ≠ r'.task)
    (hgranted : ∀ r ∈ w'.reservations, r.task = t → r.schedulerId ≠ unowned ∧
      r.schedulerId < w.nextSchedulerId ∧ r.params = (w'.tasks t).params) : Owned w' where
  distinct {s s'} := by
    rw [hw.id, hw.id]
    exact h.distinct
  issued s := by
    rw [hw.id, hw.next]
    exact h.issued s
  next := hw.next ▸ h.next
  linked {s u} := by
    rw [hw.id]
    by_cases hu : u = t
    · rw [hu]
      exact hlinked s
    · rw [hw.ready hu, hw.tasks hu]
      exact h.linked
  reserved {u} := by
    by_cases hu : u = t
    · rw [hu]
      exact hreserved
    · rw [hw.tasks hu, h.reserved]
      exact exists_congr fun r => and_congr_left fun hru => (hw.reservations (hru ▸ hu)).symm
  known u := by
    rw [hw.next]
    by_cases hu : u = t
    · rw [hu]
      exact hknown
    · rw [hw.tasks hu]
      exact h.known u
  once := honce
  granted {r} hr := by
    rw [hw.next]
    by_cases hu : r.task = t
    · rw [hu]
      exact hgranted r hr hu
    · rw [hw.tasks hu]
      exact h.granted ((hw.reservations hu).mp hr)

/-- Before the first operation no task is owned. -/
theorem initial : Owned (World.initial ι κ) where
  distinct _ h := absurd rfl h
  issued _ := Nat.zero_lt_one
  next := Nat.le_of_ble_eq_true rfl
  linked := ⟨fun h => absurd h List.not_mem_nil, fun h => absurd rfl h.2⟩
  reserved := ⟨fun h => (nomatch h), fun ⟨_, hr, _⟩ => absurd hr List.not_mem_nil⟩
  known _ := .inl Nat.zero_lt_one
  once := List.Pairwise.nil
  granted hr := absurd hr List.not_mem_nil

variable [DecidableEq ι] [DecidableEq κ]

omit [DecidableEq ι] in
/-- A scheduler draws its identifier on first use. -/
theorem ensureId (h : Owned w) (s : κ) : Owned (w.ensureId s).2 := by
  unfold World.ensureId
  split_ifs with hnew hlt
  · -- nothing has the new identifier
    have hid (u : κ) : (update w.schedulers s
        { w.schedulers s with id := w.nextSchedulerId } u).id =
          if u = s then w.nextSchedulerId else (w.schedulers u).id := by
      split_ifs with hu
      · rw [hu, update_self]
      · rw [update_of_ne hu]
    have hready (u : κ) : (update w.schedulers s
        { w.schedulers s with id := w.nextSchedulerId } u).readyQueue =
          (w.schedulers u).readyQueue := w.update_frame (·.readyQueue) (by rfl) u
    refine ⟨fun {u u'} heq hne => ?_, fun u => ?_, hlt, fun {u t} => ?_, h.reserved, fun t => ?_,
      h.once, fun hr => ?_⟩
    · change (update w.schedulers s _ u).id = (update w.schedulers s _ u').id at heq
      change (update w.schedulers s _ u).id ≠ unowned at hne
      rw [hid] at hne
      rw [hid, hid] at heq
      have hu := h.issued u
      have hu' := h.issued u'
      split_ifs at heq hne with h1 h2 h2
      · rw [h1, h2]
      · omega
      · omega
      · exact h.distinct heq hne
    · change (update w.schedulers s _ u).id < w.nextSchedulerId + 1
      rw [hid]
      have := h.issued u
      split <;> omega
    · change t ∈ (update w.schedulers s _ u).readyQueue ↔
        (w.tasks t).queueOwner = (update w.schedulers s _ u).id ∧
          (update w.schedulers s _ u).id ≠ unowned
      rw [hid, hready, h.linked]
      split_ifs with hu
      · rw [hu]
        refine ⟨fun hold => absurd hnew hold.2, fun ⟨heq, _⟩ => ?_⟩
        rcases h.known t with hold | hold <;> omega
      · exact .rfl
    · exact (h.known t).imp_left Nat.lt_succ_of_lt
    · obtain ⟨hgranted, hbelow, hparams⟩ := h.granted hr
      exact ⟨hgranted, Nat.lt_succ_of_lt hbelow, hparams⟩
  · exact h
  · exact h

variable {task : CfsTask} {r : CfsTaskReservation ι}

/-- A task of no one is linked. -/
theorem enter {scheduler : CfsScheduler ι} {first realtime : Bool} {sequence : Int} (h : Owned w)
    (hfree : (w.tasks t).queueOwner = unowned) (hid : (w.schedulers s).id ≠ unowned)
    (howner : task.queueOwner = (w.schedulers s).id)
    (hdraws : Draws (w.schedulers s) realtime first sequence scheduler) :
    Owned (w.enter s t task scheduler) := by
  obtain ⟨hunlinked, hunreserved⟩ := h.absent hfree
  have htask : (w.enter s t task scheduler).tasks t = task := update_self ..
  refine h.reassign (.enter hdraws.id hdraws.readyQueue) (fun s' => ?_)
    ?_ ?_ h.once fun r hr hrt => absurd hrt (hunreserved r hr)
  · rw [w.mem_enter s t task scheduler hdraws.readyQueue, htask, howner]
    constructor
    · rintro (⟨rfl, -⟩ | hmem)
      · exact ⟨rfl, hid⟩
      · exact absurd hmem (hunlinked s')
    · rintro ⟨heq, hid'⟩
      exact .inl ⟨h.distinct heq.symm hid', rfl⟩
  · rw [htask, howner]
    refine ⟨fun heq => ?_, fun ⟨r, hr, hrt⟩ => absurd hrt (hunreserved r hr)⟩
    have := h.id_lt s
    omega
  · rw [htask, howner]
    exact .inl (h.issued s)

/-- A task is unlinked. -/
theorem leave (h : Owned w) (hnodup : (w.schedulers s).readyQueue.Nodup)
    (hlinked : t ∈ (w.schedulers s).readyQueue) (howner : task.queueOwner = unowned) :
    Owned (w.leave s t task) := by
  obtain ⟨hunlinked, hunreserved⟩ := h.elsewhere hlinked
  have htask : (w.leave s t task).tasks t = task := update_self ..
  refine h.reassign (.leave hnodup) (fun s' => ?_) ?_ ?_ h.once
    fun r hr hrt => absurd hrt (hunreserved r hr)
  · rw [w.mem_leave s t task hnodup, htask, howner]
    refine ⟨fun ⟨hne, hmem⟩ => absurd ⟨hunlinked s' hmem, rfl⟩ hne, fun ⟨heq, hid⟩ => ?_⟩
    exact absurd heq.symm hid
  · rw [htask, howner]
    exact ⟨fun heq => (nomatch heq), fun ⟨r, hr, hrt⟩ => absurd hrt (hunreserved r hr)⟩
  · rw [htask, howner]
    exact .inl ((Nat.zero_le _).trans_lt (h.issued s))

/-- A task of no one is reserved. -/
theorem reserve {scheduler : CfsScheduler ι} {first realtime : Bool} {sequence : Int}
    (h : Owned w) (hfree : (w.tasks r.task).queueOwner = unowned)
    (hid : (w.schedulers s).id ≠ unowned) (hr : r.schedulerId = (w.schedulers s).id)
    (hparams : r.params = task.params) (howner : task.queueOwner = configuring)
    (hdraws : Draws (w.schedulers s) realtime first sequence scheduler) :
    Owned { (w.setTask r.task task).setScheduler s scheduler with
      reservations := r :: w.reservations } := by
  obtain ⟨hunlinked, hunreserved⟩ := h.absent hfree
  have htask : update w.tasks r.task task r.task = task := update_self ..
  refine h.reassign (.reserve hdraws.id hdraws.readyQueue) (fun s' => ?_)
    ?_ ?_ ?_ fun r' hr' hrt => ?_
  · change r.task ∈ (update w.schedulers s scheduler s').readyQueue ↔
      (update w.tasks r.task task r.task).queueOwner = _ ∧ _
    rw [w.update_frame (·.readyQueue) hdraws.readyQueue, htask, howner]
    refine ⟨fun hmem => absurd hmem (hunlinked s'), fun ⟨heq, _⟩ => ?_⟩
    have := h.id_lt s'
    omega
  · change (update w.tasks r.task task r.task).queueOwner = _ ↔ _
    rw [htask, howner]
    exact ⟨fun _ => ⟨r, List.mem_cons_self, rfl⟩, fun _ => rfl⟩
  · exact .inr ((congrArg CfsTask.queueOwner htask).trans howner)
  · exact List.pairwise_cons.mpr ⟨fun r' hr' => (hunreserved r' hr').symm, h.once⟩
  · rcases List.mem_cons.mp hr' with rfl | hr'
    · refine ⟨hr ▸ hid, hr ▸ h.issued s, ?_⟩
      change _ = (update w.tasks r'.task task r'.task).params
      rw [htask, hparams]
    · exact absurd hrt (hunreserved r' hr')

omit [DecidableEq κ] in
/-- The reservation of a task is the only one. -/
theorem only (h : Owned w) (hr : r ∈ w.reservations) :
    (w.reservations.erase r).Pairwise (fun r r' => r.task ≠ r'.task) ∧
      ∀ r' ∈ w.reservations.erase r, r'.task ≠ r.task := by
  have hperm := (List.perm_cons_erase hr).pairwise h.once fun hne => hne.symm
  obtain ⟨hothers, hrest⟩ := List.pairwise_cons.mp hperm
  exact ⟨hrest, fun r' hr' => (hothers r' hr').symm⟩

/-- A task that was reserved is linked. -/
theorem commit (h : Owned w) (hr : r ∈ w.reservations) (hid : r.schedulerId = (w.schedulers s).id)
    (howner : task.queueOwner = (w.schedulers s).id) :
    Owned (World.enter { w with reservations := w.reservations.erase r } s r.task task
      (w.schedulers s)) := by
  obtain ⟨honce, hothers⟩ := h.only hr
  have hbusy := h.reserved.mpr ⟨r, hr, rfl⟩
  have hidentified : (w.schedulers s).id ≠ unowned := hid ▸ (h.granted hr).1
  have hlt := h.id_lt s
  have htask : (World.enter { w with reservations := w.reservations.erase r } s r.task task
    (w.schedulers s)).tasks r.task = task := update_self ..
  refine h.reassign .commit (fun s' => ?_) ?_ ?_ honce
    fun r' hr' hrt => absurd hrt (hothers r' hr')
  · rw [World.mem_enter { w with reservations := w.reservations.erase r } s r.task task _ rfl,
      htask, howner]
    constructor
    · rintro (⟨rfl, -⟩ | hmem)
      · exact ⟨rfl, hidentified⟩
      · have := (h.linked.mp hmem).1
        have := h.id_lt s'
        omega
    · rintro ⟨heq, hid'⟩
      exact .inl ⟨h.distinct heq.symm hid', rfl⟩
  · rw [htask, howner]
    exact ⟨fun heq => by omega, fun ⟨r', hr', hrt⟩ => absurd hrt (hothers r' hr')⟩
  · rw [htask, howner]
    exact .inl (h.issued s)

omit [DecidableEq κ] in
/-- A reservation is given up. -/
theorem cancel {r : CfsTaskReservation ι} {task : CfsTask} (h : Owned w) (hr : r ∈ w.reservations)
    (howner : task.queueOwner = unowned) :
    Owned (World.setTask { w with reservations := w.reservations.erase r } r.task task) := by
  obtain ⟨honce, hothers⟩ := h.only hr
  have hbusy := h.reserved.mpr ⟨r, hr, rfl⟩
  have htask : update w.tasks r.task task r.task = task := update_self ..
  refine h.reassign .cancel (fun s' => ?_) ?_ ?_ honce
    fun r' hr' hrt => absurd hrt (hothers r' hr')
  · change _ ↔ (update w.tasks r.task task r.task).queueOwner = _ ∧ _
    rw [htask, howner]
    refine ⟨fun hmem => ?_, fun ⟨heq, hid⟩ => absurd heq.symm hid⟩
    have hlinked : r.task ∈ (w.schedulers s').readyQueue := hmem
    have := (h.linked.mp hlinked).1
    have := h.id_lt s'
    omega
  · change (update w.tasks r.task task r.task).queueOwner = _ ↔ _
    rw [htask, howner]
    exact ⟨fun heq => (nomatch heq), fun ⟨r', hr', hrt⟩ => absurd hrt (hothers r' hr')⟩
  · change (update w.tasks r.task task r.task).queueOwner < _ ∨ _
    rw [htask, howner]
    exact .inl ((Nat.zero_le _).trans_lt (h.granted hr).2.1)

end Owned

end KernelAx.Cfs
