import KernelAx.Cfs.Places

/-!
# CFS — the schedulers keep the lines

After any operations the ready queues of the schedulers are the lines of their tasks, and the task
that is picked is the one that has to be picked.
-/

namespace KernelAx.Cfs

open World

open Eevdf (SchedulerError)

variable {ι κ : Type} [DecidableEq ι] [DecidableEq κ]
variable {w w' : World ι κ} {lines : Lines ι κ} {s : κ} {t : ι}

/-- The owners and the places are those of the lines. -/
def Coherent (w : World ι κ) (lines : Lines ι κ) : Prop :=
  Owned w ∧ ∃ place, Placed w lines place

namespace Coherent

omit [DecidableEq ι] [DecidableEq κ] in
theorem initial : Coherent (initial ι κ) (Lines.empty ι κ) :=
  ⟨.initial, _, .initial⟩

omit [DecidableEq ι] [DecidableEq κ] in
theorem agrees (h : Coherent w lines) (hagrees : Agrees w w') : Coherent w' lines := by
  obtain ⟨howned, place, hplaced⟩ := h
  exact ⟨howned.agrees hagrees, place, hplaced.agrees howned hagrees⟩

omit [DecidableEq ι] in
theorem ensureId (h : Coherent w lines) (s : κ) : Coherent (w.ensureId s).2 lines := by
  obtain ⟨howned, place, hplaced⟩ := h
  exact ⟨howned.ensureId s, place, hplaced.ensureId howned s⟩

theorem enter {task : CfsTask} {scheduler : CfsScheduler ι} {first : Bool} (h : Coherent w lines)
    (hid : (w.schedulers s).id ≠ unowned) (hfree : (w.tasks t).queueOwner = unowned)
    (hjoins : Joins w s first task scheduler) :
    Coherent (w.enter s t task scheduler) (lines.take task.params.isRealtime s t first) := by
  obtain ⟨howned, place, hplaced⟩ := h
  exact ⟨howned.enter hfree hid hjoins.owner hjoins.draws, _, hplaced.enter howned hfree hjoins⟩

theorem leave {task : CfsTask} (h : Coherent w lines) (ht : t ∈ (w.schedulers s).readyQueue)
    (howner : task.queueOwner = unowned) : Coherent (w.leave s t task) (lines.leave t) := by
  obtain ⟨howned, place, hplaced⟩ := h
  exact ⟨howned.leave (hplaced.ascending s).nodup ht howner, place, hplaced.leave howned ht⟩

/-! ### Operations -/

theorem enqueue (h : Coherent w lines) (s : κ) (t : ι) (action : CfsEnqueueAction) :
    Coherent (w.apply (.enqueue s t action)) (lines.apply w (.enqueue s t action)) := by
  have hdoes := enqueues (s := s) (t := t) (h.1.next_ne s) action
  dsimp only [apply, Lines.apply]
  generalize w.enqueueWithAction s t action = result at hdoes ⊢
  have h' := h.ensureId s
  have htasks : (w.ensureId s).2.tasks = w.tasks := tasks_ensureId
  generalize (w.ensureId s).2 = w₁ at h' htasks hdoes
  cases hdoes with
  | refused e => exact h'
  | enqueued hid hfree hjoins hparams _ hworld =>
    rw [hworld, ← htasks, ← hparams]
    exact ((h'.enter hid hfree hjoins).agrees (agrees_settle ..)).agrees
      (agrees_stop ..)

theorem reserve (h : Coherent w lines) (s : κ) (t : ι) :
    Coherent (w.apply (.reserve s t)) (lines.apply w (.reserve s t)) := by
  have hdoes := reserves (s := s) (t := t) (h.1.next_ne s)
  dsimp only [apply, Lines.apply]
  generalize w.reserveNewTask s t = result at hdoes ⊢
  have h' := h.ensureId s
  have htasks : (w.ensureId s).2.tasks = w.tasks := tasks_ensureId
  generalize (w.ensureId s).2 = w₁ at h' htasks hdoes
  cases hdoes with
  | refused e => exact h'
  | @reserved sequence scheduler hid hfree hdraws =>
    obtain ⟨howned, place, hplaced⟩ := h'
    rw [← htasks]
    generalize hr : CfsTaskReservation.mk t (w₁.schedulers s).id sequence (w₁.tasks t).params = r
    have ht : r.task = t := hr ▸ rfl
    have hid' : r.schedulerId = (w₁.schedulers s).id := hr ▸ rfl
    have hparams : r.params = (w₁.tasks t).params := hr ▸ rfl
    have hsequence : r.sequence = sequence := hr ▸ rfl
    rw [← hsequence, ← hparams] at hdraws
    rw [← hparams]
    subst ht
    exact ⟨howned.reserve hfree hid hid' hparams rfl hdraws, _,
      hplaced.reserve howned hfree hid' hid hparams hdraws⟩

theorem commit (h : Coherent w lines) (s : κ) (r : CfsTaskReservation ι) :
    Coherent (w.apply (.commit s r)) (lines.apply w (.commit s r)) := by
  have hdoes := commits (w := w) (s := s) r
  dsimp only [apply, Lines.apply]
  generalize w.commitReservedTask s r = result at hdoes ⊢
  cases hdoes with
  | refused e => exact h
  | committed hr hid hstaged hparams howner hsequence _ hworld =>
    obtain ⟨howned, place, hplaced⟩ := h
    have hcommitted : Coherent _ lines :=
      ⟨howned.commit hr hid howner, place,
        hplaced.commit howned hr hid hstaged hparams hsequence⟩
    rw [hworld]
    exact (hcommitted.agrees (agrees_settle ..)).agrees (agrees_stop ..)

theorem cancel (h : Coherent w lines) (r : CfsTaskReservation ι) :
    Coherent (w.apply (.cancel r)) (lines.apply w (.cancel r)) := by
  dsimp only [apply, Lines.apply, cancelReservation]
  simp only [List.contains_iff_mem]
  split_ifs with hr hbusy
  · obtain ⟨howned, place, hplaced⟩ := h
    exact ⟨howned.cancel hr rfl, place, hplaced.cancel howned hr⟩
  · exact absurd (h.1.reserved.mpr ⟨r, hr, rfl⟩) hbusy
  · exact h

/-- `remove_task` and `remove_task_for_migration`. -/
theorem remove {result : Except SchedulerError (Option ι) × World ι κ} (h : Coherent w lines)
    (hdoes : Removes w s t unowned result) :
    Coherent result.2 (match result.1 with
      | .ok (some t) => lines.leave t
      | _ => lines) := by
  cases hdoes with
  | refused e | absent => exact h
  | removed hlinked _ _ howner hworld =>
    rw [hworld]
    exact (h.leave hlinked howner).agrees (agrees_settle ..)

theorem pick (h : Coherent w lines) (s : κ) :
    Coherent (w.apply (.pick s)) (lines.apply w (.pick s)) := by
  have hdoes := picks (w := w) (s := s)
  dsimp only [apply, Lines.apply]
  generalize w.pickNextTask s = result at hdoes ⊢
  cases hdoes with
  | none hempty => exact h.agrees (agrees_refresh ..)
  | @some t rest w' hready hworld =>
    have hlinked : t ∈ (w.schedulers s).readyQueue := hready ▸ List.mem_cons_self
    have hleft : Coherent (w.leave s t { w.tasks t with queueOwner := unowned })
        (lines.leave t) := h.leave hlinked rfl
    have hpicked : Agrees (w.leave s t { w.tasks t with queueOwner := unowned }) w' := by
      rw [hworld]
      exact ⟨fun _ => .refl, rfl, rfl, fun _ => rfl, fun _ => .refl⟩
    dsimp only
    split
    · exact hleft.agrees hpicked
    · exact hleft.agrees (hpicked.trans (agrees_refresh ..))

/-- `set_task_params`. -/
theorem reconfigure {params : CfsTaskParams} {result : Except SchedulerError Unit × World ι κ}
    (h : Coherent w lines) (hdoes : Reconfigures w s t params result) :
    Coherent result.2 (match result.1 with
      | .ok () =>
        if t ∈ (w.schedulers s).readyQueue then
          (lines.leave t).take params.isRealtime s t false
        else lines
      | .error _ => lines) := by
  cases hdoes with
  | refused e => exact h
  | configured hfree howner =>
    have hagrees := w.agrees_setTask t _ (howner.trans hfree.symm) fun hne => absurd hfree hne
    split
    · rw [if_neg ((h.1.absent hfree).1 s)]
      exact h.agrees hagrees
    · exact h.agrees hagrees
  | restored e hagrees _ => exact h.agrees hagrees
  | @moved task task' scheduler w₁ w' hlinked howned hkept hremoved hjoins hrealtime _ hworld =>
    dsimp only
    rw [if_pos hlinked, ← hrealtime, hworld]
    -- in between the task could as well be the task of no one
    generalize hfreed : { task with queueOwner := unowned } = freed
    have hleft : Coherent (w.leave s t freed) (lines.leave t) := h.leave hlinked (hfreed ▸ rfl)
    have hsettle := agrees_settle (w.leave s t task) s (w.tasks t).readyIsRt
    rw [← hremoved] at hsettle
    have htasks : (w₁.setTask t freed).tasks = (w.leave s t freed).tasks := by
      change Function.update w₁.tasks t freed = Function.update w.tasks t freed
      rw [hremoved, tasks_settle]
      exact Function.update_idem ..
    have hagrees : Agrees (w.leave s t freed) (w₁.setTask t freed) :=
      ⟨hsettle.schedulers, hsettle.nextSchedulerId, hsettle.reservations,
        fun u => congrArg CfsTask.queueOwner (congrFun htasks u), fun {u} _ => by
          rw [htasks]
          exact .refl⟩
    have hid : (w₁.schedulers s).id ≠ unowned := by
      rw [hsettle.id, id_leave]
      exact (h.1.linked.mp hlinked).2
    have hfree : ((w₁.setTask t freed).tasks t).queueOwner = unowned := by
      have htask : (w₁.setTask t freed).tasks t = freed := Function.update_self ..
      rw [htask, ← hfreed]
    rw [← enter_setTask w₁ s t task' scheduler freed]
    exact ((hleft.agrees hagrees).enter hid hfree
      { hjoins with }).agrees (agrees_settle ..)

theorem setPriority (h : Coherent w lines) (s : κ) (t : ι) (prio : Int) :
    Coherent (w.apply (.setPriority s t prio)) (lines.apply w (.setPriority s t prio)) := by
  dsimp only [apply, Lines.apply]
  obtain ⟨e, heq⟩ | ⟨result, task, hfree, howner, heq⟩ | ⟨hfair, heq⟩ :=
    setPriority_cases (w := w) (s := s) (t := t) prio
  · rw [heq]
    exact h
  · rw [heq]
    have hagrees := w.agrees_setTask t task (howner.trans hfree.symm) fun hne => absurd hfree hne
    dsimp only
    split
    · rw [if_neg ((h.1.absent hfree).1 s)]
      exact h.agrees hagrees
    · exact h.agrees hagrees
  · rw [heq]
    obtain ⟨-, place, hplaced⟩ := id h
    exact (h.reconfigure (reconfigures (s := s) (t := t)
      ⟨(w.tasks t).params.class, prio, 0⟩ (hplaced.ascending s)) :)

theorem step (h : Coherent w lines) (op : Op ι κ) : Coherent (w.apply op) (lines.apply w op) := by
  cases op with
  | setRrTimesliceTicks ticks =>
    refine h.agrees ?_
    dsimp only [apply]
    split
    · exact .refl
    · exact ⟨fun _ => .refl, rfl, rfl, fun _ => rfl, fun _ => .refl⟩
  | configure t params => exact h.agrees (agrees_configure params)
  | inheritFairVruntimeFrom t parent => exact h.agrees (agrees_inherit parent)
  | enqueue s t action => exact h.enqueue s t action
  | reserve s t => exact h.reserve s t
  | commit s r => exact h.commit s r
  | cancel r => exact h.cancel r
  | remove s t => exact h.remove (removes unowned false)
  | removeForMigration s t => exact h.remove (removes unowned true)
  | setTaskParams s t params =>
    obtain ⟨-, place, hplaced⟩ := id h
    exact h.reconfigure (reconfigures params (hplaced.ascending s))
  | setPriority s t prio => exact h.setPriority s t prio
  | deactivate s t reason => exact h.agrees (agrees_deactivate reason)
  | pick s => exact h.pick s
  | tick s t =>
    have hdoes := ticks (w := w) (s := s) (t := t)
    dsimp only [apply, Lines.apply]
    generalize (w.taskTick s t).2 = w' at hdoes ⊢
    cases hdoes with
    | unseen hkept howner => exact h.agrees (w.agrees_setTask t _ howner fun _ => hkept)
    | seen hkept howner =>
      exact h.agrees ((w.agrees_setTask t _ howner fun _ => hkept).trans
        (agrees_refresh ..))

theorem run (h : Coherent w lines) (ops : List (Op ι κ)) :
    Coherent (w.run ops) (lines.run w ops) := by
  induction ops generalizing w lines with
  | nil => exact h
  | cons op ops ih => exact ih (h.step op)

/-! ### Queues -/

omit [DecidableEq κ] in
/-- The real-time tasks of a priority are linked in the order of their line. -/
theorem filter_readyQueue (h : Coherent w lines) (s : κ) (priority : Nat) :
    w.realtimeQueue s priority = lines.queue w s priority := by
  obtain ⟨howned, place, hplaced⟩ := h
  have hasc := hplaced.ascending s
  have hline := (hplaced.numbered.realtime s).ascending
  have hmem {t : ι} (ht : t ∈ lines.queue w s priority) : t ∈ lines true s ∧
      t ∈ (w.schedulers s).readyQueue ∧ (w.tasks t).params.rtPriority = priority := by
    obtain ⟨hline, hqueue⟩ := List.mem_filter.mp ht
    exact ⟨hline, of_decide_eq_true hqueue⟩
  unfold World.realtimeQueue
  refine Ascending.ext (hasc.sublist List.filter_sublist) ?_ fun t => ?_
  · -- in the line the numbers ascend, and the rest of the keys is the same
    refine List.Pairwise.imp_of_mem (fun {t u} ht hu hlt => ?_)
      (hline.sublist List.filter_sublist)
    obtain ⟨htline, htready, htprio⟩ := hmem ht
    obtain ⟨huline, huready, huprio⟩ := hmem hu
    obtain ⟨htclass, htorder⟩ := (hplaced.staged htready).of_realtime (hplaced.only htline).1.symm
    obtain ⟨huclass, huorder⟩ := (hplaced.staged huready).of_realtime (hplaced.only huline).1.symm
    have hseq : (w.tasks t).sequence < (w.tasks u).sequence := by
      rw [← (hplaced.stands htready).2, ← (hplaced.stands huready).2]
      exact hlt
    rw [htprio, ← huprio, ← huorder] at htorder
    exact CfsTask.readyKey_lt.mpr (.inr ⟨htclass.trans huclass.symm, .inr ⟨htorder, hseq⟩⟩)
  · constructor
    · intro ht
      obtain ⟨hready, hdec⟩ := List.mem_filter.mp ht
      obtain ⟨hrt, hprio⟩ := of_decide_eq_true hdec
      have hstands := (hplaced.stands hready).1
      rw [hrt] at hstands
      exact List.mem_filter.mpr ⟨hstands, decide_eq_true ⟨hready, hprio⟩⟩
    · intro ht
      obtain ⟨htline, htready, htprio⟩ := hmem ht
      exact List.mem_filter.mpr
        ⟨htready, decide_eq_true ⟨(hplaced.only htline).1.symm, htprio⟩⟩

theorem dispatched (h : Coherent w lines) (s : κ) : lines.Dispatched w s (w.pickNextTask s).1 := by
  have hqueue := h.filter_readyQueue s
  unfold World.realtimeQueue at hqueue
  obtain ⟨howned, place, hplaced⟩ := h
  have hasc := hplaced.ascending s
  have hdoes := picks (w := w) (s := s)
  generalize w.pickNextTask s = result at hdoes ⊢
  cases hdoes with
  | none hempty =>
    refine .none (fun priority => ?_) hempty
    rw [← hqueue, hempty]
    rfl
  | @some t rest w' hready hworld =>
    have ht : t ∈ (w.schedulers s).readyQueue := hready ▸ List.mem_cons_self
    have hstaged := hplaced.staged ht
    -- the keys of all others are greater
    have hleast {u : ι} (hu : u ∈ (w.schedulers s).readyQueue) (hne : u ≠ t) :
        (w.tasks t).readyKey < (w.tasks u).readyKey := by
      rw [hready] at hasc hu
      exact (List.pairwise_cons.mp hasc).1 u ((List.mem_cons.mp hu).resolve_left hne)
    have hidle (hnone : ∀ u ∈ (w.schedulers s).readyQueue,
        (w.tasks u).params.isRealtime = false) (priority : Nat) :
        lines.queue w s priority = [] := by
      rw [← hqueue, List.filter_eq_nil_iff]
      intro u hu hdec
      exact absurd (of_decide_eq_true hdec).1 (ne_true_of_eq_false (hnone u hu))
    by_cases hrt : (w.tasks t).params.isRealtime = true
    · obtain ⟨hclass, horder⟩ := hstaged.of_realtime hrt
      have hfirst := hqueue (w.tasks t).params.rtPriority
      rw [hready, List.filter_cons_of_pos (by exact decide_eq_true ⟨hrt, rfl⟩)] at hfirst
      refine .realtime hfirst.symm fun higher hlt => ?_
      rw [← hqueue, List.filter_eq_nil_iff]
      intro u hu hdec
      obtain ⟨hurt, hprio⟩ := of_decide_eq_true hdec
      obtain ⟨huclass, huorder⟩ := (hplaced.staged hu).of_realtime hurt
      have hne : u ≠ t := by
        rintro rfl
        omega
      have hkey := CfsTask.readyKey_lt.mp (hleast hu hne)
      unfold rtPriorityKey at horder huorder
      omega
    · have hfair := Bool.eq_false_of_not_eq_true hrt
      obtain ⟨hclass, horder⟩ := hstaged.of_fair hfair
      have hall : ∀ u ∈ (w.schedulers s).readyQueue, (w.tasks u).params.isRealtime = false := by
        intro u hu
        by_contra hurt
        have hurt' := Bool.eq_true_of_not_eq_false hurt
        obtain ⟨huclass, -⟩ := (hplaced.staged hu).of_realtime hurt'
        have hne : u ≠ t := by
          rintro rfl
          exact hrt hurt'
        have hkey := CfsTask.readyKey_lt.mp (hleast hu hne)
        omega
      refine .fair (hidle hall) ht fun u hu hne => ?_
      obtain ⟨huclass, -⟩ := (hplaced.staged hu).of_fair (hall u hu)
      have hkey := CfsTask.readyKey_lt.mp (hleast hu hne)
      rw [Prod.Lex.toLex_lt_toLex]
      dsimp only
      omega

end Coherent

/-! ### When a task gets its place -/

/-- A number is left at this end of the line. -/
def CfsScheduler.HasNumber (scheduler : CfsScheduler ι) (realtime front : Bool) : Prop :=
  if realtime then
    if front then isizeMin < scheduler.rtFrontSeq else scheduler.rtBackSeq < isizeMax
  else scheduler.fairSequence < isizeMax

omit [DecidableEq ι] in
theorem CfsScheduler.nextRtSeq_ok_iff {scheduler : CfsScheduler ι} {front : Bool} :
    (∃ p, scheduler.nextRtSeq front = .ok p) ↔ scheduler.HasNumber true front := by
  unfold nextRtSeq HasNumber
  cases front <;> simp only [if_true, Bool.false_eq_true, if_false] <;> split <;> simp [*]

omit [DecidableEq ι] in
theorem CfsScheduler.nextFairSequence_ok_iff {scheduler : CfsScheduler ι}
    {front : Bool} :
    (∃ p, scheduler.nextFairSequence = .ok p) ↔ scheduler.HasNumber false front := by
  unfold nextFairSequence HasNumber
  simp only [Bool.false_eq_true, if_false]
  split <;> simp [*]

/-- The scheduler has an identifier or can be given one, and a number is left. -/
def World.CanDraw (w : World ι κ) (s : κ) (realtime front : Bool) : Prop :=
  ((w.schedulers s).id ≠ unowned ∨ w.nextSchedulerId < configuring) ∧
    (w.schedulers s).HasNumber realtime front

omit [DecidableEq ι] in
theorem ensureId_ok_iff : (∃ id, (w.ensureId s).1 = .ok id) ↔
    ((w.schedulers s).id ≠ unowned ∨ w.nextSchedulerId < configuring) := by
  unfold ensureId
  split_ifs with hnew hlt <;> simp [*]

omit [DecidableEq ι] in
theorem hasNumber_ensureId {realtime front : Bool} :
    ((w.ensureId s).2.schedulers s).HasNumber realtime front ↔
      (w.schedulers s).HasNumber realtime front := by
  obtain ⟨id, heq, -⟩ := schedulers_ensureId (w := w) (s := s) s
  rw [heq]
  exact Iff.rfl

theorem enqueueWithAction_ok_iff (action : CfsEnqueueAction) :
    (w.enqueueWithAction s t action).1 = .ok () ↔
      (w.tasks t).queueOwner = unowned ∧
        w.CanDraw s (w.tasks t).params.isRealtime (decide (Resumes (w.tasks t) action)) := by
  unfold enqueueWithAction World.CanDraw
  rw [← ensureId_ok_iff, ← hasNumber_ensureId, ← tasks_ensureId (s := s)]
  generalize w.ensureId s = r
  obtain ⟨_ | id, w₁⟩ := r
  · simp
  · simp only [Except.ok.injEq, exists_eq', true_and]
    by_cases hfree : (w₁.tasks t).queueOwner = unowned
    · have hclaim : (w₁.tasks t).claim id = .ok { w₁.tasks t with queueOwner := id } := if_pos hfree
      rw [hclaim]
      dsimp only
      by_cases hrt : (w₁.tasks t).params.isRealtime = true
      · rw [if_pos hrt, hrt, ← CfsScheduler.nextRtSeq_ok_iff]
        have hfront : (realtimePlace { w₁.tasks t with queueOwner := id } action).1
            = decide (Resumes (w₁.tasks t) action) := realtimePlace_front (by exact hrt)
        rw [hfront]
        cases (w₁.schedulers s).nextRtSeq (decide (Resumes (w₁.tasks t) action)) <;> simp [hfree]
      · rw [if_neg hrt, Bool.eq_false_of_not_eq_true hrt, ← CfsScheduler.nextFairSequence_ok_iff]
        cases (w₁.schedulers s).nextFairSequence <;> simp [hfree]
    · simp only [hfree, false_and, iff_false]
      unfold CfsTask.claim
      rw [if_neg hfree]
      split_ifs <;> simp

theorem reserveNewTask_ok_iff :
    (∃ r, (w.reserveNewTask s t).1 = .ok r) ↔
      (w.tasks t).queueOwner = unowned ∧ w.CanDraw s (w.tasks t).params.isRealtime false := by
  unfold reserveNewTask World.CanDraw
  rw [← ensureId_ok_iff, ← hasNumber_ensureId, ← tasks_ensureId (s := s)]
  generalize w.ensureId s = r
  obtain ⟨_ | id, w₁⟩ := r
  · simp
  · simp only [Except.ok.injEq, exists_eq', true_and]
    by_cases hfree : (w₁.tasks t).queueOwner = unowned
    · rw [if_pos hfree]
      cases hrt : (w₁.tasks t).params.isRealtime with
      | true =>
        rw [if_pos rfl, ← CfsScheduler.nextRtSeq_ok_iff]
        cases (w₁.schedulers s).nextRtSeq false <;> simp [hfree]
      | false =>
        rw [if_neg Bool.false_ne_true, ← CfsScheduler.nextFairSequence_ok_iff]
        cases (w₁.schedulers s).nextFairSequence <;> simp [hfree]
    · rw [if_neg hfree]
      split_ifs <;> simp [hfree]

/-! ### What a task that gets its place does to the queues -/

/-- The task is linked at the scheduler, and nothing else is. -/
structure Linked (w w' : World ι κ) (s : κ) (t : ι) : Prop where
  ready {s' : κ} {u : ι} : u ∈ (w'.schedulers s').readyQueue ↔
    s' = s ∧ u = t ∨ u ∈ (w.schedulers s').readyQueue
  tasks {u : ι} : u ≠ t → w'.tasks u = w.tasks u
  params : (w'.tasks t).params = (w.tasks t).params

theorem Linked.enter {task : CfsTask} {scheduler : CfsScheduler ι}
    (hready : scheduler.readyQueue = (w.schedulers s).readyQueue)
    (hparams : task.params = (w.tasks t).params) (realtime : Bool) :
    Linked w (((w.enter s t task scheduler).settle s realtime).stop t) s t := by
  have htasks : (((w.enter s t task scheduler).settle s realtime).stop t).tasks =
      Function.update w.tasks t task := tasks_settle ..
  refine ⟨fun {s' u} => ?_, fun hu => ?_, ?_⟩
  · rw [← w.mem_enter s t task scheduler hready,
      ← ((w.enter s t task scheduler).agrees_settle s realtime).readyQueue]
    exact Iff.rfl
  · rw [htasks, Function.update_of_ne hu]
  · rw [htasks, Function.update_self, hparams]

namespace Coherent

theorem linked_of_enqueue {action : CfsEnqueueAction} (h : Coherent w lines)
    (hok : w.enqueueWithAction s t action = (.ok (), w')) : Linked w w' s t := by
  have hdoes := enqueues (s := s) (t := t) (h.1.next_ne s) action
  rw [hok] at hdoes
  cases hdoes with
  | enqueued hid hfree hjoins hparams _ hworld =>
    obtain ⟨hready, htasks, hkept⟩ := hworld ▸ Linked.enter hjoins.draws.readyQueue hparams _
    rw [tasks_ensureId] at htasks hkept
    refine ⟨fun {s' u} => ?_, htasks, hkept⟩
    obtain ⟨id, heq, -⟩ := schedulers_ensureId (w := w) (s := s) s'
    rw [hready, heq]

theorem linked_of_commit {r : CfsTaskReservation ι} (h : Coherent w lines)
    (hok : w.commitReservedTask s r = (.ok (), w')) :
    Linked w w' s r.task := by
  have hdoes := commits (w := w) (s := s) r
  rw [hok] at hdoes
  cases hdoes with
  | committed hr hid hstaged hparams howner hsequence _ hworld =>
    rw [hworld]
    obtain ⟨hready, htasks, hkept⟩ := Linked.enter
      (w := { w with reservations := w.reservations.erase r }) (s := s) rfl
      (hparams.trans (h.1.granted hr).2.2) _
    exact ⟨hready, htasks, hkept⟩

omit [DecidableEq κ] in
/-- The queue of the task is its line, as far as it is linked, with the task. -/
theorem realtimeQueue_of_linked {lines' : Lines ι κ} (h' : Coherent w' lines')
    (hlinked : Linked w w' s t) :
    w'.realtimeQueue s (w.tasks t).params.rtPriority = (lines' true s).filter fun u =>
      decide ((u = t ∨ u ∈ (w.schedulers s).readyQueue) ∧
        (w.tasks u).params.rtPriority = (w.tasks t).params.rtPriority) := by
  refine (h'.filter_readyQueue s _).trans (List.filter_congr fun u _ => ?_)
  rw [decide_eq_decide, hlinked.ready]
  by_cases hu : u = t
  · rw [hu, hlinked.params]
    simp
  · rw [hlinked.tasks hu]
    simp [hu]

theorem realtimeQueue_of_enqueue {action : CfsEnqueueAction} (h : Coherent w lines)
    (hok : w.enqueueWithAction s t action = (.ok (), w'))
    (hrt : (w.tasks t).params.isRealtime = true) :
    w'.realtimeQueue s (w.tasks t).params.rtPriority =
      if Resumes (w.tasks t) action then t :: w.realtimeQueue s (w.tasks t).params.rtPriority
      else w.realtimeQueue s (w.tasks t).params.rtPriority ++ [t] := by
  have hfree := ((enqueueWithAction_ok_iff action).mp (congrArg Prod.fst hok)).1
  have h' := h.enqueue s t action
  dsimp only [apply, Lines.apply] at h'
  rw [hok] at h'
  rw [h'.realtimeQueue_of_linked (h.linked_of_enqueue hok)]
  -- the others of the line are linked after the operation if they were before it
  obtain ⟨howned, place, hplaced⟩ := id h
  have hothers : ((lines true s).filter fun u => decide ((u = t ∨ u ∈ (w.schedulers s).readyQueue) ∧
      (w.tasks u).params.rtPriority = (w.tasks t).params.rtPriority))
        = w.realtimeQueue s (w.tasks t).params.rtPriority := by
    refine Eq.trans (List.filter_congr fun u hu => ?_) (h.filter_readyQueue s _).symm
    have hne : u ≠ t := fun heq => hplaced.absent howned hfree true s (heq ▸ hu)
    rw [decide_eq_decide]
    simp [hne]
  simp only [Lines.take, hrt, and_self, if_true, decide_eq_true_eq]
  split
  · rw [List.filter_cons_of_pos (by simp), hothers]
  · rw [List.filter_append, hothers, List.filter_cons_of_pos (by simp), List.filter_nil]

theorem commitReservedTask_ok_iff (h : Coherent w lines) (r : CfsTaskReservation ι) :
    (w.commitReservedTask s r).1 = .ok () ↔
      r ∈ w.reservations ∧ r.schedulerId = (w.schedulers s).id := by
  unfold commitReservedTask
  by_cases hr : r ∈ w.reservations
  · have hbusy := h.1.reserved.mpr ⟨r, hr, rfl⟩
    have hparams := (h.1.granted hr).2.2
    rw [if_pos hr]
    dsimp only
    by_cases hid : r.schedulerId = (w.schedulers s).id
    · rw [if_neg (not_not.mpr hid), if_neg (by simp [hbusy, hparams])]
      split <;> simp [hr, hid]
    · rw [if_pos hid]
      simp [hid]
  · rw [if_neg hr]
    simp [hr]

theorem reserved {r : CfsTaskReservation ι} (h : Coherent w lines)
    (hok : w.reserveNewTask s t = (.ok r, w')) :
    r.task = t ∧ r ∈ w'.reservations ∧ r.schedulerId = (w'.schedulers s).id := by
  have hdoes := reserves (s := s) (t := t) (h.1.next_ne s)
  rw [hok] at hdoes
  cases hdoes with
  | @reserved sequence scheduler hid hfree hdraws =>
    refine ⟨rfl, List.mem_cons_self, ?_⟩
    exact (World.update_frame _ (·.id) hdraws.id s).symm

end Coherent

/-- When the operations that give a task its place succeed, and what they do to the queues. -/
structure Serves (w : World ι κ) (lines : Lines ι κ) : Prop where
  /-- An enqueue succeeds if the task is nobody's and there is a number for it. -/
  enqueue (s : κ) (t : ι) (action : CfsEnqueueAction) :
    (w.enqueueWithAction s t action).1 = .ok () ↔ (w.tasks t).queueOwner = unowned ∧
      w.CanDraw s (w.tasks t).params.isRealtime (decide (Resumes (w.tasks t) action))
  enqueued {s : κ} {t : ι} {action : CfsEnqueueAction} {w' : World ι κ} :
    w.enqueueWithAction s t action = (.ok (), w') → Linked w w' s t
  /-- A preempted task that goes on is then the first of its queue, any other one the last. -/
  queued {s : κ} {t : ι} {action : CfsEnqueueAction} {w' : World ι κ} :
    w.enqueueWithAction s t action = (.ok (), w') → (w.tasks t).params.isRealtime = true →
      w'.realtimeQueue s (w.tasks t).params.rtPriority =
        if Resumes (w.tasks t) action then t :: w.realtimeQueue s (w.tasks t).params.rtPriority
        else w.realtimeQueue s (w.tasks t).params.rtPriority ++ [t]
  reserve (s : κ) (t : ι) : (∃ r, (w.reserveNewTask s t).1 = .ok r) ↔
    (w.tasks t).queueOwner = unowned ∧ w.CanDraw s (w.tasks t).params.isRealtime false
  reserved {s : κ} {t : ι} {r : CfsTaskReservation ι} {w' : World ι κ} :
    w.reserveNewTask s t = (.ok r, w') →
      r.task = t ∧ r ∈ w'.reservations ∧ r.schedulerId = (w'.schedulers s).id
  /-- A reservation that is held can be committed at the scheduler that gave it. -/
  commit (s : κ) (r : CfsTaskReservation ι) : (w.commitReservedTask s r).1 = .ok () ↔
    r ∈ w.reservations ∧ r.schedulerId = (w.schedulers s).id
  committed {s : κ} {r : CfsTaskReservation ι} {w' : World ι κ} :
    w.commitReservedTask s r = (.ok (), w') → Linked w w' s r.task
  /-- The task is then where its place in the line is, between those that are linked. -/
  placed {s : κ} {r : CfsTaskReservation ι} {w' : World ι κ} :
    w.commitReservedTask s r = (.ok (), w') →
      w'.realtimeQueue s (w.tasks r.task).params.rtPriority = (lines true s).filter fun u =>
        decide ((u = r.task ∨ u ∈ (w.schedulers s).readyQueue) ∧
          (w.tasks u).params.rtPriority = (w.tasks r.task).params.rtPriority)

theorem Coherent.serves (h : Coherent w lines) : Serves w lines where
  enqueue s t := enqueueWithAction_ok_iff
  enqueued := h.linked_of_enqueue
  queued := h.realtimeQueue_of_enqueue
  reserve s t := reserveNewTask_ok_iff
  reserved := h.reserved
  commit s := h.commitReservedTask_ok_iff
  committed := h.linked_of_commit
  placed {s r w'} hok := by
    have h' := h.commit s r
    dsimp only [apply, Lines.apply] at h'
    rw [hok] at h'
    exact h'.realtimeQueue_of_linked (h.linked_of_commit hok)

/-! ### Refinement -/

/-- The schedulers do what the lines say. -/
structure Refines (w : World ι κ) (lines : Lines ι κ) : Prop where
  /-- The keys that are linked at a scheduler are distinct and in order. -/
  keys (s : κ) : Ascending (fun t => (w.tasks t).readyKey) (w.schedulers s).readyQueue
  /-- An identifier is the one of one scheduler. -/
  identifiers (s s' : κ) : (w.schedulers s).id = (w.schedulers s').id →
    (w.schedulers s).id ≠ unowned → s = s'
  /-- The owner word names the scheduler where the task is linked. -/
  owners (s : κ) (t : ι) : t ∈ (w.schedulers s).readyQueue ↔
    (w.tasks t).queueOwner = (w.schedulers s).id ∧ (w.schedulers s).id ≠ unowned
  /-- The order of a fair task is the virtual runtime at which it was placed. -/
  vruntimes (s : κ) (t : ι) : t ∈ (w.schedulers s).readyQueue →
    (w.tasks t).params.isRealtime = false → (w.tasks t).readyOrder = (w.tasks t).initVruntime
  /-- The real-time tasks of a priority are linked in the order of their line. -/
  queues (s : κ) (priority : Nat) : w.realtimeQueue s priority = lines.queue w s priority
  picks (s : κ) : lines.Dispatched w s (w.pickNextTask s).1

/-- **The schedulers keep the lines.**  After any operations the ready queues are the lines of the
tasks, and the next pick takes the task that has to be picked; and an enqueue, a reservation or a
commit that has all it needs succeeds and puts the task where it belongs. -/
theorem schedulers_refine (ops : List (Op ι κ)) :
    Refines ((initial ι κ).run ops) ((Lines.empty ι κ).run (initial ι κ) ops) ∧
      Serves ((initial ι κ).run ops) ((Lines.empty ι κ).run (initial ι κ) ops) := by
  have h : Coherent _ _ := Coherent.initial.run ops
  obtain ⟨howned, place, hplaced⟩ := id h
  exact ⟨⟨hplaced.ascending, fun s s' => howned.distinct, fun s t => howned.linked,
    fun s t ht hfair => ((hplaced.staged ht).of_fair hfair).2, h.filter_readyQueue, h.dispatched⟩,
    h.serves⟩

end KernelAx.Cfs
