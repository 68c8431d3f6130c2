import KernelAx.Cfs.Floor

/-!
# CFS — when the floor does not fall

Along operations that leave a fair task in the tree where they take one out of it, and that do not
pick from an empty tree, the floor of a scheduler does not fall, and no new task is placed below it.
Without that it does: the floor is reset while a fair task runs.
-/

namespace KernelAx.Cfs

open World
open Function (update_self update_of_ne)

open Eevdf (SchedulerError)

variable {ι κ : Type} [DecidableEq ι] [DecidableEq κ]

/-- If the task is a fair task that is linked, then another one is, too. -/
def Spares (w : World ι κ) (s : κ) (t : ι) : Prop :=
  t ∈ (w.schedulers s).readyQueue → (w.tasks t).params.isRealtime = false →
    ∃ u ∈ (w.schedulers s).readyQueue, u ≠ t ∧ (w.tasks u).params.isRealtime = false

/-- The operation does not reset the floor of the scheduler. -/
def Keeps (w : World ι κ) (s : κ) : Op ι κ → Prop
  | .remove s' t | .removeForMigration s' t | .setTaskParams s' t _ | .setPriority s' t _ =>
    s' = s → Spares w s t
  | .pick s' => s' = s → (w.schedulers s).readyQueue ≠ []
  | _ => True

variable {w w' : World ι κ} {lines : Lines ι κ} {s : κ} {t : ι}

omit [DecidableEq ι] [DecidableEq κ] in
/-- A fair task that is linked is seen by the floor. -/
theorem Coherent.seen (h : Coherent w lines) (hranged : Ranged w)
    (ht : t ∈ (w.schedulers s).readyQueue) (hfair : (w.tasks t).params.isRealtime = false) :
    (w.tasks t).readyClass = 1 ∧ isizeMin ≤ (w.tasks t).readyOrder ∧
      isizeMin ≤ (w.tasks t).sequence := by
  obtain ⟨-, place, hplaced⟩ := h
  have hclass := ((hplaced.staged ht).of_fair hfair).1
  obtain ⟨hline, hplace⟩ := hplaced.stands ht
  rw [hfair] at hline
  have hseq := ((hplaced.numbered.fair s).given hline).1
  have hrt : (w.tasks t).readyIsRt = false := by
    rw [(hplaced.staged ht).readyIsRt]
    exact hfair
  refine ⟨hclass, (hranged.order ht hrt).1, ?_⟩
  rw [← hplace]
  exact (by decide : isizeMin ≤ 0).trans hseq

omit [DecidableEq ι] [DecidableEq κ] in
/-- A number that is drawn for a fair task is seen, too. -/
theorem Coherent.drawn {scheduler : CfsScheduler ι} {realtime first : Bool} {x : Int}
    (h : Coherent w lines) (hdraws : Draws (w.schedulers s) realtime first x scheduler)
    (hfair : realtime = false) : isizeMin ≤ x := by
  obtain ⟨-, place, hplaced⟩ := h
  rw [hdraws.of_eq_false hfair]
  exact (by decide : isizeMin ≤ 0).trans (hplaced.numbered.fair s).le

/-- What an operation does to the floors. -/
def Lifts (w w' : World ι κ) (keeps : κ → Prop) : Prop :=
  Ranged w' ∧ ∀ s, keeps s → Climbs w w' s

namespace Lifts

variable {keeps : κ → Prop}

omit [DecidableEq ι] [DecidableEq κ] in
theorem carry (hranged : Ranged w)
    (hfloor : ∀ s, (w'.schedulers s).minVruntime = (w.schedulers s).minVruntime)
    (hkept : ∀ {s t}, t ∈ (w'.schedulers s).readyQueue →
      t ∈ (w.schedulers s).readyQueue ∧ (w.tasks t).Kept (w'.tasks t)) : Lifts w w' keeps :=
  ⟨hranged.carry hfloor fun ht => .inl (hkept ht), fun s _ => .of_eq (hfloor s)⟩

omit [DecidableEq ι] [DecidableEq κ] in
theorem agrees (hranged : Ranged w) (howned : Owned w) (hagrees : Agrees w w')
    (hfloor : ∀ s, (w'.schedulers s).minVruntime = (w.schedulers s).minVruntime) :
    Lifts w w' keeps :=
  ⟨hranged.agrees howned hagrees hfloor, fun s _ => .of_eq (hfloor s)⟩

omit [DecidableEq κ] in
theorem stop (h : Lifts w w' keeps) : Lifts w (w'.stop t) keeps :=
  ⟨⟨h.1.floor, h.1.order⟩, h.2⟩

/-- A task enters, and the floor is computed again if it is fair. -/
theorem enter {task : CfsTask} {scheduler : CfsScheduler ι} (hranged : Ranged w)
    (hunlinked : ∀ s, t ∉ (w.schedulers s).readyQueue)
    (hready : scheduler.readyQueue = (w.schedulers s).readyQueue)
    (hfloor : scheduler.minVruntime = (w.schedulers s).minVruntime)
    (hstaged : task.Staged)
    (hseen : task.params.isRealtime = false → Within task.readyOrder ∧ isizeMin ≤ task.sequence) :
    Lifts w ((w.enter s t task scheduler).settle s task.params.isRealtime) keeps := by
  refine ⟨(hranged.enter hunlinked hready hfloor fun hrt => ?_).settle _, fun s' _ => ?_⟩
  · exact (hseen (hstaged.readyIsRt ▸ hrt)).1
  · refine .trans (.of_eq (w.minVruntime_enter s t task _ hfloor)) (.settle
      fun _ hfair => ⟨t, ?_, ?_⟩)
    · exact (w.mem_enter s t task scheduler hready).mpr (.inl ⟨rfl, rfl⟩)
    · have htask : (w.enter s t task scheduler).tasks t = task := update_self ..
      rw [htask]
      exact ⟨(hstaged.of_fair hfair).1, (hseen hfair).1.1, (hseen hfair).2⟩

/-- A task is taken out, and another fair task is left. -/
theorem leave {task : CfsTask} (h : Coherent w lines) (hranged : Ranged w)
    (hlinked : t ∈ (w.schedulers s).readyQueue) (hkept : (w.tasks t).Kept task)
    (hkeeps : ∀ s', keeps s' → s = s' → Spares w s' t) :
    Lifts w ((w.leave s t task).settle s (w.tasks t).readyIsRt) keeps := by
  refine ⟨(hranged.leave hkept).settle _, fun s' hs' => ?_⟩
  refine .trans (.of_eq (w.minVruntime_leave s t task)) (.settle fun heq hrt => ?_)
  obtain ⟨-, place, hplaced⟩ := id h
  rw [(hplaced.staged hlinked).readyIsRt] at hrt
  obtain ⟨u, hu, hne, hfair⟩ := hkeeps s' hs' heq.symm (heq ▸ hlinked) hrt
  rw [heq] at hu
  refine ⟨u, (w.mem_leave s t task (hplaced.ascending s).nodup).mpr ⟨fun hut => hne hut.2, hu⟩, ?_⟩
  have hother : (w.leave s t task).tasks u = w.tasks u := update_of_ne hne ..
  rw [hother]
  exact h.seen hranged hu hfair

omit [DecidableEq ι] in
theorem ensureId (hranged : Ranged w) (s : κ) : Lifts w (w.ensureId s).2 keeps := by
  refine carry hranged (fun s' => ?_) fun {s' t} ht => ?_
  · obtain ⟨id, heq, -⟩ := schedulers_ensureId (w := w) (s := s) s'
    rw [heq]
  · obtain ⟨id, heq, -⟩ := schedulers_ensureId (w := w) (s := s) s'
    rw [heq] at ht
    rw [tasks_ensureId]
    exact ⟨ht, .refl⟩

omit [DecidableEq ι] [DecidableEq κ] in
theorem trans {w₁ : World ι κ} (h : Lifts w w₁ keeps) (h' : Lifts w₁ w' keeps) : Lifts w w' keeps :=
  ⟨h'.1, fun s hs => (h.2 s hs).trans (h'.2 s hs)⟩

/-! ### Operations -/

theorem enqueue (h : Coherent w lines) (hranged : Ranged w) (s : κ) (t : ι)
    (action : CfsEnqueueAction) : Lifts w (w.enqueueWithAction s t action).2 keeps := by
  have hdoes := enqueues (s := s) (t := t) (h.1.next_ne s) action
  generalize w.enqueueWithAction s t action = result at hdoes ⊢
  have h' := h.ensureId s
  have hlifts : Lifts w (w.ensureId s).2 keeps := ensureId hranged s
  generalize (w.ensureId s).2 = w₁ at h' hlifts hdoes
  cases hdoes with
  | refused e => exact hlifts
  | @enqueued task scheduler w' hid hfree hjoins hparams horder hworld =>
    rw [hworld]
    refine hlifts.trans (enter hlifts.1 (h'.1.absent hfree).1 hjoins.draws.readyQueue
      hjoins.draws.minVruntime hjoins.staged fun hfair => ⟨?_, ?_⟩).stop
    · rw [horder hfair]
      refine fairPlace_within ?_
      rw [CfsScheduler.queueFloor, hjoins.draws.minVruntime]
      exact hlifts.1.queueFloor s
    · exact h'.drawn hjoins.draws hfair

theorem reserve (h : Coherent w lines) (hranged : Ranged w) (s : κ) (t : ι) :
    Lifts w (w.reserveNewTask s t).2 keeps := by
  have hdoes := reserves (s := s) (t := t) (h.1.next_ne s)
  generalize w.reserveNewTask s t = result at hdoes ⊢
  have h' := h.ensureId s
  have hlifts : Lifts w (w.ensureId s).2 keeps := ensureId hranged s
  generalize (w.ensureId s).2 = w₁ at h' hlifts hdoes
  cases hdoes with
  | refused e => exact hlifts
  | @reserved sequence scheduler hid hfree hdraws =>
    refine hlifts.trans (carry hlifts.1 ?_ fun {s' u} hu =>
      ⟨?_, w₁.kept_setTask t _ (by exact ⟨rfl, rfl, rfl, rfl, rfl⟩) u⟩)
    · exact w₁.update_frame (·.minVruntime) hdraws.minVruntime
    · exact w₁.update_frame (·.readyQueue) hdraws.readyQueue s' ▸ hu

theorem commit (h : Coherent w lines) (hranged : Ranged w) (s : κ) (r : CfsTaskReservation ι) :
    Lifts w (w.commitReservedTask s r).2 keeps := by
  have hdoes := commits (w := w) (s := s) r
  generalize w.commitReservedTask s r = result at hdoes ⊢
  cases hdoes with
  | refused e => exact ⟨hranged, fun s _ => .of_eq rfl⟩
  | @committed task w' hr hid hstaged hparams howner hsequence horder hworld =>
    rw [hworld]
    have hunlinked (s' : κ) : r.task ∉ (w.schedulers s').readyQueue :=
      fun ht => (h.1.elsewhere ht).2 r hr rfl
    have hranged' : Ranged { w with reservations := w.reservations.erase r } :=
      ⟨hranged.floor, hranged.order⟩
    obtain ⟨-, place, hplaced⟩ := h
    obtain ⟨hline, hplace⟩ := hplaced.awaits hr hid
    have hseen (hfair : task.params.isRealtime = false) :
        Within task.readyOrder ∧ isizeMin ≤ task.sequence := by
      constructor
      · rcases horder hfair with heq | heq
        · rw [heq]
          exact hranged.queueFloor s
        · rw [heq]
          exact Within.max (CfsTask.getVruntimeWith_range ..) (hranged.queueFloor s)
      · rw [← hparams, hfair] at hline
        rw [hsequence, ← hplace]
        exact (by decide : isizeMin ≤ 0).trans ((hplaced.numbered.fair s).given hline).1
    have hlifts : Lifts _ _ keeps := enter (s := s) hranged' hunlinked rfl rfl hstaged hseen
    exact stop ⟨hlifts.1, hlifts.2⟩

omit [DecidableEq κ] in
theorem cancel (hranged : Ranged w) (r : CfsTaskReservation ι) :
    Lifts w (w.cancelReservation r) keeps := by
  unfold cancelReservation
  split_ifs with hr
  · refine carry hranged (fun _ => rfl) fun {s u} hu => ⟨hu, w.kept_setTask r.task _ ?_ u⟩
    split <;> exact ⟨rfl, rfl, rfl, rfl, rfl⟩
  · exact ⟨hranged, fun s _ => .of_eq rfl⟩

theorem remove {result : Except SchedulerError (Option ι) × World ι κ} (h : Coherent w lines)
    (hranged : Ranged w) (hdoes : Removes w s t unowned result)
    (hkeeps : ∀ s', keeps s' → s = s' → Spares w s' t) : Lifts w result.2 keeps := by
  cases hdoes with
  | refused e | absent => exact ⟨hranged, fun s _ => .of_eq rfl⟩
  | removed hlinked _ hkept _ hworld =>
    rw [hworld]
    exact leave h hranged hlinked hkept hkeeps

theorem reconfigure {params : CfsTaskParams} {result : Except SchedulerError Unit × World ι κ}
    (h : Coherent w lines) (hranged : Ranged w) (hdoes : Reconfigures w s t params result)
    (hkeeps : ∀ s', keeps s' → s = s' → Spares w s' t) : Lifts w result.2 keeps := by
  cases hdoes with
  | refused e => exact ⟨hranged, fun s _ => .of_eq rfl⟩
  | configured hfree howner =>
    exact agrees hranged h.1 (w.agrees_setTask t _ (howner.trans hfree.symm)
      fun hne => absurd hfree hne) fun _ => rfl
  | restored e hagrees hfloor => exact agrees hranged h.1 hagrees hfloor
  | @moved task task' scheduler w₁ w' hlinked howned hkept hremoved hjoins _ horder hworld =>
    have hleft : Lifts w w₁ keeps := by
      rw [hremoved]
      exact leave h hranged hlinked hkept hkeeps
    rw [hworld]
    refine hleft.trans (enter hleft.1 ?_ hjoins.draws.readyQueue hjoins.draws.minVruntime
      hjoins.staged fun hfair => ?_)
    · intro s' ht
      obtain ⟨-, place, hplaced⟩ := id h
      rw [hremoved, (agrees_settle ..).readyQueue,
        w.mem_leave s t task (hplaced.ascending s).nodup] at ht
      exact ht.1 ⟨(h.1.elsewhere hlinked).1 s' ht.2, rfl⟩
    · refine ⟨horder hfair, ?_⟩
      obtain ⟨-, place, hplaced⟩ := id h
      have hsettle := agrees_settle (w.leave s t task) s (w.tasks t).readyIsRt
      have hsequence := (hsettle.schedulers s).2.2.1
      rw [← hremoved, schedulers_leave, update_self] at hsequence
      rw [hjoins.draws.of_eq_false hfair, hsequence]
      exact (by decide : isizeMin ≤ 0).trans (hplaced.numbered.fair s).le

theorem pick (hranged : Ranged w) (s : κ)
    (hkeeps : ∀ s', keeps s' → s = s' → (w.schedulers s').readyQueue ≠ []) :
    Lifts w (w.pickNextTask s).2 keeps := by
  have hdoes := picks (w := w) (s := s)
  generalize w.pickNextTask s = result at hdoes ⊢
  cases hdoes with
  | none hempty =>
    refine ⟨hranged.refresh fun x hx => (nomatch hx), fun s' hs' => .refresh fun heq => ?_⟩
    exact absurd (heq ▸ hempty) (hkeeps s' hs' heq.symm)
  | @some t rest w' hready hworld =>
    have hlinked : t ∈ (w.schedulers s).readyQueue := hready ▸ List.mem_cons_self
    have hranged' : Ranged w' := by
      have hleft : Ranged (w.leave s t { w.tasks t with queueOwner := unowned }) :=
        hranged.leave ⟨rfl, rfl, rfl, rfl, rfl⟩
      rw [hworld]
      exact ⟨hleft.floor, hleft.order⟩
    have hclimbs (s' : κ) : Climbs w w' s' := by
      rw [hworld]
      exact .of_eq (w.minVruntime_leave s t _)
    dsimp only
    split
    · exact ⟨hranged', fun s' _ => hclimbs s'⟩
    case _ hrt =>
      refine ⟨hranged'.refresh fun x hx => ?_, fun s' _ => (hclimbs s').trans (.refresh ?_)⟩
      · cases hx
        exact hranged.order hlinked (Bool.eq_false_of_not_eq_true hrt)
      · exact fun _ => .inl (Option.some_ne_none _)

theorem step (h : Coherent w lines) (hranged : Ranged w) (op : Op ι κ) :
    Lifts w (w.apply op) fun s => Keeps w s op := by
  have hsame : Lifts w w fun s => Keeps w s op := ⟨hranged, fun s _ => .of_eq rfl⟩
  cases op with
  | setRrTimesliceTicks ticks =>
    dsimp only [apply]
    split
    · exact hsame
    · exact ⟨⟨hranged.floor, hranged.order⟩, hsame.2⟩
  | configure t params =>
    exact agrees hranged h.1 (agrees_configure params) fun _ => rfl
  | inheritFairVruntimeFrom t parent =>
    exact agrees hranged h.1 (agrees_inherit parent) fun _ => rfl
  | enqueue s t action => exact enqueue h hranged s t action
  | reserve s t => exact reserve h hranged s t
  | commit s r => exact commit h hranged s r
  | cancel r => exact cancel hranged r
  | remove s t => exact remove h hranged (removes unowned false) fun _ hs => hs
  | removeForMigration s t => exact remove h hranged (removes unowned true) fun _ hs => hs
  | setTaskParams s t params =>
    obtain ⟨-, place, hplaced⟩ := id h
    exact reconfigure h hranged (reconfigures params (hplaced.ascending s)) fun _ hs => hs
  | setPriority s t prio =>
    dsimp only [apply]
    obtain ⟨e, heq⟩ | ⟨result, task, hfree, howner, heq⟩ | ⟨hfair, heq⟩ :=
      setPriority_cases (w := w) (s := s) (t := t) prio
    · rw [heq]
      exact hsame
    · rw [heq]
      exact agrees hranged h.1 (w.agrees_setTask t task (howner.trans hfree.symm)
        fun hne => absurd hfree hne) fun _ => rfl
    · rw [heq]
      obtain ⟨-, place, hplaced⟩ := id h
      exact reconfigure h hranged (reconfigures _ (hplaced.ascending s)) fun _ hs => hs
  | deactivate s t reason =>
    exact agrees hranged h.1 (agrees_deactivate reason) fun _ => by cases reason <;> rfl
  | pick s => exact pick hranged s fun _ hs => hs
  | tick s t =>
    have hdoes := ticks (w := w) (s := s) (t := t)
    dsimp only [apply]
    generalize (w.taskTick s t).2 = w' at hdoes ⊢
    cases hdoes with
    | unseen hkept howner =>
      exact agrees hranged h.1 (w.agrees_setTask t _ howner fun _ => hkept) fun _ => rfl
    | seen hkept howner =>
      have hticked := hranged.agrees h.1 (w.agrees_setTask t _ howner fun _ => hkept)
        fun _ => rfl
      refine ⟨hticked.refresh fun x hx => ?_, fun s' _ => .refresh (w := w.setTask t _) ?_⟩
      · cases hx
        exact CfsTask.getVruntimeWith_range ..
      · exact fun _ => .inl (Option.some_ne_none _)

end Lifts

/-! ### Runs -/

/-- The operations are such, each in the world that it finds. -/
def KeepsAll (w : World ι κ) (s : κ) : List (Op ι κ) → Prop
  | [] => True
  | op :: ops => Keeps w s op ∧ KeepsAll (w.apply op) s ops

omit [DecidableEq ι] [DecidableEq κ] in
theorem Ranged.initial : Ranged (initial ι κ) :=
  ⟨fun h => (nomatch h), fun h => absurd h List.not_mem_nil⟩

theorem Ranged.run (h : Coherent w lines) (hranged : Ranged w) (ops : List (Op ι κ)) :
    Ranged (w.run ops) := by
  induction ops generalizing w lines with
  | nil => exact hranged
  | cons op ops ih => exact ih (h.step op) (Lifts.step h hranged op).1

theorem Climbs.run (h : Coherent w lines) (hranged : Ranged w) {ops : List (Op ι κ)}
    (hkeeps : KeepsAll w s ops) : Climbs w (w.run ops) s := by
  induction ops generalizing w lines with
  | nil => exact .of_eq rfl
  | cons op ops ih =>
    have hlifts := Lifts.step h hranged op
    exact (hlifts.2 s hkeeps.1).trans (ih (h.step op) hlifts.1 hkeeps.2)

theorem KeepsAll.append {ops ops' : List (Op ι κ)} (h : KeepsAll w s (ops ++ ops')) :
    KeepsAll w s ops ∧ KeepsAll (w.run ops) s ops' := by
  induction ops generalizing w with
  | nil => exact ⟨trivial, h⟩
  | cons op ops ih =>
    obtain ⟨hops, hops'⟩ := ih h.2
    exact ⟨⟨h.1, hops⟩, hops'⟩

/-- The placement floor of a scheduler. -/
def World.floor (w : World ι κ) (s : κ) : Int := (w.schedulers s).queueFloor

omit [DecidableEq ι] [DecidableEq κ] in
theorem Climbs.floor_le (h : Climbs w w' s) (hset : (w.schedulers s).minVruntime ≠ none) :
    w.floor s ≤ w'.floor s := by
  obtain ⟨v, hv⟩ := Option.ne_none_iff_exists'.mp hset
  obtain ⟨v', hv', hle⟩ := h v hv
  unfold floor CfsScheduler.queueFloor
  rwa [hv, hv']

omit [DecidableEq ι] [DecidableEq κ] in
theorem Climbs.set (h : Climbs w w' s) (hset : (w.schedulers s).minVruntime ≠ none) :
    (w'.schedulers s).minVruntime ≠ none := by
  obtain ⟨v, hv⟩ := Option.ne_none_iff_exists'.mp hset
  obtain ⟨v', hv', -⟩ := h v hv
  rw [hv']
  exact Option.some_ne_none _

/-- The operation places a fair task as a new one or as one that wakes up. -/
def Arrives (w : World ι κ) (s : κ) (t : ι) : Op ι κ → Prop
  | .enqueue s' t' action => s' = s ∧ t' = t ∧ (action = .new ∨ action = .wakeup) ∧
      (w.tasks t).params.isRealtime = false ∧ (w.enqueueWithAction s t action).1 = .ok ()
  | .commit s' r => s' = s ∧ r.task = t ∧ r.params.isRealtime = false ∧
      (w.commitReservedTask s r).1 = .ok ()
  | _ => False

theorem Arrives.floor_le {op : Op ι κ} (h : Coherent w lines) (hranged : Ranged w)
    (hop : Arrives w s t op) : w.floor s ≤ ((w.apply op).tasks t).readyOrder := by
  cases op with
  | enqueue s' t' action =>
    obtain ⟨rfl, rfl, haction, hfair, hok⟩ := hop
    have hdoes := enqueues (s := s') (t := t') (h.1.next_ne s') action
    dsimp only [apply]
    generalize w.enqueueWithAction s' t' action = result at hdoes hok ⊢
    have htasks : (w.ensureId s').2.tasks = w.tasks := tasks_ensureId
    have hfloor : ((w.ensureId s').2.schedulers s').minVruntime =
        (w.schedulers s').minVruntime := by
      obtain ⟨id, heq, -⟩ := schedulers_ensureId (w := w) (s := s') s'
      rw [heq]
    generalize (w.ensureId s').2 = w₁ at hdoes htasks hfloor
    cases hdoes with
    | refused e => cases hok
    | @enqueued task scheduler w' hid hfree hjoins hparams horder hworld =>
      rw [← htasks, ← hparams] at hfair
      have htask : w'.tasks t' = task := by
        rw [hworld]
        change (settle _ s' task.params.isRealtime).tasks t' = task
        rw [tasks_settle]
        exact update_self ..
      have hsame : scheduler.queueFloor = w.floor s' := by
        rw [CfsScheduler.queueFloor, hjoins.draws.minVruntime, hfloor]
        rfl
      change w.floor s' ≤ (w'.tasks t').readyOrder
      rw [htask, horder hfair, ← hsame]
      exact queueFloor_le_fairPlace (hsame ▸ hranged.queueFloor s') haction
  | commit s' r =>
    obtain ⟨rfl, rfl, hfair, hok⟩ := hop
    have hdoes := commits (w := w) (s := s') r
    dsimp only [apply]
    generalize w.commitReservedTask s' r = result at hdoes hok ⊢
    cases hdoes with
    | refused e => cases hok
    | @committed task w' hr hid hstaged hparams howner hsequence horder hworld =>
      rw [← hparams] at hfair
      have htask : w'.tasks r.task = task := by
        rw [hworld]
        change (settle _ s' task.params.isRealtime).tasks r.task = task
        rw [tasks_settle]
        exact update_self ..
      change w.floor s' ≤ (w'.tasks r.task).readyOrder
      rw [htask]
      rcases horder hfair with heq | heq
      · rw [heq]
        exact le_rfl
      · rw [heq]
        exact le_max_right ..
  | _ => exact hop.elim

/-- From a world whose floor is set, along operations that keep it, the floor never falls, and new
tasks and those that wake up are placed at no floor that was seen before, or above it. -/
theorem floor_climbs (before period : List (Op ι κ)) (s : κ)
    (hset : (((initial ι κ).run before).schedulers s).minVruntime ≠ none)
    (hkeeps : KeepsAll ((initial ι κ).run before) s period) :
    (∀ earlier later rest, earlier ++ later ++ rest = period →
      (((initial ι κ).run before).run earlier).floor s ≤
        (((initial ι κ).run before).run (earlier ++ later)).floor s) ∧
    (∀ earlier later op rest t, earlier ++ later ++ op :: rest = period →
      Arrives (((initial ι κ).run before).run (earlier ++ later)) s t op →
        (((initial ι κ).run before).run earlier).floor s ≤
          (((((initial ι κ).run before).run (earlier ++ later)).apply op).tasks
            t).readyOrder) := by
  have h : Coherent _ _ := Coherent.initial.run before
  have hranged := Ranged.initial.run .initial before
  generalize (initial ι κ).run before = w at h hranged hset hkeeps ⊢
  have hmono (earlier later rest : List (Op ι κ)) (heq : earlier ++ later ++ rest = period) :
      (w.run earlier).floor s ≤ (w.run (earlier ++ later)).floor s := by
    rw [← heq, List.append_assoc] at hkeeps
    obtain ⟨hearlier, hkeeps⟩ := hkeeps.append
    have hrun : w.run (earlier ++ later) = (w.run earlier).run later := List.foldl_append
    rw [hrun]
    exact (Climbs.run (h.run earlier) (hranged.run h earlier) hkeeps.append.1).floor_le
      ((Climbs.run h hranged hearlier).set hset)
  refine ⟨hmono, fun earlier later op rest t heq hop => (hmono earlier later _ heq).trans ?_⟩
  exact hop.floor_le (h.run _) (hranged.run h _)

/-- Some fair task is ready or running. -/
def Busy (w : World ι κ) (s : κ) : Prop :=
  ∃ t, (w.tasks t).params.isRealtime = false ∧
    (t ∈ (w.schedulers s).readyQueue ∨ t ∈ w.running s)

/-- A fair task that has run for three ticks. -/
abbrev threeTicks : List (Op (Fin 3) Unit) :=
  [.enqueue () 0 .new, .pick (), .tick () 0, .tick () 0, .tick () 0]

theorem floor_climbs_spared : ((initial (Fin 3) Unit).run threeTicks).floor () = 3 ∧
    3 ≤ (((((initial (Fin 3) Unit).run threeTicks).run
      [.enqueue () 1 .new, .enqueue () 2 .new, .remove () 1]).apply
        (.enqueue () 1 .wakeup)).tasks 1).readyOrder := by
  have hfloor : ((initial (Fin 3) Unit).run threeTicks).floor () = 3 := rfl
  have hkeeps : KeepsAll ((initial (Fin 3) Unit).run threeTicks) ()
      ([] ++ [.enqueue () 1 .new, .enqueue () 2 .new, .remove () 1] ++ [.enqueue () 1 .wakeup]) :=
    ⟨trivial, trivial, fun _ _ _ => ⟨2, by decide +kernel, by decide, rfl⟩, trivial, trivial⟩
  have hset : (((initial (Fin 3) Unit).run threeTicks).schedulers ()).minVruntime ≠ none :=
    Option.some_ne_none 3
  have hplaced := (floor_climbs threeTicks _ () hset hkeeps).2 [] _ _ [] 1 rfl
    ⟨rfl, rfl, .inr rfl, rfl, rfl⟩
  refine ⟨hfloor, ?_⟩
  rwa [List.nil_append, run, List.foldl_nil, hfloor] at hplaced

/-- A fair task that is added and removed while another one runs takes the floor with it, and is
then placed far below the runtime of the other. -/
theorem floor_falls :
    (∀ first ∈ [.enqueue () 1 .new, .remove () 1, .enqueue () 1 .new].inits,
      Busy (((initial (Fin 3) Unit).run threeTicks).run first) ()) ∧
    ((initial (Fin 3) Unit).run threeTicks).floor () = 3 ∧
    (((initial (Fin 3) Unit).run threeTicks).run
      [.enqueue () 1 .new, .remove () 1]).floor () = 0 ∧
    ((((initial (Fin 3) Unit).run threeTicks).run
      [.enqueue () 1 .new, .remove () 1, .enqueue () 1 .new]).tasks 1).readyOrder = 0 := by
  refine ⟨fun first hfirst => ⟨0, ?_⟩, rfl, rfl, rfl⟩
  simp only [List.inits, List.map_cons, List.map_nil, List.mem_cons, List.not_mem_nil,
    or_false] at hfirst
  rcases hfirst with rfl | rfl | rfl | rfl <;> exact ⟨rfl, .inr List.mem_cons_self⟩

end KernelAx.Cfs
