import KernelAx.Cfs.Owners

/-!
# CFS — places

The sequence numbers are the places in the lines (`Numbered`). A task that is linked, and one that
is reserved, stands in the line of its class with its number (`Placed`); so the keys of a ready
queue are distinct, and among the tasks of one order the queue has the order of the line.
-/

namespace KernelAx.Cfs

open World
open Function (update update_self update_of_ne)

variable {ι κ : Type} {w w' : World ι κ} {s : κ} {t : ι}

/-! ### Numbers -/

/-- The numbers of those who stand in the lines. -/
structure Numbered (schedulers : κ → CfsScheduler ι) (lines : Lines ι κ) (place : κ → ι → Int) :
    Prop where
  realtime (s : κ) :
    Line (schedulers s).rtFrontSeq (schedulers s).rtBackSeq (place s) (lines true s)
  fair (s : κ) : Line 0 (schedulers s).fairSequence (place s) (lines false s)

namespace Numbered

variable {schedulers : κ → CfsScheduler ι} {lines : Lines ι κ} {place : κ → ι → Int}

theorem ascending (h : Numbered schedulers lines place) (b : Bool) (s : κ) :
    Ascending (place s) (lines b s) := by
  cases b with
  | true => exact (h.realtime s).ascending
  | false => exact (h.fair s).ascending

theorem alike {schedulers' : κ → CfsScheduler ι} (h : Numbered schedulers lines place)
    (hs : ∀ s, (schedulers' s).fairSequence = (schedulers s).fairSequence ∧
      (schedulers' s).rtFrontSeq = (schedulers s).rtFrontSeq ∧
      (schedulers' s).rtBackSeq = (schedulers s).rtBackSeq) :
    Numbered schedulers' lines place := by
  refine ⟨fun s => ?_, fun s => ?_⟩
  · rw [(hs s).2.1, (hs s).2.2]
    exact h.realtime s
  · rw [(hs s).1]
    exact h.fair s

/-- A number that is drawn is new. -/
theorem fresh {first realtime : Bool} {x : Int} {scheduler : CfsScheduler ι}
    (h : Numbered schedulers lines place)
    (hdraws : Draws (schedulers s) realtime first x scheduler) (ht : t ∈ lines realtime s) :
    place s t ≠ x := by
  cases hdraws with
  | front | back =>
    have := (h.realtime s).given ht
    omega
  | fair =>
    have := (h.fair s).given ht
    omega

variable [DecidableEq ι] [DecidableEq κ]

omit [DecidableEq κ] in
theorem leave (h : Numbered schedulers lines place) (t : ι) :
    Numbered schedulers (lines.leave t) place :=
  ⟨fun s => (h.realtime s).sublist List.erase_sublist,
    fun s => (h.fair s).sublist List.erase_sublist⟩

end Numbered

namespace Lines

variable [DecidableEq ι] [DecidableEq κ] {lines : Lines ι κ}

omit [DecidableEq ι] in
theorem mem_take {realtime first b : Bool} {s' : κ} {u : ι} :
    u ∈ lines.take realtime s t first b s' ↔ (b = realtime ∧ s' = s) ∧ u = t ∨ u ∈ lines b s' := by
  unfold take
  by_cases hb : b = realtime ∧ s' = s
  · rw [if_pos hb]
    cases first <;> simp [hb, or_comm]
  · rw [if_neg hb]
    simp only [hb, false_and, false_or]

omit [DecidableEq ι] in
theorem mem_take_of_ne {realtime first b : Bool} {s' : κ} {u : ι} (hu : u ≠ t) :
    u ∈ lines.take realtime s t first b s' ↔ u ∈ lines b s' := by
  rw [mem_take]
  simp only [hu, and_false, false_or]

omit [DecidableEq κ] in
theorem mem_leave {b : Bool} {u : ι} (h : (lines b s).Nodup) :
    u ∈ lines.leave t b s ↔ u ≠ t ∧ u ∈ lines b s :=
  h.mem_erase_iff

end Lines

/-- The place of a task at one scheduler. -/
def give [DecidableEq ι] [DecidableEq κ] (place : κ → ι → Int) (s : κ) (t : ι) (x : Int) :
    κ → ι → Int :=
  update place s (update (place s) t x)

section Give

variable [DecidableEq ι] [DecidableEq κ] {place : κ → ι → Int} {x : Int}

theorem give_self : give place s t x s t = x := by
  unfold give
  rw [update_self, update_self]

theorem give_of_ne {s' : κ} {u : ι} (hu : u ≠ t) : give place s t x s' u = place s' u := by
  unfold give
  rcases eq_or_ne s' s with rfl | hs
  · rw [update_self, update_of_ne hu]
  · rw [update_of_ne hs]

/-- A task is given the next number at one end of its line and stands there. -/
theorem Numbered.take {schedulers : κ → CfsScheduler ι} {lines : Lines ι κ}
    {first realtime : Bool} {scheduler : CfsScheduler ι}
    (h : Numbered schedulers lines place) (habsent : ∀ b s, t ∉ lines b s)
    (hdraws : Draws (schedulers s) realtime first x scheduler) :
    Numbered (update schedulers s scheduler) (lines.take realtime s t first)
      (give place s t x) := by
  have hgive (b : Bool) (s' : κ) (u : ι) (hu : u ∈ lines b s') :
      place s' u = give place s t x s' u :=
    (give_of_ne fun heq : u = t => habsent b s' (heq ▸ hu)).symm
  have hrt (s' : κ) := (h.realtime s').congr (hgive true s')
  have hfair (s' : κ) := (h.fair s').congr (hgive false s')
  have hx : give place s t x s t = x := give_self
  have hother (b : Bool) (s' : κ) (hne : ¬ (b = realtime ∧ s' = s)) :
      lines.take realtime s t first b s' = lines b s' := if_neg hne
  have hnew : lines.take realtime s t first realtime s =
      if first then t :: lines realtime s else lines realtime s ++ [t] := if_pos ⟨rfl, rfl⟩
  refine ⟨fun s' => ?_, fun s' => ?_⟩ <;> rcases eq_or_ne s' s with rfl | hs
  · rw [update_self]
    cases hdraws with
    | front => exact hnew ▸ (hrt s').front hx
    | back => exact hnew ▸ (hrt s').back hx
    | fair => exact hother true s' (fun hne => Bool.false_ne_true hne.1.symm) ▸ hrt s'
  · rw [update_of_ne hs, hother _ _ fun hne => hs hne.2]
    exact hrt s'
  · rw [update_self]
    cases hdraws with
    | front | back => exact hother false s' (fun hne => Bool.false_ne_true hne.1) ▸ hfair s'
    | fair => exact hnew ▸ (hfair s').back hx
  · rw [update_of_ne hs, hother _ _ fun hne => hs hne.2]
    exact hfair s'

/-- Linking a task leaves the numbers alone. -/
theorem Numbered.enter {lines : Lines ι κ} {task : CfsTask} {scheduler : CfsScheduler ι}
    (h : Numbered (update w.schedulers s scheduler) lines place) :
    Numbered (w.enter s t task scheduler).schedulers lines place := by
  refine h.alike fun s' => ?_
  rw [schedulers_enter]
  rcases eq_or_ne s' s with rfl | hs
  · rw [update_self, update_self]
    exact ⟨rfl, rfl, rfl⟩
  · rw [update_of_ne hs, update_of_ne hs]
    exact ⟨rfl, rfl, rfl⟩

end Give

/-! ### Places -/

/-- Queued and reserved tasks have a place in a line, and the queue is in the order of places. -/
structure Placed (w : World ι κ) (lines : Lines ι κ) (place : κ → ι → Int) : Prop where
  ascending (s : κ) : Ascending (fun t => (w.tasks t).readyKey) (w.schedulers s).readyQueue
  staged {s : κ} {t : ι} : t ∈ (w.schedulers s).readyQueue → (w.tasks t).Staged
  numbered : Numbered w.schedulers lines place
  stands {s : κ} {t : ι} : t ∈ (w.schedulers s).readyQueue →
    t ∈ lines (w.tasks t).params.isRealtime s ∧ place s t = (w.tasks t).sequence
  awaits {s : κ} {r : CfsTaskReservation ι} : r ∈ w.reservations →
    r.schedulerId = (w.schedulers s).id →
    r.task ∈ lines r.params.isRealtime s ∧ place s r.task = r.sequence
  only {b : Bool} {s : κ} {t : ι} : t ∈ lines b s → b = (w.tasks t).params.isRealtime ∧
    (t ∈ (w.schedulers s).readyQueue ∨
      ∃ r ∈ w.reservations, r.task = t ∧ r.schedulerId = (w.schedulers s).id)

variable {task task' : CfsTask}

theorem CfsTask.readyKey_ne (h : task.Staged) (h' : task'.Staged)
    (hne : task.params.isRealtime = task'.params.isRealtime → task.sequence ≠ task'.sequence) :
    task.readyKey ≠ task'.readyKey := by
  intro heq
  obtain ⟨hclass, hrest⟩ := Prod.ext_iff.mp (toLex.injective heq)
  refine hne ?_ (Prod.ext_iff.mp (toLex.injective hrest)).2
  rw [← h.readyIsRt, ← h'.readyIsRt]
  exact congrArg (fun c => decide (c = 0)) hclass

/-- The key that a queued task has is not written. -/
theorem CfsTask.Kept.readyKey (h : task.Kept task') : task.readyKey = task'.readyKey := by
  obtain ⟨-, hclass, horder, hseq, -⟩ := h
  rw [CfsTask.readyKey, CfsTask.readyKey, hclass, horder, hseq]

theorem CfsTask.Kept.staged (h : task.Kept task') (hs : task.Staged) : task'.Staged := by
  obtain ⟨hparams, hclass, horder, -, hinit⟩ := h
  unfold Staged
  rwa [hparams, hclass, horder, hinit]

namespace Placed

variable {lines : Lines ι κ} {place : κ → ι → Int}

/-- Before the first operation the lines are empty. -/
theorem initial : Placed (initial ι κ) (Lines.empty ι κ) fun _ _ => 0 where
  ascending _ := List.Pairwise.nil
  staged h := absurd h List.not_mem_nil
  numbered := ⟨fun _ => .nil le_rfl, fun _ => .nil le_rfl⟩
  stands h := absurd h List.not_mem_nil
  awaits h := absurd h List.not_mem_nil
  only h := absurd h List.not_mem_nil

/-- A task of no one has no place. -/
theorem absent (h : Placed w lines place) (howned : Owned w)
    (ht : (w.tasks t).queueOwner = unowned) (b : Bool) (s : κ) : t ∉ lines b s := by
  obtain ⟨hunlinked, hunreserved⟩ := howned.absent ht
  intro hmem
  obtain ⟨-, hlinked | ⟨r, hr, hrt, -⟩⟩ := h.only hmem
  · exact hunlinked s hlinked
  · exact hunreserved r hr hrt

/-- What the schedulers see of their tasks stays. -/
theorem alike (h : Placed w lines place) (howned : Owned w)
    (hkept : ∀ {t}, (w.tasks t).queueOwner ≠ unowned → (w.tasks t).Kept (w'.tasks t))
    (hready : ∀ s, (w'.schedulers s).readyQueue = (w.schedulers s).readyQueue)
    (hnumbered : Numbered w'.schedulers lines place)
    (hreservations : w'.reservations = w.reservations)
    (hid : ∀ r ∈ w.reservations, ∀ s,
      r.schedulerId = (w'.schedulers s).id ↔ r.schedulerId = (w.schedulers s).id) :
    Placed w' lines place := by
  have hlinked {s : κ} {t : ι} (ht : t ∈ (w.schedulers s).readyQueue) :
      (w.tasks t).Kept (w'.tasks t) := by
    obtain ⟨howner, hid⟩ := howned.linked.mp ht
    exact hkept (howner ▸ hid)
  refine ⟨fun s => ?_, fun {s t} ht => ?_, hnumbered, fun {s t} ht => ?_, fun {s r} hr hrid => ?_,
    fun {b s t} ht => ?_⟩
  · rw [hready]
    exact (h.ascending s).congr fun u hu => (hlinked hu).readyKey
  · rw [hready] at ht
    exact (hlinked ht).staged (h.staged ht)
  · rw [hready] at ht
    obtain ⟨hparams, -, -, hseq, -⟩ := hlinked ht
    rw [hparams, hseq]
    exact h.stands ht
  · rw [hreservations] at hr
    exact h.awaits hr ((hid r hr s).mp hrid)
  · obtain ⟨hb, hwhere⟩ := h.only ht
    rw [hready, hreservations]
    refine ⟨?_, hwhere.imp_right fun ⟨r, hr, hrt, hrid⟩ => ⟨r, hr, hrt, (hid r hr s).mpr hrid⟩⟩
    rcases hwhere with hmem | ⟨r, hr, hrt, -⟩
    · rw [(hlinked hmem).1]
      exact hb
    · have howner := howned.reserved.mpr ⟨r, hr, hrt⟩
      rw [(hkept (by rw [howner]; decide)).1]
      exact hb

/-- An operation that moves no task. -/
theorem agrees (h : Placed w lines place) (howned : Owned w) (hagrees : Agrees w w') :
    Placed w' lines place :=
  h.alike howned hagrees.kept hagrees.readyQueue
    (h.numbered.alike fun s => (hagrees.schedulers s).2.2) hagrees.reservations
    fun _ _ s => by rw [hagrees.id]

/-- Only one task changes hands. -/
theorem reassign {lines' : Lines ι κ} {place' : κ → ι → Int} (h : Placed w lines place)
    (hw : Reassigns w w' t) (hlines : ∀ {b s u}, u ≠ t → (u ∈ lines' b s ↔ u ∈ lines b s))
    (hplace : ∀ {s u}, u ≠ t → place' s u = place s u)
    (hasc : ∀ s, Ascending (fun t => (w'.tasks t).readyKey) (w'.schedulers s).readyQueue)
    (hnumbered : Numbered w'.schedulers lines' place')
    (hstands : ∀ s, t ∈ (w'.schedulers s).readyQueue → (w'.tasks t).Staged ∧
      t ∈ lines' (w'.tasks t).params.isRealtime s ∧ place' s t = (w'.tasks t).sequence)
    (hawaits : ∀ s r, r ∈ w'.reservations → r.task = t → r.schedulerId = (w.schedulers s).id →
      t ∈ lines' r.params.isRealtime s ∧ place' s t = r.sequence)
    (honly : ∀ b s, t ∈ lines' b s → b = (w'.tasks t).params.isRealtime ∧
      (t ∈ (w'.schedulers s).readyQueue ∨
        ∃ r ∈ w'.reservations, r.task = t ∧ r.schedulerId = (w.schedulers s).id)) :
    Placed w' lines' place' := by
  refine ⟨hasc, fun {s u} hu => ?_, hnumbered, fun {s u} hu => ?_, fun {s r} hr hrid => ?_,
    fun {b s u} hu => ?_⟩
  · by_cases hut : u = t
    · exact hut ▸ (hstands s (hut ▸ hu)).1
    · rw [hw.tasks hut]
      exact h.staged ((hw.ready hut).mp hu)
  · by_cases hut : u = t
    · exact hut ▸ (hstands s (hut ▸ hu)).2
    · rw [hlines hut, hplace hut, hw.tasks hut]
      exact h.stands ((hw.ready hut).mp hu)
  · rw [hw.id] at hrid
    by_cases hrt : r.task = t
    · rw [hrt]
      exact hawaits s r hr hrt hrid
    · rw [hlines hrt, hplace hrt]
      exact h.awaits ((hw.reservations hrt).mp hr) hrid
  · rw [hw.id]
    by_cases hut : u = t
    · subst hut
      exact honly b s hu
    · rw [hw.tasks hut, hw.ready hut]
      obtain ⟨hb, hwhere⟩ := h.only ((hlines hut).mp hu)
      exact ⟨hb, hwhere.imp_right fun ⟨r, hr, hru, hrid⟩ =>
        ⟨r, (hw.reservations (hru ▸ hut)).mpr hr, hru, hrid⟩⟩

variable [DecidableEq ι] [DecidableEq κ]

omit [DecidableEq ι] in
theorem ensureId (h : Placed w lines place) (howned : Owned w) (s : κ) :
    Placed (w.ensureId s).2 lines place := by
  have hschedulers (u : κ) := schedulers_ensureId (w := w) (s := s) u
  have hkept (t : ι) : (w.tasks t).Kept ((w.ensureId s).2.tasks t) := by
    rw [tasks_ensureId]
    exact .refl
  refine h.alike howned (fun _ => hkept _) (fun u => ?_)
    (h.numbered.alike fun u => ?_) reservations_ensureId fun r hr u => ?_
  · obtain ⟨id, heq, -⟩ := hschedulers u
    rw [heq]
  · obtain ⟨id, heq, -⟩ := hschedulers u
    rw [heq]
    exact ⟨rfl, rfl, rfl⟩
  · obtain ⟨id, heq, rfl | ⟨hnew, rfl⟩⟩ := hschedulers u
    · rw [heq]
    · -- the identifier is new
      rw [heq, hnew]
      exact iff_of_false (howned.granted hr).2.1.ne (howned.granted hr).1

variable {task : CfsTask} {scheduler : CfsScheduler ι}

section

variable (h : Placed w lines place)
include h

/-- A task that is linked by its key keeps the queue in order. -/
theorem ascending_enter
    (hunlinked : ∀ s, t ∉ (w.schedulers s).readyQueue)
    (hready : scheduler.readyQueue = (w.schedulers s).readyQueue)
    (hkey : ∀ u ∈ (w.schedulers s).readyQueue, (w.tasks u).readyKey ≠ task.readyKey) (s' : κ) :
    Ascending (fun u => ((w.enter s t task scheduler).tasks u).readyKey)
      ((w.enter s t task scheduler).schedulers s').readyQueue := by
  have hothers (s' : κ) (u : ι) (hu : u ∈ (w.schedulers s').readyQueue) :
      (w.tasks u).readyKey = (update w.tasks t task u).readyKey := by
    rw [update_of_ne fun heq : u = t => hunlinked s' (heq ▸ hu)]
  have hold (s' : κ) := (h.ascending s').congr (hothers s')
  rw [schedulers_enter]
  rcases eq_or_ne s' s with rfl | hs
  · rw [update_self, hready]
    refine (hold s').insertBy fun u hu => ?_
    rw [← hothers s' u hu, update_self]
    exact hkey u hu
  · rw [update_of_ne hs]
    exact hold s'

/-- A task of no one is linked with a number that was drawn. -/
theorem enter {first : Bool} (howned : Owned w)
    (hfree : (w.tasks t).queueOwner = unowned) (hjoins : Joins w s first task scheduler) :
    Placed (w.enter s t task scheduler) (lines.take task.params.isRealtime s t first)
      (give place s t task.sequence) := by
  obtain ⟨hstaged, howner, hdraws⟩ := hjoins
  obtain ⟨hunlinked, hunreserved⟩ := howned.absent hfree
  have habsent := h.absent howned hfree
  have hkey : ∀ u ∈ (w.schedulers s).readyQueue, (w.tasks u).readyKey ≠ task.readyKey := by
    intro u hu
    obtain ⟨hline, hplace⟩ := h.stands hu
    refine CfsTask.readyKey_ne (h.staged hu) hstaged fun hrt => ?_
    rw [← hplace]
    exact h.numbered.fresh hdraws (hrt ▸ hline)
  have htask : (w.enter s t task scheduler).tasks t = task := update_self ..
  refine h.reassign (.enter hdraws.id hdraws.readyQueue) Lines.mem_take_of_ne give_of_ne
    (h.ascending_enter hunlinked hdraws.readyQueue hkey) (h.numbered.take habsent hdraws).enter
    (fun s' ht => ?_) (fun s' r hr hrt => absurd hrt (hunreserved r hr)) fun b s' ht => ?_
  · obtain ⟨rfl, -⟩ := ((w.mem_enter s t task scheduler hdraws.readyQueue).mp ht).resolve_right
      (hunlinked s')
    rw [htask, Lines.mem_take]
    exact ⟨hstaged, .inl ⟨⟨rfl, rfl⟩, rfl⟩, give_self⟩
  · obtain ⟨⟨rfl, hs⟩, -⟩ := (Lines.mem_take.mp ht).resolve_right (habsent b s')
    rw [htask, w.mem_enter s t task scheduler hdraws.readyQueue]
    exact ⟨rfl, .inl (.inl ⟨hs, rfl⟩)⟩

/-- A task of no one is reserved with a number that was drawn. -/
theorem reserve {r : CfsTaskReservation ι} (howned : Owned w)
    (hfree : (w.tasks r.task).queueOwner = unowned) (hr : r.schedulerId = (w.schedulers s).id)
    (hid : (w.schedulers s).id ≠ unowned) (hparams : r.params = task.params)
    (hdraws : Draws (w.schedulers s) r.params.isRealtime false r.sequence scheduler) :
    Placed { (w.setTask r.task task).setScheduler s scheduler with
      reservations := r :: w.reservations } (lines.take r.params.isRealtime s r.task false)
      (give place s r.task r.sequence) := by
  obtain ⟨hunlinked, hunreserved⟩ := howned.absent hfree
  have habsent := h.absent howned hfree
  have hready := w.update_frame (·.readyQueue) hdraws.readyQueue
  have htask : update w.tasks r.task task r.task = task := update_self ..
  refine h.reassign (.reserve hdraws.id hdraws.readyQueue) Lines.mem_take_of_ne give_of_ne
    (fun s' => ?_) (h.numbered.take habsent hdraws) (fun s' ht => ?_)
    (fun s' r' hr' hrt hrid => ?_) fun b s' ht => ?_
  · change Ascending (fun u => (update w.tasks r.task task u).readyKey)
      (update w.schedulers s scheduler s').readyQueue
    rw [hready]
    refine (h.ascending s').congr fun u hu => ?_
    rw [update_of_ne fun heq : u = r.task => hunlinked s' (heq ▸ hu)]
  · exact absurd (hready s' ▸ ht) (hunlinked s')
  · rcases List.mem_cons.mp hr' with rfl | hr'
    · obtain rfl : s = s' := howned.distinct (hr.symm.trans hrid) hid
      exact ⟨Lines.mem_take.mpr (.inl ⟨⟨rfl, rfl⟩, rfl⟩), give_self⟩
    · exact absurd hrt (hunreserved r' hr')
  · obtain ⟨⟨rfl, rfl⟩, -⟩ := (Lines.mem_take.mp ht).resolve_right (habsent b s')
    refine ⟨?_, .inr ⟨r, List.mem_cons_self, rfl, hr⟩⟩
    change _ = (update w.tasks r.task task r.task).params.isRealtime
    rw [htask, hparams]

/-- A task that was reserved is linked with the number of the reservation. -/
theorem commit {r : CfsTaskReservation ι} (howned : Owned w)
    (hr : r ∈ w.reservations) (hrid : r.schedulerId = (w.schedulers s).id) (hstaged : task.Staged)
    (hparams : task.params = r.params) (hsequence : task.sequence = r.sequence) :
    Placed (World.enter { w with reservations := w.reservations.erase r } s r.task task
      (w.schedulers s)) lines place := by
  obtain ⟨-, hothers⟩ := howned.only hr
  have hbusy := howned.reserved.mpr ⟨r, hr, rfl⟩
  have hunlinked (s' : κ) : r.task ∉ (w.schedulers s').readyQueue := fun hu => by
    have := (howned.linked.mp hu).1
    have := howned.id_lt s'
    omega
  obtain ⟨hline, hplace⟩ := h.awaits hr hrid
  have hkey : ∀ u ∈ (w.schedulers s).readyQueue, (w.tasks u).readyKey ≠ task.readyKey := by
    intro u hu
    obtain ⟨huline, huplace⟩ := h.stands hu
    refine CfsTask.readyKey_ne (h.staged hu) hstaged fun hrt hseq => hunlinked s ?_
    rw [hrt, hparams] at huline
    have heq := (h.numbered.ascending _ s).injOn huline hline
      (by rw [huplace, hplace, hseq, hsequence])
    exact heq ▸ hu
  have htask : (World.enter { w with reservations := w.reservations.erase r } s r.task task
    (w.schedulers s)).tasks r.task = task := update_self ..
  have hready (s' : κ) : r.task ∈ ((World.enter { w with reservations := w.reservations.erase r } s
      r.task task (w.schedulers s)).schedulers s').readyQueue ↔ _ :=
    World.mem_enter _ s r.task task _ rfl
  refine h.reassign .commit (fun _ => .rfl) (fun _ => rfl) (h.ascending_enter hunlinked rfl hkey)
    (Numbered.enter (w := { w with reservations := w.reservations.erase r }) ?_)
    (fun s' ht => ?_) (fun s' r' hr' hrt => absurd hrt (hothers r' hr')) fun b s' ht => ?_
  · rw [Function.update_eq_self]
    exact h.numbered
  · obtain ⟨rfl, -⟩ := ((hready s').mp ht).resolve_right (hunlinked s')
    rw [htask, hparams, hsequence]
    exact ⟨hstaged, hline, hplace⟩
  · obtain ⟨hb, hwhere⟩ := h.only ht
    rw [htask, hparams, hready]
    refine ⟨hb.trans (by rw [(howned.granted hr).2.2]), .inl (.inl ⟨?_, rfl⟩)⟩
    obtain ⟨r', hr', hrt, hrid'⟩ := hwhere.resolve_left (hunlinked s')
    obtain rfl : r' = r := by
      by_contra hne
      exact hothers r' ((List.mem_erase_of_ne hne).mpr hr') hrt
    exact howned.distinct (hrid'.symm.trans hrid) (hrid' ▸ (howned.granted hr).1)

/-- A task is unlinked. -/
theorem leave (howned : Owned w)
    (hlinked : t ∈ (w.schedulers s).readyQueue) :
    Placed (w.leave s t task) (lines.leave t) place := by
  obtain ⟨hunlinked, hunreserved⟩ := howned.elsewhere hlinked
  have hnodup := (h.ascending s).nodup
  have hgone (s' : κ) : t ∉ ((w.leave s t task).schedulers s').readyQueue := by
    rw [w.mem_leave s t task hnodup]
    exact fun ⟨hne, hmem⟩ => hne ⟨hunlinked s' hmem, rfl⟩
  have hline {b : Bool} {s' : κ} {u : ι} : u ∈ lines.leave t b s' ↔ u ≠ t ∧ u ∈ lines b s' :=
    Lines.mem_leave (h.numbered.ascending b s').nodup
  refine h.reassign (.leave hnodup) (fun hu => hline.trans (and_iff_right hu)) (fun _ => rfl)
    (fun s' => ?_) ((h.numbered.leave t).alike fun s' => ?_)
    (fun s' ht => absurd ht (hgone s')) (fun s' r hr hrt => absurd hrt (hunreserved r hr))
    fun b s' ht => absurd rfl (hline.mp ht).1
  · have hsub : (((w.leave s t task).schedulers s').readyQueue).Sublist
        (w.schedulers s').readyQueue := by
      rw [schedulers_leave]
      rcases eq_or_ne s' s with rfl | hs
      · rw [update_self]
        exact List.erase_sublist
      · rw [update_of_ne hs]
    refine ((h.ascending s').sublist hsub).congr fun u hu => ?_
    exact congrArg CfsTask.readyKey
      (update_of_ne (fun heq : u = t => hgone s' (heq ▸ hu)) ..).symm
  · rw [schedulers_leave]
    rcases eq_or_ne s' s with rfl | hs
    · rw [update_self]
      exact ⟨rfl, rfl, rfl⟩
    · rw [update_of_ne hs]
      exact ⟨rfl, rfl, rfl⟩

end

omit [DecidableEq κ] in
/-- A reservation is given up. -/
theorem cancel {r : CfsTaskReservation ι} {task : CfsTask} (h : Placed w lines place)
    (howned : Owned w) (hr : r ∈ w.reservations) :
    Placed (setTask { w with reservations := w.reservations.erase r } r.task task)
      (lines.leave r.task) place := by
  obtain ⟨-, honly⟩ := howned.only hr
  have hne {s' : κ} {u : ι} (hu : u ∈ (w.schedulers s').readyQueue) : u ≠ r.task :=
    fun heq => (howned.elsewhere hu).2 r hr heq.symm
  have hline {b : Bool} {s' : κ} {u : ι} : u ∈ lines.leave r.task b s' ↔
      u ≠ r.task ∧ u ∈ lines b s' :=
    Lines.mem_leave (h.numbered.ascending b s').nodup
  refine h.reassign .cancel (fun hu => hline.trans (and_iff_right hu)) (fun _ => rfl)
    (fun s' => (h.ascending s').congr fun u hu => ?_) (h.numbered.leave r.task)
    (fun s' ht => absurd rfl (hne ht)) (fun s' r' hr' hrt => absurd hrt (honly r' hr'))
    fun b s' ht => absurd rfl (hline.mp ht).1
  exact congrArg CfsTask.readyKey (update_of_ne (hne hu) ..).symm

end Placed

end KernelAx.Cfs
