import KernelAx.Exits.Queue
import KernelAx.Links

/-!
# Exited tasks — the queue holds a list

`Chained` says that the words of the queue and the links of the tasks hold a list. `push_back` of a
task that is not in the list appends it, unless the generations of the task are exhausted, and
`pop_front` takes the first one. Neither comes to one of its other faults.
-/

namespace KernelAx.Exits

/-- The links of the tasks. -/
abbrev links (tasks : TaskPtr → Task) : TaskPtr → Option TaskPtr := fun p => (tasks p).exitNext

/-- The links from the head of the queue are the list `l`. -/
structure Chained (queue : ExitedTaskQueue) (tasks : TaskPtr → Task) (l : List TaskPtr) : Prop where
  linked : Queued (links tasks) queue.head queue.tail l
  len : queue.len = l.length
  queued : ∀ p, (tasks p).exitQueued = true ↔ p ∈ l
  loose : ∀ p ∉ l, (tasks p).exitNext = none

/-- What the queue does not write. -/
structure Task.Same (task task' : Task) : Prop where
  cpuHandoff : task'.cpuHandoff = task.cpuHandoff
  wakeHandoff : task'.wakeHandoff = task.wakeHandoff
  kstack : task'.kstack = task.kstack

theorem Task.Same.refl (task : Task) : task.Same task := ⟨rfl, rfl, rfl⟩

variable {task : Task}

theorem Task.Same.trans {task' task'' : Task} (h : task.Same task') (h' : task'.Same task'') :
    task.Same task'' :=
  ⟨h'.cpuHandoff.trans h.cpuHandoff, h'.wakeHandoff.trans h.wakeHandoff, h'.kstack.trans h.kstack⟩

variable {queue : ExitedTaskQueue} {tasks tasks' : TaskPtr → Task} {l : List TaskPtr} {p : TaskPtr}

theorem same_set (h : (tasks p).Same task) (q : TaskPtr) : (tasks q).Same (set tasks p task q) := by
  by_cases hq : q = p
  · subst hq
    simpa using h
  · rw [set, Function.update_of_ne hq]
    exact .refl _

namespace Chained

theorem nil (h : ∀ p, (tasks p).exitQueued = false ∧ (tasks p).exitNext = none) :
    Chained .new tasks [] where
  linked := .nil
  len := rfl
  queued p := by simp [h p]
  loose p _ := (h p).2

section

variable (h : Chained queue tasks l)
include h

/-- A task that is not queued is replaced, by one that is not linked. -/
theorem set_of_notMem (hp : p ∉ l) {task : Task}
    (hqueued : task.exitQueued = false) (hnext : task.exitNext = none) :
    Chained queue (set tasks p task) l where
  linked := h.linked.congr fun q hq => by
    have hne : q ≠ p := fun heq => hp (heq ▸ hq)
    rw [links, set, Function.update_of_ne hne]
  len := h.len
  queued q := by
    by_cases hq : q = p
    · subst hq
      simp [hqueued, hp]
    · simpa [hq] using h.queued q
  loose q hql := by
    by_cases hq : q = p
    · subst hq
      simpa using hnext
    · simpa [hq] using h.loose q hql

/-- The words that the queue does not read are written. -/
theorem congr
    (heq : ∀ q, (tasks' q).exitNext = (tasks q).exitNext ∧
      (tasks' q).exitQueued = (tasks q).exitQueued) : Chained queue tasks' l where
  linked := h.linked.congr fun q _ => (heq q).1
  len := h.len
  queued q := (heq q).2 ▸ h.queued q
  loose q hq := (heq q).1.trans (h.loose q hq)

theorem head_isNone : queue.head.isNone = l.isEmpty := by
  rw [Bool.eq_iff_iff, Option.isNone_iff_eq_none, h.linked.head_eq_none, List.isEmpty_iff]

theorem tail_isNone : queue.tail.isNone = l.isEmpty := by
  rw [Bool.eq_iff_iff, Option.isNone_iff_eq_none, h.linked.tail_eq_none, List.isEmpty_iff]

theorem isEmpty : queue.isEmpty = l.isEmpty := by
  rw [ExitedTaskQueue.isEmpty, h.head_isNone, h.tail_isNone, Bool.and_self]

theorem reclaimLen : queue.reclaimLen = l.length := by
  rw [ExitedTaskQueue.reclaimLen, h.isEmpty, h.len]
  cases l <;> simp

/-- There are fewer queued tasks than addresses. -/
theorem length_lt (hp : p ∉ l) : l.length < u64Max := by
  have hcard := (List.nodup_cons.mpr ⟨hp, h.linked.nodup⟩).length_le_card
  rwa [Fintype.card_fin] at hcard

end

end Chained

/-! ### Pushing -/

/-- What `push_back` does with a task that is not queued. -/
inductive Pushes (queue : ExitedTaskQueue) (tasks : TaskPtr → Task) (l : List TaskPtr)
    (p : TaskPtr) :
    Except ExitedTaskEnqueueError Unit × ExitedTaskQueue × (TaskPtr → Task) → Prop
  | pushed {queue' : ExitedTaskQueue} {tasks' : TaskPtr → Task}
      (chained : Chained queue' tasks' (l ++ [p])) (same : ∀ q, (tasks q).Same (tasks' q)) :
      Pushes queue tasks l p (.ok (), queue', tasks')
  | exhausted {tasks' : TaskPtr → Task} (spent : ¬(tasks p).exitQueueGeneration < u64Max)
      (chained : Chained queue tasks' l) (same : ∀ q, (tasks q).Same (tasks' q)) :
      Pushes queue tasks l p (.error ⟨.generationExhausted, p⟩, queue, tasks')

theorem Task.same_recordExitQueueFault (task : Task) (fault : TaskExitQueueFault) :
    task.Same (task.recordExitQueueFault fault) := by
  unfold recordExitQueueFault
  split <;> exact ⟨rfl, rfl, rfl⟩

@[simp]
theorem Task.exitQueued_recordExitQueueFault (task : Task) (fault : TaskExitQueueFault) :
    (task.recordExitQueueFault fault).exitQueued = task.exitQueued := by
  unfold recordExitQueueFault
  split <;> rfl

@[simp]
theorem Task.exitNext_recordExitQueueFault (task : Task) (fault : TaskExitQueueFault) :
    (task.recordExitQueueFault fault).exitNext = task.exitNext := by
  unfold recordExitQueueFault
  split <;> rfl

/-- The link of a task that is neither queued nor linked is claimed. -/
def Task.admitted (task : Task) : Task :=
  { task with exitQueued := true, exitQueueGeneration := task.exitQueueGeneration + 1 }

@[simp]
theorem Task.exitQueued_admitted (task : Task) : task.admitted.exitQueued = true := rfl

@[simp]
theorem Task.exitNext_admitted (task : Task) : task.admitted.exitNext = task.exitNext := rfl

theorem Task.admitExitQueue_of_loose (hqueued : task.exitQueued = false)
    (hnext : task.exitNext = none) :
    task.admitExitQueue =
      if task.exitQueueGeneration < u64Max then (.ok (), task.admitted)
      else (.error .generationExhausted, task.recordExitQueueFault .generationExhausted) := by
  obtain ⟨next, queued, generation, fault, cpuHandoff, wakeHandoff, kstack⟩ := task
  dsimp only at hqueued hnext
  subst hqueued hnext
  rfl

theorem Task.linkExitQueueSuccessor_of_last (hqueued : task.exitQueued = true)
    (hnext : task.exitNext = none) (q : TaskPtr) :
    task.linkExitQueueSuccessor (some q) = (.ok (), { task with exitNext := some q }) := by
  simp [linkExitQueueSuccessor, hqueued, hnext]

namespace Chained

/-- The tail is linked to a task that was admitted. -/
theorem push (h : Chained queue tasks l) (tasks' : TaskPtr → Task) (hp : p ∉ l)
    (next_of : ∀ q ∈ l, (tasks' q).exitNext =
      if queue.tail = some q then some p else (tasks q).exitNext)
    (queued_of : ∀ q, (tasks' q).exitQueued = if q = p then true else (tasks q).exitQueued)
    (loose_of : ∀ q ∉ l, (tasks' q).exitNext = none) :
    Chained ⟨if queue.head = none then some p else queue.head, some p, queue.len + 1⟩ tasks'
      (l ++ [p]) where
  linked := h.linked.push hp next_of (loose_of p hp)
  len := by simp [h.len]
  queued q := by
    rw [queued_of, List.mem_append, List.mem_singleton, ← h.queued]
    split_ifs with hq <;> simp [hq]
  loose q hq := loose_of q fun hmem => hq (List.mem_append_left _ hmem)

theorem push_first (h : Chained queue tasks []) :
    Chained ⟨some p, some p, queue.len + 1⟩ (set tasks p (tasks p).admitted) [p] := by
  have hloose : ∀ q, (tasks q).exitNext = none := fun q => h.loose q List.not_mem_nil
  have hpush := h.push (set tasks p (tasks p).admitted) (p := p) List.not_mem_nil (by simp)
    (fun q => by by_cases hq : q = p <;> simp [hq])
    (fun q _ => by by_cases hq : q = p <;> simp [hq, hloose])
  rwa [if_pos (h.linked.head_eq_none.mpr rfl), List.nil_append] at hpush

theorem push_behind (h : Chained queue tasks l) (hp : p ∉ l) {t : TaskPtr}
    (htail : queue.tail = some t) :
    Chained { queue with tail := some p, len := queue.len + 1 }
      (set (set tasks p (tasks p).admitted) t { tasks t with exitNext := some p }) (l ++ [p]) := by
  have htl : t ∈ l := h.linked.mem_of_tail htail
  have hpt : p ≠ t := fun heq => hp (heq ▸ htl)
  have hhead : queue.head ≠ none := fun hnone => by
    simp [h.linked.head_eq_none.mp hnone] at htl
  have hpush := h.push (set (set tasks p (tasks p).admitted) t
    { tasks t with exitNext := some p }) hp ?_ ?_ ?_
  · rwa [if_neg hhead] at hpush
  · intro q hq
    have hqp : q ≠ p := fun heq => hp (heq ▸ hq)
    by_cases hqt : q = t
    · simp [hqt, htail]
    · simp [hqt, hqp, htail, Ne.symm hqt]
  · intro q
    by_cases hqt : q = t
    · simp [hqt, hpt.symm]
    · by_cases hqp : q = p <;> simp [hqt, hqp, hpt]
  · intro q hq
    have hqt : q ≠ t := fun heq => hq (heq ▸ htl)
    by_cases hqp : q = p
    · subst hqp
      simpa [hqt] using h.loose q hq
    · simpa [hqt, hqp] using h.loose q hq

end Chained

theorem pushes (h : Chained queue tasks l) (hp : p ∉ l) :
    Pushes queue tasks l p (queue.pushBack tasks p) := by
  have hqueued : (tasks p).exitQueued = false := by simpa [hp] using h.queued p
  have hnext : (tasks p).exitNext = none := h.loose p hp
  have hlen : queue.len ≠ u64Max := h.len ▸ (h.length_lt hp).ne
  have hzero : (queue.len == 0) = l.isEmpty := by
    rw [h.len, Bool.eq_iff_iff, beq_iff_eq, List.length_eq_zero_iff, List.isEmpty_iff]
  unfold ExitedTaskQueue.pushBack
  simp only [h.head_isNone, h.tail_isNone, hzero, bne_self_eq_false, Bool.or_self,
    Bool.false_eq_true, if_false, hlen, Task.admitExitQueue_of_loose hqueued hnext]
  by_cases hspare : (tasks p).exitQueueGeneration < u64Max
  · simp only [hspare, if_true]
    have hsame : (tasks p).Same (tasks p).admitted := ⟨rfl, rfl, rfl⟩
    rcases htail : queue.tail with _ | t
    · obtain rfl := h.linked.tail_eq_none.mp htail
      rw [h.linked.head_eq_none.mpr rfl]
      exact .pushed h.push_first (same_set hsame)
    · have htl : t ∈ l := h.linked.mem_of_tail htail
      have htp : t ≠ p := fun heq => hp (heq ▸ htl)
      obtain ⟨head, hhead⟩ : ∃ head, queue.head = some head := by
        rw [h.linked.head_eq]
        exact ⟨_, List.head?_eq_some_head (List.ne_nil_of_mem htl)⟩
      rw [hhead]
      simp only [Function.update_of_ne htp,
        Task.linkExitQueueSuccessor_of_last ((h.queued t).mpr htl) (h.linked.next_tail htail)]
      have hpush := h.push_behind hp htail
      rw [hhead] at hpush
      refine .pushed hpush fun q => (same_set hsame q).trans (same_set ?_ q)
      rw [set, Function.update_of_ne htp]
      exact ⟨rfl, rfl, rfl⟩
  · simp only [hspare, if_false]
    refine .exhausted hspare (h.set_of_notMem hp (by simpa using hqueued) (by simpa using hnext)) ?_
    exact same_set (Task.same_recordExitQueueFault _ _)

/-! ### Popping -/

/-- What `pop_front` leaves of the task. -/
def Task.dequeued (task : Task) : Task := { task with exitNext := none, exitQueued := false }

@[simp]
theorem Task.exitQueued_dequeued (task : Task) : task.dequeued.exitQueued = false := rfl

@[simp]
theorem Task.exitNext_dequeued (task : Task) : task.dequeued.exitNext = none := rfl

/-- What `pop_front` does. -/
inductive Pops (queue : ExitedTaskQueue) (tasks : TaskPtr → Task) :
    List TaskPtr → Option ExitedTaskDequeue × ExitedTaskQueue × (TaskPtr → Task) → Prop
  | empty : Pops queue tasks [] (none, queue, tasks)
  | popped {p l queue' tasks'} (chained : Chained queue' tasks' l)
      (same : ∀ q, (tasks q).Same (tasks' q)) :
      Pops queue tasks (p :: l) (some ⟨p, none⟩, queue', tasks')

namespace Chained

/-- The head is unlinked. -/
theorem pop (h : Chained queue tasks (p :: l)) :
    Chained ⟨(tasks p).exitNext, if (tasks p).exitNext = none then none else queue.tail,
      queue.len - 1⟩ (set tasks p (tasks p).dequeued) l := by
  have hpl : p ∉ l := (List.nodup_cons.mp h.linked.nodup).1
  have hne : ∀ q ∈ l, q ≠ p := fun q hq heq => hpl (heq ▸ hq)
  refine ⟨h.linked.pop fun q hq => ?_, by simp [h.len], fun q => ?_, fun q hq => ?_⟩
  · rw [links, set, Function.update_of_ne (hne q hq)]
  · by_cases hqp : q = p
    · simp [hqp, hpl]
    · simpa [hqp] using h.queued q
  · by_cases hqp : q = p
    · simp [hqp]
    · simpa [hqp] using h.loose q (by simp [hqp, hq])

theorem detach (h : Chained queue tasks (p :: l)) :
    ∃ queue', queue.detach tasks p none = (⟨p, none⟩, queue', set tasks p (tasks p).dequeued) ∧
      Chained queue' (set tasks p (tasks p).dequeued) l := by
  have hqueued : (tasks p).exitQueued = true := (h.queued p).mpr List.mem_cons_self
  have hnext : (tasks p).exitNext = l.head? := h.linked.chain.1
  refine ⟨_, ?_, h.pop⟩
  unfold ExitedTaskQueue.detach Task.takeExitQueueSuccessor
  cases l with
  | nil =>
    have htail : queue.tail = some p := h.linked.tail_eq
    simp [hnext, htail, h.len, Task.finishExitDequeue, hqueued, Task.dequeued]
  | cons q l =>
    have htail : queue.tail ≠ some p := by
      rw [h.linked.tail_eq, List.getLast?_cons_cons]
      exact fun hlast => (List.nodup_cons.mp h.linked.nodup).1 (List.mem_of_getLast? hlast)
    simp [hnext, htail, h.len, Task.finishExitDequeue, hqueued, Task.dequeued]

end Chained

theorem pops (h : Chained queue tasks l) : Pops queue tasks l (queue.popFront tasks) := by
  unfold ExitedTaskQueue.popFront
  cases l with
  | nil =>
    obtain ⟨head, tail, len⟩ := queue
    obtain rfl : head = none := h.linked.head_eq
    obtain rfl : tail = none := h.linked.tail_eq
    obtain rfl : len = 0 := h.len
    exact .empty
  | cons p l =>
    have hhead : queue.head = some p := h.linked.head_eq
    obtain ⟨queue', hdetach, hchained⟩ := h.detach
    rw [hhead]
    simp only [hdetach]
    exact .popped hchained (same_set ⟨rfl, rfl, rfl⟩)

end KernelAx.Exits
