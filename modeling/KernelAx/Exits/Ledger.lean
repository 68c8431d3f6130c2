import KernelAx.Exits.References

/-!
# Exited tasks — the ledger

While no generation is exhausted, what was pushed is what was popped and what is queued, and the
tasks that exited are those that were destroyed and those that the queue and the recycler hold.
-/

namespace KernelAx.Exits

open Interleaving

variable {ι : Type} {m m' : Memory} {h l l' : List TaskPtr} {k k' : Call} {g : Gc} {p : TaskPtr}

/-- The history of a memory, for the references `h` in the hand of the recycler and the list `l` in
the queue. -/
structure Ledger (m : Memory) (h l : List TaskPtr) : Prop where
  faultless : m.history.faults = []
  fifo : m.history.pushed = m.history.popped ++ l.map m.history.serial
  numbered : ∀ p, 0 < m.strong p → m.history.serial p < m.history.spawned
  distinct : ∀ p q, 0 < m.strong p → 0 < m.strong q →
    m.history.serial p = m.history.serial q → p = q
  members : ∀ p, m.history.exited p = true → 0 < m.strong p → p ∈ h ++ l
  known : ∀ s ∈ m.history.exits, s < m.history.spawned
  once : m.history.exits.Nodup
  conserved : m.history.exits.Perm
    (m.history.destroyed.map (·.serial) ++ (h ++ l).map m.history.serial)
  gone : ∀ d ∈ m.history.destroyed, ∀ p, 0 < m.strong p → m.history.serial p ≠ d.serial
  released : ∀ d ∈ m.history.destroyed,
    d.others = 0 ∧ d.cpuHandoff = false ∧ d.wakeHandoff = false
  recycled : m.history.recycled = (m.history.destroyed.filter (·.kstack)).map (·.serial)

namespace Ledger

theorem destroyed_known (hm : Ledger m h l) {d : Destroyed} (hd : d ∈ m.history.destroyed) :
    d.serial < m.history.spawned :=
  hm.known _ (hm.conserved.mem_iff.mpr (List.mem_append_left _ (List.mem_map_of_mem hd)))

/-- A write to other words than the counts, that leaves the history but for `woken`. -/
theorem of_eq (hm : Ledger m h l) (strong : m'.strong = m.strong)
    (history : ∃ woken, m'.history = { m.history with woken }) : Ledger m' h l := by
  obtain ⟨woken, history⟩ := history
  constructor <;> rw [history] <;> try rw [strong]
  exacts [hm.faultless, hm.fifo, hm.numbered, hm.distinct, hm.members, hm.known, hm.once,
    hm.conserved, hm.gone, hm.released, hm.recycled]

/-! ### Calls -/

theorem hold (hm : Ledger m h l) {n : Nat} {cpu wake : Bool} (allows : m.Allows p n cpu wake) :
    Ledger (m.hold p n cpu wake) h l := by
  have hlive : ∀ q, 0 < (m.hold p n cpu wake).strong q → 0 < m.strong q := by
    intro q hq
    by_cases hqp : q = p
    · exact hqp ▸ allows.1
    · simpa [Memory.hold, hqp] using hq
  exact
    { faultless := hm.faultless
      __ := hm
      numbered := fun q hq => hm.numbered q (hlive q hq)
      distinct := fun q r hq hr => hm.distinct q r (hlive q hq) (hlive r hr)
      members := fun q hexited hq => hm.members q hexited (hlive q hq)
      gone := fun d hd q hq => hm.gone d hd q (hlive q hq)
      recycled := hm.recycled }

theorem map_serial_spawn {kstack : Bool} {xs : List TaskPtr} (hp : p ∉ xs) :
    xs.map (m.spawn p kstack).history.serial = xs.map m.history.serial :=
  List.map_congr_left fun q hq => by
    have hqp : q ≠ p := fun heq => hp (heq ▸ hq)
    simp [Memory.spawn, hqp]

theorem spawn (hm : Ledger m h l) (hkept : Kept m h l) {kstack : Bool} (dead : m.strong p = 0) :
    Ledger (m.spawn p kstack) h l := by
  have hp : p ∉ h ++ l := hkept.notMem_of_dead dead
  have hpl : p ∉ l := fun hmem => hp (List.mem_append_right h hmem)
  have hlive : ∀ q, 0 < (m.spawn p kstack).strong q →
      (q = p ∧ (m.spawn p kstack).history.serial q = m.history.spawned) ∨
        (q ≠ p ∧ 0 < m.strong q ∧
          (m.spawn p kstack).history.serial q = m.history.serial q) := by
    intro q hq
    by_cases hqp : q = p
    · exact .inl ⟨hqp, by simp [Memory.spawn, hqp]⟩
    · exact .inr ⟨hqp, by simpa [Memory.spawn, hqp] using hq, by simp [Memory.spawn, hqp]⟩
  refine ⟨hm.faultless, ?_, fun q hq => ?_, fun q r hq hr heq => ?_, fun q hexited hq => ?_,
    fun s hs => Nat.lt_succ_of_lt (hm.known s hs), hm.once, ?_, fun d hd q hq => ?_, hm.released,
    hm.recycled⟩
  · rw [map_serial_spawn hpl]
    exact hm.fifo
  · rcases hlive q hq with ⟨-, hserial⟩ | ⟨-, hq, hserial⟩
    · exact hserial ▸ Nat.lt_succ_self _
    · exact hserial ▸ Nat.lt_succ_of_lt (hm.numbered q hq)
  · rcases hlive q hq with ⟨hqp, hq'⟩ | ⟨-, hq, hq'⟩ <;>
      rcases hlive r hr with ⟨hrp, hr'⟩ | ⟨-, hr, hr'⟩
    · exact hqp.trans hrp.symm
    · have hlt := hm.numbered r hr
      omega
    · have hlt := hm.numbered q hq
      omega
    · exact hm.distinct q r hq hr (by rw [← hq', heq, hr'])
  · rcases hlive q hq with ⟨rfl, -⟩ | ⟨hqp, hq, -⟩
    · simp [Memory.spawn] at hexited
    · exact hm.members q (by simpa [Memory.spawn, hqp] using hexited) hq
  · rw [map_serial_spawn hp]
    exact hm.conserved
  · rcases hlive q hq with ⟨-, hserial⟩ | ⟨-, hq, hserial⟩
    · exact hserial ▸ (hm.destroyed_known hd).ne'
    · exact hserial ▸ hm.gone d hd q hq

/-- A task that has not exited is not one of those that exited. -/
theorem serial_notMem_exits (hm : Ledger m h l) (hkept : Kept m h l) (live : 0 < m.strong p)
    (fresh : m.history.exited p = false) : m.history.serial p ∉ m.history.exits := by
  intro hmem
  rcases List.mem_append.mp (hm.conserved.mem_iff.mp hmem) with hmem | hmem
  · obtain ⟨d, hd, hserial⟩ := List.mem_map.mp hmem
    exact hm.gone d hd p live hserial.symm
  · obtain ⟨q, hq, hserial⟩ := List.mem_map.mp hmem
    have hqlive : 0 < m.strong q := hkept.strong_of_mem hq ▸ Nat.succ_pos _
    obtain rfl := hm.distinct q p hqlive live hserial
    exact hkept.notMem_of_fresh fresh hq

variable {queue : ExitedTaskQueue} {tasks : TaskPtr → Task}

theorem enter (hm : Ledger m h l) (hkept : Kept m h l) (referenced : 0 < m.history.others p)
    (fresh : m.history.exited p = false) : Ledger (m.enter queue tasks p) h (l ++ [p]) := by
  have hplive : 0 < m.strong p := by
    rw [hkept.strong]
    omega
  have hlive : ∀ q, 0 < (m.enter queue tasks p).strong q → 0 < m.strong q := by
    intro q hq
    by_cases hqp : q = p
    · exact hqp ▸ hplive
    · simpa [Memory.enter, hqp] using hq
  refine ⟨hm.faultless, ?_, fun q hq => hm.numbered q (hlive q hq),
    fun q r hq hr => hm.distinct q r (hlive q hq) (hlive r hr), fun q hexited hq => ?_,
    fun s hs => ?_, ?_, ?_, fun d hd q hq => hm.gone d hd q (hlive q hq), hm.released, hm.recycled⟩
  · simp [Memory.enter, hm.fifo]
  · by_cases hqp : q = p
    · simp [hqp]
    · have hmem := hm.members q (by simpa [Memory.enter, hqp] using hexited) (hlive q hq)
      rw [← List.append_assoc]
      exact List.mem_append_left [p] hmem
  · rcases List.mem_append.mp hs with hs | hs
    · exact hm.known s hs
    · exact List.mem_singleton.mp hs ▸ hm.numbered p hplive
  · refine List.nodup_append.mpr ⟨hm.once, List.nodup_singleton _, ?_⟩
    rintro s hs t ht rfl
    exact hm.serial_notMem_exits hkept hplive fresh (List.mem_singleton.mp ht ▸ hs)
  · rw [← List.append_assoc h, List.map_append, ← List.append_assoc]
    exact hm.conserved.append_right _

/-! ### The recycler -/

theorem dequeue (hm : Ledger m [] (p :: l)) : Ledger (m.dequeue queue tasks ⟨p, none⟩) [p] l :=
  { hm with
    faultless := by simp [Memory.dequeue, hm.faultless]
    fifo := by simp [Memory.dequeue, hm.fifo] }

theorem requeued (hm : Ledger m [p] l) : Ledger (m.requeued queue tasks p) [] (l ++ [p]) := by
  have hperm : (l ++ [p]).Perm ([p] ++ l) := List.perm_append_comm
  exact
    { hm with
      fifo := by simp [Memory.requeued, hm.fifo]
      members := fun q hexited hq => hperm.mem_iff.mpr (hm.members q hexited hq)
      conserved := hm.conserved.trans ((hperm.symm.map _).append_left _) }

theorem destroy (hm : Ledger m [p] l) (hkept : Kept m [p] l) (last : m.strong p = 1)
    (free : (m.tasks p).canReclaimStack = true) : Ledger (m.destroy p) [] l := by
  have hplive : 0 < m.strong p := last ▸ Nat.one_pos
  have hothers : m.history.others p = 0 := by
    have hstrong := hkept.strong_of_mem (p := p) List.mem_cons_self
    omega
  have hlive : ∀ q, 0 < (m.destroy p).strong q → q ≠ p ∧ 0 < m.strong q := by
    intro q hq
    by_cases hqp : q = p
    · simp [Memory.destroy, hqp] at hq
    · exact ⟨hqp, by simpa [Memory.destroy, hqp] using hq⟩
  refine ⟨hm.faultless, hm.fifo, fun q hq => hm.numbered q (hlive q hq).2,
    fun q r hq hr => hm.distinct q r (hlive q hq).2 (hlive r hr).2, fun q hexited hq => ?_,
    hm.known, hm.once, ?_, fun d hd q hq => ?_, fun d hd => ?_, ?_⟩
  · obtain ⟨hqp, hq⟩ := hlive q hq
    exact List.mem_of_ne_of_mem hqp (hm.members q hexited hq)
  · simpa [Memory.destroy] using hm.conserved
  · obtain ⟨hqp, hq⟩ := hlive q hq
    rcases List.mem_append.mp hd with hd | hd
    · exact hm.gone d hd q hq
    · obtain rfl := List.mem_singleton.mp hd
      exact fun hserial => hqp (hm.distinct q p hq hplive hserial)
  · rcases List.mem_append.mp hd with hd | hd
    · exact hm.released d hd
    · obtain rfl := List.mem_singleton.mp hd
      have hfree : (m.tasks p).cpuHandoff = false ∧ (m.tasks p).wakeHandoff = false := by
        simpa [Task.canReclaimStack, Task.hasCpuOwnerOrHandoff] using free
      exact ⟨hothers, hfree⟩
  · cases hstack : (m.tasks p).kstack <;> simp [Memory.destroy, hm.recycled, hstack]

theorem batch (hm : Ledger m h l) : Ledger m.batch h l := { hm with }

end Ledger

/-! ### Batches -/

/-- What was popped of the snapshot, and what is left of it at the head of the queue. -/
def Gc.Scans (m : Memory) (l : List TaskPtr) : Gc → Prop
  | .scan left _ | .checkCpu _ left _ | .checkWake _ left _ | .unwrap _ left _
  | .requeue _ left _ => left ≤ l.length ∧
      m.history.snapshot = m.history.examined ++ (l.take left).map m.history.serial
  | _ => m.history.snapshot = m.history.examined

/-- The queue grows at its tail. -/
theorem Gc.Scans.extend (hg : g.Scans m l) (hl : l <+: l')
    (hserial : ∀ p ∈ l, m'.history.serial p = m.history.serial p)
    (hsnapshot : m'.history.snapshot = m.history.snapshot)
    (hexamined : m'.history.examined = m.history.examined) : g.Scans m' l' := by
  have hscan : ∀ left, (left ≤ l.length ∧
      m.history.snapshot = m.history.examined ++ (l.take left).map m.history.serial) →
      left ≤ l'.length ∧
        m'.history.snapshot = m'.history.examined ++ (l'.take left).map m'.history.serial := by
    rintro left ⟨hleft, hsplit⟩
    obtain ⟨t, rfl⟩ := hl
    refine ⟨by simp; omega, ?_⟩
    rw [hsnapshot, hexamined, hsplit, List.take_append_of_le_length hleft]
    exact congrArg _ (List.map_congr_left fun p hp => (hserial p (List.mem_of_mem_take hp)).symm)
  cases g with
  | scan left | checkCpu _ left | checkWake _ left | unwrap _ left | requeue _ left =>
    exact hscan left hg
  | _ => exact hsnapshot.trans (Eq.trans hg hexamined.symm)

/-- The task that the call is about to push. -/
def Call.pushing : Call → Option TaskPtr
  | .exit p | .gc (.requeue p _ _) => some p
  | _ => none

/-- The generations of the task that the call is about to push are not exhausted. -/
def Call.Spare (m : Memory) (k : Call) : Prop :=
  ∀ p ∈ k.pushing, (m.tasks p).exitQueueGeneration < u64Max

/-- What a step of another call leaves to the recycler. -/
structure Carries (m : Memory) (h l : List TaskPtr) (m' : Memory) (l' : List TaskPtr) (k' : Call) :
    Prop where
  ledger : Ledger m' h l'
  running : k' ≠ .off
  snapshot : m'.history.snapshot = m.history.snapshot
  scans : ∀ g : Gc, g.Scans m l → g.Scans m' l'

theorem Carries.of_eq (hm : Ledger m h l) (hrunning : k' ≠ .off) (strong : m'.strong = m.strong)
    (history : ∃ woken, m'.history = { m.history with woken }) : Carries m h l m' l k' := by
  have hledger := hm.of_eq strong history
  obtain ⟨woken, history⟩ := history
  refine ⟨hledger, hrunning, by rw [history], fun g hg => hg.extend List.prefix_rfl ?_ ?_ ?_⟩
  · simp [history]
  · rw [history]
  · rw [history]

theorem carries (hm : Ledger m h l) (hkept : Kept m h l) (hacts : Acts m l k m' l' k')
    (hspare : k.Spare m) : Carries m h l m' l' k' := by
  cases hacts with
  | references allows =>
    exact ⟨hm.hold allows, by simp, rfl,
      fun g hg => hg.extend List.prefix_rfl (fun _ _ => rfl) rfl rfl⟩
  | @spawn p kstack dead =>
    refine ⟨hm.spawn hkept dead, by simp, rfl, fun g hg => ?_⟩
    refine hg.extend List.prefix_rfl (fun q hq => ?_) rfl rfl
    have hqp : q ≠ p := fun heq =>
      hkept.notMem_of_dead dead (heq ▸ List.mem_append_right h hq)
    simp [Memory.spawn, hqp]
  | exit referenced fresh =>
    exact ⟨hm.enter hkept referenced fresh, by simp, rfl,
      fun g hg => hg.extend (List.prefix_append l _) (fun _ _ => rfl) rfl rfl⟩
  | exitStops spent => exact absurd (hspare _ rfl) spent
  | tick =>
    refine .of_eq hm (by simp) ?_ ?_ <;> unfold Memory.retryTimerTick <;> split_ifs
    all_goals first | rfl | exact ⟨_, rfl⟩
  | requestNothing | request | notify | publish | wake => exact .of_eq hm (by simp) rfl ⟨_, rfl⟩

/-! ### The recycler -/

/-- What is queued at the start of a batch. -/
theorem Ledger.snapshot_batch (hm : Ledger m h l) :
    m.batch.history.snapshot = l.map m.history.serial := by
  simp [Memory.batch, hm.fifo]

theorem Ledger.nodup_serials (hm : Ledger m h l) (hkept : Kept m h l) :
    (l.map m.history.serial).Nodup := by
  have hlive : ∀ p ∈ l, 0 < m.strong p := fun p hp => by
    rw [hkept.strong_of_mem (List.mem_append_right h hp)]
    exact Nat.succ_pos _
  refine List.Nodup.map_on (fun p hp q hq => ?_) hkept.chained.linked.nodup
  exact hm.distinct p q (hlive p hp) (hlive q hq)

section Recycle

variable (hkept : Kept m g.held l) (hpoint : g.Point m) (hrecycles : Recycles m l g m' l' k')
  (hspare : (Call.gc g).Spare m)

include hkept hpoint hrecycles hspare

theorem Recycles.running : k' ≠ .off := by
  cases hrecycles with
  | fails last busy =>
    exact absurd (hkept.canReclaimStack last hpoint) (Bool.eq_false_iff.mp busy)
  | requeueStops spent => exact absurd (hspare _ rfl) spent
  | _ => exact nofun

theorem Ledger.recycles (hm : Ledger m g.held l) : Ledger m' k'.held l' := by
  cases hrecycles with
  | batch => exact hm.batch
  | pop => exact hm.dequeue
  | destroy last free => exact hm.destroy hkept last free
  | fails last busy =>
    exact absurd (hkept.canReclaimStack last hpoint) (Bool.eq_false_iff.mp busy)
  | requeue => exact hm.requeued
  | requeueStops spent | requeueDrops spent => exact absurd (hspare _ rfl) spent
  | _ => exact hm.of_eq rfl ⟨_, rfl⟩

end Recycle

theorem Recycles.nodup_snapshot (hrecycles : Recycles m l g m' l' k') (hkept : Kept m g.held l)
    (hm : Ledger m g.held l) (hnodup : m.history.snapshot.Nodup) :
    m'.history.snapshot.Nodup := by
  cases hrecycles with
  | batch =>
    rw [hm.snapshot_batch]
    exact hm.nodup_serials hkept
  | _ => exact hnodup

theorem Gc.Scans.recycles (hg : g.Scans m l) (hm : Ledger m g.held l)
    (hrecycles : Recycles m l g m' l' k') {g' : Gc} (hg' : k' = .gc g') : g'.Scans m' l' := by
  cases hrecycles with
  | batch =>
    cases hg'
    refine ⟨le_rfl, ?_⟩
    rw [hm.snapshot_batch, List.take_length]
    rfl
  | scanned =>
    cases hg'
    simpa [Gc.Scans] using hg.2
  | drained => exact absurd hg.1 (Nat.not_succ_le_zero _)
  | pop =>
    cases hg'
    refine ⟨Nat.le_of_succ_le_succ hg.1, ?_⟩
    simpa [Memory.dequeue] using hg.2
  | @requeue l p left running =>
    cases hg'
    have hscan : (Gc.scan left true).Scans m l := hg
    exact hscan.extend (List.prefix_append l [p]) (fun _ _ => rfl) rfl rfl
  | fails | requeueStops => cases hg'
  | _ =>
    cases hg'
    exact hg

/-! ### Runs -/

/-- What the configurations of a run keep. -/
structure Settled (c : Config (Option ι) Memory Call) (l : List TaskPtr) : Prop where
  ledger : Ledger c.shared (c.calls none).held l
  running : ∀ i, c.calls i ≠ .off
  distinct : c.shared.history.snapshot.Nodup
  scans : ∀ g, c.calls none = .gc g → g.Scans c.shared l

namespace Settled

variable [DecidableEq ι] {c c' : Config (Option ι) Memory Call} {i : Option ι}

theorem running_update (hc : Settled c l) (hk : k' ≠ .off) (j : Option ι) :
    Function.update c.calls i k' j ≠ .off := by
  by_cases hji : j = i
  · subst hji
    simpa using hk
  · simpa [hji] using hc.running j

theorem next (hc : Settled c l) (hcoherent : Coherent c l) (hmoves : Moves c l i c' l')
    (hspare : (c.calls i).Spare c.shared) : Settled c' l' := by
  cases hmoves with
  | @call i k starts idle =>
    have hk : k ≠ .off := by
      rintro rfl
      exact starts
    exact ⟨by simpa using hc.ledger, hc.running_update hk, hc.distinct, by simpa using hc.scans⟩
  | @act i m' l' k' acts =>
    have hcarries := carries hc.ledger hcoherent.kept acts hspare
    exact ⟨by simpa using hcarries.ledger, hc.running_update hcarries.running,
      hcarries.snapshot ▸ hc.distinct,
      fun g hg => hcarries.scans g (hc.scans g (by simpa using hg))⟩
  | @recycle g m' l' k' point recycles =>
    have hkept := hcoherent.kept
    have hledger := hc.ledger
    rw [point] at hkept hledger hspare
    have hpoint := hcoherent.point g point
    exact ⟨by simpa using hledger.recycles hkept hpoint recycles hspare,
      hc.running_update (recycles.running hkept hpoint hspare),
      recycles.nodup_snapshot hkept hledger hc.distinct,
      fun g' hg' => (hc.scans g point).recycles hledger recycles (by simpa using hg')⟩

omit [DecidableEq ι] in
theorem initial : Settled (initial ι) [] where
  ledger :=
    { faultless := rfl
      fifo := rfl
      numbered := fun _ hp => absurd hp (Nat.lt_irrefl 0)
      distinct := fun _ _ hp => absurd hp (Nat.lt_irrefl 0)
      members := fun _ hp => absurd hp Bool.false_ne_true
      known := fun _ hs => absurd hs List.not_mem_nil
      once := .nil
      conserved := .nil
      gone := fun _ hd => absurd hd List.not_mem_nil
      released := fun _ hd => absurd hd List.not_mem_nil
      recycled := rfl }
  running i := by cases i <;> exact nofun
  distinct := .nil
  scans g hg := by
    obtain rfl : Gc.poll = g := by simpa [Exits.initial] using hg
    rfl

end Settled

end KernelAx.Exits
