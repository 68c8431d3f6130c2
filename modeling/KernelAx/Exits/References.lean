import KernelAx.Exits.Steps

/-!
# Exited tasks — references

`Kept` says that the queue holds a list and that the tasks of the list, and of the hand of the
recycler, have exited and have one reference more than those that are held elsewhere. The recycler
finds no owner of a task again once it has found none, and so never comes to the panic of
`take_kernel_stack`.
-/

namespace KernelAx.Exits

open Interleaving Memory

variable {ι : Type} {m m' : Memory} {h l l' : List TaskPtr} {k k' : Call} {g : Gc} {p : TaskPtr}

/-- The memory, for the references `h` in the hand of the recycler and the list `l` in the queue. -/
structure Kept (m : Memory) (h l : List TaskPtr) : Prop where
  chained : Chained m.queue m.tasks l
  nodup : (h ++ l).Nodup
  exited : ∀ p ∈ h ++ l, m.history.exited p = true
  strong : ∀ p, m.strong p = m.history.others p + (h ++ l).count p
  handoff : ∀ p, (m.tasks p).wakeHandoff = true → 0 < m.history.others p

namespace Kept

theorem strong_of_mem (hm : Kept m h l) (hp : p ∈ h ++ l) :
    m.strong p = m.history.others p + 1 := by
  rw [hm.strong, List.count_eq_one_of_mem hm.nodup hp]

theorem notMem_of_fresh (hm : Kept m h l) (hp : m.history.exited p = false) : p ∉ h ++ l :=
  fun hmem => by simp [hm.exited p hmem] at hp

theorem notMem_of_dead (hm : Kept m h l) (hp : m.strong p = 0) : p ∉ h ++ l := fun hmem => by
  simp [hm.strong_of_mem hmem] at hp

theorem of_eq (hm : Kept m h l) (queue : m'.queue = m.queue) (tasks : m'.tasks = m.tasks)
    (strong : m'.strong = m.strong) (exited : m'.history.exited = m.history.exited)
    (others : m'.history.others = m.history.others) : Kept m' h l where
  chained := queue ▸ tasks ▸ hm.chained
  nodup := hm.nodup
  exited := exited ▸ hm.exited
  strong := strong ▸ others ▸ hm.strong
  handoff := tasks ▸ others ▸ hm.handoff

/-- The queue is written, and a reference moves between it and the recycler. -/
theorem of_perm {h' : List TaskPtr} (hm : Kept m h l) (hperm : (h' ++ l').Perm (h ++ l))
    (chained : Chained m'.queue m'.tasks l') (same : ∀ q, (m.tasks q).Same (m'.tasks q))
    (strong : m'.strong = m.strong) (exited : m'.history.exited = m.history.exited)
    (others : m'.history.others = m.history.others) : Kept m' h' l' where
  chained := chained
  nodup := hperm.nodup_iff.mpr hm.nodup
  exited q hq := exited ▸ hm.exited q (hperm.mem_iff.mp hq)
  strong q := by rw [strong, others, hperm.count_eq, hm.strong]
  handoff q hq := others ▸ hm.handoff q ((same q).wakeHandoff ▸ hq)

/-! ### Calls -/

theorem hold (hm : Kept m h l) {n : Nat} {cpu wake : Bool} (allows : m.Allows p n cpu wake) :
    Kept (m.hold p n cpu wake) h l where
  chained := hm.chained.congr fun q => by
    by_cases hq : q = p <;> simp [Memory.hold, hq]
  __ := hm
  strong q := by
    by_cases hq : q = p
    · subst hq
      have hstrong := hm.strong q
      simp only [Memory.hold, Function.update_self]
      omega
    · simpa [Memory.hold, hq] using hm.strong q
  handoff q := by
    by_cases hq : q = p
    · subst hq
      simpa [Memory.hold] using allows.2.1
    · simpa [Memory.hold, hq] using hm.handoff q

theorem spawn (hm : Kept m h l) {kstack : Bool} (dead : m.strong p = 0) :
    Kept (m.spawn p kstack) h l where
  chained := hm.chained.set_of_notMem
    (fun hmem => hm.notMem_of_dead dead (List.mem_append_right h hmem)) rfl rfl
  nodup := hm.nodup
  exited q hq := by
    have hqp : q ≠ p := fun heq => hm.notMem_of_dead dead (heq ▸ hq)
    simpa [Memory.spawn, hqp] using hm.exited q hq
  strong q := by
    by_cases hq : q = p
    · subst hq
      simp [Memory.spawn, List.count_eq_zero_of_not_mem (hm.notMem_of_dead dead)]
    · simpa [Memory.spawn, hq] using hm.strong q
  handoff q := by
    by_cases hq : q = p
    · subst hq
      simp [Memory.spawn, Task.new]
    · simpa [Memory.spawn, hq] using hm.handoff q

variable {tasks : TaskPtr → Task} {fault : TaskExitQueueFault}

theorem enter (hm : Kept m h l) (fresh : m.history.exited p = false) {queue : ExitedTaskQueue}
    (chained : Chained queue tasks (l ++ [p])) (same : ∀ q, (m.tasks q).Same (tasks q)) :
    Kept (m.enter queue tasks p) h (l ++ [p]) where
  chained := chained
  nodup := by
    rw [← List.append_assoc, List.nodup_append]
    refine ⟨hm.nodup, List.nodup_singleton p, ?_⟩
    rintro q hq r hr rfl
    exact hm.notMem_of_fresh fresh (List.mem_singleton.mp hr ▸ hq)
  exited q hq := by
    by_cases hqp : q = p
    · simp [Memory.enter, hqp]
    · have hmem : q ∈ h ++ l := by simpa [hqp] using hq
      simpa [Memory.enter, hqp] using hm.exited q hmem
  strong q := by
    rw [← List.append_assoc, List.count_append, List.count_singleton]
    by_cases hqp : q = p
    · subst hqp
      simp [Memory.enter, hm.strong, Nat.add_assoc]
    · simp [Memory.enter, hqp, Ne.symm hqp, hm.strong]
  handoff q hq := hm.handoff q ((same q).wakeHandoff ▸ hq)

theorem clone_strand (hm : Kept m h l) (chained : Chained m.queue tasks l)
    (same : ∀ q, (m.tasks q).Same (tasks q)) :
    Kept ((m.clone p).strand m.queue tasks ⟨fault, p⟩) h l where
  chained := chained
  __ := hm
  strong q := by
    by_cases hqp : q = p
    · subst hqp
      simp only [strand, clone, Function.update_self, hm.strong]
      omega
    · simpa [strand, clone, hqp] using hm.strong q
  handoff q hq := by
    have hothers := hm.handoff q ((same q).wakeHandoff ▸ hq)
    by_cases hqp : q = p
    · simp [strand, hqp]
    · simpa [strand, clone, hqp] using hothers

theorem acts (hm : Kept m h l) (hacts : Acts m l k m' l' k') : Kept m' h l' := by
  cases hacts with
  | references allows => exact hm.hold allows
  | spawn dead => exact hm.spawn dead
  | exit _ fresh chained same => exact hm.enter fresh chained same
  | exitStops _ chained same => exact hm.clone_strand chained same
  | requestNothing | request => exact hm
  | tick =>
    unfold retryTimerTick
    split_ifs <;> exact hm.of_eq rfl rfl rfl rfl rfl
  | notify | publish | wake => exact hm.of_eq rfl rfl rfl rfl rfl

/-! ### The recycler -/

theorem destroy (hm : Kept m [p] l) (last : m.strong p = 1) : Kept (m.destroy p) [] l := by
  have hothers : m.history.others p = 0 := by
    have hstrong := hm.strong_of_mem (p := p) List.mem_cons_self
    omega
  have hpl : p ∉ l := (List.nodup_cons.mp hm.nodup).1
  have hnodup : l.Nodup := (List.nodup_cons.mp hm.nodup).2
  refine ⟨hm.chained.congr fun q => ?_, hnodup, fun q hq => hm.exited q (List.mem_cons_of_mem p hq),
    fun q => ?_, fun q hq => hm.handoff q ?_⟩
  · by_cases hq : q = p <;> simp [Memory.destroy, hq]
  · by_cases hq : q = p
    · subst hq
      simp [Memory.destroy, hothers, List.count_eq_zero_of_not_mem hpl]
    · have hstrong := hm.strong q
      rw [List.singleton_append, List.count_cons_of_ne (Ne.symm hq)] at hstrong
      simpa [Memory.destroy, hq] using hstrong
  · by_cases hqp : q = p
    · subst hqp
      simpa [Memory.destroy] using hq
    · simpa [Memory.destroy, hqp] using hq

theorem strand (hm : Kept m [p] l) (chained : Chained m.queue tasks l)
    (same : ∀ q, (m.tasks q).Same (tasks q)) : Kept (m.strand m.queue tasks ⟨fault, p⟩) [] l where
  chained := chained
  nodup := (List.nodup_cons.mp hm.nodup).2
  exited q hq := hm.exited q (List.mem_cons_of_mem p hq)
  strong q := by
    have hstrong := hm.strong q
    rw [List.count_append, List.count_singleton] at hstrong
    by_cases hqp : q = p
    · subst hqp
      simp only [Memory.strand, Function.update_self, List.nil_append]
      simp only [beq_self_eq_true, if_true] at hstrong
      omega
    · simpa [Memory.strand, hqp, Ne.symm hqp] using hstrong
  handoff q hq := by
    have hothers := hm.handoff q ((same q).wakeHandoff ▸ hq)
    by_cases hqp : q = p
    · simp [Memory.strand, hqp]
    · simpa [Memory.strand, hqp] using hothers

theorem abandon (hm : Kept m [p] l) (chained : Chained m.queue tasks l)
    (same : ∀ q, (m.tasks q).Same (tasks q)) : Kept (m.abandon m.queue tasks ⟨fault, p⟩) [] l where
  chained := chained
  nodup := (List.nodup_cons.mp hm.nodup).2
  exited q hq := hm.exited q (List.mem_cons_of_mem p hq)
  strong q := by
    have hstrong := hm.strong q
    rw [List.count_append, List.count_singleton] at hstrong
    by_cases hqp : q = p
    · subst hqp
      simp only [Memory.abandon, Function.update_self, List.nil_append]
      simp only [beq_self_eq_true, if_true] at hstrong
      omega
    · simpa [Memory.abandon, hqp, Ne.symm hqp] using hstrong
  handoff q hq := hm.handoff q ((same q).wakeHandoff ▸ hq)

end Kept

/-- What the recycler knows of the task in its hand. -/
def Gc.Point (m : Memory) : Gc → Prop
  | .checkWake p _ _ | .unwrap p _ _ => (m.tasks p).cpuHandoff = false
  | _ => True

/-- A task that nobody else references and that nobody owns has no wake handoff either. -/
theorem Kept.canReclaimStack (hm : Kept m [p] l) (last : m.strong p = 1)
    (hfree : (m.tasks p).cpuHandoff = false) : (m.tasks p).canReclaimStack = true := by
  have hwake : (m.tasks p).wakeHandoff = false := by
    refine Bool.eq_false_iff.mpr fun hwake => ?_
    have hothers := hm.handoff p hwake
    have hstrong := hm.strong_of_mem (p := p) List.mem_cons_self
    omega
  simp [Task.canReclaimStack, Task.hasCpuOwnerOrHandoff, hfree, hwake]

theorem Kept.recycles (hm : Kept m g.held l) (hpoint : g.Point m)
    (hrecycles : Recycles m l g m' l' k') : Kept m' k'.held l' := by
  cases hrecycles with
  | pop chained same => exact hm.of_perm (.refl _) chained same rfl rfl rfl
  | destroy last => exact hm.destroy last
  | fails last busy => exact absurd (hm.canReclaimStack last hpoint) (Bool.eq_false_iff.mp busy)
  | @requeue l p _ _ _ _ chained same =>
    have hperm : (l ++ [p]).Perm ([p] ++ l) := List.perm_append_comm
    exact hm.of_perm hperm chained same rfl rfl rfl
  | requeueStops _ chained same => exact hm.strand chained same
  | requeueDrops _ chained same => exact hm.abandon chained same
  | _ => exact hm.of_eq rfl rfl rfl rfl rfl

theorem Gc.Point.acts (hpoint : g.Point m) (hm : Kept m g.held l)
    (hacts : Acts m l k m' l' k') : g.Point m' := by
  have hcpu : ∀ p ∈ g.held, (m.tasks p).cpuHandoff = false → (m'.tasks p).cpuHandoff = false := by
    intro p hp hfree
    have hmem : p ∈ g.held ++ l := List.mem_append_left l hp
    cases hacts with
    | @references q n cpu wake allows =>
      by_cases hpq : p = q
      · subst hpq
        have hcpu : cpu ≠ true := fun hcpu => by
          simp [allows.2.2 (hm.exited p hmem) hcpu] at hfree
        simpa [hold] using hcpu
      · simpa [hold, hpq] using hfree
    | @spawn q kstack dead =>
      have hne : p ≠ q := fun heq => hm.notMem_of_dead dead (heq ▸ hmem)
      simpa [spawn, hne] using hfree
    | exit _ _ _ same | exitStops _ _ same => exact (same p).cpuHandoff.trans hfree
    | tick =>
      unfold retryTimerTick
      split_ifs <;> exact hfree
    | requestNothing | request | notify | publish | wake => exact hfree
  cases g with
  | checkWake p left retained | unwrap p left retained => exact hcpu p List.mem_cons_self hpoint
  | _ => trivial

theorem Gc.Point.recycles (hpoint : g.Point m) (hrecycles : Recycles m l g m' l' k') :
    (∃ g', k' = .gc g' ∧ g'.Point m') ∨ k' = .off := by
  cases hrecycles with
  | unowned free => exact .inl ⟨_, rfl, free⟩
  | unhanded => exact .inl ⟨_, rfl, hpoint⟩
  | fails | requeueStops => exact .inr rfl
  | _ => exact .inl ⟨_, rfl, trivial⟩

theorem Acts.ne_gc (hacts : Acts m l k m' l' k') (g : Gc) : k' ≠ .gc g := by
  cases hacts <;> exact nofun

theorem Call.Starts.ne_gc (hstarts : k.Starts) (g : Gc) : k ≠ .gc g := by
  rintro rfl
  exact hstarts

/-! ### Configurations -/

/-- The queue of a configuration holds `l`, and the recycler is the call `none`. -/
structure Coherent (c : Config (Option ι) Memory Call) (l : List TaskPtr) : Prop where
  kept : Kept c.shared (c.calls none).held l
  point : ∀ g, c.calls none = .gc g → g.Point c.shared
  recycler : (∃ g, c.calls none = .gc g) ∨ c.calls none = .off
  alone : ∀ i g, c.calls (some i) ≠ .gc g

/-- A step of a configuration whose queue holds `l`. -/
inductive Moves [DecidableEq ι] (c : Config (Option ι) Memory Call) (l : List TaskPtr) :
    Option ι → Config (Option ι) Memory Call → List TaskPtr → Prop
  | call {i k} (starts : k.Starts) (idle : c.calls (some i) = .idle) :
      Moves c l (some i) ⟨c.shared, Function.update c.calls (some i) k⟩ l
  | act {i m' l' k'} (acts : Acts c.shared l (c.calls (some i)) m' l' k') :
      Moves c l (some i) ⟨m', Function.update c.calls (some i) k'⟩ l'
  | recycle {g : Gc} {m' l' k'} (point : c.calls none = .gc g)
      (recycles : Recycles c.shared l g m' l' k') :
      Moves c l none ⟨m', Function.update c.calls none k'⟩ l'

namespace Coherent

variable [DecidableEq ι] {c c' : Config (Option ι) Memory Call} {i : Option ι}

theorem moves (hc : Coherent c l) (hnext : (system ι).Next i c c') : ∃ l', Moves c l i c' l' := by
  cases hnext with
  | call idle starts =>
    cases i with
    | none => rcases hc.recycler with ⟨g, hg⟩ | hoff <;> simp_all [system]
    | some i => exact ⟨l, .call starts idle⟩
  | act step =>
    cases i with
    | none =>
      rcases hc.recycler with ⟨g, hg⟩ | hoff
      · have hkept := hc.kept
        rw [hg] at hkept
        have hheld : ∀ p ∈ g.held, p ∉ l := fun p hp hl =>
          (List.nodup_append.mp hkept.nodup).2.2 p hp p hl rfl
        obtain ⟨l', hrecycles⟩ := Exits.recycles hkept.chained hheld
        have hstep : (_, _) ∈ Call.step c.shared (c.calls none) := step
        rw [hg] at hstep
        obtain ⟨rfl, rfl⟩ := Prod.mk.inj (List.mem_singleton.mp hstep)
        exact ⟨l', .recycle hg hrecycles⟩
      · have hstep : (_, _) ∈ Call.step c.shared (c.calls none) := step
        rw [hoff] at hstep
        cases hstep
    | some i =>
      have hexited : ∀ p ∈ l, c.shared.history.exited p = true := fun p hp =>
        hc.kept.exited p (List.mem_append_right _ hp)
      obtain ⟨l', hacts⟩ := Exits.acts hc.kept.chained hexited (hc.alone i) step
      exact ⟨l', .act hacts⟩

theorem next {c' : Config (Option ι) Memory Call} (hc : Coherent c l) (hmoves : Moves c l i c' l') :
    Coherent c' l' := by
  cases hmoves with
  | @call i k starts idle =>
    refine ⟨by simpa using hc.kept, by simpa using hc.point, by simpa using hc.recycler, ?_⟩
    intro j g
    by_cases hji : j = i
    · subst hji
      simpa using starts.ne_gc g
    · simpa [hji] using hc.alone j g
  | @act i m' l' k' acts =>
    refine ⟨by simpa using hc.kept.acts acts, ?_, by simpa using hc.recycler, ?_⟩
    · intro g hg
      have hg : c.calls none = .gc g := by simpa using hg
      have hkept := hc.kept
      rw [hg] at hkept
      exact (hc.point g hg).acts hkept acts
    · intro j g
      by_cases hji : j = i
      · subst hji
        simpa using acts.ne_gc g
      · simpa [hji] using hc.alone j g
  | @recycle g m' l' k' point recycles =>
    have hkept := hc.kept
    rw [point] at hkept
    have hpoint := hc.point g point
    have hafter := hpoint.recycles recycles
    refine ⟨by simpa using hkept.recycles hpoint recycles, fun g' hg' => ?_, ?_, ?_⟩
    · have hg' : k' = .gc g' := by simpa using hg'
      rcases hafter with ⟨g'', rfl, hpoint'⟩ | hoff
      · cases hg'
        exact hpoint'
      · cases hg'.symm.trans hoff
    · rcases hafter with ⟨g', hg', -⟩ | hoff
      · exact .inl ⟨g', by simpa using hg'⟩
      · exact .inr (by simpa using hoff)
    · simpa using hc.alone

omit [DecidableEq ι] in
theorem initial : Coherent (initial ι) [] where
  kept :=
    { chained := .nil fun _ => ⟨rfl, rfl⟩
      nodup := .nil
      exited := fun p hp => absurd hp List.not_mem_nil
      strong := fun _ => rfl
      handoff := fun _ hp => absurd hp Bool.false_ne_true }
  point g hg := by
    obtain rfl : Gc.poll = g := by simpa [Exits.initial] using hg
    trivial
  recycler := .inl ⟨.poll, rfl⟩
  alone i g := nofun

/-- An invariant of the configurations of a run and the lists of their queues. -/
theorem run {P : Option ι → Config (Option ι) Memory Call → Prop}
    {Q : Config (Option ι) Memory Call → List TaskPtr → Prop}
    (hrun : (system ι).RunWhen P (Exits.initial ι) c) (start : Q (Exits.initial ι) [])
    (step : ∀ {c l i c' l'}, P i c → Coherent c l → Moves c l i c' l' → Q c l → Q c' l') :
    ∃ l, Coherent c l ∧ Q c l := by
  refine hrun.reached (Q := fun c => ∃ l, Coherent c l ∧ Q c l) ?_ ⟨[], .initial, start⟩
  rintro i c c' - hP hnext ⟨l, hc, hQ⟩
  obtain ⟨l', hmoves⟩ := hc.moves hnext
  exact ⟨l', hc.next hmoves, step hP hc hmoves hQ⟩

end Coherent

end KernelAx.Exits
