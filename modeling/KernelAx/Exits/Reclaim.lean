import KernelAx.Exits.Ledger

/-!
# Exited tasks — each is reclaimed once

`Reclaims` is what a configuration has to satisfy for exited tasks to be reclaimed exactly once, and
`exited_reclaimed_once` says that all configurations of a run do in which no task is pushed after
its generations are exhausted.

A batch ends: `Gc.work` bounds the steps that the recycler still takes in it, whatever other calls
do meanwhile.
-/

namespace KernelAx.Exits

open Interleaving

variable {ι : Type} {l : List TaskPtr} {m m' : Memory} {g : Gc} {k' : Call}

/-- The steps that remain of a batch after its snapshot, at most. -/
def Gc.work : Gc → Nat
  | .scan left _ => 5 * left + 2
  | .checkCpu _ left _ => 5 * left + 6
  | .checkWake _ left _ => 5 * left + 5
  | .unwrap _ left _ => 5 * left + 4
  | .requeue _ left _ => 5 * left + 3
  | .finish _ => 1
  | _ => 0

def Call.work : Call → Nat
  | .gc g => g.work
  | _ => 0

theorem Recycles.work_lt {l' : List TaskPtr} (hrecycles : Recycles m l g m' l' k')
    (hwork : 0 < g.work) : k'.work < g.work := by
  cases hrecycles <;> simp only [Gc.work, Call.work] at hwork ⊢ <;> omega

/-- The generations of the task that the call `i` is about to push are not exhausted. -/
def Spare (i : Option ι) (c : Config (Option ι) Memory Call) : Prop := (c.calls i).Spare c.shared

instance (i : Option ι) (c : Config (Option ι) Memory Call) : Decidable (Spare i c) :=
  match h : (c.calls i).pushing with
  | none => .isTrue fun _ hp => nomatch h.symm.trans hp
  | some p => decidable_of_iff ((c.shared.tasks p).exitQueueGeneration < u64Max)
      ⟨fun hlt _ hq => Option.some.inj (h.symm.trans hq) ▸ hlt, fun hspare => hspare p h⟩

theorem spare_of_idle {i : Option ι} {c : Config (Option ι) Memory Call}
    (h : c.calls i = .idle) : Spare i c := by
  unfold Spare
  rw [h]
  exact nofun

section Spec

variable [DecidableEq ι]

/-- The configuration `c`, whose queue holds `l`. -/
structure Reclaims (c : Config (Option ι) Memory Call) (l : List TaskPtr) : Prop where
  /-- The queue holds `l`, which is what was pushed and not popped, in that order. -/
  chained : Chained c.shared.queue c.shared.tasks l
  fifo : c.shared.history.pushed = c.shared.history.popped ++ l.map c.shared.history.serial
  /-- The queue and the recycler hold the tasks that exited and were not destroyed, once each, with
  one reference. -/
  members : ∀ p, p ∈ (c.calls none).held ++ l ↔
    c.shared.history.exited p = true ∧ 0 < c.shared.strong p
  nodup : ((c.calls none).held ++ l).Nodup
  owned : ∀ p ∈ (c.calls none).held ++ l, c.shared.strong p = c.shared.history.others p + 1
  /-- No push and no pop reported a fault, and nothing stopped the system. -/
  faultless : c.shared.history.faults = []
  running : ∀ i, c.calls i ≠ .off
  /-- A batch examines what was queued at its start, each task once, and it ends. -/
  snapshot : c.shared.history.snapshot.Nodup
  examined : c.shared.history.examined <+: c.shared.history.snapshot
  finished : ∀ retained, c.calls none = .gc (.finish retained) →
    c.shared.history.examined = c.shared.history.snapshot
  terminates : 0 < (c.calls none).work → (∃ c', (system ι).Next none c c') ∧
    ∀ i c', (system ι).Next i c c' → (c'.calls none).work ≤ (c.calls none).work ∧
      (i = none → (c'.calls none).work < (c.calls none).work)
  /-- The tasks that exited are those that were destroyed and those that are still held, each
  once. -/
  once : c.shared.history.exits.Nodup
  conserved : c.shared.history.exits.Perm (c.shared.history.destroyed.map (·.serial) ++
    ((c.calls none).held ++ l).map c.shared.history.serial)
  /-- A task was destroyed with its last reference, without owner and handoff, and its stack was
  recycled then. -/
  released : ∀ d ∈ c.shared.history.destroyed,
    d.others = 0 ∧ d.cpuHandoff = false ∧ d.wakeHandoff = false
  recycled : c.shared.history.recycled =
    (c.shared.history.destroyed.filter (·.kstack)).map (·.serial)

end Spec

variable [DecidableEq ι] {c c' : Config (Option ι) Memory Call} {i : Option ι}

theorem Coherent.work_next (hc : Coherent c l) (hnext : (system ι).Next i c c')
    (hwork : 0 < (c.calls none).work) : (c'.calls none).work ≤ (c.calls none).work ∧
      (i = none → (c'.calls none).work < (c.calls none).work) := by
  obtain ⟨l', hmoves⟩ := hc.moves hnext
  cases hmoves with
  | call | act => simp
  | recycle point recycles =>
    rw [point] at hwork ⊢
    have hlt := recycles.work_lt hwork
    simp only [Function.update_self]
    exact ⟨hlt.le, fun _ => hlt⟩

theorem exists_next_of_work (hwork : 0 < (c.calls none).work) :
    ∃ c', (system ι).Next none c c' := by
  cases hcall : c.calls none with
  | gc g => exact ⟨_, .act (s := (g.step c.shared).1) (k := (g.step c.shared).2)
      (by simp [system, hcall, Call.step])⟩
  | _ => simp [hcall, Call.work] at hwork

theorem Gc.Scans.examined_of_snapshot (hg : g.Scans m l) :
    m.history.examined <+: m.history.snapshot := by
  cases g with
  | scan | checkCpu | checkWake | unwrap | requeue => exact hg.2 ▸ List.prefix_append _ _
  | _ => exact Eq.symm hg ▸ List.prefix_rfl

/-- **Exited tasks are reclaimed exactly once.** -/
theorem exited_reclaimed_once (hrun : (system ι).RunWhen Spare (initial ι) c) :
    ∃ l, Reclaims c l := by
  obtain ⟨l, hc, hsettled⟩ := Coherent.run hrun (Q := Settled) .initial
    fun hspare hcoherent hmoves h => h.next hcoherent hmoves hspare
  obtain ⟨g, hg⟩ := hc.recycler.resolve_right (hsettled.running none)
  refine ⟨l, hc.kept.chained, hsettled.ledger.fifo, fun p => ⟨fun hp => ⟨hc.kept.exited p hp, ?_⟩,
    fun hp => hsettled.ledger.members p hp.1 hp.2⟩, hc.kept.nodup, fun p => hc.kept.strong_of_mem,
    hsettled.ledger.faultless, hsettled.running, hsettled.distinct,
    (hsettled.scans g hg).examined_of_snapshot,
    fun retained hfinish => (hsettled.scans _ hfinish).symm,
    fun hwork => ⟨exists_next_of_work hwork, fun i c' hnext => hc.work_next hnext hwork⟩,
    hsettled.ledger.once, hsettled.ledger.conserved, hsettled.ledger.released,
    hsettled.ledger.recycled⟩
  rw [hc.kept.strong_of_mem hp]
  exact Nat.succ_pos _

/-- Two tasks exit, and the references of the first are dropped. -/
abbrev twoExits : Config (Option Nat) Memory Call :=
  (((((initial Nat).calling (some 0) (.spawn 0 true)).calling
    (some 1) (.exit 0)).calling
    (some 2) (.references 0 0 false false)).calling
    (some 3) (.spawn 1 true)).calling (some 4) (.exit 1)

abbrev twoExitsOrder : List (Option Nat) :=
  [some 0, some 1, some 1, some 1, some 1, some 2, some 3, some 4, some 4, some 4, some 4] ++
    List.replicate 12 none

/-- The batch destroys the first task and keeps the second. -/
theorem twoExits_reclaimed_once :
    let c := (system Nat).exec twoExits twoExitsOrder
    c.calls none = .gc (.finish true) ∧ c.shared.history.exits = [0, 1] ∧
      c.shared.history.destroyed = [⟨0, 0, false, false, true⟩] ∧
      c.shared.history.recycled = [0] ∧ ∃ l, Reclaims c l := by
  have hcalls : (system Nat).RunWhen Spare (initial Nat) twoExits := by
    refine System.RunWhen.calling (System.RunWhen.calling (System.RunWhen.calling
      (System.RunWhen.calling (System.RunWhen.calling .refl ?_ rfl ?_) ?_ rfl ?_) ?_ rfl ?_)
      ?_ rfl ?_) ?_ rfl ?_
    all_goals first | exact spare_of_idle rfl | trivial
  have hrun : (system Nat).RunWhen Spare (initial Nat) ((system Nat).exec twoExits twoExitsOrder) :=
    hcalls.exec (by decide +kernel)
  exact ⟨rfl, rfl, rfl, rfl, exited_reclaimed_once hrun⟩

end KernelAx.Exits
