import KernelAx.Exits.Fifo
import KernelAx.Exits.Recycler

/-!
# Exited tasks — what a step does

`Acts` and `Recycles` list what a step of a call and of the recycler can do to a memory whose queue
holds a list. `Coherent` is what every configuration keeps: the queue holds a list, and each task
of it, or in the hand of the recycler, has exited and has one reference more than those that are
held elsewhere.
-/

namespace KernelAx.Exits

open Interleaving

variable {ι : Type}

/-- The task whose reference the recycler has taken off the queue. -/
def Gc.held : Gc → List TaskPtr
  | .checkCpu p _ _ | .checkWake p _ _ | .unwrap p _ _ | .requeue p _ _ => [p]
  | _ => []

def Call.held : Call → List TaskPtr
  | .gc g => g.held
  | _ => []

/-! ### Calls -/

/-- The steps of the calls other than the recycler, with the list that the queue holds. -/
inductive Acts (m : Memory) (l : List TaskPtr) : Call → Memory → List TaskPtr → Call → Prop
  | references {p n cpu wake} (allows : m.Allows p n cpu wake) :
      Acts m l (.references p n cpu wake) (m.hold p n cpu wake) l .done
  | spawn {p kstack} (dead : m.strong p = 0) :
      Acts m l (.spawn p kstack) (m.spawn p kstack) l .done
  | exit {p queue tasks} (referenced : 0 < m.history.others p) (fresh : m.history.exited p = false)
      (chained : Chained queue tasks (l ++ [p])) (same : ∀ q, (m.tasks q).Same (tasks q)) :
      Acts m l (.exit p) (m.enter queue tasks p) (l ++ [p]) .notify
  | exitStops {p tasks} (spent : ¬(m.tasks p).exitQueueGeneration < u64Max)
      (chained : Chained m.queue tasks l) (same : ∀ q, (m.tasks q).Same (tasks q)) :
      Acts m l (.exit p) ((m.clone p).strand m.queue tasks ⟨.generationExhausted, p⟩) l .off
  | requestNothing (empty : l = []) : Acts m l .request m l .done
  | request (queued : l ≠ []) : Acts m l .request m l .notify
  | tick : Acts m l .tick m.retryTimerTick l .done
  | notify : Acts m l .notify { m with retryTicks := 0 } l .publish
  | publish : Acts m l .publish { m with pending := true } l .wake
  | wake : Acts m l .wake m.wake l .done

theorem acts {m m' : Memory} {l : List TaskPtr} {k k' : Call} (h : Chained m.queue m.tasks l)
    (hexited : ∀ p ∈ l, m.history.exited p = true) (hgc : ∀ g, k ≠ .gc g)
    (hstep : (m', k') ∈ k.step m) : ∃ l', Acts m l k m' l' k' := by
  cases k with
  | idle | done | off => cases hstep
  | gc g => exact absurd rfl (hgc g)
  | references p n cpu wake =>
    simp only [Call.step] at hstep
    split at hstep
    case isTrue hallows =>
      cases List.mem_singleton.mp hstep
      exact ⟨l, .references hallows⟩
    case isFalse => cases hstep
  | spawn p kstack =>
    simp only [Call.step] at hstep
    split at hstep
    case isTrue hdead =>
      cases List.mem_singleton.mp hstep
      exact ⟨l, .spawn hdead⟩
    case isFalse => cases hstep
  | exit p =>
    simp only [Call.step] at hstep
    split at hstep
    case isTrue hready =>
      have hp : p ∉ l := fun hmem => by simp [hexited p hmem] at hready
      have hpushes := pushes h hp
      rw [List.mem_singleton, Memory.exit] at hstep
      generalize m.queue.pushBack m.tasks p = result at hpushes hstep
      cases hpushes with
      | pushed chained same =>
        cases hstep
        exact ⟨_, .exit hready.1 hready.2 chained same⟩
      | exhausted spent chained same =>
        cases hstep
        exact ⟨_, .exitStops spent chained same⟩
    case isFalse => cases hstep
  | request =>
    simp only [Call.step, Memory.isEmpty, h.isEmpty] at hstep
    split at hstep
    case isTrue hempty =>
      cases List.mem_singleton.mp hstep
      exact ⟨l, .requestNothing (List.isEmpty_iff.mp hempty)⟩
    case isFalse hempty =>
      cases List.mem_singleton.mp hstep
      exact ⟨l, .request (mt List.isEmpty_iff.mpr hempty)⟩
  | tick =>
    cases List.mem_singleton.mp hstep
    exact ⟨l, .tick⟩
  | notify =>
    cases List.mem_singleton.mp hstep
    exact ⟨l, .notify⟩
  | publish =>
    cases List.mem_singleton.mp hstep
    exact ⟨l, .publish⟩
  | wake =>
    cases List.mem_singleton.mp hstep
    exact ⟨l, .wake⟩

/-! ### The recycler -/

/-- The steps of the recycler, with the list that the queue holds. -/
inductive Recycles (m : Memory) : List TaskPtr → Gc → Memory → List TaskPtr → Call → Prop
  | pollReady {l} (pending : m.pending = true) :
      Recycles m l .poll { m with pending := false } l (.gc .batch)
  | poll {l} (quiet : m.pending = false) : Recycles m l .poll m l (.gc .register)
  | register {l} :
      Recycles m l .register { m with waiter := true, history := { m.history with woken := false } }
        l (.gc .recheck)
  | recheckReady {l} (pending : m.pending = true) :
      Recycles m l .recheck { m with pending := false } l (.gc .batch)
  | recheck {l} (quiet : m.pending = false) :
      Recycles m l .recheck m l (.gc .waiting)
  | waiting {l} : Recycles m l .waiting m l (.gc .poll)
  | batch {l} : Recycles m l .batch m.batch l (.gc (.scan l.length false))
  | scanned {l retained} :
      Recycles m l (.scan 0 retained) m l (.gc (.finish retained))
  | drained {left retained} :
      Recycles m [] (.scan (left + 1) retained) m [] (.gc (.finish retained))
  | pop {p l left retained queue tasks} (chained : Chained queue tasks l)
      (same : ∀ q, (m.tasks q).Same (tasks q)) :
      Recycles m (p :: l) (.scan (left + 1) retained) (m.dequeue queue tasks ⟨p, none⟩) l
        (.gc (.checkCpu p left retained))
  | owned {l p left retained} (owner : (m.tasks p).cpuHandoff = true) :
      Recycles m l (.checkCpu p left retained) m l (.gc (.requeue p left true))
  | unowned {l p left retained} (free : (m.tasks p).cpuHandoff = false) :
      Recycles m l (.checkCpu p left retained) m l (.gc (.checkWake p left retained))
  | handed {l p left retained} (handoff : (m.tasks p).wakeHandoff = true) :
      Recycles m l (.checkWake p left retained) m l (.gc (.requeue p left true))
  | unhanded {l p left retained} (free : (m.tasks p).wakeHandoff = false) :
      Recycles m l (.checkWake p left retained) m l (.gc (.unwrap p left retained))
  | destroy {l p left retained} (last : m.strong p = 1)
      (free : (m.tasks p).canReclaimStack = true) :
      Recycles m l (.unwrap p left retained) (m.destroy p) l (.gc (.scan left retained))
  | fails {l p left retained} (last : m.strong p = 1) (busy : (m.tasks p).canReclaimStack = false) :
      Recycles m l (.unwrap p left retained) m l .off
  | shared {l p left retained} (referenced : m.strong p ≠ 1) :
      Recycles m l (.unwrap p left retained) m l (.gc (.requeue p left false))
  | requeue {l p left running queue tasks} (chained : Chained queue tasks (l ++ [p]))
      (same : ∀ q, (m.tasks q).Same (tasks q)) :
      Recycles m l (.requeue p left running) (m.requeued queue tasks p) (l ++ [p])
        (.gc (.scan left true))
  | requeueStops {l p left tasks} (spent : ¬(m.tasks p).exitQueueGeneration < u64Max)
      (chained : Chained m.queue tasks l) (same : ∀ q, (m.tasks q).Same (tasks q)) :
      Recycles m l (.requeue p left true) (m.strand m.queue tasks ⟨.generationExhausted, p⟩) l .off
  | requeueDrops {l p left tasks} (spent : ¬(m.tasks p).exitQueueGeneration < u64Max)
      (chained : Chained m.queue tasks l) (same : ∀ q, (m.tasks q).Same (tasks q)) :
      Recycles m l (.requeue p left false) (m.abandon m.queue tasks ⟨.generationExhausted, p⟩) l
        (.gc (.scan left true))
  | finishArms {l} (remaining : l ≠ []) : Recycles m l (.finish true) m l (.gc .arm)
  | finishResets {retained} : Recycles m [] (.finish retained) m [] (.gc .resetTicks)
  | finish {l} (remaining : l ≠ []) : Recycles m l (.finish false) m l (.gc .poll)
  | arm {l} :
      Recycles m l .arm m l
        (.gc (.armDelay (min (max m.retryDelay gcRetryMinTicks) gcRetryMaxTicks)))
  | armDelay {l delay} :
      Recycles m l (.armDelay delay)
        { m with retryDelay := min (min (delay * 2) u32Max) gcRetryMaxTicks } l
        (.gc (.armTicks delay))
  | armTicks {l delay} :
      Recycles m l (.armTicks delay) { m with retryTicks := delay } l (.gc .poll)
  | resetTicks {l} :
      Recycles m l .resetTicks { m with retryTicks := 0 } l (.gc .resetDelay)
  | resetDelay {l} :
      Recycles m l .resetDelay { m with retryDelay := gcRetryMinTicks } l (.gc .poll)

theorem recycles {m : Memory} {l : List TaskPtr} {g : Gc} (h : Chained m.queue m.tasks l)
    (hheld : ∀ p ∈ g.held, p ∉ l) : ∃ l', Recycles m l g (g.step m).1 l' (g.step m).2 := by
  cases g with
  | poll =>
    cases hpending : m.pending <;> simp only [Gc.step, hpending]
    · exact ⟨l, .poll hpending⟩
    · exact ⟨l, .pollReady hpending⟩
  | recheck =>
    cases hpending : m.pending <;> simp only [Gc.step, hpending]
    · exact ⟨l, .recheck hpending⟩
    · exact ⟨l, .recheckReady hpending⟩
  | batch =>
    refine ⟨l, ?_⟩
    simp only [Gc.step, h.reclaimLen]
    exact .batch
  | scan left retained =>
    cases left with
    | zero => exact ⟨l, .scanned⟩
    | succ left =>
      have hpops := pops h
      simp only [Gc.step, Memory.pop]
      generalize m.queue.popFront m.tasks = result at hpops
      cases hpops with
      | empty => exact ⟨[], .drained⟩
      | popped chained same => exact ⟨_, .pop chained same⟩
  | checkCpu p left retained =>
    cases howner : (m.tasks p).cpuHandoff <;> simp only [Gc.step, howner]
    · exact ⟨l, .unowned howner⟩
    · exact ⟨l, .owned howner⟩
  | checkWake p left retained =>
    cases hhandoff : (m.tasks p).wakeHandoff <;> simp only [Gc.step, hhandoff]
    · exact ⟨l, .unhanded hhandoff⟩
    · exact ⟨l, .handed hhandoff⟩
  | unwrap p left retained =>
    simp only [Gc.step, Memory.unwrap]
    by_cases hlast : m.strong p = 1
    · cases hfree : (m.tasks p).canReclaimStack <;> simp only [hlast, if_true]
      · exact ⟨l, .fails hlast hfree⟩
      · exact ⟨l, .destroy hlast hfree⟩
    · simp only [hlast, if_false]
      exact ⟨l, .shared hlast⟩
  | requeue p left running =>
    have hpushes := pushes h (hheld p List.mem_cons_self)
    simp only [Gc.step, Memory.requeue]
    generalize m.queue.pushBack m.tasks p = result at hpushes
    cases hpushes with
    | pushed chained same => exact ⟨_, .requeue chained same⟩
    | exhausted spent chained same =>
      cases running
      · exact ⟨l, .requeueDrops spent chained same⟩
      · exact ⟨l, .requeueStops spent chained same⟩
  | finish retained =>
    simp only [Gc.step, Memory.isEmpty, h.isEmpty]
    cases l with
    | nil => cases retained <;> exact ⟨[], .finishResets⟩
    | cons p l =>
      cases retained
      · exact ⟨_, .finish (List.cons_ne_nil p l)⟩
      · exact ⟨_, .finishArms (List.cons_ne_nil p l)⟩
  | register => exact ⟨l, .register⟩
  | waiting => exact ⟨l, .waiting⟩
  | arm => exact ⟨l, .arm⟩
  | armDelay delay => exact ⟨l, .armDelay⟩
  | armTicks delay => exact ⟨l, .armTicks⟩
  | resetTicks => exact ⟨l, .resetTicks⟩
  | resetDelay => exact ⟨l, .resetDelay⟩

end KernelAx.Exits
