import Mathlib.Order.CompletePartialOrder
import Mathlib.Order.Interval.Set.Disjoint
import KernelAx.Interleaving
import KernelAx.Eevdf.Model

/-!
# Tasks — the runtime boundary

`running_accounted_ns` of a run queue is the time up to which its owners have been charged. Samples
and resets race on it with any timestamps, one atomic access at a time.

The memory also records what the code does not: the calls that have returned, and the time that each
returned delta charges. A call has no effect before the access with which it returns, and that
access does all of it at once (`step_finish`): the boundary goes up to the timestamp of the call.
-/

namespace KernelAx.RunQueue

open Interleaving
open Eevdf (RuntimeDelta)

/-- `(NANOS_PER_SEC / TICKS_PER_SEC).max(1)`. -/
def schedulerPeriodNs (ticksPerSec : Nat) : Nat := max (1000000000 / ticksPerSec) 1

/-- The arguments of `runtime_delta_at` and of `reset_runtime_accounting_at`. -/
inductive Sample
  | delta (now : Nat) (isIdle isMigrationHelper : Bool)
  | reset (now : Nat)

def Sample.now : Sample → Nat
  | .delta now _ _ | .reset now => now

/-- A delta that was returned and the time that it charges. -/
structure Charge where
  start : Nat
  stop : Nat
  delta : RuntimeDelta

/-- The boundary, with the calls that have returned and what they charged. -/
structure Accounting where
  runningAccountedNs : Nat
  returned : List Sample
  charges : List Charge

variable (ticksPerSec : Nat)

/-- A call returns, with the delta of a sample and the boundary that it leaves. -/
def Accounting.return (s : Accounting) (r : Sample) (boundary elapsed : Nat) : Accounting where
  runningAccountedNs := boundary
  returned := r :: s.returned
  charges := match r with
    | .delta .. => ⟨s.runningAccountedNs, boundary,
        .new elapsed (schedulerPeriodNs ticksPerSec)⟩ :: s.charges
    | .reset _ => s.charges

/-- A call before its load, and between its load and its exchange. -/
inductive Call
  | idle
  | load (r : Sample)
  | exchange (r : Sample) (previous : Nat)

/-- The head of either loop, with the word that was read. -/
def head (s : Accounting) (r : Sample) : Accounting × Call :=
  let previous := s.runningAccountedNs
  match r with
  | .delta now _ _ =>
    if now = previous then (s.return ticksPerSec r previous 0, .idle)
    else if now < previous then (s.return ticksPerSec r previous 0, .idle)
    else (s, .exchange r previous)
  | .reset now =>
    if now > previous then (s, .exchange r previous)
    else (s.return ticksPerSec r previous 0, .idle)

def step (s : Accounting) : Call → List (Accounting × Call)
  | .idle => []
  | .load (.delta now isIdle isMigrationHelper) =>
    if isIdle || isMigrationHelper then
      [(s.return ticksPerSec (.delta now isIdle isMigrationHelper) s.runningAccountedNs 0, .idle)]
    else [head ticksPerSec s (.delta now isIdle isMigrationHelper)]
  | .load (.reset now) => [head ticksPerSec s (.reset now)]
  | .exchange (.delta now isIdle isMigrationHelper) previous =>
    if s.runningAccountedNs = previous then
      [(s.return ticksPerSec (.delta now isIdle isMigrationHelper) now (now - previous), .idle)]
    else [head ticksPerSec s (.delta now isIdle isMigrationHelper)]
  | .exchange (.reset now) previous =>
    -- a weak exchange may fail although the word is unchanged
    (if s.runningAccountedNs = previous then [(s.return ticksPerSec (.reset now) now 0, .idle)]
      else []) ++ [head ticksPerSec s (.reset now)]

def system (ι : Type) : System ι Accounting Call where
  idle := .idle
  Starts _ k := ∃ r, k = .load r
  step _ := step ticksPerSec

def initial (ι : Type) (boundary : Nat) : Config ι Accounting Call :=
  ⟨⟨boundary, [], []⟩, fun _ => .idle⟩

/-! ### Calls in one piece -/

/-- The owner is the idle task or a migration helper. -/
def Sample.Sentinel : Sample → Prop
  | .delta _ isIdle isMigrationHelper => (isIdle || isMigrationHelper) = true
  | .reset _ => False

instance : DecidablePred Sample.Sentinel
  | .delta .. => inferInstanceAs (Decidable (_ = true))
  | .reset _ => inferInstanceAs (Decidable False)

/-- What a call does. -/
def Accounting.finish (s : Accounting) (r : Sample) : Accounting :=
  let boundary := if r.Sentinel then s.runningAccountedNs else max s.runningAccountedNs r.now
  s.return ticksPerSec r boundary (boundary - s.runningAccountedNs)

variable {ticksPerSec} {s s' : Accounting} {k k' : Call} {r : Sample}

/-- A call that is about to exchange has read a boundary before its timestamp. -/
def Call.Early : Call → Prop
  | .exchange r previous => previous < r.now ∧ ¬ r.Sentinel
  | _ => True

theorem return_finish {boundary : Nat} (hr : ¬ r.Sentinel)
    (hboundary : boundary = max s.runningAccountedNs r.now) {elapsed : Nat}
    (helapsed : elapsed = boundary - s.runningAccountedNs ∨ ∃ now, r = .reset now) :
    s.return ticksPerSec r boundary elapsed = s.finish ticksPerSec r := by
  unfold Accounting.finish
  rw [if_neg hr, ← hboundary]
  rcases helapsed with rfl | ⟨now, rfl⟩ <;> rfl

theorem head_finish (ticksPerSec : Nat) (s : Accounting) (hr : ¬ r.Sentinel) :
    head ticksPerSec s r = (s, .exchange r s.runningAccountedNs) ∧ s.runningAccountedNs < r.now ∨
      head ticksPerSec s r = (s.finish ticksPerSec r, .idle) := by
  have hlate (hle : r.now ≤ s.runningAccountedNs) :
      s.return ticksPerSec r s.runningAccountedNs 0 = s.finish ticksPerSec r :=
    return_finish hr (max_eq_left hle).symm (.inl (Nat.sub_self _).symm)
  unfold head
  cases r with
  | delta now =>
    dsimp only
    split_ifs with heq hlt
    · exact .inr (by rw [hlate heq.le])
    · exact .inr (by rw [hlate hlt.le])
    · exact .inl ⟨rfl, lt_of_le_of_ne (not_lt.mp hlt) (Ne.symm heq)⟩
  | reset now =>
    dsimp only
    split_ifs with hlt
    · exact .inl ⟨rfl, hlt⟩
    · exact .inr (by rw [hlate (not_lt.mp hlt)])

theorem step_finish (hk : k.Early) (hstep : (s', k') ∈ step ticksPerSec s k) :
    k'.Early ∧ (s' = s ∨ ∃ r, s' = s.finish ticksPerSec r) := by
  have hhead {r : Sample} (hr : ¬ r.Sentinel) (h : (s', k') ∈ [head ticksPerSec s r]) :
      k'.Early ∧ (s' = s ∨ ∃ r, s' = s.finish ticksPerSec r) := by
    obtain ⟨heq, hlt⟩ | heq := head_finish ticksPerSec s hr <;>
      rw [heq] at h <;> cases List.mem_singleton.mp h
    · exact ⟨⟨hlt, hr⟩, .inl rfl⟩
    · exact ⟨trivial, .inr ⟨r, rfl⟩⟩
  cases k with
  | idle => cases hstep
  | load r =>
    cases r with
    | delta now isIdle isMigrationHelper =>
      simp only [step] at hstep
      split_ifs at hstep with hsentinel
      · cases List.mem_singleton.mp hstep
        refine ⟨trivial, .inr ⟨.delta now isIdle isMigrationHelper, ?_⟩⟩
        unfold Accounting.finish
        rw [if_pos (by exact hsentinel)]
        exact congrArg _ (Nat.sub_self _).symm
      · exact hhead (r := .delta now isIdle isMigrationHelper) hsentinel hstep
    | reset now => exact hhead (r := .reset now) not_false hstep
  | exchange r previous =>
    obtain ⟨hlt, hr⟩ := hk
    cases r with
    | delta now =>
      simp only [step] at hstep
      split_ifs at hstep with heq
      · cases List.mem_singleton.mp hstep
        subst heq
        exact ⟨trivial, .inr ⟨_, return_finish hr (max_eq_right hlt.le).symm (.inl rfl)⟩⟩
      · exact hhead hr hstep
    | reset now =>
      rcases List.mem_append.mp hstep with hstep | hstep
      · split_ifs at hstep with heq
        · cases List.mem_singleton.mp hstep
          subst heq
          exact ⟨trivial, .inr ⟨_, return_finish hr (max_eq_right hlt.le).symm (.inr ⟨_, rfl⟩)⟩⟩
        · cases hstep
      · exact hhead hr hstep

/-! ### Charges -/

/-- The latest of the initial boundary and the timestamps of calls. -/
def latest (boundary : Nat) (calls : List Sample) : Nat :=
  (calls.map Sample.now).foldr max boundary

def Accounting.charged (s : Accounting) : Nat := (s.charges.map (·.delta.elapsedNs)).sum

/-- The charges lie behind the boundary, one after the other. -/
structure Accounted (b₀ : Nat) (s : Accounting) : Prop where
  boundary_le : s.runningAccountedNs ≤ latest b₀ s.returned
  after : s.charges.Pairwise fun x y => y.stop ≤ x.start
  charge : ∀ x ∈ s.charges, x.delta.elapsedNs = x.stop - x.start ∧ b₀ ≤ x.start ∧
    x.start ≤ x.stop ∧ x.stop ≤ s.runningAccountedNs
  charged_le : b₀ + s.charged ≤ s.runningAccountedNs
  owned : (∀ r ∈ s.returned, ∃ now, r = .delta now false false) →
    b₀ + s.charged = s.runningAccountedNs ∧ s.runningAccountedNs = latest b₀ s.returned

theorem elapsedNs_new (elapsed : Nat) :
    (RuntimeDelta.new elapsed (schedulerPeriodNs ticksPerSec)).elapsedNs = elapsed := by
  have hperiod : schedulerPeriodNs ticksPerSec ≠ 0 := by
    unfold schedulerPeriodNs
    omega
  rw [RuntimeDelta.new, if_neg hperiod]

theorem Accounted.finish {b₀ : Nat} (h : Accounted b₀ s) (ticksPerSec : Nat) (r : Sample) :
    Accounted b₀ (s.finish ticksPerSec r) ∧
      s.runningAccountedNs ≤ (s.finish ticksPerSec r).runningAccountedNs := by
  obtain ⟨hle, hafter, hcharge, hcharged, howned⟩ := h
  have hlatest : latest b₀ (r :: s.returned) = max r.now (latest b₀ s.returned) := rfl
  unfold Accounting.finish
  generalize hboundary : (if r.Sentinel then _ else _) = boundary
  have hup : s.runningAccountedNs ≤ boundary := by
    rw [← hboundary]
    split_ifs
    · exact le_rfl
    · exact le_max_left ..
  have hbound : boundary ≤ latest b₀ (r :: s.returned) := by
    rw [hlatest, ← hboundary]
    split_ifs <;> omega
  have hbehind : ∀ x ∈ s.charges, x.delta.elapsedNs = x.stop - x.start ∧ b₀ ≤ x.start ∧
      x.start ≤ x.stop ∧ x.stop ≤ boundary := fun x hx =>
    (hcharge x hx).imp_right (·.imp_right (·.imp_right hup.trans'))
  refine ⟨?_, hup⟩
  cases r with
  | reset now =>
    refine ⟨hbound, hafter, hbehind, hcharged.trans hup, fun h => ?_⟩
    obtain ⟨_, h⟩ := h _ List.mem_cons_self
    cases h
  | delta now isIdle isMigrationHelper =>
    have hsum (elapsed : Nat) : (s.return ticksPerSec (.delta now isIdle isMigrationHelper) boundary
        elapsed).charged = elapsed + s.charged := by
      simp [Accounting.return, Accounting.charged, elapsedNs_new]
    refine ⟨hbound, List.pairwise_cons.mpr ⟨fun y hy => (hcharge y hy).2.2.2, hafter⟩, ?_, ?_,
      fun h => ?_⟩
    · rintro x (_ | ⟨_, hx⟩)
      · exact ⟨elapsedNs_new _, (Nat.le_add_right ..).trans hcharged, hup, le_rfl⟩
      · exact hbehind x hx
    · rw [hsum]
      show _ ≤ boundary
      omega
    · obtain ⟨heq, hmax⟩ := howned fun r hr => h r (List.mem_cons_of_mem _ hr)
      obtain ⟨_, hr⟩ := h _ List.mem_cons_self
      cases hr
      refine ⟨?_, ?_⟩
      · rw [hsum]
        show _ = boundary
        omega
      · rw [if_neg (by simp [Sample.Sentinel])] at hboundary
        exact hboundary.symm.trans ((max_comm ..).trans (hmax ▸ rfl))

/-! ### Runs -/

variable {ι : Type} [DecidableEq ι] {b₀ : Nat} {c c' : Config ι Accounting Call}

theorem Accounted.run (run : (system ticksPerSec ι).Run c c')
    (h : Accounted b₀ c.shared ∧ ∀ i, (c.calls i).Early) :
    (Accounted b₀ c'.shared ∧ c.shared.runningAccountedNs ≤ c'.shared.runningAccountedNs) ∧
      ∀ i, (c'.calls i).Early := by
  refine run.stable (M := fun s => Accounted b₀ s ∧ c.shared.runningAccountedNs ≤
    s.runningAccountedNs) (P := fun _ => Call.Early) ?_ ?_ ⟨⟨h.1, le_rfl⟩, h.2⟩
  · rintro c' _ - - ⟨r, rfl⟩
    trivial
  · intro i s s' k k' hs hk hstep
    obtain ⟨hk', rfl | ⟨r, rfl⟩⟩ := step_finish hk hstep
    · exact ⟨hs, hk', fun _ => id⟩
    · obtain ⟨haccounted, hup⟩ := hs.1.finish ticksPerSec r
      exact ⟨⟨haccounted, hs.2.trans hup⟩, hk', fun _ => id⟩

/-- **Runtime is charged at most once.**  The charges of the deltas that were returned are disjoint,
and lie between the initial boundary and the latest timestamp; samples of real owners alone charge
all of that time. The boundary never goes back. -/
theorem charged_once (run : (system ticksPerSec ι).Run (initial ι b₀) c) :
    c.shared.charges.Pairwise (fun x y => Disjoint (Set.Ico x.start x.stop)
      (Set.Ico y.start y.stop)) ∧
    (∀ x ∈ c.shared.charges, x.delta.elapsedNs = x.stop - x.start ∧ b₀ ≤ x.start ∧
      x.start ≤ x.stop ∧ x.stop ≤ latest b₀ c.shared.returned) ∧
    c.shared.charged ≤ latest b₀ c.shared.returned - b₀ ∧
    ((∀ r ∈ c.shared.returned, ∃ now, r = .delta now false false) →
      c.shared.charged = latest b₀ c.shared.returned - b₀) ∧
    ∀ {c'}, (system ticksPerSec ι).Run c c' →
      c.shared.runningAccountedNs ≤ c'.shared.runningAccountedNs := by
  have hinitial : Accounted b₀ (initial ι b₀).shared :=
    ⟨le_rfl, .nil, nofun, le_rfl, fun _ => ⟨rfl, rfl⟩⟩
  obtain ⟨⟨h, -⟩, hearly⟩ := Accounted.run run ⟨hinitial, fun _ => trivial⟩
  have hle := h.boundary_le
  refine ⟨h.after.imp fun hxy => ?_, fun x hx => ?_, ?_, fun howned => ?_,
    fun run' => (Accounted.run run' ⟨h, hearly⟩).1.2⟩
  · exact (Set.Ico_disjoint_Ico.mpr (by simp [hxy])).symm
  · obtain ⟨helapsed, hstart, hstop, hb⟩ := h.charge x hx
    exact ⟨helapsed, hstart, hstop, hb.trans hle⟩
  · have := h.charged_le
    omega
  · have := h.owned howned
    omega

def raceCalls : List (Nat × Call) :=
  [(0, .load (.delta 150 false false)), (1, .load (.delta 130 false false))]

/-- The sample that is late charges nothing. -/
theorem charged_once_race : ∃ c : Config Nat Accounting Call,
    (system 100 Nat).Run (initial Nat 100) c ∧ c.shared.charged = 50 ∧
      c.shared.charged ≤ latest 100 c.shared.returned - 100 := by
  have hrun := (System.Run.callingAll (S := system 100 Nat) (c := initial Nat 100) .refl
    (by decide : (raceCalls.map Prod.fst).Nodup) (fun _ _ => rfl)
    (by simp [system, raceCalls])).exec [0, 1, 0, 1]
  exact ⟨_, hrun, by decide, (charged_once hrun).2.2.1⟩

end KernelAx.RunQueue
