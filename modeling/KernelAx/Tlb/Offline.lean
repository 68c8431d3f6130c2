import Mathlib.Tactic.FinCases
import KernelAx.Tlb.Admission
import KernelAx.Tlb.Knowledge

/-!
# Shootdown — Offline CPUs

`complete_offline` reads the lifecycle word, then the mailbox, and swaps the word it has read for
`CPU_OFFLINE`. The word does not tell one drain of a CPU from the next: when another
`complete_offline` takes the CPU offline in between, and it comes online, is given work and starts
to drain again, the swap succeeds on a mailbox that is not empty (`offline_with_work`).

As long as no CPU has two `complete_offline` at once, a CPU that is offline has an empty mailbox
(`offline_drained`): a CPU that drains and has no admissions left stays as it is until that call
commits, since every write to the mailbox that adds work is made with an admission.
-/

namespace KernelAx.Tlb

open Interleaving

variable {ι : Type} {n : Nat}

/-- No CPU is given a second `complete_offline` while one is in progress. -/
def Solo (c : Config ι (Shared n) (Call n)) (k : Call n) : Prop :=
  ∀ cpu, k = .completeOffline cpu → ∀ i, ¬ (c.calls i).completing cpu

def CpuMailbox.Settled (b : CpuMailbox) (x : MaintenanceClass) : Prop :=
  b.completedEpoch x = b.requestedEpoch x

structure Shared.Drained (s : Shared n) (cpu : Fin n) : Prop where
  count : s.count cpu = 0
  reasons : (s.cpus cpu).pendingReasons = 0
  settled : ∀ x, (s.cpus cpu).Settled x

/-- What a `complete_offline` has found. -/
def Call.Closing (s : Shared n) : Call n → Prop
  | .readRequested (.completeOffline w) cpu x =>
    (s.cpus cpu).lifecycle = w ∧ (x = .icache → (s.cpus cpu).Settled .tlb)
  | .readCompleted (.completeOffline w) cpu x requested =>
    (s.cpus cpu).lifecycle = w ∧ (x = .icache → (s.cpus cpu).Settled .tlb) ∧
      requested = (s.cpus cpu).requestedEpoch x
  | .readReasons w cpu => (s.cpus cpu).lifecycle = w ∧ ∀ x, (s.cpus cpu).Settled x
  | .commitState (.completeOffline w) cpu =>
    (s.cpus cpu).lifecycle = w ∧ (∀ x, (s.cpus cpu).Settled x) ∧ (s.cpus cpu).pendingReasons = 0
  | _ => True

/-! ### A closed mailbox -/

/-- A CPU that drains, with no admission left. -/
def Shared.Closed (s : Shared n) (cpu : Fin n) : Prop :=
  cpuState (s.cpus cpu).lifecycle = cpuDraining ∧ s.count cpu = 0

/-- What others can do to a closed mailbox: acknowledge work and take reasons. -/
structure Shared.Rests (s s' : Shared n) (cpu : Fin n) : Prop where
  lifecycle : (s'.cpus cpu).lifecycle = (s.cpus cpu).lifecycle
  requested : (s'.cpus cpu).requestedEpoch = (s.cpus cpu).requestedEpoch
  completed : ∀ x, (s.cpus cpu).Settled x → (s'.cpus cpu).Settled x
  reasons : (s.cpus cpu).pendingReasons = 0 → (s'.cpus cpu).pendingReasons = 0

variable {s s' : Shared n} {j cpu : Fin n} {w : Nat} {k : Call n}

theorem Shared.Rests.of_eq (h : s'.cpus cpu = s.cpus cpu) : s.Rests s' cpu :=
  ⟨by rw [h], by rw [h], fun x hx => by rwa [h], fun hr => by rwa [h]⟩

theorem Shared.Rests.setCpu {b : CpuMailbox} (h : cpu ≠ j) :
    s.Rests (s.setCpu j b) cpu := .of_eq (s.setCpu_of_ne h b)

theorem Shared.Rests.swap (h : cpu ≠ j) : s.Rests (s.swapLifecycle j w) cpu := .setCpu h

theorem Shared.Rests.take (s : Shared n) (cpu j : Fin n) : s.Rests (s.takeReasons j) cpu := by
  have hset : s.Rests (s.setCpu j { s.cpus j with pendingReasons := 0 }) cpu := by
    by_cases hj : cpu = j
    · subst hj
      constructor <;> simp [CpuMailbox.Settled]
    · exact .setCpu hj
  unfold Shared.takeReasons
  split <;> exact ⟨hset.lifecycle, hset.requested, hset.completed, hset.reasons⟩

/-- An acknowledgement of an epoch that was requested leaves a settled class settled. -/
theorem Shared.Rests.acknowledge {x : MaintenanceClass} {epoch : Nat}
    (old : epoch ≤ (s.cpus j).requestedEpoch x) (cpu : Fin n) :
    s.Rests (s.setCpu j ((s.cpus j).acknowledge x epoch)) cpu := by
  by_cases hj : cpu = j
  · subst hj
    refine ⟨by rw [setCpu_self]; rfl, by rw [setCpu_self]; rfl, fun y hy => ?_,
      fun hr => by rw [setCpu_self]; exact hr⟩
    rw [setCpu_self, CpuMailbox.Settled, CpuMailbox.acknowledge_completedEpoch]
    split
    · rename_i hyx
      subst hyx
      exact (max_eq_left (old.trans hy.ge)).trans hy
    · exact hy
  · exact .setCpu hj

theorem Shared.Closed.rests (h : s.Closed cpu) (enough : ∀ cpu, k.held cpu ≤ s.count cpu)
    (ready : k.Ready) (sound : k.Sound s) (other : ¬ k.completing cpu) (access : Access s k s') :
    s.Rests s' cpu := by
  obtain ⟨hstate, hcount⟩ := h
  have hheld : ∀ j, 1 ≤ k.held j → cpu ≠ j := by
    rintro j hj rfl
    exact absurd (hj.trans (enough cpu)) (by omega)
  cases access with
  | none => exact .of_eq rfl
  | publishOnline same =>
    refine .swap ?_
    rintro rfl
    rw [same] at hstate
    exact absurd hstate (by decide)
  | completeOffline same => exact .swap fun hj => other (hj ▸ rfl)
  | close same =>
    refine .swap ?_
    rintro rfl
    rw [same] at hstate
    exact absurd (hstate.symm.trans ready) (by decide)
  | enter same =>
    refine .swap ?_
    rintro rfl
    rw [same] at hstate
    exact absurd (hstate.symm.trans ready.2.1) (by decide)
  | leave held => exact .swap (hheld _ held)
  | reason => exact .setCpu (hheld _ (by simp [Call.held]))
  | allocate => exact .of_eq rfl
  | raise => exact .setCpu (hheld _ (Call.Ready.held_raise ready))
  | post => exact .of_eq (s.setCpu_of_ne (hheld _ (Call.Ready.held_raise ready)) _)
  | take => exact .take s cpu _
  | maintain => exact .of_eq rfl
  | acknowledge => exact .acknowledge (sound.1.requested _) cpu

/-! ### Calls -/

/-- A word that was read as draining with no admission, and is still there. -/
theorem Transition.Ready.closed (h : (Transition.completeOffline w).Ready)
    (same : (s.cpus cpu).lifecycle = w) : s.Closed cpu := by
  subst same
  exact h

/-- What a `complete_offline` has found stays true while the mailbox rests. -/
theorem Call.Closing.keep (hk : k.Closing s) (ready : k.Ready)
    (h : ∀ cpu : Fin n, k.completing cpu → s.Closed cpu → s.Rests s' cpu) : k.Closing s' := by
  cases k with
  | readRequested op cpu x =>
    cases op with
    | publishOnline => trivial
    | completeOffline w =>
      have hrests := h cpu rfl (Transition.Ready.closed ready hk.1)
      exact ⟨hrests.lifecycle.trans hk.1, fun hx => hrests.completed _ (hk.2 hx)⟩
  | readCompleted op cpu x requested =>
    cases op with
    | publishOnline => trivial
    | completeOffline w =>
      have hrests := h cpu rfl (Transition.Ready.closed ready hk.1)
      exact ⟨hrests.lifecycle.trans hk.1, fun hx => hrests.completed _ (hk.2.1 hx),
        hk.2.2.trans (congrFun hrests.requested x).symm⟩
  | readReasons w cpu =>
    have hrests := h cpu rfl (Transition.Ready.closed ready hk.1)
    exact ⟨hrests.lifecycle.trans hk.1, fun x => hrests.completed x (hk.2 x)⟩
  | commitState op cpu =>
    cases op with
    | publishOnline => trivial
    | completeOffline w =>
      have hrests := h cpu rfl (Transition.Ready.closed ready hk.1)
      exact ⟨hrests.lifecycle.trans hk.1, fun x => hrests.completed x (hk.2.1 x),
        hrests.reasons hk.2.2⟩
  | _ => trivial

theorem Call.Closing.of_not (h : ∀ cpu, ¬ k.completing cpu) : k.Closing s := by
  unfold Call.Closing
  split
  · exact absurd rfl (h _)
  · exact absurd rfl (h _)
  · exact absurd rfl (h _)
  · exact absurd rfl (h _)
  · trivial

theorem step_closing {k' : Call n} (sound : s.Sound) (hk : k.Closing s)
    (hstep : (s', k') ∈ step s k) : k'.Closing s' := by
  by_cases hclosing : ∃ cpu, k.completing cpu
  · cases k with
    | completeOffline j =>
      simp only [step] at hstep
      split at hstep
      · split at hstep
        · cases List.mem_singleton.mp hstep
          trivial
        · split at hstep <;> cases List.mem_singleton.mp hstep
          · trivial
          · exact ⟨rfl, by simp⟩
      · cases List.mem_singleton.mp hstep
        trivial
    | readRequested op cpu x =>
      cases op with
      | publishOnline => exact absurd hclosing (by simp [Call.completing])
      | completeOffline w =>
        cases List.mem_singleton.mp hstep
        exact ⟨hk.1, hk.2, rfl⟩
    | readCompleted op cpu x requested =>
      cases op with
      | publishOnline => exact absurd hclosing (by simp [Call.completing])
      | completeOffline w =>
        obtain ⟨hword, htlb, rfl⟩ := hk
        cases List.mem_singleton.mp hstep
        simp only [Transition.next]
        split
        · trivial
        · have hsettled : (s.cpus cpu).Settled x :=
            le_antisymm (sound.completed cpu x) (Nat.le_of_not_lt ‹_›)
          cases x with
          | tlb => exact ⟨hword, fun _ => hsettled⟩
          | icache =>
            refine ⟨hword, fun x => ?_⟩
            cases x with
            | tlb => exact htlb rfl
            | icache => exact hsettled
    | readReasons w cpu =>
      simp only [step] at hstep
      split at hstep <;> cases List.mem_singleton.mp hstep
      · trivial
      · exact ⟨hk.1, hk.2, not_not.mp ‹_›⟩
    | commitState op cpu =>
      refine .of_not fun cpu' => ?_
      cases op <;> simp only [step] at hstep <;> split at hstep <;>
        cases List.mem_singleton.mp hstep <;> exact id
    | _ => exact absurd hclosing (by simp [Call.completing])
  · exact .of_not fun cpu hk' => hclosing ⟨cpu, (step_continues hstep).completing cpu hk'⟩

/-! ### The memory -/

theorem Shared.Drained.rests (h : s.Drained cpu) (rests : s.Rests s' cpu) : s'.Drained cpu where
  count := by rw [Shared.count, rests.lifecycle]; exact h.count
  reasons := rests.reasons h.reasons
  settled x := rests.completed x (h.settled x)

theorem Access.drained (access : Access s k s')
    (h : ∀ cpu, cpuState (s.cpus cpu).lifecycle = cpuOffline → s.Drained cpu)
    (word : ∀ cpu, (s.cpus cpu).lifecycle ≤ usizeMax) (enough : ∀ cpu, k.held cpu ≤ s.count cpu)
    (ready : k.Ready) (sound : k.Sound s) (closing : k.Closing s) (cpu : Fin n)
    (offline : cpuState (s'.cpus cpu).lifecycle = cpuOffline) : s'.Drained cpu := by
  -- what is written with an admission is not written to an offline CPU
  have hheld : cpuState (s.cpus cpu).lifecycle = cpuOffline → ∀ j, 1 ≤ k.held j → cpu ≠ j := by
    rintro hoff j hj rfl
    have hcount := (h cpu hoff).count
    exact absurd (hj.trans (enough cpu)) (by omega)
  have hwrite : ∀ {j : Fin n} {b : CpuMailbox}, b.lifecycle = (s.cpus j).lifecycle →
      1 ≤ k.held j → cpuState ((s.setCpu j b).cpus cpu).lifecycle = cpuOffline →
      (s.setCpu j b).Drained cpu := by
    intro j b hb hj hoff
    have hframe := s.setCpu_frame (·.lifecycle) hb cpu
    rw [hframe] at hoff
    exact (h cpu hoff).rests (.setCpu (hheld hoff j hj))
  have hswap : ∀ {j : Fin n} {w : Nat}, (cpu = j → cpuState w ≠ cpuOffline) →
      cpuState ((s.swapLifecycle j w).cpus cpu).lifecycle = cpuOffline →
      (s.swapLifecycle j w).Drained cpu := by
    intro j w hstate hoff
    have hj : cpu ≠ j := by
      rintro rfl
      rw [Shared.swapLifecycle, Shared.setCpu_self] at hoff
      exact hstate rfl hoff
    have hsame : cpuState (s.cpus cpu).lifecycle = cpuOffline := by
      rwa [Shared.swapLifecycle, Shared.setCpu_of_ne s hj] at hoff
    exact (h cpu hsame).rests (.swap hj)
  cases access with
  | none => exact h cpu offline
  | publishOnline => exact hswap (fun _ => by decide) offline
  | completeOffline same =>
    rename_i j w
    by_cases hj : cpu = j
    · subst hj
      obtain ⟨-, hsettled, hreasons⟩ := closing
      constructor
      · simp [Shared.count, Shared.swapLifecycle, cpuOffline, admissions]
      · simpa [Shared.swapLifecycle] using hreasons
      · simpa [Shared.swapLifecycle, CpuMailbox.Settled] using hsettled
    · exact hswap (fun h => absurd h hj) offline
  | close same =>
    refine hswap (fun _ => ?_) offline
    unfold cpuState cpuDraining cpuOffline
    omega
  | enter same =>
    refine hswap (fun _ => ?_) offline
    rw [cpuState_tryAdmit, ready.2.1]
    decide
  | leave held =>
    rename_i j
    by_cases hoff : cpuState (s.cpus j).lifecycle = cpuOffline
    · by_cases hj : cpu = j
      · subst hj
        exact absurd rfl (hheld hoff cpu held)
      · exact hswap (fun h => absurd h hj) offline
    · refine hswap (fun _ => ?_) offline
      rwa [cpuState_release (word j) (held.trans (enough j))]
  | reason => exact hwrite rfl (by simp [Call.held]) offline
  | allocate => exact (h cpu offline).rests (.of_eq rfl)
  | raise => exact hwrite rfl (Call.Ready.held_raise ready) offline
  | post =>
    have hdrained := hwrite (b := (s.cpus _).post cpuMaintenanceReason) rfl
      (Call.Ready.held_raise ready) offline
    exact hdrained.rests (.of_eq rfl)
  | take =>
    have hrests := Shared.Rests.take s cpu
    exact (h cpu ((hrests _).lifecycle ▸ offline)).rests (hrests _)
  | maintain => exact (h cpu offline).rests (.of_eq rfl)
  | acknowledge =>
    rename_i v m x rest
    have hrests := Shared.Rests.acknowledge (sound.1.requested x) cpu
    exact (h cpu (hrests.lifecycle ▸ offline)).rests hrests

/-! ### Runs -/

/-- A CPU that is offline has nothing left to do. -/
structure Offline (c : Config ι (Shared n) (Call n)) : Prop where
  drained : ∀ cpu, cpuState (c.shared.cpus cpu).lifecycle = cpuOffline → c.shared.Drained cpu
  closing : ∀ i, (c.calls i).Closing c.shared
  single : ∀ cpu i j, (c.calls i).completing cpu → (c.calls j).completing cpu → i = j

theorem Call.Entry.completing {c : Config ι (Shared n) (Call n)} (h : k.Entry c) {cpu : Nat}
    (hk : k.completing cpu) : k = .completeOffline cpu := by
  cases k with
  | completeOffline j => exact congrArg _ hk
  | readRequested | readCompleted | readReasons | commitState => cases h
  | _ => cases hk

theorem Call.Entry.closing {c : Config ι (Shared n) (Call n)} (h : k.Entry c) :
    k.Closing c.shared := by
  cases k with
  | readRequested | readCompleted | readReasons | commitState => cases h
  | _ => trivial

theorem offline_initial : Offline (initial ι n) where
  drained _ _ := ⟨Nat.zero_div 4, rfl, fun _ => rfl⟩
  closing _ := trivial
  single _ _ _ h := absurd h id

variable [DecidableEq ι] {Allowed : Config ι (Shared n) (Call n) → Call n → Prop}

theorem Offline.next {i : ι} {c c' : Config ι (Shared n) (Call n)}
    (solo : ∀ c k, Allowed c k → Solo c k)
    (run : (system ι n Allowed).Run (initial ι n) c) (hnext : (system ι n Allowed).Next i c c')
    (h : Offline c) : Offline c' := by
  have hcounted := run_counted run
  obtain ⟨hsound, hcalls⟩ := run_sound run
  cases hnext with
  | call idle starts =>
    rename_i k
    obtain ⟨hentry, hallowed⟩ := starts
    -- a call that is past its first access is not the new one
    have hfresh : ∀ cpu j, j ≠ i → (c.calls j).completing cpu → ¬ k.completing cpu :=
      fun cpu j _ hj hk => solo c k hallowed cpu (hentry.completing hk) j hj
    refine ⟨h.drained, fun j => ?_, fun cpu j₁ j₂ h₁ h₂ => ?_⟩
    · by_cases hj : j = i
      · subst hj
        simpa using hentry.closing
      · simpa [hj] using h.closing j
    · by_cases hj₁ : j₁ = i <;> by_cases hj₂ : j₂ = i
      · exact hj₁.trans hj₂.symm
      · subst hj₁
        simp only [Function.update_self, Function.update_of_ne hj₂] at h₁ h₂
        exact absurd h₁ (hfresh cpu j₂ hj₂ h₂)
      · subst hj₂
        simp only [Function.update_self, Function.update_of_ne hj₁] at h₁ h₂
        exact absurd h₂ (hfresh cpu j₁ hj₁ h₁)
      · simp only [Function.update_of_ne hj₁, Function.update_of_ne hj₂] at h₁ h₂
        exact h.single cpu j₁ j₂ h₁ h₂
  | act hstep =>
    rename_i s k
    have haccess := step_access hstep
    have henough := fun cpu => (hcounted.tally cpu).le i
    have hback : ∀ cpu j, (Function.update c.calls i k j).completing cpu →
        (c.calls j).completing cpu := by
      intro cpu j hj
      by_cases hji : j = i
      · subst hji
        rw [Function.update_self] at hj
        exact (step_continues hstep).completing _ hj
      · rwa [Function.update_of_ne hji] at hj
    refine ⟨haccess.drained h.drained hcounted.word henough (hcounted.ready i) (hcalls i)
      (h.closing i), fun j => ?_, fun cpu j₁ j₂ h₁ h₂ =>
        h.single cpu j₁ j₂ (hback cpu j₁ h₁) (hback cpu j₂ h₂)⟩
    by_cases hji : j = i
    · subst hji
      simpa using step_closing hsound (h.closing j) hstep
    · have hkeep := (h.closing j).keep (hcounted.ready j) fun cpu hj hclosed =>
        hclosed.rests henough (hcounted.ready i) (hcalls i)
          (fun hi => hji (h.single cpu j i hj hi)) haccess
      simpa [hji] using hkeep

/-- **The count of a CPU is what the calls hold there, and an offline CPU is drained** when no CPU
has two `complete_offline` at once: it has no admission, no pending reason and no epoch left to
serve. So a request that is still held has been served by all of its targets that are offline. -/
theorem offline_drained {c : Config ι (Shared n) (Call n)}
    (run : (system ι n Allowed).Run (initial ι n) c) :
    (∀ cpu, Tally (fun i => (c.calls i).held cpu) (admissions (c.shared.cpus cpu).lifecycle)) ∧
    ((∀ c k, Allowed c k → Solo c k) →
      ∀ cpu, cpuState (c.shared.cpus cpu).lifecycle = cpuOffline →
        (∀ i, (c.calls i).held cpu = 0) ∧ (c.shared.cpus cpu).pendingReasons = 0 ∧
        (∀ x, (c.shared.cpus cpu).requestedEpoch x = (c.shared.cpus cpu).completedEpoch x) ∧
        ∀ i r, (c.calls i).owns r → r.targets cpu = true → ∀ x, r.maintenance.needs x = true →
          r.epoch ≤ (c.shared.cpus cpu).completedEpoch x) := by
  have hcounted := run_counted run
  refine ⟨hcounted.tally, fun solo cpu hoff => ?_⟩
  have hoffline := run.reached (Offline.next solo) offline_initial
  obtain ⟨hcount, hreasons, hsettled⟩ := hoffline.drained cpu hoff
  refine ⟨fun i => ?_, hreasons, fun x => (hsettled x).symm, fun i r howns htarget x hx => ?_⟩
  · exact Nat.le_zero.mp (hcount ▸ (hcounted.tally cpu).le i)
  · have hreached := (((run_sound run).2 i).request howns).reached cpu htarget
    exact (hreached.requested x hx).trans (hsettled x).ge

/-! ### Two drains at once -/

abbrev drainCalls : List (Fin 8 × Call 2) :=
  [(0, .publishOnline 0), (1, .publishOnline 1), (2, .beginOffline 0), (3, .completeOffline 0),
    (4, .completeOffline 0), (5, .publishOnline 0), (6, .issue 1 .tlb none), (7, .beginOffline 0)]

theorem drainCalls_run (order : List (Fin 8)) : (system (Fin 8) 2 fun _ _ => True).Run
    (initial (Fin 8) 2)
    ((system (Fin 8) 2 fun _ _ => True).exec ((initial (Fin 8) 2).callingAll drainCalls)
      order) := by
  refine System.Run.exec (System.Run.callingAll .refl (by decide) (fun _ _ => rfl) ?_) order
  simp [system, Call.Entry]

/-- Call 3 reads an empty mailbox; call 4 takes CPU 0 offline, it comes online, is given work by
CPU 1 and starts to drain; then call 3 takes it offline. -/
abbrev twoDrains : Config (Fin 8) (Shared 2) (Call 2) :=
  (system (Fin 8) 2 fun _ _ => True).exec ((initial (Fin 8) 2).callingAll drainCalls)
    (List.replicate 6 0 ++ List.replicate 6 1 ++ List.replicate 2 2 ++ List.replicate 6 3 ++
      List.replicate 7 4 ++ List.replicate 6 5 ++ List.replicate 13 6 ++ List.replicate 2 7 ++ [3])

theorem offline_with_work : (system (Fin 8) 2 fun _ _ => True).Run (initial (Fin 8) 2) twoDrains ∧
    cpuState (twoDrains.shared.cpus 0).lifecycle = cpuOffline ∧
    (twoDrains.shared.cpus 0).pendingReasons ≠ 0 ∧
    ∃ r, twoDrains.calls 6 = .holding r ∧ r.targets 0 = true ∧ r.maintenance.needs .tlb = true ∧
      (twoDrains.shared.cpus 0).completedEpoch .tlb < r.epoch :=
  ⟨drainCalls_run _, by decide +kernel, by decide +kernel, _, rfl, rfl, rfl, by decide +kernel⟩

/-- CPU 1 issues to CPU 0, which starts to drain while the issue is admitted to it, serves what it
was given and goes offline. -/
abbrev drainedIssue : Config (Fin 8) (Shared 2) (Call 2) :=
  (system (Fin 8) 2 Solo).exec (((initial (Fin 8) 2).callingAll
    [(0, .publishOnline 0), (1, .publishOnline 1), (2, .issue 1 .tlb none), (3, .beginOffline 0),
      (4, .take 0 true)]).calling 5 (.completeOffline 0))
    (List.replicate 6 0 ++ List.replicate 6 1 ++ List.replicate 8 2 ++ List.replicate 2 3 ++
      List.replicate 5 2 ++ List.replicate 9 4 ++ List.replicate 7 5)

theorem drainedIssue_run : (system (Fin 8) 2 Solo).Run (initial (Fin 8) 2) drainedIssue := by
  refine System.Run.exec (System.Run.calling
    (System.Run.callingAll .refl (by decide) (fun _ _ => rfl) ?_) rfl ?_) _
  · simp [system, Call.Entry, Solo]
  · refine ⟨trivial, fun cpu _ i hi => ?_⟩
    fin_cases i <;> exact hi

theorem offline_drained_served : cpuState (drainedIssue.shared.cpus 0).lifecycle = cpuOffline ∧
    (drainedIssue.shared.cpus 0).pendingReasons = 0 ∧
    ∃ r, drainedIssue.calls 2 = .holding r ∧ r.targets 0 = true ∧
      r.epoch ≤ (drainedIssue.shared.cpus 0).completedEpoch .tlb := by
  have hoff : cpuState (drainedIssue.shared.cpus 0).lifecycle = cpuOffline := by decide +kernel
  obtain ⟨r, hr, htarget, hneeds⟩ : ∃ r, drainedIssue.calls 2 = .holding r ∧
    r.targets 0 = true ∧ r.maintenance.needs .tlb = true := ⟨_, rfl, rfl, rfl⟩
  obtain ⟨-, hreasons, -, hserved⟩ :=
    (offline_drained drainedIssue_run).2 (fun _ _ h => h) 0 hoff
  exact ⟨hoff, hreasons, r, hr, htarget, hserved 2 r (hr ▸ rfl) htarget .tlb hneeds⟩

/-! ### The lifecycle of a CPU -/

/-- **The lifecycle of a CPU.** In every interleaving of all operations its word makes these moves
only, and while the CPU is not online nobody is admitted to it any more. -/
theorem lifecycle_moves {c : Config ι (Shared n) (Call n)}
    (run : (system ι n Allowed).Run (initial ι n) c) (cpu : Fin n) :
    (∀ i c', (system ι n Allowed).Next i c c' →
      LifecycleMove (c.shared.cpus cpu).lifecycle (c'.shared.cpus cpu).lifecycle) ∧
    ∀ c', (system ι n Allowed).RunWhile
      (fun c => cpuState (c.shared.cpus cpu).lifecycle ≠ cpuOnline) c c' →
      c'.shared.count cpu ≤ c.shared.count cpu := by
  have hcounted := run_counted run
  refine ⟨fun i c' hnext => hcounted.lifecycle hnext cpu, fun c' tail => ?_⟩
  refine (tail.invariant (Q := fun d => Counted d ∧ d.shared.count cpu ≤ c.shared.count cpu)
    (fun closed hnext h => ?_) ⟨hcounted, le_rfl⟩).2
  exact ⟨h.1.next hnext, ((h.1.lifecycle hnext cpu).admissions_le closed).trans h.2⟩

/-- CPU 0 starts to drain while an issue of CPU 1 is admitted to it. -/
abbrev draining : Config (Fin 8) (Shared 2) (Call 2) :=
  (system (Fin 8) 2 fun _ _ => True).exec ((initial (Fin 8) 2).callingAll drainCalls)
    (List.replicate 6 0 ++ List.replicate 6 1 ++ List.replicate 8 6 ++ List.replicate 2 2)

theorem lifecycle_moves_draining : draining.shared.count 0 = 1 ∧
    ∀ c', (system (Fin 8) 2 fun _ _ => True).RunWhile
      (fun c => cpuState (c.shared.cpus 0).lifecycle ≠ cpuOnline) draining c' →
      c'.shared.count 0 ≤ draining.shared.count 0 :=
  ⟨by decide +kernel, (lifecycle_moves (drainCalls_run _) 0).2⟩

end KernelAx.Tlb
