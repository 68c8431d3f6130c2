import KernelAx.Tlb.Admission
import KernelAx.Tlb.Grace

/-!
# Shootdown — Targeted issues

An issue for a set of CPUs gathers an admission of every target before it takes an epoch, and gives
all of them back when one is refused.
-/

namespace KernelAx.Tlb

open Interleaving

variable {ι : Type} {n : Nat} {m : CpuMaintenance} {set : Fin n → Bool} {s s' : Shared n}
  {k k' : Call n}

structure Shared.OnlyAdmits (s s' : Shared n) : Prop where
  nextEpoch : s'.nextEpoch = s.nextEpoch
  mailbox : ∀ cpu, { s'.cpus cpu with lifecycle := (s.cpus cpu).lifecycle } = s.cpus cpu

theorem Shared.OnlyAdmits.refl (s : Shared n) : s.OnlyAdmits s := ⟨rfl, fun _ => rfl⟩

theorem Shared.OnlyAdmits.swap (s : Shared n) (cpu : Fin n) (w : Nat) :
    s.OnlyAdmits (s.swapLifecycle cpu w) :=
  ⟨rfl, s.setCpu_forall (P := fun j b => { b with lifecycle := (s.cpus j).lifecycle } = s.cpus j)
    rfl fun _ _ => rfl⟩

/-! ### The two halves of an issue -/

def Issue.Asks (m : CpuMaintenance) (set : Fin n → Bool) (i : Issue n) : Prop :=
  i.maintenance = m ∧ i.only = some set

def Admitting.Gathers (m : CpuMaintenance) (set : Fin n → Bool) : Admitting n → Prop
  | .issuer i | .gather i => i.Asks m set
  | .reason _ | .target _ => False

/-- The points of an issue for `set` that has no epoch. -/
def Call.Gathers (m : CpuMaintenance) (set : Fin n → Bool) : Call n → Prop
  | .issue _ m' only => m' = m ∧ only = some set
  | .tryAdmit a _ | .swapAdmission a _ _ => a.Gathers m set
  | .gather i _ | .loadEpoch i | .allocate i _ | .unwind i _ _ _ => i.Asks m set
  | .returned (.refused _) => True
  | _ => False

/-- The points of an issue for `set` that has its epoch, and the request that it returns. -/
def Call.Publishes (m : CpuMaintenance) (set : Fin n → Bool) : Call n → Prop
  | .publish p _ | .raise p _ _ | .settle p _ => p.Asks m set ∧ p.targets = set
  | .holding r => r.maintenance = m ∧ r.targets = set
  | _ => False

/-- The issue has an admission of the target and has not posted its reason. -/
def Call.Targets (cpu : Fin n) : Call n → Prop
  | .tryAdmit (.gather i) j | .swapAdmission (.gather i) j _ => i.wants cpu = true ∧ cpu < j
  | .gather i k => i.wants cpu = true ∧ cpu < k
  | .loadEpoch i | .allocate i _ => i.wants cpu = true
  | .publish p k => p.wants cpu = true ∧ k ≤ cpu
  | .raise p j _ => p.wants cpu = true ∧ j ≤ cpu
  | _ => False

theorem Call.Targets.held {cpu : Fin n} (h : k.Targets cpu) : 1 ≤ k.held cpu := by
  cases k with
  | tryAdmit a _ | swapAdmission a _ _ =>
    cases a with
    | gather i => simp [Call.held, Admitting.held, h.1, h.2]
    | _ => cases h
  | gather i k => simp [Call.held, h.1, h.2]
  | loadEpoch i | allocate i _ => simp [Call.held, show i.wants cpu = true from h]
  | publish p k => simp [Call.held, h.1]
  | raise p j rest =>
    obtain ⟨only, honly⟩ := Issue.only_of_wants h.1
    simp [Call.held, honly, h.1]
  | _ => cases h

/-! ### Steps -/

theorem Admitting.Gathers.retry {a : Admitting n} (h : a.Gathers m set) (j : Fin n) (w : Nat) :
    (a.retry j w).Gathers m set := by
  unfold Admitting.retry
  split
  · rename_i e _
    cases a <;> cases e <;> first | exact h | trivial
  · exact h

theorem step_gathers (running : k.inIssue = true) (h : k.Gathers m set)
    (hstep : (s', k') ∈ step s k) :
    (k'.Gathers m set ∧ s.OnlyAdmits s') ∨ k'.Publishes m set := by
  cases k with
  | issue j m' only =>
    obtain ⟨rfl, rfl⟩ := h
    simp only [step] at hstep
    repeat' split at hstep
    all_goals
      cases List.mem_singleton.mp hstep
      first | exact .inl ⟨trivial, .refl s⟩ | exact .inl ⟨⟨rfl, rfl⟩, .refl s⟩
  | tryAdmit a j =>
    cases List.mem_singleton.mp hstep
    exact .inl ⟨h.retry j _, .refl s⟩
  | swapAdmission a j w =>
    obtain ⟨-, ⟨⟩⟩ | ⟨⟨⟩⟩ := mem_weakSwap hstep
    · refine .inl ⟨?_, .swap s j _⟩
      cases a with
      | issuer i =>
        have hasks : i.Asks m set := h
        simp only [Admitting.admitted, hasks.2]
        exact hasks
      | gather i => exact h
      | reason _ | target _ => cases h
    · exact .inl ⟨h.retry j _, .refl s⟩
  | gather i k =>
    simp only [step] at hstep
    repeat' split at hstep
    all_goals cases List.mem_singleton.mp hstep; exact .inl ⟨h, .refl s⟩
  | loadEpoch i =>
    cases List.mem_singleton.mp hstep
    unfold Issue.allocateRetry
    split <;> exact .inl ⟨h, .refl s⟩
  | allocate i epoch =>
    obtain ⟨-, ⟨⟩⟩ | ⟨⟨⟩⟩ := mem_weakSwap hstep
    · have hasks : (i.issuing (epoch + 1)).Asks m set := h
      simp only [Issuing.start, hasks.2]
      exact .inr ⟨hasks, by simp [Issue.issuing, show i.only = some set from h.2]⟩
    · unfold Issue.allocateRetry
      split <;> exact .inl ⟨h, .refl s⟩
  | unwind i stop k e =>
    simp only [step] at hstep
    repeat' split at hstep
    all_goals cases List.mem_singleton.mp hstep
    · exact .inl ⟨h, .swap s _ _⟩
    · exact .inl ⟨h, .refl s⟩
    · exact .inl ⟨trivial, .swap s _ _⟩
  | returned => cases running
  | _ => cases h

theorem step_publishes (running : k.inIssue = true) (h : k.Publishes m set)
    (hstep : (s', k') ∈ step s k) : k'.Publishes m set := by
  cases k with
  | publish p k =>
    simp only [step] at hstep
    repeat' split at hstep
    all_goals cases List.mem_singleton.mp hstep; exact h
  | raise p j rest =>
    cases rest <;> cases List.mem_singleton.mp hstep
    · have honly : p.only = some set := h.1.2
      simp only [Issuing.posted, honly]
      exact h
    · exact h
  | settle p k =>
    simp only [step] at hstep
    repeat' split at hstep
    all_goals cases List.mem_singleton.mp hstep
    · exact h
    · exact h
    · exact ⟨h.1.1, h.2⟩
  | holding => cases running
  | _ => cases h

/-- No access takes a CPU offline with an admission on it, or gives one on an offline CPU. -/
theorem Access.unadmitted (access : Access s k s')
    (h : ∀ cpu, cpuState (s.cpus cpu).lifecycle = cpuOffline → s.count cpu = 0)
    (word : ∀ cpu, (s.cpus cpu).lifecycle ≤ usizeMax) (enough : ∀ cpu, k.held cpu ≤ s.count cpu)
    (ready : k.Ready) :
    ∀ cpu, cpuState (s'.cpus cpu).lifecycle = cpuOffline → s'.count cpu = 0 := by
  have hswap : ∀ {j : Fin n} {w : Nat}, (cpuState w = cpuOffline → admissions w = 0) →
      ∀ cpu, cpuState ((s.swapLifecycle j w).cpus cpu).lifecycle = cpuOffline →
        (s.swapLifecycle j w).count cpu = 0 := fun hw =>
    s.setCpu_forall (P := fun _ b => cpuState b.lifecycle = cpuOffline →
      admissions b.lifecycle = 0) hw fun cpu _ => h cpu
  have hkeep : (∀ cpu, (s'.cpus cpu).lifecycle = (s.cpus cpu).lifecycle) →
      ∀ cpu, cpuState (s'.cpus cpu).lifecycle = cpuOffline → s'.count cpu = 0 := by
    intro hsame cpu
    rw [Shared.count, hsame]
    exact h cpu
  cases access with
  | none | allocate | maintain => exact h
  | publishOnline => exact hswap (fun hoff => absurd hoff (by decide))
  | completeOffline => exact hswap fun _ => rfl
  | close same =>
    refine hswap fun hoff => ?_
    unfold cpuState cpuDraining cpuOffline at hoff
    omega
  | enter same =>
    refine hswap fun hoff => ?_
    rw [cpuState_tryAdmit, ready.2.1] at hoff
    exact absurd hoff (by decide)
  | leave held =>
    rename_i j
    have hpos : 1 ≤ s.count j := held.trans (enough j)
    refine hswap fun hoff => ?_
    rw [cpuState_release (word j) hpos] at hoff
    exact absurd (h j hoff) (by omega)
  | reason | raise | post | acknowledge =>
    refine hkeep (s.setCpu_frame (·.lifecycle) ?_)
    rfl
  | take => exact hkeep (s.takeReasons_lifecycle _)

/-! ### Runs -/

section Runs

variable [DecidableEq ι] {Allowed : Config ι (Shared n) (Call n) → Call n → Prop}

theorem run_unadmitted {c : Config ι (Shared n) (Call n)}
    (run : (system ι n Allowed).Run (initial ι n) c) (cpu : Fin n) :
    cpuState (c.shared.cpus cpu).lifecycle = cpuOffline → c.shared.count cpu = 0 := by
  refine run.reached (P := fun c => ∀ cpu, cpuState (c.shared.cpus cpu).lifecycle = cpuOffline →
    c.shared.count cpu = 0) (fun hrun hnext h => ?_) (fun _ _ => Nat.zero_div 4) cpu
  rcases hnext.self with ⟨-, hshared, -⟩ | hstep
  · rwa [hshared]
  · have hcounted := run_counted hrun
    exact (step_access hstep).unadmitted h hcounted.word (fun cpu => (hcounted.tally cpu).le _)
      (hcounted.ready _)

abbrev Issues (Allowed : Config ι (Shared n) (Call n) → Call n → Prop) (i : ι) :=
  (system ι n Allowed).RunWhile fun c => (c.calls i).inIssue

/-- **A targeted shootdown is all or nothing**, whatever calls interleave. An issue that is refused
has written nothing but admissions, and holds none. One that returns a request has published to
exactly the CPUs of the set. No CPU is offline while the issue has an admission of it and has not
posted its reason. -/
theorem targeted_all_or_nothing {c c' : Config ι (Shared n) (Call n)} {i : ι} {issuer : Nat}
    (run : (system ι n Allowed).Run (initial ι n) c)
    (hissue : c.calls i = .issue issuer m (some set)) (issues : Issues Allowed i c c') :
    (∀ e, c'.calls i = .returned (.refused e) →
      (∀ c₁ c₂, Issues Allowed i c c₁ → (c₁.calls i).inIssue →
        (system ι n Allowed).Next i c₁ c₂ → Issues Allowed i c₂ c' →
        c₁.shared.OnlyAdmits c₂.shared) ∧
      ∀ cpu, (c'.calls i).held cpu = 0 ∧
        Tally (fun j => (c'.calls j).held cpu) (c'.shared.count cpu)) ∧
    (∀ r, c'.calls i = .holding r → r.targets = set ∧ r.maintenance = m ∧
      ∀ cpu, set cpu = true → Reached c'.shared r.epoch m (r.kicks cpu) cpu) ∧
    ∀ cpu, (c'.calls i).Targets cpu → cpuState (c'.shared.cpus cpu).lifecycle ≠ cpuOffline := by
  have hrun' : (system ι n Allowed).Run (initial ι n) c' :=
    run.trans (issues.lift id fun _ _ h => h.2)
  have hpoint : ∀ {c₁}, Issues Allowed i c c₁ →
      (c₁.calls i).Gathers m set ∨ (c₁.calls i).Publishes m set := by
    intro c₁ hwhile
    refine hwhile.point (Q := fun k => k.Gathers m set ∨ k.Publishes m set)
      (fun _ => Call.ne_idle_of_inIssue) (fun running h hstep => ?_) ?_
    · rcases h with h | h
      · exact (step_gathers running h hstep).imp_left And.left
      · exact .inr (step_publishes running h hstep)
    · rw [hissue]
      exact .inl ⟨rfl, rfl⟩
  refine ⟨fun e he => ⟨fun c₁ c₂ hbefore running hnext hafter => ?_, fun cpu => ?_⟩,
    fun r hr => ?_, fun cpu htargets hoff => ?_⟩
  · -- an issue that has its epoch is not refused
    have hnot : ¬ (c₂.calls i).Publishes m set := by
      intro h
      have hc' := hafter.point (Q := Call.Publishes m set) (fun _ => Call.ne_idle_of_inIssue)
        step_publishes h
      rw [he] at hc'
      exact hc'
    rcases hnext.self with ⟨idle, -⟩ | hstep
    · exact absurd idle (Call.ne_idle_of_inIssue running)
    · rcases hpoint hbefore with h | h
      · exact ((step_gathers running h hstep).resolve_right hnot).2
      · exact absurd (step_publishes running h hstep) hnot
  · exact ⟨by rw [he]; rfl, (run_counted hrun').tally cpu⟩
  · have hrequest := hpoint issues
    rw [hr] at hrequest
    obtain ⟨rfl, rfl⟩ := hrequest.resolve_left id
    exact ⟨rfl, rfl, (((run_sound hrun').2 i).request (hr ▸ rfl)).reached⟩
  · have hheld := htargets.held.trans (((run_counted hrun').tally cpu).le i)
    exact absurd (run_unadmitted hrun' cpu hoff) (by omega)

end Runs

/-- Three CPUs come online, and CPU 0 issues to the other two. -/
abbrev targetedExec (order : List Nat) : Config Nat (Shared 3) (Call 3) :=
  (system Nat 3 fun _ _ => True).exec ((initial Nat 3).callingAll
    [(0, .publishOnline 0), (1, .publishOnline 1), (2, .publishOnline 2),
      (3, .issue 0 .tlb (some (·.val ≠ 0)))]) order

abbrev targetedOnline :=
  targetedExec (List.replicate 6 0 ++ List.replicate 6 1 ++ List.replicate 6 2)

abbrev targetedDone :=
  (system Nat 3 fun _ _ => True).exec targetedOnline (List.replicate 25 3)

theorem targeted_all_or_nothing_two : ∃ r, targetedDone.calls 3 = .holding r ∧
    Reached targetedDone.shared r.epoch .tlb (r.kicks 1) 1 ∧
    Reached targetedDone.shared r.epoch .tlb (r.kicks 2) 2 := by
  obtain ⟨r, hr⟩ : ∃ r, targetedDone.calls 3 = .holding r := ⟨_, rfl⟩
  have hrun : (system Nat 3 fun _ _ => True).Run (initial Nat 3) targetedOnline := by
    refine System.Run.exec (System.Run.callingAll .refl (by decide) (fun _ _ => rfl) ?_) _
    simp [system, Call.Entry]
  have hissues : Issues (fun _ _ => True) 3 targetedOnline targetedDone :=
    System.runWhile_exec _ _ _ (by decide +kernel)
  have hreached := ((targeted_all_or_nothing hrun rfl hissues).2.1 r hr).2.2
  exact ⟨r, hr, hreached 1 rfl, hreached 2 rfl⟩

end KernelAx.Tlb
