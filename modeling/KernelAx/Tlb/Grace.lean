import KernelAx.Tlb.Knowledge

/-!
# Shootdown — Grace

A grace is given only after every target ran its local maintenance since the epoch of the request
was allocated. Epochs are published out of order and coalesced, and a service of one request may
justify the grace of another; what carries the result is that an epoch is acknowledged only up to a
requested one, and that all epochs up to a requested one were allocated before it was read.
-/

namespace KernelAx.Tlb

open Interleaving

variable {ι : Type} {n : Nat}

/-! ### Whom an issue reaches -/

def Shared.Online (s : Shared n) (cpu : Fin n) : Prop := cpuState (s.cpus cpu).lifecycle = cpuOnline

instance (s : Shared n) (cpu : Fin n) : Decidable (s.Online cpu) :=
  inferInstanceAs (Decidable (_ = _))

def Call.inIssue : Call n → Bool
  | .tryAdmit (.reason _) _ | .swapAdmission (.reason _) _ _ => false
  | .issue _ _ _ | .tryAdmit _ _ | .swapAdmission _ _ _ | .gather _ _ | .loadEpoch _ | .allocate _ _
  | .visit _ _ | .publish _ _ | .raise _ _ _ | .leave _ _ | .settle _ _ | .unwind _ _ _ _ => true
  | _ => false

theorem Call.ne_idle_of_inIssue {k : Call n} (h : k.inIssue = true) : k ≠ .idle := by
  rintro rfl
  cases h

/-- An issue to all online CPUs, by `issuer`. -/
def Issue.ToAll (i : Issue n) (issuer : Nat) : Prop := i.issuer = issuer ∧ i.only = none

def Admitting.Reaches (issuer : Nat) (cpu j : Fin n) : Admitting n → Prop
  | .issuer i => i.ToAll issuer
  | .target p => p.ToAll issuer ∧ (cpu < j → p.targets cpu = true)
  | .reason _ | .gather _ => False

/-- The points of such an issue: `cpu` is a target once the loop is past it. -/
def Call.Reaches (issuer : Nat) (cpu : Fin n) : Call n → Prop
  | .issue j _ only => j = issuer ∧ only = none
  | .tryAdmit a j | .swapAdmission a j _ => a.Reaches issuer cpu j
  | .loadEpoch i | .allocate i _ => i.ToAll issuer
  | .visit p k => p.ToAll issuer ∧ (cpu < k → p.targets cpu = true)
  | .raise p j _ => p.ToAll issuer ∧ (cpu < j → p.targets cpu = true)
  | .leave p j => p.ToAll issuer ∧ (cpu ≤ j → p.targets cpu = true)
  | .holding r => r.targets cpu = true
  | .unwind _ _ _ _ | .returned _ => True
  | _ => False

theorem Admitting.retry_reaches {s : Shared n} {issuer : Nat} {cpu j : Fin n} {a : Admitting n}
    (online : s.Online cpu) (h : a.Reaches issuer cpu j) :
    (a.retry j (s.cpus j).lifecycle).Reaches issuer cpu := by
  unfold Admitting.retry
  split
  · rename_i e herror
    cases a with
    | issuer i => cases e <;> trivial
    | target p =>
      cases e with
      | exhausted => trivial
      | unavailable =>
        -- an online CPU is not passed over
        refine ⟨h.1, fun hlt => h.2 (lt_of_le_of_ne (Nat.lt_succ_iff.mp hlt) fun heq => ?_)⟩
        subst heq
        have hstate : cpuState (s.cpus cpu).lifecycle = cpuOnline := online
        simp only [tryAdmit, hstate, ne_eq, not_true_eq_false, if_false] at herror
        split at herror <;> cases herror
    | reason _ | gather _ => cases h
  · exact h

theorem step_reaches {s s' : Shared n} {k k' : Call n} {issuer : Nat} {cpu : Fin n}
    (online : s.Online cpu) (hne : (cpu : Nat) ≠ issuer) (running : k.inIssue)
    (h : k.Reaches issuer cpu) (hstep : (s', k') ∈ step s k) : k'.Reaches issuer cpu := by
  cases k with
  | issue j m only =>
    obtain ⟨rfl, rfl⟩ := h
    simp only [step] at hstep
    split at hstep <;> cases List.mem_singleton.mp hstep
    · exact ⟨rfl, rfl⟩
    · trivial
  | tryAdmit a j =>
    cases List.mem_singleton.mp hstep
    exact a.retry_reaches online h
  | swapAdmission a j w =>
    obtain ⟨-, ⟨⟩⟩ | ⟨⟨⟩⟩ := mem_weakSwap hstep
    · cases a with
      | issuer i =>
        have hall : i.ToAll issuer := h
        simp only [Admitting.admitted, hall.2]
        exact hall
      | target p => exact h
      | reason _ | gather _ => cases h
    · exact a.retry_reaches online h
  | loadEpoch i =>
    cases List.mem_singleton.mp hstep
    unfold Issue.allocateRetry
    split
    · exact h
    · trivial
  | allocate i epoch =>
    obtain ⟨-, ⟨⟩⟩ | ⟨⟨⟩⟩ := mem_weakSwap hstep
    · have hall : (i.issuing (epoch + 1)).ToAll issuer := h
      simp only [Issuing.start, hall.2]
      exact ⟨hall, fun hlt => absurd hlt (Nat.not_lt_zero _)⟩
    · unfold Issue.allocateRetry
      split
      · exact h
      · trivial
  | visit p k =>
    obtain ⟨hall, htargets⟩ := h
    simp only [step] at hstep
    split at hstep
    · split at hstep <;> cases List.mem_singleton.mp hstep
      · rename_i hissuer
        refine ⟨hall, fun hlt => htargets (lt_of_le_of_ne (Nat.lt_succ_iff.mp hlt) fun heq => ?_)⟩
        exact hne (heq.trans (hissuer.trans hall.1))
      · exact ⟨hall, htargets⟩
    · cases List.mem_singleton.mp hstep
      exact htargets (by omega)
  | raise p j rest =>
    obtain ⟨hall, htargets⟩ := h
    cases rest with
    | nil =>
      cases List.mem_singleton.mp hstep
      have hnone : p.only = none := hall.2
      simp only [Issuing.posted, hnone]
      refine ⟨hall, fun hle => ?_⟩
      simp only [Function.update_apply]
      split
      · rfl
      · exact htargets (lt_of_le_of_ne hle ‹_›)
    | cons x rest =>
      cases List.mem_singleton.mp hstep
      exact ⟨hall, htargets⟩
  | leave p j =>
    cases List.mem_singleton.mp hstep
    exact ⟨h.1, fun hlt => h.2 (Nat.lt_succ_iff.mp hlt)⟩
  | unwind i stop k e =>
    simp only [step] at hstep
    repeat' split at hstep
    all_goals cases List.mem_singleton.mp hstep; trivial
  | gather | publish | settle => cases h
  | _ => cases running

/-! ### Runs -/

section Runs

variable [DecidableEq ι] {Allowed : Config ι (Shared n) (Call n) → Call n → Prop}

theorem runWhile_reaches {c c' : Config ι (Shared n) (Call n)} {i : ι} {issuer : Nat} {cpu : Fin n}
    (hne : (cpu : Nat) ≠ issuer) (hc : (c.calls i).Reaches issuer cpu)
    (run : (system ι n Allowed).RunWhile
      (fun c => (c.calls i).inIssue ∧ c.shared.Online cpu) c c') :
    (c'.calls i).Reaches issuer cpu :=
  run.point (Q := Call.Reaches issuer cpu)
    (fun _ h => Call.ne_idle_of_inIssue h.1)
    (fun h hreaches hstep => step_reaches h.2 hne h.1 hreaches hstep) hc

/-- **A grace is never fabricated**, whatever calls interleave: when one is given, every target ran
its callback with each class of the request after the epoch of the request was allocated. And an
issue to all online CPUs that returns a request has every CPU but its issuer that stayed online
among its targets. -/
theorem shootdown_grace {c : Config ι (Shared n) (Call n)}
    (run : (system ι n Allowed).Run (initial ι n) c) :
    (∀ i r owned, c.calls i = .granted r owned → ∀ cpu, r.targets cpu = true →
      ∀ x, r.maintenance.needs x = true → c.shared.log.count (.allocated r.epoch) = 1 ∧
        MaintainedSince c.shared.log cpu x r.epoch) ∧
    (∀ i issuer m, c.calls i = .issue issuer m none →
      ∀ cpu : Fin n, (cpu : Nat) ≠ issuer → ∀ c' r,
        (system ι n Allowed).RunWhile
          (fun c => (c.calls i).inIssue ∧ c.shared.Online cpu) c c' →
        c'.calls i = .holding r → r.targets cpu = true) := by
  constructor
  · intro i r owned hi cpu htarget x hx
    obtain ⟨hmemory, hcalls⟩ := run_sound run
    have hgranted := hcalls i
    rw [hi] at hgranted
    exact ⟨hmemory.count_log hgranted.1.given, hgranted.2 cpu htarget x hx⟩
  · intro i issuer m hi cpu hne c' r hwhile hc'
    have hstart : (c.calls i).Reaches issuer cpu := by
      rw [hi]
      exact ⟨rfl, rfl⟩
    have hreaches := runWhile_reaches hne hstart hwhile
    rw [hc'] at hreaches
    exact hreaches

end Runs

/-- Both CPUs are online; CPU 0 is about to issue to all and CPU 1 to take its reasons. -/
abbrev bothOnline : Config Nat (Shared 2) (Call 2) :=
  ((((system Nat 2 fun _ _ => True).exec
    (((initial Nat 2).calling 0 (.publishOnline 0)).calling 1 (.publishOnline 1))
    (List.replicate 6 0 ++ List.replicate 6 1)).calling 2 (.issue 0 .tlb none)).calling 3
      (.take 1 true))

abbrev issued : Config Nat (Shared 2) (Call 2) :=
  (system Nat 2 fun _ _ => True).exec bothOnline (List.replicate 13 2)

/-- CPU 1 has served the request and CPU 0 has polled it. -/
abbrev served : Config Nat (Shared 2) (Call 2) :=
  (system Nat 2 fun _ _ => True).exec issued (List.replicate 9 3 ++ List.replicate 6 2)

theorem bothOnline_run : (system Nat 2 fun _ _ => True).Run (initial Nat 2) bothOnline := by
  refine System.Run.calling (System.Run.calling (System.Run.exec (System.Run.calling
    (System.Run.calling .refl rfl ?_) rfl ?_) _) rfl ?_) rfl ?_
  all_goals exact ⟨trivial, trivial⟩

theorem shootdown_grace_two :
    (∃ r, served.calls 2 = .granted r true ∧ r.targets 1 = true ∧
      MaintainedSince served.shared.log 1 .tlb r.epoch) ∧
    ∃ r, issued.calls 2 = .holding r ∧ r.targets 1 = true := by
  constructor
  · obtain ⟨r, hr, htarget, hneeds⟩ : ∃ r, served.calls 2 = .granted r true ∧
        r.targets 1 = true ∧ r.maintenance.needs .tlb = true := ⟨_, rfl, rfl, rfl⟩
    exact ⟨r, hr, htarget,
      ((shootdown_grace ((bothOnline_run.exec _).exec _)).1 2 r true hr 1 htarget .tlb hneeds).2⟩
  · obtain ⟨r, hr⟩ : ∃ r, issued.calls 2 = .holding r := ⟨_, rfl⟩
    have honline : ∀ k < (List.replicate 13 (2 : Nat)).length,
        (((system Nat 2 fun _ _ => True).exec bothOnline
          ((List.replicate 13 2).take k)).calls 2).inIssue ∧
        ((system Nat 2 fun _ _ => True).exec bothOnline
          ((List.replicate 13 2).take k)).shared.Online 1 := by decide +kernel
    exact ⟨r, hr, (shootdown_grace bothOnline_run).2 2 0 .tlb rfl 1 (by decide) issued r
      (System.runWhile_exec _ _ _ honline) hr⟩

end KernelAx.Tlb
