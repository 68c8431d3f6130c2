import Mathlib.Tactic.FinCases
import KernelAx.Tlb.Admission
import KernelAx.Tlb.Knowledge

/-!
# Shootdown — Pending work

An issue publishes the epoch first and the reason after it; a handler takes the reason first and
reads the epoch after it. So work that is not served is always somebody's: its reason is pending,
the issue that published it has the reason still to post, or a handler that took the reason has it
still to read or to acknowledge (`Waits`).

* `waits_next` — one step;
* `kicked_access` — between two clearings of the reason one post is answered with a kick;
* `maintenance_not_stranded` — both for every run.
-/

namespace KernelAx.Tlb

open Interleaving Shared

variable {ι : Type} {n : Nat}

/-! ### The reason -/

theorem CpuMailbox.posted_post (b : CpuMailbox) : (b.post cpuMaintenanceReason).posted = true := by
  simp [posted, post, IpiReason.bit, cpuMaintenanceReason]

theorem CpuMailbox.posted_post_of_ne {r : IpiReason} (h : r ≠ cpuMaintenanceReason)
    (b : CpuMailbox) :
    (b.post r).posted = b.posted := by
  have hr : ¬ 0 = (r : Nat) := fun h₀ => h (Fin.ext h₀.symm)
  simp [posted, post, IpiReason.bit, hr]

theorem CpuMailbox.posted_take (b : CpuMailbox) :
    { b with pendingReasons := 0 }.posted = false := by
  simp [posted]

theorem CpuMailbox.needsKick_maintenance (b : CpuMailbox) :
    b.needsKick cpuMaintenanceReason = !b.posted := rfl

/-! ### Accesses -/

namespace Access

variable {s s' : Shared n} {k : Call n} (access : Access s k s')
include access

theorem requestedEpoch {cpu : Fin n} (h : ∀ p x rest, k ≠ .raise p cpu (x :: rest)) :
    (s'.cpus cpu).requestedEpoch = (s.cpus cpu).requestedEpoch := by
  cases access with
  | none | allocate | maintain => rfl
  | publishOnline | completeOffline | close | enter | leave =>
    simp [release]
  | reason | post | acknowledge =>
    refine s.setCpu_frame (·.requestedEpoch) ?_ cpu
    rfl
  | raise =>
    rename_i p j x rest
    have hj : cpu ≠ j := fun hj => h p x rest (hj ▸ rfl)
    rw [setCpu_of_ne s hj]
  | take =>
    unfold takeReasons
    split <;> refine s.setCpu_frame (·.requestedEpoch) ?_ cpu <;> rfl

theorem posted {cpu : Fin n} (sound : k.Sound s) (h : ∀ handler, k ≠ .take cpu handler)
    (hposted : (s.cpus cpu).posted = true) : (s'.cpus cpu).posted = true := by
  cases access with
  | none | allocate | maintain => exact hposted
  | publishOnline | completeOffline | close | enter | leave =>
    simpa [CpuMailbox.posted, release] using hposted
  | raise | acknowledge =>
    refine (s.setCpu_frame (·.posted) ?_ cpu).trans hposted
    rfl
  | reason =>
    refine (s.setCpu_frame (·.posted) ?_ cpu).trans hposted
    exact CpuMailbox.posted_post_of_ne sound _
  | post =>
    rename_i p j
    by_cases hj : cpu = j
    · subst hj
      simpa [postMaintenance] using CpuMailbox.posted_post (s.cpus cpu)
    · simpa [postMaintenance, setCpu_of_ne s hj] using hposted
  | take =>
    rename_i j handler
    have hj : cpu ≠ j := fun hj => h handler (hj ▸ rfl)
    unfold takeReasons
    split <;> simpa [setCpu_of_ne s hj] using hposted

end Access

/-! ### Work that is somebody's -/

/-- The call has work of the CPU still to post, to read or to acknowledge. -/
def Call.Owes (s : Shared n) (cpu : Fin n) (x : MaintenanceClass) : Call n → Prop
  | .raise _ j _ => j = cpu
  | .loadRequested v y => v.cpu = cpu ∧
      (y = .tlb ∨ x = .icache ∨ v.requested x = (s.cpus cpu).requestedEpoch x)
  | .loadCompleted v y => v.cpu = cpu ∧
      ((y = .tlb ∧ x = .icache) ∨ v.requested x = (s.cpus cpu).requestedEpoch x)
  | .maintain v m => v.cpu = cpu ∧ v.requested x = (s.cpus cpu).requestedEpoch x ∧ m.needs x = true
  | .acknowledge v _ rest => v.cpu = cpu ∧ v.requested x = (s.cpus cpu).requestedEpoch x ∧ x ∈ rest
  | _ => False

/-- The class is served on the CPU, its reason is pending, or it is somebody's. -/
def Waits (c : Config ι (Shared n) (Call n)) (cpu : Fin n) (x : MaintenanceClass) : Prop :=
  (c.shared.cpus cpu).requestedEpoch x ≤ (c.shared.cpus cpu).completedEpoch x ∨
    (c.shared.cpus cpu).posted = true ∨ ∃ i, (c.calls i).Owes c.shared cpu x

variable {s s' : Shared n} {cpu : Fin n} {x : MaintenanceClass} {k : Call n}
  {c : Config ι (Shared n) (Call n)}

theorem Call.Owes.of_requested (h : k.Owes s cpu x)
    (same : (s'.cpus cpu).requestedEpoch = (s.cpus cpu).requestedEpoch) : k.Owes s' cpu x := by
  cases k with
  | raise => exact h
  | loadRequested | loadCompleted | maintain | acknowledge =>
    simp only [Call.Owes] at h ⊢
    rwa [same]
  | _ => cases h

/-- With all epochs read, the class is served or will be maintained. -/
theorem Snapshot.start_owes {v : Snapshot n} (sound : v.Sound s)
    (hread : v.requested x = (s.cpus v.cpu).requestedEpoch x) :
    (s.cpus v.cpu).requestedEpoch x ≤ (s.cpus v.cpu).completedEpoch x ∨ v.start.Owes s v.cpu x := by
  cases hpending : v.pending x with
  | false =>
    refine .inl (hread ▸ (Nat.le_of_not_lt ?_).trans (sound.completed x))
    exact of_decide_eq_false hpending
  | true =>
    refine .inr ?_
    unfold Snapshot.start
    split
    · rename_i hnone
      rw [CpuMaintenance.fromPending_none hnone x] at hpending
      cases hpending
    · rename_i m hsome
      exact ⟨rfl, hread, (CpuMaintenance.fromPending_needs hsome x).trans hpending⟩

/-- A call that owes the work still owes it after its step, or has posted or acknowledged it. -/
theorem step_owes {k' : Call n} (sound : k.Sound s) (hstep : (s', k') ∈ step s k)
    (h : k.Owes s cpu x) :
    (s'.cpus cpu).requestedEpoch x ≤ (s'.cpus cpu).completedEpoch x ∨
      (s'.cpus cpu).posted = true ∨ k'.Owes s' cpu x := by
  cases k with
  | raise p j rest =>
    obtain rfl : j = cpu := h
    cases rest <;> cases List.mem_singleton.mp hstep
    · refine .inr (.inl ?_)
      simpa [postMaintenance] using CpuMailbox.posted_post (s.cpus j)
    · exact .inr (.inr rfl)
  | loadRequested v y =>
    obtain ⟨rfl, h⟩ := h
    cases List.mem_singleton.mp hstep
    refine .inr (.inr ⟨rfl, ?_⟩)
    cases y <;> cases x <;> simp_all [Snapshot.loadRequested]
  | loadCompleted v y =>
    obtain ⟨rfl, h⟩ := h
    cases y with
    | tlb =>
      cases List.mem_singleton.mp hstep
      refine .inr (.inr ⟨rfl, ?_⟩)
      exact .inr (h.imp_left And.right)
    | icache =>
      cases List.mem_singleton.mp hstep
      have hread := h.resolve_left (by simp)
      have hv := Snapshot.Sound.loadCompleted sound .icache
      exact (Snapshot.start_owes hv hread).imp_right .inr
  | maintain v m =>
    obtain ⟨rfl, hread, hneeds⟩ := h
    cases List.mem_singleton.mp hstep
    exact .inr (.inr ⟨rfl, hread, CpuMaintenance.mem_classes.mpr hneeds⟩)
  | acknowledge v m rest =>
    obtain ⟨rfl, hread, hmem⟩ := h
    cases rest with
    | nil => cases hmem
    | cons y rest =>
      cases List.mem_singleton.mp hstep
      by_cases hxy : x = y
      · subst hxy
        refine .inl ?_
        rw [setCpu_self, CpuMailbox.acknowledge_completedEpoch, if_pos rfl, hread]
        exact le_max_right _ _
      · refine .inr (.inr ⟨rfl, ?_, (List.mem_cons.mp hmem).resolve_left hxy⟩)
        rw [setCpu_self]
        exact hread
  | _ => cases h

section Runs

variable [DecidableEq ι] {Allowed : Config ι (Shared n) (Call n) → Call n → Prop}

/-- **No step strands work.** -/
theorem waits_next {i : ι} {c c' : Config ι (Shared n) (Call n)} {cpu : Fin n}
    {x : MaintenanceClass} (hnext : (system ι n Allowed).Next i c c')
    (memory : c.shared.Sound) (sound : (c.calls i).Sound c.shared) (handled : Handled (c.calls i))
    (h : Waits c cpu x) : Waits c' cpu x := by
  cases hnext with
  | call idle starts =>
    refine h.imp_right (Or.imp_right ?_)
    rintro ⟨j, hj⟩
    have hji : j ≠ i := by
      rintro rfl
      rw [idle] at hj
      exact hj
    exact ⟨j, by simpa [hji] using hj⟩
  | act hstep =>
    rename_i s k
    by_cases howes : (c.calls i).Owes c.shared cpu x
    · refine (step_owes sound hstep howes).imp_right (Or.imp_right fun hk => ⟨i, ?_⟩)
      simpa using hk
    · have haccess := step_access hstep
      have hsame : (s.cpus cpu).requestedEpoch = (c.shared.cpus cpu).requestedEpoch :=
        haccess.requestedEpoch fun p y rest heq => howes (heq ▸ rfl)
      obtain hserved | hposted | ⟨j, hj⟩ := h
      · refine .inl ((congrFun hsame x).le.trans (hserved.trans ?_))
        exact (step_sound memory sound hstep).memory.grows.completed cpu x
      · by_cases htake : ∃ handler, c.calls i = .take cpu handler
        · -- the reason is taken by a handler, which has the epochs still to read
          obtain ⟨handler, htake⟩ := htake
          obtain rfl : handler = true := by
            cases handler with
            | false => exact absurd htake (handled cpu)
            | true => rfl
          have hmem : (s, k) ∈ step c.shared (.take cpu true) := htake ▸ hstep
          simp only [step, cpu.isLt, dif_pos, Fin.eta, hposted, Bool.and_self, if_true] at hmem
          cases List.mem_singleton.mp hmem
          refine .inr (.inr ⟨i, ?_⟩)
          simp [Call.Owes, Snapshot.new]
        · refine .inr (.inl (haccess.posted sound (fun handler heq => ?_) hposted))
          exact htake ⟨handler, heq⟩
      · have hji : j ≠ i := by
          rintro rfl
          exact howes hj
        refine .inr (.inr ⟨j, ?_⟩)
        simpa [hji] using hj.of_requested hsame

end Runs

/-! ### Kicks -/

/-- A post of the reason that was answered with a kick. -/
def Event.kicks (cpu : Fin n) : Event n → Bool
  | .posted j _ kick => kick && decide (j = cpu)
  | _ => false

/-- The kicks since the last clearing. -/
def openKicks (cpu : Fin n) : List (Event n) → Nat
  | [] => 0
  | e :: log => if e = .cleared cpu then 0 else openKicks cpu log + if e.kicks cpu then 1 else 0

/-- The answers to the posts agree with the reason. -/
structure Kicked (s : Shared n) (cpu : Fin n) : Prop where
  now : openKicks cpu s.log = if (s.cpus cpu).posted then 1 else 0
  before : ∀ later earlier, s.log = later ++ .cleared cpu :: earlier → openKicks cpu earlier = 1

namespace Kicked

variable {s s' : Shared n} {cpu : Fin n} (h : Kicked s cpu)
include h

theorem of_eq (log : s'.log = s.log) (posted : (s'.cpus cpu).posted = (s.cpus cpu).posted) :
    Kicked s' cpu :=
  ⟨by rw [log, posted]; exact h.now, by rw [log]; exact h.before⟩

theorem record {e : Event n} (log : s'.log = e :: s.log) (other : e ≠ .cleared cpu)
    (kick : (if (s'.cpus cpu).posted then 1 else 0) =
      (if (s.cpus cpu).posted then 1 else 0) + if e.kicks cpu then 1 else 0) : Kicked s' cpu where
  now := by rw [log, openKicks, if_neg other, h.now, kick]
  before later earlier hlog := by
    rw [log] at hlog
    cases later with
    | nil => exact absurd (List.cons_eq_cons.mp hlog).1 other
    | cons e' later => exact h.before later earlier (List.cons_eq_cons.mp hlog).2

theorem clear (log : s'.log = .cleared cpu :: s.log) (was : (s.cpus cpu).posted = true)
    (posted : (s'.cpus cpu).posted = false) : Kicked s' cpu where
  now := by rw [log, openKicks, if_pos rfl, posted]; rfl
  before later earlier hlog := by
    rw [log] at hlog
    cases later with
    | nil =>
      obtain ⟨-, rfl⟩ := List.cons_eq_cons.mp hlog
      rw [h.now, was]
      rfl
    | cons e' later => exact h.before later earlier (List.cons_eq_cons.mp hlog).2

theorem post (j : Fin n) (epoch : Nat) : Kicked (s.postMaintenance j epoch) cpu := by
  refine h.record rfl nofun ?_
  by_cases hj : cpu = j
  · subst hj
    have hposted := CpuMailbox.posted_post (s.cpus cpu)
    simp only [postMaintenance, record_cpus, setCpu_self, hposted,
      CpuMailbox.needsKick_maintenance, Event.kicks]
    cases (s.cpus cpu).posted <;> simp
  · have hne : j ≠ cpu := Ne.symm hj
    simp [postMaintenance, setCpu_of_ne s hj, Event.kicks, hne]

theorem take (j : Fin n) : Kicked (s.takeReasons j) cpu := by
  by_cases hj : cpu = j
  · subst hj
    cases hposted : (s.cpus cpu).posted with
    | true =>
      refine h.clear ?_ hposted ?_
      · simp [takeReasons, hposted]
      · simpa [takeReasons, hposted] using (s.cpus cpu).posted_take
    | false =>
      refine h.of_eq ?_ ?_
      · simp [takeReasons, hposted]
      · simpa [takeReasons, hposted] using (s.cpus cpu).posted_take
  · have hne : Event.cleared j ≠ Event.cleared cpu := fun heq => hj (Event.cleared.inj heq).symm
    cases hposted : (s.cpus j).posted with
    | true =>
      refine h.record (e := .cleared j) ?_ hne ?_
      · simp [takeReasons, hposted]
      · simp [takeReasons, hposted, setCpu_of_ne s hj, Event.kicks]
    | false =>
      refine h.of_eq ?_ ?_ <;> simp [takeReasons, hposted, setCpu_of_ne s hj]

end Kicked

/-- **Every access keeps the answers and the reason together.** -/
theorem kicked_access (access : Access s k s') (sound : k.Sound s) (h : Kicked s cpu) :
    Kicked s' cpu := by
  cases access with
  | none => exact h
  | publishOnline | completeOffline | close | enter | leave =>
    refine h.of_eq rfl ?_
    simp [CpuMailbox.posted, release]
  | reason =>
    refine h.of_eq rfl (s.setCpu_frame (·.posted) ?_ cpu)
    exact CpuMailbox.posted_post_of_ne sound _
  | raise | acknowledge =>
    refine h.of_eq rfl (s.setCpu_frame (·.posted) ?_ cpu)
    rfl
  | allocate | maintain => exact h.record rfl nofun rfl
  | post => exact h.post _ _
  | take => exact h.take _

/-- The kicks since the last clearing are those of the period that it began. -/
theorem openKicks_period {period earlier : List (Event n)} (hperiod : .cleared cpu ∉ period)
    (hearlier : earlier = [] ∨ ∃ log, earlier = .cleared cpu :: log) :
    openKicks cpu (period ++ earlier) = period.countP (Event.kicks cpu) := by
  induction period with
  | nil =>
    obtain rfl | ⟨log, rfl⟩ := hearlier
    · rfl
    · exact if_pos rfl
  | cons e period ih =>
    rw [List.mem_cons, not_or] at hperiod
    rw [List.cons_append, openKicks, if_neg (Ne.symm hperiod.1), ih hperiod.2, List.countP_cons]

/-! ### The result -/

/-- The call is at work on the mailbox: an issue that publishes, or a handler that serves. -/
def Call.onMailbox (cpu : Fin n) : Call n → Prop
  | .raise _ j _ => j = cpu
  | .loadRequested v _ | .loadCompleted v _ | .maintain v _ | .acknowledge v _ _ => v.cpu = cpu
  | _ => False

theorem Call.Owes.onMailbox (h : k.Owes s cpu x) : k.onMailbox cpu := by
  cases k with
  | raise => exact h
  | loadRequested | loadCompleted | maintain | acknowledge => exact h.1
  | _ => cases h

variable [DecidableEq ι] {Allowed : Config ι (Shared n) (Call n) → Call n → Prop}

theorem run_handled (handlers : ∀ c k, Allowed c k → Handled k)
    (run : (system ι n Allowed).Run (initial ι n) c) (i : ι) : Handled (c.calls i) := by
  refine run.invariant (P := fun c => ∀ i, Handled (c.calls i)) ?_ (fun _ _ => nofun) i
  intro i c c' hnext h j
  by_cases hji : j = i
  · subst hji
    rcases hnext.self with ⟨-, -, -, hallowed⟩ | hstep
    · exact handlers _ _ hallowed
    · exact (step_continues hstep).handled
  · rw [hnext.of_ne hji]
    exact h j

theorem run_waits (handlers : ∀ c k, Allowed c k → Handled k)
    (run : (system ι n Allowed).Run (initial ι n) c) (cpu : Fin n) (x : MaintenanceClass) :
    Waits c cpu x := by
  refine run.reached (P := fun c => Waits c cpu x) (fun hrun hnext h => ?_) (.inl le_rfl)
  obtain ⟨hmemory, hcalls⟩ := run_sound hrun
  exact waits_next hnext hmemory (hcalls _) (run_handled handlers hrun _) h

theorem run_kicked (run : (system ι n Allowed).Run (initial ι n) c) (cpu : Fin n) :
    Kicked c.shared cpu := by
  refine run.reached (P := fun c => Kicked c.shared cpu) (fun hrun hnext h => ?_) ?_
  · rcases hnext.self with ⟨-, hshared, -⟩ | hstep
    · rwa [hshared]
    · exact kicked_access (step_access hstep) ((run_sound hrun).2 _) h
  · refine ⟨?_, fun later earlier hlog => by cases later <;> cases hlog⟩
    simp [initial, new, CpuMailbox.new, CpuMailbox.posted, openKicks]

/-- **No maintenance request is stranded**, whatever issues and handlers interleave: on a mailbox
that nobody is at work on, a class that is not served has its reason pending. From each clearing of
the reason to the next, exactly one post was answered with a kick, and the kick of a request for a
target is the answer to its post. -/
theorem maintenance_not_stranded (handlers : ∀ c k, Allowed c k → Handled k)
    {c : Config ι (Shared n) (Call n)} (run : (system ι n Allowed).Run (initial ι n) c)
    (cpu : Fin n) :
    (∀ x, (∀ i, ¬ (c.calls i).onMailbox cpu) →
      (c.shared.cpus cpu).completedEpoch x < (c.shared.cpus cpu).requestedEpoch x →
      (c.shared.cpus cpu).posted = true) ∧
    (∀ later period earlier, c.shared.log = later ++ .cleared cpu :: (period ++ earlier) →
      .cleared cpu ∉ period → (earlier = [] ∨ ∃ log, earlier = .cleared cpu :: log) →
      period.countP (Event.kicks cpu) = 1) ∧
    (∀ i r, (c.calls i).owns r → r.targets cpu = true →
      .posted cpu r.epoch (r.kicks cpu) ∈ c.shared.log) := by
  refine ⟨fun x hquiet hlt => ?_, fun later period earlier hlog hperiod hearlier => ?_,
    fun i r howns htarget => ?_⟩
  · obtain hserved | hposted | ⟨i, hi⟩ := run_waits handlers run cpu x
    · exact absurd hlt (Nat.not_lt_of_le hserved)
    · exact hposted
    · exact absurd hi.onMailbox (hquiet i)
  · rw [← openKicks_period hperiod hearlier]
    exact (run_kicked run cpu).before later _ hlog
  · exact ((((run_sound run).2 i).request howns).reached cpu htarget).posted

/-- Two CPUs come online, CPU 0 issues to all, and CPU 1 takes its reasons. -/
abbrev handledCalls : List (Fin 6 × Call 2) :=
  [(0, .publishOnline 0), (1, .publishOnline 1), (2, .issue 0 .tlb none), (3, .take 1 true)]

abbrev handledExec (order : List (Fin 6)) : Config (Fin 6) (Shared 2) (Call 2) :=
  (system (Fin 6) 2 fun _ k => Handled k).exec ((initial (Fin 6) 2).callingAll handledCalls) order

theorem handledExec_run (order : List (Fin 6)) :
    (system (Fin 6) 2 fun _ k => Handled k).Run (initial (Fin 6) 2) (handledExec order) := by
  refine System.Run.exec (System.Run.callingAll .refl (by decide) (fun _ _ => rfl) ?_) order
  simp [system, Call.Entry, Handled]

abbrev published : Config (Fin 6) (Shared 2) (Call 2) :=
  handledExec (List.replicate 6 0 ++ List.replicate 6 1 ++ List.replicate 13 2)

abbrev maintained : Config (Fin 6) (Shared 2) (Call 2) :=
  handledExec (List.replicate 6 0 ++ List.replicate 6 1 ++ List.replicate 13 2 ++
    List.replicate 6 3)

theorem maintenance_not_stranded_two : (published.shared.cpus 1).posted = true ∧
    [Event.posted (n := 2) 1 1 true, .allocated 1].countP (Event.kicks 1) = 1 := by
  constructor
  · refine (maintenance_not_stranded (fun _ _ h => h) (handledExec_run _) 1).1 .tlb ?_
      (by decide +kernel)
    intro i
    fin_cases i <;> exact id
  · exact (maintenance_not_stranded (fun _ _ h => h) (handledExec_run _) 1).2.1
      [.maintained 1 .tlb] _ [] (show maintained.shared.log = _ by decide +kernel) (by decide)
      (.inl rfl)

end KernelAx.Tlb
