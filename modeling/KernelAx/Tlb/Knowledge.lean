import KernelAx.Tlb.Shootdown

/-!
# Shootdown — Knowledge

What a call knows of the memory, at each of its points. Everything it knows stays true: epochs only
go up and the log only grows, so a step of one call takes nothing from another.
-/

namespace KernelAx.Tlb

open Interleaving CpuMailbox Shared Snapshot

variable {ι : Type} {n : Nat}

/-- The CPU ran its callback with the class after the epoch was allocated. -/
def MaintainedSince (log : List (Event n)) (cpu : Fin n) (x : MaintenanceClass) (epoch : Nat) :
    Prop :=
  ∃ later earlier m, log = later ++ .maintained cpu m :: earlier ∧ m.needs x = true ∧
    .allocated epoch ∈ earlier

variable {epoch : Nat}

theorem MaintainedSince.append {log : List (Event n)} {cpu : Fin n} {x : MaintenanceClass}
    (h : MaintainedSince log cpu x epoch) (new : List (Event n)) :
    MaintainedSince (new ++ log) cpu x epoch := by
  obtain ⟨later, earlier, m, rfl, hneeds, hmem⟩ := h
  exact ⟨new ++ later, earlier, m, by simp, hneeds, hmem⟩

/-- The target did everything the request asks for. -/
def ShootdownRequest.ServedBy (r : ShootdownRequest n) (log : List (Event n)) (cpu : Fin n) :
    Prop :=
  ∀ x, r.maintenance.needs x = true → MaintainedSince log cpu x r.epoch

/-- An epoch is published to the CPU for all classes, and the answer to the post was `kick`. -/
structure Reached (s : Shared n) (epoch : Nat) (m : CpuMaintenance) (kick : Bool) (cpu : Fin n) :
    Prop where
  requested : ∀ x, m.needs x = true → epoch ≤ (s.cpus cpu).requestedEpoch x
  posted : .posted cpu epoch kick ∈ s.log

/-! ### Assertions -/

/-- An epoch that was allocated. -/
def Shared.Given (s : Shared n) (epoch : Nat) : Prop := 1 ≤ epoch ∧ epoch ≤ s.nextEpoch

/-- Epochs are given out once, and a completed epoch was maintained. -/
structure Shared.Sound (s : Shared n) : Prop where
  allocated : ∀ e, s.log.count (.allocated e) = if 1 ≤ e ∧ e ≤ s.nextEpoch then 1 else 0
  requested : ∀ cpu x, (s.cpus cpu).requestedEpoch x ≤ s.nextEpoch
  completed : ∀ cpu x, (s.cpus cpu).completedEpoch x ≤ (s.cpus cpu).requestedEpoch x
  maintained : ∀ cpu x e, 1 ≤ e → e ≤ (s.cpus cpu).completedEpoch x →
    MaintainedSince s.log cpu x e

variable {s : Shared n} {a : Admitting n} {v : Snapshot n}

/-- An epoch is allocated once. -/
theorem Shared.Sound.count_log (h : s.Sound) (given : s.Given epoch) :
    s.log.count (.allocated epoch) = 1 :=
  (h.allocated epoch).trans (if_pos given)

theorem Shared.Sound.mem_log (h : s.Sound) (given : s.Given epoch) : .allocated epoch ∈ s.log :=
  List.count_pos_iff.mp (h.count_log given ▸ Nat.one_pos)

/-- An issue has an epoch and has reached its targets below `k`. -/
structure Issuing.Sound (s : Shared n) (p : Issuing n) (k : Nat) : Prop where
  given : s.Given p.epoch
  reached : ∀ cpu : Fin n, cpu < k → p.targets cpu = true →
    Reached s p.epoch p.maintenance (p.kicks cpu) cpu
  targets : ∀ set, p.only = some set → p.targets = set

/-- Every target of the request has been reached. -/
structure ShootdownRequest.Sound (s : Shared n) (r : ShootdownRequest n) : Prop where
  given : s.Given r.epoch
  reached : ∀ cpu, r.targets cpu = true → Reached s r.epoch r.maintenance (r.kicks cpu) cpu

/-- The epochs of a snapshot are no newer than those of the mailbox. -/
structure Snapshot.Sound (s : Shared n) (v : Snapshot n) : Prop where
  requested : ∀ x, v.requested x ≤ (s.cpus v.cpu).requestedEpoch x
  completed : ∀ x, v.completed x ≤ (s.cpus v.cpu).completedEpoch x

def Admitting.Sound (s : Shared n) : Admitting n → Prop
  | .reason r => r ≠ cpuMaintenanceReason
  | .target p => p.only = none ∧ p.Sound s n
  | .issuer _ | .gather _ => True

/-- What a call knows at its program point. -/
def Call.Sound (s : Shared n) : Call n → Prop
  | .tryAdmit a _ | .swapAdmission a _ _ => a.Sound s
  | .setReason _ r => r ≠ cpuMaintenanceReason
  | .visit p _ | .leave p _ => p.only = none ∧ p.Sound s n
  | .publish p k => p.only ≠ none ∧ p.Sound s k
  | .raise p cpu rest => p.Sound s (if p.only = none then n else cpu) ∧
      ∀ x, p.maintenance.needs x = true → x ∉ rest → p.epoch ≤ (s.cpus cpu).requestedEpoch x
  | .settle p _ => p.Sound s n
  | .holding r => r.Sound s
  | .trying r _ k => r.Sound s ∧ ∀ j : Fin n, j < k → r.targets j → r.ServedBy s.log j
  | .probe r _ cpu rest => r.Sound s ∧ (∀ j, j < cpu → r.targets j → r.ServedBy s.log j) ∧
      ∀ x, r.maintenance.needs x = true → x ∉ rest → MaintainedSince s.log cpu x r.epoch
  | .granted r _ => r.Sound s ∧ ∀ j, r.targets j → r.ServedBy s.log j
  | .loadRequested v _ | .loadCompleted v _ | .maintain v _ => v.Sound s
  | .acknowledge v _ rest => v.Sound s ∧ ∀ x ∈ rest, ∀ e, 1 ≤ e → e ≤ v.requested x →
      MaintainedSince s.log v.cpu x e
  | _ => True

/-! ### What every step keeps -/

/-- Epochs go up and the log grows. -/
structure Shared.Grows (s s' : Shared n) : Prop where
  nextEpoch : s.nextEpoch ≤ s'.nextEpoch
  requested : ∀ cpu x, (s.cpus cpu).requestedEpoch x ≤ (s'.cpus cpu).requestedEpoch x
  completed : ∀ cpu x, (s.cpus cpu).completedEpoch x ≤ (s'.cpus cpu).completedEpoch x
  log : ∃ new, s'.log = new ++ s.log

theorem Shared.Grows.refl (s : Shared n) : s.Grows s :=
  ⟨le_rfl, fun _ _ => le_rfl, fun _ _ => le_rfl, [], rfl⟩

namespace Shared.Grows

variable {s s' : Shared n} (h : s.Grows s')
include h

variable {cpu : Fin n} {epoch : Nat}

/-- Maintenance that was done stays done. -/
theorem maintained {x : MaintenanceClass} (hm : MaintainedSince s.log cpu x epoch) :
    MaintainedSince s'.log cpu x epoch := by
  obtain ⟨new, hlog⟩ := h.log
  rw [hlog]
  exact hm.append new

/-- An epoch that was allocated stays allocated. -/
theorem given (hg : s.Given epoch) : s'.Given epoch :=
  ⟨hg.1, hg.2.trans h.nextEpoch⟩

theorem servedBy {r : ShootdownRequest n} (hr : r.ServedBy s.log cpu) :
    r.ServedBy s'.log cpu := fun x hx => h.maintained (hr x hx)

theorem reached {m : CpuMaintenance} {kick : Bool} (hr : Reached s epoch m kick cpu) :
    Reached s' epoch m kick cpu where
  requested x hx := (hr.requested x hx).trans (h.requested cpu x)
  posted := by
    obtain ⟨new, hlog⟩ := h.log
    rw [hlog]
    exact List.mem_append_right new hr.posted

theorem issuing {p : Issuing n} {k : Nat} (hp : p.Sound s k) : p.Sound s' k :=
  ⟨h.given hp.given, fun cpu hk ht => h.reached (hp.reached cpu hk ht), hp.targets⟩

theorem request {r : ShootdownRequest n} (hr : r.Sound s) : r.Sound s' :=
  ⟨h.given hr.given, fun cpu ht => h.reached (hr.reached cpu ht)⟩

theorem snapshot {v : Snapshot n} (hv : v.Sound s) : v.Sound s' :=
  ⟨fun x => (hv.requested x).trans (h.requested v.cpu x),
    fun x => (hv.completed x).trans (h.completed v.cpu x)⟩

theorem admitting {a : Admitting n} (ha : a.Sound s) : a.Sound s' := by
  cases a with
  | reason r => exact ha
  | target p => exact ⟨ha.1, h.issuing ha.2⟩
  | issuer _ | gather _ => trivial

/-- The assertion of a call survives the steps of the others. -/
theorem sound {k : Call n} (hk : k.Sound s) : k.Sound s' := by
  cases k with
  | tryAdmit a _ | swapAdmission a _ _ => exact h.admitting hk
  | setReason _ r => exact hk
  | visit p _ | leave p _ | publish p _ => exact ⟨hk.1, h.issuing hk.2⟩
  | settle p _ => exact h.issuing hk
  | raise p cpu rest =>
    exact ⟨h.issuing hk.1, fun x hx hr => (hk.2 x hx hr).trans (h.requested cpu x)⟩
  | holding r => exact h.request hk
  | trying r owned k => exact ⟨h.request hk.1, fun j hj ht => h.servedBy (hk.2 j hj ht)⟩
  | probe r owned cpu rest =>
    exact ⟨h.request hk.1, fun j hj ht => h.servedBy (hk.2.1 j hj ht),
      fun x hx hr => h.maintained (hk.2.2 x hx hr)⟩
  | granted r owned => exact ⟨h.request hk.1, fun j ht => h.servedBy (hk.2 j ht)⟩
  | loadRequested | loadCompleted | maintain => exact h.snapshot hk
  | acknowledge v m rest =>
    exact ⟨h.snapshot hk.1, fun x hx e h₁ he => h.maintained (hk.2 x hx e h₁ he)⟩
  | _ => trivial

end Shared.Grows

/-! ### The memory -/

/-- The memory is sound after the step and has grown by it. -/
structure Shared.Advances (s s' : Shared n) : Prop where
  sound : s'.Sound
  grows : s.Grows s'

namespace Shared.Sound

variable {s s' : Shared n} (h : s.Sound)
include h

theorem stay : s.Advances s := ⟨h, .refl s⟩

/-- A write to a mailbox that leaves the epochs alone. -/
theorem setCpu {cpu : Fin n} {b : CpuMailbox}
    (requested : b.requestedEpoch = (s.cpus cpu).requestedEpoch)
    (completed : b.completedEpoch = (s.cpus cpu).completedEpoch) : s.Advances (s.setCpu cpu b) := by
  have hreq := s.setCpu_frame (·.requestedEpoch) requested
  have hcomp := s.setCpu_frame (·.completedEpoch) completed
  constructor
  · constructor
    · exact h.allocated
    · exact fun j x => hreq j ▸ h.requested j x
    · exact fun j x => hreq j ▸ hcomp j ▸ h.completed j x
    · exact fun j x e h₁ he => h.maintained j x e h₁ (hcomp j ▸ he)
  · exact ⟨le_rfl, fun j x => (congrFun (hreq j) x).ge, fun j x => (congrFun (hcomp j) x).ge, [],
      rfl⟩

/-- An event that allocates nothing is recorded. -/
theorem record {e : Event n} (he : ∀ epoch, e ≠ .allocated epoch) : s.Advances (s.record e) where
  sound :=
    { allocated := fun epoch => by
        rw [record_log, List.count_cons_of_ne (he epoch)]
        exact h.allocated epoch
      requested := h.requested
      completed := h.completed
      maintained := fun cpu x epoch h₁ hepoch => (h.maintained cpu x epoch h₁ hepoch).append [e] }
  grows := ⟨le_rfl, fun _ _ => le_rfl, fun _ _ => le_rfl, [e], rfl⟩

theorem swapLifecycle (cpu : Fin n) (w : Nat) : s.Advances (s.swapLifecycle cpu w) :=
  h.setCpu rfl rfl

/-- The next epoch is given out. -/
theorem allocateEpoch : s.Advances s.allocateEpoch where
  sound :=
    { allocated := fun e => by
        simp only [Shared.allocateEpoch, Shared.record_log, Shared.record_nextEpoch,
          List.count_cons, h.allocated e, beq_iff_eq, Event.allocated.injEq]
        grind
      requested := fun cpu x => (h.requested cpu x).trans (Nat.le_succ _)
      completed := h.completed
      maintained := fun cpu x e h₁ he => (h.maintained cpu x e h₁ he).append [_] }
  grows := ⟨Nat.le_succ _, fun _ _ => le_rfl, fun _ _ => le_rfl, [_], rfl⟩

/-- A mailbox is raised to an epoch that was given out. -/
theorem raise (cpu : Fin n) (x : MaintenanceClass) {epoch : Nat} (given : s.Given epoch) :
    s.Advances (s.setCpu cpu ((s.cpus cpu).raise x epoch)) := by
  have hcomp := s.setCpu_frame (·.completedEpoch) (b := (s.cpus cpu).raise x epoch) rfl
  have hreq : ∀ y j, (s.cpus j).requestedEpoch y ≤
      ((s.setCpu cpu ((s.cpus cpu).raise x epoch)).cpus j).requestedEpoch y := by
    refine fun y => s.setCpu_forall (P := fun j b => (s.cpus j).requestedEpoch y ≤
      b.requestedEpoch y) ?_ fun _ _ => le_rfl
    rw [raise_requestedEpoch]
    split
    · exact ‹y = x› ▸ le_max_left _ _
    · exact le_rfl
  constructor
  · constructor
    · exact h.allocated
    · refine fun j y => s.setCpu_forall (P := fun _ b => b.requestedEpoch y ≤ s.nextEpoch) ?_
        (fun j _ => h.requested j y) j
      rw [raise_requestedEpoch]
      split
      · exact max_le (h.requested cpu x) given.2
      · exact h.requested cpu y
    · exact fun j y => (congrFun (hcomp j) y).le.trans ((h.completed j y).trans (hreq y j))
    · exact fun j y e h₁ he => h.maintained j y e h₁ (hcomp j ▸ he)
  · exact ⟨le_rfl, fun j y => hreq y j, fun j y => (congrFun (hcomp j) y).ge, [], rfl⟩

/-- A CPU acknowledges what it has maintained. -/
theorem acknowledge (cpu : Fin n) (x : MaintenanceClass) {requested : Nat}
    (old : requested ≤ (s.cpus cpu).requestedEpoch x)
    (done : ∀ e, 1 ≤ e → e ≤ requested → MaintainedSince s.log cpu x e) :
    s.Advances (s.setCpu cpu ((s.cpus cpu).acknowledge x requested)) := by
  have hreq := s.setCpu_frame (·.requestedEpoch)
    (b := (s.cpus cpu).acknowledge x requested) rfl
  constructor
  · constructor
    · exact h.allocated
    · exact fun j y => hreq j ▸ h.requested j y
    · refine fun j y => s.setCpu_forall (P := fun _ b => b.completedEpoch y ≤ b.requestedEpoch y) ?_
        (fun j _ => h.completed j y) j
      rw [acknowledge_completedEpoch]
      split
      · subst y
        exact max_le (h.completed cpu x) old
      · exact h.completed cpu y
    · refine fun j y e h₁ => s.setCpu_forall (P := fun j b => e ≤ b.completedEpoch y →
        MaintainedSince s.log j y e) (fun he => ?_) (fun j _ => h.maintained j y e h₁) j
      rw [acknowledge_completedEpoch] at he
      split at he
      · subst y
        exact (le_max_iff.mp he).elim (h.maintained cpu x e h₁) (done e h₁)
      · exact h.maintained cpu y e h₁ he
  · refine ⟨le_rfl, fun j y => (congrFun (hreq j) y).ge, fun j y => ?_, [], rfl⟩
    refine s.setCpu_forall (P := fun j b => (s.cpus j).completedEpoch y ≤ b.completedEpoch y) ?_
      (fun _ _ => le_rfl) j
    rw [acknowledge_completedEpoch]
    split
    · exact ‹y = x› ▸ le_max_left _ _
    · exact le_rfl

/-- The maintenance reason is posted. -/
theorem postMaintenance (cpu : Fin n) (epoch : Nat) : s.Advances (s.postMaintenance cpu epoch) := by
  have hset : s.Advances (s.setCpu cpu ((s.cpus cpu).post cpuMaintenanceReason)) :=
    h.setCpu rfl rfl
  have hrecord := hset.sound.record (e := .posted cpu epoch
    ((s.cpus cpu).needsKick cpuMaintenanceReason)) fun _ => nofun
  exact ⟨hrecord.sound, ⟨le_rfl, hset.grows.requested, hset.grows.completed, [_], rfl⟩⟩

/-- A CPU takes its reasons. -/
theorem takeReasons (cpu : Fin n) : s.Advances (s.takeReasons cpu) := by
  have hset : s.Advances (s.setCpu cpu { s.cpus cpu with pendingReasons := 0 }) :=
    h.setCpu rfl rfl
  unfold Shared.takeReasons
  split
  · have hrecord := hset.sound.record (e := .cleared cpu) fun _ => nofun
    exact ⟨hrecord.sound, ⟨le_rfl, hset.grows.requested, hset.grows.completed, [_], rfl⟩⟩
  · exact hset

end Shared.Sound

/-! ### Continuations -/

theorem Admitting.refuse_sound (h : a.Sound s) (cpu : Fin n) (e : AdmissionError) :
    (a.refuse cpu e).Sound s := by
  cases a <;> cases e <;> first | exact h | trivial

theorem Admitting.admitted_sound (h : a.Sound s) (cpu : Fin n) : (a.admitted cpu).Sound s := by
  cases a with
  | reason r => exact h
  | issuer i =>
    simp only [Admitting.admitted]
    split <;> trivial
  | target p =>
    refine ⟨?_, fun x hx hnot => absurd (CpuMaintenance.mem_classes.mpr hx) hnot⟩
    rw [if_pos h.1]
    exact h.2
  | gather _ => trivial

theorem Admitting.retry_sound (h : a.Sound s) (cpu : Fin n) (w : Nat) :
    (a.retry cpu w).Sound s := by
  unfold Admitting.retry
  split
  · exact a.refuse_sound h cpu _
  · exact h

theorem closeRetry_sound (s : Shared n) (cpu : Fin n) (w : Nat) : (closeRetry cpu w).Sound s := by
  unfold closeRetry
  split <;> trivial

theorem Issue.allocateRetry_sound (s : Shared n) (i : Issue n) (epoch : Nat) :
    (i.allocateRetry epoch).Sound s := by
  unfold Issue.allocateRetry
  split <;> trivial

theorem Issue.start_sound (i : Issue n) (h : s.Given epoch) : (i.issuing epoch).start.Sound s := by
  have htargets : ∀ set, (i.issuing epoch).only = some set → (i.issuing epoch).targets = set := by
    intro set hset
    have honly : i.only = some set := hset
    simp [Issue.issuing, honly]
  unfold Issuing.start
  split
  · rename_i honly
    have hnone : i.only = none := honly
    refine ⟨honly, h, fun cpu _ ht => ?_, htargets⟩
    simp [Issue.issuing, hnone] at ht
  · rename_i set honly
    exact ⟨by simp [honly], h, fun cpu hcpu => absurd hcpu (Nat.not_lt_zero _), htargets⟩

/-- The last access of a publication, after which the CPU is reached. -/
theorem Issuing.posted_sound {p : Issuing n} {cpu : Fin n} (h : (Call.raise p cpu []).Sound s) :
    (p.posted cpu ((s.cpus cpu).needsKick cpuMaintenanceReason)).Sound
      (s.postMaintenance cpu p.epoch) := by
  obtain ⟨hp, hraised⟩ := h
  have hreached : Reached (s.postMaintenance cpu p.epoch) p.epoch p.maintenance
      ((s.cpus cpu).needsKick cpuMaintenanceReason) cpu := by
    refine ⟨fun x hx => ?_, List.mem_cons_self⟩
    have hraise := hraised x hx List.not_mem_nil
    simpa [postMaintenance, post] using hraise
  have hother : ∀ j, j ≠ cpu → Reached s p.epoch p.maintenance (p.kicks j) j →
      Reached (s.postMaintenance cpu p.epoch) p.epoch p.maintenance (p.kicks j) j := by
    intro j hj hr
    refine ⟨fun x hx => ?_, List.mem_cons_of_mem _ hr.posted⟩
    simpa [postMaintenance, setCpu_of_ne s hj] using hr.requested x hx
  unfold Issuing.posted
  split
  · rename_i honly
    rw [if_pos honly] at hp
    refine ⟨honly, hp.given, fun j hj ht => ?_, fun set hset => ?_⟩
    · by_cases hjc : j = cpu
      · subst hjc
        simpa using hreached
      · simp only [Function.update_of_ne hjc] at ht ⊢
        exact hother j hjc (hp.reached j hj ht)
    · rw [honly] at hset
      cases hset
  · rename_i set honly
    rw [if_neg (by simp [honly])] at hp
    refine ⟨by simp [honly], hp.given, fun j hj ht => ?_, hp.targets⟩
    by_cases hjc : j = cpu
    · subst hjc
      simpa using hreached
    · simp only [Function.update_of_ne hjc]
      exact hother j hjc (hp.reached j (by omega) ht)

theorem Transition.next_sound (s : Shared n) (op : Transition) (cpu : Fin n) (x : MaintenanceClass)
    (requested completed : Nat) : (op.next cpu x requested completed).Sound s := by
  cases op <;> cases x <;> simp only [Transition.next] <;> split <;> trivial

theorem Snapshot.start_sound (h : v.Sound s) : v.start.Sound s := by
  unfold start
  split
  · trivial
  · exact h

/-- The snapshot reads one more epoch. -/
theorem Snapshot.Sound.loadRequested (h : v.Sound s) (x : MaintenanceClass) :
    (v.loadRequested x ((s.cpus v.cpu).requestedEpoch x)).Sound s := by
  refine ⟨fun y => ?_, h.completed⟩
  simp only [Snapshot.loadRequested, Function.update_apply]
  split
  · exact ‹y = x› ▸ le_rfl
  · exact h.requested y

theorem Snapshot.Sound.loadCompleted (h : v.Sound s) (x : MaintenanceClass) :
    (v.loadCompleted x ((s.cpus v.cpu).completedEpoch x)).Sound s := by
  refine ⟨h.requested, fun y => ?_⟩
  simp only [Snapshot.loadCompleted, Function.update_apply]
  split
  · exact ‹y = x› ▸ le_rfl
  · exact h.completed y

theorem Snapshot.new_sound (s : Shared n) (cpu : Fin n) : (new cpu).Sound s :=
  ⟨fun _ => Nat.zero_le _, fun _ => Nat.zero_le _⟩

theorem ShootdownRequest.kept_sound {r : ShootdownRequest n} (h : r.Sound s) (owned : Bool) :
    (r.kept owned).Sound s := by
  cases owned
  · trivial
  · exact h

theorem Issuing.request_sound {p : Issuing n} (h : p.Sound s n) : p.request.Sound s :=
  ⟨h.given, fun cpu => h.reached cpu cpu.isLt⟩

/-! ### Steps -/

/-- What a step keeps. -/
structure Kept (s s' : Shared n) (k' : Call n) : Prop where
  memory : s.Advances s'
  call : k'.Sound s'

/-- The call knows no more than before. -/
theorem Kept.same {s' : Shared n} {k' : Call n} (h : s.Advances s') (hk : k'.Sound s) :
    Kept s s' k' := ⟨h, h.grows.sound hk⟩

/-- One access keeps the memory sound and the call informed. -/
theorem step_sound {s' : Shared n} {k k' : Call n} (h : s.Sound) (hk : k.Sound s)
    (hstep : (s', k') ∈ step s k) : Kept s s' k' := by
  cases k with
  | idle => cases hstep
  | returned | readRequested | publishOnline | completeOffline | readReasons | postReason
  | leaveReason | issue | gather | unwind =>
    simp only [step] at hstep
    repeat' split at hstep
    all_goals
      cases List.mem_singleton.mp hstep
      first
      | exact .same h.stay trivial
      | exact .same (h.swapLifecycle _ _) trivial
      | exact .same h.stay ‹_›
  | readCompleted op cpu x requested =>
    cases List.mem_singleton.mp hstep
    exact .same h.stay (op.next_sound s cpu x _ _)
  | commitState op cpu =>
    cases op <;> simp only [step] at hstep <;> split at hstep <;>
      cases List.mem_singleton.mp hstep <;>
        first | exact .same (h.swapLifecycle cpu _) trivial | exact .same h.stay trivial
  | beginOffline cpu =>
    simp only [step] at hstep
    split at hstep <;> cases List.mem_singleton.mp hstep
    · exact .same h.stay (closeRetry_sound s _ _)
    · exact .same h.stay trivial
  | closeAdmission cpu lifecycle =>
    obtain ⟨-, ⟨⟩⟩ | ⟨⟨⟩⟩ := mem_weakSwap hstep
    · exact .same (h.swapLifecycle cpu _) trivial
    · exact .same h.stay (closeRetry_sound s _ _)
  | tryAdmit a cpu =>
    cases List.mem_singleton.mp hstep
    exact .same h.stay (a.retry_sound hk cpu _)
  | swapAdmission a cpu lifecycle =>
    obtain ⟨-, ⟨⟩⟩ | ⟨⟨⟩⟩ := mem_weakSwap hstep
    · exact .same (h.swapLifecycle cpu _) (a.admitted_sound hk cpu)
    · exact .same h.stay (a.retry_sound hk cpu _)
  | setReason cpu reason =>
    cases List.mem_singleton.mp hstep
    exact .same (h.setCpu rfl rfl) trivial
  | loadEpoch i =>
    cases List.mem_singleton.mp hstep
    exact .same h.stay (i.allocateRetry_sound s _)
  | allocate i epoch =>
    obtain ⟨heq, ⟨⟩⟩ | ⟨⟨⟩⟩ := mem_weakSwap hstep
    · refine ⟨h.allocateEpoch, i.start_sound ⟨Nat.le_add_left 1 epoch, ?_⟩⟩
      exact (congrArg Nat.succ heq).ge
    · exact .same h.stay (i.allocateRetry_sound s _)
  | visit p k =>
    simp only [step] at hstep
    repeat' split at hstep
    all_goals
      cases List.mem_singleton.mp hstep
      first | exact .same h.stay hk | exact .same h.stay (p.request_sound hk.2)
  | publish p k =>
    obtain ⟨honly, hp⟩ := hk
    simp only [step] at hstep
    split at hstep
    · rename_i hlt
      split at hstep <;> cases List.mem_singleton.mp hstep
      · refine .same h.stay ⟨?_, fun x hx hnot => ?_⟩
        · rw [if_neg honly]
          exact hp
        · exact absurd (CpuMaintenance.mem_classes.mpr hx) hnot
      · rename_i hwants
        refine .same h.stay ⟨honly, hp.given, fun j hj ht => ?_, hp.targets⟩
        refine hp.reached j (lt_of_le_of_ne (Nat.lt_succ_iff.mp hj) fun heq => hwants ?_) ht
        obtain ⟨set, hset⟩ := Option.ne_none_iff_exists'.mp honly
        obtain rfl : j = ⟨k, hlt⟩ := Fin.ext heq
        rw [hp.targets set hset] at ht
        simpa [Issue.wants, hset] using ht
    · rename_i hlt
      cases List.mem_singleton.mp hstep
      exact .same h.stay ⟨hp.given, fun j hj => hp.reached j (by omega), hp.targets⟩
  | raise p cpu rest =>
    cases rest with
    | nil =>
      cases List.mem_singleton.mp hstep
      exact ⟨h.postMaintenance cpu _, p.posted_sound hk⟩
    | cons x rest =>
      cases List.mem_singleton.mp hstep
      have hgrows := h.raise cpu x hk.1.given
      refine ⟨hgrows, hgrows.grows.issuing hk.1, fun y hy hnot => ?_⟩
      by_cases hyx : y = x
      · subst hyx
        rw [setCpu_self, raise_requestedEpoch, if_pos rfl]
        exact le_max_right _ _
      · exact (hk.2 y hy (by simp [hyx, hnot])).trans (hgrows.grows.requested cpu y)
  | leave p cpu =>
    cases List.mem_singleton.mp hstep
    exact .same (h.swapLifecycle cpu _) hk
  | settle p k =>
    simp only [step] at hstep
    repeat' split at hstep
    all_goals cases List.mem_singleton.mp hstep
    · exact .same (h.swapLifecycle _ _) hk
    · exact .same h.stay hk
    · exact .same h.stay (p.request_sound hk)
  | holding r =>
    rcases List.mem_cons.mp hstep with hstep | hstep
    · cases hstep
      exact .same h.stay ⟨hk, fun _ hj => absurd hj (Nat.not_lt_zero _)⟩
    · cases List.mem_singleton.mp hstep
      exact .same (h.swapLifecycle _ _) trivial
  | trying r owned k =>
    obtain ⟨hr, hserved⟩ := hk
    simp only [step] at hstep
    split at hstep
    · rename_i hlt
      split at hstep <;> cases List.mem_singleton.mp hstep
      · refine .same h.stay ⟨hr, fun j hj => hserved j hj, fun x hx hnot => ?_⟩
        exact absurd (CpuMaintenance.mem_classes.mpr hx) hnot
      · rename_i hno
        refine .same h.stay ⟨hr, fun j hj ht => ?_⟩
        rcases Nat.lt_succ_iff_lt_or_eq.mp hj with hj | hj
        · exact hserved j hj ht
        · obtain rfl : j = ⟨k, hlt⟩ := Fin.ext hj
          exact absurd ht hno
    · rename_i hnot
      cases List.mem_singleton.mp hstep
      exact .same h.stay ⟨hr, fun j => hserved j (by omega)⟩
  | probe r owned cpu rest =>
    obtain ⟨hr, hserved, hdone⟩ := hk
    cases rest with
    | nil =>
      cases List.mem_singleton.mp hstep
      refine .same h.stay ⟨hr, fun j hj ht => ?_⟩
      rcases Nat.lt_succ_iff_lt_or_eq.mp hj with hj | hj
      · exact hserved j hj ht
      · obtain rfl : j = cpu := Fin.ext hj
        exact fun x hx => hdone x hx List.not_mem_nil
    | cons x rest =>
      simp only [step] at hstep
      split at hstep <;> cases List.mem_singleton.mp hstep
      · exact .same h.stay (r.kept_sound hr owned)
      · rename_i hcompleted
        refine .same h.stay ⟨hr, hserved, fun y hy hnot => ?_⟩
        by_cases hyx : y = x
        · subst hyx
          exact h.maintained cpu y _ hr.given.1 (Nat.le_of_not_lt hcompleted)
        · exact hdone y hy (by simp [hyx, hnot])
  | granted r owned =>
    cases List.mem_singleton.mp hstep
    exact .same h.stay (r.kept_sound hk.1 owned)
  | take cpu handler =>
    simp only [step] at hstep
    split at hstep <;> cases List.mem_singleton.mp hstep
    · refine .same (h.takeReasons _) ?_
      split
      · exact new_sound s _
      · trivial
    · exact .same h.stay trivial
  | serve cpu =>
    simp only [step] at hstep
    split at hstep <;> cases List.mem_singleton.mp hstep
    · exact .same h.stay (new_sound s _)
    · exact .same h.stay trivial
  | loadRequested v x =>
    cases List.mem_singleton.mp hstep
    exact .same h.stay (Snapshot.Sound.loadRequested hk x)
  | loadCompleted v x =>
    have hread := Snapshot.Sound.loadCompleted hk x
    cases x <;> cases List.mem_singleton.mp hstep
    · exact .same h.stay hread
    · exact .same h.stay (start_sound hread)
  | maintain v m =>
    cases List.mem_singleton.mp hstep
    have hrecord := h.record (e := .maintained v.cpu m) (by simp)
    refine ⟨hrecord, hrecord.grows.snapshot hk, fun x hx e h₁ he => ?_⟩
    exact ⟨[], s.log, m, rfl, CpuMaintenance.mem_classes.mp hx,
      h.mem_log ⟨h₁, he.trans ((hk.requested x).trans (h.requested v.cpu x))⟩⟩
  | acknowledge v m rest =>
    obtain ⟨hv, hdone⟩ := hk
    cases rest with
    | nil =>
      cases List.mem_singleton.mp hstep
      exact .same h.stay trivial
    | cons x rest =>
      cases List.mem_singleton.mp hstep
      have hack := h.acknowledge v.cpu x (hv.requested x) (hdone x List.mem_cons_self)
      refine ⟨hack, ⟨(hack.grows.snapshot hv).requested, fun y => ?_⟩,
        fun y hy e h₁ he => hack.grows.maintained (hdone y (List.mem_cons_of_mem x hy) e h₁ he)⟩
      simp only [acknowledged, loadCompleted, setCpu_self,
        acknowledge_completedEpoch, Function.update_apply]
      split
      · exact le_rfl
      · exact hv.completed y

/-! ### Runs -/

theorem sound_new : (.new : Shared n).Sound where
  allocated e := by
    have : ¬(1 ≤ e ∧ e ≤ 0) := by omega
    exact (if_neg this).symm
  requested _ _ := le_rfl
  completed _ _ := le_rfl
  maintained _ _ e h₁ he := absurd (h₁.trans he) (Nat.not_succ_le_zero 0)

/-- What the owner of a request knows of it. -/
theorem Call.Sound.request {k : Call n} {r : ShootdownRequest n} (h : k.Sound s)
    (howns : k.owns r) : r.Sound s := by
  unfold Call.owns at howns
  split at howns
  · exact howns ▸ h
  · exact howns ▸ h.1
  · exact howns ▸ h.1
  · exact howns ▸ h.1
  · cases howns

/-- Every state that is reached is sound. -/
theorem run_sound [DecidableEq ι] {Allowed : Config ι (Shared n) (Call n) → Call n → Prop}
    {c : Config ι (Shared n) (Call n)} (run : (system ι n Allowed).Run (initial ι n) c) :
    c.shared.Sound ∧ ∀ i, (c.calls i).Sound c.shared := by
  refine run.stable ?_ ?_ ⟨sound_new, fun _ => trivial⟩
  · rintro c k - hcalls ⟨hentry, -⟩
    cases k with
    | trying r owned k =>
      obtain ⟨-, rfl, j, howns⟩ := hentry
      exact ⟨(hcalls j).request howns, fun _ hj => absurd hj (Nat.not_lt_zero _)⟩
    | publishOnline | completeOffline | beginOffline | postReason | issue | take | serve => trivial
    | _ => cases hentry
  · intro _ s s' k k' hs hk hstep
    have hkept := step_sound hs hk hstep
    exact ⟨hkept.memory.sound, hkept.call, fun _ => hkept.memory.grows.sound⟩

end KernelAx.Tlb
