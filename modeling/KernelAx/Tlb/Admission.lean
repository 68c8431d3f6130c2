import KernelAx.Tally
import KernelAx.Tlb.Shootdown

/-!
# Shootdown — Admissions

The count in the lifecycle word of a CPU is the number of admissions that calls hold on it.
-/

namespace KernelAx.Tlb

open Interleaving Call

variable {ι : Type} {n : Nat}

/-- The admissions in the lifecycle word of a CPU. -/
def Shared.count (s : Shared n) (cpu : Fin n) : Nat := admissions (s.cpus cpu).lifecycle

/-! ### What calls hold -/

/-- The admission of the CPU an issue was made on. -/
def Issue.own (i : Issue n) (cpu : Fin n) : Nat := if i.issuer = cpu then 1 else 0

def Admitting.held (cpu j : Fin n) : Admitting n → Nat
  | .reason _ | .issuer _ => 0
  | .target p => p.own cpu
  | .gather i => i.own cpu + if i.wants cpu ∧ cpu < j then 1 else 0

/-- The admissions that a call holds on a CPU. -/
def Call.held (cpu : Fin n) : Call n → Nat
  | .tryAdmit a j | .swapAdmission a j _ => a.held cpu j
  | .setReason j _ | .leaveReason j _ => if j = cpu then 1 else 0
  | .gather i k => i.own cpu + if i.wants cpu ∧ cpu < k then 1 else 0
  | .loadEpoch i | .allocate i _ => i.own cpu + if i.wants cpu then 1 else 0
  | .visit p _ => p.own cpu
  | .publish p _ => p.own cpu + if p.wants cpu then 1 else 0
  | .raise p j _ => p.own cpu +
      match p.only with
      | none => if j = cpu then 1 else 0
      | some _ => if p.wants cpu then 1 else 0
  | .leave p j => p.own cpu + if j = cpu then 1 else 0
  | .settle p k => p.own cpu + if p.wants cpu ∧ k ≤ cpu then 1 else 0
  | .unwind i stop k _ => i.own cpu + if i.wants cpu ∧ k ≤ cpu ∧ cpu < stop then 1 else 0
  | .holding r | .trying r true _ | .probe r true _ _ | .granted r true =>
    if r.issuer = cpu then 1 else 0
  | _ => 0

/-! ### Points -/

def Admitting.Ready (cpu : Fin n) : Admitting n → Prop
  | .target p => p.only = none
  | .gather i => i.wants cpu = true
  | .issuer i => i.issuer = cpu
  | .reason _ => True

/-- What a transition has read of the lifecycle word. -/
def Transition.Ready : Transition → Prop
  | .publishOnline => True
  | .completeOffline w => cpuState w = cpuDraining ∧ admissions w = 0

/-- What a call knows of the words it has read. -/
def Call.Ready : Call n → Prop
  | .tryAdmit a j => a.Ready j
  | .swapAdmission a j w => a.Ready j ∧ cpuState w = cpuOnline ∧ w + admissionOne ≤ usizeMax
  | .closeAdmission _ w => cpuState w = cpuOnline
  | .visit p _ | .leave p _ => p.only = none
  | .raise p j _ => p.only = none ∨ p.wants j = true
  | .readRequested op _ _ | .readCompleted op _ _ _ | .commitState op _ => op.Ready
  | .readReasons w _ => (Transition.completeOffline w).Ready
  | _ => True

/-- The call is ready and holds the admissions. -/
def Call.Holds (k : Call n) (admissions : Fin n → Nat) : Prop :=
  k.Ready ∧ ∀ cpu, k.held cpu = admissions cpu

/-- An issue publishes to a CPU with an admission there. -/
theorem Call.Ready.held_raise {p : Issuing n} {j : Fin n} {rest : List MaintenanceClass}
    (h : (raise p j rest).Ready) : 1 ≤ (raise p j rest).held j := by
  cases honly : p.only with
  | none => simp [held, honly]
  | some set =>
    have hwants : p.wants j = true := h.resolve_left (by simp [honly])
    simp [held, honly, hwants]

/-! ### The word -/

variable {w : Nat} {k : Call n}

theorem releaseAdmission_eq (h : w ≤ usizeMax) (hpos : 1 ≤ admissions w) :
    releaseAdmission w = w - admissionOne := by
  unfold releaseAdmission admissionOne
  unfold usizeMax at h
  unfold admissions at hpos
  omega

theorem admissions_release (h : w ≤ usizeMax) (hpos : 1 ≤ admissions w) :
    admissions (releaseAdmission w) + 1 = admissions w := by
  rw [releaseAdmission_eq h hpos]
  unfold admissions admissionOne at *
  omega

theorem cpuState_release (h : w ≤ usizeMax) (hpos : 1 ≤ admissions w) :
    cpuState (releaseAdmission w) = cpuState w := by
  rw [releaseAdmission_eq h hpos]
  unfold cpuState admissions admissionOne at *
  omega

theorem admissions_tryAdmit (w : Nat) : admissions (w + admissionOne) = admissions w + 1 := by
  unfold admissions admissionOne
  omega

theorem cpuState_tryAdmit (w : Nat) : cpuState (w + admissionOne) = cpuState w := by
  unfold cpuState admissionOne
  omega

/-! ### Steps -/

/-- The count of each CPU moves with what the call holds there. -/
structure Moves (s : Shared n) (k : Call n) (s' : Shared n) (k' : Call n) : Prop where
  word : ∀ cpu, (s'.cpus cpu).lifecycle ≤ usizeMax
  ready : k'.Ready
  count : ∀ cpu, s'.count cpu + k.held cpu = s.count cpu + k'.held cpu

namespace Moves

variable {s s' : Shared n} {k k' : Call n} (word : ∀ cpu, (s.cpus cpu).lifecycle ≤ usizeMax)
include word

/-- The lifecycle words stay. -/
theorem keep (same : ∀ cpu, (s'.cpus cpu).lifecycle = (s.cpus cpu).lifecycle)
    (holds : k'.Holds k.held) : Moves s k s' k' where
  word cpu := by rw [same]; exact word cpu
  ready := holds.1
  count cpu := by rw [Shared.count, same, holds.2]; rfl

theorem stay (holds : k'.Holds k.held) : Moves s k s k' :=
  keep word (fun _ => rfl) holds

variable {j : Fin n}

/-- One word is written. -/
theorem write {w : Nat} (bound : w ≤ usizeMax) (ready : k'.Ready)
    (held : admissions w + k.held j = s.count j + k'.held j)
    (others : ∀ cpu, cpu ≠ j → k'.held cpu = k.held cpu) : Moves s k (s.swapLifecycle j w) k' where
  word := s.setCpu_forall (P := fun _ b => b.lifecycle ≤ usizeMax) bound fun cpu _ => word cpu
  ready := ready
  count := s.setCpu_forall (P := fun cpu b => admissions b.lifecycle + k.held cpu =
    s.count cpu + k'.held cpu) held fun cpu hcpu => by rw [others cpu hcpu]; rfl

/-- The state changes and the admissions do not. -/
theorem transit {w : Nat} (bound : w ≤ usizeMax) (same : admissions w = s.count j)
    (holds : k'.Holds k.held) : Moves s k (s.swapLifecycle j w) k' :=
  write word bound holds.1 (by rw [same, holds.2]) fun cpu _ => holds.2 cpu

theorem enter (bound : (s.cpus j).lifecycle + admissionOne ≤ usizeMax)
    (holds : k'.Holds fun cpu => k.held cpu + if j = cpu then 1 else 0) :
    Moves s k (s.swapLifecycle j ((s.cpus j).lifecycle + admissionOne)) k' := by
  refine write word bound holds.1 ?_ fun cpu hcpu => ?_
  · simp only [holds.2 j, if_true, admissions_tryAdmit, Shared.count]
    omega
  · simp [holds.2 cpu, hcpu.symm]

theorem leave (enough : ∀ cpu, k.held cpu ≤ s.count cpu) (ready : k'.Ready)
    (held : ∀ cpu, k.held cpu = k'.held cpu + if j = cpu then 1 else 0) :
    Moves s k (s.release j) k' := by
  have hj := held j
  rw [if_pos rfl] at hj
  have hpos : 1 ≤ admissions (s.cpus j).lifecycle :=
    (Nat.le_add_left 1 _).trans (hj ▸ enough j)
  refine write word ?_ ready ?_ fun cpu hcpu => ?_
  · rw [releaseAdmission_eq (word j) hpos]
    exact (Nat.sub_le _ _).trans (word j)
  · have hcount := admissions_release (word j) hpos
    rw [hj, Shared.count]
    omega
  · rw [held cpu, if_neg (Ne.symm hcpu)]
    rfl

end Moves

/-! ### Continuations -/

theorem Issue.wants_of_none {i : Issue n} (h : i.only = none) (cpu : Fin n) :
    i.wants cpu = false := by
  simp [Issue.wants, h]

theorem Issue.only_of_wants {i : Issue n} {cpu : Fin n} (h : i.wants cpu = true) :
    ∃ set, i.only = some set := by
  rw [← Option.ne_none_iff_exists']
  intro hnone
  rw [i.wants_of_none hnone] at h
  cases h

namespace Admitting

variable {a : Admitting n} {j : Fin n} (h : a.Ready j)
include h

theorem refuse_holds (e : AdmissionError) : (a.refuse j e).Holds (a.held · j) := by
  cases a with
  | reason _ | issuer _ => cases e <;> exact ⟨trivial, fun _ => rfl⟩
  | target p =>
    cases e
    · exact ⟨h, fun _ => rfl⟩
    · exact ⟨trivial, fun cpu => by simp [refuse, Call.held, held]⟩
  | gather i =>
    cases e <;> exact ⟨trivial, fun cpu => by simp [refuse, Call.held, held]⟩

theorem retry_holds (w : Nat) : (a.retry j w).Holds (a.held · j) := by
  unfold retry
  split
  · exact refuse_holds h _
  · rename_i hok
    refine ⟨⟨h, ?_⟩, fun _ => rfl⟩
    unfold tryAdmit at hok
    split at hok
    · cases hok
    · split at hok
      · exact ⟨not_not.mp ‹_›, ‹_›⟩
      · cases hok

theorem admitted_holds :
    (a.admitted j).Holds fun cpu => a.held cpu j + if j = cpu then 1 else 0 := by
  cases a with
  | reason r => exact ⟨trivial, fun cpu => (Nat.zero_add _).symm⟩
  | issuer i =>
    have hissuer : i.issuer = j := h
    cases honly : i.only with
    | none =>
      simp only [admitted, honly]
      exact ⟨trivial, fun cpu => by
        simp [Call.held, held, Issue.own, i.wants_of_none honly, hissuer]⟩
    | some set =>
      simp only [admitted, honly]
      exact ⟨trivial, fun cpu => by simp [Call.held, held, Issue.own, hissuer]⟩
  | target p =>
    have hnone : p.only = none := h
    exact ⟨.inl hnone, fun cpu => by simp [admitted, Call.held, held, hnone]⟩
  | gather i =>
    refine ⟨trivial, fun cpu => ?_⟩
    have hwants : i.wants j = true := h
    simp only [admitted, Call.held, held, Nat.add_assoc]
    congr 1
    by_cases hj : j = cpu
    · subst hj
      simp [hwants]
    · have hlt : ((cpu : Nat) < j + 1) ↔ cpu < j := by omega
      simp [hlt, hj]

end Admitting

theorem closeRetry_holds (j : Fin n) (w : Nat) : (closeRetry j w).Holds fun _ => 0 := by
  unfold closeRetry
  split
  · exact ⟨trivial, fun _ => rfl⟩
  · exact ⟨not_not.mp ‹_›, fun _ => rfl⟩

theorem Issue.allocateRetry_holds (i : Issue n) (epoch : Nat) :
    (i.allocateRetry epoch).Holds fun cpu => i.own cpu + if i.wants cpu then 1 else 0 := by
  unfold Issue.allocateRetry
  split
  · exact ⟨trivial, fun _ => rfl⟩
  · exact ⟨trivial, fun cpu => by simp [held]⟩

theorem Issue.start_holds (i : Issue n) (epoch : Nat) :
    (i.issuing epoch).start.Holds fun cpu => i.own cpu + if i.wants cpu then 1 else 0 := by
  unfold Issuing.start
  split
  · rename_i honly
    have hnone : i.only = none := honly
    exact ⟨honly, fun cpu => by simp [held, Issue.issuing, i.wants_of_none hnone]⟩
  · exact ⟨trivial, fun _ => rfl⟩

theorem Issuing.posted_holds (p : Issuing n) (j : Fin n) (kick : Bool) :
    (p.posted j kick).Holds (raise p j []).held := by
  unfold Issuing.posted
  split
  · rename_i honly
    exact ⟨honly, fun cpu => by simp [held, honly]⟩
  · rename_i honly
    exact ⟨trivial, fun cpu => by simp [held, honly]⟩

theorem Transition.next_holds {op : Transition} (h : op.Ready) (j : Fin n) (x : MaintenanceClass)
    (requested completed : Nat) : (op.next j x requested completed).Holds fun _ => 0 := by
  cases op <;> cases x <;> simp only [Transition.next] <;> split
  all_goals first | exact ⟨trivial, fun _ => rfl⟩ | exact ⟨h, fun _ => rfl⟩

theorem Snapshot.start_holds (v : Snapshot n) : v.start.Holds fun _ => 0 := by
  unfold Snapshot.start
  split <;> exact ⟨trivial, fun _ => rfl⟩

/-! ### The step -/

theorem Shared.takeReasons_lifecycle (s : Shared n) (j cpu : Fin n) :
    ((s.takeReasons j).cpus cpu).lifecycle = (s.cpus cpu).lifecycle := by
  have hframe : ((s.setCpu j { s.cpus j with pendingReasons := 0 }).cpus cpu).lifecycle
      = (s.cpus cpu).lifecycle := by
    refine s.setCpu_frame (·.lifecycle) ?_ cpu
    rfl
  unfold Shared.takeReasons
  split <;> exact hframe

theorem step_moves {s s' : Shared n} {k' : Call n}
    (word : ∀ cpu, (s.cpus cpu).lifecycle ≤ usizeMax) (enough : ∀ cpu, k.held cpu ≤ s.count cpu)
    (ready : k.Ready) (hstep : (s', k') ∈ step s k) : Moves s k s' k' := by
  cases k with
  | idle => cases hstep
  | returned | readRequested | loadRequested | publishOnline | readReasons | postReason | issue
  | visit | serve =>
    simp only [step] at hstep
    repeat' split at hstep
    all_goals
      cases List.mem_singleton.mp hstep
      first
      | exact .stay word ⟨trivial, fun _ => rfl⟩
      | exact .stay word ⟨ready, fun _ => rfl⟩
      | exact .stay word ⟨rfl, fun _ => rfl⟩
  | probe r owned j rest =>
    cases rest <;> simp only [step] at hstep
    on_goal 2 => split at hstep
    all_goals
      cases List.mem_singleton.mp hstep
      cases owned <;> exact .stay word ⟨trivial, fun _ => rfl⟩
  | trying r owned | granted r owned =>
    simp only [step] at hstep
    repeat' split at hstep
    all_goals
      cases List.mem_singleton.mp hstep
      cases owned <;> exact .stay word ⟨trivial, fun _ => rfl⟩
  | completeOffline j =>
    simp only [step] at hstep
    repeat' split at hstep
    all_goals cases List.mem_singleton.mp hstep
    · exact .stay word ⟨trivial, fun _ => rfl⟩
    · exact .stay word ⟨trivial, fun _ => rfl⟩
    · exact .stay word ⟨⟨not_not.mp ‹_›, not_not.mp ‹_›⟩, fun _ => rfl⟩
    · exact .stay word ⟨trivial, fun _ => rfl⟩
  | readCompleted op j x requested =>
    cases List.mem_singleton.mp hstep
    exact .stay word (op.next_holds ready j x requested ((s.cpus j).completedEpoch x))
  | commitState op j =>
    cases op with
    | publishOnline =>
      simp only [step] at hstep
      split at hstep <;> cases List.mem_singleton.mp hstep
      · rename_i hword
        exact .transit word (by decide) (by rw [Shared.count, hword]; rfl) ⟨trivial, fun _ => rfl⟩
      · exact .stay word ⟨trivial, fun _ => rfl⟩
    | completeOffline w =>
      simp only [step] at hstep
      split at hstep <;> cases List.mem_singleton.mp hstep
      · rename_i hword
        refine .transit word (by decide) ?_ ⟨trivial, fun _ => rfl⟩
        rw [Shared.count, hword, ready.2]
        rfl
      · exact .stay word ⟨trivial, fun _ => rfl⟩
  | beginOffline j =>
    simp only [step] at hstep
    split at hstep <;> cases List.mem_singleton.mp hstep
    · exact .stay word (closeRetry_holds ⟨j, ‹_›⟩ (s.cpus ⟨j, ‹_›⟩).lifecycle)
    · exact .stay word ⟨trivial, fun _ => rfl⟩
  | closeAdmission j w =>
    obtain ⟨rfl, ⟨⟩⟩ | ⟨⟨⟩⟩ := mem_weakSwap hstep
    · have honline : cpuState (s.cpus j).lifecycle = cpuOnline := ready
      have hbound := word j
      refine .transit word ?_ ?_ ⟨trivial, fun _ => rfl⟩
      · unfold cpuState cpuOnline cpuDraining usizeMax at *
        omega
      · unfold Shared.count admissions
        unfold cpuState cpuOnline cpuDraining at *
        omega
    · exact .stay word (closeRetry_holds j (s.cpus j).lifecycle)
  | tryAdmit a j =>
    cases List.mem_singleton.mp hstep
    exact .stay word (Admitting.retry_holds ready (s.cpus j).lifecycle)
  | swapAdmission a j w =>
    obtain ⟨rfl, ⟨⟩⟩ | ⟨⟨⟩⟩ := mem_weakSwap hstep
    · exact .enter word ready.2.2 (Admitting.admitted_holds ready.1)
    · exact .stay word (Admitting.retry_holds ready.1 (s.cpus j).lifecycle)
  | setReason j r =>
    cases List.mem_singleton.mp hstep
    exact .keep word (s.setCpu_frame (·.lifecycle) rfl) ⟨trivial, fun _ => rfl⟩
  | leaveReason j kick =>
    cases List.mem_singleton.mp hstep
    exact .leave word enough trivial fun cpu => (Nat.zero_add _).symm
  | gather i k =>
    simp only [step] at hstep
    split at hstep
    · rename_i hlt
      split at hstep <;> cases List.mem_singleton.mp hstep
      · exact .stay word ⟨‹_›, fun _ => rfl⟩
      · rename_i hwants
        refine .stay word ⟨trivial, fun cpu => ?_⟩
        have hiff : (i.wants cpu = true ∧ (cpu : Nat) < k + 1) ↔
            (i.wants cpu = true ∧ cpu < k) := by
          refine and_congr_right fun hcpu => ⟨fun hle => ?_, Nat.lt_succ_of_lt⟩
          refine lt_of_le_of_ne (Nat.lt_succ_iff.mp hle) fun heq => hwants ?_
          rwa [← Fin.ext (a := cpu) (b := ⟨k, hlt⟩) heq]
        simp only [held, hiff]
    · rename_i hlt
      cases List.mem_singleton.mp hstep
      refine .stay word ⟨trivial, fun cpu => ?_⟩
      have hcpu : (cpu : Nat) < k := by omega
      simp [held, hcpu]
  | loadEpoch i =>
    cases List.mem_singleton.mp hstep
    exact .stay word (i.allocateRetry_holds s.nextEpoch)
  | allocate i epoch =>
    obtain ⟨-, ⟨⟩⟩ | ⟨⟨⟩⟩ := mem_weakSwap hstep
    · exact .keep word (fun _ => rfl) (i.start_holds (epoch + 1))
    · exact .stay word (i.allocateRetry_holds s.nextEpoch)
  | publish p k =>
    simp only [step] at hstep
    split at hstep
    · split at hstep <;> cases List.mem_singleton.mp hstep
      · rename_i hwants
        obtain ⟨set, honly⟩ := Issue.only_of_wants hwants
        exact .stay word ⟨.inr hwants, fun cpu => by simp [held, honly]⟩
      · exact .stay word ⟨trivial, fun _ => rfl⟩
    · cases List.mem_singleton.mp hstep
      exact .stay word ⟨trivial, fun cpu => by simp [held]⟩
  | raise p j rest =>
    cases rest with
    | nil =>
      cases List.mem_singleton.mp hstep
      exact .keep word (s.setCpu_frame (·.lifecycle) rfl) (p.posted_holds j _)
    | cons x rest =>
      cases List.mem_singleton.mp hstep
      exact .keep word (s.setCpu_frame (·.lifecycle) rfl) ⟨ready, fun _ => rfl⟩
  | leave p j =>
    cases List.mem_singleton.mp hstep
    exact .leave word enough ready fun _ => rfl
  | settle p k =>
    simp only [step] at hstep
    split at hstep
    · rename_i hlt
      split at hstep <;> cases List.mem_singleton.mp hstep
      · rename_i hwants
        refine .leave word enough trivial fun cpu => ?_
        simp only [held, Fin.ext_iff]
        grind
      · rename_i hwants
        refine .stay word ⟨trivial, fun cpu => ?_⟩
        simp only [held]
        grind
    · rename_i hlt
      cases List.mem_singleton.mp hstep
      refine .stay word ⟨trivial, fun cpu => ?_⟩
      have hcpu : ¬ k ≤ (cpu : Nat) := by omega
      simp only [held, hcpu, and_false, if_false, Nat.add_zero]
      rfl
  | unwind i stop k e =>
    simp only [step] at hstep
    split at hstep
    · rename_i hlt
      split at hstep <;> cases List.mem_singleton.mp hstep
      · rename_i hwants
        refine .leave word enough trivial fun cpu => ?_
        simp only [held, Fin.ext_iff]
        grind
      · rename_i hwants
        refine .stay word ⟨trivial, fun cpu => ?_⟩
        simp only [held]
        grind
    · rename_i hlt
      cases List.mem_singleton.mp hstep
      refine .leave word enough trivial fun cpu => ?_
      have hcpu : ¬ (k ≤ (cpu : Nat) ∧ (cpu : Nat) < stop) := by omega
      simp [held, hcpu, Issue.own]
  | holding r =>
    rcases List.mem_cons.mp hstep with hstep | hstep
    · cases hstep
      exact .stay word ⟨trivial, fun _ => rfl⟩
    · cases List.mem_singleton.mp hstep
      exact .leave word enough trivial fun cpu => (Nat.zero_add _).symm
  | take j handler =>
    simp only [step] at hstep
    split at hstep <;> cases List.mem_singleton.mp hstep
    · exact .keep word (s.takeReasons_lifecycle _)
        ⟨by split <;> trivial, fun cpu => by split <;> rfl⟩
    · exact .stay word ⟨trivial, fun _ => rfl⟩
  | loadCompleted v x =>
    cases x <;> cases List.mem_singleton.mp hstep
    · exact .stay word ⟨trivial, fun _ => rfl⟩
    · exact .stay word (Snapshot.start_holds _)
  | maintain v m =>
    cases List.mem_singleton.mp hstep
    exact .keep word (fun _ => rfl) ⟨trivial, fun _ => rfl⟩
  | acknowledge v m rest =>
    cases rest with
    | nil =>
      cases List.mem_singleton.mp hstep
      exact .stay word ⟨trivial, fun _ => rfl⟩
    | cons x rest =>
      cases List.mem_singleton.mp hstep
      exact .keep word (s.setCpu_frame (·.lifecycle) rfl) ⟨trivial, fun _ => rfl⟩

/-! ### What a step writes -/

/-- The accesses of a step, with the points at which they are made. -/
inductive Access (s : Shared n) : Call n → Shared n → Prop
  | none {k : Call n} : Access s k s
  | publishOnline {cpu} (same : (s.cpus cpu).lifecycle = cpuOffline) :
      Access s (.commitState .publishOnline cpu) (s.swapLifecycle cpu cpuOnline)
  | completeOffline {cpu} {w : Nat} (same : (s.cpus cpu).lifecycle = w) :
      Access s (.commitState (.completeOffline w) cpu) (s.swapLifecycle cpu cpuOffline)
  | close {cpu} {w : Nat} (same : (s.cpus cpu).lifecycle = w) :
      Access s (.closeAdmission cpu w) (s.swapLifecycle cpu (w - cpuState w + cpuDraining))
  | enter {a cpu} {w : Nat} (same : (s.cpus cpu).lifecycle = w) :
      Access s (.swapAdmission a cpu w) (s.swapLifecycle cpu (w + admissionOne))
  | leave {k : Call n} {cpu} (held : 1 ≤ k.held cpu) : Access s k (s.release cpu)
  | reason {cpu r} :
      Access s (.setReason cpu r) (s.setCpu cpu ((s.cpus cpu).post r))
  | allocate {i epoch} : Access s (.allocate i epoch) s.allocateEpoch
  | raise {p cpu x rest} :
      Access s (.raise p cpu (x :: rest)) (s.setCpu cpu ((s.cpus cpu).raise x p.epoch))
  | post {p cpu} : Access s (.raise p cpu []) (s.postMaintenance cpu p.epoch)
  | take {cpu : Fin n} {handler} : Access s (.take cpu handler) (s.takeReasons cpu)
  | maintain {v m} :
      Access s (.maintain v m) (s.record (.maintained v.cpu m))
  | acknowledge {v m x rest} : Access s (.acknowledge v m (x :: rest))
        (s.setCpu v.cpu ((s.cpus v.cpu).acknowledge x (v.requested x)))

theorem step_access {s s' : Shared n} {k' : Call n} (hstep : (s', k') ∈ step s k) :
    Access s k s' := by
  cases k with
  | idle => cases hstep
  | commitState op j =>
    cases op <;> simp only [step] at hstep <;> split at hstep <;>
      cases List.mem_singleton.mp hstep
    · exact .publishOnline ‹_›
    · exact .none
    · exact .completeOffline ‹_›
    · exact .none
  | closeAdmission j w =>
    obtain ⟨hword, ⟨⟩⟩ | ⟨⟨⟩⟩ := mem_weakSwap hstep
    · exact .close hword
    · exact .none
  | swapAdmission a j w =>
    obtain ⟨hword, ⟨⟩⟩ | ⟨⟨⟩⟩ := mem_weakSwap hstep
    · exact .enter hword
    · exact .none
  | allocate i epoch =>
    obtain ⟨-, ⟨⟩⟩ | ⟨⟨⟩⟩ := mem_weakSwap hstep
    · exact .allocate
    · exact .none
  | setReason j r => cases List.mem_singleton.mp hstep; exact .reason
  | leaveReason j kick | leave p j =>
    cases List.mem_singleton.mp hstep
    exact .leave (by simp [held])
  | raise p j rest =>
    cases rest <;> cases List.mem_singleton.mp hstep
    · exact .post
    · exact .raise
  | settle p k =>
    simp only [step] at hstep
    repeat' split at hstep
    all_goals cases List.mem_singleton.mp hstep
    · exact .leave (by simp [held, *])
    · exact .none
    · exact .none
  | unwind i stop k e =>
    simp only [step] at hstep
    repeat' split at hstep
    all_goals cases List.mem_singleton.mp hstep
    · rename_i hlt _
      exact .leave (by simp [held, *])
    · exact .none
    · exact .leave (by simp [held, Issue.own])
  | holding r =>
    rcases List.mem_cons.mp hstep with hstep | hstep
    · cases hstep
      exact .none
    · cases List.mem_singleton.mp hstep
      exact .leave (by simp [held])
  | take j handler =>
    simp only [step] at hstep
    split at hstep <;> cases List.mem_singleton.mp hstep
    · exact @Access.take n s ⟨j, ‹_›⟩ handler
    · exact .none
  | maintain v m => cases List.mem_singleton.mp hstep; exact .maintain
  | acknowledge v m rest =>
    cases rest <;> cases List.mem_singleton.mp hstep
    · exact .none
    · exact .acknowledge
  | probe r owned j rest =>
    cases rest with
    | nil => cases List.mem_singleton.mp hstep; exact .none
    | cons x rest =>
      simp only [step] at hstep
      split at hstep <;> cases List.mem_singleton.mp hstep <;> exact .none
  | loadCompleted v x => cases x <;> cases List.mem_singleton.mp hstep <;> exact .none
  | returned | readRequested | readCompleted | tryAdmit | loadEpoch | granted | loadRequested =>
    cases List.mem_singleton.mp hstep
    exact .none
  | publishOnline | completeOffline | readReasons | beginOffline | postReason | issue | gather
  | visit | publish | trying | serve =>
    simp only [step] at hstep
    repeat' split at hstep
    all_goals cases List.mem_singleton.mp hstep; exact .none

/-! ### Runs -/

/-- The counts are what the calls hold. -/
structure Counted (c : Config ι (Shared n) (Call n)) : Prop where
  word : ∀ cpu, (c.shared.cpus cpu).lifecycle ≤ usizeMax
  ready : ∀ i, (c.calls i).Ready
  tally : ∀ cpu, Tally (fun i => (c.calls i).held cpu) (c.shared.count cpu)

variable {Allowed : Config ι (Shared n) (Call n) → Call n → Prop}

/-- A new call holds nothing. -/
theorem Call.Entry.held {c : Config ι (Shared n) (Call n)} (h : k.Entry c) :
    k.Ready ∧ ∀ cpu, k.held cpu = 0 := by
  cases k with
  | trying r owned k =>
    obtain ⟨rfl, -⟩ := h
    exact ⟨trivial, fun _ => rfl⟩
  | publishOnline | completeOffline | beginOffline | postReason | issue | take | serve =>
    exact ⟨trivial, fun _ => rfl⟩
  | _ => cases h

theorem counted_initial : Counted (initial ι n) where
  word _ := Nat.zero_le _
  ready _ := trivial
  tally cpu := by
    have hzero : (initial ι n).shared.count cpu = 0 := Nat.zero_div 4
    rw [hzero]
    exact Tally.zero

variable [DecidableEq ι]

theorem Counted.next {i : ι} {c c' : Config ι (Shared n) (Call n)}
    (hnext : (system ι n Allowed).Next i c c') (h : Counted c) : Counted c' := by
  have hready : ∀ {k : Call n}, k.Ready → ∀ j, (Function.update c.calls i k j).Ready := by
    intro k hk j
    rw [Function.update_apply]
    split
    · exact hk
    · exact h.ready j
  cases hnext with
  | call idle starts =>
    obtain ⟨hk, hheld⟩ := starts.1.held
    refine ⟨h.word, hready hk, fun cpu => (h.tally cpu).update_comp ?_⟩
    rw [hheld, idle]
    rfl
  | act hstep =>
    have hmoves := step_moves h.word (fun cpu => (h.tally cpu).le i) (h.ready i) hstep
    exact ⟨hmoves.word, hready hmoves.ready,
      fun cpu => (h.tally cpu).update_comp (hmoves.count cpu)⟩

theorem run_counted {c : Config ι (Shared n) (Call n)}
    (run : (system ι n Allowed).Run (initial ι n) c) : Counted c :=
  run.invariant Counted.next counted_initial

/-! ### The lifecycle -/

/-- What can become of a lifecycle word in one access. -/
inductive LifecycleMove (w : Nat) : Nat → Prop
  | keep : LifecycleMove w w
  | publishOnline (offline : w = cpuOffline) : LifecycleMove w cpuOnline
  | enter (online : cpuState w = cpuOnline) (room : w + admissionOne ≤ usizeMax) :
      LifecycleMove w (w + admissionOne)
  | leave (held : 1 ≤ admissions w) : LifecycleMove w (w - admissionOne)
  | close (online : cpuState w = cpuOnline) : LifecycleMove w (w - cpuState w + cpuDraining)
  | completeOffline (draining : cpuState w = cpuDraining) (empty : admissions w = 0) :
      LifecycleMove w cpuOffline

theorem LifecycleMove.admissions_le {w' : Nat} (h : LifecycleMove w w')
    (closed : cpuState w ≠ cpuOnline) : admissions w' ≤ admissions w := by
  cases h with
  | keep => exact le_rfl
  | publishOnline | completeOffline => exact Nat.zero_le _
  | enter online | close online => exact absurd online closed
  | leave => exact Nat.div_le_div_right (Nat.sub_le _ _)

theorem Access.lifecycle {s s' : Shared n} (h : Access s k s')
    (word : ∀ cpu, (s.cpus cpu).lifecycle ≤ usizeMax) (ready : k.Ready)
    (enough : ∀ cpu, k.held cpu ≤ s.count cpu) (cpu : Fin n) :
    LifecycleMove (s.cpus cpu).lifecycle (s'.cpus cpu).lifecycle := by
  have swap {j w'} (h : LifecycleMove (s.cpus j).lifecycle w') :
      LifecycleMove (s.cpus cpu).lifecycle ((s.swapLifecycle j w').cpus cpu).lifecycle :=
    s.setCpu_forall (P := fun cpu b => LifecycleMove (s.cpus cpu).lifecycle b.lifecycle) h
      (fun _ _ => .keep) cpu
  have frame {j b} (h : b.lifecycle = (s.cpus j).lifecycle) :
      LifecycleMove (s.cpus cpu).lifecycle ((s.setCpu j b).cpus cpu).lifecycle := by
    rw [s.setCpu_frame (·.lifecycle) h cpu]
    exact .keep
  cases h with
  | none | allocate | maintain => exact .keep
  | publishOnline same => exact swap (.publishOnline same)
  | completeOffline same => exact swap (.completeOffline (same ▸ ready.1) (same ▸ ready.2))
  | close same =>
    subst same
    exact swap (.close ready)
  | enter same =>
    subst same
    exact swap (.enter ready.2.1 ready.2.2)
  | @leave _ j held =>
    have hpos := held.trans (enough j)
    refine swap ?_
    rw [releaseAdmission_eq (word j) hpos]
    exact .leave hpos
  | reason | raise | post | acknowledge => exact frame rfl
  | take =>
    rw [s.takeReasons_lifecycle]
    exact .keep

theorem Counted.lifecycle {i : ι} {c c' : Config ι (Shared n) (Call n)} (h : Counted c)
    (hnext : (system ι n Allowed).Next i c c') (cpu : Fin n) :
    LifecycleMove (c.shared.cpus cpu).lifecycle (c'.shared.cpus cpu).lifecycle := by
  cases hnext with
  | call => exact .keep
  | act hstep =>
    exact (step_access hstep).lifecycle h.word (h.ready i) (fun cpu => (h.tally cpu).le i) cpu

end KernelAx.Tlb
