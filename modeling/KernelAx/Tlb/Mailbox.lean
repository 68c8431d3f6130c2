import Mathlib.Data.BitVec
import Mathlib.Logic.Function.Basic

/-!
# Shootdown — Mailboxes

The words of a shootdown domain: the global epoch and, for each CPU, the lifecycle word, the pending
reasons and the requested and completed epochs of the two maintenance classes.

The lifecycle word holds the state of the CPU in its two low bits and the number of admissions above
them, so that one compare-and-swap sees both.

`Shared.log` is not in the source. It records, newest first, the moments that results speak of: an
epoch is allocated, a CPU runs its local maintenance, the maintenance reason is posted or taken.
-/

namespace KernelAx.Tlb

def usizeMax : Nat := 2 ^ 64 - 1

def u64Max : Nat := 2 ^ 64 - 1

/-! ### Maintenance -/

inductive MaintenanceClass
  | tlb
  | icache
  deriving DecidableEq, Repr

/-- The nonempty sets of maintenance classes. -/
inductive CpuMaintenance
  | tlb
  | icache
  | tlbAndIcache
  deriving DecidableEq, Repr

namespace CpuMaintenance

def needsTlb : CpuMaintenance → Bool
  | .tlb | .tlbAndIcache => true
  | .icache => false

def needsIcache : CpuMaintenance → Bool
  | .icache | .tlbAndIcache => true
  | .tlb => false

def needs (m : CpuMaintenance) : MaintenanceClass → Bool
  | .tlb => m.needsTlb
  | .icache => m.needsIcache

def fromPending : Bool → Bool → Option CpuMaintenance
  | false, false => none
  | true, false => some .tlb
  | false, true => some .icache
  | true, true => some .tlbAndIcache

/-- The classes in the order in which an operation goes through them. -/
def classes (m : CpuMaintenance) : List MaintenanceClass :=
  [.tlb, .icache].filter m.needs

theorem mem_classes {m : CpuMaintenance} {x : MaintenanceClass} :
    x ∈ m.classes ↔ m.needs x = true := by
  cases m <;> cases x <;> decide

theorem fromPending_needs {pending : MaintenanceClass → Bool} {m : CpuMaintenance}
    (h : fromPending (pending .tlb) (pending .icache) = some m) (x : MaintenanceClass) :
    m.needs x = pending x := by
  cases hτ : pending .tlb <;> cases hι : pending .icache <;> rw [hτ, hι] at h <;> cases h <;>
    cases x <;> simp [needs, needsTlb, needsIcache, hτ, hι]

theorem fromPending_none {pending : MaintenanceClass → Bool}
    (h : fromPending (pending .tlb) (pending .icache) = none) (x : MaintenanceClass) :
    pending x = false := by
  cases hτ : pending .tlb <;> cases hι : pending .icache <;> rw [hτ, hι] at h <;> cases h
  cases x
  · exact hτ
  · exact hι

end CpuMaintenance

/-! ### Reasons -/

/-- A reason is one bit of the mailbox word. -/
abbrev IpiReason : Type := Fin 64

def cpuMaintenanceReason : IpiReason := 0

def IpiReason.bit (reason : IpiReason) : BitVec 64 := BitVec.twoPow 64 reason

/-! ### The lifecycle word -/

def cpuOffline : Nat := 0
def cpuOnline : Nat := 1
def cpuDraining : Nat := 2
def admissionOne : Nat := 4

/-- The state in a lifecycle word. -/
def cpuState (lifecycle : Nat) : Nat := lifecycle % 4

/-- The number of admissions in a lifecycle word. -/
def admissions (lifecycle : Nat) : Nat := lifecycle / 4

/-- `fetch_sub` of one admission. -/
def releaseAdmission (lifecycle : Nat) : Nat := (lifecycle + (2 ^ 64 - admissionOne)) % 2 ^ 64

/-! ### Errors -/

inductive CpuLifecycleError
  | invalidCpu
  | invalidState
  | mailboxNotDrained
  | admissionInProgress
  | shootdownPending
  | reasonPending
  deriving DecidableEq, Repr

inductive ShootdownIssueError
  | invalidCpu
  | issuerOffline
  | emptyTargetSet
  | issuerIsTarget
  | targetOffline
  | admissionExhausted
  | epochExhausted
  deriving DecidableEq, Repr

inductive MailboxError
  | invalidCpu
  deriving DecidableEq, Repr

inductive ReasonPostError
  | invalidCpu
  | cpuUnavailable
  | admissionExhausted
  | reservedMaintenanceReason
  deriving DecidableEq, Repr

inductive AdmissionError
  | unavailable
  | exhausted
  deriving DecidableEq, Repr

/-- The word after one more admission. -/
def tryAdmit (lifecycle : Nat) : Except AdmissionError Nat :=
  if cpuState lifecycle ≠ cpuOnline then .error .unavailable
  else if lifecycle + admissionOne ≤ usizeMax then .ok (lifecycle + admissionOne)
  else .error .exhausted

/-! ### Memory -/

/-- The atomic words of a CPU. -/
structure CpuMailbox where
  lifecycle : Nat
  pendingReasons : BitVec 64
  requestedEpoch : MaintenanceClass → Nat
  completedEpoch : MaintenanceClass → Nat

def CpuMailbox.new : CpuMailbox := ⟨cpuOffline, 0, fun _ => 0, fun _ => 0⟩

namespace CpuMailbox

/-- The maintenance reason is pending. -/
def posted (b : CpuMailbox) : Bool := b.pendingReasons.getLsbD 0

/-- `fetch_max` on a requested epoch. -/
def raise (b : CpuMailbox) (x : MaintenanceClass) (epoch : Nat) : CpuMailbox :=
  { b with requestedEpoch := Function.update b.requestedEpoch x (max (b.requestedEpoch x) epoch) }

/-- `fetch_max` on a completed epoch. -/
def acknowledge (b : CpuMailbox) (x : MaintenanceClass) (epoch : Nat) : CpuMailbox :=
  { b with completedEpoch := Function.update b.completedEpoch x (max (b.completedEpoch x) epoch) }

/-- `fetch_or` of a reason. -/
def post (b : CpuMailbox) (reason : IpiReason) : CpuMailbox :=
  { b with pendingReasons := b.pendingReasons ||| reason.bit }

/-- The reason was not pending before. -/
def needsKick (b : CpuMailbox) (reason : IpiReason) : Bool := !b.pendingReasons.getLsbD reason

theorem raise_requestedEpoch (b : CpuMailbox) (x : MaintenanceClass) (epoch : Nat)
    (y : MaintenanceClass) : (b.raise x epoch).requestedEpoch y =
      if y = x then max (b.requestedEpoch x) epoch else b.requestedEpoch y :=
  Function.update_apply ..

theorem acknowledge_completedEpoch (b : CpuMailbox) (x : MaintenanceClass) (epoch : Nat)
    (y : MaintenanceClass) : (b.acknowledge x epoch).completedEpoch y =
      if y = x then max (b.completedEpoch x) epoch else b.completedEpoch y :=
  Function.update_apply ..

end CpuMailbox

/-- What the log records. -/
inductive Event (n : Nat)
  /-- an epoch is allocated -/
  | allocated (epoch : Nat)
  /-- the callback of a CPU runs -/
  | maintained (cpu : Fin n) (m : CpuMaintenance)
  /-- the issue of an epoch posts the maintenance reason and is told whether a kick is needed -/
  | posted (cpu : Fin n) (epoch : Nat) (kick : Bool)
  /-- a pending maintenance reason is taken -/
  | cleared (cpu : Fin n)
  deriving DecidableEq

/-- The memory of the domain, with a log of what happened in it. -/
structure Shared (n : Nat) where
  nextEpoch : Nat
  cpus : Fin n → CpuMailbox
  log : List (Event n)

namespace Shared

variable {n : Nat}

def new : Shared n := ⟨0, fun _ => .new, []⟩

def setCpu (s : Shared n) (cpu : Fin n) (b : CpuMailbox) : Shared n :=
  { s with cpus := Function.update s.cpus cpu b }

def record (s : Shared n) (e : Event n) : Shared n := { s with log := e :: s.log }

section

variable (s : Shared n)
include s

@[simp] theorem setCpu_nextEpoch (cpu : Fin n) (b : CpuMailbox) :
    (s.setCpu cpu b).nextEpoch = s.nextEpoch := rfl

@[simp] theorem setCpu_log (cpu : Fin n) (b : CpuMailbox) :
    (s.setCpu cpu b).log = s.log := rfl

@[simp] theorem setCpu_self (cpu : Fin n) (b : CpuMailbox) :
    (s.setCpu cpu b).cpus cpu = b := Function.update_self ..

theorem setCpu_of_ne {cpu j : Fin n} (h : j ≠ cpu) (b : CpuMailbox) :
    (s.setCpu cpu b).cpus j = s.cpus j := Function.update_of_ne h ..

/-- What holds of the new mailbox, and of the old ones of the other CPUs. -/
theorem setCpu_forall {P : Fin n → CpuMailbox → Prop} {cpu : Fin n} {b : CpuMailbox}
    (new : P cpu b) (others : ∀ j, j ≠ cpu → P j (s.cpus j)) (j : Fin n) :
    P j ((s.setCpu cpu b).cpus j) := by
  by_cases hj : j = cpu
  · subst hj
    rwa [setCpu_self]
  · rw [setCpu_of_ne s hj]
    exact others j hj

/-- What a write to the mailbox of one CPU leaves alone, it leaves alone everywhere. -/
theorem setCpu_frame {α : Type} (f : CpuMailbox → α) {cpu : Fin n} {b : CpuMailbox}
    (h : f b = f (s.cpus cpu)) (j : Fin n) : f ((s.setCpu cpu b).cpus j) = f (s.cpus j) :=
  s.setCpu_forall (P := fun j b => f b = f (s.cpus j)) h (fun _ _ => rfl) j

@[simp] theorem record_nextEpoch (e : Event n) :
    (s.record e).nextEpoch = s.nextEpoch := rfl

@[simp] theorem record_cpus (e : Event n) : (s.record e).cpus = s.cpus := rfl

@[simp] theorem record_log (e : Event n) : (s.record e).log = e :: s.log := rfl

end

end Shared

end KernelAx.Tlb
