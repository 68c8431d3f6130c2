import KernelAx.Interleaving
import KernelAx.Tlb.Mailbox

/-!
# Shootdown — Operations

The operations of a shootdown domain as calls that interleave at their atomic accesses. A point of
a call is named after the access that comes next and holds what the call has read so far; a loop
head is a point without an access. A weak compare-and-swap may fail although the word is
unchanged.

A request lives in the call that issued it until it is dropped; another call may also try to
complete it (`trying`).
-/

namespace KernelAx.Tlb

open Interleaving

variable {n : Nat}

/-- The arguments of an issue; `only` is the set of a targeted one. -/
structure Issue (n : Nat) where
  issuer : Fin n
  maintenance : CpuMaintenance
  only : Option (Fin n → Bool)

/-- The CPU is in the set of a targeted issue. -/
def Issue.wants (i : Issue n) (cpu : Fin n) : Bool := i.only.any (· cpu)

/-- An issue that has its epoch, with the targets and kicks so far. -/
structure Issuing (n : Nat) extends Issue n where
  epoch : Nat
  targets : Fin n → Bool
  kicks : Fin n → Bool

/-- A request that was issued: its epoch, its targets and those to be kicked. -/
structure ShootdownRequest (n : Nat) where
  issuer : Fin n
  epoch : Nat
  maintenance : CpuMaintenance
  targets : Fin n → Bool
  kicks : Fin n → Bool

def Issuing.request (p : Issuing n) : ShootdownRequest n :=
  ⟨p.issuer, p.epoch, p.maintenance, p.targets, p.kicks⟩

/-- What a call wants an admission for. -/
inductive Admitting (n : Nat)
  | reason (reason : IpiReason)
  | issuer (i : Issue n)
  | target (p : Issuing n)
  | gather (i : Issue n)

/-- The two transitions that look at the mailbox before they swap the lifecycle word. -/
inductive Transition
  | publishOnline
  | completeOffline (lifecycle : Nat)

structure Snapshot (n : Nat) where
  cpu : Fin n
  requested : MaintenanceClass → Nat
  completed : MaintenanceClass → Nat

/-- What a CPU has maintained in one service. -/
structure ShootdownService where
  completedTlbEpoch : Nat
  completedIcacheEpoch : Nat
  tlbFlushCount : Nat
  icacheFlushCount : Nat

/-- What a call returns, a request apart. -/
inductive Outcome
  | lifecycle (r : Except CpuLifecycleError Unit)
  | post (r : Except ReasonPostError Bool)
  | refused (e : ShootdownIssueError)
  | taken (r : Except MailboxError (BitVec 64))
  | serviced (r : Except MailboxError ShootdownService)

/-- The program points of the operations. -/
inductive Call (n : Nat)
  | idle
  | returned (r : Outcome)
  -- publish_online and complete_offline
  | publishOnline (cpu : Nat)
  | completeOffline (cpu : Nat)
  | readRequested (op : Transition) (cpu : Fin n) (x : MaintenanceClass)
  | readCompleted (op : Transition) (cpu : Fin n) (x : MaintenanceClass) (requested : Nat)
  | readReasons (lifecycle : Nat) (cpu : Fin n)
  | commitState (op : Transition) (cpu : Fin n)
  -- begin_offline
  | beginOffline (cpu : Nat)
  | closeAdmission (cpu : Fin n) (lifecycle : Nat)
  -- try_admit
  | tryAdmit (a : Admitting n) (cpu : Fin n)
  | swapAdmission (a : Admitting n) (cpu : Fin n) (lifecycle : Nat)
  -- post_non_maintenance_reason
  | postReason (cpu : Nat) (reason : IpiReason)
  | setReason (cpu : Fin n) (reason : IpiReason)
  | leaveReason (cpu : Fin n) (kick : Bool)
  -- the issues
  | issue (issuer : Nat) (maintenance : CpuMaintenance) (only : Option (Fin n → Bool))
  | gather (i : Issue n) (k : Nat)
  | loadEpoch (i : Issue n)
  | allocate (i : Issue n) (epoch : Nat)
  | visit (p : Issuing n) (k : Nat)
  | publish (p : Issuing n) (k : Nat)
  | raise (p : Issuing n) (cpu : Fin n) (rest : List MaintenanceClass)
  | leave (p : Issuing n) (cpu : Fin n)
  | settle (p : Issuing n) (k : Nat)
  | unwind (i : Issue n) (stop k : Nat) (e : ShootdownIssueError)
  -- a live request
  | holding (r : ShootdownRequest n)
  | trying (r : ShootdownRequest n) (owned : Bool) (k : Nat)
  | probe (r : ShootdownRequest n) (owned : Bool) (cpu : Fin n) (rest : List MaintenanceClass)
  | granted (r : ShootdownRequest n) (owned : Bool)
  -- take_pending_reasons; a handler goes on to serve when it took the maintenance reason
  | take (cpu : Nat) (handler : Bool)
  -- service_maintenance
  | serve (cpu : Nat)
  | loadRequested (v : Snapshot n) (x : MaintenanceClass)
  | loadCompleted (v : Snapshot n) (x : MaintenanceClass)
  | maintain (v : Snapshot n) (m : CpuMaintenance)
  | acknowledge (v : Snapshot n) (m : CpuMaintenance) (rest : List MaintenanceClass)

/-! ### Continuations -/

def Admitting.refuse (a : Admitting n) (cpu : Fin n) (e : AdmissionError) : Call n :=
  match a, e with
  | .reason _, .unavailable => .returned (.post (.error .cpuUnavailable))
  | .reason _, .exhausted => .returned (.post (.error .admissionExhausted))
  | .issuer _, .unavailable => .returned (.refused .issuerOffline)
  | .issuer _, .exhausted => .returned (.refused .admissionExhausted)
  | .target p, .unavailable => .visit p (cpu + 1)
  | .target p, .exhausted => .unwind p.toIssue 0 0 .admissionExhausted
  | .gather i, .unavailable => .unwind i cpu 0 .targetOffline
  | .gather i, .exhausted => .unwind i cpu 0 .admissionExhausted

def Admitting.admitted (a : Admitting n) (cpu : Fin n) : Call n :=
  match a with
  | .reason r => .setReason cpu r
  | .issuer i =>
    match i.only with
    | none => .loadEpoch i
    | some _ => .gather i 0
  | .target p => .raise p cpu p.maintenance.classes
  | .gather i => .gather i (cpu + 1)

/-- The head of the loop of `try_admit`, with the word it has seen. -/
def Admitting.retry (a : Admitting n) (cpu : Fin n) (lifecycle : Nat) : Call n :=
  match tryAdmit lifecycle with
  | .error e => a.refuse cpu e
  | .ok _ => .swapAdmission a cpu lifecycle

/-- The head of the loop of `begin_offline`. -/
def closeRetry (cpu : Fin n) (lifecycle : Nat) : Call n :=
  if cpuState lifecycle ≠ cpuOnline then .returned (.lifecycle (.error .invalidState))
  else .closeAdmission cpu lifecycle

/-- The head of the loop that allocates an epoch. -/
def Issue.allocateRetry (i : Issue n) (epoch : Nat) : Call n :=
  if epoch + 1 ≤ u64Max then .allocate i epoch else .unwind i n 0 .epochExhausted

def Issue.issuing (i : Issue n) (epoch : Nat) : Issuing n :=
  { i with epoch := epoch, targets := i.only.getD fun _ => false, kicks := fun _ => false }

def Issuing.start (p : Issuing n) : Call n :=
  match p.only with
  | none => .visit p 0
  | some _ => .publish p 0

/-- The maintenance reason of a CPU was posted. -/
def Issuing.posted (p : Issuing n) (cpu : Fin n) (kick : Bool) : Call n :=
  match p.only with
  | none => .leave { p with
      targets := Function.update p.targets cpu true
      kicks := Function.update p.kicks cpu kick } cpu
  | some _ => .publish { p with kicks := Function.update p.kicks cpu kick } (cpu + 1)

def Transition.next (op : Transition) (cpu : Fin n) (x : MaintenanceClass)
    (requested completed : Nat) : Call n :=
  match op with
  | .publishOnline =>
    if requested ≠ completed then .returned (.lifecycle (.error .mailboxNotDrained))
    else match x with
      | .tlb => .readRequested op cpu .icache
      | .icache => .commitState op cpu
  | .completeOffline lifecycle =>
    if completed < requested then .returned (.lifecycle (.error .shootdownPending))
    else match x with
      | .tlb => .readRequested op cpu .icache
      | .icache => .readReasons lifecycle cpu

namespace Snapshot

def new (cpu : Fin n) : Snapshot n := ⟨cpu, fun _ => 0, fun _ => 0⟩

def pending (v : Snapshot n) (x : MaintenanceClass) : Bool :=
  decide (v.completed x < v.requested x)

def loadRequested (v : Snapshot n) (x : MaintenanceClass) (epoch : Nat) : Snapshot n :=
  { v with requested := Function.update v.requested x epoch }

def loadCompleted (v : Snapshot n) (x : MaintenanceClass) (epoch : Nat) : Snapshot n :=
  { v with completed := Function.update v.completed x epoch }

/-- The completed epochs with one class acknowledged. -/
def acknowledged (v : Snapshot n) (x : MaintenanceClass) (previous : Nat) : Snapshot n :=
  v.loadCompleted x (max previous (v.requested x))

def result (v : Snapshot n) (m : Option CpuMaintenance) : ShootdownService where
  completedTlbEpoch := v.completed .tlb
  completedIcacheEpoch := v.completed .icache
  tlbFlushCount := if m.any (·.needsTlb) then 1 else 0
  icacheFlushCount := if m.any (·.needsIcache) then 1 else 0

def start (v : Snapshot n) : Call n :=
  match CpuMaintenance.fromPending (v.pending .tlb) (v.pending .icache) with
  | none => .returned (.serviced (.ok (v.result none)))
  | some m => .maintain v m

end Snapshot

/-- The result of `try_complete` is given back. -/
def ShootdownRequest.kept (r : ShootdownRequest n) (owned : Bool) : Call n :=
  if owned then .holding r else .idle

/-! ### Accesses -/

namespace Shared

variable (s : Shared n)

def swapLifecycle (cpu : Fin n) (lifecycle : Nat) : Shared n :=
  s.setCpu cpu { s.cpus cpu with lifecycle := lifecycle }

@[simp] theorem swapLifecycle_pendingReasons (cpu : Fin n) (w : Nat) (j : Fin n) :
    ((s.swapLifecycle cpu w).cpus j).pendingReasons = (s.cpus j).pendingReasons := by
  refine s.setCpu_frame (·.pendingReasons) ?_ j
  rfl

@[simp] theorem swapLifecycle_requestedEpoch (cpu : Fin n) (w : Nat) (j : Fin n) :
    ((s.swapLifecycle cpu w).cpus j).requestedEpoch = (s.cpus j).requestedEpoch := by
  refine s.setCpu_frame (·.requestedEpoch) ?_ j
  rfl

def release (cpu : Fin n) : Shared n :=
  s.swapLifecycle cpu (releaseAdmission (s.cpus cpu).lifecycle)

def postMaintenance (cpu : Fin n) (epoch : Nat) : Shared n :=
  (s.setCpu cpu ((s.cpus cpu).post cpuMaintenanceReason)).record
    (.posted cpu epoch ((s.cpus cpu).needsKick cpuMaintenanceReason))

def takeReasons (cpu : Fin n) : Shared n :=
  let t := s.setCpu cpu { s.cpus cpu with pendingReasons := 0 }
  if (s.cpus cpu).posted then t.record (.cleared cpu) else t

def allocateEpoch : Shared n :=
  { s with nextEpoch := s.nextEpoch + 1 }.record (.allocated (s.nextEpoch + 1))

end Shared

/-- What the next access of a call can do. -/
def step (s : Shared n) : Call n → List (Shared n × Call n)
  | .idle => []
  | .returned _ => [(s, .idle)]
  | .publishOnline cpu =>
    if h : cpu < n then
      if (s.cpus ⟨cpu, h⟩).pendingReasons ≠ 0 then
        [(s, .returned (.lifecycle (.error .mailboxNotDrained)))]
      else [(s, .readRequested .publishOnline ⟨cpu, h⟩ .tlb)]
    else [(s, .returned (.lifecycle (.error .invalidCpu)))]
  | .completeOffline cpu =>
    if h : cpu < n then
      let lifecycle := (s.cpus ⟨cpu, h⟩).lifecycle
      if cpuState lifecycle ≠ cpuDraining then
        [(s, .returned (.lifecycle (.error .invalidState)))]
      else if admissions lifecycle ≠ 0 then
        [(s, .returned (.lifecycle (.error .admissionInProgress)))]
      else [(s, .readRequested (.completeOffline lifecycle) ⟨cpu, h⟩ .tlb)]
    else [(s, .returned (.lifecycle (.error .invalidCpu)))]
  | .readRequested op cpu x => [(s, .readCompleted op cpu x ((s.cpus cpu).requestedEpoch x))]
  | .readCompleted op cpu x requested =>
    [(s, op.next cpu x requested ((s.cpus cpu).completedEpoch x))]
  | .readReasons lifecycle cpu =>
    if (s.cpus cpu).pendingReasons ≠ 0 then
      [(s, .returned (.lifecycle (.error .reasonPending)))]
    else [(s, .commitState (.completeOffline lifecycle) cpu)]
  | .commitState .publishOnline cpu =>
    if (s.cpus cpu).lifecycle = cpuOffline then
      [(s.swapLifecycle cpu cpuOnline, .returned (.lifecycle (.ok ())))]
    else [(s, .returned (.lifecycle (.error .invalidState)))]
  | .commitState (.completeOffline lifecycle) cpu =>
    if (s.cpus cpu).lifecycle = lifecycle then
      [(s.swapLifecycle cpu cpuOffline, .returned (.lifecycle (.ok ())))]
    else [(s, .returned (.lifecycle (.error .invalidState)))]
  | .beginOffline cpu =>
    if h : cpu < n then [(s, closeRetry ⟨cpu, h⟩ (s.cpus ⟨cpu, h⟩).lifecycle)]
    else [(s, .returned (.lifecycle (.error .invalidCpu)))]
  | .closeAdmission cpu lifecycle =>
    (if (s.cpus cpu).lifecycle = lifecycle then
      [(s.swapLifecycle cpu (lifecycle - cpuState lifecycle + cpuDraining),
        .returned (.lifecycle (.ok ())))]
    else []) ++ [(s, closeRetry cpu (s.cpus cpu).lifecycle)]
  | .tryAdmit a cpu => [(s, a.retry cpu (s.cpus cpu).lifecycle)]
  | .swapAdmission a cpu lifecycle =>
    (if (s.cpus cpu).lifecycle = lifecycle then
      [(s.swapLifecycle cpu (lifecycle + admissionOne), a.admitted cpu)]
    else []) ++ [(s, a.retry cpu (s.cpus cpu).lifecycle)]
  | .postReason cpu reason =>
    if reason = cpuMaintenanceReason then
      [(s, .returned (.post (.error .reservedMaintenanceReason)))]
    else if h : cpu < n then [(s, .tryAdmit (.reason reason) ⟨cpu, h⟩)]
    else [(s, .returned (.post (.error .invalidCpu)))]
  | .setReason cpu reason =>
    [(s.setCpu cpu ((s.cpus cpu).post reason),
      .leaveReason cpu ((s.cpus cpu).needsKick reason))]
  | .leaveReason cpu kick => [(s.release cpu, .returned (.post (.ok kick)))]
  | .issue issuer maintenance only =>
    if h : issuer < n then
      match only with
      | none => [(s, .tryAdmit (.issuer ⟨⟨issuer, h⟩, maintenance, none⟩) ⟨issuer, h⟩)]
      | some set =>
        if ∀ j, set j = false then [(s, .returned (.refused .emptyTargetSet))]
        else if set ⟨issuer, h⟩ then [(s, .returned (.refused .issuerIsTarget))]
        else [(s, .tryAdmit (.issuer ⟨⟨issuer, h⟩, maintenance, some set⟩) ⟨issuer, h⟩)]
    else [(s, .returned (.refused .invalidCpu))]
  | .gather i k =>
    if h : k < n then
      if i.wants ⟨k, h⟩ then [(s, .tryAdmit (.gather i) ⟨k, h⟩)] else [(s, .gather i (k + 1))]
    else [(s, .loadEpoch i)]
  | .loadEpoch i => [(s, i.allocateRetry s.nextEpoch)]
  | .allocate i epoch =>
    (if s.nextEpoch = epoch then [(s.allocateEpoch, (i.issuing (epoch + 1)).start)] else []) ++
      [(s, i.allocateRetry s.nextEpoch)]
  | .visit p k =>
    if h : k < n then
      if k = p.issuer then [(s, .visit p (k + 1))] else [(s, .tryAdmit (.target p) ⟨k, h⟩)]
    else [(s, .holding p.request)]
  | .publish p k =>
    if h : k < n then
      if p.wants ⟨k, h⟩ then [(s, .raise p ⟨k, h⟩ p.maintenance.classes)]
      else [(s, .publish p (k + 1))]
    else [(s, .settle p 0)]
  | .raise p cpu (x :: rest) =>
    [(s.setCpu cpu ((s.cpus cpu).raise x p.epoch), .raise p cpu rest)]
  | .raise p cpu [] =>
    [(s.postMaintenance cpu p.epoch, p.posted cpu ((s.cpus cpu).needsKick cpuMaintenanceReason))]
  | .leave p cpu => [(s.release cpu, .visit p (cpu + 1))]
  | .settle p k =>
    if h : k < n then
      if p.wants ⟨k, h⟩ then [(s.release ⟨k, h⟩, .settle p (k + 1))]
      else [(s, .settle p (k + 1))]
    else [(s, .holding p.request)]
  | .unwind i stop k e =>
    if h : k < n ∧ k < stop then
      if i.wants ⟨k, h.1⟩ then [(s.release ⟨k, h.1⟩, .unwind i stop (k + 1) e)]
      else [(s, .unwind i stop (k + 1) e)]
    else [(s.release i.issuer, .returned (.refused e))]
  | .holding r => [(s, .trying r true 0), (s.release r.issuer, .idle)]
  | .trying r owned k =>
    if h : k < n then
      if r.targets ⟨k, h⟩ then [(s, .probe r owned ⟨k, h⟩ r.maintenance.classes)]
      else [(s, .trying r owned (k + 1))]
    else [(s, .granted r owned)]
  | .probe r owned cpu (x :: rest) =>
    if (s.cpus cpu).completedEpoch x < r.epoch then [(s, r.kept owned)]
    else [(s, .probe r owned cpu rest)]
  | .probe r owned cpu [] => [(s, .trying r owned (cpu + 1))]
  | .granted r owned => [(s, r.kept owned)]
  | .take cpu handler =>
    if h : cpu < n then
      [(s.takeReasons ⟨cpu, h⟩,
        if handler && (s.cpus ⟨cpu, h⟩).posted then .loadRequested (.new ⟨cpu, h⟩) .tlb
        else .returned (.taken (.ok (s.cpus ⟨cpu, h⟩).pendingReasons)))]
    else [(s, .returned (.taken (.error .invalidCpu)))]
  | .serve cpu =>
    if h : cpu < n then [(s, .loadRequested (.new ⟨cpu, h⟩) .tlb)]
    else [(s, .returned (.serviced (.error .invalidCpu)))]
  | .loadRequested v x =>
    [(s, .loadCompleted (v.loadRequested x ((s.cpus v.cpu).requestedEpoch x)) x)]
  | .loadCompleted v x =>
    let v := v.loadCompleted x ((s.cpus v.cpu).completedEpoch x)
    match x with
    | .tlb => [(s, .loadRequested v .icache)]
    | .icache => [(s, v.start)]
  | .maintain v m => [(s.record (.maintained v.cpu m), .acknowledge v m m.classes)]
  | .acknowledge v m (x :: rest) =>
    [(s.setCpu v.cpu ((s.cpus v.cpu).acknowledge x (v.requested x)),
      .acknowledge (v.acknowledged x ((s.cpus v.cpu).completedEpoch x)) m rest)]
  | .acknowledge v m [] => [(s, .returned (.serviced (.ok (v.result (some m)))))]

variable {s s' : Shared n} {k' : Call n}

/-- What a weak compare-and-swap leads to: `a` if `p` held, or `b` for another try. -/
theorem mem_weakSwap {α : Type*} {p : Prop} [Decidable p] {a b c : α}
    (h : c ∈ (if p then [a] else []) ++ [b]) : (p ∧ c = a) ∨ c = b := by
  rcases List.mem_append.mp h with h | h
  · split at h
    · exact .inl ⟨‹p›, List.mem_singleton.mp h⟩
    · cases h
  · exact .inr (List.mem_singleton.mp h)

/-! ### Where steps lead -/

def Call.completing (cpu : Nat) : Call n → Prop
  | .completeOffline j => j = cpu
  | .readRequested (.completeOffline _) j _ | .readCompleted (.completeOffline _) j _ _
  | .readReasons _ j | .commitState (.completeOffline _) j => j = cpu
  | _ => False

/-- A handler serves when it took the maintenance reason. -/
def Handled (k : Call n) : Prop := ∀ cpu, k ≠ .take cpu false

variable {k : Call n}

/-- A step does not begin another operation: it leads to no `take_pending_reasons`, and to a point
of `complete_offline` only from one. -/
structure Continues (k k' : Call n) : Prop where
  handled : Handled k'
  completing : ∀ cpu, k'.completing cpu → k.completing cpu

def Call.ordinary : Call n → Bool
  | .completeOffline _ | .readRequested (.completeOffline _) _ _
  | .readCompleted (.completeOffline _) _ _ _ | .readReasons _ _
  | .commitState (.completeOffline _) _ | .take _ _ => false
  | _ => true

theorem Continues.of_ordinary (h : k'.ordinary = true) : Continues k k' := by
  refine ⟨?_, fun cpu hk => ?_⟩
  · rintro cpu rfl
    cases h
  · unfold Call.completing at hk
    split at hk <;> first | cases h | cases hk

theorem Admitting.retry_ordinary (a : Admitting n) (j : Fin n) (w : Nat) :
    (a.retry j w).ordinary = true := by
  unfold Admitting.retry
  split
  · rename_i e _
    cases a <;> cases e <;> rfl
  · rfl

theorem step_continues (hstep : (s', k') ∈ step s k) : Continues k k' := by
  have hretry : ∀ (i : Issue n) (epoch : Nat), (i.allocateRetry epoch).ordinary = true := by
    intro i epoch
    unfold Issue.allocateRetry
    split <;> rfl
  cases k with
  | idle => cases hstep
  | readRequested op j x =>
    cases List.mem_singleton.mp hstep
    cases op
    · exact .of_ordinary rfl
    · exact ⟨fun _ => nofun, fun _ => id⟩
  | readCompleted op j x requested =>
    cases List.mem_singleton.mp hstep
    cases op <;> cases x <;> simp only [Transition.next] <;> split
    all_goals first | exact .of_ordinary rfl | exact ⟨fun _ h => (by cases h), fun _ => id⟩
  | commitState op j =>
    cases op <;> simp only [step] at hstep <;> split at hstep <;>
      cases List.mem_singleton.mp hstep <;> exact .of_ordinary rfl
  | closeAdmission j w =>
    obtain ⟨-, ⟨⟩⟩ | ⟨⟨⟩⟩ := mem_weakSwap hstep
    · exact .of_ordinary rfl
    · unfold closeRetry
      split <;> exact .of_ordinary rfl
  | tryAdmit a j =>
    cases List.mem_singleton.mp hstep
    exact .of_ordinary (a.retry_ordinary j _)
  | swapAdmission a j w =>
    obtain ⟨-, ⟨⟩⟩ | ⟨⟨⟩⟩ := mem_weakSwap hstep
    · cases a
      on_goal 2 => simp only [Admitting.admitted]; split
      all_goals exact .of_ordinary rfl
    · exact .of_ordinary (a.retry_ordinary j _)
  | loadEpoch i =>
    cases List.mem_singleton.mp hstep
    exact .of_ordinary (hretry i _)
  | allocate i epoch =>
    obtain ⟨-, ⟨⟩⟩ | ⟨⟨⟩⟩ := mem_weakSwap hstep
    · unfold Issuing.start
      split <;> exact .of_ordinary rfl
    · exact .of_ordinary (hretry i _)
  | raise p j rest =>
    cases rest <;> cases List.mem_singleton.mp hstep
    · unfold Issuing.posted
      split <;> exact .of_ordinary rfl
    · exact .of_ordinary rfl
  | holding r =>
    rcases List.mem_cons.mp hstep with hstep | hstep
    · cases hstep
      exact .of_ordinary rfl
    · cases List.mem_singleton.mp hstep
      exact .of_ordinary rfl
  | probe r owned j rest =>
    cases rest <;> simp only [step] at hstep
    on_goal 2 => split at hstep
    all_goals cases List.mem_singleton.mp hstep
    on_goal 2 => cases owned
    all_goals exact .of_ordinary rfl
  | granted r owned => cases List.mem_singleton.mp hstep; cases owned <;> exact .of_ordinary rfl
  | loadCompleted v x =>
    cases x <;> cases List.mem_singleton.mp hstep
    on_goal 2 => unfold Snapshot.start; split
    all_goals exact .of_ordinary rfl
  | acknowledge v m rest =>
    cases rest <;> cases List.mem_singleton.mp hstep <;> exact .of_ordinary rfl
  | take j handler =>
    simp only [step] at hstep
    split at hstep <;> cases List.mem_singleton.mp hstep
    on_goal 1 => split
    all_goals exact .of_ordinary rfl
  | completeOffline | readReasons | returned | setReason | leaveReason | leave | loadRequested
  | maintain | publishOnline | beginOffline | postReason | issue | gather | visit | publish | settle
  | unwind | trying | serve =>
    simp only [step, closeRetry] at hstep
    repeat' split at hstep
    all_goals
      cases List.mem_singleton.mp hstep
      first | exact .of_ordinary rfl | exact ⟨fun _ h => (by cases h), fun _ => id⟩

/-! ### Calls -/

def Call.owns (r : ShootdownRequest n) : Call n → Prop
  | .holding r' | .trying r' true _ | .probe r' true _ _ | .granted r' true => r' = r
  | _ => False

/-- The calls a caller can make; a request is borrowed from the call that holds it. -/
def Call.Entry {ι : Type} (c : Config ι (Shared n) (Call n)) : Call n → Prop
  | .publishOnline _ | .completeOffline _ | .beginOffline _ | .postReason _ _ | .issue _ _ _
  | .take _ _ | .serve _ => True
  | .trying r owned k => owned = false ∧ k = 0 ∧ ∃ j, (c.calls j).owns r
  | _ => False

/-- Calls that the condition allows, in any number and order. -/
def system (ι : Type) (n : Nat) (Allowed : Config ι (Shared n) (Call n) → Call n → Prop) :
    System ι (Shared n) (Call n) where
  idle := .idle
  Starts c k := k.Entry c ∧ Allowed c k
  step _ := step

/-- Every CPU is offline and no call is in progress. -/
def initial (ι : Type) (n : Nat) : Config ι (Shared n) (Call n) := ⟨.new, fun _ => .idle⟩

end KernelAx.Tlb
