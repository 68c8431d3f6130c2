import KernelAx.Eevdf.World

/-!
# EEVDF — Runtime accounting

A running fair or round-robin task is charged by samples of wall-clock time. Whole periods become
ticks of service; the nanoseconds below one period stay pending until a settlement converts them to
`Q32` fractions of a tick, and the remainder of that conversion is retained.

* `serve` — the service that a call materializes, in `Q32` ticks;
* `AccountCall.balance_iff` — when one call keeps the account of service, pending nanoseconds and
  residue: a settlement always, a sample only when the nanoseconds it leaves pending convert without
  a remainder;
* `accounting_exact` — the account over whole runs.
-/

namespace KernelAx.Eevdf

open Transaction Op World

variable {ι δ : Type}

/-! ### Service -/

def ServiceOnly (l l' : Local ι δ) : Prop :=
  ∃ clock entity rrRemaining rrFractionQ,
    l' = { l with
      self := { l.self with clock := clock }
      task := { l.task with
        rrRemaining := rrRemaining
        state := { l.task.state with entity := entity, rrFractionQ := rrFractionQ } } }

theorem ServiceOnly.refl (l : Local ι δ) : ServiceOnly l l := ⟨_, _, _, _, rfl⟩

theorem fairServiceTransaction_writes (ticks fractionQ : Nat) (l : Local ι δ) :
    Post (fairServiceTransaction ticks fractionQ) l (fun _ l' => ServiceOnly l l')
      fun _ l' => l' = l := by
  unfold fairServiceTransaction
  simp only [post_bind, post_read, id]
  rw [post_ite]
  refine ⟨fun _ => .refl l, fun _ => ?_⟩
  cases l.task.state.entity with
  | none => exact rfl
  | some entity =>
    simp only [model, post_bind, post_lift, modifySelf, modifyState, modifyTask, post_modify,
      post_pure]
    exact ⟨fun _ _ => ⟨_, _, _, _, rfl⟩, fun _ _ => trivial⟩

theorem rrServiceTransaction_writes (ticks fractionQ : Nat) (l : Local ι δ) :
    Post (rrServiceTransaction ticks fractionQ) l (fun _ l' => ServiceOnly l l')
      fun _ l' => l' = l := by
  unfold rrServiceTransaction
  simp only [post_bind, post_read, id, post_ite, post_require, modifyTask, post_modify, post_pure]
  exact ⟨fun _ => .refl l, fun _ => ⟨fun _ => .refl l, fun _ =>
    ⟨fun _ => ⟨fun _ => ⟨fun _ => ⟨_, _, _, _, rfl⟩, fun _ => trivial⟩, fun _ => trivial⟩,
      fun _ => trivial⟩⟩⟩

/-- Hands `Q32` ticks to the service transaction of the class. -/
def serve (amount : Nat) : SchedOp ι δ Bool := do
  let cls ← read (·.task.params.cls)
  if cls.isRt then rrServiceTransaction (amount / one) (amount % one)
  else fairServiceTransaction (amount / one) (amount % one)

theorem serve_writes (amount : Nat) (l : Local ι δ) :
    Post (serve amount) l (fun _ l' => ServiceOnly l l') fun _ l' => l' = l := by
  unfold serve
  rw [post_bind, post_read, post_ite]
  exact ⟨fun _ => rrServiceTransaction_writes _ _ l, fun _ => fairServiceTransaction_writes _ _ l⟩

theorem serve_zero (l : Local ι δ) : serve 0 l = .ok false l := by
  have hrr : rrServiceTransaction 0 0 l = .ok false l := rfl
  have hfair : fairServiceTransaction 0 0 l = .ok false l := rfl
  show (if l.task.params.cls.isRt then rrServiceTransaction 0 0 else fairServiceTransaction 0 0) l
    = _
  split
  · exact hrr
  · exact hfair

/-- Whole periods are handed over as whole ticks, and none at all as no service. -/
theorem serve_periods (cls : TaskClass) (periods : Nat) (l : Local ι δ)
    (h : l.task.params.cls = cls) :
    (if periods = 0 then pure false
      else if cls.isRt then rrServiceTransaction periods 0
      else fairServiceTransaction periods 0 : SchedOp ι δ Bool) l = serve (periods * one) l := by
  have hone : 0 < one := by decide
  by_cases hp : periods = 0
  · rw [if_pos hp, hp, Nat.zero_mul, serve_zero]
    rfl
  · rw [if_neg hp]
    show _ = (if l.task.params.cls.isRt then rrServiceTransaction _ _
      else fairServiceTransaction _ _ : SchedOp ι δ Bool) l
    rw [h, Nat.mul_div_cancel _ hone, Nat.mul_mod_left]

/-! ### What one call does -/

/-- The calls that charge a task for the time it ran. -/
inductive AccountCall
  | sample (elapsedNs : Nat)
  | settle
  deriving DecidableEq

namespace AccountCall

variable (s : OwnedState δ) (periodNs : Nat)

def elapsed : AccountCall → Nat
  | .sample elapsedNs => elapsedNs
  | .settle => 0

/-- The nanoseconds below one period, in units of `one`, and the residue of earlier conversions. -/
def numerator : AccountCall → Nat
  | .sample elapsedNs =>
    (s.runtimeRemainderNs + elapsedNs) % periodNs * one + oldRemainder s periodNs
  | .settle => s.runtimeRemainderNs * one + oldRemainder s periodNs

/-- The service that a call materializes, in `Q32` ticks. -/
def service : AccountCall → Nat
  | .sample elapsedNs =>
    let extraQ := numerator s periodNs (.sample elapsedNs) / periodNs
    ((s.runtimeRemainderNs + elapsedNs) / periodNs
      + if one ≤ extraQ then extraQ / one else 0) * one
  | .settle => numerator s periodNs .settle / periodNs

def pending : AccountCall → Nat
  | .sample elapsedNs =>
    if one ≤ numerator s periodNs (.sample elapsedNs) / periodNs then 0
    else (s.runtimeRemainderNs + elapsedNs) % periodNs
  | .settle => 0

/-- The nanoseconds that a sample leaves pending are a whole number of `Q32` units, or they complete
a period together with the residue. -/
def Converts : AccountCall → Prop
  | .sample elapsedNs =>
    periodNs ∣ (s.runtimeRemainderNs + elapsedNs) % periodNs * one ∨
      periodNs * one ≤
        (s.runtimeRemainderNs + elapsedNs) % periodNs * one + s.runtimeFractionRemainderNs
  | .settle => True

end AccountCall

/-- The residues are below the period and were made under it. -/
structure ResiduesUnder (s : OwnedState δ) (periodNs : Nat) : Prop where
  pending : s.runtimeRemainderNs < periodNs
  fraction : s.runtimeFractionRemainderNs < periodNs
  old : oldRemainder s periodNs = s.runtimeFractionRemainderNs

theorem residuesUnder {s : OwnedState δ} {periodNs : Nat} (fit : residuesFit s periodNs)
    (same : ¬ (s.runtimeFractionRemainderNs ≠ 0 ∧ s.runtimeFractionPeriodNs ≠ periodNs)) :
    ResiduesUnder s periodNs := by
  unfold residuesFit at fit
  push Not at fit same
  obtain ⟨hpending, -, hfraction⟩ := fit
  by_cases hres : s.runtimeFractionRemainderNs = 0
  · exact ⟨hpending, by omega, by unfold oldRemainder; split <;> simp [hres]⟩
  · have hperiod := same hres
    have hlt := (hfraction hres).2
    exact ⟨hpending, by omega, if_pos hperiod⟩

/-- The state in which a call publishes its residues. -/
def publishResidues (params : TaskParams) (weight pending residue periodNs : Nat)
    (l : Local ι δ) : Local ι δ :=
  { l with task := { l.task with
    state := OwnedState.publishRuntimeFractionOwner
      { l.task.state with runtimeRemainderNs := pending } params weight residue periodNs } }

/-- A call serves the task and publishes its residues. -/
def Charges (call : AccountCall) (periodNs : Nat) (l : Local ι δ) (r : Bool) (l' : Local ι δ) :
    Prop :=
  ResiduesUnder l.task.state periodNs ∧
    ∃ l₁ weight, serve (call.service l.task.state periodNs) l = .ok r l₁ ∧
      l' = publishResidues l.task.params weight (call.pending l.task.state periodNs)
        (call.numerator l.task.state periodNs % periodNs) periodNs l₁

theorem accountPeriods_charges (periodNs elapsedNs : Nat) (l : Local ι δ) :
    Post (accountPeriods ⟨elapsedNs, periodNs⟩) l (Charges (.sample elapsedNs) periodNs l)
      fun _ _ => True := by
  unfold accountPeriods
  simp only [post_bind, post_read, post_require, post_lift, imp_true_iff, and_true]
  rintro ⟨hfit, hsame⟩ _ - weight - - - -
  rw [post_iff]
  refine ⟨fun r l₁ hserve => ?_, fun _ _ _ => trivial⟩
  rw [serve_periods _ _ _ rfl] at hserve
  simp only [modifyState, modifyTask, post_modify, post_pure]
  exact ⟨residuesUnder hfit hsame, l₁, weight, hserve, rfl⟩

/-- The class of a task that is charged by periods. -/
def TaskClass.Periodic (cls : TaskClass) : Prop := cls.isRt = true → cls = .roundRobin

section Settle

variable [DecidableEq ι]

theorem ensureRunning_running {t : ι} {l : Local ι δ} (h : l.self.running = some t) :
    Post (ensureRunning t) l (fun _ l' => l' = l) fun _ l' => l' = l := by
  unfold ensureRunning validateRunning
  simp only [post_bind, post_read, post_ite, post_require, h, Option.isSome_some, id]
  simp

theorem settleRuntimeRemainder_charges {t : ι} {periodNs : Nat} {l : Local ι δ}
    (hrun : l.self.running = some t) (hcls : l.task.params.cls.Periodic) :
    Post (settleRuntimeRemainder t periodNs) l (Charges .settle periodNs l)
      fun _ l' => l' = l := by
  unfold settleRuntimeRemainder
  rw [post_bind]
  refine (ensureRunning_running hrun).mono (fun _ l' hl => ?_) fun _ _ hl => hl
  subst hl
  simp only [post_bind, post_read, post_require, post_lift, implies_true, and_true]
  rintro - hfit _ - hsame - - weight -
  rw [post_iff]
  have hserve : ∀ amount, (if l'.task.params.cls.isRt = true then
        if l'.task.params.cls = .roundRobin then rrServiceTransaction (amount / one) (amount % one)
        else pure (l'.self.hasHigherRt l'.task.params.rtPriority)
      else fairServiceTransaction (amount / one) (amount % one) : SchedOp ι δ Bool) l'
      = serve amount l' := by
    intro amount
    show _ = (if l'.task.params.cls.isRt then rrServiceTransaction _ _
      else fairServiceTransaction _ _ : SchedOp ι δ Bool) l'
    by_cases h : l'.task.params.cls.isRt = true
    · rw [if_pos h, if_pos h, if_pos (hcls h)]
    · rw [if_neg h, if_neg h]
  refine ⟨fun r l₁ h => ?_, fun e l₁ h => ?_⟩
  · simp only [modifyState, modifyTask, post_modify, post_pure]
    exact ⟨residuesUnder hfit hsame, l₁, weight, (hserve _).symm.trans h, rfl⟩
  · exact (serve_writes _ l').of_error ((hserve _).symm.trans h)

end Settle

/-! ### The balance of one call -/

/-- Pending nanoseconds in units of `one`, and the conversion residue. -/
def OwnedState.retained (s : OwnedState δ) : Nat :=
  s.runtimeRemainderNs * one + s.runtimeFractionRemainderNs

theorem retained_publishResidues (params : TaskParams) (weight pending residue periodNs : Nat)
    (l : Local ι δ) :
    (publishResidues params weight pending residue periodNs l).task.state.retained
      = pending * one + residue := by
  unfold publishResidues OwnedState.publishRuntimeFractionOwner
  dsimp only
  split
  · next h => simp [OwnedState.retained, OwnedState.clearRuntimeFraction, h.1, h.2]
  · rfl

/-- Adding to a residue below the modulus gives it back only when a multiple was added. -/
theorem add_mod_eq_right {a r n : Nat} (h : r < n) : (a + r) % n = r ↔ n ∣ a := by
  constructor
  · intro heq
    have hsub := Nat.sub_mod_eq_zero_of_mod_eq (heq.trans (Nat.mod_eq_of_lt h).symm)
    rw [Nat.add_sub_cancel] at hsub
    exact Nat.dvd_of_mod_eq_zero hsub
  · rintro ⟨k, rfl⟩
    rw [Nat.mul_add_mod, Nat.mod_eq_of_lt h]

/-- **A call keeps the account under its condition and no other**: else the residue that a sample
retains was derived from nanoseconds that stay pending as well. -/
theorem AccountCall.balance_iff {s : OwnedState δ} {periodNs : Nat} (call : AccountCall)
    (h : ResiduesUnder s periodNs) :
    periodNs * call.service s periodNs
        + (call.pending s periodNs * one + call.numerator s periodNs % periodNs)
      = s.retained + call.elapsed * one ↔ call.Converts s periodNs := by
  cases call with
  | settle =>
    simp only [service, pending, numerator, elapsed, Converts, OwnedState.retained, h.old,
      Nat.zero_mul, Nat.zero_add, Nat.add_zero, Nat.div_add_mod]
  | sample elapsedNs =>
    have hperiod : 0 < periodNs := by have := h.pending; omega
    have hres := h.fraction
    simp only [service, pending, numerator, elapsed, Converts, OwnedState.retained, h.old]
    have htotal := Nat.div_add_mod (s.runtimeRemainderNs + elapsedNs) periodNs
    have hlt := Nat.mod_lt (s.runtimeRemainderNs + elapsedNs) hperiod
    generalize (s.runtimeRemainderNs + elapsedNs) / periodNs = whole at *
    generalize (s.runtimeRemainderNs + elapsedNs) % periodNs = rest at *
    generalize s.runtimeFractionRemainderNs = res at *
    have hsum : s.runtimeRemainderNs * one + elapsedNs * one
        = periodNs * (whole * one) + rest * one := by
      rw [← Nat.add_mul, ← htotal]
      ring
    by_cases hcarry : periodNs * one ≤ rest * one + res
    · -- the pending nanoseconds and the residue make one whole tick
      have hquot : (rest * one + res) / periodNs = one := by
        refine Nat.div_eq_of_lt_le (by rwa [Nat.mul_comm]) ?_
        have := Nat.mul_le_mul_right one (Nat.succ_le_of_lt hlt)
        rw [Nat.succ_mul] at this
        rw [Nat.succ_mul, Nat.mul_comm one periodNs]
        omega
      have hmod := Nat.div_add_mod (rest * one + res) periodNs
      rw [hquot] at hmod ⊢
      rw [if_pos le_rfl, if_pos le_rfl, Nat.div_self (by decide)]
      refine iff_of_true ?_ (.inr hcarry)
      rw [Nat.add_mul, Nat.one_mul, Nat.mul_add]
      omega
    · have hquot : ¬ one ≤ (rest * one + res) / periodNs := by
        rwa [Nat.le_div_iff_mul_le hperiod, Nat.mul_comm]
      rw [if_neg hquot, if_neg hquot, Nat.add_zero, or_iff_left hcarry, ← add_mod_eq_right hres]
      omega

/-! ### Replenishment does not touch the residues -/

/-- The node and the budget of a task may have changed, and nothing else. -/
def BudgetOnly (k k' : Task δ) : Prop :=
  ∃ key eligibleAt linked remaining absolute replenish throttled,
    k' = { k with
      key := key
      eligibleAt := eligibleAt
      linked := linked
      state := { k.state with
        deadlineRemainingNs := remaining
        deadlineAbsoluteNs := absolute
        deadlineReplenishAtNs := replenish
        deadlineThrottled := throttled } }

theorem BudgetOnly.refl (k : Task δ) : BudgetOnly k k := ⟨_, _, _, _, _, _, _, rfl⟩

theorem BudgetOnly.trans {k₁ k₂ k₃ : Task δ} (h : BudgetOnly k₁ k₂) (h' : BudgetOnly k₂ k₃) :
    BudgetOnly k₁ k₃ := by
  obtain ⟨_, _, _, _, _, _, _, rfl⟩ := h
  obtain ⟨_, _, _, _, _, _, _, rfl⟩ := h'
  exact ⟨_, _, _, _, _, _, _, rfl⟩

theorem BudgetOnly.params {k k' : Task δ} (h : BudgetOnly k k') : k'.params = k.params := by
  obtain ⟨_, _, _, _, _, _, _, rfl⟩ := h
  rfl

theorem BudgetOnly.call {k k' : Task δ} (h : BudgetOnly k k') (call : AccountCall)
    (periodNs : Nat) :
    call.service k'.state periodNs = call.service k.state periodNs ∧
      call.pending k'.state periodNs = call.pending k.state periodNs ∧
      call.numerator k'.state periodNs = call.numerator k.state periodNs ∧
      (ResiduesUnder k'.state periodNs → ResiduesUnder k.state periodNs) := by
  obtain ⟨_, _, _, _, _, _, _, rfl⟩ := h
  cases call with
  | sample _ | settle => exact ⟨rfl, rfl, rfl, fun ⟨h₁, h₂, h₃⟩ => ⟨h₁, h₂, h₃⟩⟩

section Replenish

variable [DecidableEq ι]

theorem replenishServer_budgetOnly (t : ι) (l : Local ι δ) :
    Post (replenishServer t) l
      (fun _ l' => BudgetOnly l.task l'.task ∧ l'.self.running = l.self.running)
      fun _ _ => True := by
  unfold replenishServer nextRtSequence
  simp only [post_expect, removeNode, insertNode, stageKey, modifyState, modifyTask, modifySelf,
    post_bind, post_read, post_lift, post_require, post_modify, post_pure, Bool.false_eq_true,
    if_false, implies_true, and_true]
  rintro tree - - absolute - replenish - - tree' -
  exact ⟨⟨_, _, _, _, _, _, _, rfl⟩, rfl⟩

variable {κ : Type} [DecidableEq κ] [DecidableEq δ]

/-- Every task keeps all but its node and budget, and the processor of `i` its current task. -/
structure Replenishes (i : κ) (w w' : World ι κ δ) : Prop where
  task : ∀ u, BudgetOnly (w.task u) (w'.task u)
  running : (w'.sched i).running = (w.sched i).running

omit [DecidableEq ι] [DecidableEq κ] [DecidableEq δ] in
theorem Replenishes.refl (i : κ) (w : World ι κ δ) : Replenishes i w w :=
  ⟨fun _ => .refl _, rfl⟩

omit [DecidableEq ι] [DecidableEq κ] [DecidableEq δ] in
theorem Replenishes.trans {i : κ} {w₁ w₂ w₃ : World ι κ δ} (h : Replenishes i w₁ w₂)
    (h' : Replenishes i w₂ w₃) : Replenishes i w₁ w₃ :=
  ⟨fun u => (h.task u).trans (h'.task u), h'.running.trans h.running⟩

theorem replenishLoop_replenishes (i : κ) (fuel : Nat) (w : World ι κ δ) :
    Post (replenishLoop i fuel) w (fun _ w' => Replenishes i w w') fun _ _ => True := by
  induction fuel generalizing w with
  | zero => exact .refl i w
  | succ fuel ih =>
    unfold replenishLoop
    rw [post_bind, post_read]
    cases (w.sched i).deadlineThrottled.front with
    | none => exact .refl i w
    | some e =>
      simp only [post_ite, post_bind, onTask, post_focus]
      refine ⟨fun _ => .refl i w, fun _ => ?_⟩
      refine (replenishServer_budgetOnly e.value _).mono (fun _ l' h => ?_) fun _ _ h => h
      have hone : Replenishes i w (setLocal i e.value l' w) := by
        refine ⟨fun u => ?_, ?_⟩
        · by_cases hu : u = e.value
          · subst hu
            simpa using h.1
          · rw [setLocal_task_of_ne i hu]
            exact .refl _
        · simpa using h.2
      exact (ih _).mono (fun _ _ h' => hone.trans h') fun _ _ h' => h'

theorem replenishDeadlines_replenishes (i : κ) (w : World ι κ δ) :
    Post (replenishDeadlines i) w (fun _ w' => Replenishes i w w') fun _ _ => True := by
  unfold replenishDeadlines
  rw [post_bind, post_read]
  exact replenishLoop_replenishes i _ w

end Replenish

/-! ### Runs of samples and settlements -/

section Runs

variable [DecidableEq ι] {κ : Type} [DecidableEq κ] [DecidableEq δ]

def AccountCall.command (i : κ) (t : ι) (periodNs : Nat) : AccountCall → Command ι κ δ
  | .sample elapsedNs => .account i t elapsedNs periodNs
  | .settle => .settle i t periodNs

theorem TaskClass.Periodic.not_deadline {cls : TaskClass} (h : cls.Periodic) :
    cls.isDeadline = false := by
  cases cls with
  | deadline => exact absurd (h rfl) (by decide)
  | normal | batch | idle | roundRobin | fifo => rfl

variable {i : κ} {t : ι} {periodNs : Nat} {w : World ι κ δ}

/-- A sample charges the task in a state that differs from the first by the clock and by replenished
servers only. -/
theorem accountRuntime_charges {elapsedNs : Nat} (hrun : (w.sched i).running = some t)
    (hcls : (w.task t).params.cls.Periodic) :
    Post (accountRuntime i t ⟨elapsedNs, periodNs⟩) w
      (fun r w' => ∃ (w₁ : World ι κ δ) (l' : Local ι δ), BudgetOnly (w.task t) (w₁.task t) ∧
        (w₁.sched i).running = some t ∧
        Charges (.sample elapsedNs) periodNs (w₁.localAt i t) r l' ∧ w' = w₁.setLocal i t l')
      fun _ _ => False := by
  unfold accountRuntime
  simp only [post_expect, post_bind, onTask, post_focus]
  refine (ensureRunning_running hrun).mono (fun _ l hl => ?_) fun _ _ _ => trivial
  subst hl
  simp only [setLocal_localAt, post_read, post_lift, modifySched, post_modify]
  refine ⟨fun now _ => ?_, fun _ _ => trivial⟩
  refine (replenishDeadlines_replenishes i _).mono (fun _ w₁ h => ?_) fun _ _ _ => trivial
  have htask := h.task t
  have hrunning := h.running.trans (by simpa using hrun)
  unfold accountTask
  rw [post_bind, post_read, localAt_task, htask.params, hcls.not_deadline]
  simp only [Bool.false_eq_true, if_false]
  exact (accountPeriods_charges periodNs elapsedNs _).mono
    (fun r l' hl => ⟨w₁, l', htask, hrunning, hl, rfl⟩) fun _ _ _ => trivial

/-- What a call that returns does: a charge, after at most the clock and servers were moved. -/
def ChargedIn (i : κ) (t : ι) (periodNs : Nat) (call : AccountCall) (w w' : World ι κ δ) : Prop :=
  ∃ (w₁ : World ι κ δ) (r : Bool) (l' : Local ι δ), BudgetOnly (w.task t) (w₁.task t) ∧
    (w₁.sched i).running = some t ∧ Charges call periodNs (w₁.localAt i t) r l' ∧
    w' = w₁.setLocal i t l'

theorem AccountCall.exec_spec (call : AccountCall) (hperiod : periodNs ≠ 0)
    (hrun : (w.sched i).running = some t) (hcls : (w.task t).params.cls.Periodic) :
    Post (call.command i t periodNs : Command ι κ δ).exec w
      (fun _ w' => ChargedIn i t periodNs call w w') fun _ w' => w' = w := by
  cases call with
  | sample elapsedNs =>
    have hdelta : RuntimeDelta.new elapsedNs periodNs = ⟨elapsedNs, periodNs⟩ := if_neg hperiod
    show Post (discard (accountRuntime i t (.new elapsedNs periodNs))) w _ _
    rw [discard, post_bind, hdelta]
    refine (accountRuntime_charges hrun hcls).mono (fun r w' h => ?_) fun _ _ h => h.elim
    obtain ⟨w₁, l', hbudget, hrun₁, hcharges, rfl⟩ := h
    exact ⟨w₁, r, l', hbudget, hrun₁, hcharges, rfl⟩
  | settle =>
    show Post (discard (onTask i t (settleRuntimeRemainder t periodNs))) w _ _
    rw [discard, post_bind, onTask, post_focus]
    refine (settleRuntimeRemainder_charges hrun hcls).mono (fun r l' h => ?_) fun _ l' h => ?_
    · exact ⟨w, r, l', .refl _, hrun, h, rfl⟩
    · rw [h, setLocal_localAt]

theorem ChargedIn.spec {call : AccountCall} {w' : World ι κ δ}
    (h : ChargedIn i t periodNs call w w') :
    ResiduesUnder (w.task t).state periodNs ∧ (w'.sched i).running = some t ∧
      (w'.task t).params = (w.task t).params ∧
      (w'.task t).state.retained = call.pending (w.task t).state periodNs * one
        + call.numerator (w.task t).state periodNs % periodNs := by
  obtain ⟨w₁, r, l', hbudget, hrun, ⟨hunder, l₁, weight, hserve, rfl⟩, rfl⟩ := h
  obtain ⟨hservice, hpending, hnumerator, hback⟩ := hbudget.call call periodNs
  rw [localAt_task] at hunder
  obtain ⟨_, _, _, _, rfl⟩ := (serve_writes _ _).of_ok hserve
  refine ⟨hback hunder, ?_, ?_, ?_⟩
  · rw [setLocal_sched_self]
    exact hrun
  · rw [setLocal_task_self]
    exact hbudget.params
  · rw [setLocal_task_self, retained_publishResidues, localAt_task, hpending, hnumerator]

/-- Runs of allowed calls at one period, with the service they materialize and the time they
account for; a settlement may be refused. -/
inductive Accounted (Allowed : World ι κ δ → AccountCall → Prop) (i : κ) (t : ι) (periodNs : Nat)
    (w : World ι κ δ) : Nat → Nat → World ι κ δ → Prop
  | start : Accounted Allowed i t periodNs w 0 0 w
  | call {service elapsed : Nat} {w₁ w₂ : World ι κ δ}
      (run : Accounted Allowed i t periodNs w service elapsed w₁) (call : AccountCall)
      (allowed : Allowed w₁ call)
      (h : (call.command i t periodNs : Command ι κ δ).exec w₁ = .ok () w₂) :
      Accounted Allowed i t periodNs w (service + call.service (w₁.task t).state periodNs)
        (elapsed + call.elapsed) w₂
  | refused {service elapsed : Nat} {w₁ w₂ : World ι κ δ}
      (run : Accounted Allowed i t periodNs w service elapsed w₁) (call : AccountCall)
      (kind : SchedulerError)
      (h : (call.command i t periodNs : Command ι κ δ).exec w₁ = .error kind w₂) :
      Accounted Allowed i t periodNs w service elapsed w₂

theorem Accounted.stays {Allowed : World ι κ δ → AccountCall → Prop} {service elapsed : Nat}
    {w' : World ι κ δ} (run : Accounted Allowed i t periodNs w service elapsed w')
    (hperiod : periodNs ≠ 0) (hrun : (w.sched i).running = some t)
    (hcls : (w.task t).params.cls.Periodic) :
    (w'.sched i).running = some t ∧ (w'.task t).params.cls.Periodic := by
  induction run with
  | start => exact ⟨hrun, hcls⟩
  | call _ call _ h ih =>
    obtain ⟨-, hrun₂, hparams, -⟩ := ((call.exec_spec hperiod ih.1 ih.2).of_ok h).spec
    exact ⟨hrun₂, hparams ▸ ih.2⟩
  | refused _ call kind h ih =>
    rw [(call.exec_spec hperiod ih.1 ih.2).of_error h]
    exact ih

/-- **The account of a run.**  Over samples and settlements at one period, `periodNs` times the
service materialized plus what the task retains is what it retained at first plus the elapsed time,
provided the samples leave no fraction of a `Q32` unit pending; a sample that does breaks the
account. What was materialized is what the class's service transaction was handed. -/
theorem accounting_exact {i : κ} {t : ι} {periodNs : Nat} {w : World ι κ δ}
    (hperiod : periodNs ≠ 0) (hrun : (w.sched i).running = some t)
    (hcls : (w.task t).params.cls.Periodic) {service elapsed : Nat} {w' : World ι κ δ}
    (run : Accounted (fun w call => call.Converts (w.task t).state periodNs) i t periodNs w
      service elapsed w') :
    periodNs * service + (w'.task t).state.retained = (w.task t).state.retained + elapsed * one ∧
      ∀ (call : AccountCall) (w'' : World ι κ δ),
        (call.command i t periodNs : Command ι κ δ).exec w' = .ok () w'' →
          ChargedIn i t periodNs call w' w'' ∧
          (periodNs * (service + call.service (w'.task t).state periodNs)
              + (w''.task t).state.retained
            = (w.task t).state.retained + (elapsed + call.elapsed) * one
            ↔ call.Converts (w'.task t).state periodNs) := by
  have step : ∀ {service elapsed : Nat} {w₁ w₂ : World ι κ δ} (call : AccountCall),
      ChargedIn i t periodNs call w₁ w₂ →
      periodNs * service + (w₁.task t).state.retained
        = (w.task t).state.retained + elapsed * one →
      (periodNs * (service + call.service (w₁.task t).state periodNs) + (w₂.task t).state.retained
        = (w.task t).state.retained + (elapsed + call.elapsed) * one
        ↔ call.Converts (w₁.task t).state periodNs) := by
    intro service elapsed w₁ w₂ call hcharge hbefore
    obtain ⟨hunder, -, -, hretained⟩ := hcharge.spec
    rw [← call.balance_iff hunder, hretained, Nat.mul_add, Nat.add_mul]
    omega
  have balance : periodNs * service + (w'.task t).state.retained
      = (w.task t).state.retained + elapsed * one := by
    induction run with
    | start => omega
    | call run call allowed h ih =>
      obtain ⟨hrun₁, hcls₁⟩ := run.stays hperiod hrun hcls
      exact (step call ((call.exec_spec hperiod hrun₁ hcls₁).of_ok h) ih).mpr allowed
    | refused run call kind h ih =>
      obtain ⟨hrun₁, hcls₁⟩ := run.stays hperiod hrun hcls
      rw [(call.exec_spec hperiod hrun₁ hcls₁).of_error h]
      exact ih
  refine ⟨balance, fun call w'' h => ?_⟩
  obtain ⟨hrun', hcls'⟩ := run.stays hperiod hrun hcls
  have hcharge := (call.exec_spec hperiod hrun' hcls').of_ok h
  exact ⟨hcharge, step call hcharge balance⟩

def oneRunning : List (Command Unit Unit Unit) :=
  [.configure () ⟨.roundRobin, 0, 1⟩, .addTask () (), .pick ()]

/-- A nanosecond at a period of three: it stays pending, and the remainder of its conversion is
retained as well. -/
theorem accounting_counts_twice : ∃ w w' : World Unit Unit Unit,
    Runs (fun _ _ => True) initial w ∧ (w.sched ()).running = some () ∧
      (w.task ()).params.cls = .roundRobin ∧
      Accounted (fun _ _ => True) () () 3 w 0 1 w' ∧
      3 * 0 + (w'.task ()).state.retained ≠ (w.task ()).state.retained + 1 * one := by
  obtain ⟨w, run, hrun, hcls, hservice, hstep⟩ :=
    execute_any (fun _ _ => True) oneRunning initial
      (fun w => (w.sched ()).running = some () ∧ (w.task ()).params.cls = .roundRobin ∧
        AccountCall.service (w.task ()).state 3 (.sample 1) = 0 ∧
        ((AccountCall.sample 1).command () () 3 : Command Unit Unit Unit).Returns w
          fun w' => (w'.task ()).state.retained ≠ (w.task ()).state.retained + 1 * one)
      (by decide +kernel)
  obtain ⟨w', he, hne⟩ := hstep.exists
  have hacc : Accounted (fun _ _ => True) () () 3 w _ _ w' :=
    Accounted.start.call (.sample 1) trivial he
  rw [hservice] at hacc
  exact ⟨w, w', run, hrun, hcls, hacc, by rwa [Nat.mul_zero, Nat.zero_add]⟩

/-- At a period of `2 ^ 24` nanoseconds every sample converts: one period and five nanoseconds are a
tick and what stays pending. -/
theorem accounting_exact_period : ∃ w w' : World Unit Unit Unit,
    Runs (fun _ _ => True) initial w ∧
      2 ^ 24 * (0 + one) + (w'.task ()).state.retained
        = (w.task ()).state.retained + (0 + (2 ^ 24 + 5)) * one := by
  obtain ⟨w, run, hrun, hcls, hservice, hstep⟩ :=
    execute_any (fun _ _ => True) oneRunning initial
      (fun w => (w.sched ()).running = some () ∧ (w.task ()).params.cls = .roundRobin ∧
        AccountCall.service (w.task ()).state (2 ^ 24) (.sample (2 ^ 24 + 5)) = one ∧
        ((AccountCall.sample (2 ^ 24 + 5)).command () () (2 ^ 24) :
          Command Unit Unit Unit).Returns w
          fun _ => True)
      (by decide +kernel)
  obtain ⟨w', he, -⟩ := hstep.exists
  have hacc : Accounted (fun w call => call.Converts (w.task ()).state (2 ^ 24)) () () (2 ^ 24) w
      _ _ w' :=
    Accounted.start.call (.sample (2 ^ 24 + 5)) (.inl (Dvd.dvd.mul_left (by decide) _)) he
  rw [hservice] at hacc
  exact ⟨w, w', run, (accounting_exact (by decide) hrun (fun _ => hcls) hacc).1⟩

end Runs

end KernelAx.Eevdf
