import KernelAx.Timers.Tokens

/-!
# Timer callbacks — cancelled callbacks

`cancel_timer_callback` promises that no invocation begins after it has returned `true`. A dispatch
does not look at the slots again once it has its leases, so a callback whose lease is still to be
served when it is cancelled is invoked afterwards (`invoked_after_cancel`).

If the cancellation meets no such lease, the promise is kept (`cancelled_silent`): later dispatches
take no lease on a slot that is closed or has another generation.
-/

namespace KernelAx.Timers

open Interleaving

variable {ι : Type} [DecidableEq ι] {cpu : Nat}

/-- The lease is on the callback of the token. -/
def CallbackLease.Of (lease : CallbackLease) (token : TimerCallbackToken) : Prop :=
  lease.slot = token.slot ∧ lease.generation = token.generation

instance (lease : CallbackLease) (token : TimerCallbackToken) : Decidable (lease.Of token) :=
  inferInstanceAs (Decidable (_ ∧ _))

def Call.pending : Call → List CallbackLease
  | .serve leases => leases
  | .running _ rest | .finish _ rest => rest
  | _ => []

/-- The token that a call has cancelled and is to answer `true` for. -/
def Call.cancelled : Call → Option TimerCallbackToken
  | .discard token true _ | .answer token true => some token
  | _ => none

/-- A cancellation takes the lock only while no dispatch is still to invoke the callback. -/
def Unleased (i : ι) (c : Config ι Memory Call) : Prop :=
  ∀ token ∈ (c.calls i).cancels, ∀ j, ∀ lease ∈ (c.calls j).pending, ¬ lease.Of token

/-- The invocation `later` is one of a callback whose cancellation had returned `true`. -/
def Event.Late (later earlier : Event) : Prop :=
  ∃ lease token, later = .invoked lease ∧ earlier = .returned token ∧ lease.Of token

/-- No lease that is still to be served is on a cancelled callback. -/
structure Silent (c : Config ι Memory Call) : Prop where
  pending : ∀ {token : TimerCallbackToken}, .cancelled token ∈ c.shared.log →
    ∀ j, ∀ lease ∈ (c.calls j).pending, ¬ lease.Of token
  cancelled : ∀ {j : ι} {token : TimerCallbackToken}, (c.calls j).cancelled = some token →
    .cancelled token ∈ c.shared.log
  returned : ∀ {token : TimerCallbackToken}, .returned token ∈ c.shared.log →
    .cancelled token ∈ c.shared.log
  log : c.shared.log.Pairwise fun later earlier => ¬ later.Late earlier

section Steps

variable {c : Config ι Memory Call} {i : ι} {m : Memory} {k : Call}

theorem Silent.step (h : Silent c) (hkeep : ∀ e ∈ c.shared.log, e ∈ m.log)
    (hcancelled : ∀ token, .cancelled token ∈ m.log → .cancelled token ∈ c.shared.log ∨
      ∀ j, ∀ lease ∈ (c.calls j).pending, ¬ lease.Of token)
    (hpending : ∀ lease ∈ k.pending, lease ∈ (c.calls i).pending ∨
      ∀ token, .cancelled token ∈ m.log → ¬ lease.Of token)
    (hself : ∀ token, k.cancelled = some token →
      (c.calls i).cancelled = some token ∨ .cancelled token ∈ m.log)
    (hreturned : ∀ token, .returned token ∈ m.log →
      .returned token ∈ c.shared.log ∨ .cancelled token ∈ c.shared.log)
    (hlog : m.log.Pairwise fun later earlier => ¬ later.Late earlier) :
    Silent ⟨m, Function.update c.calls i k⟩ where
  pending := by
    intro token htoken j lease hlease
    have hold : ∀ j, ∀ lease ∈ (c.calls j).pending, ¬ lease.Of token :=
      (hcancelled token htoken).elim h.pending id
    by_cases e : j = i
    · subst e
      simp only [Function.update_self] at hlease
      rcases hpending lease hlease with hmem | hnew
      · exact hold j lease hmem
      · exact hnew token htoken
    · simp only [Function.update_of_ne e] at hlease
      exact hold j lease hlease
  cancelled := by
    intro j token hj
    by_cases e : j = i
    · subst e
      simp only [Function.update_self] at hj
      rcases hself token hj with hold | hnew
      · exact hkeep _ (h.cancelled hold)
      · exact hnew
    · simp only [Function.update_of_ne e] at hj
      exact hkeep _ (h.cancelled hj)
  returned := by
    intro token htoken
    rcases hreturned token htoken with hold | hold
    · exact hkeep _ (h.returned hold)
    · exact hkeep _ hold
  log := hlog

theorem Silent.quiet (h : Silent c) (hlog : m.log = c.shared.log)
    (hpending : ∀ lease ∈ k.pending, lease ∈ (c.calls i).pending)
    (hself : ∀ token, k.cancelled = some token → (c.calls i).cancelled = some token) :
    Silent ⟨m, Function.update c.calls i k⟩ := by
  refine h.step (fun e he => hlog ▸ he) (fun _ ht => .inl (hlog ▸ ht))
    (fun lease hl => .inl (hpending lease hl)) (fun token hk => .inl (hself token hk))
    (fun _ ht => .inl (hlog ▸ ht)) (hlog ▸ h.log)

theorem Silent.note (h : Silent c) {e : Event} (hlog : m.log = e :: c.shared.log)
    (he : ∀ token, e ≠ .cancelled token)
    (hreturned : ∀ token, e = .returned token → .cancelled token ∈ c.shared.log)
    (hinvoked : ∀ lease, e = .invoked lease → lease ∈ (c.calls i).pending)
    (hpending : ∀ lease ∈ k.pending, lease ∈ (c.calls i).pending)
    (hself : ∀ token, k.cancelled = some token → (c.calls i).cancelled = some token) :
    Silent ⟨m, Function.update c.calls i k⟩ := by
  refine h.step (fun _ hmem => by rw [hlog]; exact List.mem_cons_of_mem _ hmem) (fun token ht => ?_)
    (fun lease hl => .inl (hpending lease hl)) (fun token hk => .inl (hself token hk))
    (fun token ht => ?_) ?_
  · rw [hlog] at ht
    exact .inl ((List.mem_cons.mp ht).resolve_left fun heq => he token heq.symm)
  · rw [hlog] at ht
    rcases List.mem_cons.mp ht with heq | ht
    · exact .inr (hreturned token heq.symm)
    · exact .inl ht
  · rw [hlog]
    refine List.pairwise_cons.mpr ⟨fun earlier hearlier => ?_, h.log⟩
    rintro ⟨lease, token, rfl, rfl, hof⟩
    exact h.pending (h.returned hearlier) i lease (hinvoked lease rfl) hof

end Steps

/-- **Cancelled callbacks stay silent** if each cancellation takes the lock while no dispatch is
still to invoke the callback. -/
theorem cancelled_silent {c : Config ι Memory Call}
    (h : (system cpu ι).RunWhen Unleased (initial ι) c) :
    c.shared.log.Pairwise fun later earlier => ¬ later.Late earlier := by
  suffices hsilent : Silent c from hsilent.log
  refine h.reached ?_ ⟨nofun, nofun, nofun, .nil⟩
  intro i c c' hrun hwhen hnext hsilent
  have hrec := run_recorded hrun.run
  cases hnext with
  | @call k idle starts =>
    refine hsilent.quiet rfl (fun lease hl => ?_) (fun token hk => ?_)
    · cases k <;> first | (cases starts; done) | cases hl
    · cases k <;> first | (cases starts; done) | cases hk
  | @act m k step =>
    have hmove := move_of_mem step
    generalize hk : c.calls i = k₀ at hmove
    cases hmove with
    | allocate | noMemory | refuse | done => exact hsilent.quiet rfl nofun nofun
    | publish op | reject => exact hsilent.note rfl nofun nofun nofun nofun nofun
    | @cancel token cancelled deferred inner op =>
      cases cancelled with
      | false => exact hsilent.quiet rfl nofun nofun
      | true =>
        -- the condition says that no lease on the callback is still to be served
        have hclear := hwhen token (by rw [hk]; rfl)
        refine hsilent.step (fun _ he => List.mem_cons_of_mem _ he) (fun t ht => ?_) nofun
          (fun t hd => .inr ?_) (fun t ht => ?_) ?_
        · rcases List.mem_cons.mp ht with heq | ht
          · cases heq
            exact .inr hclear
          · exact .inl ht
        · cases hd
          exact List.mem_cons_self
        · exact .inl ((List.mem_cons.mp ht).resolve_left nofun)
        · refine List.pairwise_cons.mpr ⟨fun earlier _ => ?_, hsilent.log⟩
          rintro ⟨lease, t, heq, -⟩
          cases heq
    | @discard token cancelled deferred =>
      have hself : ∀ t, (Call.answer token cancelled).cancelled = some t →
          (c.calls i).cancelled = some t := by
        intro t ht
        rw [hk]
        cases cancelled <;> exact ht
      cases deferred with
      | none => exact hsilent.quiet rfl nofun hself
      | some b => exact hsilent.note rfl nofun nofun nofun nofun hself
    | @answer token cancelled =>
      cases cancelled with
      | false => exact hsilent.quiet rfl nofun nofun
      | true =>
        refine hsilent.note rfl nofun (fun t ht => ?_) nofun nofun nofun
        cases ht
        exact hsilent.cancelled (j := i) (by rw [hk]; rfl)
    | dispatch =>
      refine hsilent.step (fun _ he => he) (fun _ ht => .inl ht) (fun lease hl => .inr ?_) nofun
        (fun _ ht => .inl ht) hsilent.log
      -- a slot that is open has no cancelled token of its generation
      rintro token htoken ⟨hslot, hgen⟩
      obtain ⟨index, -, hlease⟩ := List.mem_filterMap.mp hl
      obtain ⟨hindex, hcurrent, hheld, hopen⟩ := CallbackInner.lease_some hlease
      rw [← hindex, hslot] at hcurrent hheld hopen
      rcases hrec.dead htoken (hcurrent.trans hgen) with hempty | hclosed
      · rw [hheld] at hempty
        cases hempty
      · rw [hopen] at hclosed
        cases hclosed
    | @invoke lease rest =>
      refine hsilent.note rfl nofun nofun (fun l hl => ?_) (fun l hl => ?_) nofun
      · cases hl
        rw [hk]
        exact List.mem_cons_self
      · rw [hk]
        exact List.mem_cons_of_mem _ hl
    | finish => exact hsilent.quiet rfl (fun l hl => by rw [hk]; exact hl) nofun
    | @next deferred rest =>
      have hpending : ∀ l ∈ (Call.serve rest).pending, l ∈ (c.calls i).pending :=
        fun l hl => by rw [hk]; exact hl
      cases deferred with
      | none => exact hsilent.quiet rfl hpending nofun
      | some b => exact hsilent.note rfl nofun nofun nofun hpending nofun

/-- A callback is registered, a dispatch takes its lease, the callback is cancelled, and then the
dispatch invokes it. -/
abbrev cancelledUnderLease : Config Nat Memory Call :=
  (system 0 Nat).exec threeCalls [0, 0, 1, 2, 2, 2, 1]

theorem invoked_after_cancel : (system 0 Nat).Run (initial Nat) cancelledUnderLease ∧
    cancelledUnderLease.calls 2 = .cancelReturned ⟨0, 0, 1⟩ true ∧
    ∃ rest, cancelledUnderLease.shared.log
      = .invoked ⟨0, 1, 0⟩ :: .returned ⟨0, 0, 1⟩ :: rest :=
  ⟨threeCalls_run.exec _, rfl, _, rfl⟩

abbrev runningOrder : List Nat := [0, 0, 1, 1, 2, 2, 2, 1, 1, 1]

theorem cancelled_silent_running :
    let finished := (system 0 Nat).exec threeCalls runningOrder
    finished.calls 2 = .cancelReturned ⟨0, 0, 1⟩ true ∧
      finished.shared.log.Pairwise fun later earlier => ¬ later.Late earlier := by
  intro finished
  have hwhen : ∀ k (hk : k < runningOrder.length),
      Unleased runningOrder[k] ((system 0 Nat).exec threeCalls (runningOrder.take k)) := by
    have hcalls : ∀ k (hk : k < runningOrder.length),
        ∀ token ∈ (((system 0 Nat).exec threeCalls (runningOrder.take k)).calls
          runningOrder[k]).cancels,
        ∀ j < 3, ∀ lease ∈ (((system 0 Nat).exec threeCalls (runningOrder.take k)).calls j).pending,
          ¬ lease.Of token := by
      decide +kernel
    intro k hk token htoken j
    by_cases hj : j < 3
    · exact hcalls k hk token htoken j hj
    · have hidle : ((system 0 Nat).exec threeCalls (runningOrder.take k)).calls j = .idle := by
        rw [System.exec_calls _ fun hmem => hj ?_]
        · simp only [threeCalls, Config.calling, initial]
          rw [Function.update_of_ne (by omega), Function.update_of_ne (by omega),
            Function.update_of_ne (by omega)]
        · have hsmall : ∀ j ∈ runningOrder, j < 3 := by decide
          exact hsmall j (List.mem_of_mem_take hmem)
      rw [hidle]
      exact fun lease hlease => absurd hlease List.not_mem_nil
  have hcalls : (system 0 Nat).RunWhen Unleased (initial Nat) threeCalls := by
    refine System.RunWhen.calling (System.RunWhen.calling (System.RunWhen.calling .refl ?_ rfl ?_)
      ?_ rfl ?_) ?_ rfl ?_
    all_goals first | trivial | (intro token htoken; cases htoken)
  exact ⟨rfl, cancelled_silent (hcalls.exec hwhen)⟩

end KernelAx.Timers
