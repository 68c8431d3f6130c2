import KernelAx.Tally
import KernelAx.Timers.Callbacks

/-!
# Timer callbacks — leases

`in_flight` counts the leases that dispatches hold, and a callback stays in its slot, under its
generation, as long as it is not zero (`Leased`). Every box is in one place: with a call, in a
slot, or dropped (`Placed`). What the slots hold is what the log says of the tokens (`Recorded`).
From the three together follows that the raw pointers of a dispatch are good and that every callback
is dropped once.
-/

namespace KernelAx.Timers

open Interleaving CallbackInner
open Function (update update_self update_of_ne)

variable {ι : Type} [DecidableEq ι] {cpu : Nat}

/-! ### What the operations do -/

def CallbackSlot.filled (slot : CallbackSlot) (callback : Nat) : CallbackSlot :=
  { slot with generation := slot.generation + 1, callback := some callback, closing := false }

namespace CallbackInner

@[simp] theorem setSlot_slots (inner : CallbackInner) (index : Nat) (slot : CallbackSlot) :
    (inner.setSlot index slot).slots = update inner.slots index slot := rfl

/-- A registration fills a free slot, or fails and changes nothing. -/
inductive Registers (inner : CallbackInner) (cpu callback : Nat) :
    Except (TimerCallbackRegisterError × Nat) TimerCallbackToken × CallbackInner → Prop
  | filled {slot : Nat} {inner' : CallbackInner}
      (found : slot ∈ rotation callbackCapacity inner.next)
      (free : (inner.slots slot).callback = none) (idle : (inner.slots slot).inFlight = 0)
      (slots : inner'.slots =
        update inner.slots slot ((inner.slots slot).filled callback))
      (len : inner'.len = inner.len + 1) (next : inner'.next ≤ slot + 1) :
      Registers inner cpu callback
        (.ok ⟨cpu, slot, (inner.slots slot).generation + 1⟩, inner')
  | refused {e : TimerCallbackRegisterError} :
      Registers inner cpu callback (.error (e, callback), inner)

theorem registers (inner : CallbackInner) (cpu callback : Nat) :
    Registers inner cpu callback (inner.register cpu callback) := by
  unfold register
  split_ifs
  · exact .refused
  dsimp only
  split
  · exact .refused
  · rename_i slot hfind
    have hfree := List.find?_some hfind
    simp only [Bool.and_eq_true, beq_iff_eq, Option.isNone_iff_eq_none] at hfree
    refine .filled (List.mem_of_find?_eq_some hfind) hfree.1.1 hfree.1.2 rfl rfl ?_
    dsimp only
    split_ifs <;> omega

/-- A cancellation closes a slot, and empties it if it is idle, or finds no live token. -/
inductive Cancels (inner : CallbackInner) (token : TimerCallbackToken) :
    (Bool × Option Nat) × CallbackInner → Prop
  | stale (dead : token.slot < callbackCapacity →
        (inner.slots token.slot).generation = token.generation →
        (inner.slots token.slot).callback = none ∨ (inner.slots token.slot).closing = true) :
      Cancels inner token ((false, none), inner)
  | taken {callback : Nat} {inner' : CallbackInner} (bound : token.slot < callbackCapacity)
      (current : (inner.slots token.slot).generation = token.generation)
      (held : (inner.slots token.slot).callback = some callback)
      («open» : (inner.slots token.slot).closing = false)
      (idle : (inner.slots token.slot).inFlight = 0)
      (slots : inner'.slots = update inner.slots token.slot
        { inner.slots token.slot with closing := true, callback := none })
      (len : inner'.len = inner.len - 1) (next : inner'.next = token.slot) :
      Cancels inner token ((true, some callback), inner')
  | deferred {callback : Nat} {inner' : CallbackInner} (bound : token.slot < callbackCapacity)
      (current : (inner.slots token.slot).generation = token.generation)
      (held : (inner.slots token.slot).callback = some callback)
      («open» : (inner.slots token.slot).closing = false)
      (busy : (inner.slots token.slot).inFlight ≠ 0)
      (slots : inner'.slots = update inner.slots token.slot
        { inner.slots token.slot with closing := true })
      (len : inner'.len = inner.len - 1) (next : inner'.next = inner.next) :
      Cancels inner token ((true, none), inner')

theorem cancels (inner : CallbackInner) (token : TimerCallbackToken) :
    Cancels inner token (inner.cancel token) := by
  unfold cancel
  split_ifs with hbound
  · dsimp only
    split_ifs with hdead hidle
    · refine .stale fun _ hgen => ?_
      simpa [hgen, Option.isNone_iff_eq_none] using hdead
    · obtain ⟨hgen, hrest⟩ := not_or.mp hdead
      obtain ⟨hsome, hopen⟩ := not_or.mp hrest
      rw [Option.isNone_iff_eq_none, ← ne_eq, Option.ne_none_iff_exists'] at hsome
      obtain ⟨callback, hheld⟩ := hsome
      rw [hheld]
      exact .taken hbound (not_not.mp hgen) hheld (by simpa using hopen) hidle rfl rfl rfl
    · obtain ⟨hgen, hrest⟩ := not_or.mp hdead
      obtain ⟨hsome, hopen⟩ := not_or.mp hrest
      rw [Option.isNone_iff_eq_none, ← ne_eq, Option.ne_none_iff_exists'] at hsome
      obtain ⟨callback, hheld⟩ := hsome
      exact .deferred hbound (not_not.mp hgen) hheld (by simpa using hopen) hidle rfl rfl rfl
  · exact .stale fun h => absurd h hbound

/-- The end of a lease that is held: the count goes down, and the last lease on a closed slot takes
the callback out. -/
inductive Finishes (inner : CallbackInner) (lease : CallbackLease) :
    Option Nat × CallbackInner → Prop
  | last {inner' : CallbackInner} (closed : (inner.slots lease.slot).closing = true)
      (one : (inner.slots lease.slot).inFlight = 1)
      (slots : inner'.slots = update inner.slots lease.slot
        { inner.slots lease.slot with inFlight := 0, callback := none })
      (len : inner'.len = inner.len) (next : inner'.next = lease.slot) :
      Finishes inner lease ((inner.slots lease.slot).callback, inner')
  | counted {inner' : CallbackInner} {n : Nat} (count : (inner.slots lease.slot).inFlight = n + 1)
      (more : (inner.slots lease.slot).closing = true → n ≠ 0)
      (slots : inner'.slots = update inner.slots lease.slot
        { inner.slots lease.slot with inFlight := n })
      (len : inner'.len = inner.len) (next : inner'.next = inner.next) :
      Finishes inner lease (none, inner')

theorem finishes (inner : CallbackInner) {lease : CallbackLease}
    (hbound : lease.slot < callbackCapacity)
    (hgen : (inner.slots lease.slot).generation = lease.generation)
    (hpos : (inner.slots lease.slot).inFlight ≠ 0) :
    Finishes inner lease (inner.finishDispatch lease) := by
  obtain ⟨n, hn⟩ := Nat.exists_eq_succ_of_ne_zero hpos
  unfold finishDispatch
  rw [if_pos hbound]
  dsimp only
  rw [if_neg (by simp [hgen, hpos]), hn, Nat.succ_sub_one]
  split_ifs with hlast
  · obtain ⟨hclosed, rfl⟩ := hlast
    exact .last hclosed hn rfl rfl rfl
  · exact .counted hn (fun hclosed hzero => hlast ⟨hclosed, hzero⟩) rfl rfl rfl

end CallbackInner

/-! ### What a step does -/

/-- The steps of the calls, with the operations of the registry inverted. -/
inductive Move (cpu : Nat) (m : Memory) : Call → Memory → Call → Prop
  | allocate : Move cpu m .register { m with boxes := m.boxes + 1 } (.publish m.boxes)
  | noMemory : Move cpu m .register m (.registered (.error .noMemory))
  | publish {callback token inner} (op : m.inner.Registers cpu callback (.ok token, inner)) :
      Move cpu m (.publish callback)
        { m with inner, log := .registered token callback :: m.log } (.registered (.ok token))
  | refuse {callback e} :
      Move cpu m (.publish callback) m (.reject callback e)
  | reject {callback e} :
      Move cpu m (.reject callback e) (m.drop (some callback)) (.registered (.error e))
  | cancel {token cancelled deferred inner}
      (op : m.inner.Cancels token ((cancelled, deferred), inner)) :
      Move cpu m (.cancel token) ({ m with inner }.note cancelled (.cancelled token))
        (.discard token cancelled deferred)
  | discard {token cancelled deferred} :
      Move cpu m (.discard token cancelled deferred) (m.drop deferred) (.answer token cancelled)
  | answer {token cancelled} :
      Move cpu m (.answer token cancelled) (m.note cancelled (.returned token))
        (.cancelReturned token cancelled)
  | dispatch : Move cpu m .dispatch { m with inner := m.inner.beginDispatch.2 }
      (.serve m.inner.beginDispatch.1)
  | done : Move cpu m (.serve []) m .dispatched
  | invoke {lease rest} :
      Move cpu m (.serve (lease :: rest)) (m.note true (.invoked lease)) (.running lease rest)
  | finish {lease rest} :
      Move cpu m (.running lease rest) { m with inner := (m.inner.finishDispatch lease).2 }
        (.finish (m.inner.finishDispatch lease).1 rest)
  | next {deferred rest} :
      Move cpu m (.finish deferred rest) (m.drop deferred) (.serve rest)

variable {m : Memory} {k : Call} {lease : CallbackLease} {c : Config ι Memory Call} {i : ι}
  {inner : CallbackInner}

theorem move_of_mem {m' : Memory} {k' : Call} (h : (m', k') ∈ k.step cpu m) :
    Move cpu m k m' k' := by
  cases k with
  | idle | registered | cancelReturned | dispatched => cases h
  | register =>
    rcases List.mem_cons.mp h with heq | hmem
    · cases heq
      exact .allocate
    · cases List.mem_singleton.mp hmem
      exact .noMemory
  | publish callback =>
    have hop := m.inner.registers cpu callback
    rw [Call.step] at h
    generalize m.inner.register cpu callback = r at h hop
    cases hop with
    | filled found free idle slots len next =>
      cases List.mem_singleton.mp h
      exact .publish (.filled found free idle slots len next)
    | refused =>
      cases List.mem_singleton.mp h
      exact .refuse
  | reject callback e => cases List.mem_singleton.mp h; exact .reject
  | cancel token =>
    have hop := m.inner.cancels token
    rw [Call.step] at h
    generalize m.inner.cancel token = r at h hop
    obtain ⟨⟨cancelled, deferred⟩, inner⟩ := r
    cases List.mem_singleton.mp h
    exact .cancel hop
  | discard token cancelled deferred => cases List.mem_singleton.mp h; exact .discard
  | answer token cancelled => cases List.mem_singleton.mp h; exact .answer
  | dispatch => cases List.mem_singleton.mp h; exact .dispatch
  | serve leases =>
    cases leases with
    | nil => cases List.mem_singleton.mp h; exact .done
    | cons lease rest => cases List.mem_singleton.mp h; exact .invoke
  | running lease rest => cases List.mem_singleton.mp h; exact .finish
  | finish deferred rest => cases List.mem_singleton.mp h; exact .next

/-! ### Leases -/

/-- The leases that a call has taken and not finished. -/
def Call.leases : Call → List CallbackLease
  | .serve leases => leases
  | .running lease rest => lease :: rest
  | .finish _ rest => rest
  | _ => []

def Call.leasesOn (slot : Nat) (k : Call) : Nat := k.leases.countP (·.slot == slot)

/-- The callback of the lease is in its slot, under its generation. -/
structure CallbackInner.Serves (inner : CallbackInner) (lease : CallbackLease) : Prop where
  bound : lease.slot < callbackCapacity
  current : (inner.slots lease.slot).generation = lease.generation
  held : (inner.slots lease.slot).callback = some lease.callback

/-- The `in_flight` count of a slot is the number of leases that calls hold on it. -/
structure Leased (c : Config ι Memory Call) : Prop where
  counted : ∀ slot, Tally (fun i => (c.calls i).leasesOn slot) (c.shared.inner.slots slot).inFlight
  served : ∀ i, ∀ lease ∈ (c.calls i).leases, c.shared.inner.Serves lease

theorem leasesOn_pos (h : lease ∈ k.leases) : 0 < k.leasesOn lease.slot :=
  List.countP_pos_iff.mpr ⟨lease, h, by simp⟩

omit [DecidableEq ι] in
theorem Leased.busy (h : Leased c) (hmem : lease ∈ (c.calls i).leases) :
    (c.shared.inner.slots lease.slot).inFlight ≠ 0 := by
  have hpos := leasesOn_pos hmem
  have hle := (h.counted lease.slot).le i
  omega

/-- A step keeps the leases if it counts its own and takes no callback from a slot that is still
leased. -/
theorem Leased.step {c : Config ι Memory Call} (h : Leased c) {i : ι} {m : Memory} {k : Call}
    (hcount : ∀ slot, (m.inner.slots slot).inFlight + (c.calls i).leasesOn slot
      = (c.shared.inner.slots slot).inFlight + k.leasesOn slot)
    (hself : ∀ lease ∈ k.leases, m.inner.Serves lease)
    (hothers : ∀ lease, c.shared.inner.Serves lease → (m.inner.slots lease.slot).inFlight ≠ 0 →
      m.inner.Serves lease) : Leased ⟨m, update c.calls i k⟩ := by
  have hcounted : ∀ slot, Tally (fun j => (update c.calls i k j).leasesOn slot)
      (m.inner.slots slot).inFlight := fun slot => (h.counted slot).update_comp (hcount slot)
  refine ⟨hcounted, fun j lease hmem => ?_⟩
  by_cases hji : j = i
  · subst hji
    simp only [update_self] at hmem
    exact hself lease hmem
  · simp only [update_of_ne hji] at hmem
    refine hothers lease (h.served j lease hmem) ?_
    have hle := (hcounted lease.slot).le j
    simp only [update_of_ne hji] at hle
    have hpos := leasesOn_pos hmem
    omega

theorem Leased.same (h : Leased c) (hslots : m.inner.slots = c.shared.inner.slots)
    (hleases : k.leases = (c.calls i).leases) : Leased ⟨m, update c.calls i k⟩ := by
  have hserves : ∀ lease, c.shared.inner.Serves lease → m.inner.Serves lease := fun lease hs =>
    ⟨hs.bound, by rw [hslots]; exact hs.current, by rw [hslots]; exact hs.held⟩
  refine h.step (fun slot => by rw [hslots, Call.leasesOn, Call.leasesOn, hleases]) ?_
    fun lease hs _ => hserves lease hs
  intro lease hmem
  exact hserves lease (h.served i lease (hleases ▸ hmem))

theorem CallbackInner.lease_some {index : Nat} (h : inner.lease index = some lease) :
    lease.slot = index ∧
      (inner.slots index).generation = lease.generation ∧
      (inner.slots index).callback = some lease.callback ∧ (inner.slots index).closing = false := by
  unfold CallbackInner.lease at h
  cases hcallback : (inner.slots index).callback with
  | none => simp [hcallback] at h
  | some callback =>
    simp only [hcallback] at h
    split_ifs at h with hclosing
    cases h
    exact ⟨rfl, rfl, rfl, by simpa using hclosing⟩

theorem CallbackInner.countP_leases (inner : CallbackInner) (slot n : Nat) :
    ((List.range n).filterMap inner.lease).countP (·.slot == slot)
      = if slot < n ∧ (inner.lease slot).isSome then 1 else 0 := by
  induction n with
  | zero => simp
  | succ n ih =>
    rw [List.range_succ, List.filterMap_append, List.countP_append, ih]
    cases hlease : inner.lease n with
    | none =>
      by_cases e : slot = n
      · subst e
        simp [hlease]
      · have : slot < n + 1 ↔ slot < n := by omega
        simp [hlease, this]
    | some lease =>
      obtain ⟨hslot, -⟩ := lease_some hlease
      by_cases e : slot = n
      · subst e
        simp [hlease, hslot]
      · have : slot < n + 1 ↔ slot < n := by omega
        simp [hlease, this, hslot, Ne.symm e]

theorem Leased.dispatch (h : Leased c) (hk : c.calls i = .dispatch) :
    Leased ⟨{ c.shared with inner := c.shared.inner.beginDispatch.2 },
      update c.calls i (.serve c.shared.inner.beginDispatch.1)⟩ := by
  have hserves : ∀ lease, c.shared.inner.Serves lease →
      c.shared.inner.beginDispatch.2.Serves lease := by
    rintro lease ⟨hbound, hcurrent, hheld⟩
    refine ⟨hbound, ?_, ?_⟩
    · dsimp only [beginDispatch]
      split_ifs <;> exact hcurrent
    · dsimp only [beginDispatch]
      split_ifs <;> exact hheld
  refine h.step (fun slot => ?_) (fun lease hmem => ?_) fun lease hs _ => hserves lease hs
  · have hnone : (c.calls i).leasesOn slot = 0 := by rw [hk]; rfl
    have hcount := c.shared.inner.countP_leases slot callbackCapacity
    rw [hnone, Call.leasesOn, Call.leases, beginDispatch, hcount]
    dsimp only
    split_ifs <;> rfl
  · obtain ⟨index, hindex, hlease⟩ := List.mem_filterMap.mp hmem
    obtain ⟨hslot, hcurrent, hheld, -⟩ := lease_some hlease
    refine hserves lease ⟨hslot ▸ List.mem_range.mp hindex, ?_, ?_⟩
    · rw [hslot]
      exact hcurrent
    · rw [hslot]
      exact hheld

theorem CallbackInner.Serves.update {inner' : CallbackInner} {slot : Nat} {value : CallbackSlot}
    (h : inner.Serves lease) (hslots : inner'.slots = update inner.slots slot value)
    (hsame : lease.slot = slot → value.generation = (inner.slots slot).generation ∧
      value.callback = (inner.slots slot).callback) : inner'.Serves lease := by
  by_cases e : lease.slot = slot
  · obtain ⟨hgen, hcallback⟩ := hsame e
    subst e
    refine ⟨h.bound, ?_, ?_⟩
    · rw [hslots, update_self, hgen, h.current]
    · rw [hslots, update_self, hcallback, h.held]
  · refine ⟨h.bound, ?_, ?_⟩
    · rw [hslots, update_of_ne e, h.current]
    · rw [hslots, update_of_ne e, h.held]

/-- A step of a call without leases that writes one slot and keeps its count. -/
theorem Leased.write (h : Leased c) {slot : Nat} {value : CallbackSlot}
    (hslots : m.inner.slots = update c.shared.inner.slots slot value)
    (hcount : value.inFlight = (c.shared.inner.slots slot).inFlight)
    (hsame : value.inFlight ≠ 0 → value.generation = (c.shared.inner.slots slot).generation ∧
      value.callback = (c.shared.inner.slots slot).callback)
    (hnone : (c.calls i).leases = []) (hnone' : k.leases = []) :
    Leased ⟨m, update c.calls i k⟩ := by
  refine h.step (fun s => ?_) (fun lease hmem => by rw [hnone'] at hmem; cases hmem) ?_
  · rw [Call.leasesOn, Call.leasesOn, hnone, hnone', hslots]
    by_cases e : s = slot
    · subst e
      rw [update_self, hcount]
    · rw [update_of_ne e]
  · intro lease hs hpos
    refine hs.update hslots fun e => hsame ?_
    rw [hslots, e, update_self] at hpos
    exact hpos

/-- The end of a lease: one lease less on its slot, and a callback stays where there are others. -/
theorem CallbackInner.Finishes.kept {inner' : CallbackInner} {deferred : Option Nat}
    (h : inner.Finishes lease (deferred, inner')) :
    (∀ slot, (inner'.slots slot).inFlight + (if lease.slot == slot then 1 else 0)
      = (inner.slots slot).inFlight) ∧
    ∀ other, inner.Serves other → (inner'.slots other.slot).inFlight ≠ 0 →
      inner'.Serves other := by
  cases h with
  | last closed one slots len next =>
    refine ⟨fun slot => ?_, fun other hs hpos => hs.update slots fun e => ?_⟩
    · by_cases e : lease.slot = slot
      · subst e
        simp [slots, one]
      · simp [slots, e, Ne.symm e]
    · rw [slots, e, update_self] at hpos
      exact absurd rfl hpos
  | counted count more slots len next =>
    refine ⟨fun slot => ?_, fun other hs hpos => hs.update slots fun e => ⟨rfl, rfl⟩⟩
    by_cases e : lease.slot = slot
    · subst e
      simp [slots, count]
    · simp [slots, e, Ne.symm e]

omit [DecidableEq ι] in
/-- The lease that a dispatch serves is counted, and its callback is in place. -/
theorem Leased.running (h : Leased c) {rest : List CallbackLease}
    (hk : c.calls i = .running lease rest) :
    c.shared.inner.Serves lease ∧
      c.shared.inner.Finishes lease (c.shared.inner.finishDispatch lease) := by
  have hmem : lease ∈ (c.calls i).leases := by rw [hk]; exact List.mem_cons_self
  have hserved := h.served i lease hmem
  exact ⟨hserved, c.shared.inner.finishes hserved.bound hserved.current (h.busy hmem)⟩

theorem Leased.finish {c : Config ι Memory Call} (h : Leased c) {i : ι} {lease : CallbackLease}
    {rest : List CallbackLease} (hk : c.calls i = .running lease rest) :
    Leased ⟨{ c.shared with inner := (c.shared.inner.finishDispatch lease).2 },
      update c.calls i (.finish (c.shared.inner.finishDispatch lease).1 rest)⟩ := by
  obtain ⟨-, hop⟩ := h.running hk
  generalize c.shared.inner.finishDispatch lease = r at hop ⊢
  obtain ⟨deferred, inner'⟩ := r
  obtain ⟨hcount, hserves⟩ := CallbackInner.Finishes.kept hop
  have hleases : ∀ slot, (c.calls i).leasesOn slot
      = (Call.finish deferred rest).leasesOn slot + if lease.slot == slot then 1 else 0 := by
    intro slot
    rw [hk, Call.leasesOn, Call.leases, List.countP_cons]
    rfl
  refine h.step (fun slot => ?_) (fun other hother => ?_) hserves
  · rw [hleases slot, ← hcount slot]
    dsimp only
    omega
  · refine hserves other (h.served i other (by rw [hk]; exact List.mem_cons_of_mem _ hother)) ?_
    have hle := (h.counted other.slot).le i
    rw [hleases other.slot, ← hcount other.slot] at hle
    have hpos := leasesOn_pos hother
    dsimp only at hle hpos ⊢
    omega

theorem run_leased (h : (system cpu ι).Run (initial ι) c) : Leased c := by
  refine h.invariant (P := Leased) ?_ ⟨fun _ => Tally.zero, fun _ _ hmem => by cases hmem⟩
  intro i c c' hnext hleased
  cases hnext with
  | @call k idle starts =>
    refine hleased.same rfl ?_
    have hidle : c.calls i = Call.idle := idle
    rw [hidle]
    cases k <;> first | rfl | cases starts
  | @act m k step =>
    have hmove := move_of_mem step
    generalize hk : c.calls i = k₀ at hmove
    cases hmove with
    | allocate | noMemory | refuse => exact hleased.same rfl (by rw [hk]; rfl)
    | publish op =>
      cases op with
      | filled found free idle slots len next =>
        exact hleased.write slots rfl (fun hpos => absurd idle hpos) (by rw [hk]; rfl) rfl
    | reject => exact hleased.same rfl (by rw [hk]; rfl)
    | cancel op =>
      cases op with
      | stale dead => exact hleased.same rfl (by rw [hk]; rfl)
      | taken bound current held «open» idle slots len next =>
        exact hleased.write slots rfl (fun hpos => absurd idle hpos)
          (by rw [hk]; rfl) rfl
      | deferred bound current held «open» busy slots len next =>
        exact hleased.write slots rfl (fun _ => ⟨rfl, rfl⟩)
          (by rw [hk]; rfl) rfl
    | discard | answer => exact hleased.same (by simp) (by rw [hk]; rfl)
    | dispatch => exact hleased.dispatch hk
    | done | invoke => exact hleased.same rfl (by rw [hk]; rfl)
    | finish => exact hleased.finish hk
    | next => exact hleased.same (by simp) (by rw [hk]; rfl)

end KernelAx.Timers
