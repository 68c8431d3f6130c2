import KernelAx.Fault.History

/-!
# Fault broker — Well-formedness

After any sequence of operations the links of the broker are lists, and what they hold is what the
operations so far say they should hold, in the order of admission (`broker_wellFormed`). No
operation then panics or finds the broker inconsistent, and a handler gets its oldest request.
-/

namespace KernelAx.Fault

open RequestBody

variable {K H C : Type}

namespace FaultBroker

def PendingList (b : FaultBroker K H C) (queue : List Nat) : Prop :=
  Linked b.pendingPrev b.pendingNext b.pendingHead b.pendingTail queue

def WaiterList (b : FaultBroker K H C) (record : RequestRecord K H C) (waiters : List Nat) : Prop :=
  Linked b.waiterPrev b.waiterNext record.waiterHead record.waiterTail waiters

/-- The broker is as the operations of the log have left it. -/
structure WellFormed (b : FaultBroker K H C) (log : Log K H C) : Prop where
  request_lt : ∀ {slot}, (b.requests slot).record.isSome → slot < b.requestCapacity
  waiter_lt : ∀ {waiter}, (b.waiters waiter).record.isSome → waiter < b.waiterCapacity
  created_nodup : (created log).Nodup
  admitted_nodup : (admitted log).Nodup
  /-- the queue holds the requests that are neither claimed nor visible, as they were admitted -/
  pending : ∃ queue, b.PendingList queue ∧
    (∀ slot, slot ∈ queue ↔ ∃ record, (b.requests slot).record = some record ∧
      record.state.isVisible = false ∧ b.requestToken slot ∉ claimed log) ∧
    (queue.map b.requestToken).Sublist (created log)
  /-- a request holds the waiters that name it, as they were admitted -/
  waiters : ∀ {slot record}, (b.requests slot).record = some record →
    ∃ waiters, b.WaiterList record waiters ∧
      (∀ waiter, waiter ∈ waiters ↔ ∃ entry, (b.waiters waiter).record = some entry ∧
        entry.request = b.requestToken slot) ∧
      record.waiterCount = waiters.length ∧ 1 ≤ record.waiterCount ∧
      (waiters.map b.waiterToken).Sublist (admitted log)
  /-- a waiter knows the result of its request if and only if that is visible -/
  ready : ∀ {waiter entry}, (b.waiters waiter).record = some entry →
    ∃ record, (b.requests entry.request.slot).record = some record ∧
      entry.request = b.requestToken entry.request.slot ∧
      ∀ completion, entry.state = .ready completion ↔ record.state = .visible completion
  unique : ∀ {i j record record'}, (b.requests i).record = some record →
    (b.requests j).record = some record' → record.state.isVisible = false →
    record'.state.isVisible = false → record.handler = record'.handler →
    record.key = record'.key → i = j

/-- What `claim_next` returns and leaves: nothing when no request of the handler is pending, and
otherwise the one that was admitted first, with the others in the queue as they were. -/
def Claims (b : FaultBroker K H C) (log : Log K H C) (handler : H)
    (answer : Option (RequestSnapshot K H)) (b' : FaultBroker K H C) : Prop :=
  ∃ queue, b.PendingList queue ∧ match answer with
    | none => b'.PendingList queue ∧ ∀ slot ∈ queue, ∀ record,
        (b.requests slot).record = some record → record.handler ≠ handler
    | some snapshot => ∃ slot ∈ queue, snapshot.token = b.requestToken slot ∧
        snapshot.handler = handler ∧ b'.PendingList (queue.erase slot) ∧
        ∀ other ∈ queue, other ≠ slot → ∀ record, (b.requests other).record = some record →
          record.handler = handler →
          [b.requestToken slot, b.requestToken other].Sublist (created log)

end FaultBroker

variable {b : FaultBroker K H C} {s : Registry K H C} {log : Log K H C}

/-! ### From the registry to the broker -/

theorem Refines.request_of_record (h : Refines b s) {slot : Nat} {record : RequestRecord K H C}
    (hrecord : (b.requests slot).record = some record) :
    ∃ r, s.requests slot = some r ∧ record.toRequestBody = r.body := by
  have hbody := h.requests.body slot
  rw [FaultBroker.body, hrecord] at hbody
  cases request : s.requests slot with
  | none =>
    rw [request] at hbody
    cases hbody
  | some r =>
    rw [request] at hbody
    exact ⟨r, rfl, Option.some.inj hbody⟩

theorem Refines.waiter_of_record (h : Refines b s) {waiter : Nat} {entry : WaiterRecord C}
    (hentry : (b.waiters waiter).record = some entry) :
    ∃ slot r, s.requests slot = some r ∧ waiter ∈ r.waiters ∧
      entry.request = s.requestToken slot ∧ entry.state = r.state.waiterState := by
  have hisNone := h.waiter_isNone waiter
  rw [hentry] at hisNone
  cases howner : s.owner waiter with
  | none =>
    rw [howner] at hisNone
    cases hisNone
  | some slot =>
    obtain ⟨r, request, mem⟩ := h.valid.owner_iff.mp howner
    obtain ⟨entry', hentry', hrequest, hstate⟩ := h.waiters.record h.valid request mem
    obtain rfl : entry = entry' := Option.some.inj (hentry.symm.trans hentry')
    exact ⟨slot, r, request, mem, hrequest, hstate⟩

theorem RequestState.waiterState_eq_ready {state : RequestState C} {completion : C} :
    state.waiterState = .ready completion ↔ state = .visible completion := by
  cases state <;> simp [RequestState.waiterState]

theorem Refines.waiterToken (h : Refines b s) (waiter : Nat) :
    b.waiterToken waiter = s.waiterToken waiter := by
  simp [FaultBroker.waiterToken, Registry.waiterToken, h.requests.id, h.waiters.generation]

theorem Refines.wellFormed (h : Refines b s)
    (hrecorded : Recorded (created log) (admitted log) (claimed log) s) : b.WellFormed log := by
  have htoken : b.requestToken = s.requestToken := funext fun _ => h.requests.token
  have hwaiterToken : b.waiterToken = s.waiterToken := funext h.waiterToken
  constructor
  case request_lt =>
    intro slot hsome
    obtain ⟨record, hrecord⟩ := Option.isSome_iff_exists.mp hsome
    obtain ⟨r, request, -⟩ := h.request_of_record hrecord
    exact h.requests.capacity ▸ h.valid.slot_lt request
  case waiter_lt =>
    intro waiter hsome
    obtain ⟨entry, hentry⟩ := Option.isSome_iff_exists.mp hsome
    obtain ⟨slot, r, request, mem, -⟩ := h.waiter_of_record hentry
    exact h.waiters.lt h.valid request mem
  case created_nodup => exact hrecorded.created_nodup
  case admitted_nodup => exact hrecorded.admitted_nodup
  case pending =>
    refine ⟨s.queue, h.requests.queue, fun slot => ?_, htoken ▸ hrecorded.queue⟩
    rw [h.valid.mem_queue, htoken]
    constructor
    · rintro ⟨r, request, hpending⟩
      obtain ⟨record, hrecord, hbody⟩ := h.requests.record request
      have hstate : record.state = r.state := congrArg state hbody
      have hidden := RequestState.hidden_of_isPending hpending
      exact ⟨record, hrecord, hstate ▸ hidden, (hrecorded.unclaimed request hidden).mp hpending⟩
    · rintro ⟨record, hrecord, hidden, hclaimed⟩
      obtain ⟨r, request, hbody⟩ := h.request_of_record hrecord
      have hstate : record.state = r.state := congrArg state hbody
      rw [hstate] at hidden
      exact ⟨r, request, (hrecorded.unclaimed request hidden).mpr hclaimed⟩
  case waiters =>
    intro slot record hrecord
    obtain ⟨r, request, hbody⟩ := h.request_of_record hrecord
    have hhead : record.waiterHead = r.waiters.head? := congrArg waiterHead hbody
    have htail : record.waiterTail = r.waiters.getLast? := congrArg waiterTail hbody
    have hcount : record.waiterCount = r.waiters.length := congrArg waiterCount hbody
    refine ⟨r.waiters, ?_, fun waiter => ?_, hcount, ?_, hwaiterToken ▸ hrecorded.waiters request⟩
    · unfold FaultBroker.WaiterList
      rw [hhead, htail]
      exact h.waiters.links request
    · rw [htoken]
      constructor
      · intro mem
        obtain ⟨entry, hentry, hrequest, -⟩ := h.waiters.record h.valid request mem
        exact ⟨entry, hentry, hrequest⟩
      · rintro ⟨entry, hentry, hrequest⟩
        obtain ⟨i, q, hq, mem, hi, -⟩ := h.waiter_of_record hentry
        obtain rfl : i = slot := congrArg RequestToken.slot (hi.symm.trans hrequest)
        obtain rfl : q = r := Option.some.inj (hq.symm.trans request)
        exact mem
    · rw [hcount]
      exact List.length_pos_of_ne_nil (h.valid.nonempty request)
  case ready =>
    intro waiter entry hentry
    obtain ⟨slot, r, request, mem, hrequest, hstate⟩ := h.waiter_of_record hentry
    obtain ⟨record, hrecord, hbody⟩ := h.requests.record request
    have hstate' : record.state = r.state := congrArg state hbody
    rw [hrequest, htoken]
    refine ⟨record, hrecord, rfl, fun completion => ?_⟩
    rw [hstate, hstate', RequestState.waiterState_eq_ready]
  case unique =>
    intro i j record record' hi hj hv hv' hhandler hkey
    obtain ⟨r, request, hbody⟩ := h.request_of_record hi
    obtain ⟨r', request', hbody'⟩ := h.request_of_record hj
    have hstate : record.state = r.state := congrArg state hbody
    have hstate' : record'.state = r'.state := congrArg state hbody'
    refine h.valid.unique request request' (hstate ▸ hv) (hstate' ▸ hv') ?_ ?_
    · exact (congrArg handler hbody).symm.trans (hhandler.trans (congrArg handler hbody'))
    · exact (congrArg key hbody).symm.trans (hkey.trans (congrArg key hbody'))

/-! ### Claims -/

/-- The first of a list that satisfies a condition comes before all others that do. -/
theorem sublist_of_find? {α : Type} {l : List α} {p : α → Bool} {x y : α} (h : l.find? p = some x)
    (hy : y ∈ l) (hne : y ≠ x) (hp : p y) : [x, y].Sublist l := by
  obtain ⟨-, xs, ys, rfl, hxs⟩ := List.find?_eq_some_iff_append.mp h
  have hmem : y ∈ ys := by
    rcases List.mem_append.mp hy with hy | hy
    · have := hxs y hy
      simp [hp] at this
    · exact (List.mem_cons.mp hy).resolve_left hne
  exact ((List.singleton_sublist.mpr hmem).cons_cons x).trans (List.sublist_append_right _ _)

theorem Refines.claims [DecidableEq H] {b' : FaultBroker K H C} (h : Refines b s)
    (hrecorded : Recorded (created log) (admitted log) (claimed log) s) (handler : H)
    (h' : Refines b' (s.claimNext handler).2) :
    b.Claims log handler (s.claimNext handler).1 b' := by
  refine ⟨s.queue, h.requests.queue, ?_⟩
  have htoken : b.requestToken = s.requestToken := funext fun _ => h.requests.token
  have hhandler : ∀ {slot record}, (b.requests slot).record = some record →
      record.handler = handler → (s.requests slot).any fun r => r.handler = handler := by
    intro slot record hrecord hr
    obtain ⟨r, request, hbody⟩ := h.request_of_record hrecord
    have : record.handler = r.handler := congrArg RequestBody.handler hbody
    simpa [request, ← this] using hr
  unfold Registry.claimNext at h' ⊢
  cases holdest : s.oldest handler with
  | none =>
    rw [holdest] at h'
    refine ⟨h'.requests.queue, fun slot hslot record hrecord hr => ?_⟩
    exact List.find?_eq_none.mp holdest slot hslot (hhandler hrecord hr)
  | some slot =>
    have mem : slot ∈ s.queue := List.mem_of_find?_eq_some holdest
    obtain ⟨r, request, hpending⟩ := h.valid.mem_queue.mp mem
    obtain ⟨state, hclaimed⟩ := RequestState.claimed_of_isPending hpending
    obtain ⟨-, hstate, -⟩ := RequestState.isPending_of_claimed hclaimed
    have hr : r.handler = handler := by
      have := List.find?_some holdest
      simpa [request] using this
    have hbind : (s.requests slot).bind (·.state.claimed) = some state := by
      rw [request]
      exact hclaimed
    rw [holdest] at h'
    dsimp only at h' ⊢
    rw [hbind] at h' ⊢
    have hsnapshot : (s.setState slot state).snapshot slot = some ⟨s.requestToken slot, r.key,
        r.handler, state.phase, r.waiters.length⟩ := by
      simp [Registry.snapshot, Registry.setState, request, Registry.requestToken]
    have hqueue : (s.setState slot state).queue = s.queue.erase slot := by
      simp [Registry.setState, hstate]
    dsimp only
    rw [hsnapshot, htoken]
    refine ⟨slot, mem, rfl, hr, hqueue ▸ h'.requests.queue, fun i hi hne record hrecord hi' => ?_⟩
    exact ((sublist_of_find? holdest hi hne (hhandler hrecord hi')).map s.requestToken).trans
      hrecorded.queue

/-! ### The broker -/

section

variable [DecidableEq K] [DecidableEq H] [FaultRangeKey K] {requestCapacity waiterCapacity : UInt64}
  {creditPool memory : Bool} {nextBrokerId nextBrokerId' : Nat} {b' : FaultBroker K H C}

/-- A broker that has performed any operations since it was made refines a registry with the same
record. -/
theorem exists_recorded
    (hnew : FaultBroker.tryNew requestCapacity waiterCapacity creditPool memory nextBrokerId
      = .ok (b, nextBrokerId')) (run : b.Run log b') :
    ∃ s, Refines b' s ∧ Recorded (created log) (admitted log) (claimed log) s := by
  obtain ⟨s, run', h⟩ := refines_run run (refines_tryNew hnew)
  exact ⟨s, h, run_recorded run'⟩

theorem broker_wellFormed
    (hnew : FaultBroker.tryNew requestCapacity waiterCapacity creditPool memory nextBrokerId
      = .ok (b, nextBrokerId')) (run : b.Run log b') :
    b'.WellFormed log ∧
    (∀ o, ∃ a b'', b'.perform o = some (a, b'') ∧ a.inconsistent = false) ∧
    ∀ handler, ∃ answer b'', b'.perform (.claimNext handler) = some (.claimed answer, b'') ∧
      b'.Claims log handler answer b'' := by
  obtain ⟨s, h, hrecorded⟩ := exists_recorded hnew run
  refine ⟨h.wellFormed hrecorded, fun o => ?_, fun handler => ?_⟩
  · obtain ⟨b'', hperform, -⟩ := refines_perform h o
    exact ⟨_, b'', hperform, (Registry.perform_step h.valid o).consistent⟩
  · obtain ⟨b'', hperform, h''⟩ := refines_perform h (.claimNext handler)
    exact ⟨_, b'', hperform, h.claims hrecorded handler h''⟩

end

theorem broker_wellFormed_claim :
    ∃ (b : FaultBroker Page Nat Nat) (log : Log Page Nat Nat) (b' : _),
    FaultBroker.tryNew 2 3 true true 1 = .ok (b, 2) ∧ b.Run log b' ∧
    log.map (·.1) = [.admitFault 1 ⟨4096⟩ true, .admitFault 2 ⟨4096⟩ true,
      .admitFault 1 ⟨4096⟩ true, .claimNext 1, .completeWhere (fun _ => true) 0 .visible] ∧
    b'.WellFormed log ∧ ∃ answer b'', b'.perform (.claimNext 2) = some (.claimed answer, b'') ∧
      b'.Claims log 2 answer b'' := by
  obtain ⟨b, hnew⟩ : ∃ b : FaultBroker Page Nat Nat,
    FaultBroker.tryNew 2 3 true true 1 = .ok (b, 2) := ⟨_, rfl⟩
  obtain ⟨log, b', run, hlog⟩ := exists_run (refines_tryNew hnew) [.admitFault 1 ⟨4096⟩ true,
    .admitFault 2 ⟨4096⟩ true, .admitFault 1 ⟨4096⟩ true, .claimNext 1,
    .completeWhere (fun _ => true) 0 .visible]
  obtain ⟨hwf, -, hclaims⟩ := broker_wellFormed hnew run
  exact ⟨b, log, b', hnew, run, hlog, hwf, hclaims 2⟩

end KernelAx.Fault
