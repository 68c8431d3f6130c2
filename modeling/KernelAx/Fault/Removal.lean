import KernelAx.Fault.Refines

/-!
# Fault broker — Removal

A waiter leaves its request: its neighbours are linked to each other, the ends in the request move,
and the request goes with its last waiter. `cancel_waiter` and `take_waiter_completion` follow the
registry.
-/

namespace KernelAx.Fault

open Transaction FaultBroker

variable {K H C ε : Type}

variable {b b' : FaultBroker K H C} {s s' : Registry K H C} {slot : Nat} {r : Request K H C}

/-! ### Waiters that leave -/

theorem relink_returns {neighbour : Option Nat} {f : WaiterRecord C → WaiterRecord C}
    (lt : ∀ {i}, neighbour = some i → i < b.waiterCapacity)
    (present : ∀ {i}, neighbour = some i → (b.waiters i).record.isSome)
    (hf : ∀ record, (f record).toWaiterBody = record.toWaiterBody) :
    Returns (relink neighbour f) b fun _ b' => Rewaited b b' neighbour f := by
  cases neighbour with
  | none => exact .intro rfl Rewaited.refl
  | some n =>
    refine .after (waiterAt_run (lt rfl)) (.after (require_of (present rfl)) (.intro rfl ?_))
    exact rewaited_mapWaiter hf

/-- The neighbours of a waiter are linked to each other; the waiter itself is still there. -/
structure Bypassed (b b' : FaultBroker K H C) (waiter : Nat) : Prop extends SameWaiters b b' where
  prev_eq : ∀ {i}, i ≠ waiter → (b.waiters i).record.isSome →
    b'.waiterPrev i = if b.waiterNext waiter = some i then b.waiterPrev waiter else b.waiterPrev i
  next_eq : ∀ {i}, i ≠ waiter → (b.waiters i).record.isSome →
    b'.waiterNext i = if b.waiterPrev waiter = some i then b.waiterNext waiter else b.waiterNext i

variable {waiter : Nat}

theorem bypass_returns {record : WaiterRecord C} (hrecord : (b.waiters waiter).record = some record)
    (hprev : ∀ {i}, record.prev = some i → i < b.waiterCapacity ∧ (b.waiters i).record.isSome)
    (hnext : ∀ {i}, record.next = some i → i < b.waiterCapacity ∧ (b.waiters i).record.isSome) :
    Returns
      (relink record.prev fun neighbour => { neighbour with next := record.next }) b
      fun _ b₁ => Returns
        (relink record.next fun neighbour => { neighbour with prev := record.prev }) b₁
        fun _ b' => Bypassed b b' waiter := by
  refine (relink_returns (f := fun neighbour => { neighbour with next := record.next })
    (fun hi => (hprev hi).1) (fun hi => (hprev hi).2) fun _ => rfl).mono ?_
  intro _ b₁ h₁
  refine (relink_returns (f := fun neighbour => { neighbour with prev := record.prev })
    (fun hi => h₁.capacity ▸ (hnext hi).1) (fun hi => (h₁.isSome _).trans (hnext hi).2)
    fun _ => rfl).mono ?_
  intro _ b₂ h₂
  have hp : b.waiterPrev waiter = record.prev := by simp [waiterPrev, hrecord]
  have hn : b.waiterNext waiter = record.next := by simp [waiterNext, hrecord]
  refine ⟨h₁.toSameWaiters.trans h₂.toSameWaiters, fun {i} _ hi => ?_, fun {i} _ hi => ?_⟩
  all_goals
    obtain ⟨old, hold⟩ := Option.isSome_iff_exists.mp hi
    rw [hp, hn]
    simp only [waiterPrev, waiterNext, h₂.record, h₁.record, hold]
    split <;> split <;> rfl

theorem Registry.Valid.waiterBody_leave (hs : s.Valid) (request : s.requests slot = some r)
    {i : Nat} (hi : i ≠ waiter) : (s.leave slot waiter r).waiterBody i = s.waiterBody i := by
  have howner : (s.leave slot waiter r).owner i = s.owner i := by simp [Registry.leave, hi]
  unfold Registry.waiterBody
  rw [howner]
  cases hj : s.owner i with
  | none => rfl
  | some j =>
    by_cases hjs : j = slot
    · subst hjs
      obtain ⟨q, hq, hmem⟩ := hs.owner_iff.mp hj
      obtain rfl : q = r := Option.some.inj (hq.symm.trans request)
      have hne : q.waiters.erase waiter ≠ [] :=
        List.ne_nil_of_mem ((List.mem_erase_of_ne hi).mpr hmem)
      simp [Registry.leave, hne, request, Registry.requestToken]
    · simp [Registry.leave, hjs, Registry.requestToken]

/-- The waiters of a registry that one has left. -/
theorem RefinesWaiters.leave {b₁ : FaultBroker K H C} (h : RefinesWaiters b s) (hs : s.Valid)
    (request : s.requests slot = some r) (mem : waiter ∈ r.waiters) (hb : Bypassed b b₁ waiter)
    (capacity : b'.waiterCapacity = b₁.waiterCapacity)
    (waiters : b'.waiters = Function.update b₁.waiters waiter
      ⟨(b₁.waiters waiter).generation, none⟩) : RefinesWaiters b' (s.leave slot waiter r) := by
  have hof_ne : ∀ {i}, i ≠ waiter → b'.waiters i = b₁.waiters i := by
    intro i hi
    simp [waiters, hi]
  have hsome : ∀ {j q i}, s.requests j = some q → i ∈ q.waiters → (b.waiters i).record.isSome := by
    intro j q i hq hi
    obtain ⟨record, hrecord, -⟩ := h.record hs hq hi
    simp [hrecord]
  refine ⟨(capacity.trans hb.capacity).trans h.capacity, fun i => ?_, fun i => ?_,
    fun {j q} hj => ?_⟩
  · show _ = s.waiterGeneration i
    rw [← h.generation i, ← hb.generation i]
    by_cases hi : i = waiter
    · simp [waiters, hi]
    · rw [hof_ne hi]
  · by_cases hi : i = waiter
    · simp [waiterBody, Registry.waiterBody, Registry.leave, waiters, hi]
    · rw [waiterBody, hof_ne hi, hs.waiterBody_leave request hi, ← h.body i]
      exact hb.body i
  · have hprev : ∀ {i}, i ≠ waiter → b'.waiterPrev i = b₁.waiterPrev i := fun hi => by
      rw [waiterPrev, hof_ne hi]
      rfl
    have hnext : ∀ {i}, i ≠ waiter → b'.waiterNext i = b₁.waiterNext i := fun hi => by
      rw [waiterNext, hof_ne hi]
      rfl
    obtain ⟨rfl, rfl⟩ | ⟨hjs, hq⟩ := Registry.of_leave hj
    · refine ((h.links request).erase mem (fun i hi hne => ?_) fun i hi hne => ?_).ends
      · rw [hprev hne, hb.prev_eq hne (hsome request hi)]
      · rw [hnext hne, hb.next_eq hne (hsome request hi)]
    · -- the waiters of another request are no neighbours
      have hother : ∀ {i}, i ∈ q.waiters → i ∉ r.waiters :=
        fun hi hi' => hjs (hs.owner_unique hq hi request hi')
      have hne : ∀ {i}, i ∈ q.waiters → i ≠ waiter := fun hi heq => hother hi (heq ▸ mem)
      refine (h.links hq).congr (fun i hi => ?_) fun i hi => ?_
      · rw [hprev (hne hi), hb.prev_eq (hne hi) (hsome hq hi),
          if_neg fun heq => hother hi ((h.links request).mem_of_next mem heq)]
      · rw [hnext (hne hi), hb.next_eq (hne hi) (hsome hq hi),
          if_neg fun heq => hother hi ((h.links request).mem_of_prev mem heq)]

/-- The record of a request that a waiter leaves. -/
theorem dropWaiter_body (h : RefinesWaiters b s) (request : s.requests slot = some r)
    (mem : waiter ∈ r.waiters) {record : WaiterRecord C}
    (hrecord : (b.waiters waiter).record = some record) {request' : RequestRecord K H C}
    (hbody : request'.toRequestBody = r.body) :
    (dropWaiter waiter record request').toRequestBody
      = Request.body { r with waiters := r.waiters.erase waiter } := by
  have links := h.links request
  have hp : b.waiterPrev waiter = record.prev := by simp [waiterPrev, hrecord]
  have hn : b.waiterNext waiter = record.next := by simp [waiterNext, hrecord]
  have herase := links.erase mem (fun _ _ _ => rfl) fun _ _ _ => rfl
  have hhead := herase.head_eq
  have htail := herase.tail_eq
  simp only [if_congr (links.prev_eq_none_iff mem) rfl rfl,
    if_congr (links.next_eq_none_iff mem) rfl rfl] at hhead htail
  rw [hn] at hhead
  rw [hp] at htail
  show { request'.toRequestBody with
    waiterHead := if request'.toRequestBody.waiterHead = some waiter then record.next
      else request'.toRequestBody.waiterHead
    waiterTail := if request'.toRequestBody.waiterTail = some waiter then record.prev
      else request'.toRequestBody.waiterTail
    waiterCount := request'.toRequestBody.waiterCount - 1 } = _
  rw [hbody]
  simp only [Request.body, List.length_erase_of_mem mem, RequestBody.mk.injEq, true_and, and_true]
  exact ⟨hhead, htail⟩

/-- The request of the last waiter is given up. -/
theorem reclaimRequest_returns (h : RefinesRequests b s) (queued : Queued s)
    (nodup : s.queue.Nodup) (request : s.requests slot = some r) (lt : slot < s.requestCapacity)
    (mem : slot ∈ s.queue ↔ r.state.isPending) :
    Returns (reclaimRequest slot : Op ε _ _) b fun refund b' =>
      refund = true ∧ b'.waiters = b.waiters ∧ b'.waiterCapacity = b.waiterCapacity ∧
        RefinesRequests b' { s with
          requests := Function.update s.requests slot none
          queue := s.queue.erase slot } := by
  obtain ⟨record, hrecord, hbody⟩ := h.record request
  have hstate : record.state = r.state := congrArg RequestBody.state hbody
  refine .after (requestAt_run (h.capacity ▸ lt)) ?_
  have hunlink : Returns (Op.when ((b.requests slot).record.any (·.state.isPending))
      (unlinkPending slot) : Op ε _ _) b fun _ b' =>
        Relinked b b' ∧ RefinesRequests b' { s with queue := s.queue.erase slot } := by
    rw [hrecord, Option.any_some, hstate]
    cases hpending : r.state.isPending with
    | true => exact unlinkPending_returns h queued (mem.mpr hpending)
    | false =>
      have hslot : slot ∉ s.queue := by simp [mem, hpending]
      rw [List.erase_of_not_mem hslot]
      exact .intro rfl ⟨⟨rfl, rfl, rfl, fun _ => rfl, fun _ => rfl, rfl, rfl⟩, h⟩
  refine hunlink.bind ?_
  rintro _ b₁ ⟨hb, h₁⟩
  refine .after rfl (.intro rfl ⟨by rw [hrecord]; rfl, hb.waiters, hb.waiterCapacity, ?_⟩)
  have hof_ne : ∀ {i}, i ≠ slot → (b₁.setRequest slot
      ⟨(b₁.requests slot).generation, none⟩).requests i = b₁.requests i := by
    intro i hi
    simp [setRequest, hi]
  refine ⟨h₁.id, h₁.creditPool, h₁.capacity, fun i => ?_, fun i => ?_, ?_⟩
  · rw [← h₁.generation i]
    by_cases hi : i = slot
    · simp [setRequest, hi]
    · rw [hof_ne hi]
  · by_cases hi : i = slot
    · simp [body, setRequest, hi]
    · rw [body, hof_ne hi]
      simpa [body, hi] using h₁.body i
  · have hslot : ∀ {i}, i ∈ s.queue.erase slot → i ≠ slot := fun hi => (nodup.mem_erase_iff.mp hi).1
    refine h₁.queue.congr (fun i hi => ?_) fun i hi => ?_
    · rw [pendingPrev, hof_ne (hslot hi)]
      rfl
    · rw [pendingNext, hof_ne (hslot hi)]
      rfl

theorem removeWaiter_returns (h : Refines b s) (request : s.requests slot = some r)
    (mem : waiter ∈ r.waiters) :
    Returns (removeWaiter waiter) b fun removal b' =>
      removal = (s.removeWaiter waiter slot r).1 ∧ Refines b' (s.leave slot waiter r) := by
  have hs := h.valid
  obtain ⟨record, hrecord, hrequest, -⟩ := h.waiters.record hs request mem
  obtain ⟨request', hrequest', hbody⟩ := h.requests.record request
  have hcount : request'.waiterCount = r.waiters.length := congrArg RequestBody.waiterCount hbody
  have hlt : slot < b.requestCapacity := h.requests.capacity ▸ hs.slot_lt request
  have hlast : request'.waiterCount - 1 = 0 ↔ r.waiters.erase waiter = [] := by
    rw [hcount, ← List.length_erase_of_mem mem, List.length_eq_zero_iff]
  have links := h.waiters.links request
  have hneighbour : ∀ {i}, i ∈ r.waiters → i < b.waiterCapacity ∧ (b.waiters i).record.isSome := by
    intro i hi
    obtain ⟨_, hi', -⟩ := h.waiters.record hs request hi
    exact ⟨h.waiters.lt hs request hi, by simp [hi']⟩
  have hp : b.waiterPrev waiter = record.prev := by simp [waiterPrev, hrecord]
  have hn : b.waiterNext waiter = record.next := by simp [waiterNext, hrecord]
  -- the request of the waiter is found
  have hslot : Op.mapError (fun _ => WaiterError.inconsistentState)
      (requestSlot record.request) b = .ok slot b := by
    have hfound : s.request? (s.requestToken slot) = some r := by
      simp [Registry.request?, Registry.requestToken, request]
    rw [hrequest, Op.mapError, h.requestSlot_ok hfound]
    rfl
  refine .after (waiterAt_run (h.waiters.lt hs request mem)) ?_
  rw [hrecord]
  refine .after hslot (.after (requestAt_run hlt) ?_)
  rw [hrequest']
  refine .after (require_of ?_) ?_
  · rw [hcount]
    exact Nat.ne_of_gt (List.length_pos_of_mem mem)
  refine (bypass_returns hrecord (fun hi => hneighbour (links.mem_of_prev mem (hp.trans hi)))
    fun hi => hneighbour (links.mem_of_next mem (hn.trans hi))).bind ?_
  intro _ b₁ h₁
  refine h₁.bind ?_
  intro _ b₂ hb
  have hrequests₂ := h.requests.congr hb.id hb.creditPool hb.requestCapacity hb.requests hb.head
    hb.tail
  refine .after (requestAt_run (hb.requestCapacity ▸ hlt)) ?_
  rw [hb.requests, hrequest']
  refine .after rfl (.after rfl ?_)
  have hrequests₃ := hrequests₂.mapRequest request
    (dropWaiter_body h.waiters request mem hrecord) (fun _ => rfl) fun _ => rfl
  have hrequests₄ : RefinesRequests ((b₂.mapRequest slot (dropWaiter waiter
      record)).setWaiter waiter ⟨(b₂.waiters waiter).generation, none⟩) _ :=
    hrequests₃.congr rfl rfl rfl rfl rfl rfl
  have hleave : ∀ {b'}, b'.waiters = Function.update b₂.waiters waiter
      ⟨(b₂.waiters waiter).generation, none⟩ → b'.waiterCapacity = b₂.waiterCapacity →
      RefinesWaiters b' (s.leave slot waiter r) :=
    fun hwaiters hcapacity => h.waiters.leave hs request mem hb hcapacity hwaiters
  by_cases hlast' : r.waiters.erase waiter = []
  · rw [if_pos (hlast.mpr hlast')]
    refine (reclaimRequest_returns hrequests₄ (hs.queued.update _) hs.queue_nodup (by simp; rfl)
      (hs.slot_lt request) (by simp [hs.mem_queue, request])).bind ?_
    rintro _ b₅ ⟨rfl, hwaiters, hcapacity, hrequests₅⟩
    refine .intro rfl ⟨by simp [Registry.removeWaiter, hlast'], ?_, hleave hwaiters hcapacity,
      hs.leave request mem, h.bounded⟩
    exact { hrequests₅ with
      body := by simpa [Registry.leave, hlast'] using hrequests₅.body
      queue := by simpa [Registry.leave, hlast'] using hrequests₅.queue }
  · rw [if_neg (hlast.not.mpr hlast')]
    refine .intro rfl ⟨by simp [Registry.removeWaiter, hlast'], ?_, hleave rfl rfl,
      hs.leave request mem, h.bounded⟩
    unfold Registry.leave
    rw [if_neg hlast', if_neg hlast']
    exact { hrequests₄ with }

theorem cancelWaiter_follows (h : Refines b s) (token : WaiterToken) :
    Follows (cancelWaiter token) b (s.cancelWaiter token) := by
  unfold Registry.cancelWaiter
  cases hwaiter : s.waiter? token with
  | none => exact .error (bind_of_error (h.waiterSlot_error hwaiter)) h
  | some found =>
    obtain ⟨slot, r⟩ := found
    obtain ⟨-, request, mem⟩ := Registry.waiter?_eq_some h.valid hwaiter
    obtain ⟨record, hrecord, -, hstate⟩ := h.waiters.record h.valid request mem
    refine .after (h.waiterSlot_ok hwaiter)
      (.after (waiterAt_run (h.waiters.lt h.valid request mem)) ?_)
    rw [hrecord]
    dsimp only
    rw [hstate]
    obtain ⟨_, b', hremove, rfl, h'⟩ := (removeWaiter_returns h request mem).exists
    refine .after hremove ?_
    cases r.state.waiterState with
    | active | ready completion => exact .ok (.intro rfl ⟨rfl, h'⟩)

theorem takeWaiterCompletion_follows (h : Refines b s) (token : WaiterToken) :
    Follows (takeWaiterCompletion token) b (s.takeWaiterCompletion token) := by
  unfold Registry.takeWaiterCompletion
  cases hwaiter : s.waiter? token with
  | none => exact .error (bind_of_error (h.waiterSlot_error hwaiter)) h
  | some found =>
    obtain ⟨slot, r⟩ := found
    obtain ⟨-, request, mem⟩ := Registry.waiter?_eq_some h.valid hwaiter
    obtain ⟨record, hrecord, -, hstate⟩ := h.waiters.record h.valid request mem
    refine .after (h.waiterSlot_ok hwaiter)
      (.after (waiterAt_run (h.waiters.lt h.valid request mem)) ?_)
    rw [hrecord]
    dsimp only
    rw [hstate]
    cases r.state.waiterState with
    | active => exact .error rfl h
    | ready completion =>
      obtain ⟨_, b', hremove, rfl, h'⟩ := (removeWaiter_returns h request mem).exists
      exact .after hremove (.ok (.intro rfl ⟨rfl, h'⟩))

end KernelAx.Fault
