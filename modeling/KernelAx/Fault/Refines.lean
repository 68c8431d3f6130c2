import KernelAx.Links
import KernelAx.Fault.Steps

/-!
# Fault broker — Refinement

The relation between the broker with its links and the registry, and what it says about the
functions that look something up or take a request out of the queue.

The relation has two halves, one for each array of slots. An operation that writes the records of a
request and those of its waiters one after the other is between the two in no state that refines a
registry; each half is followed by itself.
-/

namespace KernelAx.Fault

open Transaction

variable {K H C ε : Type}

namespace FaultBroker

/-- A request without its links. -/
def body (b : FaultBroker K H C) (slot : Nat) : Option (RequestBody K H C) :=
  (b.requests slot).record.map (·.toRequestBody)

def pendingPrev (b : FaultBroker K H C) (slot : Nat) : Option Nat :=
  (b.requests slot).record.bind (·.pendingPrev)

def pendingNext (b : FaultBroker K H C) (slot : Nat) : Option Nat :=
  (b.requests slot).record.bind (·.pendingNext)

/-- A waiter without its links. -/
def waiterBody (b : FaultBroker K H C) (waiter : Nat) : Option (WaiterBody C) :=
  (b.waiters waiter).record.map (·.toWaiterBody)

def waiterPrev (b : FaultBroker K H C) (waiter : Nat) : Option Nat :=
  (b.waiters waiter).record.bind (·.prev)

def waiterNext (b : FaultBroker K H C) (waiter : Nat) : Option Nat :=
  (b.waiters waiter).record.bind (·.next)

/-- A link that a write to a record leaves alone. -/
theorem bind_map_of_eq {α β : Type} {o : Option α} {f : α → α} {g : α → Option β}
    (hf : ∀ a, g (f a) = g a) : (o.map f).bind g = o.bind g := by
  cases o with
  | none => rfl
  | some a => exact hf a

section mapRequest

variable {b : FaultBroker K H C} {slot i : Nat} {f : RequestRecord K H C → RequestRecord K H C}

/-- A write to the record of one request. -/
theorem record_mapRequest : ((b.mapRequest slot f).requests i).record =
    if i = slot then (b.requests i).record.map f else (b.requests i).record := by
  unfold mapRequest
  split_ifs with h
  · simp [h]
  · simp [h]

theorem generation_mapRequest :
    ((b.mapRequest slot f).requests i).generation = (b.requests i).generation := by
  unfold mapRequest
  by_cases h : i = slot <;> simp [h]

/-- A write that leaves the links alone. -/
theorem pendingPrev_mapRequest (hf : ∀ record, (f record).pendingPrev = record.pendingPrev) :
    (b.mapRequest slot f).pendingPrev i = b.pendingPrev i := by
  unfold pendingPrev
  rw [record_mapRequest]
  split_ifs
  · exact bind_map_of_eq hf
  · rfl

theorem pendingNext_mapRequest (hf : ∀ record, (f record).pendingNext = record.pendingNext) :
    (b.mapRequest slot f).pendingNext i = b.pendingNext i := by
  unfold pendingNext
  rw [record_mapRequest]
  split_ifs
  · exact bind_map_of_eq hf
  · rfl

end mapRequest

end FaultBroker

open FaultBroker

/-- The record of a request. -/
def Request.body (r : Request K H C) : RequestBody K H C :=
  ⟨r.key, r.handler, r.state, r.waiters.head?, r.waiters.getLast?, r.waiters.length⟩

/-- The record of a waiter. -/
def Registry.waiterBody (s : Registry K H C) (waiter : Nat) : Option (WaiterBody C) :=
  (s.owner waiter).bind fun slot => (s.requests slot).map fun r =>
    ⟨s.requestToken slot, r.state.waiterState⟩

/-- The array of requests, and the links through it. -/
structure RefinesRequests (b : FaultBroker K H C) (s : Registry K H C) : Prop where
  id : b.id = s.id
  creditPool : b.creditPool = s.creditPool
  capacity : b.requestCapacity = s.requestCapacity
  generation : ∀ slot, (b.requests slot).generation = s.requestGeneration slot
  body : ∀ slot, b.body slot = (s.requests slot).map Request.body
  queue : Linked b.pendingPrev b.pendingNext b.pendingHead b.pendingTail s.queue

/-- The array of waiters, and the links through it. -/
structure RefinesWaiters (b : FaultBroker K H C) (s : Registry K H C) : Prop where
  capacity : b.waiterCapacity = s.waiterCapacity
  generation : ∀ waiter, (b.waiters waiter).generation = s.waiterGeneration waiter
  body : ∀ waiter, b.waiterBody waiter = s.waiterBody waiter
  links : ∀ {slot r}, s.requests slot = some r →
    Linked b.waiterPrev b.waiterNext r.waiters.head? r.waiters.getLast? r.waiters

/-- The broker stands for the registry. -/
structure Refines (b : FaultBroker K H C) (s : Registry K H C) : Prop where
  requests : RefinesRequests b s
  waiters : RefinesWaiters b s
  valid : s.Valid
  bounded : s.waiterCapacity ≤ usizeMax

variable {b b' : FaultBroker K H C} {s s' : Registry K H C} {slot : Nat} {r : Request K H C}

/-! ### Looking up -/

namespace RefinesRequests

variable (h : RefinesRequests b s)
include h

theorem record (request : s.requests slot = some r) :
    ∃ record, (b.requests slot).record = some record ∧ record.toRequestBody = r.body := by
  have hbody := h.body slot
  rw [request] at hbody
  exact Option.map_eq_some_iff.mp hbody

theorem record_none (request : s.requests slot = none) :
    (b.requests slot).record = none := by
  have hbody := h.body slot
  rw [request] at hbody
  exact Option.map_eq_none_iff.mp hbody

/-- A question about a record that does not concern its links. -/
theorem map {α : Type} (f : RequestBody K H C → α) :
    (b.requests slot).record.map (fun record => f record.toRequestBody)
      = (s.requests slot).map fun r => f r.body := by
  have hbody := congrArg (Option.map f) (h.body slot)
  simpa only [FaultBroker.body, Option.map_map, Function.comp_def] using hbody

theorem token :
    b.requestToken slot = s.requestToken slot := by
  simp [FaultBroker.requestToken, Registry.requestToken, h.id, h.generation]

end RefinesRequests

theorem requestAt_run (h : slot < b.requestCapacity) :
    requestAt slot b = (.ok (b.requests slot).record b : Outcome ε _ _) :=
  if_pos h

variable {waiter : Nat} {token : RequestToken}

theorem waiterAt_run (h : waiter < b.waiterCapacity) :
    waiterAt waiter b = (.ok (b.waiters waiter).record b : Outcome ε _ _) :=
  if_pos h

/-! ### Links of the queue -/

/-- Only links of the queue have changed. -/
structure Relinked (b b' : FaultBroker K H C) : Prop where
  id : b'.id = b.id
  creditPool : b'.creditPool = b.creditPool
  capacity : b'.requestCapacity = b.requestCapacity
  generation : ∀ slot, (b'.requests slot).generation = (b.requests slot).generation
  body : ∀ slot, b'.body slot = b.body slot
  waiterCapacity : b'.waiterCapacity = b.waiterCapacity
  waiters : b'.waiters = b.waiters

theorem Relinked.trans {b'' : FaultBroker K H C} (h : Relinked b b') (h' : Relinked b' b'') :
    Relinked b b'' where
  id := h'.id.trans h.id
  creditPool := h'.creditPool.trans h.creditPool
  capacity := h'.capacity.trans h.capacity
  generation slot := (h'.generation slot).trans (h.generation slot)
  body slot := (h'.body slot).trans (h.body slot)
  waiterCapacity := h'.waiterCapacity.trans h.waiterCapacity
  waiters := h'.waiters.trans h.waiters

theorem Relinked.isSome (h : Relinked b b') (slot : Nat) :
    (b'.requests slot).record.isSome = (b.requests slot).record.isSome := by
  have hbody := congrArg Option.isSome (h.body slot)
  simpa only [FaultBroker.body, Option.isSome_map] using hbody

theorem relinked_mapRequest {f : RequestRecord K H C → RequestRecord K H C}
    (hf : ∀ record, (f record).toRequestBody = record.toRequestBody) :
    Relinked b (b.mapRequest slot f) where
  id := rfl
  creditPool := rfl
  capacity := rfl
  generation _ := generation_mapRequest
  body i := by
    unfold body
    rw [record_mapRequest]
    split_ifs <;> simp [Function.comp_def, hf]
  waiterCapacity := rfl
  waiters := rfl

/-- What `linkNext` does: the slot before, or the head, points to `next`. -/
structure NextLinked (b b' : FaultBroker K H C) (previous next : Option Nat) : Prop
    extends Relinked b b' where
  prev_eq : b'.pendingPrev = b.pendingPrev
  tail_eq : b'.pendingTail = b.pendingTail
  next_eq : ∀ {i}, (b.requests i).record.isSome →
    b'.pendingNext i = if previous = some i then next else b.pendingNext i
  head_eq : b'.pendingHead = if previous = none then next else b.pendingHead

theorem linkNext_returns {previous next : Option Nat}
    (lt : ∀ {i}, previous = some i → i < b.requestCapacity) :
    Returns (linkNext previous next : Op ε _ _) b
      fun _ b' => NextLinked b b' previous next := by
  cases previous with
  | none => exact ⟨⟨rfl, rfl, rfl, fun _ => rfl, fun _ => rfl, rfl, rfl⟩, rfl, rfl, fun _ => rfl,
      rfl⟩
  | some previous =>
    refine .intro (bind_of_ok (requestAt_run (lt rfl))) ?_
    refine ⟨relinked_mapRequest fun _ => rfl,
      funext fun _ => pendingPrev_mapRequest fun _ => rfl, rfl, fun {i} hi => ?_, rfl⟩
    obtain ⟨record, hrecord⟩ := Option.isSome_iff_exists.mp hi
    by_cases h : i = previous
    · simp [pendingNext, record_mapRequest, hrecord, ← h]
    · simp [pendingNext, record_mapRequest, h, Ne.symm h]

/-- What `linkPrev` does: the slot behind, or the tail, points back to `previous`. -/
structure PrevLinked (b b' : FaultBroker K H C) (next previous : Option Nat) : Prop
    extends Relinked b b' where
  next_eq : b'.pendingNext = b.pendingNext
  head_eq : b'.pendingHead = b.pendingHead
  prev_eq : ∀ {i}, (b.requests i).record.isSome →
    b'.pendingPrev i = if next = some i then previous else b.pendingPrev i
  tail_eq : b'.pendingTail = if next = none then previous else b.pendingTail

theorem linkPrev_returns {next previous : Option Nat}
    (lt : ∀ {i}, next = some i → i < b.requestCapacity) :
    Returns (linkPrev next previous : Op ε _ _) b
      fun _ b' => PrevLinked b b' next previous := by
  cases next with
  | none => exact ⟨⟨rfl, rfl, rfl, fun _ => rfl, fun _ => rfl, rfl, rfl⟩, rfl, rfl, fun _ => rfl,
      rfl⟩
  | some next =>
    refine .intro (bind_of_ok (requestAt_run (lt rfl))) ?_
    refine ⟨relinked_mapRequest fun _ => rfl,
      funext fun _ => pendingNext_mapRequest fun _ => rfl, rfl, fun {i} hi => ?_, rfl⟩
    obtain ⟨record, hrecord⟩ := Option.isSome_iff_exists.mp hi
    by_cases h : i = next
    · simp [pendingPrev, record_mapRequest, hrecord, ← h]
    · simp [pendingPrev, record_mapRequest, h, Ne.symm h]

/-- The queue holds slots that hold requests. -/
def Queued (s : Registry K H C) : Prop :=
  ∀ i ∈ s.queue, i < s.requestCapacity ∧ ∃ r, s.requests i = some r

theorem Registry.Valid.queued (hs : s.Valid) : Queued s := by
  intro i hi
  obtain ⟨r, request, -⟩ := hs.mem_queue.mp hi
  exact ⟨hs.slot_lt request, r, request⟩

theorem Queued.update (h : Queued s) (r : Request K H C) :
    Queued { s with requests := Function.update s.requests slot (some r) } := by
  intro i hi
  obtain ⟨hi', q, hq⟩ := h i hi
  refine ⟨hi', ?_⟩
  by_cases heq : i = slot
  · simp [heq]
  · exact ⟨q, by simpa [heq] using hq⟩

theorem RefinesRequests.relinked (h : RefinesRequests b s) (hb : Relinked b b') {queue : List Nat}
    (links : Linked b'.pendingPrev b'.pendingNext b'.pendingHead b'.pendingTail queue) :
    RefinesRequests b' { s with queue := queue } where
  id := hb.id.trans h.id
  creditPool := hb.creditPool.trans h.creditPool
  capacity := hb.capacity.trans h.capacity
  generation i := (hb.generation i).trans (h.generation i)
  body i := (hb.body i).trans (h.body i)
  queue := links

theorem unlinkPending_returns (h : RefinesRequests b s) (queued : Queued s) (mem : slot ∈ s.queue) :
    Returns (unlinkPending slot : Op ε _ _) b fun _ b' =>
      Relinked b b' ∧ RefinesRequests b' { s with queue := s.queue.erase slot } := by
  have hsome : ∀ {i}, i ∈ s.queue → (b.requests i).record.isSome := by
    intro i hi
    obtain ⟨-, r, request⟩ := queued i hi
    obtain ⟨record, hrecord, -⟩ := h.record request
    simp [hrecord]
  have hlt : ∀ {i}, i ∈ s.queue → i < b.requestCapacity := fun hi => h.capacity ▸ (queued _ hi).1
  obtain ⟨record, hrecord⟩ := Option.isSome_iff_exists.mp (hsome mem)
  have hprev : b.pendingPrev slot = record.pendingPrev := by simp [pendingPrev, hrecord]
  have hnext : b.pendingNext slot = record.pendingNext := by simp [pendingNext, hrecord]
  refine .after (requestAt_run (hlt mem)) ?_
  rw [hrecord]
  refine (linkNext_returns fun hi => hlt (h.queue.mem_of_prev mem (hprev.trans hi))).bind ?_
  intro _ b₁ h₁
  have hlt₁ : ∀ {i}, record.pendingNext = some i → i < b₁.requestCapacity :=
    fun hi => h₁.capacity ▸ hlt (h.queue.mem_of_next mem (hnext.trans hi))
  refine (linkPrev_returns hlt₁).bind ?_
  intro _ b₂ h₂
  refine .intro rfl ?_
  generalize hb₃ : b₂.mapRequest slot _ = b₃
  have hb : Relinked b b₃ := by
    rw [← hb₃]
    exact (h₁.toRelinked.trans h₂.toRelinked).trans (relinked_mapRequest fun _ => rfl)
  refine ⟨hb, h.relinked hb ?_⟩
  -- away from the slot, its neighbours are linked to each other
  have hprev_of : ∀ i ∈ s.queue, i ≠ slot →
      b₃.pendingPrev i = if b.pendingNext slot = some i then b.pendingPrev slot
        else b.pendingPrev i := by
    intro i hi hne
    have hi₁ : (b₁.requests i).record.isSome := (h₁.isSome i).trans (hsome hi)
    have hsame : b₃.pendingPrev i = b₂.pendingPrev i := by
      simp [← hb₃, pendingPrev, record_mapRequest, hne]
    rw [hsame, h₂.prev_eq hi₁, h₁.prev_eq, hprev, hnext]
  have hnext_of : ∀ i ∈ s.queue, i ≠ slot →
      b₃.pendingNext i = if b.pendingPrev slot = some i then b.pendingNext slot
        else b.pendingNext i := by
    intro i hi hne
    have hsame : b₃.pendingNext i = b₂.pendingNext i := by
      simp [← hb₃, pendingNext, record_mapRequest, hne]
    rw [hsame, h₂.next_eq, h₁.next_eq (hsome hi), hprev, hnext]
  have hhead : b₃.pendingHead = if b.pendingPrev slot = none then b.pendingNext slot
      else b.pendingHead := by
    rw [← hb₃, hprev, hnext]
    exact h₂.head_eq.trans h₁.head_eq
  have htail : b₃.pendingTail = if b.pendingNext slot = none then b.pendingPrev slot
      else b.pendingTail := by
    rw [← hb₃, hprev, hnext, ← h₁.tail_eq]
    exact h₂.tail_eq
  rw [hhead, htail]
  exact h.queue.erase mem hprev_of hnext_of

/-! ### Records of requests -/

/-- A change of a record that keeps its links. -/
theorem RefinesRequests.mapRequest (h : RefinesRequests b s) (request : s.requests slot = some r)
    {f : RequestRecord K H C → RequestRecord K H C} {r' : Request K H C}
    (body : ∀ {record}, record.toRequestBody = r.body → (f record).toRequestBody = r'.body)
    (prev : ∀ record, (f record).pendingPrev = record.pendingPrev)
    (next : ∀ record, (f record).pendingNext = record.pendingNext) :
    RefinesRequests (b.mapRequest slot f)
      { s with requests := Function.update s.requests slot (some r') } := by
  obtain ⟨record, hrecord, hbody⟩ := h.record request
  refine ⟨h.id, h.creditPool, h.capacity, fun i => generation_mapRequest.trans (h.generation i),
    fun i => ?_, h.queue.congr (fun _ _ => pendingPrev_mapRequest prev)
      fun _ _ => pendingNext_mapRequest next⟩
  by_cases hi : i = slot
  · subst hi
    simp [FaultBroker.body, record_mapRequest, hrecord, body hbody]
  · simpa [FaultBroker.body, record_mapRequest, hi] using h.body i

/-- The requests do not see what happens to the waiters. -/
theorem RefinesRequests.congr (h : RefinesRequests b s) (id : b'.id = b.id)
    (creditPool : b'.creditPool = b.creditPool)
    (capacity : b'.requestCapacity = b.requestCapacity) (requests : b'.requests = b.requests)
    (head : b'.pendingHead = b.pendingHead) (tail : b'.pendingTail = b.pendingTail) :
    RefinesRequests b' s := by
  have hprev : b'.pendingPrev = b.pendingPrev := by
    funext i
    simp [pendingPrev, requests]
  have hnext : b'.pendingNext = b.pendingNext := by
    funext i
    simp [pendingNext, requests]
  refine ⟨id.trans h.id, creditPool.trans h.creditPool, capacity.trans h.capacity, fun i => ?_,
    fun i => ?_, ?_⟩
  · rw [requests, h.generation]
  · rw [← h.body i, FaultBroker.body, FaultBroker.body, requests]
  · rw [hprev, hnext, head, tail]
    exact h.queue

/-! ### Waiters -/

/-- A waiter's record, from the request it waits for. -/
theorem Registry.Valid.waiterBody_of_mem (hs : s.Valid) (request : s.requests slot = some r)
    (mem : waiter ∈ r.waiters) :
    s.waiterBody waiter = some ⟨s.requestToken slot, r.state.waiterState⟩ := by
  simp [Registry.waiterBody, hs.owner_iff.mpr ⟨r, request, mem⟩, request]

theorem RefinesWaiters.record (h : RefinesWaiters b s) (hs : s.Valid)
    (request : s.requests slot = some r) (mem : waiter ∈ r.waiters) :
    ∃ record, (b.waiters waiter).record = some record ∧
      record.request = s.requestToken slot ∧ record.state = r.state.waiterState := by
  have hbody := h.body waiter
  rw [hs.waiterBody_of_mem request mem] at hbody
  obtain ⟨record, hrecord, heq⟩ := Option.map_eq_some_iff.mp hbody
  exact ⟨record, hrecord, congrArg WaiterBody.request heq, congrArg WaiterBody.state heq⟩

theorem RefinesWaiters.lt (h : RefinesWaiters b s) (hs : s.Valid)
    (request : s.requests slot = some r) (mem : waiter ∈ r.waiters) : waiter < b.waiterCapacity :=
  h.capacity ▸ hs.waiter_lt (hs.owner_iff.mpr ⟨r, request, mem⟩)

/-- Only links between waiters have changed. -/
structure SameWaiters (b b' : FaultBroker K H C) : Prop where
  id : b'.id = b.id
  creditPool : b'.creditPool = b.creditPool
  requestCapacity : b'.requestCapacity = b.requestCapacity
  requests : b'.requests = b.requests
  head : b'.pendingHead = b.pendingHead
  tail : b'.pendingTail = b.pendingTail
  capacity : b'.waiterCapacity = b.waiterCapacity
  generation : ∀ i, (b'.waiters i).generation = (b.waiters i).generation
  body : ∀ i, b'.waiterBody i = b.waiterBody i

theorem SameWaiters.trans {b'' : FaultBroker K H C} (h : SameWaiters b b')
    (h' : SameWaiters b' b'') : SameWaiters b b'' where
  id := h'.id.trans h.id
  creditPool := h'.creditPool.trans h.creditPool
  requestCapacity := h'.requestCapacity.trans h.requestCapacity
  requests := h'.requests.trans h.requests
  head := h'.head.trans h.head
  tail := h'.tail.trans h.tail
  capacity := h'.capacity.trans h.capacity
  generation i := (h'.generation i).trans (h.generation i)
  body i := (h'.body i).trans (h.body i)

theorem SameWaiters.isSome (h : SameWaiters b b') (i : Nat) :
    (b'.waiters i).record.isSome = (b.waiters i).record.isSome := by
  have hbody := congrArg Option.isSome (h.body i)
  simpa only [waiterBody, Option.isSome_map] using hbody

/-- The links of one waiter, if there is one, have changed by `f`. -/
structure Rewaited (b b' : FaultBroker K H C) (waiter : Option Nat)
    (f : WaiterRecord C → WaiterRecord C) : Prop extends SameWaiters b b' where
  record : ∀ i, (b'.waiters i).record
    = if waiter = some i then (b.waiters i).record.map f else (b.waiters i).record

theorem Rewaited.refl {f : WaiterRecord C → WaiterRecord C} : Rewaited b b none f :=
  ⟨⟨rfl, rfl, rfl, rfl, rfl, rfl, rfl, fun _ => rfl, fun _ => rfl⟩, fun _ => rfl⟩

theorem rewaited_mapWaiter {f : WaiterRecord C → WaiterRecord C}
    (hf : ∀ record, (f record).toWaiterBody = record.toWaiterBody) :
    Rewaited b (b.mapWaiter waiter f) (some waiter) f := by
  refine ⟨⟨rfl, rfl, rfl, rfl, rfl, rfl, rfl, fun i => ?_, fun i => ?_⟩, fun i => ?_⟩
  all_goals by_cases hi : i = waiter
  · simp [mapWaiter, hi]
  · simp [mapWaiter, hi]
  · simp [waiterBody, mapWaiter, Function.comp_def, hf, hi]
  · simp [waiterBody, mapWaiter, hi]
  · simp [mapWaiter, hi]
  · simp [mapWaiter, hi, Ne.symm hi]

/-! ### Tokens and snapshots -/

namespace Refines

variable (h : Refines b s)
include h

theorem request? : b.request? slot = (b.requests slot).record := by
  unfold FaultBroker.request?
  split
  · rfl
  · next hlt =>
      cases request : s.requests slot with
      | none => exact (h.requests.record_none request).symm
      | some r => exact absurd (h.requests.capacity ▸ h.valid.slot_lt request) hlt

theorem snapshot : b.snapshotSlot slot = s.snapshot slot := by
  unfold snapshotSlot Registry.snapshot
  rw [h.request?, h.requests.token]
  exact h.requests.map fun body => (⟨s.requestToken slot, body.key, body.handler, body.state.phase,
    body.waiterCount⟩ : RequestSnapshot K H)

theorem read_snapshot :
    (Op.read (snapshotSlot · slot) : Op ε _ _) b = .ok (s.snapshot slot) b :=
  congrArg (Outcome.ok · b) h.snapshot

/-- A token that names no request of the broker, or the slot of the one it names. -/
theorem requestIndex (token : RequestToken) :
    b.requestIndex token = match s.request? token with
      | none => .error .staleOrForeign
      | some _ => .ok token.slot := by
  unfold FaultBroker.requestIndex Registry.request?
  by_cases htoken : token = s.requestToken token.slot
  · have hbroker : token.broker = b.id :=
      (congrArg RequestToken.broker htoken).trans h.requests.id.symm
    have hgeneration : (b.requests token.slot).generation = token.generation :=
      (h.requests.generation _).trans (congrArg RequestToken.generation htoken).symm
    rw [if_neg (not_not.mpr hbroker), if_pos htoken]
    cases request : s.requests token.slot with
    | none => simp [h.requests.record_none request]
    | some r =>
      obtain ⟨record, hrecord, -⟩ := h.requests.record request
      have hlt : token.slot < b.requestCapacity := h.requests.capacity ▸ h.valid.slot_lt request
      simp [hlt, hgeneration, hrecord]
  · rw [if_neg htoken]
    by_cases hbroker : token.broker = b.id
    · have hgeneration : (b.requests token.slot).generation ≠ token.generation := by
        intro hgeneration
        apply htoken
        rw [← h.requests.token, FaultBroker.requestToken, ← hbroker, hgeneration]
      simp [hbroker, hgeneration]
    · simp [hbroker]

theorem requestSlot_ok (request : s.request? token = some r) :
    requestSlot token b = .ok token.slot b := by
  rw [requestSlot, h.requestIndex, request]
  rfl

theorem requestSlot_error (request : s.request? token = none) :
    requestSlot token b = .error .staleOrForeign b := by
  rw [requestSlot, h.requestIndex, request]
  rfl

end Refines

theorem Registry.requests_of_request? (h : s.request? token = some r) :
    s.requests token.slot = some r := by
  unfold Registry.request? at h
  split at h
  · exact h
  · cases h

theorem Refines.waiter_isNone (h : Refines b s) (waiter : Nat) :
    (b.waiters waiter).record.isNone = (s.owner waiter).isNone := by
  have hbody := congrArg Option.isNone (h.waiters.body waiter)
  rw [waiterBody, Option.isNone_map] at hbody
  rw [hbody]
  unfold Registry.waiterBody
  cases howner : s.owner waiter with
  | none => rfl
  | some i =>
    obtain ⟨q, hq, -⟩ := h.valid.owner_iff.mp howner
    simp [hq]

/-- A waiter token that names no waiter of the broker, or the slot of the one it names. -/
theorem Refines.waiterIndex (h : Refines b s) (token : WaiterToken) :
    b.waiterIndex token = match s.waiter? token with
      | none => .error .staleOrForeign
      | some _ => .ok token.slot := by
  have hisNone := h.waiter_isNone token.slot
  unfold FaultBroker.waiterIndex Registry.waiter? Registry.owner?
  by_cases htoken : token = s.waiterToken token.slot
  · have hbroker : token.broker = b.id :=
      (congrArg WaiterToken.broker htoken).trans h.requests.id.symm
    have hgeneration : (b.waiters token.slot).generation = token.generation :=
      (h.waiters.generation _).trans (congrArg WaiterToken.generation htoken).symm
    rw [if_neg (not_not.mpr hbroker), if_pos htoken, hisNone]
    cases howner : s.owner token.slot with
    | none => simp
    | some i =>
      obtain ⟨q, hq, -⟩ := h.valid.owner_iff.mp howner
      have hlt : token.slot < b.waiterCapacity := h.waiters.capacity ▸ h.valid.waiter_lt howner
      simp [hlt, hgeneration, hq]
  · rw [if_neg htoken]
    by_cases hbroker : token.broker = b.id
    · have hgeneration : (b.waiters token.slot).generation ≠ token.generation := by
        intro hgeneration
        apply htoken
        rw [Registry.waiterToken, ← h.requests.id, ← h.waiters.generation, ← hbroker, hgeneration]
      simp [hbroker, hgeneration]
    · simp [hbroker]

theorem Refines.waiterSlot_ok (h : Refines b s) {token : WaiterToken} {found : Nat × Request K H C}
    (waiter : s.waiter? token = some found) : waiterSlot token b = .ok token.slot b := by
  rw [waiterSlot, h.waiterIndex, waiter]
  rfl

theorem Refines.waiterSlot_error (h : Refines b s) {token : WaiterToken}
    (waiter : s.waiter? token = none) : waiterSlot token b = .error .staleOrForeign b := by
  rw [waiterSlot, h.waiterIndex, waiter]
  rfl

/-! ### Answers -/

/-- The broker gives the answer of the registry and refines it afterwards. -/
def Follows {α : Type} (m : Op ε (FaultBroker K H C) α) (b : FaultBroker K H C)
    (result : Except ε α × Registry K H C) : Prop :=
  ∃ b', Refines b' result.2 ∧ m b = match result.1 with
    | .ok a => .ok a b'
    | .error e => .error e b'

section Follows

variable {α β : Type} {m : Op ε (FaultBroker K H C) α} {f : α → Op ε (FaultBroker K H C) β}

theorem Follows.ok {a : α} (h : Returns m b fun a' b' => a' = a ∧ Refines b' s') :
    Follows m b (.ok a, s') := by
  obtain ⟨_, b', hm, rfl, h'⟩ := h.exists
  exact ⟨b', h', hm⟩

theorem Follows.error {e : ε} (hm : m b = .error e b') (h : Refines b' s') :
    Follows m b (.error e, s') :=
  ⟨b', h, hm⟩

theorem Follows.after {a : α} {result : Except ε β × Registry K H C} (hm : m b = .ok a b')
    (h : Follows (f a) b' result) : Follows (m >>= f) b result := by
  obtain ⟨b'', h', hf⟩ := h
  exact ⟨b'', h', (bind_of_ok hm).trans hf⟩

end Follows

end KernelAx.Fault
