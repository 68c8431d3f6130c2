import Mathlib.Algebra.Group.Nat.Defs
import Mathlib.Logic.Function.Basic
import KernelAx.Transaction

/-!
# Fault broker — Model

The fault broker as it is in the source: two arrays of slots with generations, one for requests and
one for waiters, and two families of links through them. The pending requests are one list; the
waiters of a request are a list with its ends in the request.

An operation fails where the source returns an error, with what was written before it, and panics
where the source does: an index out of range or an `expect`. A walk along links that visits more
slots than there are would go on for ever; it panics here.

The credit pool is not part of the broker. `admit` is given the answer of the pool, and the
operations that reclaim a request return that a credit is to be given back.
-/

namespace KernelAx.Fault

open Transaction Op

def u64Max : Nat := 2 ^ 64 - 1

def usizeMax : Nat := 2 ^ 64 - 1

/-! ### Errors -/

inductive BrokerConfigError
  | unboundedCapacity
  | noMemory
  | brokerIdentityExhausted
  deriving DecidableEq, Repr

inductive AdmissionError
  | requestCapacity
  | requestCreditCapacity
  | requestTokenExhausted
  | waiterCapacity
  | waiterTokenExhausted
  | inconsistentState
  deriving DecidableEq, Repr

inductive RequestError
  | staleOrForeign
  | alreadyTerminal
  | notDelivered
  | notTerminal
  deriving DecidableEq, Repr

inductive WaiterError
  | staleOrForeign
  | notReady
  | inconsistentState
  deriving DecidableEq, Repr

inductive SlotChoiceError
  | capacity
  | generationExhausted
  deriving DecidableEq, Repr

/-! ### Ranges -/

/-- A nonempty half-open range of addresses. -/
structure FaultRange where
  start : Nat
  stop : Nat
  nonempty : start < stop
  stop_le : stop ≤ u64Max

/-- The keys of requests, which a completion by range selects. -/
class FaultRangeKey (K : Type) where
  intersects : K → FaultRange → Bool

/-- A page of 4096 bytes, as the key of the faults on it. -/
structure Page where
  address : Nat
  deriving DecidableEq, Repr

instance : FaultRangeKey Page where
  intersects page range := page.address < range.stop && range.start < page.address + 4096

/-! ### Records -/

/-- Names a request: the broker, the slot and the generation of the slot. -/
structure RequestToken where
  broker : Nat
  slot : Nat
  generation : Nat
  deriving DecidableEq, Repr

/-- Names a waiter, as a request is named. -/
structure WaiterToken where
  broker : Nat
  slot : Nat
  generation : Nat
  deriving DecidableEq, Repr

inductive RequestPhase
  | pending
  | delivered
  | deferredPending
  | deferredDelivered
  | terminalVisible
  deriving DecidableEq, Repr

inductive CompletionVisibility
  | visible
  | deferred
  deriving DecidableEq, Repr

/-- A result is given at once or deferred, and becomes visible when it is released. -/
inductive RequestState (C : Type)
  | pending
  | delivered
  | deferredPending (completion : C)
  | deferredDelivered (completion : C)
  | visible (completion : C)
  deriving DecidableEq, Repr

namespace RequestState

variable {C : Type}

def phase : RequestState C → RequestPhase
  | .pending => .pending
  | .delivered => .delivered
  | .deferredPending _ => .deferredPending
  | .deferredDelivered _ => .deferredDelivered
  | .visible _ => .terminalVisible

def isVisible : RequestState C → Bool
  | .visible _ => true
  | _ => false

/-- The states of the requests in the delivery queue. -/
def isPending : RequestState C → Bool
  | .pending | .deferredPending _ => true
  | _ => false

def isOpen : RequestState C → Bool
  | .pending | .delivered => true
  | _ => false

/-- The state of a pending request after a handler has claimed it. -/
def claimed : RequestState C → Option (RequestState C)
  | .pending => some .delivered
  | .deferredPending completion => some (.deferredDelivered completion)
  | _ => none

end RequestState

/-- A request without its place in the delivery queue. -/
structure RequestBody (K H C : Type) where
  key : K
  handler : H
  state : RequestState C
  waiterHead : Option Nat
  waiterTail : Option Nat
  waiterCount : Nat

/-- A request with its links in the list of pending requests. -/
structure RequestRecord (K H C : Type) extends RequestBody K H C where
  pendingPrev : Option Nat
  pendingNext : Option Nat

structure RequestSlot (K H C : Type) where
  generation : Nat
  record : Option (RequestRecord K H C)

inductive WaiterState (C : Type)
  | active
  | ready (completion : C)
  deriving DecidableEq, Repr

/-- A waiter without its place in the list of its request. -/
structure WaiterBody (C : Type) where
  request : RequestToken
  state : WaiterState C

/-- A waiter with its links among the waiters of its request. -/
structure WaiterRecord (C : Type) extends WaiterBody C where
  prev : Option Nat
  next : Option Nat

structure WaiterSlot (C : Type) where
  generation : Nat
  record : Option (WaiterRecord C)

structure RequestSnapshot (K H : Type) where
  token : RequestToken
  key : K
  handler : H
  phase : RequestPhase
  waiterCount : Nat

/-- The tokens of an admission, and whether it joined a request. -/
structure FaultAdmission where
  request : RequestToken
  waiter : WaiterToken
  coalesced : Bool
  deriving DecidableEq, Repr

/-- What a completion by range or by predicate did. -/
structure CompletionSummary where
  requestsCompleted : Nat
  requestsReleased : Nat
  waitersReleased : Nat
  deriving DecidableEq, Repr

namespace CompletionSummary

def default : CompletionSummary := ⟨0, 0, 0⟩

def recordCompletion (s : CompletionSummary) (released : Nat) : CompletionSummary :=
  { s with requestsCompleted := s.requestsCompleted + 1
           waitersReleased := s.waitersReleased + released }

def recordRelease (s : CompletionSummary) (released : Nat) : CompletionSummary :=
  { s with requestsReleased := s.requestsReleased + 1
           waitersReleased := s.waitersReleased + released }

def merge (s t : CompletionSummary) : CompletionSummary :=
  ⟨s.requestsCompleted + t.requestsCompleted, s.requestsReleased + t.requestsReleased,
    s.waitersReleased + t.waitersReleased⟩

end CompletionSummary

/-- What the removal of a waiter gives back: whether it was the last one of its request, and whether
the request held a credit. -/
structure Removal where
  reclaimed : Bool
  refund : Bool
  deriving DecidableEq, Repr

structure CancelledWaiter (C : Type) where
  completion : Option C
  removal : Removal

structure TakenCompletion (C : Type) where
  completion : C
  removal : Removal

/-- The two arrays of slots and the ends of the list of pending requests. -/
structure FaultBroker (K H C : Type) where
  id : Nat
  requestCapacity : Nat
  requests : Nat → RequestSlot K H C
  waiterCapacity : Nat
  waiters : Nat → WaiterSlot C
  pendingHead : Option Nat
  pendingTail : Option Nat
  /-- the broker is bound to a credit pool -/
  creditPool : Bool

namespace FaultBroker

variable {K H C ε : Type}

/-- A broker and the next identity; `memory` says that the slots could be allocated. -/
def tryNew (requestCapacity waiterCapacity : UInt64) (creditPool memory : Bool)
    (nextBrokerId : Nat) : Except BrokerConfigError (FaultBroker K H C × Nat) :=
  if requestCapacity.toNat = usizeMax ∨ waiterCapacity.toNat = usizeMax then
    .error .unboundedCapacity
  else if !memory then .error .noMemory
  else if nextBrokerId + 1 ≤ u64Max then
    .ok (⟨nextBrokerId, requestCapacity.toNat, fun _ => ⟨0, none⟩, waiterCapacity.toNat,
      fun _ => ⟨0, none⟩, none, none, creditPool⟩, nextBrokerId + 1)
  else .error .brokerIdentityExhausted

/-! ### Slots -/

/-- `requests.get(slot)` and its record. -/
def request? (b : FaultBroker K H C) (slot : Nat) : Option (RequestRecord K H C) :=
  if slot < b.requestCapacity then (b.requests slot).record else none

/-- `waiters.get(slot)` and its record. -/
def waiter? (b : FaultBroker K H C) (slot : Nat) : Option (WaiterRecord C) :=
  if slot < b.waiterCapacity then (b.waiters slot).record else none

/-- `requests[slot]` and its record. -/
def requestAt (slot : Nat) : Op ε (FaultBroker K H C) (Option (RequestRecord K H C)) := fun b =>
  if slot < b.requestCapacity then .ok (b.requests slot).record b else .panic

/-- `waiters[slot]` and its record. -/
def waiterAt (slot : Nat) : Op ε (FaultBroker K H C) (Option (WaiterRecord C)) := fun b =>
  if slot < b.waiterCapacity then .ok (b.waiters slot).record b else .panic

/-- Changes the record of a request slot, if there is one. -/
def mapRequest (slot : Nat) (f : RequestRecord K H C → RequestRecord K H C)
    (b : FaultBroker K H C) : FaultBroker K H C :=
  let entry := b.requests slot
  { b with requests := Function.update b.requests slot ⟨entry.generation, entry.record.map f⟩ }

def mapWaiter (slot : Nat) (f : WaiterRecord C → WaiterRecord C)
    (b : FaultBroker K H C) : FaultBroker K H C :=
  let entry := b.waiters slot
  { b with waiters := Function.update b.waiters slot ⟨entry.generation, entry.record.map f⟩ }

def setRequest (slot : Nat) (entry : RequestSlot K H C) (b : FaultBroker K H C) :
    FaultBroker K H C :=
  { b with requests := Function.update b.requests slot entry }

def setWaiter (slot : Nat) (entry : WaiterSlot C) (b : FaultBroker K H C) : FaultBroker K H C :=
  { b with waiters := Function.update b.waiters slot entry }

/-- The first free slot whose generation can still go up, and its next generation. -/
def chooseSlot (capacity : Nat) (free : Nat → Bool) (generation : Nat → Nat) :
    Except SlotChoiceError (Nat × Nat) :=
  let usable := fun slot => free slot && decide (generation slot + 1 ≤ u64Max)
  match (List.range capacity).find? usable with
  | some slot => .ok (slot, generation slot + 1)
  | none => .error (if (List.range capacity).any free then .generationExhausted else .capacity)

def chooseRequestSlot (b : FaultBroker K H C) : Except SlotChoiceError (Nat × Nat) :=
  chooseSlot b.requestCapacity (fun slot => (b.requests slot).record.isNone)
    fun slot => (b.requests slot).generation

def chooseWaiterSlot (b : FaultBroker K H C) : Except SlotChoiceError (Nat × Nat) :=
  chooseSlot b.waiterCapacity (fun slot => (b.waiters slot).record.isNone)
    fun slot => (b.waiters slot).generation

/-! ### Tokens -/

def requestIndex (b : FaultBroker K H C) (token : RequestToken) : Except RequestError Nat :=
  if token.broker ≠ b.id then .error .staleOrForeign
  else if ¬ token.slot < b.requestCapacity then .error .staleOrForeign
  else if (b.requests token.slot).generation ≠ token.generation ∨
      (b.requests token.slot).record.isNone then .error .staleOrForeign
  else .ok token.slot

def waiterIndex (b : FaultBroker K H C) (token : WaiterToken) : Except WaiterError Nat :=
  if token.broker ≠ b.id then .error .staleOrForeign
  else if ¬ token.slot < b.waiterCapacity then .error .staleOrForeign
  else if (b.waiters token.slot).generation ≠ token.generation ∨
      (b.waiters token.slot).record.isNone then .error .staleOrForeign
  else .ok token.slot

/-- The slot of a request token; fails when the token names no live request. -/
def requestSlot (token : RequestToken) : Op RequestError (FaultBroker K H C) Nat := fun b =>
  lift (b.requestIndex token) b

def waiterSlot (token : WaiterToken) : Op WaiterError (FaultBroker K H C) Nat := fun b =>
  lift (b.waiterIndex token) b

def requestToken (b : FaultBroker K H C) (slot : Nat) : RequestToken :=
  ⟨b.id, slot, (b.requests slot).generation⟩

def waiterToken (b : FaultBroker K H C) (slot : Nat) : WaiterToken :=
  ⟨b.id, slot, (b.waiters slot).generation⟩

def snapshotSlot (b : FaultBroker K H C) (slot : Nat) : Option (RequestSnapshot K H) :=
  (b.request? slot).map fun record =>
    ⟨b.requestToken slot, record.key, record.handler, record.state.phase, record.waiterCount⟩

/-! ### The delivery queue -/

/-- The slot before, or the head, is linked to `next`. -/
def linkNext (previous next : Option Nat) : Op ε (FaultBroker K H C) Unit :=
  match previous with
  | some previous => do
    let _ ← requestAt previous
    modify (mapRequest previous fun record => { record with pendingNext := next })
  | none => modify fun b => { b with pendingHead := next }

/-- The slot behind, or the tail, is linked to `previous`. -/
def linkPrev (next previous : Option Nat) : Op ε (FaultBroker K H C) Unit :=
  match next with
  | some next => do
    let _ ← requestAt next
    modify (mapRequest next fun record => { record with pendingPrev := previous })
  | none => modify fun b => { b with pendingTail := previous }

def unlinkPending (slot : Nat) : Op ε (FaultBroker K H C) Unit := do
  match ← requestAt slot with
  | none => pure ()
  | some record => do
    linkNext record.pendingPrev record.pendingNext
    linkPrev record.pendingNext record.pendingPrev
    modify (mapRequest slot fun record =>
      { record with pendingPrev := none, pendingNext := none })

/-- The walk of `claim_next` along the queue. -/
def claimFrom [DecidableEq H] (handler : H) :
    Nat → Option Nat → Op ε (FaultBroker K H C) (Option (RequestSnapshot K H))
  | _, none => pure none
  | 0, some _ => crash
  | fuel + 1, some slot => do
    match ← read (request? · slot) with
    | none => pure none
    | some record =>
      if record.handler ≠ handler then claimFrom handler fuel record.pendingNext
      else match record.state.claimed with
        | none => claimFrom handler fuel record.pendingNext
        | some state => do
          unlinkPending slot
          match ← requestAt slot with
          | none => pure none
          | some _ => do
            modify (mapRequest slot fun record => { record with state := state })
            read (snapshotSlot · slot)

def claimNext [DecidableEq H] (handler : H) :
    Op ε (FaultBroker K H C) (Option (RequestSnapshot K H)) := do
  let b ← read fun b => b
  claimFrom handler b.requestCapacity b.pendingHead

/-! ### Completions -/

/-- The walk of `publish_waiters` along the waiters of a request. -/
def publishFrom (completion : C) : Nat → Option Nat → Nat → Op ε (FaultBroker K H C) Nat
  | _, none, released => pure released
  | 0, some _, _ => crash
  | fuel + 1, some slot, released => do
    match ← waiterAt slot with
    | none => pure released
    | some record =>
      match record.state with
      | .active => do
        modify (mapWaiter slot fun record => { record with state := .ready completion })
        publishFrom completion fuel record.next (released + 1)
      | .ready _ => publishFrom completion fuel record.next released

def publishWaiters (requestSlot : Nat) (completion : C) : Op ε (FaultBroker K H C) Nat := do
  let record ← requestAt requestSlot
  let capacity ← read (·.waiterCapacity)
  publishFrom completion capacity (record.bind (·.waiterHead)) 0

/-- The state after a completion, whether the request leaves the queue, and whether its waiters are
told. -/
def completion? (state : Option (RequestState C)) (completion : C)
    (visibility : CompletionVisibility) : Option (RequestState C × Bool × Bool) :=
  match state, visibility with
  | some .pending, .deferred => some (.deferredPending completion, false, false)
  | some .pending, .visible => some (.visible completion, true, true)
  | some .delivered, .deferred => some (.deferredDelivered completion, false, false)
  | some .delivered, .visible => some (.visible completion, false, true)
  | _, _ => none

/-- Gives an open request its result and returns the number of waiters released. -/
def completeSlot (slot : Nat) (completion : C) (visibility : CompletionVisibility) :
    Op ε (FaultBroker K H C) Nat := do
  let record ← requestAt slot
  match completion? (record.map (·.state)) completion visibility with
  | none => pure 0
  | some (state, unlink, publish) => do
    when unlink (unlinkPending slot)
    modify (mapRequest slot fun record => { record with state := state })
    if publish then publishWaiters slot completion else pure 0

/-- The result of a deferred request, and whether the request is in the queue. -/
def deferred? : Option (RequestState C) → Option (C × Bool)
  | some (.deferredPending completion) => some (completion, true)
  | some (.deferredDelivered completion) => some (completion, false)
  | _ => none

def releaseSlot (slot : Nat) : Op ε (FaultBroker K H C) Nat := do
  let record ← requestAt slot
  match deferred? (record.map (·.state)) with
  | none => pure 0
  | some (completion, unlink) => do
    when unlink (unlinkPending slot)
    modify (mapRequest slot fun record => { record with state := .visible completion })
    publishWaiters slot completion

def complete (token : RequestToken) (completion : C) (visibility : CompletionVisibility) :
    Op RequestError (FaultBroker K H C) Nat := do
  let slot ← requestSlot token
  let record ← requestAt slot
  require (record.all (·.state.isOpen)) .alreadyTerminal
  completeSlot slot completion visibility

/-- One slot of `complete_where`. -/
def completeIf (predicate : RequestSnapshot K H → Bool) (completion : C)
    (visibility : CompletionVisibility) (summary : CompletionSummary) (slot : Nat) :
    Op ε (FaultBroker K H C) CompletionSummary := do
  match ← read (snapshotSlot · slot) with
  | none => pure summary
  | some snapshot =>
    if (snapshot.phase = .pending ∨ snapshot.phase = .delivered) ∧ predicate snapshot then do
      let released ← completeSlot slot completion visibility
      pure (summary.recordCompletion released)
    else pure summary

def forSlots (body : CompletionSummary → Nat → Op ε (FaultBroker K H C) CompletionSummary) :
    List Nat → CompletionSummary → Op ε (FaultBroker K H C) CompletionSummary
  | [], summary => pure summary
  | slot :: rest, summary => do
    let summary ← body summary slot
    forSlots body rest summary

def completeWhere (predicate : RequestSnapshot K H → Bool) (completion : C)
    (visibility : CompletionVisibility) : Op ε (FaultBroker K H C) CompletionSummary := do
  let capacity ← read (·.requestCapacity)
  forSlots (completeIf predicate completion visibility) (List.range capacity) .default

def completeRange [FaultRangeKey K] (range : FaultRange) (completion : C)
    (visibility : CompletionVisibility) : Op ε (FaultBroker K H C) CompletionSummary :=
  completeWhere (fun snapshot => FaultRangeKey.intersects snapshot.key range) completion visibility

def release (token : RequestToken) : Op RequestError (FaultBroker K H C) Nat := do
  let slot ← requestSlot token
  match ← requestAt slot with
  | none => fail .notTerminal
  | some record =>
    match record.state with
    | .deferredPending _ | .deferredDelivered _ => releaseSlot slot
    | .visible _ => pure 0
    | .pending | .delivered => fail .notTerminal

/-- One slot of `release_where`. -/
def releaseIf (predicate : RequestSnapshot K H → Bool) (summary : CompletionSummary) (slot : Nat) :
    Op ε (FaultBroker K H C) CompletionSummary := do
  match ← read (snapshotSlot · slot) with
  | none => pure summary
  | some snapshot =>
    if (snapshot.phase = .deferredPending ∨ snapshot.phase = .deferredDelivered) ∧
        predicate snapshot then do
      let released ← releaseSlot slot
      pure (summary.recordRelease released)
    else pure summary

def releaseWhere (predicate : RequestSnapshot K H → Bool) :
    Op ε (FaultBroker K H C) CompletionSummary := do
  let capacity ← read (·.requestCapacity)
  forSlots (releaseIf predicate) (List.range capacity) .default

def releaseRange [FaultRangeKey K] (range : FaultRange) :
    Op ε (FaultBroker K H C) CompletionSummary :=
  releaseWhere fun snapshot => FaultRangeKey.intersects snapshot.key range

def detachHandler [DecidableEq H] (handler : H) (completion : C) :
    Op ε (FaultBroker K H C) CompletionSummary := do
  let summary ← completeWhere (fun snapshot => snapshot.handler = handler) completion .visible
  let released ← releaseWhere fun snapshot => snapshot.handler = handler
  pure (summary.merge released)

/-! ### Waiters -/

/-- Returns whether the slot held a request, whose credit goes back to the pool. -/
def reclaimRequest (slot : Nat) : Op ε (FaultBroker K H C) Bool := do
  let record ← requestAt slot
  when (record.any (·.state.isPending)) (unlinkPending slot)
  modify fun b => b.setRequest slot ⟨(b.requests slot).generation, none⟩
  pure record.isSome

/-- A neighbour of a removed waiter, if there is one, gets a new link. -/
def relink (slot : Option Nat) (f : WaiterRecord C → WaiterRecord C) :
    Op WaiterError (FaultBroker K H C) Unit :=
  match slot with
  | none => pure ()
  | some slot => do
    let record ← waiterAt slot
    require record.isSome .inconsistentState
    modify (mapWaiter slot f)

/-- The request after the waiter in `slot` was taken out of its list. -/
def dropWaiter (slot : Nat) (waiter : WaiterRecord C) (request : RequestRecord K H C) :
    RequestRecord K H C :=
  { request with
    waiterHead := if request.waiterHead = some slot then waiter.next else request.waiterHead
    waiterTail := if request.waiterTail = some slot then waiter.prev else request.waiterTail
    waiterCount := request.waiterCount - 1 }

def removeWaiter (slot : Nat) : Op WaiterError (FaultBroker K H C) Removal := do
  match ← waiterAt slot with
  | none => fail .staleOrForeign
  | some waiter => do
    let requestSlot ← mapError (fun _ => .inconsistentState) (requestSlot waiter.request)
    match ← requestAt requestSlot with
    | none => fail .inconsistentState
    | some request => do
      require (request.waiterCount ≠ 0) .inconsistentState
      relink waiter.prev fun record => { record with next := waiter.next }
      relink waiter.next fun record => { record with prev := waiter.prev }
      match ← requestAt requestSlot with
      | none => fail .inconsistentState
      | some request => do
        modify (mapRequest requestSlot (dropWaiter slot waiter))
        modify fun b => b.setWaiter slot ⟨(b.waiters slot).generation, none⟩
        if request.waiterCount - 1 = 0 then do
          let refund ← reclaimRequest requestSlot
          pure ⟨true, refund⟩
        else pure ⟨false, false⟩

def cancelWaiter (token : WaiterToken) :
    Op WaiterError (FaultBroker K H C) (CancelledWaiter C) := do
  let slot ← waiterSlot token
  match ← waiterAt slot with
  | none => fail .staleOrForeign
  | some record => do
    let removal ← removeWaiter slot
    match record.state with
    | .active => pure ⟨none, removal⟩
    | .ready completion => pure ⟨some completion, removal⟩

def takeWaiterCompletion (token : WaiterToken) :
    Op WaiterError (FaultBroker K H C) (TakenCompletion C) := do
  let slot ← waiterSlot token
  match ← waiterAt slot with
  | none => fail .staleOrForeign
  | some record =>
    match record.state with
    | .active => fail .notReady
    | .ready completion => do
      let removal ← removeWaiter slot
      pure ⟨completion, removal⟩

/-! ### Admission -/

/-- What `admit` has decided before it asks for a credit. -/
structure Plan where
  requestSlot : Nat
  requestGeneration : Nat
  coalesced : Bool
  waiterSlot : Nat
  waiterGeneration : Nat
  nextWaiterCount : Nat
  previous : Option Nat

section Admission

variable [DecidableEq K] [DecidableEq H]

/-- The live request that an admission joins. -/
def matching (b : FaultBroker K H C) (handler : H) (key : K) : Option Nat :=
  (List.range b.requestCapacity).find? fun slot => (b.requests slot).record.any fun record =>
    record.handler = handler ∧ record.key = key ∧ ¬ record.state.isVisible

/-- The request slot of an admission, its generation, and whether a live request is joined. -/
def planRequest (b : FaultBroker K H C) (handler : H) (key : K) :
    Except AdmissionError (Nat × Nat × Bool) :=
  match b.matching handler key with
  | some slot => .ok (slot, (b.requests slot).generation, true)
  | none =>
    match b.chooseRequestSlot with
    | .ok (slot, generation) => .ok (slot, generation, false)
    | .error .capacity => .error .requestCapacity
    | .error .generationExhausted => .error .requestTokenExhausted

omit [DecidableEq K] [DecidableEq H] in
def planWaiter (b : FaultBroker K H C) : Except AdmissionError (Nat × Nat) :=
  match b.chooseWaiterSlot with
  | .ok choice => .ok choice
  | .error .capacity => .error .waiterCapacity
  | .error .generationExhausted => .error .waiterTokenExhausted

/-- The waiter count of the request after the admission. -/
def planCount (b : FaultBroker K H C) (slot : Nat) (coalesced : Bool) :
    Except AdmissionError Nat := do
  let count ← if coalesced then
      match (b.requests slot).record with
      | none => .error .inconsistentState
      | some record =>
        if record.waiterCount + 1 ≤ usizeMax then .ok (record.waiterCount + 1)
        else .error .inconsistentState
    else .ok 1
  if b.waiterCapacity < count then .error .inconsistentState else .ok count

/-- The waiter behind which the new one is linked, after the links it touches are checked. -/
def planLink (b : FaultBroker K H C) (request : RequestToken) (coalesced : Bool) :
    Except AdmissionError (Option Nat) :=
  if coalesced then
    match (b.requests request.slot).record with
    | none => .error .inconsistentState
    | some record =>
      if record.waiterCount = 0 ∨ record.waiterHead.isNone ∨ record.waiterTail.isNone then
        .error .inconsistentState
      else match record.waiterTail with
        | none => .ok none
        | some previous =>
          match b.waiter? previous with
          | none => .error .inconsistentState
          | some waiter =>
            if waiter.request ≠ request ∨ waiter.next.isSome then .error .inconsistentState
            else .ok (some previous)
  else if b.pendingHead.isSome ≠ b.pendingTail.isSome then .error .inconsistentState
  else match b.pendingTail with
    | none => .ok none
    | some tail =>
      match b.request? tail with
      | none => .error .inconsistentState
      | some record =>
        if ¬ record.state.isPending ∨ record.pendingNext.isSome then .error .inconsistentState
        else .ok none

def plan (b : FaultBroker K H C) (handler : H) (key : K) : Except AdmissionError Plan := do
  let (requestSlot, requestGeneration, coalesced) ← b.planRequest handler key
  let (waiterSlot, waiterGeneration) ← b.planWaiter
  let nextWaiterCount ← b.planCount requestSlot coalesced
  let previous ← b.planLink ⟨b.id, requestSlot, requestGeneration⟩ coalesced
  .ok ⟨requestSlot, requestGeneration, coalesced, waiterSlot, waiterGeneration, nextWaiterCount,
    previous⟩

end Admission

/-- `expect` on a record that was found before. -/
def expectRequest (slot : Nat) : Op ε (FaultBroker K H C) Unit := do
  match ← requestAt slot with
  | none => crash
  | some _ => pure ()

def expectWaiter (slot : Nat) : Op ε (FaultBroker K H C) Unit := do
  match ← waiterAt slot with
  | none => crash
  | some _ => pure ()

/-- The last slot of the queue, or the head, is linked to a new one. -/
def linkTail (tail : Option Nat) (slot : Nat) : Op ε (FaultBroker K H C) Unit :=
  match tail with
  | some tail => do
    expectRequest tail
    modify (mapRequest tail fun record => { record with pendingNext := some slot })
  | none => modify fun b => { b with pendingHead := some slot }

/-- A new request goes to the end of the delivery queue. -/
def publishRequest (p : Plan) (handler : H) (key : K) : Op ε (FaultBroker K H C) Unit := do
  let tail ← read (·.pendingTail)
  modify (setRequest p.requestSlot ⟨p.requestGeneration,
    some { key, handler, state := .pending, waiterHead := none, waiterTail := none,
           waiterCount := 0, pendingPrev := tail, pendingNext := none }⟩)
  linkTail tail p.requestSlot
  modify fun b => { b with pendingTail := some p.requestSlot }

/-- The last waiter of the request, if it has one, is linked to the new one. -/
def linkWaiter (previous : Option Nat) (slot : Nat) : Op ε (FaultBroker K H C) Unit :=
  match previous with
  | none => pure ()
  | some previous => do
    expectWaiter previous
    modify (mapWaiter previous fun record => { record with next := some slot })

/-- The request after the waiter of the plan was linked behind its last one. -/
def addWaiter (p : Plan) (request : RequestRecord K H C) : RequestRecord K H C :=
  { request with
    waiterHead := if request.waiterHead.isNone then some p.waiterSlot else request.waiterHead
    waiterTail := some p.waiterSlot
    waiterCount := p.nextWaiterCount }

/-- The new waiter goes to the end of the list of its request. -/
def attachWaiter (p : Plan) : Op ε (FaultBroker K H C) FaultAdmission := do
  let id ← read (·.id)
  modify (setWaiter p.waiterSlot ⟨p.waiterGeneration,
    some { request := ⟨id, p.requestSlot, p.requestGeneration⟩, state := .active,
           prev := p.previous, next := none }⟩)
  linkWaiter p.previous p.waiterSlot
  expectRequest p.requestSlot
  modify (mapRequest p.requestSlot (addWaiter p))
  pure ⟨⟨id, p.requestSlot, p.requestGeneration⟩, ⟨id, p.waiterSlot, p.waiterGeneration⟩,
    p.coalesced⟩

def commit (p : Plan) (handler : H) (key : K) : Op ε (FaultBroker K H C) FaultAdmission := do
  when (!p.coalesced) (publishRequest p handler key)
  attachWaiter p

/-- `credit` is the answer of the pool, for a broker that is bound to one. -/
def admitFault [DecidableEq K] [DecidableEq H] (handler : H) (key : K) (credit : Bool) :
    Op AdmissionError (FaultBroker K H C) FaultAdmission := do
  let p ← (fun b => lift (b.plan handler key) b)
  let pooled ← read (·.creditPool)
  require (p.coalesced ∨ !pooled ∨ credit) .requestCreditCapacity
  commit p handler key

end FaultBroker

/-! ### Operations -/

/-- The operations that change a broker. The loops of the source show each request to their
predicate once, so that one with a state of its own answers like a fixed one. -/
inductive Operation (K H C : Type)
  | admitFault (handler : H) (key : K) (credit : Bool)
  | claimNext (handler : H)
  | complete (token : RequestToken) (completion : C) (visibility : CompletionVisibility)
  | completeWhere (predicate : RequestSnapshot K H → Bool) (completion : C)
      (visibility : CompletionVisibility)
  | completeRange (range : FaultRange) (completion : C) (visibility : CompletionVisibility)
  | release (token : RequestToken)
  | releaseWhere (predicate : RequestSnapshot K H → Bool)
  | releaseRange (range : FaultRange)
  | detachHandler (handler : H) (completion : C)
  | cancelWaiter (token : WaiterToken)
  | takeWaiterCompletion (token : WaiterToken)

/-- What an operation returns. -/
inductive Answer (K H C : Type)
  | admitted (r : Except AdmissionError FaultAdmission)
  | claimed (r : Option (RequestSnapshot K H))
  | completed (r : Except RequestError Nat)
  | summary (r : CompletionSummary)
  | released (r : Except RequestError Nat)
  | cancelled (r : Except WaiterError (CancelledWaiter C))
  | taken (r : Except WaiterError (TakenCompletion C))

namespace FaultBroker

variable {K H C ε α : Type}

/-- The answer of an operation and the broker after it; none when it panics. -/
def answer (m : Op ε (FaultBroker K H C) α) (f : Except ε α → Answer K H C)
    (b : FaultBroker K H C) : Option (Answer K H C × FaultBroker K H C) :=
  match m b with
  | .ok a b' => some (f (.ok a), b')
  | .error e b' => some (f (.error e), b')
  | .panic => none

/-- The same for an operation without errors. -/
def answer' (m : Op Empty (FaultBroker K H C) α) (f : α → Answer K H C) (b : FaultBroker K H C) :
    Option (Answer K H C × FaultBroker K H C) :=
  match m b with
  | .ok a b' => some (f a, b')
  | .error e _ => nomatch e
  | .panic => none

def perform [DecidableEq K] [DecidableEq H] [FaultRangeKey K] (o : Operation K H C) :
    FaultBroker K H C → Option (Answer K H C × FaultBroker K H C) :=
  match o with
  | .admitFault handler key credit => answer (admitFault handler key credit) .admitted
  | .claimNext handler => answer' (claimNext handler) .claimed
  | .complete token completion visibility =>
    answer (complete token completion visibility) .completed
  | .completeWhere predicate completion visibility =>
    answer' (completeWhere predicate completion visibility) .summary
  | .completeRange range completion visibility =>
    answer' (completeRange range completion visibility) .summary
  | .release token => answer (release token) .released
  | .releaseWhere predicate => answer' (releaseWhere predicate) .summary
  | .releaseRange range => answer' (releaseRange range) .summary
  | .detachHandler handler completion => answer' (detachHandler handler completion) .summary
  | .cancelWaiter token => answer (cancelWaiter token) .cancelled
  | .takeWaiterCompletion token => answer (takeWaiterCompletion token) .taken

end FaultBroker

end KernelAx.Fault
