import Mathlib.Data.List.Nodup
import KernelAx.Fault.Broker

/-!
# Fault broker — Registry

What the broker is for, without links: requests with their waiters in the order of admission, and
the queue of the requests that no handler has claimed. The operations are those of the broker, over
lists; that the broker refines them is shown in `Refines`.
-/

namespace KernelAx.Fault

open Function (update)

/-- A request with its waiters in the order in which they came. -/
structure Request (K H C : Type) where
  key : K
  handler : H
  state : RequestState C
  waiters : List Nat

/-- The broker without links: its pending requests and the waiters of a request are lists. -/
structure Registry (K H C : Type) where
  id : Nat
  requestCapacity : Nat
  waiterCapacity : Nat
  creditPool : Bool
  requests : Nat → Option (Request K H C)
  requestGeneration : Nat → Nat
  /-- the slot of the request that a waiter waits for -/
  owner : Nat → Option Nat
  waiterGeneration : Nat → Nat
  queue : List Nat

/-- What the waiters of a request know of it. -/
def RequestState.waiterState {C : Type} : RequestState C → WaiterState C
  | .visible completion => .ready completion
  | _ => .active

namespace Registry

variable {K H C : Type}

def new (id requestCapacity waiterCapacity : Nat) (creditPool : Bool) : Registry K H C :=
  ⟨id, requestCapacity, waiterCapacity, creditPool, fun _ => none, fun _ => 0, fun _ => none,
    fun _ => 0, []⟩

def requestToken (s : Registry K H C) (slot : Nat) : RequestToken :=
  ⟨s.id, slot, s.requestGeneration slot⟩

def waiterToken (s : Registry K H C) (slot : Nat) : WaiterToken :=
  ⟨s.id, slot, s.waiterGeneration slot⟩

/-- The slot and the request that a token names. -/
def request? (s : Registry K H C) (token : RequestToken) : Option (Request K H C) :=
  if token = s.requestToken token.slot then s.requests token.slot else none

/-- The slot of the request that a waiter token waits for. -/
def owner? (s : Registry K H C) (token : WaiterToken) : Option Nat :=
  if token = s.waiterToken token.slot then s.owner token.slot else none

def snapshot (s : Registry K H C) (slot : Nat) : Option (RequestSnapshot K H) :=
  (s.requests slot).map fun r =>
    ⟨s.requestToken slot, r.key, r.handler, r.state.phase, r.waiters.length⟩

/-! ### Changes -/

/-- A new request at the end of the queue. -/
def openRequest (s : Registry K H C) (slot generation : Nat) (handler : H) (key : K) :
    Registry K H C :=
  { s with
    requests := update s.requests slot (some ⟨key, handler, .pending, []⟩)
    requestGeneration := update s.requestGeneration slot generation
    queue := s.queue ++ [slot] }

theorem openRequest_self (s : Registry K H C) (slot generation : Nat) (handler : H) (key : K) :
    (s.openRequest slot generation handler key).requests slot
      = some ⟨key, handler, .pending, []⟩ :=
  Function.update_self ..

/-- A new waiter behind the others of a request. -/
def join (s : Registry K H C) (slot waiter generation : Nat) : Registry K H C :=
  { s with
    requests := update s.requests slot
      ((s.requests slot).map fun r => { r with waiters := r.waiters ++ [waiter] })
    owner := update s.owner waiter (some slot)
    waiterGeneration := update s.waiterGeneration waiter generation }

/-- A request in another state leaves the queue unless it is pending in it. -/
def setState (s : Registry K H C) (slot : Nat) (state : RequestState C) : Registry K H C :=
  { s with
    requests := update s.requests slot
      ((s.requests slot).map fun r => { r with state := state })
    queue := if state.isPending then s.queue else s.queue.erase slot }

/-- A waiter goes, and its request with it when it was the last one. -/
def leave (s : Registry K H C) (slot waiter : Nat) (r : Request K H C) : Registry K H C :=
  { s with
    requests := update s.requests slot
      (if r.waiters.erase waiter = [] then none
        else some { r with waiters := r.waiters.erase waiter })
    owner := update s.owner waiter none
    queue := if r.waiters.erase waiter = [] then s.queue.erase slot else s.queue }

section

variable {s : Registry K H C} {slot waiter generation i : Nat} {r q : Request K H C}

theorem of_openRequest {handler : H} {key : K}
    (hi : (s.openRequest slot generation handler key).requests i = some q) :
    (i = slot ∧ ⟨key, handler, .pending, []⟩ = q) ∨ (i ≠ slot ∧ s.requests i = some q) := by
  by_cases his : i = slot <;> simpa [openRequest, his] using hi

theorem of_leave (hi : (s.leave slot waiter r).requests i = some q) :
    (i = slot ∧ { r with waiters := r.waiters.erase waiter } = q) ∨
      (i ≠ slot ∧ s.requests i = some q) := by
  by_cases his : i = slot
  · exact .inl ⟨his, (show _ ∧ _ = q by simpa [leave, his] using hi).2⟩
  · exact .inr ⟨his, by simpa [leave, his] using hi⟩

variable (request : s.requests slot = some r)
include request

theorem of_join (hi : (s.join slot waiter generation).requests i = some q) :
    (i = slot ∧ { r with waiters := r.waiters ++ [waiter] } = q) ∨
      (i ≠ slot ∧ s.requests i = some q) := by
  by_cases his : i = slot <;> simpa [join, request, his] using hi

theorem of_setState {state : RequestState C} (hi : (s.setState slot state).requests i = some q) :
    (i = slot ∧ { r with state } = q) ∨ (i ≠ slot ∧ s.requests i = some q) := by
  by_cases his : i = slot <;> simpa [setState, request, his] using hi

end

/-! ### Operations -/

/-- Gives an open request its result; the number of waiters released. -/
def completeSlot (s : Registry K H C) (slot : Nat) (completion : C)
    (visibility : CompletionVisibility) : Nat × Registry K H C :=
  match s.requests slot with
  | none => (0, s)
  | some r =>
    match FaultBroker.completion? (some r.state) completion visibility with
    | none => (0, s)
    | some (state, _, publish) =>
      (if publish then r.waiters.length else 0, s.setState slot state)

def releaseSlot (s : Registry K H C) (slot : Nat) : Nat × Registry K H C :=
  match s.requests slot with
  | none => (0, s)
  | some r =>
    match FaultBroker.deferred? (some r.state) with
    | none => (0, s)
    | some (completion, _) => (r.waiters.length, s.setState slot (.visible completion))

def complete (s : Registry K H C) (token : RequestToken) (completion : C)
    (visibility : CompletionVisibility) : Except RequestError Nat × Registry K H C :=
  match s.request? token with
  | none => (.error .staleOrForeign, s)
  | some r =>
    if r.state.isOpen then
      let (released, s') := s.completeSlot token.slot completion visibility
      (.ok released, s')
    else (.error .alreadyTerminal, s)

def release (s : Registry K H C) (token : RequestToken) :
    Except RequestError Nat × Registry K H C :=
  match s.request? token with
  | none => (.error .staleOrForeign, s)
  | some r =>
    match r.state with
    | .deferredPending _ | .deferredDelivered _ =>
      let (released, s') := s.releaseSlot token.slot
      (.ok released, s')
    | .visible _ => (.ok 0, s)
    | .pending | .delivered => (.error .notTerminal, s)

def completeIf (predicate : RequestSnapshot K H → Bool) (completion : C)
    (visibility : CompletionVisibility) (s : Registry K H C) (summary : CompletionSummary)
    (slot : Nat) : CompletionSummary × Registry K H C :=
  match s.snapshot slot with
  | none => (summary, s)
  | some snapshot =>
    if (snapshot.phase = .pending ∨ snapshot.phase = .delivered) ∧ predicate snapshot then
      let (released, s') := s.completeSlot slot completion visibility
      (summary.recordCompletion released, s')
    else (summary, s)

def releaseIf (predicate : RequestSnapshot K H → Bool) (s : Registry K H C)
    (summary : CompletionSummary) (slot : Nat) : CompletionSummary × Registry K H C :=
  match s.snapshot slot with
  | none => (summary, s)
  | some snapshot =>
    if (snapshot.phase = .deferredPending ∨ snapshot.phase = .deferredDelivered) ∧
        predicate snapshot then
      let (released, s') := s.releaseSlot slot
      (summary.recordRelease released, s')
    else (summary, s)

/-- A loop over the request slots. -/
def forSlots
    (body : Registry K H C → CompletionSummary → Nat → CompletionSummary × Registry K H C) :
    List Nat → CompletionSummary → Registry K H C → CompletionSummary × Registry K H C
  | [], summary, s => (summary, s)
  | slot :: rest, summary, s =>
    let (summary, s) := body s summary slot
    forSlots body rest summary s

def completeWhere (s : Registry K H C) (predicate : RequestSnapshot K H → Bool) (completion : C)
    (visibility : CompletionVisibility) : CompletionSummary × Registry K H C :=
  forSlots (completeIf predicate completion visibility) (List.range s.requestCapacity) .default s

def releaseWhere (s : Registry K H C) (predicate : RequestSnapshot K H → Bool) :
    CompletionSummary × Registry K H C :=
  forSlots (releaseIf predicate) (List.range s.requestCapacity) .default s

def detachHandler [DecidableEq H] (s : Registry K H C) (handler : H) (completion : C) :
    CompletionSummary × Registry K H C :=
  let (summary, s) := s.completeWhere (fun snapshot => snapshot.handler = handler) completion
    .visible
  let (released, s) := s.releaseWhere fun snapshot => snapshot.handler = handler
  (summary.merge released, s)

/-- The oldest request of the handler in the queue. -/
def oldest [DecidableEq H] (s : Registry K H C) (handler : H) : Option Nat :=
  s.queue.find? fun slot => (s.requests slot).any fun r => r.handler = handler

def claimNext [DecidableEq H] (s : Registry K H C) (handler : H) :
    Option (RequestSnapshot K H) × Registry K H C :=
  match s.oldest handler with
  | none => (none, s)
  | some slot =>
    match (s.requests slot).bind (·.state.claimed) with
    | none => (none, s)
    | some state => ((s.setState slot state).snapshot slot, s.setState slot state)

/-- A waiter is removed from its request. -/
def removeWaiter (s : Registry K H C) (waiter slot : Nat) (r : Request K H C) :
    Removal × Registry K H C :=
  let reclaimed := decide (r.waiters.erase waiter = [])
  (⟨reclaimed, reclaimed⟩, s.leave slot waiter r)

/-- The request slot that a waiter token waits for, and the request. -/
def waiter? (s : Registry K H C) (token : WaiterToken) : Option (Nat × Request K H C) :=
  (s.owner? token).bind fun slot => (s.requests slot).map (slot, ·)

def cancelWaiter (s : Registry K H C) (token : WaiterToken) :
    Except WaiterError (CancelledWaiter C) × Registry K H C :=
  match s.waiter? token with
  | none => (.error .staleOrForeign, s)
  | some (slot, r) =>
    let (removal, s') := s.removeWaiter token.slot slot r
    match r.state.waiterState with
    | .active => (.ok ⟨none, removal⟩, s')
    | .ready completion => (.ok ⟨some completion, removal⟩, s')

def takeWaiterCompletion (s : Registry K H C) (token : WaiterToken) :
    Except WaiterError (TakenCompletion C) × Registry K H C :=
  match s.waiter? token with
  | none => (.error .staleOrForeign, s)
  | some (slot, r) =>
    match r.state.waiterState with
    | .active => (.error .notReady, s)
    | .ready completion =>
      let (removal, s') := s.removeWaiter token.slot slot r
      (.ok ⟨completion, removal⟩, s')

section Perform

variable [DecidableEq K] [DecidableEq H]

/-- The request that an admission joins. -/
def matching (s : Registry K H C) (handler : H) (key : K) : Option Nat :=
  (List.range s.requestCapacity).find? fun slot => (s.requests slot).any fun r =>
    r.handler = handler ∧ r.key = key ∧ ¬ r.state.isVisible

def chooseRequest (s : Registry K H C) (handler : H) (key : K) :
    Except AdmissionError (Nat × Nat × Bool) :=
  match s.matching handler key with
  | some slot => .ok (slot, s.requestGeneration slot, true)
  | none =>
    match FaultBroker.chooseSlot s.requestCapacity (fun slot => (s.requests slot).isNone)
        s.requestGeneration with
    | .ok (slot, generation) => .ok (slot, generation, false)
    | .error .capacity => .error .requestCapacity
    | .error .generationExhausted => .error .requestTokenExhausted

omit [DecidableEq K] [DecidableEq H] in
def chooseWaiter (s : Registry K H C) : Except AdmissionError (Nat × Nat) :=
  match FaultBroker.chooseSlot s.waiterCapacity (fun slot => (s.owner slot).isNone)
      s.waiterGeneration with
  | .ok choice => .ok choice
  | .error .capacity => .error .waiterCapacity
  | .error .generationExhausted => .error .waiterTokenExhausted

def admitFault (s : Registry K H C) (handler : H) (key : K) (credit : Bool) :
    Except AdmissionError FaultAdmission × Registry K H C :=
  match s.chooseRequest handler key with
  | .error e => (.error e, s)
  | .ok (slot, generation, coalesced) =>
    match s.chooseWaiter with
    | .error e => (.error e, s)
    | .ok (waiter, waiterGeneration) =>
      let admission := ⟨⟨s.id, slot, generation⟩, ⟨s.id, waiter, waiterGeneration⟩, coalesced⟩
      if coalesced then (.ok admission, s.join slot waiter waiterGeneration)
      else if !s.creditPool ∨ credit then
        (.ok admission, (s.openRequest slot generation handler key).join slot waiter
          waiterGeneration)
      else (.error .requestCreditCapacity, s)

omit [DecidableEq K] [DecidableEq H] in
def answer {α : Type} (f : α → Answer K H C) (result : α × Registry K H C) :
    Answer K H C × Registry K H C :=
  (f result.1, result.2)

def perform [FaultRangeKey K] (s : Registry K H C) (o : Operation K H C) :
    Answer K H C × Registry K H C :=
  match o with
  | .admitFault handler key credit => answer .admitted (s.admitFault handler key credit)
  | .claimNext handler => answer .claimed (s.claimNext handler)
  | .complete token completion visibility =>
    answer .completed (s.complete token completion visibility)
  | .completeWhere predicate completion visibility =>
    answer .summary (s.completeWhere predicate completion visibility)
  | .completeRange range completion visibility =>
    answer .summary (s.completeWhere
      (fun snapshot => FaultRangeKey.intersects snapshot.key range) completion visibility)
  | .release token => answer .released (s.release token)
  | .releaseWhere predicate => answer .summary (s.releaseWhere predicate)
  | .releaseRange range =>
    answer .summary (s.releaseWhere
      fun snapshot => FaultRangeKey.intersects snapshot.key range)
  | .detachHandler handler completion => answer .summary (s.detachHandler handler completion)
  | .cancelWaiter token => answer .cancelled (s.cancelWaiter token)
  | .takeWaiterCompletion token => answer .taken (s.takeWaiterCompletion token)

end Perform

end Registry

end KernelAx.Fault
