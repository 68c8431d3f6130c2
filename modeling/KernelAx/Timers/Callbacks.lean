import Mathlib.Algebra.GroupWithZero.Nat
import KernelAx.Slots
import KernelAx.Interleaving

/-!
# Timer callbacks — the model

The registry of timer callbacks of one CPU. `register`, `begin_dispatch`, `finish_dispatch` and
`cancel` run under its lock, each in one step; the callbacks are invoked, and boxes dropped, outside
of it. A dispatch takes leases on all callbacks at once and invokes them one after the other, so
anything can happen between the two, in other calls or inside a callback.

A box is known by the number of its allocation. The log, latest event first, is not part of the
program.
-/

namespace KernelAx.Timers

open Interleaving

def callbackCapacity : Nat := 16

/-- `u64::MAX` and `usize::MAX`. -/
def wordMax : Nat := 2 ^ 64 - 1

/-- Names a registered callback. -/
structure TimerCallbackToken where
  ownerCpu : Nat
  slot : Nat
  generation : Nat
  deriving DecidableEq, Repr

inductive TimerCallbackRegisterError where
  | noMemory
  | capacityExhausted
  | tokenSpaceExhausted
  deriving DecidableEq, Repr

/-- The callback is a box, by the number of its allocation. -/
structure CallbackSlot where
  generation : Nat
  callback : Option Nat
  inFlight : Nat
  closing : Bool
  deriving DecidableEq, Repr

/-- A callback that was taken to be invoked outside of the lock. -/
structure CallbackLease where
  slot : Nat
  generation : Nat
  callback : Nat
  deriving DecidableEq, Repr

/-- The registry of a CPU, under its lock. -/
structure CallbackInner where
  slots : Nat → CallbackSlot
  next : Nat
  len : Nat

def CallbackInner.new : CallbackInner := ⟨fun _ => ⟨0, none, 0, false⟩, 0, 0⟩

namespace CallbackInner

def setSlot (inner : CallbackInner) (index : Nat) (slot : CallbackSlot) : CallbackInner :=
  { inner with slots := Function.update inner.slots index slot }

def register (inner : CallbackInner) (ownerCpu callback : Nat) :
    Except (TimerCallbackRegisterError × Nat) TimerCallbackToken × CallbackInner :=
  if inner.len = callbackCapacity then (.error (.capacityExhausted, callback), inner)
  else
    let free := fun slot =>
      let entry := inner.slots slot
      entry.callback.isNone && entry.inFlight == 0 && decide (entry.generation < wordMax)
    match (rotation callbackCapacity inner.next).find? free with
    | none => (.error (.tokenSpaceExhausted, callback), inner)
    | some slot =>
      let generation := (inner.slots slot).generation + 1
      (.ok ⟨ownerCpu, slot, generation⟩,
        { inner.setSlot slot { inner.slots slot with
            generation, callback := some callback, closing := false } with
          len := inner.len + 1
          next := if slot + 1 = callbackCapacity then 0 else slot + 1 })

/-- The lease that `begin_dispatch` takes on a slot, if it does. -/
def lease (inner : CallbackInner) (index : Nat) : Option CallbackLease :=
  let slot := inner.slots index
  if slot.closing then none
  else
    match slot.callback with
    | none => none
    -- `in_flight.checked_add(1)`
    | some callback =>
      if slot.inFlight < wordMax then some ⟨index, slot.generation, callback⟩ else none

def beginDispatch (inner : CallbackInner) : List CallbackLease × CallbackInner :=
  ((List.range callbackCapacity).filterMap inner.lease,
    { inner with slots := fun index =>
        if index < callbackCapacity ∧ (inner.lease index).isSome then
          { inner.slots index with inFlight := (inner.slots index).inFlight + 1 }
        else inner.slots index })

def finishDispatch (inner : CallbackInner) (lease : CallbackLease) : Option Nat × CallbackInner :=
  if lease.slot < callbackCapacity then
    let slot := inner.slots lease.slot
    if slot.generation ≠ lease.generation ∨ slot.inFlight = 0 then (none, inner)
    else
      let slot := { slot with inFlight := slot.inFlight - 1 }
      if slot.closing ∧ slot.inFlight = 0 then
        (slot.callback,
          { inner.setSlot lease.slot { slot with callback := none } with next := lease.slot })
      else (none, inner.setSlot lease.slot slot)
  else (none, inner)

def cancel (inner : CallbackInner) (token : TimerCallbackToken) :
    (Bool × Option Nat) × CallbackInner :=
  if token.slot < callbackCapacity then
    let slot := inner.slots token.slot
    if slot.generation ≠ token.generation ∨ slot.callback.isNone ∨ slot.closing then
      ((false, none), inner)
    else
      let slot := { slot with closing := true }
      let inner := { inner with len := inner.len - 1 }
      if slot.inFlight = 0 then
        ((true, slot.callback),
          { inner.setSlot token.slot { slot with callback := none } with next := token.slot })
      else ((true, none), inner.setSlot token.slot slot)
  else ((false, none), inner)

end CallbackInner

/-! ### Calls -/

inductive Event where
  /-- `register_timer_callback` returned the token for the box. -/
  | registered (token : TimerCallbackToken) (callback : Nat)
  /-- `cancel` found the token live, under the lock. -/
  | cancelled (token : TimerCallbackToken)
  /-- `cancel_timer_callback` returned `true`. -/
  | returned (token : TimerCallbackToken)
  | invoked (lease : CallbackLease)
  | dropped (callback : Nat)
  deriving DecidableEq, Repr

/-- The registry, with the boxes made so far and what happened to them. -/
structure Memory where
  inner : CallbackInner
  boxes : Nat
  log : List Event

namespace Memory

/-- `drop(deferred)`. -/
def drop (m : Memory) : Option Nat → Memory
  | none => m
  | some callback => { m with log := .dropped callback :: m.log }

/-- An event that is logged if the condition holds. -/
def note (m : Memory) (condition : Bool) (e : Event) : Memory :=
  if condition then { m with log := e :: m.log } else m

@[simp] theorem drop_inner (m : Memory) (callback : Option Nat) :
    (m.drop callback).inner = m.inner := by cases callback <;> rfl

@[simp] theorem note_inner (m : Memory) (condition : Bool) (e : Event) :
    (m.note condition e).inner = m.inner := by cases condition <;> rfl

@[simp] theorem drop_boxes (m : Memory) (callback : Option Nat) :
    (m.drop callback).boxes = m.boxes := by cases callback <;> rfl

@[simp] theorem note_boxes (m : Memory) (condition : Bool) (e : Event) :
    (m.note condition e).boxes = m.boxes := by cases condition <;> rfl

end Memory

inductive Call where
  | idle
  /-- `register_timer_callback`: the box is allocated, published, and dropped if it is refused. -/
  | register
  | publish (callback : Nat)
  | reject (callback : Nat) (error : TimerCallbackRegisterError)
  | registered (result : Except TimerCallbackRegisterError TimerCallbackToken)
  /-- `cancel_timer_callback`: what `cancel` took out is dropped behind the lock. -/
  | cancel (token : TimerCallbackToken)
  | discard (token : TimerCallbackToken) (cancelled : Bool) (deferred : Option Nat)
  | answer (token : TimerCallbackToken) (cancelled : Bool)
  | cancelReturned (token : TimerCallbackToken) (cancelled : Bool)
  /-- `dispatch`: the leases still to serve, and the one that is being served. -/
  | dispatch
  | serve (leases : List CallbackLease)
  | running (lease : CallbackLease) (rest : List CallbackLease)
  | finish (deferred : Option Nat) (rest : List CallbackLease)
  | dispatched
  deriving DecidableEq

/-- One step of a call on the registry of `cpu`. -/
def Call.step (cpu : Nat) (m : Memory) : Call → List (Memory × Call)
  | .idle => []
  -- `Box::try_new` can fail
  | .register =>
    [({ m with boxes := m.boxes + 1 }, .publish m.boxes), (m, .registered (.error .noMemory))]
  | .publish callback =>
    match m.inner.register cpu callback with
    | (.ok token, inner) =>
      [({ m with inner, log := .registered token callback :: m.log }, .registered (.ok token))]
    | (.error (error, rejected), inner) => [({ m with inner }, .reject rejected error)]
  | .reject callback error => [(m.drop (some callback), .registered (.error error))]
  | .registered _ => []
  | .cancel token =>
    match m.inner.cancel token with
    | ((cancelled, deferred), inner) =>
      [({ m with inner }.note cancelled (.cancelled token), .discard token cancelled deferred)]
  | .discard token cancelled deferred => [(m.drop deferred, .answer token cancelled)]
  | .answer token cancelled =>
    [(m.note cancelled (.returned token), .cancelReturned token cancelled)]
  | .cancelReturned _ _ => []
  | .dispatch =>
    match m.inner.beginDispatch with
    | (leases, inner) => [({ m with inner }, .serve leases)]
  | .serve [] => [(m, .dispatched)]
  | .serve (lease :: rest) => [(m.note true (.invoked lease), .running lease rest)]
  | .running lease rest =>
    match m.inner.finishDispatch lease with
    | (deferred, inner) => [({ m with inner }, .finish deferred rest)]
  | .finish deferred rest => [(m.drop deferred, .serve rest)]
  | .dispatched => []

/-- A token is cancelled on the registry of its own CPU. -/
def Call.Starts (cpu : Nat) : Call → Prop
  | .register | .dispatch => True
  | .cancel token => token.ownerCpu = cpu
  | _ => False

def system (cpu : Nat) (ι : Type) : System ι Memory Call where
  idle := .idle
  Starts _ := Call.Starts cpu
  step _ := Call.step cpu

def initial (ι : Type) : Config ι Memory Call := ⟨⟨.new, 0, []⟩, fun _ => .idle⟩

end KernelAx.Timers
