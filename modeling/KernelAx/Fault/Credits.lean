import Mathlib.Data.Finset.Card
import KernelAx.Fault.Tokens
import KernelAx.Tally

/-!
# Fault broker — Credits

A credit pool that any number of brokers share. The pool is one atomic counter; a broker takes a
credit for every request it opens and gives it back when the request is reclaimed, and a broker that
is dropped gives back the credits of the requests it still holds. Operations of different brokers
interleave at each access to the counter.

In every state that can be reached the counter is the number of live requests of the brokers and of
the credits that operations in progress have in hand, it is no more than the capacity, and a release
does not fail (`credits_conserved`). A request that has been reclaimed counts until its credit is
back (`reclaimed_still_counted`).
-/

namespace KernelAx.Fault

/-! ### Live requests -/

section

variable {K H C : Type}

/-- The requests that a broker holds; when it is dropped it gives back as many credits. -/
def FaultBroker.liveRequests (b : FaultBroker K H C) : Nat :=
  ((List.range b.requestCapacity).filter fun slot => (b.requests slot).record.isSome).length

/-- The credits that an operation gives back. -/
def Answer.refund : Answer K H C → Nat
  | .cancelled (.ok c) => if c.removal.refund then 1 else 0
  | .taken (.ok t) => if t.removal.refund then 1 else 0
  | _ => 0

variable {b : FaultBroker K H C} {s s' : Registry K H C} {o : Operation K H C} {a : Answer K H C}

theorem Answer.refund_le : a.refund ≤ 1 := by
  unfold Answer.refund
  split
  · split <;> decide
  · split <;> decide
  · decide

theorem Answer.refund_of_quiet (h : a.quiet) : a.refund = 0 := by
  cases a with
  | cancelled r | taken r => cases r <;> first | rfl | cases h
  | _ => rfl

namespace Registry

def live (s : Registry K H C) : Finset Nat :=
  (Finset.range s.requestCapacity).filter fun slot => (s.requests slot).isSome

variable {slot : Nat}

theorem Valid.mem_live (hs : s.Valid) : slot ∈ s.live ↔ (s.requests slot).isSome := by
  rw [live, Finset.mem_filter, Finset.mem_range, and_iff_right_iff_imp]
  intro hsome
  obtain ⟨r, request⟩ := Option.isSome_iff_exists.mp hsome
  exact hs.slot_lt request

theorem Valid.live_eq (hs : s.Valid) (hs' : s'.Valid)
    (h : ∀ slot, (s'.requests slot).isSome = (s.requests slot).isSome) : s'.live = s.live := by
  ext slot
  rw [hs.mem_live, hs'.mem_live, h]

theorem isSome_join {waiter generation : Nat} (i : Nat) :
    ((s.join slot waiter generation).requests i).isSome = (s.requests i).isSome := by
  by_cases his : i = slot <;> simp [join, his]

theorem Valid.card_leave (hs : s.Valid) {waiter : Nat} {r : Request K H C}
    (request : s.requests slot = some r) (hs' : (s.leave slot waiter r).Valid) :
    (s.leave slot waiter r).live.card + (if r.waiters.erase waiter = [] then 1 else 0)
      = s.live.card := by
  split
  · next hlast =>
      have hlive : (s.leave slot waiter r).live = s.live.erase slot := by
        ext i
        rw [hs'.mem_live, Finset.mem_erase, hs.mem_live]
        by_cases his : i = slot
        · simp [Registry.leave, his, hlast]
        · simp [Registry.leave, his]
      rw [hlive, Finset.card_erase_add_one]
      exact hs.mem_live.mpr (by rw [request]; rfl)
  · next hlast =>
      refine congrArg Finset.card (hs.live_eq hs' fun i => ?_)
      by_cases his : i = slot
      · simp [Registry.leave, his, hlast, request]
      · simp [Registry.leave, his]

theorem Step.card_live (step : s.Step o a s') (hs : s.Valid) :
    s'.live.card + a.refund = s.live.card + a.created.toList.length := by
  have hs' := step.valid hs
  cases step with
  | join => exact congrArg Finset.card (hs.live_eq hs' isSome_join)
  | @create handler key credit slot generation waiter waiterGeneration lt free =>
    have hlive : ((s.openRequest slot generation handler key).join slot waiter
        waiterGeneration).live = insert slot s.live := by
      ext i
      rw [hs'.mem_live, isSome_join, Finset.mem_insert, hs.mem_live]
      by_cases his : i = slot
      · simp [openRequest, his]
      · simp [openRequest, his]
    have hslot : slot ∉ s.live := by
      rw [hs.mem_live, free]
      exact Bool.false_ne_true
    rw [hlive, Finset.card_insert_of_notMem hslot]
    rfl
  | claim => exact congrArg Finset.card (hs.live_eq hs' (isSome_setState _ _))
  | settle quiet consistent settles =>
    rw [Answer.refund_of_quiet quiet, (Answer.of_quiet quiet).1]
    exact congrArg Finset.card (hs.live_eq hs' settles.live.2)
  | cancel token_eq request mem result refund | take token_eq request mem result refund =>
    refine Eq.trans ?_ (hs.card_leave request hs')
    simp [Answer.refund, refund]

end Registry

theorem Refines.liveRequests (h : Refines b s) : b.liveRequests = s.live.card := by
  have hsome : ∀ slot, (b.requests slot).record.isSome = (s.requests slot).isSome := by
    intro slot
    have hbody := congrArg Option.isSome (h.requests.body slot)
    rwa [FaultBroker.body, Option.isSome_map, Option.isSome_map] at hbody
  unfold FaultBroker.liveRequests
  simp only [hsome, h.requests.capacity]
  exact congrArg List.length (List.filter_congr fun slot _ => Bool.decide_eq_true.symm)

/-- An admission by a broker that is bound to the pool takes a credit if it opens a request. -/
def FaultBroker.needsCredit [DecidableEq K] [DecidableEq H] (b : FaultBroker K H C) (handler : H)
    (key : K) : Bool :=
  b.creditPool && match b.plan handler key with
    | .ok p => !p.coalesced
    | .error _ => false

variable [DecidableEq K] [DecidableEq H] [FaultRangeKey K]

/-- A bound broker opens a request if and only if it needs a credit for it and gets it. -/
theorem Refines.created_admitFault (h : Refines b s) (pooled : b.creditPool) (handler : H) (key : K)
    (credit : Bool) :
    ((s.perform (.admitFault handler key credit)).1.created.isSome
      = (b.needsCredit handler key && credit)) := by
  have hpool : s.creditPool = true := h.requests.creditPool.symm.trans pooled
  show (Answer.created (.admitted (s.admitFault handler key credit).1)).isSome = _
  unfold FaultBroker.needsCredit Registry.admitFault
  rw [pooled, Bool.true_and]
  cases hrequest : s.chooseRequest handler key with
  | error e => simp [plan_error h (.inl hrequest), Answer.created]
  | ok choice =>
    cases hwaiter : s.chooseWaiter with
    | error e => simp [plan_error h (.inr ⟨⟨_, hrequest⟩, hwaiter⟩), Answer.created]
    | ok choice' =>
      obtain ⟨slot, generation, coalesced⟩ := choice
      obtain ⟨waiter, waiterGeneration⟩ := choice'
      cases coalesced with
      | true =>
        obtain ⟨r, request, -⟩ := Registry.chooseRequest_eq_true hrequest
        simp [plan_join h hrequest hwaiter request, Answer.created]
      | false => cases credit <;> simp [plan_open h hrequest hwaiter, Answer.created, hpool]

end

/-! ### The pool -/

inductive CreditPoolConfigError
  | unboundedCapacity
  deriving DecidableEq, Repr

/-- The credits of a pool: how many there are and how many are taken. -/
structure RequestCreditPool where
  capacity : Nat
  liveRequests : Nat
  deriving DecidableEq, Repr

namespace RequestCreditPool

def tryNew (capacity : UInt64) : Except CreditPoolConfigError RequestCreditPool :=
  if capacity.toNat = usizeMax then .error .unboundedCapacity else .ok ⟨capacity.toNat, 0⟩

/-- What `try_acquire` writes over `current`. -/
def acquired (capacity current : Nat) : Option Nat :=
  if capacity ≤ current then none
  else if current + 1 ≤ usizeMax then some (current + 1)
  else none

/-- What `try_release` writes over `current`. -/
def released (count current : Nat) : Option Nat :=
  if count ≤ current then some (current - count) else none

variable {current : Nat}

theorem acquired_eq_some {capacity next : Nat} (h : acquired capacity current = some next) :
    current < capacity ∧ next = current + 1 := by
  unfold acquired at h
  split at h
  · cases h
  · next hlt =>
      split at h
      · exact ⟨Nat.lt_of_not_le hlt, (Option.some.inj h).symm⟩
      · cases h

theorem released_eq_some {count next : Nat} (h : released count current = some next) :
    next + count = current := by
  unfold released at h
  split at h
  · cases h
    omega
  · cases h

theorem released_ne_none {count : Nat} (h : count ≤ current) : released count current ≠ none := by
  rw [released, if_pos h]
  exact Option.some_ne_none _

end RequestCreditPool

open RequestCreditPool

/-- How far an update of the counter has come: it has read a value, it has been refused, or it has
been made. -/
inductive Progress
  | again (current : Nat)
  | refused
  | done
  deriving DecidableEq, Repr

/-- One round of `try_update_usize`, which first loads the counter and then tries to exchange it;
the exchange is weak and may fail without cause. -/
def tryUpdate (update : Nat → Option Nat) (live : Nat) : Option Nat → List (Nat × Progress)
  | none => [(live, .again live)]
  | some current =>
    match update current with
    | none => [(live, .refused)]
    | some next =>
      if live = current then [(next, .done), (live, .again live)] else [(live, .again live)]

theorem mem_tryUpdate {update : Nat → Option Nat} {live live' : Nat} {current : Option Nat}
    {progress : Progress} (h : (live', progress) ∈ tryUpdate update live current) :
    match progress with
    | .again c => live' = live ∧ c = live
    | .refused => live' = live ∧ ∃ c, current = some c ∧ update c = none
    | .done => update live = some live' := by
  unfold tryUpdate at h
  cases current with
  | none =>
    cases List.mem_singleton.mp h
    exact ⟨rfl, rfl⟩
  | some current =>
    dsimp only at h
    cases hupdate : update current with
    | none =>
      rw [hupdate] at h
      cases List.mem_singleton.mp h
      exact ⟨rfl, current, rfl, hupdate⟩
    | some next =>
      rw [hupdate] at h
      dsimp only at h
      split at h
      · next heq =>
          rcases List.mem_cons.mp h with h | h
          · cases h
            exact heq ▸ hupdate
          · cases List.mem_singleton.mp h
            exact ⟨rfl, rfl⟩
      · cases List.mem_singleton.mp h
        exact ⟨rfl, rfl⟩

/-! ### Brokers at the pool -/

/-- A place for a broker. The operations take the broker by a mutable reference, so that no more
than one of them is in progress. -/
inductive Holder (K H C : Type)
  | absent
  | rest (b : FaultBroker K H C)
  /-- in `try_acquire`, for a request that is to be opened -/
  | acquiring (b : FaultBroker K H C) (handler : H) (key : K) (current : Option Nat)
  /-- the credit is taken and the request not yet written -/
  | reserved (b : FaultBroker K H C) (handler : H) (key : K)
  /-- in `release_exact`, for a request that has been reclaimed -/
  | releasing (b : FaultBroker K H C) (current : Option Nat)
  /-- in `release_exact`, for the requests of a broker that is dropped -/
  | dropping (b : FaultBroker K H C) (count : Nat) (current : Option Nat)
  | panicked

namespace Holder

variable {K H C : Type}

/-- The requests of the broker that hold a credit. -/
def credits : Holder K H C → Nat
  | .absent | .panicked => 0
  | .rest b | .acquiring b _ _ _ | .reserved b _ _ | .releasing b _ | .dropping b _ _ =>
    if b.creditPool then b.liveRequests else 0

/-- The credits that an operation in progress has in hand: the one it has reserved, or the one of a
request it has reclaimed. -/
def inHand : Holder K H C → Nat
  | .reserved _ _ _ | .releasing _ _ => 1
  | _ => 0

/-- The credit that an admission has reserved. -/
def reservations : Holder K H C → Nat
  | .reserved _ _ _ => 1
  | _ => 0

/-- The broker is dropped; the credits of its requests go back to the pool. -/
def drop (b : FaultBroker K H C) : Holder K H C :=
  if b.creditPool then
    if b.liveRequests = 0 then .absent else .dropping b b.liveRequests none
  else .absent

variable [DecidableEq K] [DecidableEq H] [FaultRangeKey K]

/-- The operation does what it does to the broker. -/
def finish (o : Operation K H C) (b : FaultBroker K H C) : Holder K H C :=
  match b.perform o with
  | none => .panicked
  | some (a, b') => if b.creditPool ∧ a.refund ≠ 0 then .releasing b' none else .rest b'

/-- The operation is called; an admission asks the pool for a credit first if it needs one. -/
def call (o : Operation K H C) (b : FaultBroker K H C) : Holder K H C :=
  match o with
  | .admitFault handler key _ =>
    if b.needsCredit handler key then .acquiring b handler key none else finish o b
  | _ => finish o b

/-- What the next access to the pool can do. -/
def advance (pool : RequestCreditPool) : Holder K H C → List (Nat × Holder K H C)
  | .acquiring b handler key current =>
    (tryUpdate (acquired pool.capacity) pool.liveRequests current).map
      fun (live, progress) => (live, match progress with
        | .again current => .acquiring b handler key (some current)
        | .refused => .rest b
        | .done => .reserved b handler key)
  | .reserved b handler key => [(pool.liveRequests, finish (.admitFault handler key true) b)]
  | .releasing b current =>
    (tryUpdate (released 1) pool.liveRequests current).map
      fun (live, progress) => (live, match progress with
        | .again current => .releasing b (some current)
        | .refused => .panicked
        | .done => .rest b)
  | .dropping b count current =>
    (tryUpdate (released count) pool.liveRequests current).map
      fun (live, progress) => (live, match progress with
        | .again current => .dropping b count (some current)
        | .refused => .panicked
        | .done => .absent)
  | .absent | .rest _ | .panicked => []

end Holder

open Holder

/-- The pool and the places for brokers, each for brokers of its own types. -/
structure Sharing {ι : Type} (K H C : ι → Type) where
  pool : RequestCreditPool
  holders : (i : ι) → Holder (K i) (H i) (C i)

namespace Sharing

variable {ι : Type} {K H C : ι → Type}

def initial (pool : RequestCreditPool) : Sharing K H C := ⟨pool, fun _ => .absent⟩

section

variable [DecidableEq ι] [∀ i, DecidableEq (K i)] [∀ i, DecidableEq (H i)]
  [∀ i, FaultRangeKey (K i)]

/-- A broker is made, called or dropped, or the operation of one goes on. -/
inductive Step (c : Sharing K H C) : Sharing K H C → Prop
  | make {i requestCapacity waiterCapacity creditPool memory b nextBrokerId nextBrokerId'}
      (absent : c.holders i = .absent)
      (new : FaultBroker.tryNew requestCapacity waiterCapacity creditPool memory nextBrokerId
        = .ok (b, nextBrokerId')) : Step c ⟨c.pool, Function.update c.holders i (.rest b)⟩
  | call {i b} (rest : c.holders i = .rest b)
      (o : Operation (K i) (H i) (C i)) :
      Step c ⟨c.pool, Function.update c.holders i (.call o b)⟩
  | drop {i b} (rest : c.holders i = .rest b) :
      Step c ⟨c.pool, Function.update c.holders i (.drop b)⟩
  | act {i live h} (advance : (live, h) ∈ (c.holders i).advance c.pool) :
      Step c ⟨⟨c.pool.capacity, live⟩, Function.update c.holders i h⟩

abbrev Steps (c c' : Sharing K H C) : Prop := Relation.ReflTransGen Step c c'

end

end Sharing

/-! ### Accounting -/

section

variable {K H C : Type} {b : FaultBroker K H C}

/-- The broker has been made and has only performed its operations. -/
def FaultBroker.Sound (b : FaultBroker K H C) : Prop := ∃ s, Refines b s

namespace Holder

def held (h : Holder K H C) : Nat := h.credits + h.inHand

/-- A release has read a counter from which the credits can be taken. -/
def Covers (count : Nat) (current : Option Nat) : Prop := ∀ {c}, current = some c → count ≤ c

def Sound [DecidableEq K] [DecidableEq H] : Holder K H C → Prop
  | .absent => True
  | .rest b => b.Sound
  | .acquiring b handler key _ | .reserved b handler key => b.Sound ∧ b.needsCredit handler key
  | .releasing b current => b.Sound ∧ b.creditPool ∧ Covers 1 current
  | .dropping b count current =>
    b.Sound ∧ b.creditPool ∧ count = b.liveRequests ∧ Covers count current
  | .panicked => False

end Holder

variable {s : Registry K H C}

theorem Registry.Settles.creditPool_eq {s' : Registry K H C} {n : Nat} (settles : s.Settles n s') :
    s'.creditPool = s.creditPool := by
  induction settles with
  | refl => rfl
  | tail _ settle ih =>
    obtain ⟨slot, r, state, -, -, rfl⟩ := settle.becomes
    exact ih

theorem Registry.Step.creditPool_eq {s' : Registry K H C} {o : Operation K H C} {a : Answer K H C}
    (step : s.Step o a s') : s'.creditPool = s.creditPool := by
  cases step with
  | settle quiet consistent settles => exact settles.creditPool_eq
  | _ => rfl

theorem liveRequests_tryNew {requestCapacity waiterCapacity : UInt64} {creditPool memory : Bool}
    {nextBrokerId nextBrokerId' : Nat}
    (hnew : FaultBroker.tryNew requestCapacity waiterCapacity creditPool memory nextBrokerId
      = .ok (b, nextBrokerId')) : b.liveRequests = 0 := by
  rw [(refines_tryNew hnew).liveRequests]
  simp [Registry.live, Registry.new]

variable [DecidableEq K] [DecidableEq H]

theorem FaultBroker.creditPool_of_needsCredit {handler : H} {key : K}
    (h : b.needsCredit handler key) : b.creditPool := by
  unfold FaultBroker.needsCredit at h
  exact (Bool.and_eq_true_iff.mp h).1

variable [FaultRangeKey K]

/-- An operation that is not to open a request, or has a credit for it. -/
theorem FaultBroker.Sound.finish (h : b.Sound) (o : Operation K H C) (credit : Nat)
    (created : b.creditPool → ∀ {s}, Refines b s →
      (s.perform o).1.created.toList.length = credit) :
    (Holder.finish o b).Sound ∧
      (Holder.finish o b).held = (Holder.rest b).held + if b.creditPool then credit else 0 := by
  obtain ⟨s, hrefines⟩ := h
  obtain ⟨b', hperform, hrefines'⟩ := refines_perform hrefines o
  have step := Registry.perform_step hrefines.valid o
  have hcard := step.card_live hrefines.valid
  rw [← hrefines.liveRequests, ← hrefines'.liveRequests] at hcard
  have hpool : b'.creditPool = b.creditPool := by
    rw [hrefines'.requests.creditPool, step.creditPool_eq, hrefines.requests.creditPool]
  unfold Holder.finish
  rw [hperform]
  dsimp only
  by_cases hpooled : b.creditPool
  · rw [created hpooled hrefines] at hcard
    have hle := (s.perform o).1.refund_le
    split
    · next hrefund =>
        refine ⟨⟨⟨_, hrefines'⟩, hpool.trans hpooled, fun h => nomatch h⟩, ?_⟩
        simp only [Holder.held, Holder.credits, Holder.inHand, hpool, hpooled, if_true]
        omega
    · next hrefund =>
        refine ⟨⟨_, hrefines'⟩, ?_⟩
        have hzero : (s.perform o).1.refund = 0 := by simpa [hpooled] using hrefund
        simp only [Holder.held, Holder.credits, Holder.inHand, hpool, hpooled, if_true]
        omega
  · rw [if_neg fun hrefund => hpooled hrefund.1]
    exact ⟨⟨_, hrefines'⟩, by simp [Holder.held, Holder.credits, Holder.inHand, hpool, hpooled]⟩

theorem Registry.created_perform {o : Operation K H C}
    (h : ∀ {handler key credit}, o ≠ .admitFault handler key credit) :
    (s.perform o).1.created = none := by
  cases o with
  | admitFault handler key credit => exact absurd rfl h
  | _ => rfl

theorem FaultBroker.Sound.call (h : b.Sound) (o : Operation K H C) :
    (Holder.call o b).Sound ∧ (Holder.call o b).held = (Holder.rest b).held := by
  -- what does not open a request ends with the credits it began with
  have hfinish : (b.creditPool → ∀ {s}, Refines b s → (s.perform o).1.created = none) →
      (Holder.finish o b).Sound ∧ (Holder.finish o b).held = (Holder.rest b).held := by
    intro hnone
    have hsound := h.finish o 0 fun hpooled s hs => by rw [hnone hpooled hs]; rfl
    simpa using hsound
  cases o with
  | admitFault handler key credit =>
    unfold Holder.call
    dsimp only
    split
    · next hneeds => exact ⟨⟨h, hneeds⟩, rfl⟩
    · next hneeds =>
        refine hfinish fun hpooled s hs => ?_
        rw [← Option.isNone_iff_eq_none, ← Option.not_isSome, hs.created_admitFault hpooled]
        simp [hneeds]
  | _ => exact hfinish fun _ s _ => Registry.created_perform (fun h => nomatch h)

theorem FaultBroker.Sound.finish_reserved (h : b.Sound) {handler : H} {key : K}
    (needs : b.needsCredit handler key) :
    (Holder.finish (.admitFault handler key true) b).Sound ∧
      (Holder.finish (.admitFault handler key true) b).held
        = (Holder.reserved b handler key).held := by
  have hpooled := FaultBroker.creditPool_of_needsCredit needs
  have hsound := h.finish (.admitFault handler key true) 1 fun hpooled s hs => by
    have hcreated := hs.created_admitFault hpooled handler key true
    rw [needs, Bool.and_true] at hcreated
    obtain ⟨token, htoken⟩ := Option.isSome_iff_exists.mp hcreated
    rw [htoken]
    rfl
  simpa [Holder.held, Holder.credits, Holder.inHand, hpooled] using hsound

omit [FaultRangeKey K] in
theorem FaultBroker.Sound.drop (h : b.Sound) :
    (Holder.drop b).Sound ∧ (Holder.drop b).held = (Holder.rest b).held := by
  unfold Holder.drop
  split
  · next hpooled =>
      split
      · next hzero => exact ⟨trivial, by simp [Holder.held, Holder.credits, Holder.inHand, hzero]⟩
      · exact ⟨⟨h, hpooled, rfl, fun h => nomatch h⟩, rfl⟩
  · next hpooled => exact ⟨trivial, by simp [Holder.held, Holder.credits, Holder.inHand, hpooled]⟩

theorem finish_ne_absent (o : Operation K H C) (b : FaultBroker K H C) : finish o b ≠ .absent := by
  unfold finish
  split
  · exact nofun
  · split <;> exact nofun

/-- An access to the pool moves what the place holds and the counter together. -/
theorem Holder.Sound.advance {holder holder' : Holder K H C} {pool : RequestCreditPool}
    {live : Nat} (h : holder.Sound) (held_le : holder.held ≤ pool.liveRequests)
    (le : pool.liveRequests ≤ pool.capacity) (advance : (live, holder') ∈ holder.advance pool) :
    holder'.Sound ∧ live + holder.held = pool.liveRequests + holder'.held ∧
      live ≤ pool.capacity ∧ (holder' = .absent → holder.inHand = 0) := by
  cases holder with
  | absent | rest b | panicked => cases advance
  | acquiring b handler key current =>
    obtain ⟨hsound, hneeds⟩ := h
    obtain ⟨⟨live', progress⟩, hmem, heq⟩ := List.mem_map.mp advance
    cases heq
    have hupdate := mem_tryUpdate hmem
    cases progress with
    | again c =>
      obtain ⟨rfl, -⟩ := hupdate
      exact ⟨⟨hsound, hneeds⟩, rfl, le, fun _ => rfl⟩
    | refused =>
      obtain ⟨rfl, -⟩ := hupdate
      exact ⟨hsound, rfl, le, fun _ => rfl⟩
    | done =>
      obtain ⟨hlt, rfl⟩ := acquired_eq_some hupdate
      exact ⟨⟨hsound, hneeds⟩, Nat.add_right_comm .., hlt, fun h => nomatch h⟩
  | reserved b handler key =>
    obtain ⟨hsound, hneeds⟩ := h
    cases List.mem_singleton.mp advance
    obtain ⟨hsound', hheld⟩ := hsound.finish_reserved hneeds
    exact ⟨hsound', by rw [hheld], le, fun h => absurd h (finish_ne_absent _ b)⟩
  | releasing b current =>
    obtain ⟨hsound, hpooled, hcovers⟩ := h
    obtain ⟨⟨live', progress⟩, hmem, heq⟩ := List.mem_map.mp advance
    cases heq
    have hupdate := mem_tryUpdate hmem
    cases progress with
    | again c =>
      obtain ⟨rfl, rfl⟩ := hupdate
      refine ⟨⟨hsound, hpooled, ?_⟩, rfl, le, fun h => nomatch h⟩
      rintro _ ⟨⟩
      exact Nat.le_trans (Nat.le_add_left _ _) held_le
    | refused =>
      obtain ⟨-, c, hc, hnone⟩ := hupdate
      exact absurd hnone (released_ne_none (hcovers hc))
    | done =>
      have hlive := released_eq_some hupdate
      refine ⟨hsound, ?_, by omega, fun h => nomatch h⟩
      simp only [held, credits, inHand]
      omega
  | dropping b count current =>
    obtain ⟨hsound, hpooled, rfl, hcovers⟩ := h
    have hheld : (dropping b b.liveRequests current).held = b.liveRequests := by
      simp [held, credits, inHand, hpooled]
    obtain ⟨⟨live', progress⟩, hmem, heq⟩ := List.mem_map.mp advance
    cases heq
    have hupdate := mem_tryUpdate hmem
    cases progress with
    | again c =>
      obtain ⟨rfl, rfl⟩ := hupdate
      refine ⟨⟨hsound, hpooled, rfl, ?_⟩, rfl, le, fun _ => rfl⟩
      rintro _ ⟨⟩
      exact hheld ▸ held_le
    | refused =>
      obtain ⟨-, c, hc, hnone⟩ := hupdate
      exact absurd hnone (released_ne_none (hcovers hc))
    | done =>
      have hlive := released_eq_some hupdate
      exact ⟨trivial, hheld ▸ hlive, by omega, fun _ => rfl⟩

end

/-! ### Runs -/

namespace Sharing

variable {ι : Type} {K H C : ι → Type} [∀ i, DecidableEq (K i)] [∀ i, DecidableEq (H i)]

/-- The counter accounts for every credit that a broker holds or has in hand. -/
structure Valid (c : Sharing K H C) : Prop where
  counted : Tally (fun i => (c.holders i).held) c.pool.liveRequests
  bounded : c.pool.liveRequests ≤ c.pool.capacity
  sound : ∀ i, (c.holders i).Sound

theorem valid_initial {capacity : UInt64} {pool : RequestCreditPool}
    (hnew : tryNew capacity = .ok pool) :
    (initial pool : Sharing K H C).Valid := by
  unfold tryNew at hnew
  split at hnew
  · cases hnew
  · cases hnew
    exact ⟨Tally.zero, Nat.zero_le _, fun _ => trivial⟩

variable [DecidableEq ι] [∀ i, FaultRangeKey (K i)] {c c' : Sharing K H C}

/-- What a step does: one place changes, and the counter with what it holds. -/
theorem Step.balance (step : c.Step c') (hc : c.Valid) :
    ∃ i h, c'.holders = Function.update c.holders i h ∧ c'.pool.capacity = c.pool.capacity ∧
      h.Sound ∧ c'.pool.liveRequests + (c.holders i).held = c.pool.liveRequests + h.held ∧
      c'.pool.liveRequests ≤ c.pool.capacity ∧ (h = .absent → (c.holders i).inHand = 0) := by
  cases step with
  | @make i requestCapacity waiterCapacity creditPool memory b _ _ absent new =>
    refine ⟨i, .rest b, rfl, rfl, ⟨_, refines_tryNew new⟩, ?_, hc.bounded, fun h => nomatch h⟩
    rw [absent]
    simp [held, credits, inHand, liveRequests_tryNew new]
  | @call i b rest o =>
    have hsound := hc.sound i
    rw [rest] at hsound
    obtain ⟨hsound', hheld⟩ := FaultBroker.Sound.call hsound o
    exact ⟨i, _, rfl, rfl, hsound', by rw [rest, hheld], hc.bounded, fun _ => by rw [rest]; rfl⟩
  | @drop i b rest =>
    have hsound := hc.sound i
    rw [rest] at hsound
    obtain ⟨hsound', hheld⟩ := FaultBroker.Sound.drop hsound
    exact ⟨i, _, rfl, rfl, hsound', by rw [rest, hheld], hc.bounded, fun _ => by rw [rest]; rfl⟩
  | @act i live h advance =>
    exact ⟨i, h, rfl, rfl, (hc.sound i).advance (hc.counted.le i) hc.bounded advance⟩

theorem Step.valid (step : c.Step c') (hc : c.Valid) : c'.Valid := by
  obtain ⟨i, h, hholders, hcapacity, hsound, hbalance, hle, -⟩ := step.balance hc
  refine ⟨?_, hcapacity ▸ hle, fun j => ?_⟩
  · rw [hholders]
    exact hc.counted.update_fam hbalance
  · rw [hholders]
    by_cases hji : j = i
    · subst hji
      rwa [Function.update_self]
    · rw [Function.update_of_ne hji]
      exact hc.sound j

theorem Steps.valid (steps : c.Steps c') (hc : c.Valid) : c'.Valid := by
  induction steps with
  | refl => exact hc
  | tail _ step ih => exact step.valid ih

theorem Step.dropped (step : c.Step c') (hc : c.Valid) {i : ι} (present : c.holders i ≠ .absent)
    (absent : c'.holders i = .absent) :
    c'.pool.liveRequests + (c.holders i).credits = c.pool.liveRequests := by
  obtain ⟨j, h, hholders, -, -, hbalance, -, hinHand⟩ := step.balance hc
  rw [hholders] at absent
  by_cases hij : i = j
  · subst hij
    rw [Function.update_self] at absent
    subst absent
    rw [held, hinHand rfl] at hbalance
    exact hbalance
  · rw [Function.update_of_ne hij] at absent
    exact absurd absent present

/-- **Credits are conserved.**  Whatever the brokers of a pool do, and however their accesses to it
interleave, its counter is the sum of the live requests and of the credits on the way to the pool or
from it. The counter is within the capacity, no release underflows, and a dropped broker has given
back one credit for each of its live requests. -/
theorem credits_conserved {capacity : UInt64} {pool : RequestCreditPool}
    (hnew : tryNew capacity = .ok pool) (reached : (initial pool).Steps c) :
    Tally (fun i => (c.holders i).credits + (c.holders i).inHand) c.pool.liveRequests ∧
    c.pool.liveRequests ≤ c.pool.capacity ∧
    (∀ i, c.holders i ≠ .panicked) ∧
    ∀ c', c.Step c' → ∀ i, c.holders i ≠ .absent → c'.holders i = .absent →
      c'.pool.liveRequests + (c.holders i).credits = c.pool.liveRequests := by
  have hc : c.Valid := Steps.valid reached (valid_initial hnew)
  refine ⟨hc.counted, hc.bounded, fun i hpanicked => ?_, fun c' step i present absent => ?_⟩
  · have hsound := hc.sound i
    rw [hpanicked] at hsound
    exact hsound
  · exact step.dropped hc present absent

/-! ### Brokers that share a pool -/

/-- What is done next: an access to the pool has the first of the outcomes it can have. -/
inductive Move (K H C : ι → Type)
  | make (i : ι) (requestCapacity waiterCapacity : UInt64) (nextBrokerId : Nat)
  | call (i : ι) (o : Operation (K i) (H i) (C i))
  | drop (i : ι)
  | act (i : ι)

def move (c : Sharing K H C) : Move K H C → Option (Sharing K H C)
  | .make i requestCapacity waiterCapacity nextBrokerId =>
    match c.holders i, FaultBroker.tryNew requestCapacity waiterCapacity true true nextBrokerId with
    | .absent, .ok (b, _) => some ⟨c.pool, Function.update c.holders i (.rest b)⟩
    | _, _ => none
  | .call i o =>
    match c.holders i with
    | .rest b => some ⟨c.pool, Function.update c.holders i (.call o b)⟩
    | _ => none
  | .drop i =>
    match c.holders i with
    | .rest b => some ⟨c.pool, Function.update c.holders i (.drop b)⟩
    | _ => none
  | .act i =>
    match (c.holders i).advance c.pool with
    | [] => none
    | (live, h) :: _ => some ⟨⟨c.pool.capacity, live⟩, Function.update c.holders i h⟩

theorem step_of_move {m : Move K H C} (h : c.move m = some c') : c.Step c' := by
  unfold move at h
  split at h
  · split at h
    · next absent new =>
        cases h
        exact .make absent new
    · cases h
  · split at h
    · next rest =>
        cases h
        exact .call rest _
    · cases h
  · split at h
    · next rest =>
        cases h
        exact .drop rest
    · cases h
  · split at h
    · cases h
    · next hadvance =>
        cases h
        exact .act (hadvance ▸ List.mem_cons_self)

theorem steps_of_moves {ms : List (Move K H C)} (h : ms.foldlM move c = some c') : c.Steps c' := by
  induction ms generalizing c with
  | nil =>
    cases h
    exact .refl
  | cons m ms ih =>
    rw [List.foldlM_cons, Option.bind_eq_bind, Option.bind_eq_some_iff] at h
    obtain ⟨c₁, hmove, hrest⟩ := h
    exact .head (step_of_move hmove) (ih hrest)

/-- Two brokers open a request each, and the waiter of the second is cancelled: the request is
reclaimed, and its credit is on the way to the pool. -/
abbrev reclaimed : List (Move (ι := Bool) (fun _ => Page) (fun _ => Nat) fun _ => Nat) :=
  [.make false 1 1 1, .make true 1 1 2, .call false (.admitFault 1 ⟨4096⟩ true), .act false,
    .act false, .act false, .call true (.admitFault 1 ⟨4096⟩ true), .act true, .act true, .act true,
    .call true (.cancelWaiter ⟨2, 0, 1⟩)]

/-- The credit is returned and the first broker is about to return that of its own, dropped. -/
abbrev refunded := reclaimed ++ [.act true, .act true, .drop false, .act false]

theorem credits_conserved_shared :
    ∃ c c' : Sharing (ι := Bool) (fun _ => Page) (fun _ => Nat) (fun _ => Nat),
      refunded.foldlM move (initial ⟨2, 0⟩) = some c ∧ c.move (.act false) = some c' ∧
      Tally (fun i => (c.holders i).credits + (c.holders i).inHand) c.pool.liveRequests ∧
      (c.holders false).credits = 1 ∧ c.pool.liveRequests = 1 ∧
      c'.pool.liveRequests + (c.holders false).credits = c.pool.liveRequests := by
  obtain ⟨c, c', hmoves, hmove, hcredits, hlive, hpresent, habsent⟩ :
      ∃ c c' : Sharing (ι := Bool) (fun _ => Page) (fun _ => Nat) (fun _ => Nat),
      refunded.foldlM move (initial ⟨2, 0⟩) = some c ∧ c.move (.act false) = some c' ∧
      (c.holders false).credits = 1 ∧ c.pool.liveRequests = 1 ∧ c.holders false ≠ .absent ∧
      c'.holders false = .absent :=
    ⟨_, _, rfl, rfl, rfl, rfl, (by intro h; cases h), rfl⟩
  have hnew : tryNew 2 = .ok ⟨2, 0⟩ := rfl
  obtain ⟨htally, -, -, hdrop⟩ := credits_conserved hnew (steps_of_moves hmoves)
  exact ⟨c, c', hmoves, hmove, htally, hcredits, hlive,
    hdrop c' (step_of_move hmove) false hpresent habsent⟩

/-- **A reclaimed request is counted until its credit is returned.**  One request is live and no
reservation is in progress, and the counter is two. -/
theorem reclaimed_still_counted :
    ∃ c : Sharing (ι := Bool) (fun _ => Page) (fun _ => Nat) (fun _ => Nat),
      (initial ⟨2, 0⟩).Steps c ∧ c.pool.liveRequests = 2 ∧
      Tally (fun i => (c.holders i).credits + (c.holders i).reservations) 1 := by
  obtain ⟨c, hmoves, hlive, hfalse, htrue⟩ :
      ∃ c : Sharing (ι := Bool) (fun _ => Page) (fun _ => Nat) (fun _ => Nat),
      reclaimed.foldlM move (initial ⟨2, 0⟩) = some c ∧ c.pool.liveRequests = 2 ∧
      (c.holders false).credits + (c.holders false).reservations = 1 ∧
      (c.holders true).credits + (c.holders true).reservations = 0 :=
    ⟨_, rfl, rfl, rfl, rfl⟩
  refine ⟨c, steps_of_moves hmoves, hlive, {false}, fun i hi => ?_, ?_⟩
  · cases i with
    | false => exact absurd (Finset.mem_singleton_self _) hi
    | true => exact htrue
  · rw [Finset.sum_singleton, hfalse]

end Sharing

end KernelAx.Fault
