import Mathlib.Data.List.Perm.Subperm
import KernelAx.Fault.Registry

/-!
# Fault broker — Validity

How the requests of a registry, the owners of its waiters and its queue belong together (`Valid`),
and that each of the four changes keeps it: a waiter joins a request, a request is opened for a
waiter, the state of a request goes on, a waiter leaves.
-/

namespace KernelAx.Fault

variable {K H C : Type}

/-! ### States of a request -/

namespace RequestState

/-- The result of a request, whether its waiters can see it or not. -/
def result : RequestState C → Option C
  | .pending | .delivered => none
  | .deferredPending completion | .deferredDelivered completion | .visible completion =>
    some completion

/-- The transitions of a request. -/
inductive Becomes : RequestState C → RequestState C → Prop
  | claim : Becomes .pending .delivered
  | claimDeferred {completion} :
      Becomes (.deferredPending completion) (.deferredDelivered completion)
  | deferPending {completion} : Becomes .pending (.deferredPending completion)
  | deferDelivered {completion} : Becomes .delivered (.deferredDelivered completion)
  | completePending {completion} : Becomes .pending (.visible completion)
  | completeDelivered {completion} : Becomes .delivered (.visible completion)
  | releasePending {completion} : Becomes (.deferredPending completion) (.visible completion)
  | releaseDelivered {completion} : Becomes (.deferredDelivered completion) (.visible completion)

variable {state state' : RequestState C} {completion : C}

theorem Becomes.not_visible (h : state.Becomes state') : state.isVisible = false := by
  cases h <;> rfl

/-- A result stays. -/
theorem Becomes.result (h : state.Becomes state') (hresult : state.result = some completion) :
    state'.result = some completion := by
  cases h <;> first | exact hresult | cases hresult

/-- A request does not come back to the queue. -/
theorem Becomes.isPending (h : state.Becomes state') (hpending : state'.isPending) :
    state.isPending := by
  cases h <;> first | rfl | cases hpending

theorem hidden_of_isPending (h : state.isPending) : state.isVisible = false := by
  cases state with
  | visible completion => cases h
  | _ => rfl

theorem waiterState_of_hidden (h : state.isVisible = false) : state.waiterState = .active := by
  cases state with
  | visible completion => cases h
  | _ => rfl

theorem becomes_of_claimed (h : state.claimed = some state') : state.Becomes state' := by
  cases state with
  | pending => cases h; exact .claim
  | deferredPending completion => cases h; exact .claimDeferred
  | _ => cases h

/-- A claimed request was in the queue and is not any more; its waiters do not see that. -/
theorem isPending_of_claimed (h : state.claimed = some state') :
    state.isPending ∧ state'.isPending = false ∧ state'.isVisible = false := by
  cases state with
  | pending | deferredPending completion => cases h; exact ⟨rfl, rfl, rfl⟩
  | _ => cases h

theorem claimed_of_isPending (h : state.isPending) : ∃ state', state.claimed = some state' := by
  cases state with
  | pending | deferredPending completion => exact ⟨_, rfl⟩
  | _ => cases h

variable {visibility : CompletionVisibility} {unlink : Bool}

theorem becomes_of_completion {publish : Bool}
    (h : FaultBroker.completion? (some state) completion visibility
      = some (state', unlink, publish)) : state.Becomes state' := by
  cases state with
  | pending =>
    cases visibility with
    | visible => cases h; exact .completePending
    | deferred => cases h; exact .deferPending
  | delivered =>
    cases visibility with
    | visible => cases h; exact .completeDelivered
    | deferred => cases h; exact .deferDelivered
  | _ => cases h

theorem becomes_of_deferred (h : FaultBroker.deferred? (some state) = some (completion, unlink)) :
    state.Becomes (.visible completion) := by
  cases state with
  | deferredPending completion => cases h; exact .releasePending
  | deferredDelivered completion => cases h; exact .releaseDelivered
  | _ => cases h

/-- A result that is published is visible, and the request leaves the queue if it is there. -/
theorem completion_publish
    (h : FaultBroker.completion? (some state) completion visibility = some (state', unlink, true)) :
    state' = .visible completion ∧ unlink = state.isPending := by
  cases state with
  | pending | delivered => cases visibility <;> cases h; exact ⟨rfl, rfl⟩
  | _ => cases h

/-- A result that is not published leaves the request where it is. -/
theorem completion_hide
    (h : FaultBroker.completion? (some state) completion visibility
      = some (state', unlink, false)) :
    state'.isVisible = false ∧ unlink = false ∧ state'.isPending = state.isPending := by
  cases state with
  | pending | delivered => cases visibility <;> cases h; exact ⟨rfl, rfl, rfl⟩
  | _ => cases h

theorem deferred_unlink (h : FaultBroker.deferred? (some state) = some (completion, unlink)) :
    unlink = state.isPending := by
  cases state with
  | deferredPending completion | deferredDelivered completion => cases h; rfl
  | _ => cases h

end RequestState

/-! ### Validity -/

namespace Registry

/-- The invariant of the registry. -/
structure Valid (s : Registry K H C) : Prop where
  slot_lt : ∀ {slot r}, s.requests slot = some r → slot < s.requestCapacity
  waiter_lt : ∀ {waiter slot}, s.owner waiter = some slot → waiter < s.waiterCapacity
  owner_iff : ∀ {waiter slot},
    s.owner waiter = some slot ↔ ∃ r, s.requests slot = some r ∧ waiter ∈ r.waiters
  nodup : ∀ {slot r}, s.requests slot = some r → r.waiters.Nodup
  nonempty : ∀ {slot r}, s.requests slot = some r → r.waiters ≠ []
  queue_nodup : s.queue.Nodup
  mem_queue : ∀ {slot}, slot ∈ s.queue ↔ ∃ r, s.requests slot = some r ∧ r.state.isPending
  unique : ∀ {i j r q}, s.requests i = some r → s.requests j = some q →
    r.state.isVisible = false → q.state.isVisible = false →
    r.handler = q.handler → r.key = q.key → i = j

theorem valid_new {id requestCapacity waiterCapacity : Nat} {creditPool : Bool} :
    (new id requestCapacity waiterCapacity creditPool : Registry K H C).Valid where
  slot_lt h := nomatch h
  waiter_lt h := nomatch h
  owner_iff := by simp [new]
  nodup h := nomatch h
  nonempty h := nomatch h
  queue_nodup := .nil
  mem_queue := by simp [new]
  unique h := nomatch h

/-- The owner of a waiter is the request that has it on its list. -/
def Owned (s : Registry K H C) : Prop :=
  ∀ waiter slot, s.owner waiter = some slot ↔ ∃ r, s.requests slot = some r ∧ waiter ∈ r.waiters

variable {s : Registry K H C} {r : Request K H C} {slot : Nat}

theorem Valid.owned (hs : s.Valid) : s.Owned := fun _ _ => hs.owner_iff

theorem Valid.queue_iff (hs : s.Valid) (slot : Nat) :
    slot ∈ s.queue ↔ ∃ r, s.requests slot = some r ∧ r.state.isPending :=
  hs.mem_queue

/-- A waiter is on the list of one request. -/
theorem Valid.owner_unique (hs : s.Valid) {i j w : Nat} {q : Request K H C}
    (hi : s.requests i = some r) (hr : w ∈ r.waiters) (hj : s.requests j = some q)
    (hq : w ∈ q.waiters) : i = j := by
  have hwi : s.owner w = some i := hs.owner_iff.mpr ⟨r, hi, hr⟩
  have hwj : s.owner w = some j := hs.owner_iff.mpr ⟨q, hj, hq⟩
  exact Option.some.inj (hwi.symm.trans hwj)

/-- There are no more waiters than slots for them. -/
theorem Valid.length_le (hs : s.Valid) (request : s.requests slot = some r) :
    r.waiters.length ≤ s.waiterCapacity := by
  have hsubset : r.waiters ⊆ List.range s.waiterCapacity := fun w hw =>
    List.mem_range.mpr (hs.waiter_lt (hs.owner_iff.mpr ⟨r, request, hw⟩))
  simpa using ((hs.nodup request).subperm hsubset).length_le

theorem Valid.queue_length_le (hs : s.Valid) : s.queue.length ≤ s.requestCapacity := by
  have hsubset : s.queue ⊆ List.range s.requestCapacity := by
    intro slot hslot
    obtain ⟨r, request, -⟩ := hs.mem_queue.mp hslot
    exact List.mem_range.mpr (hs.slot_lt request)
  simpa using (hs.queue_nodup.subperm hsubset).length_le

/-! ### Changes -/

/-- The slot of a waiter that nobody uses, with a generation it has not had. -/
structure Vacant (s : Registry K H C) (waiter generation : Nat) : Prop where
  lt : waiter < s.waiterCapacity
  owner : s.owner waiter = none
  fresh : s.waiterGeneration waiter < generation

variable {s s' : Registry K H C}

/-- What a request of a valid registry is by itself. -/
structure Proper (s : Registry K H C) (slot : Nat) (r : Request K H C) : Prop where
  slot_lt : slot < s.requestCapacity
  waiter_lt : ∀ {waiter}, waiter ∈ r.waiters → waiter < s.waiterCapacity
  nodup : r.waiters.Nodup
  nonempty : r.waiters ≠ []
  unique : ∀ {i q}, s.requests i = some q → r.state.isVisible = false →
    q.state.isVisible = false → r.handler = q.handler → r.key = q.key → slot = i

theorem Valid.proper (hs : s.Valid) (request : s.requests slot = some r) : s.Proper slot r where
  slot_lt := hs.slot_lt request
  waiter_lt hw := hs.waiter_lt (hs.owner_iff.mpr ⟨r, request, hw⟩)
  nodup := hs.nodup request
  nonempty := hs.nonempty request
  unique := hs.unique request

/-- A change of one request: what it is by itself, the owners of its waiters, its place in the
queue. -/
theorem Valid.update {new : Option (Request K H C)} (hs : s.Valid)
    (requests : s'.requests = Function.update s.requests slot new)
    (requestCapacity : s'.requestCapacity = s.requestCapacity)
    (waiterCapacity : s'.waiterCapacity = s.waiterCapacity)
    (proper : ∀ {r}, new = some r → s.Proper slot r)
    (owner_self : ∀ {waiter},
      s'.owner waiter = some slot ↔ ∃ r, new = some r ∧ waiter ∈ r.waiters)
    (owner_of_ne : ∀ {waiter i}, i ≠ slot → (s'.owner waiter = some i ↔ s.owner waiter = some i))
    (queue_nodup : s'.queue.Nodup)
    (queue_self : slot ∈ s'.queue ↔ ∃ r, new = some r ∧ r.state.isPending)
    (queue_of_ne : ∀ {i}, i ≠ slot → (i ∈ s'.queue ↔ i ∈ s.queue)) : s'.Valid := by
  have self : s'.requests slot = new := by simp [requests]
  have of_ne : ∀ {i}, i ≠ slot → s'.requests i = s.requests i := by
    intro i h
    simp [requests, h]
  -- a request is the changed one or as it was
  have hproper : ∀ {i r}, s'.requests i = some r → s.Proper i r := by
    intro i r hi
    by_cases h : i = slot
    · subst h
      exact proper (self.symm.trans hi)
    · exact hs.proper ((of_ne h).symm.trans hi)
  have hunique : ∀ {j r q}, new = some r → s.requests j = some q → r.state.isVisible = false →
      q.state.isVisible = false → r.handler = q.handler → r.key = q.key → slot = j :=
    fun hr hq => (proper hr).unique hq
  constructor
  case slot_lt => exact fun hi => requestCapacity ▸ (hproper hi).slot_lt
  case waiter_lt =>
    intro w i hw
    rw [waiterCapacity]
    by_cases h : i = slot
    · subst h
      obtain ⟨r, hr, hmem⟩ := owner_self.mp hw
      exact (proper hr).waiter_lt hmem
    · exact hs.waiter_lt ((owner_of_ne h).mp hw)
  case owner_iff =>
    intro w i
    by_cases h : i = slot
    · subst h
      rw [owner_self, self]
    · rw [owner_of_ne h, of_ne h, hs.owner_iff]
  case nodup => exact fun hi => (hproper hi).nodup
  case nonempty => exact fun hi => (hproper hi).nonempty
  case queue_nodup => exact queue_nodup
  case mem_queue =>
    intro i
    by_cases h : i = slot
    · subst h
      rw [queue_self, self]
    · rw [queue_of_ne h, of_ne h, hs.mem_queue]
  case unique =>
    intro i j r q hi hj hr hq hhandler hkey
    by_cases h : j = slot
    · subst h
      by_cases h' : i = j
      · exact h'
      · rw [of_ne h'] at hi
        exact (hunique (self.symm.trans hj) hi hq hr hhandler.symm hkey.symm).symm
    · exact (hproper hi).unique ((of_ne h).symm.trans hj) hr hq hhandler hkey

theorem Vacant.not_mem {waiter generation : Nat} (vacant : s.Vacant waiter generation)
    (hs : s.Valid) {i : Nat} (request : s.requests i = some r) : waiter ∉ r.waiters := by
  intro hmem
  have howner := hs.owner_iff.mpr ⟨r, request, hmem⟩
  rw [vacant.owner] at howner
  cases howner

theorem Valid.join {slot waiter generation : Nat} {r : Request K H C} (hs : s.Valid)
    (request : s.requests slot = some r) (vacant : s.Vacant waiter generation) :
    (s.join slot waiter generation).Valid := by
  have hproper := hs.proper request
  have hrequests : (s.join slot waiter generation).requests
      = Function.update s.requests slot (some { r with waiters := r.waiters ++ [waiter] }) := by
    simp [Registry.join, request]
  refine hs.update hrequests rfl rfl ?_ ?_ ?_ hs.queue_nodup ?_ fun _ => Iff.rfl
  · rintro _ ⟨⟩
    refine ⟨hproper.slot_lt, ?_, ?_, by simp, hproper.unique⟩
    · intro w hw
      rcases List.mem_append.mp hw with hw | hw
      · exact hproper.waiter_lt hw
      · exact List.mem_singleton.mp hw ▸ vacant.lt
    · rw [List.nodup_append]
      refine ⟨hproper.nodup, by simp, fun x hx y hy => ?_⟩
      rintro rfl
      exact vacant.not_mem hs request (List.mem_singleton.mp hy ▸ hx)
  · intro w
    have howner := hs.owned w slot
    by_cases h : w = waiter
    · simp [Registry.join, h]
    · simpa [Registry.join, h, request] using howner
  · intro w i hi
    by_cases h : w = waiter
    · simp [Registry.join, h, vacant.owner, Ne.symm hi]
    · simp [Registry.join, h]
  · simpa [Registry.join, request] using hs.queue_iff slot

theorem Valid.owned_openRequest (hs : s.Valid) (free : s.requests slot = none) (generation : Nat)
    (handler : H) (key : K) : (s.openRequest slot generation handler key).Owned := by
  intro waiter i
  have howner := hs.owned waiter i
  by_cases hi : i = slot
  · subst hi
    simpa [openRequest, free] using howner
  · simpa [openRequest, hi] using howner

theorem Valid.create {slot generation waiter waiterGeneration : Nat} {handler : H} {key : K}
    (hs : s.Valid) (lt : slot < s.requestCapacity) (free : s.requests slot = none)
    (unmatched : ∀ {i r}, s.requests i = some r → r.handler = handler → r.key = key →
      r.state.isVisible)
    (vacant : s.Vacant waiter waiterGeneration) :
    ((s.openRequest slot generation handler key).join slot waiter waiterGeneration).Valid := by
  have hrequests : ((s.openRequest slot generation handler key).join slot waiter
      waiterGeneration).requests
        = Function.update s.requests slot (some ⟨key, handler, .pending, [waiter]⟩) := by
    simp [Registry.join, openRequest]
  have hqueue : slot ∉ s.queue := by simp [hs.mem_queue, free]
  refine hs.update hrequests rfl rfl ?_ ?_ ?_ ?_ ?_ ?_
  · rintro _ ⟨⟩
    refine ⟨lt, ?_, List.nodup_singleton _, List.cons_ne_nil _ _, ?_⟩
    · intro w hw
      exact List.mem_singleton.mp hw ▸ vacant.lt
    · intro i q hi _ hq hhandler hkey
      have := unmatched hi hhandler.symm hkey.symm
      rw [hq] at this
      cases this
  · intro w
    by_cases h : w = waiter
    · simp [Registry.join, h]
    · simp [Registry.join, openRequest, h, hs.owner_iff, free]
  · intro w i hi
    by_cases h : w = waiter
    · simp [Registry.join, h, vacant.owner, Ne.symm hi]
    · simp [Registry.join, openRequest, h]
  · refine List.nodup_append.mpr ⟨hs.queue_nodup, List.nodup_singleton _, fun x hx y hy => ?_⟩
    rintro rfl
    exact hqueue (List.mem_singleton.mp hy ▸ hx)
  · simp [Registry.join, openRequest, RequestState.isPending]
  · intro i hi
    simp [Registry.join, openRequest, hi]

theorem Valid.setState {state : RequestState C} (hs : s.Valid)
    (request : s.requests slot = some r) (becomes : r.state.Becomes state) :
    (s.setState slot state).Valid := by
  have hproper := hs.proper request
  have hrequests : (s.setState slot state).requests
      = Function.update s.requests slot (some { r with state := state }) := by
    simp [Registry.setState, request]
  refine hs.update hrequests rfl rfl ?_ ?_ (fun _ => Iff.rfl) ?_ ?_ ?_
  · rintro _ ⟨⟩
    exact { hproper with unique := fun hi _ => hproper.unique hi becomes.not_visible }
  · intro w
    simpa [Registry.setState, request] using hs.owned w slot
  · unfold Registry.setState
    dsimp only
    split
    · exact hs.queue_nodup
    · exact hs.queue_nodup.erase slot
  · cases hstate : state.isPending with
    | true =>
      have hpending := becomes.isPending hstate
      simp [Registry.setState, hstate, hs.mem_queue, request, hpending]
    | false => simp [Registry.setState, hstate, hs.queue_nodup.mem_erase_iff]
  · intro i hi
    cases hstate : state.isPending with
    | true => simp [Registry.setState, hstate]
    | false => simp [Registry.setState, hstate, List.mem_erase_of_ne hi]

theorem Valid.leave {waiter : Nat} (hs : s.Valid) (request : s.requests slot = some r)
    (mem : waiter ∈ r.waiters) : (s.leave slot waiter r).Valid := by
  have hproper := hs.proper request
  have hrequests : (s.leave slot waiter r).requests = Function.update s.requests slot
      (if r.waiters.erase waiter = [] then none
        else some { r with waiters := r.waiters.erase waiter }) := rfl
  refine hs.update hrequests rfl rfl ?_ ?_ ?_ ?_ ?_ ?_
  · intro q hq
    split at hq
    · cases hq
    · next hne =>
        cases hq
        exact ⟨hproper.slot_lt, fun hw => hproper.waiter_lt (List.mem_of_mem_erase hw),
          hproper.nodup.erase waiter, hne, hproper.unique⟩
  · intro w
    have howner := hs.owned w slot
    by_cases h : w = waiter
    · subst h
      by_cases hlast : r.waiters.erase w = []
      · simp [Registry.leave, hlast]
      · simp [Registry.leave, hlast, hproper.nodup.mem_erase_iff]
    · by_cases hlast : r.waiters.erase waiter = []
      · have hw : w ∉ r.waiters := by
          intro hw
          have hw' := (List.mem_erase_of_ne h).mpr hw
          rw [hlast] at hw'
          cases hw'
        simpa [Registry.leave, hlast, h, request, hw] using howner
      · simpa [Registry.leave, hlast, h, request, List.mem_erase_of_ne h] using howner
  · intro w i hi
    by_cases h : w = waiter
    · subst h
      have howner := hs.owner_iff.mpr ⟨r, request, mem⟩
      simp [Registry.leave, howner, Ne.symm hi]
    · simp [Registry.leave, h]
  · unfold Registry.leave
    dsimp only
    split
    · exact hs.queue_nodup.erase slot
    · exact hs.queue_nodup
  · by_cases hlast : r.waiters.erase waiter = []
    · simp [Registry.leave, hlast, hs.queue_nodup.mem_erase_iff]
    · simp [Registry.leave, hlast, hs.mem_queue, request]
  · intro i hi
    by_cases hlast : r.waiters.erase waiter = []
    · simp [Registry.leave, hlast, List.mem_erase_of_ne hi]
    · simp [Registry.leave, hlast]

end Registry

end KernelAx.Fault
