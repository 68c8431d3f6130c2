import KernelAx.Fault.WellFormed

/-!
# Fault broker — Tokens

What a token names stays what it is. A token that was given out has a generation no newer than that
of its slot, and no later operation gives it out again; so a property of the request or the waiter
that it names, if the steps keep it, holds for the rest of the run (`Holds.run`, `HoldsWaiter.run`),
and a token that names nothing names nothing any more.
-/

namespace KernelAx.Fault

open Registry

variable {K H C : Type}

namespace Registry

variable {s s' : Registry K H C} {o : Operation K H C} {a : Answer K H C}

/-! ### Live requests -/

theorem isSome_setState (slot : Nat) (state : RequestState C) (i : Nat) :
    ((s.setState slot state).requests i).isSome = (s.requests i).isSome := by
  by_cases his : i = slot <;> simp [setState, his]

theorem Settles.live {n : Nat} (settles : s.Settles n s') :
    s'.requestToken = s.requestToken ∧ ∀ i, (s'.requests i).isSome = (s.requests i).isSome := by
  induction settles with
  | refl => exact ⟨rfl, fun _ => rfl⟩
  | tail _ settle ih =>
    obtain ⟨slot, r, state, -, -, rfl⟩ := settle.becomes
    exact ⟨ih.1, fun i => (isSome_setState slot state i).trans (ih.2 i)⟩

/-- A request that is live after an operation was live before it, or the operation has opened it. -/
theorem Step.live (step : s.Step o a s') {i : Nat} (hlive : (s'.requests i).isSome) :
    a.created = some (s'.requestToken i) ∨
      ((s.requests i).isSome ∧ s'.requestToken i = s.requestToken i) := by
  cases step with
  | @join handler key credit slot waiter generation r request =>
    refine .inr ⟨?_, rfl⟩
    by_cases his : i = slot
    · rw [his, request]
      rfl
    · simpa [Registry.join, his] using hlive
  | @create handler key credit slot generation waiter waiterGeneration =>
    by_cases his : i = slot
    · subst his
      exact .inl (by simp [Answer.created, requestToken, Registry.join, Registry.openRequest])
    · refine .inr ⟨by simpa [Registry.join, Registry.openRequest, his] using hlive, ?_⟩
      simp [requestToken, Registry.join, Registry.openRequest, his]
  | claim => exact .inr ⟨(isSome_setState _ _ i).symm.trans hlive, rfl⟩
  | settle quiet consistent settles =>
    obtain ⟨htoken, hsome⟩ := settles.live
    exact .inr ⟨(hsome i).symm.trans hlive, congrFun htoken i⟩
  | @cancel token slot r c token_eq request | @take token slot r c token_eq request =>
    refine .inr ⟨?_, rfl⟩
    by_cases his : i = slot
    · rw [his, request]
      rfl
    · simpa [Registry.leave, his] using hlive

/-! ### Request tokens -/

/-- The token has been given out, and the request that it names, if there still is one, has `P`. -/
structure Holds (s : Registry K H C) (token : RequestToken) (P : Request K H C → Prop) : Prop where
  past : s.Past token
  holds : ∀ {r}, s.request? token = some r → P r

/-- What neither a new state nor another list of waiters changes. -/
structure Stable (P : Request K H C → Prop) : Prop where
  setState : ∀ {r state}, P r → r.state.Becomes state → P { r with state := state }
  setWaiters : ∀ {r waiters}, P r → P { r with waiters := waiters }

variable {token : RequestToken} {P : Request K H C → Prop}

variable {r : Request K H C} {slot : Nat}

theorem request?_eq_some :
    s.request? token = some r ↔
      token = s.requestToken token.slot ∧ s.requests token.slot = some r := by
  unfold request?
  split
  · next htoken => exact ⟨fun hr => ⟨htoken, hr⟩, fun hr => hr.2⟩
  · next htoken => exact ⟨fun hr => (nomatch hr), fun hr => absurd hr.1 htoken⟩

theorem holds_of_request? (request : s.request? token = some r) (hP : P r) : s.Holds token P := by
  refine ⟨?_, fun hq => ?_⟩
  · rw [(request?_eq_some.mp request).1]
    exact s.requestToken_past _
  · rw [← Option.some.inj (request.symm.trans hq)]
    exact hP

namespace Holds

variable (h : s.Holds token P)
include h

/-- The requests that a registry has after a change are those it had, changed in a way that `P` does
not see. -/
theorem mono (id : s'.id = s.id)
    (generation : s'.requestGeneration = s.requestGeneration)
    (requests : ∀ {i q}, s'.requests i = some q → ∃ r, s.requests i = some r ∧ (P r → P q)) :
    s'.Holds token P := by
  refine ⟨?_, fun {q} hq => ?_⟩
  · rw [Past, id, generation]
    exact h.past
  · obtain ⟨htoken, hrequest⟩ := request?_eq_some.mp hq
    obtain ⟨r, hr, himp⟩ := requests hrequest
    refine himp (h.holds (request?_eq_some.mpr ⟨?_, hr⟩))
    rw [htoken, requestToken, requestToken, id, generation]

theorem setState (stable : Stable P) {state : RequestState C}
    (request : s.requests slot = some r) (becomes : r.state.Becomes state) :
    (s.setState slot state).Holds token P := by
  refine h.mono rfl rfl fun {i q} hi => ?_
  obtain ⟨rfl, rfl⟩ | ⟨-, hi⟩ := of_setState request hi
  · exact ⟨r, request, fun hr => stable.setState hr becomes⟩
  · exact ⟨q, hi, fun hq => hq⟩

theorem settles (stable : Stable P) {n : Nat}
    (settles : s.Settles n s') : s'.Holds token P := by
  induction settles with
  | refl => exact h
  | tail _ settle ih =>
    obtain ⟨slot, r, state, request, becomes, rfl⟩ := settle.becomes
    exact ih.setState stable request becomes

theorem leave (stable : Stable P) {waiter : Nat}
    (request : s.requests slot = some r) : (s.leave slot waiter r).Holds token P := by
  refine h.mono rfl rfl fun {i q} hi => ?_
  obtain ⟨rfl, rfl⟩ | ⟨-, hi⟩ := of_leave hi
  · exact ⟨r, request, stable.setWaiters⟩
  · exact ⟨q, hi, fun hq => hq⟩

theorem join (stable : Stable P) {slot waiter generation : Nat}
    {r : Request K H C} (request : s.requests slot = some r) :
    (s.join slot waiter generation).Holds token P := by
  refine h.mono rfl rfl fun {i q} hi => ?_
  obtain ⟨rfl, rfl⟩ | ⟨-, hi⟩ := of_join request hi
  · exact ⟨r, request, stable.setWaiters⟩
  · exact ⟨q, hi, fun hq => hq⟩

theorem openRequest {generation : Nat}
    (fresh : s.requestGeneration slot < generation) (handler : H) (key : K) :
    (s.openRequest slot generation handler key).Holds token P := by
  obtain ⟨hid, hgeneration⟩ := h.past
  by_cases hts : token.slot = slot
  · subst hts
    refine ⟨⟨hid, ?_⟩, fun {q} hq => ?_⟩
    · simp only [Registry.openRequest, Function.update_self]
      omega
    · -- the token would have the new generation
      obtain ⟨htoken, -⟩ := request?_eq_some.mp hq
      have hnew := congrArg RequestToken.generation htoken
      simp only [requestToken, Registry.openRequest, Function.update_self] at hnew
      omega
  · refine ⟨⟨hid, by simpa [Registry.openRequest, hts] using hgeneration⟩, fun {q} hq => ?_⟩
    obtain ⟨htoken, hrequest⟩ := request?_eq_some.mp hq
    refine h.holds (request?_eq_some.mpr ⟨htoken.trans ?_, ?_⟩)
    · simp [requestToken, Registry.openRequest, hts]
    · simpa [Registry.openRequest, hts] using hrequest

theorem step (stable : Stable P) (step : s.Step o a s') :
    s'.Holds token P := by
  cases step with
  | join request => exact h.join stable request
  | create lt free fresh unmatched vacant =>
    exact (h.openRequest fresh _ _).join stable (s.openRequest_self ..)
  | claim request claimed =>
    exact h.setState stable request (RequestState.becomes_of_claimed claimed)
  | settle quiet consistent settles => exact h.settles stable settles
  | cancel token_eq request | take token_eq request => exact h.leave stable request

theorem run {log : Log K H C} (stable : Stable P)
    (run : s.Run log s') : s'.Holds token P := by
  induction run with
  | nil => exact h
  | snoc _ step ih => exact ih.step stable step

end Holds

/-! ### Waiter tokens -/

/-- The waiter token has been given out, and `P` holds of the token and the state of the request
that the waiter waits for, if it still does. -/
structure HoldsWaiter (s : Registry K H C) (token : WaiterToken)
    (P : RequestToken → RequestState C → Prop) : Prop where
  past : s.PastWaiter token
  holds : ∀ {slot r}, token = s.waiterToken token.slot → s.requests slot = some r →
    token.slot ∈ r.waiters → P (s.requestToken slot) r.state

section Waiters

variable {token : WaiterToken} {P : RequestToken → RequestState C → Prop}

variable {slot : Nat} {r : Request K H C}

theorem Valid.mem_waiters (hs : s.Valid) {waiter : Nat} (howner : s.owner waiter = some slot)
    (request : s.requests slot = some r) : waiter ∈ r.waiters := by
  obtain ⟨q, hq, mem⟩ := hs.owner_iff.mp howner
  obtain rfl : q = r := Option.some.inj (hq.symm.trans request)
  exact mem

/-- What holds of the request of a waiter holds of the token. -/
theorem Valid.holdsWaiter (hs : s.Valid) (token_eq : token = s.waiterToken token.slot)
    (request : s.requests slot = some r) (mem : token.slot ∈ r.waiters)
    (holds : P (s.requestToken slot) r.state) : s.HoldsWaiter token P := by
  refine ⟨?_, fun {i q} _ hq hmem => ?_⟩
  · rw [token_eq]
    exact ⟨rfl, Nat.le_refl _⟩
  · obtain rfl : i = slot := hs.owner_unique hq hmem request mem
    obtain rfl : q = r := Option.some.inj (hq.symm.trans request)
    exact holds

namespace HoldsWaiter

variable (h : s.HoldsWaiter token P)
include h

theorem mono (id : s'.id = s.id)
    (generation : s'.waiterGeneration = s.waiterGeneration)
    (requestGeneration : s'.requestGeneration = s.requestGeneration)
    (requests : ∀ {i q}, s'.requests i = some q → ∃ r, s.requests i = some r ∧
      (∀ w ∈ q.waiters, w ∈ r.waiters) ∧ ∀ t, P t r.state → P t q.state) :
    s'.HoldsWaiter token P := by
  refine ⟨?_, fun {i q} htoken hq hmem => ?_⟩
  · rw [PastWaiter, id, generation]
    exact h.past
  · obtain ⟨r, hr, hsubset, himp⟩ := requests hq
    have htoken' : s'.requestToken i = s.requestToken i := by
      rw [requestToken, requestToken, id, requestGeneration]
    rw [htoken']
    refine himp _ (h.holds (htoken.trans ?_) hr (hsubset _ hmem))
    rw [waiterToken, waiterToken, id, generation]

theorem setState {state : RequestState C}
    (request : s.requests slot = some r) (stable : ∀ t, P t r.state → P t state) :
    (s.setState slot state).HoldsWaiter token P := by
  refine h.mono rfl rfl rfl fun {i q} hi => ?_
  obtain ⟨rfl, rfl⟩ | ⟨-, hi⟩ := of_setState request hi
  · exact ⟨r, request, fun _ hw => hw, stable⟩
  · exact ⟨q, hi, fun _ hw => hw, fun _ hq => hq⟩

theorem settles
    (stable : ∀ {t state state'}, P t state → state.Becomes state' → P t state') {n : Nat}
    (settles : s.Settles n s') : s'.HoldsWaiter token P := by
  induction settles with
  | refl => exact h
  | tail _ settle ih =>
    obtain ⟨slot, r, state, request, becomes, rfl⟩ := settle.becomes
    exact ih.setState request fun _ hP => stable hP becomes

theorem leave {waiter : Nat}
    (request : s.requests slot = some r) : (s.leave slot waiter r).HoldsWaiter token P := by
  refine h.mono rfl rfl rfl fun {i q} hi => ?_
  obtain ⟨rfl, rfl⟩ | ⟨-, hi⟩ := of_leave hi
  · exact ⟨r, request, fun _ hw => List.mem_of_mem_erase hw, fun _ hq => hq⟩
  · exact ⟨q, hi, fun _ hw => hw, fun _ hq => hq⟩

theorem openRequest (free : s.requests slot = none)
    (generation : Nat) (handler : H) (key : K) :
    (s.openRequest slot generation handler key).HoldsWaiter token P := by
  refine ⟨h.past, fun {i q} htoken hq hmem => ?_⟩
  obtain ⟨rfl, rfl⟩ | ⟨his, hq⟩ := of_openRequest hq
  · cases hmem
  · have hrequestToken : (s.openRequest slot generation handler key).requestToken i
        = s.requestToken i := by simp [requestToken, Registry.openRequest, his]
    rw [hrequestToken]
    exact h.holds htoken hq hmem

/-- A new waiter has a token that has not been given out. -/
theorem join {slot waiter generation : Nat}
    {r : Request K H C} (request : s.requests slot = some r)
    (fresh : s.waiterGeneration waiter < generation) :
    (s.join slot waiter generation).HoldsWaiter token P := by
  obtain ⟨hid, hgeneration⟩ := h.past
  by_cases hts : token.slot = waiter
  · subst hts
    refine ⟨⟨hid, ?_⟩, fun {i q} htoken hq hmem => ?_⟩
    · simp only [Registry.join, Function.update_self]
      omega
    · have hnew := congrArg WaiterToken.generation htoken
      simp only [waiterToken, Registry.join, Function.update_self] at hnew
      omega
  · refine ⟨⟨hid, by simpa [Registry.join, hts] using hgeneration⟩, fun {i q} htoken hq hmem => ?_⟩
    have htoken' : token = s.waiterToken token.slot := by
      rw [htoken]
      simp [waiterToken, Registry.join, hts]
    obtain ⟨rfl, rfl⟩ | ⟨-, hq⟩ := of_join request hq
    · have hmem' : token.slot ∈ r.waiters := by simpa [hts] using hmem
      exact (h.holds htoken' request hmem' :)
    · exact h.holds htoken' hq hmem

theorem step
    (stable : ∀ {t state state'}, P t state → state.Becomes state' → P t state')
    (step : s.Step o a s') : s'.HoldsWaiter token P := by
  cases step with
  | join request handler_eq key_eq hidden vacant => exact h.join request vacant.fresh
  | create lt free fresh unmatched vacant =>
    exact (h.openRequest free _ _ _).join (s.openRequest_self ..) vacant.fresh
  | claim request claimed =>
    exact h.setState request fun _ hP => stable hP (RequestState.becomes_of_claimed claimed)
  | settle quiet consistent settles =>
    exact h.settles (fun hP becomes => stable hP becomes) settles
  | cancel token_eq request | take token_eq request => exact h.leave request

end HoldsWaiter

end Waiters

end Registry

/-! ### Tokens in the broker -/

/-- The request that a token names. -/
def FaultBroker.find? (b : FaultBroker K H C) (token : RequestToken) :
    Option (RequestRecord K H C) :=
  match b.requestIndex token with
  | .ok slot => (b.requests slot).record
  | .error _ => none

/-- The waiter that a token names. -/
def FaultBroker.findWaiter? (b : FaultBroker K H C) (token : WaiterToken) :
    Option (WaiterRecord C) :=
  match b.waiterIndex token with
  | .ok slot => (b.waiters slot).record
  | .error _ => none

section

variable {b : FaultBroker K H C} {s : Registry K H C}

theorem Refines.find? (h : Refines b s) {token : RequestToken} {record : RequestRecord K H C}
    (hfind : b.find? token = some record) :
    ∃ r, s.request? token = some r ∧ record.toRequestBody = r.body := by
  unfold FaultBroker.find? at hfind
  rw [h.requestIndex] at hfind
  cases request : s.request? token with
  | none =>
    rw [request] at hfind
    cases hfind
  | some r =>
    rw [request] at hfind
    obtain ⟨q, hq, hbody⟩ := h.request_of_record hfind
    cases hq.symm.trans (requests_of_request? request)
    exact ⟨r, rfl, hbody⟩

theorem Refines.findWaiter? (h : Refines b s) {token : WaiterToken} {entry : WaiterRecord C}
    (hfind : b.findWaiter? token = some entry) :
    ∃ slot r, token = s.waiterToken token.slot ∧ s.requests slot = some r ∧
      token.slot ∈ r.waiters ∧ entry.request = s.requestToken slot ∧
      entry.state = r.state.waiterState := by
  unfold FaultBroker.findWaiter? at hfind
  rw [h.waiterIndex] at hfind
  cases hwaiter : s.waiter? token with
  | none =>
    rw [hwaiter] at hfind
    cases hfind
  | some found =>
    rw [hwaiter] at hfind
    obtain ⟨slot, r, request, mem, hrequest, hstate⟩ := h.waiter_of_record hfind
    exact ⟨slot, r, (waiter?_eq_some h.valid hwaiter).1, request, mem, hrequest, hstate⟩

/-- A token names nothing in the broker if and only if no request of the registry has it. -/
theorem Refines.find?_eq_none (h : Refines b s) {token : RequestToken} (past : s.Past token) :
    b.find? token = none ↔ s.Holds token fun _ => False := by
  constructor
  · refine fun hfind => ⟨past, fun {r} request => ?_⟩
    obtain ⟨record, hrecord, -⟩ := h.requests.record (requests_of_request? request)
    unfold FaultBroker.find? at hfind
    rw [h.requestIndex, request] at hfind
    cases hrecord.symm.trans hfind
  · intro holds
    by_contra hfind
    obtain ⟨record, hrecord⟩ := Option.ne_none_iff_exists'.mp hfind
    obtain ⟨r, request, -⟩ := h.find? hrecord
    exact holds.holds request

theorem Refines.findWaiter?_eq_none (h : Refines b s) {token : WaiterToken}
    (past : s.PastWaiter token) :
    b.findWaiter? token = none ↔ s.HoldsWaiter token fun _ _ => False := by
  constructor
  · refine fun hfind => ⟨past, fun {slot r} htoken request mem => ?_⟩
    obtain ⟨entry, hentry, -⟩ := h.waiters.record h.valid request mem
    have hwaiter : s.waiter? token = some (slot, r) := by
      simp [waiter?, owner?, ← htoken, h.valid.owner_iff.mpr ⟨r, request, mem⟩,
        request]
    unfold FaultBroker.findWaiter? at hfind
    rw [h.waiterIndex, hwaiter] at hfind
    cases hentry.symm.trans hfind
  · intro holds
    by_contra hfind
    obtain ⟨entry, hentry⟩ := Option.ne_none_iff_exists'.mp hfind
    obtain ⟨slot, r, htoken, request, mem, -⟩ := h.findWaiter? hentry
    exact holds.holds htoken request mem

end

end KernelAx.Fault
