import KernelAx.Fault.Valid

/-!
# Fault broker — Steps

What an operation of the registry can do, with the answer it gives: nothing, or one of the four
changes, or — for the operations that complete and release — a sequence of changes of states
(`Settles`). Everything that holds over whole runs is derived from `Step`.
-/

namespace KernelAx.Fault

variable {K H C : Type}

/-! ### Answers -/

namespace Answer

/-- The waiters an operation says it has released. -/
def waitersReleased : Answer K H C → Nat
  | .completed (.ok n) | .released (.ok n) => n
  | .summary t => t.waitersReleased
  | _ => 0

/-- The operation admitted nothing, claimed nothing and removed no waiter. -/
def quiet : Answer K H C → Bool
  | .admitted (.error _) | .claimed none | .completed _ | .summary _ | .released _
  | .cancelled (.error _) | .taken (.error _) => true
  | _ => false

/-- The operation found the broker in an inconsistent state. -/
def inconsistent : Answer K H C → Bool
  | .admitted (.error .inconsistentState) | .cancelled (.error .inconsistentState)
  | .taken (.error .inconsistentState) => true
  | _ => false

end Answer

namespace Registry

variable {s s' s'' : Registry K H C}

/-! ### Completion and release -/

/-- One request gets its result, for its waiters to see or not to see, or is released. -/
inductive Settle (s : Registry K H C) : Nat → Registry K H C → Prop
  | hide {slot r state} (request : s.requests slot = some r) (becomes : r.state.Becomes state)
      (hidden : state.isVisible = false) (queued : state.isPending = r.state.isPending) :
      Settle s 0 (s.setState slot state)
  | publish {slot r completion} (request : s.requests slot = some r)
      (becomes : r.state.Becomes (.visible completion)) :
      Settle s r.waiters.length (s.setState slot (.visible completion))

/-- Any number of them, one after the other, and the waiters they release together. -/
inductive Settles (s : Registry K H C) : Nat → Registry K H C → Prop
  | refl : Settles s 0 s
  | tail {n m : Nat} {s' s'' : Registry K H C} (settles : Settles s n s')
      (settle : Settle s' m s'') : Settles s (n + m) s''

variable {n : Nat} {o : Operation K H C} {a : Answer K H C}

theorem Settle.settles (h : s.Settle n s') : s.Settles n s' :=
  Nat.zero_add n ▸ Settles.refl.tail h

theorem Settles.trans {m : Nat} (h : s.Settles n s') (h' : s'.Settles m s'') :
    s.Settles (n + m) s'' := by
  induction h' with
  | refl => exact h
  | tail _ settle ih => exact Nat.add_assoc .. ▸ ih.tail settle

theorem Settle.becomes (h : s.Settle n s') : ∃ slot r state,
    s.requests slot = some r ∧ r.state.Becomes state ∧ s' = s.setState slot state := by
  cases h with
  | hide request becomes | publish request becomes => exact ⟨_, _, _, request, becomes, rfl⟩

theorem Settles.valid (h : s.Settles n s') (hs : s.Valid) : s'.Valid := by
  induction h with
  | refl => exact hs
  | tail _ settle ih =>
    obtain ⟨slot, r, state, request, becomes, rfl⟩ := settle.becomes
    exact ih.setState request becomes

theorem Settles.requestCapacity (h : s.Settles n s') : s'.requestCapacity = s.requestCapacity := by
  induction h with
  | refl => rfl
  | tail _ settle ih =>
    obtain ⟨slot, r, state, -, -, rfl⟩ := settle.becomes
    exact ih

theorem completeSlot_settles (slot : Nat) (completion : C) (visibility : CompletionVisibility) :
    s.Settles (s.completeSlot slot completion visibility).1
      (s.completeSlot slot completion visibility).2 := by
  unfold completeSlot
  cases request : s.requests slot with
  | none => exact .refl
  | some r =>
    dsimp only
    cases hstate : FaultBroker.completion? (some r.state) completion visibility with
    | none => exact .refl
    | some change =>
      obtain ⟨state, unlink, publish⟩ := change
      have becomes := RequestState.becomes_of_completion hstate
      cases publish with
      | true =>
        obtain ⟨rfl, -⟩ := RequestState.completion_publish hstate
        exact (Settle.publish request becomes).settles
      | false =>
        obtain ⟨hidden, -, hqueued⟩ := RequestState.completion_hide hstate
        exact (Settle.hide request becomes hidden hqueued).settles

theorem releaseSlot_settles (slot : Nat) :
    s.Settles (s.releaseSlot slot).1 (s.releaseSlot slot).2 := by
  unfold releaseSlot
  cases request : s.requests slot with
  | none => exact .refl
  | some r =>
    dsimp only
    cases hstate : FaultBroker.deferred? (some r.state) with
    | none => exact .refl
    | some change =>
      exact (Settle.publish request (RequestState.becomes_of_deferred hstate)).settles

/-- The waiters released by a pass of a loop are added to its summary. -/
def Adds (s : Registry K H C) (summary : CompletionSummary)
    (result : CompletionSummary × Registry K H C) : Prop :=
  ∃ n, s.Settles n result.2 ∧ result.1.waitersReleased = summary.waitersReleased + n

theorem completeIf_adds (predicate : RequestSnapshot K H → Bool) (completion : C)
    (visibility : CompletionVisibility) (summary : CompletionSummary) (slot : Nat) :
    s.Adds summary (s.completeIf predicate completion visibility summary slot) := by
  unfold completeIf
  split
  · exact ⟨0, .refl, rfl⟩
  · split
    · exact ⟨_, completeSlot_settles _ _ _, rfl⟩
    · exact ⟨0, .refl, rfl⟩

theorem releaseIf_adds (predicate : RequestSnapshot K H → Bool) (summary : CompletionSummary)
    (slot : Nat) : s.Adds summary (s.releaseIf predicate summary slot) := by
  unfold releaseIf
  split
  · exact ⟨0, .refl, rfl⟩
  · split
    · exact ⟨_, releaseSlot_settles _, rfl⟩
    · exact ⟨0, .refl, rfl⟩

theorem forSlots_adds
    {body : Registry K H C → CompletionSummary → Nat → CompletionSummary × Registry K H C}
    (hbody : ∀ s summary slot, Adds s summary (body s summary slot)) (slots : List Nat)
    (summary : CompletionSummary) (s : Registry K H C) :
    s.Adds summary (forSlots body slots summary s) := by
  induction slots generalizing summary s with
  | nil => exact ⟨0, .refl, rfl⟩
  | cons slot rest ih =>
    obtain ⟨n, hn, hsummary⟩ := hbody s summary slot
    obtain ⟨m, hm, hsummary'⟩ := ih (body s summary slot).1 (body s summary slot).2
    refine ⟨n + m, hn.trans hm, ?_⟩
    show (forSlots body rest _ _).1.waitersReleased = _
    rw [hsummary', hsummary]
    omega

theorem completeWhere_settles (predicate : RequestSnapshot K H → Bool) (completion : C)
    (visibility : CompletionVisibility) :
    s.Settles (s.completeWhere predicate completion visibility).1.waitersReleased
      (s.completeWhere predicate completion visibility).2 := by
  obtain ⟨n, hn, hsummary⟩ := forSlots_adds
    (fun s summary slot => s.completeIf_adds predicate completion visibility summary slot)
    (List.range s.requestCapacity) .default s
  exact (hsummary.trans (Nat.zero_add n)) ▸ hn

theorem releaseWhere_settles (predicate : RequestSnapshot K H → Bool) :
    s.Settles (s.releaseWhere predicate).1.waitersReleased (s.releaseWhere predicate).2 := by
  obtain ⟨n, hn, hsummary⟩ := forSlots_adds
    (fun s summary slot => s.releaseIf_adds predicate summary slot)
    (List.range s.requestCapacity) .default s
  exact (hsummary.trans (Nat.zero_add n)) ▸ hn

/-! ### Waiters -/

/-- A waiter token that is in use names a waiter of a live request. -/
theorem waiter?_eq_some {token : WaiterToken} {slot : Nat} {r : Request K H C} (hs : s.Valid)
    (h : s.waiter? token = some (slot, r)) :
    token = s.waiterToken token.slot ∧ s.requests slot = some r ∧ token.slot ∈ r.waiters := by
  unfold waiter? owner? at h
  split at h
  · next htoken =>
      obtain ⟨i, howner, hi⟩ := Option.bind_eq_some_iff.mp h
      obtain ⟨q, request, heq⟩ := Option.map_eq_some_iff.mp hi
      cases heq
      obtain ⟨q, request', hmem⟩ := hs.owner_iff.mp howner
      obtain rfl : q = r := Option.some.inj (request'.symm.trans request)
      exact ⟨htoken, request, hmem⟩
  · cases h

/-! ### Admission -/

/-- A chosen slot is free, and its generation goes up. -/
theorem chooseSlot_eq_ok {capacity slot generation : Nat} {free : Nat → Bool} {old : Nat → Nat}
    (h : FaultBroker.chooseSlot capacity free old = .ok (slot, generation)) :
    slot < capacity ∧ free slot ∧ generation = old slot + 1 := by
  unfold FaultBroker.chooseSlot at h
  dsimp only at h
  split at h
  · next i hi =>
      obtain ⟨rfl, rfl⟩ := Prod.mk.inj (Except.ok.inj h)
      have hlt := List.mem_range.mp (List.mem_of_find?_eq_some hi)
      have husable := List.find?_some hi
      rw [Bool.and_eq_true] at husable
      exact ⟨hlt, husable.1, rfl⟩
  · cases h

theorem chooseWaiter_eq_ok {waiter generation : Nat}
    (h : s.chooseWaiter = .ok (waiter, generation)) : s.Vacant waiter generation := by
  unfold chooseWaiter at h
  split at h
  · next choice hchoice =>
      obtain rfl := Except.ok.inj h
      obtain ⟨hlt, hfree, rfl⟩ := chooseSlot_eq_ok hchoice
      exact ⟨hlt, Option.isNone_iff_eq_none.mp hfree, Nat.lt_succ_self _⟩
  · cases h
  · cases h

theorem chooseWaiter_consistent {e : AdmissionError} (h : s.chooseWaiter = .error e) :
    (Answer.admitted (.error e) : Answer K H C).inconsistent = false := by
  unfold chooseWaiter at h
  split at h <;> cases h <;> rfl

section Admission

variable [DecidableEq K] [DecidableEq H] {handler : H} {key : K} {slot generation : Nat}

/-- An admission joins a request of the handler and the key that is not visible. -/
theorem chooseRequest_eq_true (h : s.chooseRequest handler key = .ok (slot, generation, true)) :
    ∃ r, s.requests slot = some r ∧ generation = s.requestGeneration slot ∧
      r.handler = handler ∧ r.key = key ∧ r.state.isVisible = false := by
  unfold chooseRequest at h
  split at h
  · next i hi =>
      cases h
      have hmatch := List.find?_some hi
      cases request : s.requests slot with
      | none => simp [request] at hmatch
      | some r => exact ⟨r, rfl, rfl, by simpa [request] using hmatch⟩
  · split at h <;> cases h

theorem chooseRequest_consistent {e : AdmissionError} (h : s.chooseRequest handler key = .error e) :
    (Answer.admitted (.error e) : Answer K H C).inconsistent = false := by
  unfold chooseRequest at h
  split at h
  · cases h
  · split at h <;> cases h <;> rfl

theorem chooseRequest_eq_false (hs : s.Valid)
    (h : s.chooseRequest handler key = .ok (slot, generation, false)) :
    slot < s.requestCapacity ∧ s.requests slot = none ∧
      generation = s.requestGeneration slot + 1 ∧
      ∀ {i r}, s.requests i = some r → r.handler = handler → r.key = key → r.state.isVisible := by
  unfold chooseRequest at h
  split at h
  · cases h
  · next hnone =>
      split at h
      · next hchoice =>
          cases h
          obtain ⟨hlt, hfree, hgen⟩ := chooseSlot_eq_ok hchoice
          refine ⟨hlt, Option.isNone_iff_eq_none.mp hfree, hgen, fun {i r} request hh hk => ?_⟩
          have hi := List.find?_eq_none.mp hnone i (List.mem_range.mpr (hs.slot_lt request))
          simpa [request, hh, hk] using hi
      · cases h
      · cases h

end Admission

/-! ### Steps -/

/-- What an operation can do, with the answer it gives. -/
inductive Step (s : Registry K H C) : Operation K H C → Answer K H C → Registry K H C → Prop
  | join {handler key credit slot waiter generation r} (request : s.requests slot = some r)
      (handler_eq : r.handler = handler) (key_eq : r.key = key) (hidden : r.state.isVisible = false)
      (vacant : s.Vacant waiter generation) :
      Step s (.admitFault handler key credit)
        (.admitted (.ok ⟨s.requestToken slot, ⟨s.id, waiter, generation⟩, true⟩))
        (s.join slot waiter generation)
  | create {handler key credit slot generation waiter waiterGeneration}
      (lt : slot < s.requestCapacity)
      (free : s.requests slot = none) (fresh : s.requestGeneration slot < generation)
      (unmatched : ∀ {i r}, s.requests i = some r → r.handler = handler → r.key = key →
        r.state.isVisible)
      (vacant : s.Vacant waiter waiterGeneration) :
      Step s (.admitFault handler key credit)
        (.admitted (.ok ⟨⟨s.id, slot, generation⟩, ⟨s.id, waiter, waiterGeneration⟩, false⟩))
        ((s.openRequest slot generation handler key).join slot waiter waiterGeneration)
  | claim {handler slot r state snapshot} (request : s.requests slot = some r)
      (claimed : r.state.claimed = some state) (token : snapshot.token = s.requestToken slot) :
      Step s (.claimNext handler) (.claimed (some snapshot)) (s.setState slot state)
  | settle {o : Operation K H C} {a : Answer K H C} {s' : Registry K H C} (quiet : a.quiet)
      (consistent : a.inconsistent = false) (settles : s.Settles a.waitersReleased s') :
      Step s o a s'
  | cancel {token slot r c} (token_eq : token = s.waiterToken token.slot)
      (request : s.requests slot = some r) (mem : token.slot ∈ r.waiters)
      (result : ∀ {completion}, c.completion = some completion ↔ r.state = .visible completion)
      (refund : c.removal.refund = decide (r.waiters.erase token.slot = [])) :
      Step s (.cancelWaiter token) (.cancelled (.ok c)) (s.leave slot token.slot r)
  | take {token slot r c} (token_eq : token = s.waiterToken token.slot)
      (request : s.requests slot = some r) (mem : token.slot ∈ r.waiters)
      (result : r.state = .visible c.completion)
      (refund : c.removal.refund = decide (r.waiters.erase token.slot = [])) :
      Step s (.takeWaiterCompletion token) (.taken (.ok c)) (s.leave slot token.slot r)

theorem Step.idle (quiet : a.quiet) (consistent : a.inconsistent = false)
    (released : a.waitersReleased = 0) : s.Step o a s :=
  .settle quiet consistent (released ▸ .refl)

theorem Step.valid (h : s.Step o a s') (hs : s.Valid) : s'.Valid := by
  cases h with
  | join request handler_eq key_eq hidden vacant => exact hs.join request vacant
  | create lt free fresh unmatched vacant => exact hs.create lt free unmatched vacant
  | claim request claimed => exact hs.setState request (RequestState.becomes_of_claimed claimed)
  | settle quiet consistent settles => exact settles.valid hs
  | cancel token_eq request mem | take token_eq request mem => exact hs.leave request mem

theorem Step.consistent (h : s.Step o a s') : a.inconsistent = false := by
  cases h with
  | settle quiet consistent settles => exact consistent
  | _ => rfl

/-! ### Operations are steps -/

theorem complete_step (token : RequestToken) (completion : C) (visibility : CompletionVisibility) :
    s.Step (.complete token completion visibility)
      (.completed (s.complete token completion visibility).1)
      (s.complete token completion visibility).2 := by
  unfold complete
  split
  · exact .idle rfl rfl rfl
  · split
    · exact .settle rfl rfl (completeSlot_settles _ _ _)
    · exact .idle rfl rfl rfl

theorem release_step (token : RequestToken) :
    s.Step (.release token) (.released (s.release token).1) (s.release token).2 := by
  unfold release
  split
  · exact .idle rfl rfl rfl
  · split
    · exact .settle rfl rfl (releaseSlot_settles _)
    · exact .settle rfl rfl (releaseSlot_settles _)
    all_goals exact .idle rfl rfl rfl

theorem claimNext_step [DecidableEq H] (handler : H) :
    s.Step (.claimNext handler) (.claimed (s.claimNext handler).1) (s.claimNext handler).2 := by
  unfold claimNext
  cases s.oldest handler with
  | none => exact .idle rfl rfl rfl
  | some slot =>
    dsimp only
    cases hstate : (s.requests slot).bind (·.state.claimed) with
    | none => exact .idle rfl rfl rfl
    | some state =>
      obtain ⟨r, request, hclaimed⟩ := Option.bind_eq_some_iff.mp hstate
      have hsnapshot : (s.setState slot state).snapshot slot = some ⟨s.requestToken slot, r.key,
          r.handler, state.phase, r.waiters.length⟩ := by
        simp [snapshot, setState, request, requestToken]
      dsimp only
      rw [hsnapshot]
      exact .claim request hclaimed rfl

theorem cancelWaiter_step (hs : s.Valid) (token : WaiterToken) :
    s.Step (.cancelWaiter token) (.cancelled (s.cancelWaiter token).1)
      (s.cancelWaiter token).2 := by
  unfold cancelWaiter
  split
  · exact .idle rfl rfl rfl
  · next slot r hwaiter =>
      obtain ⟨htoken, request, hmem⟩ := waiter?_eq_some hs hwaiter
      cases hstate : r.state with
      | visible completion =>
        refine .cancel htoken request hmem ?_ rfl
        simp [hstate]
      | _ =>
        refine .cancel htoken request hmem ?_ rfl
        simp [hstate]

theorem takeWaiterCompletion_step (hs : s.Valid) (token : WaiterToken) :
    s.Step (.takeWaiterCompletion token) (.taken (s.takeWaiterCompletion token).1)
      (s.takeWaiterCompletion token).2 := by
  unfold takeWaiterCompletion
  split
  · exact .idle rfl rfl rfl
  · next slot r hwaiter =>
      obtain ⟨htoken, request, hmem⟩ := waiter?_eq_some hs hwaiter
      cases hstate : r.state with
      | visible completion => exact .take htoken request hmem hstate rfl
      | _ => exact .idle rfl rfl rfl

section

variable [DecidableEq K] [DecidableEq H]

theorem admitFault_step (hs : s.Valid) (handler : H) (key : K) (credit : Bool) :
    s.Step (.admitFault handler key credit) (.admitted (s.admitFault handler key credit).1)
      (s.admitFault handler key credit).2 := by
  unfold admitFault
  split
  · next e hrequest =>
      exact .idle rfl (chooseRequest_consistent hrequest) rfl
  · next slot generation coalesced hrequest =>
      split
      · next e hwaiter => exact .idle rfl (chooseWaiter_consistent hwaiter) rfl
      · next waiter waiterGeneration hwaiter =>
          have vacant := chooseWaiter_eq_ok hwaiter
          cases coalesced with
          | true =>
            obtain ⟨r, request, rfl, hhandler, hkey, hidden⟩ := chooseRequest_eq_true hrequest
            exact .join request hhandler hkey hidden vacant
          | false =>
            obtain ⟨lt, free, hgen, unmatched⟩ := chooseRequest_eq_false hs hrequest
            have fresh : s.requestGeneration slot < generation := by omega
            dsimp only
            rw [if_neg Bool.false_ne_true]
            split
            · exact .create lt free fresh unmatched vacant
            · exact .idle rfl rfl rfl

theorem perform_step [FaultRangeKey K] (hs : s.Valid) (o : Operation K H C) :
    s.Step o (s.perform o).1 (s.perform o).2 := by
  cases o with
  | admitFault handler key credit => exact admitFault_step hs handler key credit
  | claimNext handler => exact claimNext_step handler
  | complete token completion visibility => exact complete_step token completion visibility
  | completeWhere predicate completion visibility | completeRange range completion visibility =>
    exact .settle rfl rfl (completeWhere_settles _ _ _)
  | release token => exact release_step token
  | releaseWhere predicate | releaseRange range => exact .settle rfl rfl (releaseWhere_settles _)
  | detachHandler handler completion =>
    exact .settle rfl rfl ((completeWhere_settles _ _ _).trans (releaseWhere_settles _))
  | cancelWaiter token => exact cancelWaiter_step hs token
  | takeWaiterCompletion token => exact takeWaiterCompletion_step hs token

end

end Registry

end KernelAx.Fault
