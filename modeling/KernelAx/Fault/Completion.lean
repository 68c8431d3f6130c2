import KernelAx.Fault.Refines

/-!
# Fault broker — Completion

The operations on the state of a request follow the registry: completion, release, their bulk forms,
and claims.

A request that becomes visible leaves the queue, has its state written, and then its waiters are
told along their links (`visible_returns`). The other states are not seen by the waiters
(`Refines.setState_hidden`).
-/

namespace KernelAx.Fault

open Transaction FaultBroker RequestState RequestBody

variable {K H C ε : Type}

variable {b b' : FaultBroker K H C} {s s' : Registry K H C} {slot : Nat} {r : Request K H C}

/-! ### Results for the waiters -/

/-- What `publishWaiters` does: the waiters of the list, and no others, are ready. -/
structure Published (b b' : FaultBroker K H C) (waiters : List Nat) (completion : C) : Prop where
  id : b'.id = b.id
  creditPool : b'.creditPool = b.creditPool
  requestCapacity : b'.requestCapacity = b.requestCapacity
  requests : b'.requests = b.requests
  head : b'.pendingHead = b.pendingHead
  tail : b'.pendingTail = b.pendingTail
  capacity : b'.waiterCapacity = b.waiterCapacity
  mem : ∀ {waiter}, waiter ∈ waiters → b'.waiters waiter = ⟨(b.waiters waiter).generation,
    (b.waiters waiter).record.map fun record => { record with state := .ready completion }⟩
  not_mem : ∀ {waiter}, waiter ∉ waiters → b'.waiters waiter = b.waiters waiter

variable {completion : C}

/-- The walk along the waiters: `rest` is what it has not reached. -/
theorem publishFrom_returns {rest : List Nat} {fuel released : Nat} (nodup : rest.Nodup)
    (enough : rest.length ≤ fuel) (lt : ∀ {waiter}, waiter ∈ rest → waiter < b.waiterCapacity)
    (active : ∀ {waiter}, waiter ∈ rest →
      ∃ record, (b.waiters waiter).record = some record ∧ record.state = .active)
    (next : ∀ {xs waiter ys}, rest = xs ++ waiter :: ys → b.waiterNext waiter = ys.head?) :
    Returns (publishFrom completion fuel rest.head? released : Op ε _ _) b
      fun n b' => n = released + rest.length ∧ Published b b' rest completion := by
  induction rest generalizing fuel released b with
  | nil =>
    refine .intro (by cases fuel <;> rfl) ?_
    exact ⟨rfl, rfl, rfl, rfl, rfl, rfl, rfl, rfl, fun h => (nomatch h), fun _ => rfl⟩
  | cons waiter rest ih =>
    obtain ⟨record, hrecord, hactive⟩ := active List.mem_cons_self
    have hnext : record.next = rest.head? := by
      have hwaiter := next (List.nil_append (waiter :: rest)).symm
      simpa [waiterNext, hrecord] using hwaiter
    obtain ⟨hwaiter, hrest⟩ := List.nodup_cons.mp nodup
    cases fuel with
    | zero => simp at enough
    | succ fuel =>
      refine .after (waiterAt_run (lt List.mem_cons_self)) ?_
      rw [hrecord]
      dsimp only
      rw [hactive]
      refine .after rfl ?_
      rw [hnext]
      -- the rest of the list is as it was
      have hsame : ∀ {i}, i ∈ rest → (b.mapWaiter waiter fun record =>
          { record with state := .ready completion }).waiters i = b.waiters i := by
        intro i hi
        have hne : i ≠ waiter := fun h => hwaiter (h ▸ hi)
        simp [mapWaiter, hne]
      refine (ih (b := b.mapWaiter waiter _) hrest (by simpa using enough)
        (fun hi => lt (List.mem_cons_of_mem _ hi)) (fun hi => ?_)
        fun {xs i ys} hi => ?_).mono ?_
      · rw [hsame hi]
        exact active (List.mem_cons_of_mem _ hi)
      · rw [waiterNext, hsame (by simp [hi])]
        have hrest : waiter :: rest = (waiter :: xs) ++ i :: ys := by simp [hi]
        exact next hrest
      · rintro n b' ⟨rfl, h⟩
        refine ⟨by simp; omega, { h with mem := fun {i} hi => ?_, not_mem := fun {i} hi => ?_ }⟩
        · by_cases hir : i ∈ rest
          · rw [h.mem hir, hsame hir]
          · obtain rfl : i = waiter := (List.mem_cons.mp hi).resolve_right hir
            rw [h.not_mem hir]
            simp [mapWaiter]
        · obtain ⟨hne, hir⟩ := not_or.mp (List.mem_cons.not.mp hi)
          rw [h.not_mem hir]
          simp [mapWaiter, hne]

/-! ### States -/

theorem Registry.Valid.waiterBody_setState (hs : s.Valid) (request : s.requests slot = some r)
    {waiter : Nat} (not_mem : waiter ∉ r.waiters) (state : RequestState C) :
    (s.setState slot state).waiterBody waiter = s.waiterBody waiter := by
  unfold Registry.waiterBody
  show (s.owner waiter).bind _ = _
  cases howner : s.owner waiter with
  | none => rfl
  | some i =>
    have hi : i ≠ slot := by
      rintro rfl
      obtain ⟨q, hq, hmem⟩ := hs.owner_iff.mp howner
      obtain rfl : q = r := Option.some.inj (hq.symm.trans request)
      exact not_mem hmem
    simp [Registry.setState, Registry.requestToken, hi]

variable {state : RequestState C}

/-- The state of a request goes on, and its waiters are told what they are to be told. -/
theorem RefinesWaiters.setState (h : RefinesWaiters b s) (hs : s.Valid)
    (request : s.requests slot = some r) (capacity : b'.waiterCapacity = b.waiterCapacity)
    (generation : ∀ waiter, (b'.waiters waiter).generation = (b.waiters waiter).generation)
    (prev : b'.waiterPrev = b.waiterPrev) (next : b'.waiterNext = b.waiterNext)
    (mem : ∀ {waiter}, waiter ∈ r.waiters →
      b'.waiterBody waiter = some ⟨s.requestToken slot, state.waiterState⟩)
    (not_mem : ∀ {waiter}, waiter ∉ r.waiters → b'.waiterBody waiter = b.waiterBody waiter) :
    RefinesWaiters b' (s.setState slot state) := by
  refine ⟨capacity.trans h.capacity, fun w => (generation w).trans (h.generation w), fun w => ?_,
    fun {i q} hi => ?_⟩
  · by_cases hw : w ∈ r.waiters
    · have howner : s.owner w = some slot := hs.owner_iff.mpr ⟨r, request, hw⟩
      rw [mem hw]
      simp [Registry.waiterBody, Registry.setState, howner, request, Registry.requestToken]
    · rw [not_mem hw, h.body, hs.waiterBody_setState request hw]
  · rw [prev, next]
    obtain ⟨rfl, rfl⟩ | ⟨-, hi⟩ := Registry.of_setState request hi
    · exact (h.links request :)
    · exact h.links hi

theorem unlink_returns (h : RefinesRequests b s) (hs : s.Valid)
    (request : s.requests slot = some r) (becomes : r.state.Becomes state) {unlink : Bool}
    (hunlink : unlink = (r.state.isPending && !state.isPending)) :
    Returns (Op.when unlink (unlinkPending slot) : Op ε _ _) b
      fun _ b' => Relinked b b' ∧
        RefinesRequests b' { s with
          queue := if state.isPending then s.queue else s.queue.erase slot } := by
  cases hstate : state.isPending with
  | true =>
    rw [hunlink, hstate, becomes.isPending hstate]
    exact ⟨⟨rfl, rfl, rfl, fun _ => rfl, fun _ => rfl, rfl, rfl⟩, h⟩
  | false =>
    cases hr : r.state.isPending with
    | true =>
      rw [hunlink, hr, hstate]
      exact unlinkPending_returns h hs.queued (hs.mem_queue.mpr ⟨r, request, hr⟩)
    | false =>
      have hslot : slot ∉ s.queue := by simp [hs.mem_queue, request, hr]
      rw [hunlink, hr, Bool.false_and, List.erase_of_not_mem hslot]
      exact ⟨⟨rfl, rfl, rfl, fun _ => rfl, fun _ => rfl, rfl, rfl⟩, h⟩

/-- The request goes on in its record. -/
theorem RefinesRequests.setState
    (h : RefinesRequests b { s with
      queue := if state.isPending then s.queue else s.queue.erase slot })
    (request : s.requests slot = some r) :
    RefinesRequests (b.mapRequest slot fun record => { record with state := state })
      (s.setState slot state) := by
  have hset : s.setState slot state = { s with
      queue := if state.isPending then s.queue else s.queue.erase slot
      requests := Function.update s.requests slot (some { r with state := state }) } := by
    simp [Registry.setState, request]
  rw [hset]
  refine h.mapRequest (r := r) request (fun {record} hbody => ?_) (fun _ => rfl) fun _ => rfl
  show { record.toRequestBody with state := state } = _
  rw [hbody]
  rfl

/-- The waiters of a request that has become visible are told its result. -/
theorem publishWaiters_returns (h : RefinesRequests b' (s.setState slot (.visible completion)))
    (hw : RefinesWaiters b s) (hs : s.Valid) (request : s.requests slot = some r)
    (hidden : r.state.isVisible = false) (waiters : b'.waiters = b.waiters)
    (capacity : b'.waiterCapacity = b.waiterCapacity) :
    Returns (publishWaiters slot completion : Op ε _ _) b' fun n b'' =>
      n = r.waiters.length ∧ RefinesRequests b'' (s.setState slot (.visible completion)) ∧
        RefinesWaiters b'' (s.setState slot (.visible completion)) := by
  have request' : (s.setState slot (.visible completion)).requests slot
      = some { r with state := .visible completion } := by simp [Registry.setState, request]
  obtain ⟨record, hrecord, hbody⟩ := h.record request'
  have hhead : record.waiterHead = r.waiters.head? := congrArg waiterHead hbody
  have hlt : slot < b'.requestCapacity := by
    rw [h.capacity]
    exact hs.slot_lt request
  refine .after (requestAt_run hlt) (.after rfl ?_)
  show Returns (publishFrom completion b'.waiterCapacity _ 0) b' _
  rw [hrecord, Option.bind_some, hhead, capacity]
  refine (publishFrom_returns (hs.nodup request) ?_ (fun hmem => ?_) (fun {w} hmem => ?_)
    fun {xs w ys} hsplit => ?_).mono ?_
  · rw [hw.capacity]
    exact hs.length_le request
  · rw [capacity]
    exact hw.lt hs request hmem
  · obtain ⟨record, hrecord, -, hstate⟩ := hw.record hs request hmem
    rw [waiterState_of_hidden hidden] at hstate
    exact ⟨record, waiters ▸ hrecord, hstate⟩
  · rw [waiterNext, waiters]
    exact (hw.links request).next_eq hsplit
  · rintro n b'' ⟨rfl, hpublished⟩
    refine ⟨Nat.zero_add _, h.congr hpublished.id hpublished.creditPool hpublished.requestCapacity
      hpublished.requests hpublished.head hpublished.tail, ?_⟩
    have hof_not_mem : ∀ {w}, w ∉ r.waiters → b''.waiters w = b.waiters w :=
      fun hmem => (hpublished.not_mem hmem).trans (by rw [waiters])
    have hof_mem : ∀ {w}, w ∈ r.waiters → b''.waiters w = ⟨(b.waiters w).generation,
        (b.waiters w).record.map fun record => { record with state := .ready completion }⟩ :=
      fun hmem => (hpublished.mem hmem).trans (by rw [waiters])
    refine hw.setState hs request (hpublished.capacity.trans capacity) (fun w => ?_) ?_ ?_
      (fun {w} hmem => ?_) fun {w} hmem => ?_
    · by_cases hmem : w ∈ r.waiters
      · rw [hof_mem hmem]
      · rw [hof_not_mem hmem]
    · funext w
      by_cases hmem : w ∈ r.waiters
      · rw [waiterPrev, hof_mem hmem]
        exact bind_map_of_eq fun _ => rfl
      · simp [waiterPrev, hof_not_mem hmem]
    · funext w
      by_cases hmem : w ∈ r.waiters
      · rw [waiterNext, hof_mem hmem]
        exact bind_map_of_eq fun _ => rfl
      · simp [waiterNext, hof_not_mem hmem]
    · obtain ⟨record, hrecord, hrequest, -⟩ := hw.record hs request hmem
      simp [waiterBody, hof_mem hmem, hrecord, hrequest, waiterState]
    · simp [waiterBody, hof_not_mem hmem]

/-! ### Completion and release -/

/-- A request goes on to a state that its waiters do not see. -/
theorem Refines.setState_hidden (h : Refines b s) (request : s.requests slot = some r)
    (becomes : r.state.Becomes state) (hidden : state.isVisible = false) (hb : Relinked b b')
    (hrequests : RefinesRequests b' { s with
      queue := if state.isPending then s.queue else s.queue.erase slot }) :
    Refines (b'.mapRequest slot fun record => { record with state := state })
      (s.setState slot state) := by
  refine ⟨hrequests.setState request, ?_, h.valid.setState request becomes, h.bounded⟩
  have hstate : state.waiterState = r.state.waiterState := by
    rw [waiterState_of_hidden hidden,
      waiterState_of_hidden becomes.not_visible]
  refine h.waiters.setState h.valid request hb.waiterCapacity (fun w => ?_) ?_ ?_
    (fun {w} hmem => ?_) fun {w} hmem => ?_
  · show (b'.waiters w).generation = _
    rw [hb.waiters]
  · funext w
    show (b'.waiters w).record.bind _ = _
    rw [hb.waiters]
    rfl
  · funext w
    show (b'.waiters w).record.bind _ = _
    rw [hb.waiters]
    rfl
  · show (b'.waiters w).record.map _ = _
    rw [hb.waiters, hstate, ← h.valid.waiterBody_of_mem request hmem]
    exact h.waiters.body w
  · show (b'.waiters w).record.map _ = _
    rw [hb.waiters]
    rfl

section

variable (h : Refines b s)
include h

/-- A request becomes visible. -/
theorem visible_returns (request : s.requests slot = some r)
    (becomes : r.state.Becomes (.visible completion)) {unlink : Bool}
    (hunlink : unlink = r.state.isPending) :
    Returns (do
      Op.when unlink (unlinkPending slot)
      Op.modify (mapRequest slot fun record =>
        { record with state := .visible completion })
      publishWaiters slot completion : Op ε _ _) b
      fun n b' => n = r.waiters.length ∧ Refines b' (s.setState slot (.visible completion)) := by
  refine (unlink_returns h.requests h.valid request becomes
    (hunlink.trans (Bool.and_true _).symm)).bind ?_
  rintro _ b₁ ⟨hb, hrequests⟩
  refine .after rfl ?_
  refine (publishWaiters_returns (hrequests.setState request) h.waiters h.valid request
    becomes.not_visible hb.waiters hb.waiterCapacity).mono ?_
  rintro n b' ⟨hn, hrequests', hwaiters'⟩
  exact ⟨hn, hrequests', hwaiters', h.valid.setState request becomes, h.bounded⟩

theorem Refines.requestAt_ok (request : s.requests slot = some r) :
    ∃ record, requestAt slot b = (.ok (some record) b : Outcome ε _ _) ∧
      record.toRequestBody = r.body := by
  obtain ⟨record, hrecord, hbody⟩ := h.requests.record request
  exact ⟨record, hrecord ▸ requestAt_run (h.requests.capacity ▸ h.valid.slot_lt request), hbody⟩

theorem completeSlot_returns {visibility : CompletionVisibility}
    (lt : slot < s.requestCapacity) :
    Returns (completeSlot slot completion visibility : Op ε _ _) b fun n b' =>
      n = (s.completeSlot slot completion visibility).1 ∧
        Refines b' (s.completeSlot slot completion visibility).2 := by
  refine .after (requestAt_run (h.requests.capacity ▸ lt)) ?_
  rw [h.requests.map state]
  unfold Registry.completeSlot
  cases request : s.requests slot with
  | none => exact .intro rfl ⟨rfl, h⟩
  | some r =>
    dsimp only [Option.map_some, Request.body]
    cases hchange : completion? (some r.state) completion visibility with
    | none => exact .intro rfl ⟨rfl, h⟩
    | some change =>
      obtain ⟨state, unlink, publish⟩ := change
      have becomes := becomes_of_completion hchange
      cases publish with
      | true =>
        obtain ⟨rfl, hunlink⟩ := completion_publish hchange
        exact visible_returns h request becomes hunlink
      | false =>
        obtain ⟨hidden, rfl, hqueued⟩ := completion_hide hchange
        refine (unlink_returns h.requests h.valid request becomes (by simp [hqueued])).bind ?_
        rintro _ b₁ ⟨hb, hrequests⟩
        exact .intro rfl ⟨rfl, h.setState_hidden request becomes hidden hb hrequests⟩

theorem releaseSlot_returns (lt : slot < s.requestCapacity) :
    Returns (releaseSlot slot : Op ε _ _) b fun n b' =>
      n = (s.releaseSlot slot).1 ∧ Refines b' (s.releaseSlot slot).2 := by
  refine .after (requestAt_run (h.requests.capacity ▸ lt)) ?_
  rw [h.requests.map state]
  unfold Registry.releaseSlot
  cases request : s.requests slot with
  | none => exact .intro rfl ⟨rfl, h⟩
  | some r =>
    dsimp only [Option.map_some, Request.body]
    cases hchange : deferred? (some r.state) with
    | none => exact .intro rfl ⟨rfl, h⟩
    | some change =>
      obtain ⟨completion, unlink⟩ := change
      exact visible_returns h request (becomes_of_deferred hchange)
        (deferred_unlink hchange)

theorem complete_follows (token : RequestToken) (completion : C)
    (visibility : CompletionVisibility) :
    Follows (complete token completion visibility) b
      (s.complete token completion visibility) := by
  unfold Registry.complete
  cases request : s.request? token with
  | none => exact .error (bind_of_error (h.requestSlot_error request)) h
  | some r =>
    have request' := Registry.requests_of_request? request
    have hlt := h.valid.slot_lt request'
    obtain ⟨record, hread, hbody⟩ := h.requestAt_ok request'
    refine .after (h.requestSlot_ok request) (.after hread ?_)
    rw [Option.all_some, hbody]
    dsimp only
    by_cases hopen : r.state.isOpen
    · rw [if_pos hopen]
      exact .after (require_of hopen) (.ok (completeSlot_returns h hlt))
    · rw [if_neg hopen]
      exact .error (bind_of_error (require_of_not hopen)) h

theorem release_follows (token : RequestToken) :
    Follows (release token) b (s.release token) := by
  unfold Registry.release
  cases request : s.request? token with
  | none => exact .error (bind_of_error (h.requestSlot_error request)) h
  | some r =>
    have request' := Registry.requests_of_request? request
    have hlt := h.valid.slot_lt request'
    obtain ⟨record, hread, hbody⟩ := h.requestAt_ok request'
    refine .after (h.requestSlot_ok request) (.after hread ?_)
    dsimp only
    rw [congrArg state hbody, Request.body]
    cases r.state with
    | pending | delivered => exact .error rfl h
    | visible completion => exact .ok (.intro rfl ⟨rfl, h⟩)
    | deferredPending completion | deferredDelivered completion =>
      exact .ok (releaseSlot_returns h hlt)

theorem completeIf_returns (predicate : RequestSnapshot K H → Bool)
    (completion : C) (visibility : CompletionVisibility) (summary : CompletionSummary)
    (lt : slot < s.requestCapacity) :
    Returns (completeIf predicate completion visibility summary slot : Op ε _ _) b
      fun summary' b' =>
        summary' = (s.completeIf predicate completion visibility summary slot).1 ∧
        Refines b' (s.completeIf predicate completion visibility summary slot).2 := by
  unfold completeIf Registry.completeIf
  refine .after h.read_snapshot ?_
  cases s.snapshot slot with
  | none => exact .intro rfl ⟨rfl, h⟩
  | some snapshot =>
    dsimp only
    split
    · refine (completeSlot_returns h lt).bind ?_
      rintro _ b' ⟨rfl, h'⟩
      exact .intro rfl ⟨rfl, h'⟩
    · exact .intro rfl ⟨rfl, h⟩

theorem releaseIf_returns (predicate : RequestSnapshot K H → Bool)
    (summary : CompletionSummary) (lt : slot < s.requestCapacity) :
    Returns (releaseIf predicate summary slot : Op ε _ _) b
      fun summary' b' => summary' = (s.releaseIf predicate summary slot).1 ∧
        Refines b' (s.releaseIf predicate summary slot).2 := by
  unfold releaseIf Registry.releaseIf
  refine .after h.read_snapshot ?_
  cases s.snapshot slot with
  | none => exact .intro rfl ⟨rfl, h⟩
  | some snapshot =>
    dsimp only
    split
    · refine (releaseSlot_returns h lt).bind ?_
      rintro _ b' ⟨rfl, h'⟩
      exact .intro rfl ⟨rfl, h'⟩
    · exact .intro rfl ⟨rfl, h⟩

end

/-- A loop over slots follows when one pass does. -/
theorem forSlots_returns
    {body : CompletionSummary → Nat → Op ε (FaultBroker K H C) CompletionSummary}
    {body' : Registry K H C → CompletionSummary → Nat → CompletionSummary × Registry K H C}
    (hbody : ∀ {b s} (summary : CompletionSummary) {slot}, Refines b s → slot < s.requestCapacity →
      Returns (body summary slot) b fun summary' b' =>
        summary' = (body' s summary slot).1 ∧ Refines b' (body' s summary slot).2)
    (hcapacity : ∀ s summary slot, (body' s summary slot).2.requestCapacity = s.requestCapacity)
    {slots : List Nat} (lt : ∀ {slot}, slot ∈ slots → slot < s.requestCapacity) (h : Refines b s)
    (summary : CompletionSummary) :
    Returns (forSlots body slots summary) b fun summary' b' =>
      summary' = (Registry.forSlots body' slots summary s).1 ∧
        Refines b' (Registry.forSlots body' slots summary s).2 := by
  induction slots generalizing summary b s with
  | nil => exact .intro rfl ⟨rfl, h⟩
  | cons slot rest ih =>
    refine (hbody summary h (lt List.mem_cons_self)).bind ?_
    rintro _ b' ⟨rfl, h'⟩
    refine ih (fun hslot => ?_) h' _
    rw [hcapacity]
    exact lt (List.mem_cons_of_mem _ hslot)

theorem completeWhere_returns (h : Refines b s) (predicate : RequestSnapshot K H → Bool)
    (completion : C) (visibility : CompletionVisibility) :
    Returns (completeWhere predicate completion visibility : Op ε _ _) b
      fun summary b' => summary = (s.completeWhere predicate completion visibility).1 ∧
        Refines b' (s.completeWhere predicate completion visibility).2 := by
  refine .after (congrArg (Outcome.ok · b) h.requests.capacity) ?_
  exact forSlots_returns (fun summary _ h lt => completeIf_returns h _ _ _ summary lt)
    (fun s summary slot =>
      let ⟨_, settles, _⟩ := s.completeIf_adds predicate completion visibility summary slot
      settles.requestCapacity)
    List.mem_range.mp h _

theorem releaseWhere_returns (h : Refines b s) (predicate : RequestSnapshot K H → Bool) :
    Returns (releaseWhere predicate : Op ε _ _) b
      fun summary b' => summary = (s.releaseWhere predicate).1 ∧
        Refines b' (s.releaseWhere predicate).2 := by
  refine .after (congrArg (Outcome.ok · b) h.requests.capacity) ?_
  exact forSlots_returns (fun summary _ h lt => releaseIf_returns h _ summary lt)
    (fun s summary slot =>
      let ⟨_, settles, _⟩ := s.releaseIf_adds predicate summary slot
      settles.requestCapacity)
    List.mem_range.mp h _

theorem detachHandler_returns [DecidableEq H] (h : Refines b s) (handler : H) (completion : C) :
    Returns (detachHandler handler completion : Op ε _ _) b
      fun summary b' => summary = (s.detachHandler handler completion).1 ∧
        Refines b' (s.detachHandler handler completion).2 := by
  refine (completeWhere_returns h _ _ _).bind ?_
  rintro _ b₁ ⟨rfl, h₁⟩
  refine (releaseWhere_returns h₁ _).bind ?_
  rintro _ b₂ ⟨rfl, h₂⟩
  exact .intro rfl ⟨rfl, h₂⟩

/-! ### Claims -/

/-- The oldest request of the handler is claimed. -/
theorem claim_returns (h : Refines b s) (request : s.requests slot = some r)
    (hclaimed : r.state.claimed = some state) :
    Returns (do
      unlinkPending slot
      match ← requestAt slot with
      | none => pure none
      | some _ => do
        Op.modify (mapRequest slot fun record => { record with state := state })
        Op.read (snapshotSlot · slot) : Op ε _ _) b
      fun snapshot b' => snapshot = (s.setState slot state).snapshot slot ∧
        Refines b' (s.setState slot state) := by
  have becomes := becomes_of_claimed hclaimed
  obtain ⟨hstate, hpending, hidden⟩ := isPending_of_claimed hclaimed
  have mem : slot ∈ s.queue := h.valid.mem_queue.mpr ⟨r, request, hstate⟩
  refine (unlinkPending_returns h.requests h.valid.queued mem).bind ?_
  rintro _ b₁ ⟨hb, h₁⟩
  have hlt : slot < b₁.requestCapacity := by
    rw [h₁.capacity]
    exact h.valid.slot_lt request
  obtain ⟨record, hrecord, -⟩ := h₁.record request
  refine .after (requestAt_run hlt) ?_
  rw [hrecord]
  have hrefines := h.setState_hidden request becomes hidden hb (by rw [hpending]; exact h₁)
  exact .after rfl (.intro hrefines.read_snapshot ⟨rfl, hrefines⟩)

section Claims

variable [DecidableEq H] {handler : H}

theorem claimFrom_returns (h : Refines b s) {skipped rest : List Nat} {fuel : Nat}
    (queue : s.queue = skipped ++ rest) (enough : rest.length ≤ fuel)
    (skip : ∀ i ∈ skipped, ∀ r, s.requests i = some r → r.handler ≠ handler) :
    Returns (claimFrom handler fuel rest.head? : Op ε _ _) b fun snapshot b' =>
      snapshot = (s.claimNext handler).1 ∧ Refines b' (s.claimNext handler).2 := by
  have hskipped : skipped.find? (fun i => (s.requests i).any fun r => r.handler = handler)
      = none := by
    refine List.find?_eq_none.mpr fun i hi => ?_
    cases request : s.requests i with
    | none => simp
    | some r => simpa using skip i hi r request
  induction rest generalizing skipped fuel with
  | nil =>
    have holdest : s.oldest handler = none := by
      rw [Registry.oldest, queue, List.append_nil]
      exact hskipped
    refine .intro (by cases fuel <;> rfl) ?_
    rw [Registry.claimNext, holdest]
    exact ⟨rfl, h⟩
  | cons slot rest ih =>
    have mem : slot ∈ s.queue := by simp [queue]
    obtain ⟨r, request, hpending⟩ := h.valid.mem_queue.mp mem
    obtain ⟨record, hrecord, hbody⟩ := h.requests.record request
    have hhandler : record.handler = r.handler := congrArg RequestBody.handler hbody
    have hstate : record.state = r.state := congrArg RequestBody.state hbody
    have hnext : record.pendingNext = rest.head? := by
      have := h.requests.queue.next_eq queue
      simpa [pendingNext, hrecord] using this
    obtain ⟨state, hclaimed⟩ := claimed_of_isPending hpending
    cases fuel with
    | zero => simp at enough
    | succ fuel =>
      refine .after (congrArg (Outcome.ok · b) (h.request?.trans hrecord)) ?_
      dsimp only
      by_cases hne : r.handler = handler
      · have holdest : s.oldest handler = some slot := by
          rw [Registry.oldest, queue, List.find?_append, hskipped]
          simp [request, hne]
        rw [if_neg (not_not.mpr (hhandler.trans hne)), hstate, hclaimed, Registry.claimNext,
          holdest]
        dsimp only
        rw [request, Option.bind_some, hclaimed]
        exact claim_returns h request hclaimed
      · rw [if_pos (hhandler ▸ hne), hnext]
        have queue' : s.queue = (skipped ++ [slot]) ++ rest := by simpa using queue
        refine ih queue' (by simpa using enough) ?_ ?_
        · intro i hi q hq
          rcases List.mem_append.mp hi with hi | hi
          · exact skip i hi q hq
          · obtain rfl := List.mem_singleton.mp hi
            obtain rfl : r = q := Option.some.inj (request.symm.trans hq)
            exact hne
        · rw [List.find?_append, hskipped]
          simp [request, hne]

theorem claimNext_returns (h : Refines b s) :
    Returns (claimNext handler : Op ε _ _) b fun snapshot b' =>
      snapshot = (s.claimNext handler).1 ∧ Refines b' (s.claimNext handler).2 := by
  refine .after rfl ?_
  show Returns (claimFrom handler b.requestCapacity b.pendingHead) b _
  rw [h.requests.queue.head_eq]
  refine claimFrom_returns h (List.nil_append s.queue).symm ?_ (fun _ hi => nomatch hi)
  rw [h.requests.capacity]
  exact h.valid.queue_length_le

end Claims

end KernelAx.Fault
