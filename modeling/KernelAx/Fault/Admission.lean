import KernelAx.Fault.Refines

/-!
# Fault broker — Admission

`admit` follows the registry. What it checks before it asks for a credit holds (`plan_join`,
`plan_open`), so that it fails for want of a slot, a generation or a credit only; a new request goes
to the end of the queue and the waiter to the end of the list of its request.
-/

namespace KernelAx.Fault

open Transaction FaultBroker

variable {K H C ε : Type} {b b' : FaultBroker K H C} {s s' : Registry K H C} {slot : Nat}
  {r : Request K H C}

/-! ### Choices -/

/-- A search through the slots of requests. -/
theorem RefinesRequests.any (h : RefinesRequests b s) (p : RequestBody K H C → Bool) :
    (b.requests slot).record.any (fun record => p record.toRequestBody)
      = (s.requests slot).any fun r => p r.body := by
  cases request : s.requests slot with
  | none => rw [h.record_none request]; rfl
  | some r =>
    obtain ⟨record, hrecord, hbody⟩ := h.record request
    rw [hrecord, Option.any_some, Option.any_some, hbody]

theorem RefinesRequests.isNone (h : RefinesRequests b s) (slot : Nat) :
    (b.requests slot).record.isNone = (s.requests slot).isNone := by
  have hbody := congrArg Option.isNone (h.body slot)
  simpa only [FaultBroker.body, Option.isNone_map] using hbody

/-- Both choose the same slot for the waiter. -/
theorem Refines.planWaiter (h : Refines b s) : b.planWaiter = s.chooseWaiter := by
  unfold FaultBroker.planWaiter FaultBroker.chooseWaiterSlot
  rw [h.waiters.capacity, funext h.waiters.generation, funext h.waiter_isNone]
  rfl

section

variable [DecidableEq K] [DecidableEq H] (handler : H) (key : K)

/-- Both find the same request to join. -/
theorem RefinesRequests.matching (h : RefinesRequests b s) :
    b.matching handler key = s.matching handler key := by
  unfold FaultBroker.matching Registry.matching
  rw [h.capacity]
  congr 1
  funext slot
  exact h.any fun body => body.handler = handler ∧ body.key = key ∧ ¬ body.state.isVisible

/-- Both choose the same slot for the request. -/
theorem RefinesRequests.planRequest (h : RefinesRequests b s) :
    b.planRequest handler key = s.chooseRequest handler key := by
  unfold FaultBroker.planRequest Registry.chooseRequest FaultBroker.chooseRequestSlot
  rw [h.matching, h.capacity, funext h.generation, funext h.isNone]
  cases s.matching handler key with
  | none => rfl
  | some slot => simp only [h.generation]

end

/-! ### Checks -/

variable {waiter : Nat}

/-- With a free slot for a waiter there is room for one more at every request. -/
theorem Registry.Vacant.length_lt {generation : Nat} (vacant : s.Vacant waiter generation)
    (hs : s.Valid) (request : s.requests slot = some r) : r.waiters.length < s.waiterCapacity := by
  have hsubset : waiter :: r.waiters ⊆ List.range s.waiterCapacity := by
    intro w hw
    rcases List.mem_cons.mp hw with rfl | hw
    · exact List.mem_range.mpr vacant.lt
    · exact List.mem_range.mpr ((hs.proper request).waiter_lt hw)
  have hnodup : (waiter :: r.waiters).Nodup :=
    List.nodup_cons.mpr ⟨vacant.not_mem hs request, hs.nodup request⟩
  have hlength := (hnodup.subperm hsubset).length_le
  rwa [List.length_cons, List.length_range] at hlength

theorem Refines.planCount_join (h : Refines b s) (request : s.requests slot = some r)
    (lt : r.waiters.length < s.waiterCapacity) :
    b.planCount slot true = .ok (r.waiters.length + 1) := by
  obtain ⟨record, hrecord, hbody⟩ := h.requests.record request
  have hcount : record.waiterCount = r.waiters.length := congrArg RequestBody.waiterCount hbody
  have hbounded := h.bounded
  have hmax : r.waiters.length + 1 ≤ usizeMax := by omega
  have hcapacity : ¬ b.waiterCapacity < r.waiters.length + 1 := by
    rw [h.waiters.capacity]
    omega
  unfold planCount
  rw [hrecord]
  simp only [hcount, if_pos hmax, ↓reduceIte, ok_bind, if_neg hcapacity]

theorem Refines.planCount_open (h : Refines b s) (lt : 0 < s.waiterCapacity) :
    b.planCount slot false = .ok 1 := by
  have hcapacity : ¬ b.waiterCapacity < 1 := by
    rw [h.waiters.capacity]
    omega
  unfold planCount
  simp only [Bool.false_eq_true, ↓reduceIte, ok_bind, if_neg hcapacity]

/-- The new waiter goes behind the last one of the request. -/
theorem Refines.planLink_join (h : Refines b s) (request : s.requests slot = some r) :
    b.planLink (s.requestToken slot) true = .ok r.waiters.getLast? := by
  obtain ⟨record, hrecord, hbody⟩ := h.requests.record request
  have hcount : record.waiterCount = r.waiters.length := congrArg RequestBody.waiterCount hbody
  have hhead : record.waiterHead = r.waiters.head? := congrArg RequestBody.waiterHead hbody
  have htail : record.waiterTail = r.waiters.getLast? := congrArg RequestBody.waiterTail hbody
  have hne := h.valid.nonempty request
  obtain ⟨tail, hlast⟩ : ∃ tail, r.waiters.getLast? = some tail :=
    ⟨_, List.getLast?_eq_some_getLast hne⟩
  have mem := List.mem_of_getLast? hlast
  obtain ⟨waiter, hwaiter, hrequest, -⟩ := h.waiters.record h.valid request mem
  have hlt := h.waiters.lt h.valid request mem
  have hnext : waiter.next = none := by
    have := ((h.waiters.links request).next_eq_none_iff mem).mpr hlast
    simpa [waiterNext, hwaiter] using this
  unfold planLink
  rw [if_pos rfl, show (s.requestToken slot).slot = slot from rfl, hrecord]
  simp [hcount, hhead, htail, hne, hlast, waiter?, hlt, hwaiter, hrequest, hnext]

/-- The new request goes behind the last one of the queue. -/
theorem Refines.planLink_open (h : Refines b s) (request : RequestToken) :
    b.planLink request false = .ok none := by
  have hends : b.pendingHead.isSome = b.pendingTail.isSome := by
    rw [h.requests.queue.head_eq, h.requests.queue.tail_eq]
    cases s.queue with
    | nil => rfl
    | cons slot rest => simp [List.getLast?_cons]
  unfold planLink
  rw [if_neg Bool.false_ne_true, if_neg (not_not.mpr hends)]
  cases htail : b.pendingTail with
  | none => rfl
  | some tail =>
    have mem := h.requests.queue.mem_of_tail htail
    obtain ⟨r, hr, hpending⟩ := h.valid.mem_queue.mp mem
    obtain ⟨record, hrecord, hbody⟩ := h.requests.record hr
    have hstate : record.state = r.state := congrArg RequestBody.state hbody
    have hnext : record.pendingNext = none := by
      have := (h.requests.queue.next_eq_none_iff mem).mpr htail
      simpa [pendingNext, hrecord] using this
    simp [h.request?, hrecord, hstate, hpending, hnext]

/-! ### A new request -/

theorem expectRequest_run {record : RequestRecord K H C} (lt : slot < b.requestCapacity)
    (hrecord : (b.requests slot).record = some record) :
    expectRequest slot b = (.ok () b : Outcome ε _ _) := by
  refine (bind_of_ok (requestAt_run lt)).trans ?_
  rw [hrecord]
  rfl

theorem expectWaiter_run {record : WaiterRecord C} (lt : waiter < b.waiterCapacity)
    (hrecord : (b.waiters waiter).record = some record) :
    expectWaiter waiter b = (.ok () b : Outcome ε _ _) := by
  refine (bind_of_ok (waiterAt_run lt)).trans ?_
  rw [hrecord]
  rfl

/-- The last slot of the queue, or the head, is linked to the new one. -/
theorem linkTail_returns {tail : Option Nat}
    (lt : ∀ {i}, tail = some i → i < b.requestCapacity ∧ (b.requests i).record.isSome) :
    Returns (linkTail tail slot : Op ε _ _) b
      fun _ b' => NextLinked b b' tail (some slot) := by
  cases tail with
  | none =>
    show Returns (linkNext none (some slot)) b _
    exact linkNext_returns fun hi => nomatch hi
  | some tail =>
    obtain ⟨hlt, hsome⟩ := lt rfl
    obtain ⟨record, hrecord⟩ := Option.isSome_iff_exists.mp hsome
    have hlink : Returns (linkNext (some tail) (some slot) : Op ε _ _) b
        fun _ b' => NextLinked b b' (some tail) (some slot) :=
      linkNext_returns fun hi => (lt hi).1
    unfold Returns at hlink ⊢
    rw [linkTail, bind_of_ok (expectRequest_run hlt hrecord)]
    rwa [linkNext, bind_of_ok (requestAt_run hlt)] at hlink

/-- A new request is written and queued, without a waiter yet. -/
theorem publishRequest_returns (h : RefinesRequests b s) (queued : Queued s)
    (free : s.requests slot = none) {p : FaultBroker.Plan} (hslot : p.requestSlot = slot)
    (handler : H) (key : K) :
    Returns (publishRequest p handler key : Op ε _ _) b fun _ b' =>
      b'.waiters = b.waiters ∧ b'.waiterCapacity = b.waiterCapacity ∧
        RefinesRequests b' (s.openRequest slot p.requestGeneration handler key) := by
  subst hslot
  have hqueue : p.requestSlot ∉ s.queue := by
    intro hmem
    obtain ⟨-, r, hr⟩ := queued _ hmem
    rw [free] at hr
    cases hr
  refine .after rfl (.after rfl ?_)
  generalize hb₁ : b.setRequest p.requestSlot _ = b₁
  have hself : b₁.requests p.requestSlot = ⟨p.requestGeneration,
      some { key, handler, state := .pending, waiterHead := none, waiterTail := none,
             waiterCount := 0, pendingPrev := b.pendingTail, pendingNext := none }⟩ := by
    simp [← hb₁, setRequest]
  have hof_ne : ∀ {i}, i ≠ p.requestSlot → b₁.requests i = b.requests i := by
    intro i hi
    simp [← hb₁, setRequest, hi]
  have hsome : ∀ {i}, i ∈ s.queue → i ≠ p.requestSlot ∧ i < b.requestCapacity ∧
      (b.requests i).record.isSome := by
    intro i hi
    obtain ⟨hlt, r, hr⟩ := queued i hi
    obtain ⟨record, hrecord, -⟩ := h.record hr
    exact ⟨fun heq => hqueue (heq ▸ hi), h.capacity ▸ hlt, by simp [hrecord]⟩
  refine (linkTail_returns fun {i} hi => ?_).bind ?_
  · obtain ⟨hne, hlt, hrecord⟩ := hsome (h.queue.mem_of_tail hi)
    rw [hof_ne hne, ← hb₁]
    exact ⟨hlt, hrecord⟩
  intro _ b₂ h₂
  refine .intro rfl ⟨?_, ?_, ?_, ?_, ?_, fun i => ?_, fun i => ?_, ?_⟩
  · exact h₂.waiters.trans (by rw [← hb₁]; rfl)
  · exact h₂.waiterCapacity.trans (by rw [← hb₁]; rfl)
  · exact h₂.id.trans (by rw [← hb₁]; exact h.id)
  · exact h₂.creditPool.trans (by rw [← hb₁]; exact h.creditPool)
  · exact h₂.capacity.trans (by rw [← hb₁]; exact h.capacity)
  · refine (h₂.generation i).trans ?_
    by_cases hi : i = p.requestSlot
    · simp [hi, hself, Registry.openRequest]
    · simp [hof_ne hi, Registry.openRequest, hi, h.generation]
  · refine (h₂.body i).trans ?_
    by_cases hi : i = p.requestSlot
    · simp [hi, body, hself, Registry.openRequest, Request.body]
    · rw [body, hof_ne hi]
      simpa [Registry.openRequest, hi, body] using h.body i
  · -- the new slot points back to the old tail, and the old tail to it
    have hhead : b₂.pendingHead = if b.pendingTail = none then some p.requestSlot
        else b.pendingHead := by
      rw [h₂.head_eq, ← hb₁]
      rfl
    show Linked b₂.pendingPrev b₂.pendingNext b₂.pendingHead (some p.requestSlot) _
    rw [hhead]
    refine h.queue.append hqueue ?_ ?_ (fun i hi => ?_) fun i hi => ?_
    · rw [h₂.prev_eq]
      simp [pendingPrev, hself]
    · have hne : b.pendingTail ≠ some p.requestSlot := fun hi => hqueue (h.queue.mem_of_tail hi)
      rw [h₂.next_eq (by simp [hself]), if_neg hne]
      simp [pendingNext, hself]
    · rw [h₂.prev_eq, pendingPrev, hof_ne (hsome hi).1]
      rfl
    · have hi' : (b₁.requests i).record.isSome := by
        rw [hof_ne (hsome hi).1]
        exact (hsome hi).2.2
      rw [h₂.next_eq hi', pendingNext, hof_ne (hsome hi).1]
      rfl

/-! ### A new waiter -/

theorem RefinesWaiters.record_of_owned (h : RefinesWaiters b s) (owned : s.Owned)
    (request : s.requests slot = some r) (mem : waiter ∈ r.waiters) :
    (b.waiters waiter).record.isSome := by
  have howner := (owned waiter slot).mpr ⟨r, request, mem⟩
  have hbody := congrArg Option.isSome (h.body waiter)
  rw [waiterBody, Option.isSome_map] at hbody
  rw [hbody]
  simp [Registry.waiterBody, howner, request]

/-- The list of the request, with the new waiter behind the last one. -/
theorem RefinesWaiters.join (h : RefinesWaiters b s) (owned : s.Owned)
    (request : s.requests slot = some r) (hidden : r.state.isVisible = false)
    {waiter generation : Nat} (free : s.owner waiter = none)
    (capacity : b'.waiterCapacity = b.waiterCapacity)
    (self : b'.waiters waiter
      = ⟨generation, some ⟨⟨s.requestToken slot, .active⟩, r.waiters.getLast?, none⟩⟩)
    (of_ne : ∀ {i}, i ≠ waiter → (b'.waiters i).generation = (b.waiters i).generation ∧
      (b'.waiters i).record = if r.waiters.getLast? = some i
        then (b.waiters i).record.map fun record => { record with next := some waiter }
        else (b.waiters i).record) :
    RefinesWaiters b' (s.join slot waiter generation) := by
  have hfree : ∀ {j q}, s.requests j = some q → ∀ {i}, i ∈ q.waiters → i ≠ waiter := by
    rintro j q hq i hi rfl
    have howner := (owned i j).mpr ⟨q, hq, hi⟩
    rw [free] at howner
    cases howner
  have hprev : ∀ {i}, i ≠ waiter → b'.waiterPrev i = b.waiterPrev i := by
    intro i hi
    rw [waiterPrev, (of_ne hi).2]
    split
    · exact bind_map_of_eq fun _ => rfl
    · rfl
  have hnext : ∀ {i}, i ≠ waiter → (b.waiters i).record.isSome → b'.waiterNext i
      = if r.waiters.getLast? = some i then some waiter else b.waiterNext i := by
    intro i hi hsome
    obtain ⟨record, hrecord⟩ := Option.isSome_iff_exists.mp hsome
    rw [waiterNext, (of_ne hi).2]
    split
    · simp [hrecord]
    · rfl
  refine ⟨capacity.trans h.capacity, fun i => ?_, fun i => ?_, fun {j q} hj => ?_⟩
  · by_cases hi : i = waiter
    · simp [hi, self, Registry.join]
    · simp [(of_ne hi).1, Registry.join, hi, h.generation]
  · by_cases hi : i = waiter
    · simp [hi, waiterBody, self, Registry.waiterBody, Registry.join, request,
        Registry.requestToken, RequestState.waiterState_of_hidden hidden]
    · have hbody : b'.waiterBody i = b.waiterBody i := by
        rw [waiterBody, (of_ne hi).2]
        split
        · simp [waiterBody, Function.comp_def]
        · rfl
      have hsame : (s.join slot waiter generation).waiterBody i = s.waiterBody i := by
        unfold Registry.waiterBody
        have howner : (s.join slot waiter generation).owner i = s.owner i := by
          simp [Registry.join, hi]
        rw [howner]
        cases s.owner i with
        | none => rfl
        | some j =>
          by_cases hj : j = slot <;> simp [Registry.join, request, Registry.requestToken, hj]
      rw [hbody, h.body, hsame]
  · obtain ⟨rfl, rfl⟩ | ⟨hjs, hq⟩ := Registry.of_join request hj
    · refine ((h.links request).append (fun hmem => hfree request hmem rfl) ?_ ?_
        (fun i hi => hprev (hfree request hi)) fun i hi => ?_).ends
      · simp [waiterPrev, self]
      · simp [waiterNext, self]
      · rw [hnext (hfree request hi) (h.record_of_owned owned request hi)]
    · -- the last waiter of the request is on no other list
      refine (h.links hq).congr (fun i hi => hprev (hfree hq hi)) fun i hi => ?_
      rw [hnext (hfree hq hi) (h.record_of_owned owned hq hi), if_neg]
      intro hlast
      have hi' := (owned i slot).mpr ⟨r, request, List.mem_of_getLast? hlast⟩
      have hj' := (owned i j).mpr ⟨q, hq, hi⟩
      exact hjs (Option.some.inj (hj'.symm.trans hi'))

theorem linkWaiter_returns {previous : Option Nat}
    (lt : ∀ {i}, previous = some i → i < b.waiterCapacity ∧ (b.waiters i).record.isSome) :
    Returns (linkWaiter previous waiter : Op ε _ _) b fun _ b' =>
      Rewaited b b' previous fun record => { record with next := some waiter } := by
  cases previous with
  | none => exact .intro rfl Rewaited.refl
  | some previous =>
    obtain ⟨hlt, hsome⟩ := lt rfl
    obtain ⟨record, hrecord⟩ := Option.isSome_iff_exists.mp hsome
    exact .after (expectWaiter_run hlt hrecord) (.intro rfl (rewaited_mapWaiter fun _ => rfl))

/-- The record of a request that a waiter joins. -/
theorem addWaiter_body {p : FaultBroker.Plan} (hcount : p.nextWaiterCount = r.waiters.length + 1)
    {record : RequestRecord K H C} (hbody : record.toRequestBody = r.body) :
    (addWaiter p record).toRequestBody
      = Request.body { r with waiters := r.waiters ++ [p.waiterSlot] } := by
  show { record.toRequestBody with
    waiterHead := if record.toRequestBody.waiterHead.isNone then some p.waiterSlot
      else record.toRequestBody.waiterHead
    waiterTail := some p.waiterSlot
    waiterCount := p.nextWaiterCount } = _
  rw [hbody, hcount]
  simp only [Request.body, RequestBody.mk.injEq, true_and]
  refine ⟨?_, by simp, by simp⟩
  show (if r.waiters.head?.isNone then some p.waiterSlot else r.waiters.head?) = _
  cases r.waiters <;> rfl

/-- A waiter is linked behind the others of its request. -/
theorem attachWaiter_returns (hr : RefinesRequests b s) (hw : RefinesWaiters b s)
    (owned : s.Owned) (request : s.requests slot = some r) (lt : slot < s.requestCapacity)
    (hidden : r.state.isVisible = false) {generation : Nat} (vacant : s.Vacant waiter generation)
    (waiter_lt : ∀ {i}, i ∈ r.waiters → i < s.waiterCapacity) (coalesced : Bool) :
    Returns (attachWaiter ⟨slot, s.requestGeneration slot, coalesced, waiter,
        generation, r.waiters.length + 1, r.waiters.getLast?⟩ : Op ε _ _) b fun admission b' =>
      admission = ⟨s.requestToken slot, ⟨s.id, waiter, generation⟩, coalesced⟩ ∧
        RefinesRequests b' (s.join slot waiter generation) ∧
        RefinesWaiters b' (s.join slot waiter generation) := by
  have htoken : (⟨b.id, slot, s.requestGeneration slot⟩ : RequestToken) = s.requestToken slot := by
    rw [hr.id]
    rfl
  refine .after rfl (.after rfl ?_)
  dsimp only
  rw [htoken]
  generalize hb₁ : b.setWaiter waiter _ = b₁
  have hself : b₁.waiters waiter
      = ⟨generation, some ⟨⟨s.requestToken slot, .active⟩, r.waiters.getLast?, none⟩⟩ := by
    simp [← hb₁, setWaiter]
  have hof_ne : ∀ {i}, i ≠ waiter → b₁.waiters i = b.waiters i := by
    intro i hi
    simp [← hb₁, setWaiter, hi]
  have hne : ∀ {i}, i ∈ r.waiters → i ≠ waiter := by
    rintro i hi rfl
    have howner := (owned i slot).mpr ⟨r, request, hi⟩
    rw [vacant.owner] at howner
    cases howner
  refine (linkWaiter_returns fun {i} hi => ?_).bind ?_
  · have mem := List.mem_of_getLast? hi
    rw [hof_ne (hne mem), ← hb₁]
    exact ⟨hw.capacity ▸ waiter_lt mem, hw.record_of_owned owned request mem⟩
  intro _ b₂ h₂
  have hr₂ : RefinesRequests b₂ s := by
    refine hr.congr (h₂.id.trans ?_) (h₂.creditPool.trans ?_) (h₂.requestCapacity.trans ?_)
      (h₂.requests.trans ?_) (h₂.head.trans ?_) (h₂.tail.trans ?_) <;> rw [← hb₁] <;> rfl
  obtain ⟨record, hrecord, -⟩ := hr₂.record request
  refine .after (expectRequest_run (hr₂.capacity ▸ lt) hrecord) (.after rfl (.intro rfl ?_))
  refine ⟨by rw [hr.id], ?_, ?_⟩
  · have hr₃ := hr₂.mapRequest request (addWaiter_body (p := ⟨slot, s.requestGeneration slot,
      coalesced, waiter, generation, r.waiters.length + 1, r.waiters.getLast?⟩) rfl)
      (fun _ => rfl) fun _ => rfl
    refine { hr₃ with body := fun i => ?_ }
    rw [hr₃.body i]
    simp [Registry.join, request]
  · refine hw.join owned request hidden vacant.owner (h₂.capacity.trans (by rw [← hb₁]; rfl)) ?_
      fun {i} hi => ⟨?_, ?_⟩
    · have hlast : r.waiters.getLast? ≠ some waiter := fun hi => hne (List.mem_of_getLast? hi) rfl
      show b₂.waiters waiter = _
      have hrec := h₂.record waiter
      rw [if_neg hlast, hself] at hrec
      have hgen := h₂.generation waiter
      rw [hself] at hgen
      cases hslot : b₂.waiters waiter
      simp_all
    · show (b₂.waiters i).generation = _
      rw [h₂.generation, hof_ne hi]
    · show (b₂.waiters i).record = _
      rw [h₂.record, hof_ne hi]

/-! ### Admissions -/

theorem RefinesWaiters.openRequest (h : RefinesWaiters b s) (hs : s.Valid)
    (free : s.requests slot = none) (generation : Nat) (handler : H) (key : K)
    (waiters : b'.waiters = b.waiters) (capacity : b'.waiterCapacity = b.waiterCapacity) :
    RefinesWaiters b' (s.openRequest slot generation handler key) := by
  have hprev : b'.waiterPrev = b.waiterPrev := by
    funext i
    rw [waiterPrev, waiters]
    rfl
  have hnext : b'.waiterNext = b.waiterNext := by
    funext i
    rw [waiterNext, waiters]
    rfl
  refine ⟨capacity.trans h.capacity, fun i => ?_, fun i => ?_, fun {j q} hj => ?_⟩
  · rw [waiters]
    exact h.generation i
  · have hbody : b'.waiterBody i = b.waiterBody i := by
      rw [waiterBody, waiters]
      rfl
    rw [hbody, h.body]
    unfold Registry.waiterBody
    show _ = (s.owner i).bind _
    cases howner : s.owner i with
    | none => rfl
    | some j =>
      obtain ⟨q, hq, -⟩ := hs.owner_iff.mp howner
      have hj : j ≠ slot := by
        rintro rfl
        rw [free] at hq
        cases hq
      simp [Registry.openRequest, hj, Registry.requestToken]
  · rw [hprev, hnext]
    obtain ⟨rfl, rfl⟩ | ⟨-, hj⟩ := Registry.of_openRequest hj
    · exact Linked.nil
    · exact h.links hj

section

variable [DecidableEq K] [DecidableEq H]

variable {handler : H} {key : K} {generation waiter waiterGeneration : Nat}

section

variable (h : Refines b s)
include h

/-- What `admit` checks before it joins a request. -/
theorem plan_join
    (hrequest : s.chooseRequest handler key = .ok (slot, generation, true))
    (hwaiter : s.chooseWaiter = .ok (waiter, waiterGeneration))
    (request : s.requests slot = some r) :
    b.plan handler key = .ok ⟨slot, s.requestGeneration slot, true, waiter, waiterGeneration,
      r.waiters.length + 1, r.waiters.getLast?⟩ := by
  have vacant := Registry.chooseWaiter_eq_ok hwaiter
  obtain ⟨_, _, rfl, -⟩ := Registry.chooseRequest_eq_true hrequest
  have htoken : (⟨b.id, slot, s.requestGeneration slot⟩ : RequestToken) = s.requestToken slot := by
    rw [h.requests.id]
    rfl
  unfold plan
  rw [h.requests.planRequest, h.planWaiter, hrequest, hwaiter]
  simp only [ok_bind]
  rw [htoken, h.planCount_join request (vacant.length_lt h.valid request), h.planLink_join request]
  rfl

/-- What `admit` checks before it asks for a credit. -/
theorem plan_open
    (hrequest : s.chooseRequest handler key = .ok (slot, generation, false))
    (hwaiter : s.chooseWaiter = .ok (waiter, waiterGeneration)) :
    b.plan handler key = .ok ⟨slot, generation, false, waiter, waiterGeneration, 1, none⟩ := by
  have vacant := Registry.chooseWaiter_eq_ok hwaiter
  unfold plan
  rw [h.requests.planRequest, h.planWaiter, hrequest, hwaiter]
  simp only [ok_bind]
  rw [h.planCount_open (Nat.zero_lt_of_lt vacant.lt), h.planLink_open]
  rfl

/-- A plan fails as the choices of the registry do. -/
theorem plan_error {e : AdmissionError}
    (herror : s.chooseRequest handler key = .error e ∨
      (∃ choice, s.chooseRequest handler key = .ok choice) ∧ s.chooseWaiter = .error e) :
    b.plan handler key = .error e := by
  unfold plan
  rw [h.requests.planRequest, h.planWaiter]
  rcases herror with hrequest | ⟨⟨choice, hrequest⟩, hwaiter⟩
  · rw [hrequest]
    rfl
  · rw [hrequest, hwaiter]
    rfl

omit [DecidableEq K] [DecidableEq H] in
/-- The writes of an admission that joins a request. -/
theorem commit_join_returns (request : s.requests slot = some r)
    (hidden : r.state.isVisible = false) (vacant : s.Vacant waiter waiterGeneration) :
    Returns (commit ⟨slot, s.requestGeneration slot, true, waiter, waiterGeneration,
        r.waiters.length + 1, r.waiters.getLast?⟩ handler key : Op ε _ _) b fun admission b' =>
      admission = ⟨s.requestToken slot, ⟨s.id, waiter, waiterGeneration⟩, true⟩ ∧
        Refines b' (s.join slot waiter waiterGeneration) := by
  refine .after rfl ?_
  refine (attachWaiter_returns h.requests h.waiters h.valid.owned request (h.valid.slot_lt request)
    hidden vacant (fun hi => (h.valid.proper request).waiter_lt hi) true).mono ?_
  rintro _ b' ⟨rfl, hr', hw'⟩
  exact ⟨rfl, hr', hw', h.valid.join request vacant, h.bounded⟩

omit [DecidableEq K] [DecidableEq H] in
/-- The writes of an admission that opens a request. -/
theorem commit_open_returns (lt : slot < s.requestCapacity)
    (free : s.requests slot = none)
    (unmatched : ∀ {i r}, s.requests i = some r → r.handler = handler → r.key = key →
      r.state.isVisible)
    (vacant : s.Vacant waiter waiterGeneration) :
    Returns (commit ⟨slot, generation, false, waiter, waiterGeneration, 1, none⟩
        handler key : Op ε _ _) b fun admission b' =>
      admission = ⟨⟨s.id, slot, generation⟩, ⟨s.id, waiter, waiterGeneration⟩, false⟩ ∧
        Refines b' ((s.openRequest slot generation handler key).join slot waiter
          waiterGeneration) := by
  refine (publishRequest_returns h.requests h.valid.queued free rfl handler key).bind ?_
  rintro _ b₁ ⟨hwaiters, hcapacity, hr₁⟩
  have hw₁ := h.waiters.openRequest h.valid free generation handler key hwaiters hcapacity
  have request : (s.openRequest slot generation handler key).requests slot
      = some ⟨key, handler, .pending, []⟩ := by simp [Registry.openRequest]
  have hgeneration : (s.openRequest slot generation handler key).requestGeneration slot
      = generation := by simp [Registry.openRequest]
  have hattach := attachWaiter_returns (ε := ε) hr₁ hw₁
    (h.valid.owned_openRequest free generation handler key) request lt rfl
    { vacant with } (by simp) false
  rw [hgeneration] at hattach
  refine hattach.mono ?_
  rintro _ b' ⟨rfl, hr', hw'⟩
  refine ⟨?_, hr', hw', h.valid.create lt free unmatched vacant, h.bounded⟩
  rw [Registry.requestToken, hgeneration]
  rfl

/-- An admission does what the admission of the registry does. -/
theorem admitFault_follows (handler : H) (key : K) (credit : Bool) :
    Follows (admitFault handler key credit) b (s.admitFault handler key credit) := by
  unfold Registry.admitFault
  cases hrequest : s.chooseRequest handler key with
  | error e => exact .error (bind_of_error (by rw [plan_error h (.inl hrequest)]; rfl)) h
  | ok choice =>
    cases hwaiter : s.chooseWaiter with
    | error e =>
      exact .error (bind_of_error (by rw [plan_error h (.inr ⟨⟨_, hrequest⟩, hwaiter⟩)]; rfl)) h
    | ok choice' =>
      obtain ⟨slot, generation, coalesced⟩ := choice
      obtain ⟨waiter, waiterGeneration⟩ := choice'
      have vacant := Registry.chooseWaiter_eq_ok hwaiter
      have hpool : (Op.read (·.creditPool) : Op AdmissionError _ _) b = .ok s.creditPool b :=
        congrArg (Outcome.ok · b) h.requests.creditPool
      cases coalesced with
      | true =>
        obtain ⟨r, request, rfl, -, -, hidden⟩ := Registry.chooseRequest_eq_true hrequest
        refine .after (by rw [plan_join h hrequest hwaiter request]; rfl)
          (.after hpool (.after (require_of (.inl rfl)) (.ok ?_)))
        exact commit_join_returns h request hidden vacant
      | false =>
        obtain ⟨lt, free, -, unmatched⟩ := Registry.chooseRequest_eq_false h.valid hrequest
        refine .after (by rw [plan_open h hrequest hwaiter]; rfl) (.after hpool ?_)
        dsimp only
        rw [if_neg Bool.false_ne_true]
        by_cases hcredit : !s.creditPool ∨ credit
        · rw [if_pos hcredit]
          exact .after (require_of (.inr hcredit))
            (.ok (commit_open_returns h lt free unmatched vacant))
        · rw [if_neg hcredit]
          exact .error (bind_of_error (require_of_not fun hor =>
            hor.elim (fun h => nomatch h) hcredit)) h

end

end

end KernelAx.Fault
