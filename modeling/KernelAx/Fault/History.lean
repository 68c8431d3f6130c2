import KernelAx.Fault.Simulation

/-!
# Fault broker — History

What the log of a run has to do with the registry at its end: the requests in the queue and the
waiters of a request stand in the order in which they were admitted, no token is given out twice,
and a request that no one sees is in the queue until a handler has claimed it.
-/

namespace KernelAx.Fault

variable {K H C : Type}

namespace Answer

def created : Answer K H C → Option RequestToken
  | .admitted (.ok a) => if a.coalesced then none else some a.request
  | _ => none

/-- The waiter of an admission. -/
def waiter : Answer K H C → Option WaiterToken
  | .admitted (.ok a) => some a.waiter
  | _ => none

def claim : Answer K H C → Option RequestToken
  | .claimed (some snapshot) => some snapshot.token
  | _ => none

theorem of_quiet {a : Answer K H C} (h : a.quiet) :
    a.created = none ∧ a.waiter = none ∧ a.claim = none := by
  cases a with
  | admitted r | claimed r => cases r <;> first | exact ⟨rfl, rfl, rfl⟩ | cases h
  | cancelled r | taken r => exact ⟨rfl, rfl, rfl⟩
  | _ => exact ⟨rfl, rfl, rfl⟩

end Answer

/-- The requests of a run, in the order in which they were admitted. -/
def created (log : Log K H C) : List RequestToken := log.filterMap (·.2.created)

/-- The waiters of a run, in the order in which they were admitted. -/
def admitted (log : Log K H C) : List WaiterToken := log.filterMap (·.2.waiter)

/-- The requests that handlers have claimed. -/
def claimed (log : Log K H C) : List RequestToken := log.filterMap (·.2.claim)

section

variable {log : Log K H C} {o : Operation K H C} {a : Answer K H C}

theorem created_snoc : created (log ++ [(o, a)]) = created log ++ a.created.toList := by
  simp only [created, List.filterMap_append]
  cases h : a.created <;> simp [h]

theorem admitted_snoc : admitted (log ++ [(o, a)]) = admitted log ++ a.waiter.toList := by
  simp only [admitted, List.filterMap_append]
  cases h : a.waiter <;> simp [h]

theorem claimed_snoc : claimed (log ++ [(o, a)]) = claimed log ++ a.claim.toList := by
  simp only [claimed, List.filterMap_append]
  cases h : a.claim <;> simp [h]

end

/-! ### The record of a run -/

/-- The generation of the token is no newer than that of its slot. -/
def Registry.Past (s : Registry K H C) (token : RequestToken) : Prop :=
  token.broker = s.id ∧ token.generation ≤ s.requestGeneration token.slot

def Registry.PastWaiter (s : Registry K H C) (token : WaiterToken) : Prop :=
  token.broker = s.id ∧ token.generation ≤ s.waiterGeneration token.slot

/-- The requests and waiters of a registry, and the tokens that were given out for them: those of
the requests, those of the waiters, and those of the requests that were claimed. -/
structure Recorded (created : List RequestToken) (admitted : List WaiterToken)
    (claimed : List RequestToken) (s : Registry K H C) : Prop where
  created_nodup : created.Nodup
  created_past : ∀ {token}, token ∈ created → s.Past token
  admitted_nodup : admitted.Nodup
  admitted_past : ∀ {token}, token ∈ admitted → s.PastWaiter token
  claimed_past : ∀ {token}, token ∈ claimed → s.Past token
  queue : (s.queue.map s.requestToken).Sublist created
  waiters : ∀ {slot r}, s.requests slot = some r → (r.waiters.map s.waiterToken).Sublist admitted
  unclaimed : ∀ {slot r}, s.requests slot = some r → r.state.isVisible = false →
    (r.state.isPending ↔ s.requestToken slot ∉ claimed)

theorem recorded_new {id requestCapacity waiterCapacity : Nat} {creditPool : Bool} :
    Recorded [] [] [] (.new id requestCapacity waiterCapacity creditPool : Registry K H C) where
  created_nodup := .nil
  created_past h := nomatch h
  admitted_nodup := .nil
  admitted_past h := nomatch h
  claimed_past h := nomatch h
  queue := .slnil
  waiters h := nomatch h
  unclaimed h := nomatch h

theorem Registry.requestToken_past (s : Registry K H C) (slot : Nat) :
    s.Past (s.requestToken slot) :=
  ⟨rfl, Nat.le_refl _⟩

namespace Recorded

variable {cs ds : List RequestToken} {ws : List WaiterToken} {s s' : Registry K H C}
  {slot waiter generation : Nat} {r : Request K H C}

section

variable (h : Recorded cs ws ds s)
include h

/-- The state of a request goes on; it may have been claimed. -/
theorem setState {ds' : List RequestToken} {state : RequestState C}
    (request : s.requests slot = some r) (claimed_past : ∀ {token}, token ∈ ds' → s.Past token)
    (claimed_of_ne : ∀ {i}, i ≠ slot → (s.requestToken i ∈ ds' ↔ s.requestToken i ∈ ds))
    (self : state.isVisible = false → (state.isPending ↔ s.requestToken slot ∉ ds')) :
    Recorded cs ws ds' (s.setState slot state) := by
  have hsublist : (s.setState slot state).queue.Sublist s.queue := by
    unfold Registry.setState
    dsimp only
    split
    · exact .refl _
    · exact List.erase_sublist
  refine ⟨h.created_nodup, h.created_past, h.admitted_nodup, h.admitted_past, claimed_past,
    (hsublist.map s.requestToken).trans h.queue, fun {i q} hi => ?_, fun {i q} hi hq => ?_⟩
  · obtain ⟨rfl, rfl⟩ | ⟨his, hi⟩ := Registry.of_setState request hi
    · exact (h.waiters request :)
    · exact h.waiters hi
  · show q.state.isPending ↔ s.requestToken i ∉ ds'
    obtain ⟨rfl, rfl⟩ | ⟨his, hi⟩ := Registry.of_setState request hi
    · exact self hq
    · rw [claimed_of_ne his]
      exact h.unclaimed hi hq

theorem settle {n : Nat} (settle : s.Settle n s') :
    Recorded cs ws ds s' := by
  cases settle with
  | hide request becomes hidden queued =>
    refine h.setState request h.claimed_past (fun _ => Iff.rfl) fun _ => ?_
    rw [queued]
    exact h.unclaimed request becomes.not_visible
  | publish request becomes =>
    exact h.setState request h.claimed_past (fun _ => Iff.rfl) fun hv => nomatch hv

theorem settles {n : Nat} (settles : s.Settles n s') :
    Recorded cs ws ds s' := by
  induction settles with
  | refl => exact h
  | tail _ settle ih => exact ih.settle settle

theorem claim {state : RequestState C}
    (request : s.requests slot = some r) (claimed : r.state.claimed = some state) :
    Recorded cs ws (ds ++ [s.requestToken slot]) (s.setState slot state) := by
  obtain ⟨-, hpending, -⟩ := RequestState.isPending_of_claimed claimed
  refine h.setState request (fun {token} ht => ?_) (fun {i} hi => ?_) fun _ => ?_
  · rcases List.mem_append.mp ht with ht | ht
    · exact h.claimed_past ht
    · rw [List.mem_singleton.mp ht]
      exact s.requestToken_past slot
  · have hne : s.requestToken i ≠ s.requestToken slot :=
      fun heq => hi (congrArg RequestToken.slot heq)
    simp [hne]
  · simp [hpending]

theorem leave (request : s.requests slot = some r) :
    Recorded cs ws ds (s.leave slot waiter r) := by
  have hsublist : (s.leave slot waiter r).queue.Sublist s.queue := by
    unfold Registry.leave
    dsimp only
    split
    · exact List.erase_sublist
    · exact .refl _
  -- a request that is left has lost a waiter and nothing else
  have hcases : ∀ {i q}, (s.leave slot waiter r).requests i = some q → ∃ p, s.requests i = some p ∧
      q.waiters.Sublist p.waiters ∧ q.state = p.state := by
    intro i q hi
    obtain ⟨rfl, rfl⟩ | ⟨-, hi⟩ := Registry.of_leave hi
    · exact ⟨r, request, List.erase_sublist, rfl⟩
    · exact ⟨q, hi, .refl _, rfl⟩
  refine { h with
    queue := (hsublist.map s.requestToken).trans h.queue
    waiters := fun {i q} hi => ?_
    unclaimed := fun {i q} hi hq => ?_ }
  · obtain ⟨p, hp, hsub, -⟩ := hcases hi
    exact (hsub.map s.waiterToken).trans (h.waiters hp)
  · obtain ⟨p, hp, -, hstate⟩ := hcases hi
    rw [hstate] at hq ⊢
    exact h.unclaimed hp hq

/-- A request is opened with a new generation. -/
theorem openRequest (free : s.requests slot = none)
    (queued : ∀ i ∈ s.queue, ∃ r, s.requests i = some r)
    (fresh : s.requestGeneration slot < generation) (handler : H) (key : K) :
    Recorded (cs ++ [⟨s.id, slot, generation⟩]) ws ds
      (s.openRequest slot generation handler key) := by
  have hpast : ∀ {token}, s.Past token →
      (s.openRequest slot generation handler key).Past token := by
    rintro token ⟨hid, hgeneration⟩
    refine ⟨hid, ?_⟩
    by_cases hts : token.slot = slot
    · simp only [Registry.openRequest, hts, Function.update_self]
      rw [hts] at hgeneration
      omega
    · simpa [Registry.openRequest, hts] using hgeneration
  have hself : ¬ s.Past ⟨s.id, slot, generation⟩ := fun h => Nat.not_le_of_lt fresh h.2
  have hof_ne : ∀ {i}, i ≠ slot →
      (s.openRequest slot generation handler key).requestToken i = s.requestToken i := by
    intro i hi
    simp [Registry.requestToken, Registry.openRequest, hi]
  have htoken : (s.openRequest slot generation handler key).requestToken slot
      = ⟨s.id, slot, generation⟩ := by simp [Registry.requestToken, Registry.openRequest]
  constructor
  case created_nodup =>
    rw [List.nodup_append]
    refine ⟨h.created_nodup, List.nodup_singleton _, fun t ht t' ht' => ?_⟩
    rintro rfl
    exact hself (List.mem_singleton.mp ht' ▸ h.created_past ht)
  case created_past =>
    intro token ht
    rcases List.mem_append.mp ht with ht | ht
    · exact hpast (h.created_past ht)
    · rw [List.mem_singleton.mp ht, ← htoken]
      exact Registry.requestToken_past _ slot
  case admitted_nodup => exact h.admitted_nodup
  case admitted_past => exact h.admitted_past
  case claimed_past => exact fun ht => hpast (h.claimed_past ht)
  case queue =>
    have hqueue : ∀ i ∈ s.queue, i ≠ slot := by
      rintro i hi rfl
      obtain ⟨r, hr⟩ := queued i hi
      rw [free] at hr
      cases hr
    have hmap : s.queue.map (s.openRequest slot generation handler key).requestToken
        = s.queue.map s.requestToken := List.map_congr_left fun i hi => hof_ne (hqueue i hi)
    show ((s.queue ++ [slot]).map _).Sublist _
    rw [List.map_append, hmap, List.map_singleton, htoken]
    exact h.queue.append (.refl _)
  case waiters =>
    intro i q hi
    obtain ⟨rfl, rfl⟩ | ⟨his, hi⟩ := Registry.of_openRequest hi
    · exact List.nil_sublist _
    · exact (h.waiters hi :)
  case unclaimed =>
    intro i q hi hq
    obtain ⟨rfl, rfl⟩ | ⟨his, hi⟩ := Registry.of_openRequest hi
    · rw [htoken]
      simpa [RequestState.isPending] using fun ht => hself (h.claimed_past ht)
    · rw [hof_ne his]
      exact h.unclaimed hi hq

/-- A waiter joins with a new generation. -/
theorem join (owned : s.Owned) (request : s.requests slot = some r)
    (vacant : s.Vacant waiter generation) :
    Recorded cs (ws ++ [⟨s.id, waiter, generation⟩]) ds (s.join slot waiter generation) := by
  have hself : ¬ s.PastWaiter ⟨s.id, waiter, generation⟩ :=
    fun ⟨_, hle⟩ => Nat.not_le_of_lt vacant.fresh hle
  have hmap : ∀ {i q}, s.requests i = some q →
      q.waiters.map (s.join slot waiter generation).waiterToken = q.waiters.map s.waiterToken := by
    intro i q hq
    refine List.map_congr_left fun w hw => ?_
    have hne : w ≠ waiter := by
      rintro rfl
      have howner := (owned w i).mpr ⟨q, hq, hw⟩
      rw [vacant.owner] at howner
      cases howner
    simp [Registry.waiterToken, Registry.join, hne]
  have htoken : (s.join slot waiter generation).waiterToken waiter
      = ⟨s.id, waiter, generation⟩ := by
    simp [Registry.waiterToken, Registry.join]
  constructor
  case created_nodup => exact h.created_nodup
  case created_past => exact h.created_past
  case admitted_nodup =>
    rw [List.nodup_append]
    refine ⟨h.admitted_nodup, List.nodup_singleton _, fun t ht t' ht' => ?_⟩
    rintro rfl
    exact hself (List.mem_singleton.mp ht' ▸ h.admitted_past ht)
  case admitted_past =>
    intro token ht
    rcases List.mem_append.mp ht with ht | ht
    · obtain ⟨hid, hgeneration⟩ := h.admitted_past ht
      refine ⟨hid, ?_⟩
      have hfresh := vacant.fresh
      by_cases hts : token.slot = waiter
      · simp only [Registry.join, hts, Function.update_self]
        rw [hts] at hgeneration
        omega
      · simpa [Registry.join, hts] using hgeneration
    · rw [List.mem_singleton.mp ht]
      exact ⟨rfl, by simp [Registry.join]⟩
  case claimed_past => exact h.claimed_past
  case queue => exact h.queue
  case waiters =>
    intro i q hi
    obtain ⟨rfl, rfl⟩ | ⟨-, hi⟩ := Registry.of_join request hi
    · rw [List.map_append, hmap request, List.map_singleton, htoken]
      exact (h.waiters request).append (.refl _)
    · rw [hmap hi]
      exact (h.waiters hi).trans (List.sublist_append_left _ _)
  case unclaimed =>
    intro i q hi hq
    show q.state.isPending ↔ s.requestToken i ∉ ds
    obtain ⟨rfl, rfl⟩ | ⟨-, hi⟩ := Registry.of_join request hi
    · exact (h.unclaimed request hq :)
    · exact h.unclaimed hi hq

end

end Recorded

/-! ### Runs -/

section

variable {log : Log K H C} {s s' : Registry K H C} {o : Operation K H C} {a : Answer K H C}

theorem step_recorded (step : s.Step o a s') (hs : s.Valid)
    (h : Recorded (created log) (admitted log) (claimed log) s) :
    Recorded (created (log ++ [(o, a)])) (admitted (log ++ [(o, a)])) (claimed (log ++ [(o, a)]))
      s' := by
  rw [created_snoc, admitted_snoc, claimed_snoc]
  cases step with
  | join request handler_eq key_eq hidden vacant =>
    simpa [Answer.created, Answer.waiter, Answer.claim] using h.join hs.owned request vacant
  | @create handler key credit slot generation waiter waiterGeneration lt free fresh unmatched
      vacant =>
      have hopen := h.openRequest free (fun i hi => by
        obtain ⟨r, hr, -⟩ := hs.mem_queue.mp hi
        exact ⟨r, hr⟩) fresh handler key
      have request : (s.openRequest slot generation handler key).requests slot
          = some ⟨key, handler, .pending, []⟩ := by simp [Registry.openRequest]
      have hjoin : Recorded _ (admitted log ++ [⟨s.id, waiter, waiterGeneration⟩]) _ _ :=
        hopen.join (hs.owned_openRequest free generation handler key) request
          { vacant with }
      simpa [Answer.created, Answer.waiter, Answer.claim] using hjoin
  | claim request claimed token =>
    simpa [Answer.created, Answer.waiter, Answer.claim, token] using h.claim request claimed
  | settle quiet consistent settles =>
    obtain ⟨hcreated, hwaiter, hclaim⟩ := Answer.of_quiet quiet
    simpa [hcreated, hwaiter, hclaim] using h.settles settles
  | cancel token_eq request mem | take token_eq request mem =>
    simpa [Answer.created, Answer.waiter, Answer.claim] using h.leave request

theorem run_valid (run : s.Run log s') (hs : s.Valid) : s'.Valid := by
  induction run with
  | nil => exact hs
  | snoc _ step ih => exact step.valid ih

theorem run_recorded {id requestCapacity waiterCapacity : Nat} {creditPool : Bool}
    (run : (Registry.new id requestCapacity waiterCapacity creditPool).Run log s) :
    Recorded (created log) (admitted log) (claimed log) s := by
  induction run with
  | nil => exact recorded_new
  | snoc run step ih => exact step_recorded step (run_valid run Registry.valid_new) ih

end

end KernelAx.Fault
