import Mathlib.Algebra.GroupWithZero.Nat
import KernelAx.Fault.Tokens

/-!
# Fault broker — Delivery

A request has one result. Once it is given no operation changes it, every waiter of the request
that becomes ready gets it, and once it is visible no waiter is attached any more. A waiter gives
its result away once, and the numbers of waiters released that the operations return add up to the
number of waiters that have become ready (`completion_delivered_once`).
-/

namespace KernelAx.Fault

open Registry

variable {K H C : Type}

/-! ### Waiters that become ready -/

namespace Registry

variable {s s' : Registry K H C} {o : Operation K H C} {a : Answer K H C}

def isActive (s : Registry K H C) (waiter : Nat) : Bool :=
  (s.owner waiter).any fun slot => (s.requests slot).any fun r => !r.state.isVisible

def isReady (s : Registry K H C) (waiter : Nat) : Bool :=
  (s.owner waiter).any fun slot => (s.requests slot).any fun r => r.state.isVisible

/-- The waiters that have become ready between two states. -/
def turnedReady (s s' : Registry K H C) : List WaiterToken :=
  ((List.range s.waiterCapacity).filter fun waiter => s.isActive waiter && s'.isReady waiter &&
    decide (s'.waiterToken waiter = s.waiterToken waiter)).map s.waiterToken

theorem isActive_iff {waiter : Nat} : s.isActive waiter ↔
    ∃ slot r, s.owner waiter = some slot ∧ s.requests slot = some r ∧
      r.state.isVisible = false := by
  simp [isActive, Option.any_eq_true]

theorem isReady_iff {waiter : Nat} : s.isReady waiter ↔
    ∃ slot r, s.owner waiter = some slot ∧ s.requests slot = some r ∧ r.state.isVisible := by
  simp [isReady, Option.any_eq_true]

/-- No waiter becomes ready when no request becomes visible and no waiter changes its request. -/
theorem turnedReady_eq_nil
    (owner : ∀ {waiter slot}, s'.owner waiter = some slot → s.owner waiter = none ∨
      s.owner waiter = some slot)
    (visible : ∀ {slot q}, s'.requests slot = some q → q.state.isVisible →
      ∃ r, s.requests slot = some r ∧ r.state.isVisible) : s.turnedReady s' = [] := by
  unfold turnedReady
  rw [List.map_eq_nil_iff, List.filter_eq_nil_iff]
  intro waiter _ hturned
  rw [Bool.and_eq_true, Bool.and_eq_true, isActive_iff, isReady_iff] at hturned
  obtain ⟨⟨⟨i, r, howner, hr, hidden⟩, j, q, howner', hq, hvisible⟩, -⟩ := hturned
  obtain ⟨p, hp, hpv⟩ := visible hq hvisible
  rcases owner howner' with hnone | hsame
  · rw [hnone] at howner
    cases howner
  · obtain rfl : i = j := Option.some.inj (howner.symm.trans hsame)
    obtain rfl : r = p := Option.some.inj (hr.symm.trans hp)
    rw [hidden] at hpv
    cases hpv

/-! ### Counting -/

/-- What satisfies the weaker of two conditions satisfies the stronger one too, or does not. -/
theorem countP_of_imp {α : Type} {p q : α → Bool} (himp : ∀ x, q x → p x) (l : List α) :
    l.countP p = l.countP q + l.countP fun x => p x && !q x := by
  rw [List.countP_eq_countP_filter_add l p q, List.countP_filter, List.countP_filter]
  congr 1
  refine List.countP_congr fun x _ => ?_
  rw [Bool.and_eq_true]
  exact ⟨fun h => h.2, fun h => ⟨himp x h, h⟩⟩

/-- The waiters that are ready. -/
def readyCount (s : Registry K H C) : Nat := (List.range s.waiterCapacity).countP s.isReady

variable {n slot : Nat} {r : Request K H C}

theorem Valid.countP_owner (hs : s.Valid) (request : s.requests slot = some r) :
    (List.range s.waiterCapacity).countP (fun waiter => s.owner waiter = some slot)
      = r.waiters.length := by
  rw [List.countP_eq_length_filter]
  refine List.Perm.length_eq ((List.perm_ext_iff_of_nodup ?_ (hs.nodup request)).mpr fun w => ?_)
  · exact List.nodup_range.filter _
  · rw [List.mem_filter, List.mem_range, decide_eq_true_eq, hs.owner_iff]
    constructor
    · rintro ⟨-, q, hq, hmem⟩
      obtain rfl : q = r := Option.some.inj (hq.symm.trans request)
      exact hmem
    · intro hmem
      exact ⟨(hs.proper request).waiter_lt hmem, r, request, hmem⟩

/-- What a completion or a release does to the waiters. -/
structure Wakes (s : Registry K H C) (n : Nat) (s' : Registry K H C) : Prop where
  waiterCapacity : s'.waiterCapacity = s.waiterCapacity
  waiterToken : s'.waiterToken = s.waiterToken
  owner : s'.owner = s.owner
  mono : ∀ waiter, s.isReady waiter → s'.isReady waiter
  live : ∀ slot, (s'.requests slot).isSome = (s.requests slot).isSome
  count : s'.readyCount = s.readyCount + n

theorem Wakes.trans {m : Nat} {s'' : Registry K H C} (h : s.Wakes n s') (h' : s'.Wakes m s'') :
    s.Wakes (n + m) s'' where
  waiterCapacity := h'.waiterCapacity.trans h.waiterCapacity
  waiterToken := h'.waiterToken.trans h.waiterToken
  owner := h'.owner.trans h.owner
  mono waiter hw := h'.mono waiter (h.mono waiter hw)
  live slot := (h'.live slot).trans (h.live slot)
  count := by rw [h'.count, h.count, Nat.add_assoc]

theorem isReady_setState (request : s.requests slot = some r) (hidden : r.state.isVisible = false)
    (state : RequestState C) (waiter : Nat) :
    (s.setState slot state).isReady waiter
      = (s.isReady waiter || (state.isVisible && decide (s.owner waiter = some slot))) := by
  unfold isReady
  cases howner : s.owner waiter with
  | none => simp [setState, howner]
  | some i =>
    by_cases his : i = slot <;> simp [setState, howner, request, hidden, his]

theorem Settle.wakes (h : s.Settle n s') (hs : s.Valid) : s.Wakes n s' := by
  cases h with
  | @hide slot r state request becomes hidden =>
    have hready := isReady_setState request becomes.not_visible state
    simp only [hidden, Bool.false_and, Bool.or_false] at hready
    refine ⟨rfl, rfl, rfl, fun w hw => (hready w).trans hw, isSome_setState slot state, ?_⟩
    exact List.countP_congr fun waiter _ => by rw [hready]
  | @publish slot r completion request becomes =>
    have hready := isReady_setState request becomes.not_visible (.visible completion)
    have hmono : ∀ waiter, s.isReady waiter →
        (s.setState slot (.visible completion)).isReady waiter := by
      intro waiter hw
      rw [hready, hw, Bool.true_or]
    refine ⟨rfl, rfl, rfl, hmono, isSome_setState slot _, ?_⟩
    -- those that become ready are the waiters of the request
    rw [readyCount, countP_of_imp hmono, ← hs.countP_owner request]
    refine congrArg _ (List.countP_congr fun waiter _ => ?_)
    have hnot : s.owner waiter = some slot → s.isReady waiter = false := by
      intro howner
      simp [isReady, howner, request, becomes.not_visible]
    rw [hready]
    by_cases howner : s.owner waiter = some slot
    · simp [howner, hnot howner, RequestState.isVisible]
    · simp [howner]

theorem Settles.wakes (h : s.Settles n s') (hs : s.Valid) : s.Wakes n s' := by
  induction h with
  | refl => exact ⟨rfl, rfl, rfl, fun _ hw => hw, fun _ => rfl, rfl⟩
  | tail settles settle ih => exact ih.trans (settle.wakes (settles.valid hs))

theorem Wakes.turnedReady_length (h : s.Wakes n s') : (s.turnedReady s').length = n := by
  have hcount : s'.readyCount = s.readyCount
      + (List.range s.waiterCapacity).countP fun w => s'.isReady w && !s.isReady w := by
    rw [readyCount, h.waiterCapacity]
    exact countP_of_imp h.mono _
  rw [h.count] at hcount
  rw [Nat.add_left_cancel hcount, turnedReady, List.length_map, ← List.countP_eq_length_filter]
  refine List.countP_congr fun waiter _ => ?_
  rw [h.waiterToken, decide_eq_true rfl, Bool.and_true, Bool.and_comm, Bool.and_eq_true,
    Bool.and_eq_true, Bool.not_eq_true', ← Bool.not_eq_true, isActive_iff]
  refine and_congr_right fun hready => ?_
  obtain ⟨slot, q, howner, hq, -⟩ := isReady_iff.mp hready
  rw [h.owner] at howner
  obtain ⟨r, hr⟩ := Option.isSome_iff_exists.mp ((h.live slot).symm.trans (by rw [hq]; rfl))
  simp [isReady_iff, howner, hr]

/-! ### Steps -/

section Visible

variable {slot i : Nat} {r q : Request K H C}

variable {waiter generation : Nat}

theorem visible_join (request : s.requests slot = some r)
    (hq : (s.join slot waiter generation).requests i = some q) (visible : q.state.isVisible) :
    ∃ p, s.requests i = some p ∧ p.state.isVisible := by
  obtain ⟨rfl, rfl⟩ | ⟨-, hq⟩ := of_join request hq
  · exact ⟨r, request, visible⟩
  · exact ⟨q, hq, visible⟩

theorem visible_openRequest {handler : H} {key : K}
    (hq : (s.openRequest slot generation handler key).requests i = some q)
    (visible : q.state.isVisible) : ∃ p, s.requests i = some p ∧ p.state.isVisible := by
  obtain ⟨rfl, rfl⟩ | ⟨-, hq⟩ := of_openRequest hq
  · cases visible
  · exact ⟨q, hq, visible⟩

theorem visible_setState {state : RequestState C} (request : s.requests slot = some r)
    (hidden : state.isVisible = false) (hq : (s.setState slot state).requests i = some q)
    (visible : q.state.isVisible) : ∃ p, s.requests i = some p ∧ p.state.isVisible := by
  obtain ⟨rfl, rfl⟩ | ⟨-, hq⟩ := of_setState request hq
  · exact absurd visible (Bool.not_eq_true _ ▸ hidden)
  · exact ⟨q, hq, visible⟩

theorem visible_leave (request : s.requests slot = some r)
    (hq : (s.leave slot waiter r).requests i = some q) (visible : q.state.isVisible) :
    ∃ p, s.requests i = some p ∧ p.state.isVisible := by
  obtain ⟨rfl, rfl⟩ | ⟨-, hq⟩ := of_leave hq
  · exact ⟨r, request, visible⟩
  · exact ⟨q, hq, visible⟩

theorem owner_join {w : Nat} (vacant : s.owner waiter = none)
    (howner : (s.join slot waiter generation).owner w = some i) :
    s.owner w = none ∨ s.owner w = some i := by
  by_cases hw : w = waiter
  · exact .inl (hw ▸ vacant)
  · exact .inr (by simpa [join, hw] using howner)

theorem owner_leave {w : Nat} (howner : (s.leave slot waiter r).owner w = some i) :
    s.owner w = none ∨ s.owner w = some i := by
  by_cases hw : w = waiter
  · simp [leave, hw] at howner
  · exact .inr (by simpa [leave, hw] using howner)

end Visible

/-- The waiters that become ready are those the operation says it has released. -/
theorem Step.turnedReady_length (step : s.Step o a s') (hs : s.Valid) :
    (s.turnedReady s').length = a.waitersReleased := by
  cases step with
  | settle quiet consistent settles => exact (settles.wakes hs).turnedReady_length
  | join request handler_eq key_eq hidden vacant =>
    exact congrArg List.length
      (turnedReady_eq_nil (owner_join vacant.owner) (visible_join request))
  | create lt free fresh unmatched vacant =>
    refine congrArg List.length (turnedReady_eq_nil (s := s) ?_ fun hq visible => ?_)
    · exact owner_join (s := s.openRequest ..) vacant.owner
    · obtain ⟨p, hp, hvisible⟩ := visible_join (s.openRequest_self ..) hq visible
      exact visible_openRequest hp hvisible
  | claim request claimed =>
    obtain ⟨-, -, hidden⟩ := RequestState.isPending_of_claimed claimed
    refine congrArg List.length (turnedReady_eq_nil (s := s) ?_ ?_)
    · exact .inr
    · exact visible_setState request hidden
  | cancel token_eq request mem | take token_eq request mem =>
    exact congrArg List.length (turnedReady_eq_nil owner_leave (visible_leave request))

theorem mem_turnedReady {token : WaiterToken} (h : token ∈ s.turnedReady s') :
    token = s.waiterToken token.slot ∧ token = s'.waiterToken token.slot ∧
      s.isActive token.slot ∧ s'.isReady token.slot := by
  obtain ⟨waiter, hmem, rfl⟩ := List.mem_map.mp h
  obtain ⟨-, hturned⟩ := List.mem_filter.mp hmem
  rw [Bool.and_eq_true, Bool.and_eq_true, decide_eq_true_eq] at hturned
  exact ⟨rfl, hturned.2.symm, hturned.1.1, hturned.1.2⟩

theorem turnedReady_nodup : (s.turnedReady s').Nodup :=
  (List.nodup_range.filter _).map fun _ _ h => congrArg WaiterToken.slot h

/-! ### Runs -/

/-- A waiter that has left is not found any more. -/
theorem Valid.holdsWaiter_leave (hs : s.Valid) {token : WaiterToken}
    (token_eq : token = s.waiterToken token.slot) (request : s.requests slot = some r)
    (mem : token.slot ∈ r.waiters) :
    (s.leave slot token.slot r).HoldsWaiter token fun _ _ => False := by
  refine ⟨?_, fun {i q} _ hq hmem => ?_⟩
  · rw [token_eq]
    exact ⟨rfl, Nat.le_refl _⟩
  · obtain ⟨rfl, rfl⟩ | ⟨his, hq⟩ := of_leave hq
    · exact (hs.nodup request).not_mem_erase hmem
    · exact his (hs.owner_unique hq hmem request mem)

end Registry

/-- The waiter that an operation takes out of the broker. -/
def yielded : Operation K H C × Answer K H C → Option WaiterToken
  | (.takeWaiterCompletion token, .taken (.ok _)) => some token
  | (.cancelWaiter token, .cancelled (.ok _)) => some token
  | _ => none

/-- The waiter that an admission attaches to a request. -/
def Answer.attached (token : RequestToken) : Answer K H C → Option WaiterToken
  | .admitted (.ok a) => if a.request = token then some a.waiter else none
  | _ => none

theorem yielded_of_quiet {o : Operation K H C} {a : Answer K H C} (h : a.quiet) :
    yielded (o, a) = none := by
  cases a with
  | cancelled r | taken r => cases r <;> cases o <;> first | rfl | cases h
  | _ => cases o <;> rfl

theorem Answer.attached_of_quiet {a : Answer K H C} (h : a.quiet) (token : RequestToken) :
    a.attached token = none := by
  cases a with
  | admitted r => cases r <;> first | rfl | cases h
  | _ => rfl

namespace Registry

variable {s s' : Registry K H C} {log : Log K H C} {o : Operation K H C} {a : Answer K H C}

/-- The waiters that an operation takes out have not been taken out before, and are not found
afterwards. -/
theorem Step.yielded_stale (step : s.Step o a s') (hs : s.Valid) {token : WaiterToken}
    (hyield : yielded (o, a) = some token) :
    (¬ s.HoldsWaiter token fun _ _ => False) ∧ s'.HoldsWaiter token fun _ _ => False := by
  cases step with
  | join | create | claim => cases hyield
  | settle quiet => exact nomatch (yielded_of_quiet quiet).symm.trans hyield
  | cancel token_eq request mem | take token_eq request mem =>
    obtain rfl := Option.some.inj hyield
    exact ⟨fun h => h.holds token_eq request mem, hs.holdsWaiter_leave token_eq request mem⟩

theorem run_yielded (run : s.Run log s') (hs : s.Valid) :
    (log.filterMap yielded).Nodup ∧
      ∀ token ∈ log.filterMap yielded, s'.HoldsWaiter token fun _ _ => False := by
  induction run with
  | nil => exact ⟨.nil, fun _ h => nomatch h⟩
  | @snoc log s' s'' o a run step ih =>
    obtain ⟨hnodup, hstale⟩ := ih
    have hvalid := run_valid run hs
    have hstale' : ∀ token ∈ log.filterMap yielded, s''.HoldsWaiter token fun _ _ => False :=
      fun token h => (hstale token h).step (fun h _ => h) step
    rw [List.filterMap_append]
    cases hyield : yielded (o, a) with
    | none =>
      rw [List.filterMap_cons_none hyield, List.filterMap_nil, List.append_nil]
      exact ⟨hnodup, hstale'⟩
    | some token =>
      obtain ⟨hnew, hleft⟩ := step.yielded_stale hvalid hyield
      rw [List.filterMap_cons_some hyield, List.filterMap_nil]
      refine ⟨List.nodup_append.mpr ⟨hnodup, List.nodup_singleton _, ?_⟩, fun t ht => ?_⟩
      · rintro t ht t' ht' rfl
        obtain rfl := List.mem_singleton.mp ht'
        exact hnew (hstale t ht)
      · rcases List.mem_append.mp ht with ht | ht
        · exact hstale' t ht
        · exact List.mem_singleton.mp ht ▸ hleft

/-- No waiter is attached to a request that is visible. -/
theorem Step.attached_eq_none (step : s.Step o a s') {token : RequestToken}
    (h : s.Holds token fun r => r.state.isVisible) : a.attached token = none := by
  cases step with
  | @join handler key credit slot waiter generation r request handler_eq key_eq hidden vacant =>
    refine if_neg fun heq => ?_
    obtain rfl : s.requestToken slot = token := heq
    have hvisible := h.holds (request?_eq_some.mpr ⟨rfl, request⟩)
    rw [hidden] at hvisible
    cases hvisible
  | @create handler key credit slot generation waiter waiterGeneration lt free fresh =>
    refine if_neg fun heq => ?_
    obtain rfl : ⟨s.id, slot, generation⟩ = token := heq
    exact Nat.not_le_of_lt fresh h.past.2
  | claim => rfl
  | settle quiet => exact Answer.attached_of_quiet quiet token
  | cancel | take => rfl

theorem stable_visible : Stable fun r : Request K H C => r.state.isVisible where
  setState hr becomes := absurd hr (Bool.not_eq_true _ ▸ becomes.not_visible)
  setWaiters hr := hr

theorem stable_result (completion : C) :
    Stable fun r : Request K H C => r.state.result = some completion where
  setState hr becomes := becomes.result hr
  setWaiters hr := hr

theorem run_attached (run : s.Run log s') {token : RequestToken}
    (h : s.Holds token fun r => r.state.isVisible) :
    log.filterMap (·.2.attached token) = [] := by
  induction run with
  | nil => rfl
  | snoc run step ih =>
    rw [List.filterMap_append, ih, List.nil_append, List.filterMap_cons_none, List.filterMap_nil]
    exact step.attached_eq_none (h.run stable_visible run)

/-- A run, with the waiters that have become ready in it. -/
inductive Delivers (s : Registry K H C) : Log K H C → List WaiterToken → Registry K H C → Prop
  | nil : Delivers s [] [] s
  | snoc {log ready s' s'' o a} (run : Delivers s log ready s')
      (step : s'.Step o a s'') : Delivers s (log ++ [(o, a)]) (ready ++ s'.turnedReady s'') s''

variable {ready : List WaiterToken}

namespace Delivers

variable (h : s.Delivers log ready s')
include h

theorem run : s.Run log s' := by
  induction h with
  | nil => exact .nil
  | snoc _ step ih => exact ih.snoc step

theorem append {log' : Log K H C} {ready' : List WaiterToken} {s'' : Registry K H C}
    (h' : s'.Delivers log' ready' s'') :
    s.Delivers (log ++ log') (ready ++ ready') s'' := by
  induction h' with
  | nil => simpa using h
  | snoc _ step ih =>
    rw [← List.append_assoc, ← List.append_assoc]
    exact ih.snoc step

theorem released (hs : s.Valid) :
    (log.map (·.2.waitersReleased)).sum = ready.length := by
  induction h with
  | nil => rfl
  | snoc run step ih =>
    simp [ih, step.turnedReady_length (run_valid run.run hs)]

/-- A waiter becomes ready once: the request of one that is ready stays visible. -/
theorem nodup (hs : s.Valid) :
    ready.Nodup ∧ ∀ token ∈ ready, s'.HoldsWaiter token fun _ state => state.isVisible := by
  induction h with
  | nil => exact ⟨.nil, fun _ h => nomatch h⟩
  | @snoc log ready s' s'' o a run step ih =>
    obtain ⟨hnodup, hready⟩ := ih
    have hs' := run_valid run.run hs
    refine ⟨List.nodup_append.mpr ⟨hnodup, turnedReady_nodup, ?_⟩, fun token htoken => ?_⟩
    · rintro token htoken token' hturned rfl
      obtain ⟨heq, -, hactive, -⟩ := mem_turnedReady hturned
      obtain ⟨slot, r, howner, request, hidden⟩ := isActive_iff.mp hactive
      have hvisible := (hready token htoken).holds heq request (hs'.mem_waiters howner request)
      rw [hidden] at hvisible
      cases hvisible
    · rcases List.mem_append.mp htoken with hold | hturned
      · refine (hready token hold).step (fun hvisible becomes => ?_) step
        exact absurd hvisible (Bool.not_eq_true _ ▸ becomes.not_visible)
      · obtain ⟨-, heq, -, hready'⟩ := mem_turnedReady hturned
        obtain ⟨slot, r, howner, request, hvisible⟩ := isReady_iff.mp hready'
        have hs'' := step.valid hs'
        exact hs''.holdsWaiter heq request (hs''.mem_waiters howner request) hvisible

end Delivers

end Registry

/-! ### The broker -/

def WaiterState.isReady : WaiterState C → Bool
  | .active => false
  | .ready _ => true

namespace FaultBroker

def isActive (b : FaultBroker K H C) (waiter : Nat) : Bool :=
  (b.waiters waiter).record.any fun entry => !entry.state.isReady

def isReady (b : FaultBroker K H C) (waiter : Nat) : Bool :=
  (b.waiters waiter).record.any fun entry => entry.state.isReady

/-- The waiters that have become ready between two states. -/
def turnedReady (b b' : FaultBroker K H C) : List WaiterToken :=
  ((List.range b.waiterCapacity).filter fun waiter => b.isActive waiter && b'.isReady waiter &&
    decide (b'.waiterToken waiter = b.waiterToken waiter)).map b.waiterToken

variable [DecidableEq K] [DecidableEq H] [FaultRangeKey K]

/-- A run, with the waiters that have become ready in it. -/
inductive Delivers (b : FaultBroker K H C) : Log K H C → List WaiterToken → FaultBroker K H C → Prop
  | nil : Delivers b [] [] b
  | snoc {log ready b' b'' o a} (run : Delivers b log ready b')
      (perform : b'.perform o = some (a, b'')) :
      Delivers b (log ++ [(o, a)]) (ready ++ b'.turnedReady b'') b''

end FaultBroker

theorem RequestState.isReady_waiterState (state : RequestState C) :
    state.waiterState.isReady = state.isVisible := by
  cases state <;> rfl

section

variable {b b' : FaultBroker K H C} {s s' : Registry K H C}

theorem Refines.any_waiter (h : Refines b s) (p : Bool → Bool) (waiter : Nat) :
    (b.waiters waiter).record.any (fun entry => p entry.state.isReady)
      = (s.owner waiter).any fun slot => (s.requests slot).any fun r => p r.state.isVisible := by
  have hbody := congrArg (Option.any fun w => p w.state.isReady) (h.waiters.body waiter)
  rw [FaultBroker.waiterBody, Option.any_map] at hbody
  refine Eq.trans hbody ?_
  unfold waiterBody
  cases s.owner waiter with
  | none => rfl
  | some slot =>
    simp only [Option.bind_some, Option.any_some, Option.any_map,
      RequestState.isReady_waiterState]

theorem Refines.isActive (h : Refines b s) (waiter : Nat) : b.isActive waiter = s.isActive waiter :=
  h.any_waiter not waiter

theorem Refines.isReady (h : Refines b s) (waiter : Nat) : b.isReady waiter = s.isReady waiter :=
  h.any_waiter id waiter

theorem Refines.turnedReady (h : Refines b s) (h' : Refines b' s') :
    b.turnedReady b' = s.turnedReady s' := by
  unfold FaultBroker.turnedReady Registry.turnedReady
  rw [funext h.waiterToken, funext h'.waiterToken, h.waiters.capacity]
  simp only [h.isActive, h'.isReady]

variable [DecidableEq K] [DecidableEq H] [FaultRangeKey K] {log : Log K H C}
  {ready : List WaiterToken}

theorem refines_delivers (run : b.Delivers log ready b') (h : Refines b s) :
    ∃ s', s.Delivers log ready s' ∧ Refines b' s' := by
  induction run with
  | nil => exact ⟨s, .nil, h⟩
  | snoc run perform ih =>
    obtain ⟨s', run', h'⟩ := ih
    obtain ⟨b'', hperform, h''⟩ := refines_perform h' _
    cases perform.symm.trans hperform
    exact ⟨_, h'.turnedReady h'' ▸ run'.snoc (perform_step h'.valid _), h''⟩

/-- What a request and its waiters are like when its result has been given. -/
structure FaultBroker.Decided (b : FaultBroker K H C) (token : RequestToken) (completion : C) :
    Prop where
  request : ∀ {record}, b.find? token = some record → record.state.result = some completion
  ready : ∀ {waiter entry completion'}, b.findWaiter? waiter = some entry →
    entry.request = token → entry.state = .ready completion' → completion' = completion
  taken : ∀ {waiter entry t b'}, b.findWaiter? waiter = some entry → entry.request = token →
    b.perform (.takeWaiterCompletion waiter) = some (.taken (.ok t), b') →
    t.completion = completion
  cancelled : ∀ {waiter entry c b'}, b.findWaiter? waiter = some entry → entry.request = token →
    b.perform (.cancelWaiter waiter) = some (.cancelled (.ok c), b') →
    ∀ completion', c.completion = some completion' → completion' = completion

theorem Refines.step (h : Refines b s) {o : Operation K H C} {a : Answer K H C}
    (perform : b.perform o = some (a, b')) : ∃ s', s.Step o a s' := by
  obtain ⟨b'', hperform, -⟩ := refines_perform h o
  cases perform.symm.trans hperform
  exact ⟨_, perform_step h.valid o⟩

theorem Refines.decided (h : Refines b s) {token : RequestToken} {completion : C}
    (holds : s.Holds token fun r => r.state.result = some completion) :
    b.Decided token completion := by
  -- the request of a waiter has the result
  have hwaiter : ∀ {waiter entry}, b.findWaiter? waiter = some entry → entry.request = token →
      ∃ slot r, waiter = s.waiterToken waiter.slot ∧ s.requests slot = some r ∧
        waiter.slot ∈ r.waiters ∧ r.state.result = some completion ∧
        entry.state = r.state.waiterState := by
    intro waiter entry hfind hrequest
    obtain ⟨slot, r, heq, request, mem, htoken, hstate⟩ := h.findWaiter? hfind
    rw [hrequest] at htoken
    subst htoken
    exact ⟨slot, r, heq, request, mem, holds.holds (request?_eq_some.mpr ⟨rfl, request⟩),
      hstate⟩
  have hvisible : ∀ {state : RequestState C} {completion'}, state.result = some completion →
      state = .visible completion' → completion' = completion := by
    rintro _ completion' hresult rfl
    exact Option.some.inj hresult
  constructor
  case request =>
    intro record hfind
    obtain ⟨r, request, hbody⟩ := h.find? hfind
    have hstate : record.state = r.state := congrArg RequestBody.state hbody
    rw [hstate]
    exact holds.holds request
  case ready =>
    intro waiter entry completion' hfind hrequest hready
    obtain ⟨slot, r, -, -, -, hresult, hstate⟩ := hwaiter hfind hrequest
    exact hvisible hresult (RequestState.waiterState_eq_ready.mp (hstate.symm.trans hready))
  case taken =>
    intro waiter entry t b' hfind hrequest hperform
    obtain ⟨slot, r, -, request, mem, hresult, -⟩ := hwaiter hfind hrequest
    obtain ⟨s', step⟩ := h.step hperform
    cases step with
    | settle quiet => cases quiet
    | take _ request' mem' result =>
      obtain rfl := h.valid.owner_unique request' mem' request mem
      obtain rfl := Option.some.inj (request'.symm.trans request)
      exact hvisible hresult result
  case cancelled =>
    intro waiter entry c b' hfind hrequest hperform completion' hcompletion
    obtain ⟨slot, r, -, request, mem, hresult, -⟩ := hwaiter hfind hrequest
    obtain ⟨s', step⟩ := h.step hperform
    cases step with
    | settle quiet => cases quiet
    | cancel _ request' mem' result =>
      obtain rfl := h.valid.owner_unique request' mem' request mem
      obtain rfl := Option.some.inj (request'.symm.trans request)
      exact hvisible hresult (result.mp hcompletion)

variable {requestCapacity waiterCapacity : UInt64} {creditPool memory : Bool}
  {nextBrokerId nextBrokerId' : Nat} {b₁ b₂ : FaultBroker K H C} {log₁ log₂ : Log K H C}
  {ready₁ ready₂ : List WaiterToken}

theorem completion_delivered_once
    (hnew : FaultBroker.tryNew requestCapacity waiterCapacity creditPool memory nextBrokerId
      = .ok (b, nextBrokerId')) (run₁ : b.Delivers log₁ ready₁ b₁)
    (run₂ : b₁.Delivers log₂ ready₂ b₂) :
    (∀ token record completion, b₁.find? token = some record →
      record.state.result = some completion → b₂.Decided token completion) ∧
    (∀ token record, b₁.find? token = some record → record.state.isVisible →
      log₂.filterMap (·.2.attached token) = []) ∧
    ((log₁ ++ log₂).filterMap yielded).Nodup ∧
    ((log₁ ++ log₂).map (·.2.waitersReleased)).sum = (ready₁ ++ ready₂).length ∧
    (ready₁ ++ ready₂).Nodup := by
  obtain ⟨s₁, delivers₁, h₁⟩ := refines_delivers run₁ (refines_tryNew hnew)
  obtain ⟨s₂, delivers₂, h₂⟩ := refines_delivers run₂ h₁
  have delivers := delivers₁.append delivers₂
  refine ⟨?_, ?_, ?_, delivers.released valid_new, (delivers.nodup valid_new).1⟩
  · intro token record completion hfind hresult
    obtain ⟨r, request, hbody⟩ := h₁.find? hfind
    have hstate : record.state = r.state := congrArg RequestBody.state hbody
    rw [hstate] at hresult
    exact h₂.decided ((holds_of_request? request hresult).run
      (stable_result completion) delivers₂.run)
  · intro token record hfind hvisible
    obtain ⟨r, request, hbody⟩ := h₁.find? hfind
    have hstate : record.state = r.state := congrArg RequestBody.state hbody
    rw [hstate] at hvisible
    exact run_attached delivers₂.run (holds_of_request? request hvisible)
  · exact (run_yielded delivers.run valid_new).1

theorem FaultBroker.Run.delivers (run : b.Run log b') : ∃ ready, b.Delivers log ready b' := by
  induction run with
  | nil => exact ⟨[], .nil⟩
  | snoc _ perform ih =>
    obtain ⟨ready, delivers⟩ := ih
    exact ⟨_, delivers.snoc perform⟩

end

theorem completion_delivered_once_two :
    ∃ (b b₁ b₂ : FaultBroker Page Nat Nat) (log₁ log₂ : Log Page Nat Nat)
      (ready₁ ready₂ : List WaiterToken),
    FaultBroker.tryNew 1 2 false true 1 = .ok (b, 2) ∧
    b.Delivers log₁ ready₁ b₁ ∧ b₁.Delivers log₂ ready₂ b₂ ∧
    log₁.map (·.1) = [.admitFault 1 ⟨4096⟩ true, .admitFault 1 ⟨4096⟩ true,
      .complete ⟨1, 0, 1⟩ 7 .deferred] ∧
    log₂.map (·.1) = [.complete ⟨1, 0, 1⟩ 8 .visible, .release ⟨1, 0, 1⟩,
      .takeWaiterCompletion ⟨1, 0, 1⟩] ∧
    ((log₁ ++ log₂).map (·.2.waitersReleased)).sum = (ready₁ ++ ready₂).length ∧
    (ready₁ ++ ready₂).Nodup := by
  obtain ⟨b, hnew⟩ : ∃ b : FaultBroker Page Nat Nat,
    FaultBroker.tryNew 1 2 false true 1 = .ok (b, 2) := ⟨_, rfl⟩
  have h := refines_tryNew hnew
  obtain ⟨log₁, b₁, run₁, hlog₁⟩ := exists_run h
    [.admitFault 1 ⟨4096⟩ true, .admitFault 1 ⟨4096⟩ true, .complete ⟨1, 0, 1⟩ 7 .deferred]
  obtain ⟨s₁, -, h₁⟩ := refines_run run₁ h
  obtain ⟨log₂, b₂, run₂, hlog₂⟩ := exists_run h₁ [.complete ⟨1, 0, 1⟩ 8 .visible,
    .release ⟨1, 0, 1⟩, .takeWaiterCompletion ⟨1, 0, 1⟩]
  obtain ⟨ready₁, delivers₁⟩ := run₁.delivers
  obtain ⟨ready₂, delivers₂⟩ := run₂.delivers
  obtain ⟨-, -, -, hreleased, hnodup⟩ := completion_delivered_once hnew delivers₁ delivers₂
  exact ⟨b, b₁, b₂, log₁, log₂, ready₁, ready₂, hnew, delivers₁, delivers₂, hlog₁, hlog₂,
    hreleased, hnodup⟩

end KernelAx.Fault
