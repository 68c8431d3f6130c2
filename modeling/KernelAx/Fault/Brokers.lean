import Mathlib.Logic.Relation
import KernelAx.Fault.Tokens

/-!
# Fault broker — Brokers

Any number of brokers, of any types, made and dropped in any order. They share the counter that
their identities are taken from, and a token is a plain triple that can be shown to any of them.
A token resolves only in the broker that has issued it and only to the request or waiter it was
issued for; once it does not resolve it never resolves again (`tokens_unforgeable`).
-/

namespace KernelAx.Fault

open FaultBroker Registry
open Function (update update_self update_of_ne)

/-! ### One broker -/

section

variable {K H C : Type}

/-- The request tokens in an answer. -/
def Answer.request : Answer K H C → Option RequestToken
  | .admitted (.ok a) => some a.request
  | .claimed (some snapshot) => some snapshot.token
  | _ => none

/-- The request tokens that a broker has given out. -/
def issued (log : Log K H C) : List RequestToken := log.filterMap (·.2.request)

variable {log : Log K H C} {s s' : Registry K H C} {o : Operation K H C} {a : Answer K H C}

theorem issued_snoc : issued (log ++ [(o, a)]) = issued log ++ a.request.toList := by
  simp only [issued, List.filterMap_append]
  cases h : a.request <;> simp [h]

theorem Answer.request_of_quiet (h : a.quiet) : a.request = none := by
  cases a with
  | admitted r | claimed r => cases r <;> first | rfl | cases h
  | _ => rfl

/-- What the answers of a broker say of its tokens. -/
structure Issued (log : Log K H C) (s : Registry K H C) : Prop where
  live : ∀ {slot}, (s.requests slot).isSome → s.requestToken slot ∈ created log
  created : ∀ {token}, token ∈ issued log → token ∈ created log
  request : ∀ {handler key credit admission},
    (.admitFault handler key credit, .admitted (.ok admission)) ∈ log →
    s.Holds admission.request fun r => r.handler = handler ∧ r.key = key
  waiter : ∀ {handler key credit admission},
    (.admitFault handler key credit, .admitted (.ok admission)) ∈ log →
    s.HoldsWaiter admission.waiter fun token _ => token = admission.request

theorem stable_named (handler : H) (key : K) :
    Registry.Stable fun r : Request K H C => r.handler = handler ∧ r.key = key where
  setState hr _ := hr
  setWaiters hr := hr

/-- The tokens of an admission name the request and the waiter that has joined it. -/
theorem Registry.holds_join {slot waiter generation : Nat} {r : Request K H C}
    (request : s.requests slot = some r) (hs : (s.join slot waiter generation).Valid) :
    ((s.join slot waiter generation).Holds (s.requestToken slot)
        fun q => q.handler = r.handler ∧ q.key = r.key) ∧
      (s.join slot waiter generation).HoldsWaiter ⟨s.id, waiter, generation⟩
        fun token _ => token = s.requestToken slot := by
  have hself : (s.join slot waiter generation).requests slot
      = some { r with waiters := r.waiters ++ [waiter] } := by simp [join, request]
  have htoken : (⟨s.id, waiter, generation⟩ : WaiterToken)
      = (s.join slot waiter generation).waiterToken waiter := by
    simp [waiterToken, join]
  refine ⟨holds_of_request? (request?_eq_some.mpr ⟨rfl, hself⟩) ⟨rfl, rfl⟩, ?_⟩
  exact hs.holdsWaiter htoken hself (List.mem_append_right _ (List.mem_singleton_self _)) rfl

theorem Registry.Step.id_eq (step : s.Step o a s') : s'.id = s.id := by
  cases step with
  | settle quiet consistent settles =>
    exact congrArg RequestToken.broker (congrFun settles.live.1 0)
  | _ => rfl

/-- An answer gives out the token of a live request. -/
theorem Registry.Step.request (step : s.Step o a s') {token : RequestToken}
    (h : a.request = some token) :
    a.created = some token ∨ ∃ slot, (s.requests slot).isSome ∧ token = s.requestToken slot := by
  cases step with
  | join request =>
    refine .inr ⟨_, ?_, (Option.some.inj h).symm⟩
    rw [request]
    rfl
  | create => exact .inl h
  | claim request claimed token =>
    refine .inr ⟨_, ?_, (Option.some.inj h).symm.trans token⟩
    rw [request]
    rfl
  | settle quiet => exact nomatch (Answer.request_of_quiet quiet).symm.trans h
  | cancel | take => cases h

theorem Registry.Step.admission (step : s.Step o a s') (hs : s.Valid) {handler : H} {key : K}
    {credit : Bool} {admission : FaultAdmission} (ho : o = .admitFault handler key credit)
    (ha : a = .admitted (.ok admission)) :
    s'.Holds admission.request (fun r => r.handler = handler ∧ r.key = key) ∧
      s'.HoldsWaiter admission.waiter fun token _ => token = admission.request := by
  have hs' := step.valid hs
  cases step with
  | join request handler_eq key_eq =>
    cases ho
    cases ha
    subst handler_eq key_eq
    exact holds_join request hs'
  | @create _ _ _ slot generation =>
    cases ho
    cases ha
    have htoken : (s.openRequest slot generation handler key).requestToken slot
        = ⟨s.id, slot, generation⟩ := by simp [requestToken, openRequest]
    exact htoken ▸ holds_join (s.openRequest_self ..) hs'
  | settle quiet =>
    subst ha
    cases quiet
  | claim | cancel | take => cases ha

theorem issued_new {id requestCapacity waiterCapacity : Nat} {creditPool : Bool} :
    Issued [] (.new id requestCapacity waiterCapacity creditPool : Registry K H C) where
  live h := nomatch h
  created h := nomatch h
  request h := nomatch h
  waiter h := nomatch h

theorem step_issued (step : s.Step o a s') (hs : s.Valid) (h : Issued log s) :
    Issued (log ++ [(o, a)]) s' := by
  have hmem : ∀ {e : Operation K H C × Answer K H C}, e ∈ log ++ [(o, a)] → e ∈ log ∨ e = (o, a) :=
    fun he => (List.mem_append.mp he).imp_right List.mem_singleton.mp
  constructor
  case live =>
    intro slot hlive
    rw [created_snoc]
    rcases step.live hlive with hcreated | ⟨hold, htoken⟩
    · exact List.mem_append_right _ (by simp [hcreated])
    · exact List.mem_append_left _ (htoken ▸ h.live hold)
  case created =>
    intro token htoken
    rw [issued_snoc] at htoken
    rw [created_snoc]
    rcases List.mem_append.mp htoken with hold | hnew
    · exact List.mem_append_left _ (h.created hold)
    · rcases step.request (Option.mem_toList.mp hnew) with hcreated | ⟨slot, hlive, rfl⟩
      · exact List.mem_append_right _ (by simp [hcreated])
      · exact List.mem_append_left _ (h.live hlive)
  case request =>
    intro handler key credit admission he
    rcases hmem he with hold | hnew
    · exact (h.request hold).step (stable_named handler key) step
    · obtain ⟨ho, ha⟩ := Prod.mk.inj hnew
      exact (step.admission hs ho.symm ha.symm).1
  case waiter =>
    intro handler key credit admission he
    rcases hmem he with hold | hnew
    · exact (h.waiter hold).step (fun h _ => h) step
    · obtain ⟨ho, ha⟩ := Prod.mk.inj hnew
      exact (step.admission hs ho.symm ha.symm).2

end

/-! ### Many brokers -/

/-- A broker with the operations it has performed since it was made. -/
structure Tracked (K H C : Type) where
  broker : FaultBroker K H C
  log : Log K H C

/-- The places where brokers are held, each for brokers of its own types; the brokers that have been
dropped are kept for what they have answered. -/
structure World {ι : Type} (K H C : ι → Type) where
  nextBrokerId : Nat
  live : (i : ι) → Option (Tracked (K i) (H i) (C i))
  dropped : List ((i : ι) × Tracked (K i) (H i) (C i))

namespace Tracked

variable {K H C : Type}

/-- The broker is as its log has left it. -/
def Traced (x : Tracked K H C) : Prop :=
  ∃ s, Refines x.broker s ∧ Recorded (created x.log) (admitted x.log) (claimed x.log) s ∧
    Issued x.log s

variable {x : Tracked K H C}

theorem Traced.broker_of_issued (h : x.Traced) {token : RequestToken} (mem : token ∈ issued x.log) :
    token.broker = x.broker.id := by
  obtain ⟨s, hrefines, hrecorded, hissued⟩ := h
  exact (hrecorded.created_past (hissued.created mem)).1.trans hrefines.requests.id.symm

theorem Traced.broker_of_admitted (h : x.Traced) {token : WaiterToken}
    (mem : token ∈ admitted x.log) : token.broker = x.broker.id := by
  obtain ⟨s, hrefines, hrecorded, -⟩ := h
  exact (hrecorded.admitted_past mem).1.trans hrefines.requests.id.symm

theorem traced_tryNew {b : FaultBroker K H C} {requestCapacity waiterCapacity : UInt64}
    {creditPool memory : Bool} {nextBrokerId nextBrokerId' : Nat}
    (hnew : tryNew requestCapacity waiterCapacity creditPool memory nextBrokerId
      = .ok (b, nextBrokerId')) : (⟨b, []⟩ : Tracked K H C).Traced :=
  ⟨_, refines_tryNew hnew, recorded_new, issued_new⟩

theorem Traced.perform [DecidableEq K] [DecidableEq H] [FaultRangeKey K] {b : FaultBroker K H C}
    {o : Operation K H C} {a : Answer K H C} (h : x.Traced)
    (perform : x.broker.perform o = some (a, b)) :
    (⟨b, x.log ++ [(o, a)]⟩ : Tracked K H C).Traced ∧ b.id = x.broker.id := by
  obtain ⟨s, hrefines, hrecorded, hissued⟩ := h
  obtain ⟨b', hperform, hrefines'⟩ := refines_perform hrefines o
  cases perform.symm.trans hperform
  have step := perform_step hrefines.valid o
  refine ⟨⟨_, hrefines', step_recorded step hrefines.valid hrecorded,
    step_issued step hrefines.valid hissued⟩, ?_⟩
  rw [hrefines'.requests.id, step.id_eq, hrefines.requests.id]

end Tracked

theorem FaultBroker.tryNew_id {K H C : Type} {b : FaultBroker K H C}
    {requestCapacity waiterCapacity : UInt64} {creditPool memory : Bool}
    {nextBrokerId nextBrokerId' : Nat}
    (hnew : tryNew requestCapacity waiterCapacity creditPool memory nextBrokerId
      = .ok (b, nextBrokerId')) : b.id = nextBrokerId ∧ nextBrokerId' = nextBrokerId + 1 := by
  unfold tryNew at hnew
  split at hnew
  · cases hnew
  · split at hnew
    · cases hnew
    · split at hnew
      · cases hnew
        exact ⟨rfl, rfl⟩
      · cases hnew

namespace World

variable {ι : Type} {K H C : ι → Type}

def initial : World K H C := ⟨1, fun _ => none, []⟩

section

variable [DecidableEq ι] [∀ i, DecidableEq (K i)] [∀ i, DecidableEq (H i)]
  [∀ i, FaultRangeKey (K i)]

/-- A broker is made at a free place, performs an operation or is dropped. -/
inductive Step (w : World K H C) : World K H C → Prop
  | tryNew {i requestCapacity waiterCapacity creditPool memory b nextBrokerId}
      (free : w.live i = none)
      (new : tryNew requestCapacity waiterCapacity creditPool memory w.nextBrokerId
        = .ok (b, nextBrokerId)) :
      Step w ⟨nextBrokerId, update w.live i (some ⟨b, []⟩), w.dropped⟩
  | perform {i x o a b} (live : w.live i = some x) (perform : x.broker.perform o = some (a, b)) :
      Step w ⟨w.nextBrokerId, update w.live i (some ⟨b, x.log ++ [(o, a)]⟩), w.dropped⟩
  | drop {i x} (live : w.live i = some x) :
      Step w ⟨w.nextBrokerId, update w.live i none, ⟨i, x⟩ :: w.dropped⟩

/-- Any number of steps. -/
abbrev Steps (w w' : World K H C) : Prop := Relation.ReflTransGen Step w w'

end

/-- A broker of the world, live or dropped. -/
def Has (w : World K H C) (i : ι) (x : Tracked (K i) (H i) (C i)) : Prop :=
  w.live i = some x ∨ ⟨i, x⟩ ∈ w.dropped

/-- No two brokers have the same identity, and the next one has another. -/
structure Valid (w : World K H C) : Prop where
  traced : ∀ {i x}, w.Has i x → x.Traced
  id_lt : ∀ {i x}, w.Has i x → x.broker.id < w.nextBrokerId
  live_unique : ∀ {i j x y}, w.live i = some x → w.live j = some y →
    x.broker.id = y.broker.id → i = j
  dropped_ne : ∀ {i j x y}, w.live i = some x → ⟨j, y⟩ ∈ w.dropped → x.broker.id ≠ y.broker.id

theorem valid_initial : (initial : World K H C).Valid where
  traced h := h.elim (fun h => nomatch h) fun h => nomatch h
  id_lt h := h.elim (fun h => nomatch h) fun h => nomatch h
  live_unique h := nomatch h
  dropped_ne h := nomatch h

section

variable [DecidableEq ι] {w : World K H C} {i : ι} {x : Tracked (K i) (H i) (C i)}

theorem live_put {j : ι} {y : Tracked (K j) (H j) (C j)} (h : update w.live i (some x) j = some y) :
    (⟨j, y⟩ : (i : ι) × Tracked (K i) (H i) (C i)) = ⟨i, x⟩ ∨ j ≠ i ∧ w.live j = some y := by
  by_cases hji : j = i
  · subst hji
    rw [update_self] at h
    exact .inl (Option.some.inj h ▸ rfl)
  · exact .inr ⟨hji, by rwa [update_of_ne hji] at h⟩

theorem live_drop {j : ι} {y : Tracked (K j) (H j) (C j)}
    (h : update w.live i none j = some y) : j ≠ i ∧ w.live j = some y := by
  by_cases hji : j = i
  · subst hji
    rw [update_self] at h
    cases h
  · exact ⟨hji, by rwa [update_of_ne hji] at h⟩

/-- A broker whose identity no other one has is put at a place. -/
theorem Valid.put (hw : w.Valid) {nextBrokerId : Nat} (traced : x.Traced)
    (lt : x.broker.id < nextBrokerId) (le : w.nextBrokerId ≤ nextBrokerId)
    (live_ne : ∀ {j y}, j ≠ i → w.live j = some y → x.broker.id ≠ y.broker.id)
    (dropped_ne : ∀ {j y}, ⟨j, y⟩ ∈ w.dropped → x.broker.id ≠ y.broker.id) :
    (⟨nextBrokerId, update w.live i (some x), w.dropped⟩ : World K H C).Valid := by
  constructor
  case traced =>
    rintro j y (h | h)
    · rcases live_put h with heq | ⟨-, h⟩
      · cases heq
        exact traced
      · exact hw.traced (.inl h)
    · exact hw.traced (.inr h)
  case id_lt =>
    rintro j y (h | h)
    · rcases live_put h with heq | ⟨-, h⟩
      · cases heq
        exact lt
      · exact Nat.lt_of_lt_of_le (hw.id_lt (.inl h)) le
    · exact Nat.lt_of_lt_of_le (hw.id_lt (.inr h)) le
  case live_unique =>
    intro j k y z hy hz hid
    rcases live_put hy with heq | ⟨hji, hy⟩
    · cases heq
      rcases live_put hz with heq | ⟨hki, hz⟩
      · cases heq
        rfl
      · exact absurd hid (live_ne hki hz)
    · rcases live_put hz with heq | ⟨-, hz⟩
      · cases heq
        exact absurd hid.symm (live_ne hji hy)
      · exact hw.live_unique hy hz hid
  case dropped_ne =>
    intro j k y z hy hz
    rcases live_put hy with heq | ⟨-, hy⟩
    · cases heq
      exact dropped_ne hz
    · exact hw.dropped_ne hy hz

theorem Valid.drop (hw : w.Valid) (live : w.live i = some x) :
    (⟨w.nextBrokerId, update w.live i none, ⟨i, x⟩ :: w.dropped⟩ : World K H C).Valid := by
  have hhas : ∀ {j y}, World.Has ⟨w.nextBrokerId, update w.live i none,
      ⟨i, x⟩ :: w.dropped⟩ j y → w.Has j y := by
    rintro j y (h | h)
    · exact .inl (live_drop h).2
    · rcases List.mem_cons.mp h with heq | h
      · cases heq
        exact .inl live
      · exact .inr h
  refine ⟨fun h => hw.traced (hhas h), fun h => hw.id_lt (hhas h), ?_, ?_⟩
  · intro j k y z hy hz hid
    exact hw.live_unique (live_drop hy).2 (live_drop hz).2 hid
  · intro j k y z hy hz hid
    rcases List.mem_cons.mp hz with heq | hz
    · cases heq
      exact (live_drop hy).1 (hw.live_unique (live_drop hy).2 live hid)
    · exact hw.dropped_ne (live_drop hy).2 hz hid

end

section

variable [DecidableEq ι] [∀ i, DecidableEq (K i)] [∀ i, DecidableEq (H i)]
  [∀ i, FaultRangeKey (K i)] {w w' : World K H C}

theorem Step.valid (step : w.Step w') (hw : w.Valid) : w'.Valid := by
  cases step with
  | tryNew free new =>
    obtain ⟨hid, rfl⟩ := tryNew_id new
    have hne : ∀ {j y}, w.Has j y → w.nextBrokerId ≠ y.broker.id :=
      fun h => Nat.ne_of_gt (hw.id_lt h)
    refine hw.put (Tracked.traced_tryNew new) (hid ▸ Nat.lt_succ_self _) (Nat.le_succ _)
      (fun _ h => hid ▸ hne (.inl h)) fun h => hid ▸ hne (.inr h)
  | perform live perform =>
    obtain ⟨traced, hid⟩ := (hw.traced (.inl live)).perform perform
    refine hw.put traced (hid ▸ hw.id_lt (.inl live)) (Nat.le_refl _) (fun hji h heq => ?_)
      fun h => ?_
    · exact hji (hw.live_unique h live (heq.symm.trans hid))
    · exact hid ▸ hw.dropped_ne live h
  | drop live => exact hw.drop live

theorem Steps.valid (steps : w.Steps w') (hw : w.Valid) : w'.Valid := by
  induction steps with
  | refl => exact hw
  | tail _ step ih => exact step.valid ih

/-! ### Stale tokens -/

/-- The broker of an identity that has been given out satisfies `D` as long as it is live. -/
structure Keeps (w : World K H C) (id : Nat) (D : ∀ i, Registry (K i) (H i) (C i) → Prop) :
    Prop where
  id_lt : id < w.nextBrokerId
  live : ∀ {i x}, w.live i = some x → x.broker.id = id → ∃ s, Refines x.broker s ∧ D i s

theorem Keeps.step {id : Nat} {D : ∀ i, Registry (K i) (H i) (C i) → Prop} (h : w.Keeps id D)
    (hw : w.Valid) (hD : ∀ {i s o a s'}, D i s → s.Step o a s' → D i s') (step : w.Step w') :
    w'.Keeps id D := by
  cases step with
  | tryNew free new =>
    obtain ⟨hid, rfl⟩ := tryNew_id new
    refine ⟨Nat.lt_succ_of_lt h.id_lt, fun {j y} hy hyid => ?_⟩
    rcases live_put hy with heq | ⟨-, hy⟩
    · cases heq
      exact absurd (hid.symm.trans hyid) (Nat.ne_of_gt h.id_lt)
    · exact h.live hy hyid
  | perform live perform =>
    refine ⟨h.id_lt, fun {j y} hy hyid => ?_⟩
    rcases live_put hy with heq | ⟨-, hy⟩
    · cases heq
      obtain ⟨-, hid⟩ := (hw.traced (.inl live)).perform perform
      obtain ⟨s, hrefines, hs⟩ := h.live live (hid.symm.trans hyid)
      obtain ⟨b', hperform, hrefines'⟩ := refines_perform hrefines _
      cases perform.symm.trans hperform
      exact ⟨_, hrefines', hD hs (perform_step hrefines.valid _)⟩
    · exact h.live hy hyid
  | drop live => exact ⟨h.id_lt, fun hy hyid => h.live (live_drop hy).2 hyid⟩

theorem Keeps.steps {id : Nat} {D : ∀ i, Registry (K i) (H i) (C i) → Prop} (h : w.Keeps id D)
    (hw : w.Valid) (hD : ∀ {i s o a s'}, D i s → s.Step o a s' → D i s') (steps : w.Steps w') :
    w'.Keeps id D := by
  induction steps with
  | refl => exact h
  | tail run step ih => exact ih.step (Steps.valid run hw) hD step

end

/-! ### Tokens -/

section

variable {w : World K H C}

/-- A broker of the world has given the token out. -/
def IssuedRequest (w : World K H C) (token : RequestToken) : Prop :=
  ∃ i x, w.Has i x ∧ token ∈ issued x.log

def IssuedWaiter (w : World K H C) (token : WaiterToken) : Prop :=
  ∃ i x, w.Has i x ∧ token ∈ admitted x.log

/-- The token resolves in no broker. -/
def Stale (w : World K H C) (token : RequestToken) : Prop :=
  ∀ {i x}, w.live i = some x → x.broker.find? token = none

def StaleWaiter (w : World K H C) (token : WaiterToken) : Prop :=
  ∀ {i x}, w.live i = some x → x.broker.findWaiter? token = none

/-- The broker at a place has issued the token, once, for the request that it names; no other broker
has ever given it out. -/
structure Genuine (w : World K H C) (i : ι) (x : Tracked (K i) (H i) (C i)) (token : RequestToken)
    (record : RequestRecord (K i) (H i) (C i)) : Prop where
  issued_once : (created x.log).count token = 1
  issued_for : ∀ {handler key credit admission},
    (.admitFault handler key credit, .admitted (.ok admission)) ∈ x.log →
    admission.request = token → record.handler = handler ∧ record.key = key
  not_live : ∀ {j y}, w.live j = some y → j ≠ i → token ∉ issued y.log
  not_dropped : ∀ {j y}, ⟨j, y⟩ ∈ w.dropped → token ∉ issued y.log

/-- The token was issued once, by this broker, for the request that the waiter waits for. -/
structure GenuineWaiter (w : World K H C) (i : ι) (x : Tracked (K i) (H i) (C i))
    (token : WaiterToken) (entry : WaiterRecord (C i)) : Prop where
  issued_once : (admitted x.log).count token = 1
  issued_for : ∀ {handler key credit admission},
    (.admitFault handler key credit, .admitted (.ok admission)) ∈ x.log →
    admission.waiter = token → entry.request = admission.request
  not_live : ∀ {j y}, w.live j = some y → j ≠ i → token ∉ admitted y.log
  not_dropped : ∀ {j y}, ⟨j, y⟩ ∈ w.dropped → token ∉ admitted y.log

variable {i : ι} {x : Tracked (K i) (H i) (C i)} {token : RequestToken}

/-- No other broker has the identity of a live one. -/
theorem Valid.other (hw : w.Valid) (live : w.live i = some x) {j : ι}
    {y : Tracked (K j) (H j) (C j)} (other : w.live j = some y ∧ j ≠ i ∨ ⟨j, y⟩ ∈ w.dropped) :
    x.broker.id ≠ y.broker.id := by
  rcases other with ⟨hj, hji⟩ | hdropped
  · exact fun hid => hji (hw.live_unique live hj hid).symm
  · exact hw.dropped_ne live hdropped

theorem Valid.genuine (hw : w.Valid) (live : w.live i = some x)
    {record : RequestRecord (K i) (H i) (C i)} (hfind : x.broker.find? token = some record) :
    w.Genuine i x token record := by
  obtain ⟨s, hrefines, hrecorded, hissued⟩ := hw.traced (.inl live)
  obtain ⟨r, request, hbody⟩ := hrefines.find? hfind
  obtain ⟨htoken, hr⟩ := request?_eq_some.mp request
  have hcreated : token ∈ created x.log := htoken ▸ hissued.live (by rw [hr]; rfl)
  have hid : token.broker = x.broker.id :=
    (hrecorded.created_past hcreated).1.trans hrefines.requests.id.symm
  constructor
  case issued_once => exact List.count_eq_one_of_mem hrecorded.created_nodup hcreated
  case issued_for =>
    rintro handler key credit admission hadmission rfl
    obtain ⟨hhandler, hkey⟩ := (hissued.request hadmission).holds request
    exact ⟨(congrArg RequestBody.handler hbody).trans hhandler,
      (congrArg RequestBody.key hbody).trans hkey⟩
  case not_live =>
    intro j y hj hji hmem
    exact hw.other live (.inl ⟨hj, hji⟩)
      (hid.symm.trans ((hw.traced (.inl hj)).broker_of_issued hmem))
  case not_dropped =>
    intro j y hj hmem
    exact hw.other live (.inr hj) (hid.symm.trans ((hw.traced (.inr hj)).broker_of_issued hmem))

theorem Valid.genuineWaiter (hw : w.Valid) (live : w.live i = some x) {token : WaiterToken}
    {entry : WaiterRecord (C i)} (hfind : x.broker.findWaiter? token = some entry) :
    w.GenuineWaiter i x token entry := by
  obtain ⟨s, hrefines, hrecorded, hissued⟩ := hw.traced (.inl live)
  obtain ⟨slot, r, htoken, request, mem, hrequest, -⟩ := hrefines.findWaiter? hfind
  have hadmitted : token ∈ admitted x.log :=
    (hrecorded.waiters request).subset (htoken ▸ List.mem_map_of_mem mem)
  have hid : token.broker = x.broker.id :=
    (hrecorded.admitted_past hadmitted).1.trans hrefines.requests.id.symm
  constructor
  case issued_once => exact List.count_eq_one_of_mem hrecorded.admitted_nodup hadmitted
  case issued_for =>
    rintro handler key credit admission hadmission rfl
    exact hrequest.trans ((hissued.waiter hadmission).holds htoken request mem)
  case not_live =>
    intro j y hj hji hmem
    exact hw.other live (.inl ⟨hj, hji⟩)
      (hid.symm.trans ((hw.traced (.inl hj)).broker_of_admitted hmem))
  case not_dropped =>
    intro j y hj hmem
    exact hw.other live (.inr hj) (hid.symm.trans ((hw.traced (.inr hj)).broker_of_admitted hmem))

/-- The broker that has issued a stale token does not find it. -/
theorem Valid.keeps_stale (hw : w.Valid) (issued : w.IssuedRequest token) (stale : w.Stale token) :
    w.Keeps token.broker fun _ s => s.Holds token fun _ => False := by
  obtain ⟨j, y, hhas, hmem⟩ := issued
  have hid := (hw.traced hhas).broker_of_issued hmem
  refine ⟨hid ▸ hw.id_lt hhas, fun {i x} live hx => ?_⟩
  rcases hhas with hlive | hdropped
  · obtain rfl : j = i := hw.live_unique hlive live (hid.symm.trans hx.symm)
    obtain rfl : y = x := Option.some.inj (hlive.symm.trans live)
    obtain ⟨s, hrefines, hrecorded, hissued⟩ := hw.traced (.inl live)
    have past := hrecorded.created_past (hissued.created hmem)
    exact ⟨s, hrefines, (hrefines.find?_eq_none past).mp (stale live)⟩
  · exact absurd (hx.trans hid) (hw.dropped_ne live hdropped)

theorem Valid.keeps_staleWaiter (hw : w.Valid) {token : WaiterToken}
    (issued : w.IssuedWaiter token) (stale : w.StaleWaiter token) :
    w.Keeps token.broker fun _ s => s.HoldsWaiter token fun _ _ => False := by
  obtain ⟨j, y, hhas, hmem⟩ := issued
  have hid := (hw.traced hhas).broker_of_admitted hmem
  refine ⟨hid ▸ hw.id_lt hhas, fun {i x} live hx => ?_⟩
  rcases hhas with hlive | hdropped
  · obtain rfl : j = i := hw.live_unique hlive live (hid.symm.trans hx.symm)
    obtain rfl : y = x := Option.some.inj (hlive.symm.trans live)
    obtain ⟨s, hrefines, hrecorded, -⟩ := hw.traced (.inl live)
    have past := hrecorded.admitted_past hmem
    exact ⟨s, hrefines, (hrefines.findWaiter?_eq_none past).mp (stale live)⟩
  · exact absurd (hx.trans hid) (hw.dropped_ne live hdropped)

/-- A token of another broker is not found. -/
theorem Keeps.stale (h : w.Keeps token.broker fun _ s => s.Holds token fun _ => False) :
    w.Stale token := by
  intro i x live
  by_cases hx : x.broker.id = token.broker
  · obtain ⟨s, hrefines, holds⟩ := h.live live hx
    exact (hrefines.find?_eq_none holds.past).mpr holds
  · simp [find?, requestIndex, Ne.symm hx]

theorem Keeps.staleWaiter {token : WaiterToken}
    (h : w.Keeps token.broker fun _ s => s.HoldsWaiter token fun _ _ => False) :
    w.StaleWaiter token := by
  intro i x live
  by_cases hx : x.broker.id = token.broker
  · obtain ⟨s, hrefines, holds⟩ := h.live live hx
    exact (hrefines.findWaiter?_eq_none holds.past).mpr holds
  · simp [findWaiter?, waiterIndex, Ne.symm hx]

theorem stable_false {K H C : Type} : Registry.Stable fun _ : Request K H C => False where
  setState h _ := h
  setWaiters h := h

theorem tokens_unforgeable [DecidableEq ι] [∀ i, DecidableEq (K i)] [∀ i, DecidableEq (H i)]
    [∀ i, FaultRangeKey (K i)] {w w' : World K H C} (reached : initial.Steps w)
    (later : w.Steps w') :
    (∀ i x token record, w.live i = some x → x.broker.find? token = some record →
      w.Genuine i x token record) ∧
    (∀ i x token entry, w.live i = some x → x.broker.findWaiter? token = some entry →
      w.GenuineWaiter i x token entry) ∧
    (∀ token, w.IssuedRequest token → w.Stale token → w'.Stale token) ∧
    ∀ token, w.IssuedWaiter token → w.StaleWaiter token → w'.StaleWaiter token := by
  have hw : w.Valid := Steps.valid reached valid_initial
  refine ⟨fun i x token record live hfind => hw.genuine live hfind,
    fun i x token entry live hfind => hw.genuineWaiter live hfind, fun token issued stale => ?_,
    fun token issued stale => ?_⟩
  · exact ((hw.keeps_stale issued stale).steps hw
      (fun holds step => holds.step stable_false step) later).stale
  · exact ((hw.keeps_staleWaiter issued stale).steps hw
      (fun holds step => holds.step (fun h _ => h) step) later).staleWaiter

end

/-- A token of a broker whose slot has been used again, with a second broker beside it. -/
theorem tokens_unforgeable_reuse : ∃ w w' : World (ι := Bool) (fun _ => Page) (fun _ => Nat)
      (fun _ => Nat),
    initial.Steps w ∧ w.Steps w' ∧ w.IssuedRequest ⟨1, 0, 1⟩ ∧ w.Stale ⟨1, 0, 1⟩ ∧
    (∃ x, w'.live false = some x ∧ (x.broker.find? ⟨1, 0, 2⟩).isSome) ∧ w'.Stale ⟨1, 0, 1⟩ := by
  obtain ⟨b, b₁, b₂, b₃, c, hb, h₁, h₂, h₃, hc, hstale, hstale', hfind⟩ :
      ∃ b b₁ b₂ b₃ c : FaultBroker Page Nat Nat,
      tryNew 1 1 false true 1 = .ok (b, 2) ∧
      b.perform (.admitFault 1 ⟨4096⟩ true)
        = some (.admitted (.ok ⟨⟨1, 0, 1⟩, ⟨1, 0, 1⟩, false⟩), b₁) ∧
      b₁.perform (.cancelWaiter ⟨1, 0, 1⟩) = some (.cancelled (.ok ⟨none, ⟨true, true⟩⟩), b₂) ∧
      b₂.perform (.admitFault 1 ⟨4096⟩ true)
        = some (.admitted (.ok ⟨⟨1, 0, 2⟩, ⟨1, 0, 2⟩, false⟩), b₃) ∧
      tryNew 1 1 false true 2 = .ok (c, 3) ∧ b₂.find? ⟨1, 0, 1⟩ = none ∧
      c.find? ⟨1, 0, 1⟩ = none ∧ (b₃.find? ⟨1, 0, 2⟩).isSome :=
    ⟨_, _, _, _, _, rfl, rfl, rfl, rfl, rfl, rfl, rfl, rfl⟩
  obtain ⟨w, reached, hfalse, htrue⟩ : ∃ w : World (ι := Bool) (fun _ => Page) (fun _ => Nat)
      (fun _ => Nat), initial.Steps w ∧
      w.live false = some ⟨b₂, [(.admitFault 1 ⟨4096⟩ true, .admitted (.ok ⟨⟨1, 0, 1⟩, ⟨1, 0, 1⟩,
        false⟩)), (.cancelWaiter ⟨1, 0, 1⟩, .cancelled (.ok ⟨none, ⟨true, true⟩⟩))]⟩ ∧
      w.live true = some ⟨c, []⟩ :=
    ⟨_, (((Relation.ReflTransGen.single (.tryNew (i := false) rfl hb)).tail
      (.perform (update_self ..) h₁)).tail (.perform (update_self ..) h₂)).tail
      (.tryNew (i := true) rfl hc), rfl, rfl⟩
  have later := Relation.ReflTransGen.single (Step.perform hfalse h₃)
  have issued : w.IssuedRequest ⟨1, 0, 1⟩ := ⟨false, _, .inl hfalse, List.mem_singleton_self _⟩
  have stale : w.Stale ⟨1, 0, 1⟩ := by
    intro i x live
    cases i with
    | false =>
      obtain rfl := Option.some.inj (hfalse.symm.trans live)
      exact hstale
    | true =>
      obtain rfl := Option.some.inj (htrue.symm.trans live)
      exact hstale'
  obtain ⟨-, -, hrequest, -⟩ := tokens_unforgeable reached later
  exact ⟨w, _, reached, later, issued, stale, ⟨⟨b₃, _⟩, rfl, hfind⟩,
    hrequest _ issued stale⟩

end World

end KernelAx.Fault
