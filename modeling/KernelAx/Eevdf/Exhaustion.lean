import KernelAx.Eevdf.RequestRuns
import KernelAx.Eevdf.LagSum
import KernelAx.Eevdf.Scheduler
import Mathlib.Tactic.IntervalCases

/-!
# EEVDF — When service exhausts a request's arithmetic

The denominator of what is left of a request collects a factor from every quantum the request is
served under: it divides `one` times their least common multiple. As long as that product is a
machine word, service does not fail on account of the request; quanta that a fair runtime can
install at a period of one millisecond are enough to exceed it.

* `Tuned` — an entity under changes of its quantum and service, with the quanta of its request;
* `service_succeeds` — service succeeds while the common denominator fits;
* `service_exhausted` — a run after which one tick of service fails.
-/

namespace KernelAx.Eevdf

open ModelError Request Entity

/-- The quanta a scheduler can install: the default one of a class, or a fair runtime in periods. -/
inductive Installable : Nat → Prop
  | classDefault {cls : RequestClass} {weight totalWeight q : Nat}
      (h : requestQuantum cls weight totalWeight = .ok q) : Installable q
  | runtime {runtimeNs periodNs q : Nat} (hmin : fairRuntimeMinNs ≤ runtimeNs)
      (hmax : runtimeNs ≤ fairRuntimeMaxNs) (h : fairRuntimeQuantum runtimeNs periodNs = .ok q) :
      Installable q

variable {q v ticks fractionQ : Nat} {e : Entity} {quanta : List Nat} {r : Request}

theorem Installable.bounds (h : Installable q) : 0 < q ∧ q ≤ fairRuntimeMaxNs := by
  cases h with
  | @classDefault cls _ _ _ h =>
    obtain ⟨hpos, hle⟩ := requestQuantum_bounds h
    exact ⟨hpos, hle.trans (by cases cls <;> decide)⟩
  | @runtime runtimeNs periodNs _ hmin hmax h =>
    unfold fairRuntimeQuantum at h
    split at h
    · cases h
    cases h
    have hdiv : min (runtimeNs + (periodNs - 1)) maxU64 / periodNs ≤ runtimeNs := by
      apply Nat.div_le_of_le_mul
      refine (Nat.min_le_left _ _).trans ?_
      have hr : 0 < runtimeNs := lt_of_lt_of_le (by decide) hmin
      obtain ⟨p, rfl⟩ : ∃ p, periodNs = p + 1 := ⟨periodNs - 1, by omega⟩
      rw [Nat.add_mul, Nat.one_mul, Nat.add_sub_cancel, Nat.add_comm]
      exact Nat.add_le_add_right (Nat.le_mul_of_pos_right p hr) _
    have hmaxpos : 1 ≤ fairRuntimeMaxNs := by decide
    omega

/-- The least common multiple of the quanta of a request. -/
def quantaLcm (quanta : List Nat) : Nat := quanta.foldr Nat.lcm 1

/-- An entity as changes of its quantum, of its class and weight, and service under any clock leave
it, with the quanta its request has had. -/
inductive Tuned : Entity → List Nat → Prop
  | start {cls weight totalWeight v lag e} (h : withLag cls weight totalWeight v lag = .ok e) :
      Tuned e [e.request.q]
  | quantum {e e' quanta q} (run : Tuned e quanta)
      (hq : Installable q) (h : e.rebindRequestQuantum q = .ok e') : Tuned e' (q :: quanta)
  | reconfigure {e e' quanta cls weight totalWeight v} (run : Tuned e quanta)
      (h : e.reconfigure cls weight totalWeight v = .ok e') :
      Tuned e' (e'.request.q :: quanta)
  | service {e e' quanta c c' ticks fractionQ} (run : Tuned e quanta)
      (h : e.service c ticks fractionQ = .ok (e', c')) : Tuned e' quanta

/-! ### The common denominator -/

namespace Request

theorem Exact.relabel {r : Request} (hr : r.Exact) (cls : RequestClass)
    (virtualLength start deadline : Int) :
    { r with cls, virtualLength, start, deadline }.Exact where
  eq := by
    simp only [Request.withFraction, Request.mk.injEq, true_and, and_true]
    exact ⟨hr.ticks_eq, hr.work_eq, hr.num_eq, hr.den_eq⟩
  __ := hr

/-- The denominator after service divides that before it, joined with the quantum in fixed point. -/
theorem Exact.served_den_dvd {r : Request} (hr : r.Exact) {amount : Nat}
    (hmul : amount % nice0 = 0) :
    (r.served amount).den ∣ Nat.lcm r.remainingFractionDen (r.q * one) := by
  unfold served
  rcases le_total (r.fraction - amount / (r.q * work)) 0 with h | h
  · rw [max_eq_left h]
    exact one_dvd _
  · rw [max_eq_right h, amount_ratio hmul, ← hr.den_eq]
    have hdvd := Rat.den_dvd (amount / nice0 : Nat) (r.q * one : Nat)
    rw [Rat.divInt_eq_div, Int.cast_natCast, Int.cast_natCast] at hdvd
    have hdvd' := Int.natCast_dvd_natCast.1 hdvd
    exact (Rat.sub_den_dvd_lcm _ _).trans
      (Nat.lcm_dvd (Nat.dvd_lcm_left _ _) (hdvd'.trans (Nat.dvd_lcm_right _ _)))

end Request

namespace Entity

theorem reconfiguredRequest_ok {e : Entity} {cls : RequestClass} {q weight : Nat}
    {anchor lag : Int} {r : Request} (hr : e.request.Exact) (hq : q ≤ maxU128)
    (h : e.reconfiguredRequest cls q weight anchor lag = .ok r) :
    r.Exact ∧ r.q = q ∧ r.remainingFractionDen = e.request.remainingFractionDen := by
  obtain ⟨-, -, h⟩ := bind_eq_ok.mp h
  obtain ⟨r₁, h₁, h⟩ := bind_eq_ok.mp h
  obtain ⟨full, -, h⟩ := bind_eq_ok.mp h
  obtain ⟨rest, -, h⟩ := bind_eq_ok.mp h
  obtain ⟨start, -, h⟩ := bind_eq_ok.mp h
  obtain ⟨deadline, -, h⟩ := bind_eq_ok.mp h
  cases h
  have hcls := hr.relabel cls e.request.virtualLength e.request.start e.request.deadline
  have hr₁ := hcls.afterQuantum hq h₁
  obtain ⟨-, -, rfl⟩ := hcls.setQuantum_ok hq h₁
  exact ⟨hr₁.relabel _ _ _ _, rfl, hcls.den_eq⟩

theorem service_request {e e' : Entity} {c c' : Clock} {ticks fractionQ : Nat}
    (h : e.service c ticks fractionQ = .ok (e', c')) :
    e'.weight = e.weight ∧ e'.sleeperV = e.sleeperV ∧
      (e'.request = e.request ∨
        ∃ amount ≤ maxU128, e.request.consumeWorkUpTo amount = .ok e'.request) := by
  unfold service at h
  split at h
  · cases h
  split at h
  · cases h
    exact ⟨rfl, rfl, .inl rfl⟩
  split at h
  · cases h
  split at h
  · cases h
  obtain ⟨whole, -, h⟩ := bind_eq_ok.mp h
  obtain ⟨fraction, -, h⟩ := bind_eq_ok.mp h
  obtain ⟨amount, hamount, h⟩ := bind_eq_ok.mp h
  obtain ⟨next, -, h⟩ := bind_eq_ok.mp h
  obtain ⟨lag, -, h⟩ := bind_eq_ok.mp h
  obtain ⟨charge, -, h⟩ := bind_eq_ok.mp h
  obtain ⟨nextLag, -, h⟩ := bind_eq_ok.mp h
  obtain ⟨request, hrequest, h⟩ := bind_eq_ok.mp h
  cases h
  obtain ⟨rfl, hle⟩ := inU128_ok hamount
  exact ⟨rfl, rfl, .inr ⟨_, hle, hrequest⟩⟩

end Entity

structure Tractable (e : Entity) (quanta : List Nat) : Prop where
  awake : e.sleeperV = none
  weight : 0 < e.weight
  exact : e.request.Exact
  small : e.request.q ≤ fairRuntimeMaxNs
  pos : 0 < quantaLcm quanta
  quantum : e.request.q ∣ quantaLcm quanta
  den : e.request.remainingFractionDen ∣ one * quantaLcm quanta

theorem Tractable.rebound (h : Tractable e quanta) {cls : RequestClass} {weight : Nat}
    {anchor lag : Int} (hq : q ≤ fairRuntimeMaxNs)
    (hr : e.reconfiguredRequest cls q weight anchor lag = .ok r) :
    r.Exact ∧ r.q = q ∧ r.q ≤ fairRuntimeMaxNs ∧ 0 < quantaLcm (q :: quanta) ∧
      r.q ∣ quantaLcm (q :: quanta) ∧ r.remainingFractionDen ∣ one * quantaLcm (q :: quanta) := by
  obtain ⟨hex, hrq, hden⟩ := reconfiguredRequest_ok h.exact (hq.trans (by decide)) hr
  refine ⟨hex, hrq, hrq.le.trans hq, Nat.lcm_pos (hrq ▸ hex.q_pos) h.pos, ?_, ?_⟩
  · rw [hrq]
    exact Nat.dvd_lcm_left _ _
  · rw [hden]
    exact h.den.trans (Nat.mul_dvd_mul_left one (Nat.dvd_lcm_right _ _))

theorem Tuned.tractable (run : Tuned e quanta) : Tractable e quanta := by
  induction run with
  | @start cls weight totalWeight v lag e h =>
    obtain ⟨r, hr, h⟩ := bind_eq_ok.mp h
    cases h
    obtain ⟨hex, hfrac, hq⟩ := exact_new hr
    have hweight : 0 < weight := by
      refine Nat.pos_of_ne_zero ?_
      rintro rfl
      rw [requestQuantum, if_pos (.inl rfl)] at hq
      cases hq
    have hden := hex.den_eq
    rw [hfrac] at hden
    refine ⟨rfl, hweight, hex, (Installable.classDefault hq).bounds.2,
      Nat.lcm_pos hex.q_pos Nat.one_pos, Nat.dvd_lcm_left _ _, ?_⟩
    show r.remainingFractionDen ∣ _
    rw [← hden]
    exact one_dvd _
  | @quantum e e' quanta q run hq h ih =>
    unfold Entity.rebindRequestQuantum at h
    split at h
    · cases h
    obtain ⟨r, hr, h⟩ := bind_eq_ok.mp h
    cases h
    obtain ⟨hex, -, hrest⟩ := ih.rebound hq.bounds.2 hr
    exact ⟨ih.awake, ih.weight, hex, hrest.1, hrest.2.1, hrest.2.2.1, hrest.2.2.2⟩
  | @reconfigure e e' quanta cls weight totalWeight v run h ih =>
    unfold Entity.reconfigure at h
    split at h
    · cases h
    split at h
    · cases h
    obtain ⟨lag, -, h⟩ := bind_eq_ok.mp h
    obtain ⟨q, hq, h⟩ := bind_eq_ok.mp h
    obtain ⟨r, hr, h⟩ := bind_eq_ok.mp h
    cases h
    have hle := (Installable.classDefault hq).bounds.2
    obtain ⟨hex, rfl, hsmall, hpos, hquantum, hden⟩ := ih.rebound hle hr
    exact ⟨ih.awake, Nat.pos_of_ne_zero ‹_›, hex, hsmall, hpos, hquantum, hden⟩
  | @service e e' quanta c c' ticks fractionQ run h ih =>
    obtain ⟨hweight, hawake, hreq | ⟨amount, hle, hreq⟩⟩ := Entity.service_request h
    · exact
        { awake := hawake.trans ih.awake
          weight := hweight ▸ ih.weight
          exact := hreq ▸ ih.exact
          small := hreq ▸ ih.small
          pos := ih.pos
          quantum := hreq ▸ ih.quantum
          den := hreq ▸ ih.den }
    · have hex := ih.exact.afterService hle hreq
      obtain ⟨hmul, -, -, -, heq⟩ := ih.exact.nextAfterService_ok hle hreq
      have hden : e'.request.remainingFractionDen = (e.request.served amount).den := by
        rw [heq]
        rfl
      have hq : e'.request.q = e.request.q := by rw [heq]; rfl
      refine ⟨hawake.trans ih.awake, hweight ▸ ih.weight, hex, hq ▸ ih.small, ih.pos,
        hq ▸ ih.quantum,
        ?_⟩
      rw [hden]
      refine (ih.exact.served_den_dvd hmul).trans (Nat.lcm_dvd ih.den ?_)
      rw [Nat.mul_comm]
      exact Nat.mul_dvd_mul_left one ih.quantum

/-! ### Service while the denominator fits -/

/-- The work of a service, in fixed point at nice zero. -/
def serviceWork (ticks fractionQ : Nat) : Nat := ticks * work + fractionQ * nice0

/-- The clock and the lag are far enough from their limits for the service. -/
def Entity.HasRoom (e : Entity) (c : Clock) (ticks fractionQ : Nat) : Prop :=
  (serviceWork ticks fractionQ : Int) ≤ maxI128 ∧
    ∃ next lag, c.previewWorkWithTicks (serviceWork ticks fractionQ) ticks = .ok next ∧
      checkedLagAt e.lag e.lagStamp e.weight next.v = .ok lag ∧
      InI128 (lag - serviceWork ticks fractionQ)

theorem serviceWork_mod (ticks fractionQ : Nat) : serviceWork ticks fractionQ % nice0 = 0 := by
  unfold serviceWork work
  rw [Nat.mul_left_comm, Nat.mul_comm fractionQ, ← Nat.mul_add]
  exact Nat.mul_mod_right _ _

theorem le_maxU128_of_le_maxI128 {n : Nat} (h : (n : Int) ≤ maxI128) : n ≤ maxU128 := by
  simp only [maxI128] at h
  simp only [maxU128]
  omega

/-- With room in the clock and the lag, service is what it does to the request. -/
theorem Entity.service_eq {c : Clock} {next : ClockAdvance} {lag : Int}
    (hawake : e.sleeperV = none) (hweight : 0 < e.weight) (hfrac : fractionQ < one)
    (h0 : ¬ (ticks = 0 ∧ fractionQ = 0)) (hmax : (serviceWork ticks fractionQ : Int) ≤ maxI128)
    (hnext : c.previewWorkWithTicks (serviceWork ticks fractionQ) ticks = .ok next)
    (hlag : checkedLagAt e.lag e.lagStamp e.weight next.v = .ok lag)
    (hrange : InI128 (lag - serviceWork ticks fractionQ)) :
    e.service c ticks fractionQ = (do
      let request ← e.request.consumeWorkUpTo (serviceWork ticks fractionQ)
      .ok ({ e with
          lag := lag - serviceWork ticks fractionQ, lagStamp := next.v, request := request },
        { c with
          v := next.v, remainder := next.remainder, accountedTicks := next.accountedTicks })) := by
  have hle := le_maxU128_of_le_maxI128 hmax
  have hsplit : serviceWork ticks fractionQ = ticks * work + fractionQ * nice0 := rfl
  have hwhole : checkedWork ticks = .ok ((ticks * work : Nat) : Int) := by
    rw [checkedWork, inU128_of (by omega), ok_bind, checkedI128_of (by omega)]
  unfold service
  rw [if_neg (by omega), if_neg h0, if_neg hweight.ne', if_neg (by simp [hawake]), hwhole, ok_bind,
    Int.toNat_natCast, inU128_of (by omega), ok_bind, ← hsplit, inU128_of hle, ok_bind, hnext,
    ok_bind, hlag, ok_bind, checkedI128_of hmax, ok_bind, inI128_of hrange, ok_bind]

/-- **Service succeeds** as long as the common denominator of the request's quanta is a machine word
and the clock and the lag have room. -/
theorem service_succeeds {e : Entity} {quanta : List Nat} (run : Tuned e quanta)
    (hlcm : one * quantaLcm quanta ≤ maxU128) {c : Clock} {ticks fractionQ : Nat}
    (hfrac : fractionQ < one) (room : e.HasRoom c ticks fractionQ) :
    ∃ e' c', e.service c ticks fractionQ = .ok (e', c') := by
  have ht := run.tractable
  by_cases h0 : ticks = 0 ∧ fractionQ = 0
  · refine ⟨e, c, ?_⟩
    rw [service, if_neg (by omega), if_pos h0]
  obtain ⟨hmax, next, lag, hnext, hlag, hrange⟩ := room
  have hmul := serviceWork_mod ticks fractionQ
  have hle := le_maxU128_of_le_maxI128 hmax
  have hq : e.request.q * one ≤ maxU128 :=
    (Nat.mul_le_mul_right one ht.small).trans (by decide)
  have hlcmpos : 0 < one * quantaLcm quanta := Nat.mul_pos (by decide) ht.pos
  have hden : (e.request.served (serviceWork ticks fractionQ)).den ≤ maxU128 := by
    refine (Nat.le_of_dvd hlcmpos ?_).trans hlcm
    refine (ht.exact.served_den_dvd hmul).trans (Nat.lcm_dvd ht.den ?_)
    rw [Nat.mul_comm]
    exact Nat.mul_dvd_mul_left one ht.quantum
  have hserve : e.request.consumeWorkUpTo (serviceWork ticks fractionQ)
      = .ok (e.request.withFraction (e.request.served (serviceWork ticks fractionQ))) := by
    rw [consumeWorkUpTo, ht.exact.nextAfterService_eq hle hmul hq, if_neg (by simp),
      if_pos hden]
  rw [service_eq ht.awake ht.weight hfrac h0 hmax hnext hlag hrange, hserve, ok_bind]
  exact ⟨_, _, rfl⟩

/-! ### Quanta that exhaust it -/

def alone (v : Nat) (r : Request) : Entity := ⟨.normal, nice0, 0, v, r, none⟩

def aloneClock (v : Nat) : Clock := ⟨v, 0, nice0, 0⟩

theorem serviceWork_eq (ticks fractionQ : Nat) :
    serviceWork ticks fractionQ = nice0 * (ticks * one + fractionQ) := by
  rw [serviceWork, work, Nat.mul_left_comm, Nat.mul_comm fractionQ, ← Nat.mul_add]

theorem aloneClock_live (hv : v < 2 ^ 64) : (aloneClock v).Live where
  v := by simp only [aloneClock, InI128, minI128, maxI128]; omega
  remainder := by simp [aloneClock]
  totalWeight := by simp only [aloneClock]; decide
  accountedTicks := by simp [aloneClock]
  pos := by simp only [aloneClock]; decide
  lt := by simp only [aloneClock]; decide

theorem aloneClock_preview (hv : v < 2 ^ 64) (ht : ticks < 2 ^ 32) (hf : fractionQ < one) :
    (aloneClock v).previewWorkWithTicks (serviceWork ticks fractionQ) ticks
      = .ok ⟨(v : Int) + (ticks * one + fractionQ : Nat), 0, ticks,
        (ticks * one + fractionQ : Nat)⟩ := by
  have hsmall : ticks * one + fractionQ < 2 ^ 65 := by
    simp only [one] at hf ⊢
    omega
  have hnice : nice0 = 1024 := rfl
  have hdiv : ((aloneClock v).remainder + serviceWork ticks fractionQ) / (aloneClock v).totalWeight
      = ticks * one + fractionQ := by
    show (0 + serviceWork ticks fractionQ) / nice0 = _
    rw [serviceWork_eq, Nat.zero_add, Nat.mul_div_cancel_left _ (by decide)]
  have hmod : ((aloneClock v).remainder + serviceWork ticks fractionQ) % (aloneClock v).totalWeight
      = 0 := by
    show (0 + serviceWork ticks fractionQ) % nice0 = 0
    rw [Nat.zero_add, serviceWork_mod]
  have hle : serviceWork ticks fractionQ ≤ maxU128 := by
    rw [serviceWork_eq, hnice]
    simp only [maxU128]
    omega
  have hfits : (aloneClock v).AdvanceFits (serviceWork ticks fractionQ) ticks := by
    unfold Clock.AdvanceFits
    rw [hdiv]
    simp only [aloneClock, InI128, minI128, maxI128, maxU128]
    omega
  rw [Clock.previewWorkWithTicks_eq (aloneClock_live hv) hle, if_pos hfits, Clock.advanced, hdiv,
    hmod]
  simp [aloneClock]

theorem alone_lagAt {u : Nat} (hu : u < 2 ^ 65) :
    checkedLagAt 0 v nice0 ((v : Int) + u) = .ok ((nice0 * u : Nat) : Int) := by
  show checkedLagAt 0 v 1024 ((v : Int) + u) = .ok ((1024 * u : Nat) : Int)
  unfold checkedLagAt
  rw [if_neg (by decide), add_sub_cancel_left,
    inI128_of (by simp only [InI128, minI128, maxI128]; omega), ok_bind, checkedMulI128U128_eq,
    inI128_of (by simp only [InI128, minI128, maxI128]; omega), ok_bind,
    inI128_of (by simp only [InI128, minI128, maxI128]; omega)]
  push_cast
  rw [zero_add, mul_comm]

theorem alone_service (ticks fractionQ : Nat) (hv : v < 2 ^ 64) (ht : ticks < 2 ^ 32)
    (hf : fractionQ < one) (h0 : ¬ (ticks = 0 ∧ fractionQ = 0)) :
    (alone v r).service (aloneClock v) ticks fractionQ = (do
      let request ← r.consumeWorkUpTo (serviceWork ticks fractionQ)
      .ok (alone (v + (ticks * one + fractionQ)) request,
        { aloneClock (v + (ticks * one + fractionQ)) with accountedTicks := ticks })) := by
  have hsmall : ticks * one + fractionQ < 2 ^ 65 := by
    simp only [one] at hf ⊢
    omega
  have hlag := alone_lagAt (v := v) hsmall
  have hnice : nice0 = 1024 := rfl
  rw [← serviceWork_eq] at hlag
  rw [service_eq rfl (show 0 < nice0 by decide) hf h0 ?_ (aloneClock_preview hv ht hf) hlag ?_]
  · simp [alone, aloneClock]
  · rw [serviceWork_eq, hnice]
    simp only [maxI128]
    omega
  · rw [sub_self]
    decide

theorem checkedI128_of_small {n : Nat} (h : n ≤ 2 ^ 70) :
    (do checkedI128 (← inU128 n) : Except ModelError Int) = .ok (n : Int) := by
  rw [inU128_of (by simp only [maxU128]; omega), ok_bind,
    checkedI128_of (by simp only [maxI128]; omega)]

theorem ceil_le_of_le_whole (hq : q ≤ fairRuntimeMaxNs) {x : ℚ} (hx : x ≤ q * work) :
    ⌈x⌉₊ ≤ 2 ^ 70 := by
  have hmax : fairRuntimeMaxNs = 100000000 := rfl
  have hwork : work = 4398046511104 := by decide
  have hbound : q * work ≤ 2 ^ 70 := by
    rw [hwork]
    omega
  refine le_trans (Nat.ceil_le.2 ?_) hbound
  exact_mod_cast hx

/-- The quantum of an entity alone on its clock can be any installable one. -/
theorem alone_rebind (hr : r.Exact) (hv : v < 2 ^ 64) (hpos : 0 < q) (hq : q ≤ fairRuntimeMaxNs) :
    ∃ r', (alone v r).rebindRequestQuantum q = .ok (alone v r') ∧ r'.Exact ∧ r'.q = q ∧
      r'.fraction = r.fraction := by
  have hqle : q ≤ maxU128 := hq.trans (by decide)
  have hq85 : q < 2 ^ 85 := lt_of_le_of_lt hq (by decide)
  have hnice : (1 : ℚ) ≤ (nice0 : Nat) := by norm_num [nice0]
  have hqwork : (0 : ℚ) ≤ q * work := by positivity
  have hpart : r.fraction * q * work ≤ q * work := by
    rw [mul_assoc]
    exact mul_le_of_le_one_left hqwork hr.le_one
  have hpart0 : 0 ≤ r.fraction * q * work := by
    have := r.fraction_nonneg
    positivity
  have hcls := hr.relabel .normal r.virtualLength r.start r.deadline
  have hfrac : ({ r with cls := .normal } : Request).fraction = r.fraction := rfl
  generalize hr₀ : ({ r with cls := .normal } : Request) = r₀ at hcls hfrac
  obtain ⟨r₁, hset⟩ : ∃ r₁, r₀.setQuantum q = .ok r₁ := by
    rw [hcls.setQuantum_eq hpos hqle, hfrac,
      inU128_of ((ceil_le_of_le_whole hq hpart).trans (by decide))]
    exact ⟨_, rfl⟩
  have hex := hcls.afterQuantum hqle hset
  have hfrac₁ : r₁.fraction = r.fraction ∧ r₁.q = q := by
    obtain ⟨-, -, rfl⟩ := hcls.setQuantum_ok hqle hset
    exact ⟨(fraction_withFraction _ r₀.fraction_nonneg).trans hfrac, rfl⟩
  have hfull : checkedVirtualLength q nice0 = .ok (⌈((q * work : Nat) : ℚ) / nice0⌉₊ : Int) := by
    rw [checkedVirtualLength, if_neg (by decide), checkedMulDivCeil_eq hqle (by decide) (by decide)
      (by decide)]
    refine checkedI128_of_small (ceil_le_of_le_whole hq ?_)
    push_cast
    exact div_le_self hqwork hnice
  have hlen : ⌈r.fraction * q * work / nice0⌉₊ ≤ 2 ^ 70 :=
    ceil_le_of_le_whole hq ((div_le_self hpart0 hnice).trans hpart)
  have hrest : r₁.remainingVirtualLength nice0 = .ok (⌈r.fraction * q * work / nice0⌉₊ : Int) := by
    rw [hex.remainingVirtualLength_eq (by decide) (by decide) (hfrac₁.2 ▸ hq85), hfrac₁.1, hfrac₁.2]
    exact checkedI128_of_small hlen
  have hstart : requestStart v 0 nice0 = .ok (v : Int) := by
    rw [requestStart, signedCeilNegDiv, if_neg (by decide), if_pos le_rfl, ok_bind]
    simp only [Int.natAbs_zero, Nat.zero_div, Nat.cast_zero, neg_zero, add_zero]
    exact inI128_of (by simp only [InI128, minI128, maxI128]; omega)
  have hdeadline : checkedDeadline v (⌈r.fraction * q * work / nice0⌉₊ : Int)
      = .ok ((v : Int) + ⌈r.fraction * q * work / nice0⌉₊) :=
    inI128_of (by simp only [InI128, minI128, maxI128]; omega)
  refine ⟨_, ?_, hex.relabel r₁.cls ⌈((q * work : Nat) : ℚ) / nice0⌉₊ v
    ((v : Int) + ⌈r.fraction * q * work / nice0⌉₊), hfrac₁.2, hfrac₁.1⟩
  unfold rebindRequestQuantum reconfiguredRequest
  rw [if_neg hpos.ne']
  simp only [alone, Option.getD_none]
  rw [hr.exactValid, ok_bind, hr₀, hset, ok_bind, hfull, ok_bind, hrest, ok_bind, hstart, ok_bind,
    hdeadline, ok_bind, ok_bind]

/-- What is left after one unit of service under each of the quanta. -/
def leftAfter (f : ℚ) : List Nat → ℚ
  | [] => f
  | q :: qs => leftAfter (max 0 (f - serviceWork 0 1 / (q * work))) qs

/-- The denominators on the way are machine words. -/
def FitsAlong (f : ℚ) : List Nat → Prop
  | [] => True
  | q :: qs =>
    (max 0 (f - serviceWork 0 1 / (q * work)) : ℚ).den ≤ maxU128 ∧
      FitsAlong (max 0 (f - serviceWork 0 1 / (q * work))) qs

instance decidableFitsAlong : (f : ℚ) → (qs : List Nat) → Decidable (FitsAlong f qs)
  | _, [] => .isTrue trivial
  | _, _ :: qs => @instDecidableAnd _ _ _ (decidableFitsAlong _ qs)

/-- A unit of service under each of a list of quanta; the induction is on the list. -/
theorem alone_run {qs : List Nat} (run : Tuned (alone v r) quanta) (hr : r.Exact)
    (hv : v + qs.length < 2 ^ 64) (hqs : ∀ q ∈ qs, Installable q)
    (hfits : FitsAlong r.fraction qs) :
    ∃ r', Tuned (alone (v + qs.length) r') (qs.reverse ++ quanta) ∧ r'.Exact ∧
      r'.fraction = leftAfter r.fraction qs := by
  induction qs generalizing v r quanta with
  | nil => exact ⟨r, run, hr, rfl⟩
  | cons q qs ih =>
    obtain ⟨hq, hqs⟩ := List.forall_mem_cons.1 hqs
    rw [List.length_cons] at hv
    obtain ⟨r₁, hrebind, hr₁, hrq, hfrac⟩ := alone_rebind (v := v) hr (by omega) hq.bounds.1
      hq.bounds.2
    obtain ⟨hden, hrest⟩ := hfits
    have hserved : r₁.served (serviceWork 0 1) =
        max 0 (r.fraction - serviceWork 0 1 / (q * work)) := by
      rw [served, hfrac, hrq]
    have hserve : r₁.consumeWorkUpTo (serviceWork 0 1)
        = .ok (r₁.withFraction (r₁.served (serviceWork 0 1))) := by
      have hone : r₁.q * one ≤ maxU128 := by
        rw [hrq]
        exact (Nat.mul_le_mul_right one hq.bounds.2).trans (by decide)
      rw [consumeWorkUpTo, hr₁.nextAfterService_eq (by decide) (by decide) hone,
        if_neg (by simp), if_pos (by rw [hserved]; exact hden)]
    have hcall := alone_service (v := v) 0 1 (r := r₁) (by omega)
      (by decide) (by decide) (by decide)
    rw [hserve, ok_bind] at hcall
    have hr₂ := hr₁.afterService (by decide) hserve
    have hfrac₂ : (r₁.withFraction (r₁.served (serviceWork 0 1))).fraction
        = max 0 (r.fraction - serviceWork 0 1 / (q * work)) := by
      rw [fraction_withFraction _ (r₁.served_nonneg _), hserved]
    obtain ⟨r', hrun', hr', hfrac'⟩ := ih ((run.quantum hq hrebind).service hcall) hr₂
      (by omega) hqs
      (by rw [hfrac₂]; exact hrest)
    refine ⟨r', ?_, hr', by rw [hfrac', hfrac₂]; rfl⟩
    rw [List.length_cons, List.reverse_cons, List.append_assoc, List.singleton_append]
    have hlen : v + (0 * one + 1) + qs.length = v + (qs.length + 1) := by omega
    rwa [hlen] at hrun'

/-- Sixteen quanta of fair runtimes between 41 and 99 milliseconds, at a period of one. -/
def runtimeQuanta : List Nat :=
  [97, 89, 83, 79, 73, 71, 67, 61, 59, 53, 47, 43, 95, 91, 99, 41]

theorem installable_millis (hpos : 1 ≤ q) (hq : q ≤ 100) : Installable q := by
  refine @Installable.runtime (q * 1000000) 1000000 q ?_ ?_ ?_
  · simp only [fairRuntimeMinNs]
    omega
  · simp only [fairRuntimeMaxNs]
    omega
  · rw [fairRuntimeQuantum, if_neg (by decide)]
    congr 1
    simp only [maxU64]
    omega

theorem alone_hasRoom (hv : v < 2 ^ 64) (ht : ticks < 2 ^ 32) (hf : fractionQ < one) :
    (alone v r).HasRoom (aloneClock v) ticks fractionQ := by
  have hsmall : ticks * one + fractionQ < 2 ^ 65 := by
    simp only [one] at hf ⊢
    omega
  have hlag := alone_lagAt (v := v) hsmall
  rw [← serviceWork_eq] at hlag
  refine ⟨?_, _, _, aloneClock_preview hv ht hf, hlag, ?_⟩
  · have hnice : nice0 = 1024 := rfl
    rw [serviceWork_eq, hnice]
    simp only [maxI128]
    omega
  · rw [sub_self]
    decide

/-- The first request of an entity alone on its clock. -/
def aloneRequest : Request := ⟨.normal, 8, 8, 8 * work, 1, 1, 8 * one, 0, 8 * one⟩

theorem aloneRequest_new : new .normal nice0 nice0 0 0 = .ok aloneRequest := by
  decide +kernel

theorem alone_start : Tuned (alone 0 aloneRequest) [8] := by
  refine @Tuned.start .normal nice0 nice0 0 0 (alone 0 aloneRequest) ?_
  rw [withLag, aloneRequest_new, ok_bind]
  rfl

theorem installable_of_millis {qs : List Nat} (h : ∀ q ∈ qs, 1 ≤ q ∧ q ≤ 100) :
    ∀ q ∈ qs, Installable q :=
  fun q hq => installable_millis (h q hq).1 (h q hq).2

/-- A request served under the quanta 8, 20, 12, 30 and 7 is served for another tick. -/
theorem service_succeeds_alone :
    ∃ r, Tuned (alone 4 r) [7, 30, 12, 20, 8] ∧ r.fraction = leftAfter 1 [20, 12, 30, 7] ∧
      ∃ e' c', (alone 4 r).service (aloneClock 4) 1 0 = .ok (e', c') := by
  obtain ⟨hr₀, hfrac₀, -⟩ := exact_new aloneRequest_new
  have hinstall : ∀ q ∈ [20, 12, 30, 7], Installable q := installable_of_millis (by decide)
  have hfits : FitsAlong 1 [20, 12, 30, 7] := by decide +kernel
  obtain ⟨r, hrun, -, hfrac⟩ := alone_run alone_start hr₀ (by decide) hinstall
    (by rw [hfrac₀]; exact hfits)
  refine ⟨r, hrun, by rw [hfrac, hfrac₀], ?_⟩
  exact service_succeeds hrun (by decide) (by decide)
    (alone_hasRoom (by decide) (by decide) (by decide))

/-- **Request arithmetic can be exhausted.**  After sixteen changes of the fair runtime, each
followed by the smallest unit of service, and a seventeenth to 37 milliseconds, one tick fails, with
the clock and the lag far from their limits. -/
theorem service_exhausted :
    ∃ e quanta c, Tuned e quanta ∧ e.HasRoom c 1 0 ∧
      e.service c 1 0 = .error arithmeticExhausted := by
  obtain ⟨hr₀, hfrac₀, -⟩ := exact_new aloneRequest_new
  have hinstall : ∀ q ∈ runtimeQuanta, Installable q := installable_of_millis (by decide)
  have hfits : FitsAlong 1 runtimeQuanta := by decide +kernel
  obtain ⟨r, hrun, hr, hfrac⟩ := alone_run alone_start hr₀ (by decide) hinstall
    (by rw [hfrac₀]; exact hfits)
  rw [hfrac₀] at hfrac
  have hq : Installable 37 := installable_millis (by decide) (by decide)
  obtain ⟨r', hrebind, hr', hrq, hfrac'⟩ := alone_rebind
    (v := 0 + runtimeQuanta.length) hr (by decide) hq.bounds.1 hq.bounds.2
  have hden : ¬ (max 0 (leftAfter 1 runtimeQuanta - serviceWork 1 0 / (37 * work)) : ℚ).den
      ≤ maxU128 := by
    decide +kernel
  refine ⟨_, _, aloneClock (0 + runtimeQuanta.length), hrun.quantum hq hrebind,
    alone_hasRoom (by decide) (by decide) (by decide), ?_⟩
  rw [alone_service 1 0 (by decide) (by decide) (by decide) (by decide), consumeWorkUpTo,
    hr'.nextAfterService_eq (by decide) (by decide) (by rw [hrq]; decide), if_neg (by simp),
    if_neg, error_bind]
  rw [served, hfrac', hfrac, hrq]
  exact hden

end KernelAx.Eevdf
