import KernelAx.Eevdf.RequestExact

/-!
# EEVDF — Runs of requests

Requests as the operations lead to them: from `Request.new`, by service in any of its three forms
and by changes of the quantum. All of them are exact, so what an operation does to a request is what
it does to the rational number the request stores.
-/

namespace KernelAx.Eevdf

open Transaction Op ModelError

theorem requestQuantum_bounds {cls : RequestClass} {weight totalWeight q : Nat}
    (h : requestQuantum cls weight totalWeight = .ok q) : 0 < q ∧ q ≤ cls.targetTicks := by
  have htarget : 0 < cls.targetTicks := by cases cls <;> decide
  unfold requestQuantum at h
  split at h
  · cases h
  split at h
  · cases h
    exact ⟨htarget, le_rfl⟩
  · obtain ⟨k, -, h⟩ := bind_eq_ok.mp h
    cases h
    omega

theorem checkedWork_ok {ticks : Nat} {w : Int} (h : checkedWork ticks = .ok w) :
    w.toNat = ticks * work ∧ ticks * work ≤ maxU128 := by
  obtain ⟨n, hn, hw⟩ := bind_eq_ok.mp h
  obtain ⟨rfl, hle⟩ := inU128_ok hn
  obtain ⟨rfl, -⟩ := checkedI128_ok hw
  exact ⟨Int.toNat_natCast _, hle⟩

namespace Request

variable {r : Request}

theorem exact_new {cls : RequestClass} {weight totalWeight : Nat} {v lag : Int}
    (h : Request.new cls weight totalWeight v lag = .ok r) :
    r.Exact ∧ r.fraction = 1 ∧ requestQuantum cls weight totalWeight = .ok r.q := by
  obtain ⟨q, hq, h⟩ := bind_eq_ok.mp h
  obtain ⟨length, -, h⟩ := bind_eq_ok.mp h
  obtain ⟨start, -, h⟩ := bind_eq_ok.mp h
  obtain ⟨deadline, -, h⟩ := bind_eq_ok.mp h
  obtain ⟨hpos, hle⟩ := requestQuantum_bounds hq
  have hqle : q ≤ maxU128 := hle.trans (by cases cls <;> decide)
  rw [setFraction_eq hpos hqle Nat.one_pos le_rfl (by decide), Nat.cast_one, div_one] at h
  by_cases hfit : ⌈(1 : ℚ) * q * work⌉₊ ≤ maxU128
  · rw [inU128_of hfit] at h
    cases h
    have hfrac := fun r : Request => r.fraction_withFraction (f := 1) zero_le_one
    refine ⟨⟨?_, ?_, ?_, hpos, hqle, hfit⟩, hfrac _, hq⟩
    · rw [hfrac]
      rfl
    · rw [hfrac]
    · show (1 : ℚ).den ≤ maxU128
      decide
  · rw [inU128_neg hfit] at h
    cases h

theorem consume_ok {r' : Request} {ticks : Nat} (h : r.consume ticks = .ok r') :
    ticks ≤ r.remainingTicks ∧ ticks * work ≤ maxU128 ∧
      r.consumeWorkUpTo (ticks * work) = .ok r' := by
  unfold consume at h
  split at h
  · cases h
  obtain ⟨w, hw, h⟩ := bind_eq_ok.mp h
  obtain ⟨hval, hle⟩ := checkedWork_ok hw
  rw [hval] at h
  exact ⟨not_lt.1 ‹_›, hle, h⟩

/-- A request as a run of successful operations leaves it. -/
inductive Reached : Request → Prop
  | new {cls weight totalWeight v lag r} (h : Request.new cls weight totalWeight v lag = .ok r) :
      Reached r
  | consume {r r' ticks} (hr : Reached r) (h : r.consume ticks = .ok r') :
      Reached r'
  | consumeWork {r r' amount} (hr : Reached r) (ha : amount ≤ maxU128)
      (h : r.consumeWork amount = .ok r') : Reached r'
  | consumeWorkUpTo {r r' amount} (hr : Reached r) (ha : amount ≤ maxU128)
      (h : r.consumeWorkUpTo amount = .ok r') : Reached r'
  | setQuantum {r r' q} (hr : Reached r) (hq : q ≤ maxU128)
      (h : r.setQuantum q = .ok r') : Reached r'

theorem Reached.exact (hr : r.Reached) : r.Exact := by
  induction hr with
  | new h => exact (exact_new h).1
  | consume _ h ih =>
    obtain ⟨-, hle, h⟩ := consume_ok h
    exact ih.afterService hle h
  | consumeWork _ ha h ih | consumeWorkUpTo _ ha h ih => exact ih.afterService ha h
  | setQuantum _ hq h ih => exact ih.afterQuantum hq h

/-! ### The request as a place -/

def consumeWorkUpToInPlace (amount : Nat) : Op ModelError Request Unit := do
  let r ← Op.read id
  let next ← lift (r.nextAfterService amount true)
  Op.modify fun _ => next

def consumeWorkInPlace (amount : Nat) : Op ModelError Request Unit := do
  let r ← Op.read id
  let next ← lift (r.nextAfterService amount false)
  Op.modify fun _ => next

def consumeInPlace (ticks : Nat) : Op ModelError Request Unit := do
  let r ← Op.read id
  if r.remainingTicks < ticks then fail invalidState
  else do
    let amount ← lift (checkedWork ticks)
    consumeWorkUpToInPlace amount.toNat

/-- `set_quantum` with its three writes. -/
def setQuantumInPlace (q : Nat) : Op ModelError Request Unit :=
  if q = 0 then fail invalidState
  else do
    let r ← Op.read id
    let (remainingWork, remainingTicks) ←
      lift (projection q r.remainingFractionNum r.remainingFractionDen)
    Op.modify fun r => { r with q := q }
    Op.modify fun r => { r with remainingWork := remainingWork }
    Op.modify fun r => { r with remainingTicks := remainingTicks }

theorem consumeWorkUpToInPlace_eq (amount : Nat) :
    consumeWorkUpToInPlace amount = staged (consumeWorkUpTo · amount) := by
  funext r
  unfold consumeWorkUpToInPlace consumeWorkUpTo staged
  cases h : r.nextAfterService amount true <;>
    simp [Op.read, Op.lift, Op.fail, Op.modify, bind, Op.bind, pure, h]

theorem consumeWorkInPlace_eq (amount : Nat) :
    consumeWorkInPlace amount = staged (consumeWork · amount) := by
  funext r
  unfold consumeWorkInPlace consumeWork staged
  cases h : r.nextAfterService amount false <;>
    simp [Op.read, Op.lift, Op.fail, Op.modify, bind, Op.bind, pure, h]

theorem consumeInPlace_eq (ticks : Nat) : consumeInPlace ticks = staged (consume · ticks) := by
  funext r
  unfold consumeInPlace consume
  by_cases hlt : r.remainingTicks < ticks
  · simp [Op.read, Op.fail, bind, Op.bind, staged, hlt]
  cases hw : checkedWork ticks with
  | error e => simp [Op.read, Op.lift, Op.fail, bind, Op.bind, Except.bind, staged, hlt]
  | ok w =>
    simp [Op.read, Op.lift, bind, Op.bind, Except.bind, pure, hlt, consumeWorkUpToInPlace_eq,
      staged]

theorem setQuantumInPlace_eq (q : Nat) : setQuantumInPlace q = staged (setQuantum · q) := by
  funext r
  unfold setQuantumInPlace setQuantum staged
  by_cases h0 : q = 0
  · simp [Op.fail, h0]
  cases hp : projection q r.remainingFractionNum r.remainingFractionDen with
  | error e => simp [Op.read, Op.lift, Op.fail, bind, Op.bind, Except.bind, h0, hp]
  | ok p => simp [Op.read, Op.lift, Op.modify, bind, Op.bind, Except.bind, pure, h0, hp]

/-- **Request progress is an exact rational.**  What a run stores is in lowest terms between zero
and one, with its ceilings beside it; service takes `amount / (q * work)` from it, down to zero, in
one part or in two; a change of the quantum keeps it, and undoing the change gives the request back.
The operations on the place do exactly this, each succeeds as soon as its result can be stored, and
one that fails leaves the request as it was. -/
theorem request_exact {r : Request} (hr : r.Reached) :
    (r.remainingFractionNum.Coprime r.remainingFractionDen ∧ 0 < r.remainingFractionDen ∧
      r.remainingFractionNum ≤ r.remainingFractionDen) ∧
    (r.remainingWork = ⌈r.fraction * r.q * work⌉₊ ∧ r.remainingTicks = ⌈r.fraction * r.q⌉₊) ∧
    (∀ amount ≤ maxU128, ∀ r',
      (r.consumeWorkUpTo amount = .ok r' →
        r'.fraction = max 0 (r.fraction - amount / (r.q * work)) ∧ r'.q = r.q) ∧
      (r.consumeWork amount = .ok r' →
        r'.fraction = r.fraction - amount / (r.q * work) ∧ r'.q = r.q)) ∧
    (∀ ticks r', r.consume ticks = .ok r' →
      r'.fraction = max 0 (r.fraction - (ticks * work : Nat) / (r.q * work)) ∧ r'.q = r.q) ∧
    (∀ a b, a + b ≤ maxU128 → ∀ r',
      (r.consumeWorkUpTo a = .ok r' → r'.consumeWorkUpTo b = r.consumeWorkUpTo (a + b)) ∧
      (r.consumeWork a = .ok r' → r'.consumeWork b = r.consumeWork (a + b))) ∧
    (∀ q ≤ maxU128, ∀ r', r.setQuantum q = .ok r' →
      r'.remainingFractionNum = r.remainingFractionNum ∧
        r'.remainingFractionDen = r.remainingFractionDen ∧ r'.q = q ∧ r'.setQuantum r.q = .ok r) ∧
    (∀ n r',
      (consumeWorkUpToInPlace n r = .ok () r' ↔ r.consumeWorkUpTo n = .ok r') ∧
      (consumeWorkInPlace n r = .ok () r' ↔ r.consumeWork n = .ok r') ∧
      (consumeInPlace n r = .ok () r' ↔ r.consume n = .ok r') ∧
      (setQuantumInPlace n r = .ok () r' ↔ r.setQuantum n = .ok r')) ∧
    (∀ n ≤ maxU128,
      ((∃ r', consumeWorkUpToInPlace n r = .ok () r') ↔
        n % nice0 = 0 ∧ r.q * one ≤ maxU128 ∧ (r.served n).den ≤ maxU128) ∧
      ((∃ r', setQuantumInPlace n r = .ok () r') ↔
        0 < n ∧ ⌈r.fraction * n * work⌉₊ ≤ maxU128)) ∧
    (∀ n e r', consumeWorkUpToInPlace n r = .error e r' ∨ consumeWorkInPlace n r = .error e r' ∨
      consumeInPlace n r = .error e r' ∨ setQuantumInPlace n r = .error e r' → r' = r) := by
  have hex := hr.exact
  have hplace : ∀ n r',
      (consumeWorkUpToInPlace n r = .ok () r' ↔ r.consumeWorkUpTo n = .ok r') ∧
      (consumeWorkInPlace n r = .ok () r' ↔ r.consumeWork n = .ok r') ∧
      (consumeInPlace n r = .ok () r' ↔ r.consume n = .ok r') ∧
      (setQuantumInPlace n r = .ok () r' ↔ r.setQuantum n = .ok r') := by
    intro n r'
    rw [consumeWorkUpToInPlace_eq, consumeWorkInPlace_eq, consumeInPlace_eq, setQuantumInPlace_eq]
    exact ⟨staged_eq_ok, staged_eq_ok, staged_eq_ok, staged_eq_ok⟩
  have hserve : ∀ {amount saturating r'}, amount ≤ maxU128 →
      r.nextAfterService amount saturating = .ok r' →
        r'.fraction = r.served amount ∧ r'.q = r.q := by
    intro amount saturating r' ha h
    obtain ⟨-, -, -, -, rfl⟩ := hex.nextAfterService_ok ha h
    exact ⟨r.fraction_withFraction (r.served_nonneg amount), rfl⟩
  refine ⟨⟨hex.coprime, hex.den_pos, hex.num_le_den⟩, ⟨hex.work_eq.symm, hex.ticks_eq.symm⟩,
    fun amount ha r' => ⟨hserve ha, fun h => ?_⟩, fun ticks r' h => ?_,
    fun a b hab r' => ⟨hex.nextAfterService_add hab, hex.nextAfterService_add hab⟩,
    fun q hq r' h => ?_, hplace, fun n hn => ⟨?_, ?_⟩, ?_⟩
  · obtain ⟨-, -, hle, -, -⟩ := hex.nextAfterService_ok ha h
    obtain ⟨hfrac, hq⟩ := hserve ha h
    exact ⟨by rw [hfrac, served, max_eq_right (sub_nonneg.2 (hle rfl))], hq⟩
  · obtain ⟨-, hle, h⟩ := consume_ok h
    exact hserve hle h
  · have hrestore := hex.setQuantum_restore hq h
    obtain ⟨-, -, rfl⟩ := hex.setQuantum_ok hq h
    exact ⟨hex.num_eq, hex.den_eq, rfl, hrestore⟩
  · exact (exists_congr fun r' => (hplace n r').1).trans (hex.nextAfterService_ok_iff hn)
  · exact (exists_congr fun r' => (hplace n r').2.2.2).trans (hex.setQuantum_ok_iff hn)
  · rintro n e r' (h | h | h | h)
    · rw [consumeWorkUpToInPlace_eq] at h
      exact state_of_staged_error h
    · rw [consumeWorkInPlace_eq] at h
      exact state_of_staged_error h
    · rw [consumeInPlace_eq] at h
      exact state_of_staged_error h
    · rw [setQuantumInPlace_eq] at h
      exact state_of_staged_error h

/-- A request of four ticks is served for one in place, and its quantum is then changed to two. -/
theorem request_exact_quarter :
    ∃ r r' : Request, r.Reached ∧ consumeWorkUpToInPlace work r = .ok () r' ∧
      r'.fraction = max 0 (r.fraction - work / (r.q * work)) ∧
      ∃ r'', setQuantumInPlace 2 r' = .ok () r'' ∧ r''.q = 2 ∧
        r''.remainingFractionNum = 3 ∧ r''.remainingFractionDen = 4 := by
  have hnew : Request.new .normal 1024 2048 0 0
      = .ok ⟨.normal, 4, 4, 4 * work, 1, 1, 4 * one, 0, 4 * one⟩ := by
    decide +kernel
  have hserve :
      (⟨.normal, 4, 4, 4 * work, 1, 1, 4 * one, 0, 4 * one⟩ : Request).consumeWorkUpTo work
      = .ok ⟨.normal, 4, 3, 3 * work, 3, 4, 4 * one, 0, 4 * one⟩ := by
    decide +kernel
  have hreached := Reached.new hnew
  obtain ⟨-, -, hfraction, -, -, -, hplace, -, -⟩ := request_exact hreached
  obtain ⟨-, -, -, -, -, hquantum, hplace', -, -⟩ :=
    request_exact (hreached.consumeWorkUpTo (by decide) hserve)
  have hset : (⟨.normal, 4, 3, 3 * work, 3, 4, 4 * one, 0, 4 * one⟩ : Request).setQuantum 2
      = .ok ⟨.normal, 2, 2, 6442450944 * nice0, 3, 4, 4 * one, 0, 4 * one⟩ := by
    decide +kernel
  obtain ⟨hnum, hden, hq, -⟩ := hquantum 2 (by decide) _ hset
  exact ⟨_, _, hreached, (hplace work _).1.mpr hserve,
    ((hfraction work (by decide) _).1 hserve).1, _, (hplace' 2 _).2.2.2.mpr hset, hq, hnum, hden⟩

end Request

end KernelAx.Eevdf
