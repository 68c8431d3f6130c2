import Mathlib.Data.Nat.GCD.Basic
import Mathlib.Tactic.Ring
import Mathlib.Tactic.Linarith

/-!
# EEVDF — Checked fixed-width arithmetic

The scheduler's model computes with `u128` and `i128` values and reports every overflow. A
machine integer is a `Nat` or an `Int` here, and each checked operation tests the range of its
result. Division of a product goes through a 128-step multiply-and-divide loop when the product
does not fit, and ratios with three factors above and two below through a 256-bit number of four
limbs.
-/

namespace KernelAx.Eevdf

def maxU64 : Nat := 2 ^ 64 - 1
def maxU128 : Nat := 2 ^ 128 - 1
def minI128 : Int := -2 ^ 127
def maxI128 : Int := 2 ^ 127 - 1

def InI128 (v : Int) : Prop := minI128 ≤ v ∧ v ≤ maxI128

instance (v : Int) : Decidable (InI128 v) := inferInstanceAs (Decidable (_ ∧ _))

inductive ModelError
  | arithmeticExhausted
  | invalidWeight
  | invalidState
  deriving DecidableEq, Repr

open ModelError

/-! ### Checked operations of the machine types -/

/-- `ok_or(ArithmeticExhausted)` after a checked `u128` operation. -/
def inU128 (n : Nat) : Except ModelError Nat :=
  if n ≤ maxU128 then .ok n else .error arithmeticExhausted

/-- `ok_or(ArithmeticExhausted)` after a checked `i128` operation. -/
def inI128 (v : Int) : Except ModelError Int :=
  if InI128 v then .ok v else .error arithmeticExhausted

variable {b d n q r : Nat} {v : Int}

theorem inU128_ok {m : Nat} (h : inU128 n = .ok m) : m = n ∧ n ≤ maxU128 := by
  unfold inU128 at h
  split at h
  · cases h
    exact ⟨rfl, by assumption⟩
  · cases h

theorem inI128_ok {w : Int} (h : inI128 v = .ok w) : w = v ∧ InI128 v := by
  unfold inI128 at h
  split at h
  · cases h
    exact ⟨rfl, by assumption⟩
  · cases h

theorem inU128_of (h : n ≤ maxU128) : inU128 n = .ok n := if_pos h

theorem inU128_neg (h : ¬ n ≤ maxU128) : inU128 n = .error arithmeticExhausted :=
  if_neg h

theorem inI128_of (h : InI128 v) : inI128 v = .ok v := if_pos h

theorem inI128_neg (h : ¬ InI128 v) : inI128 v = .error arithmeticExhausted := if_neg h

def checkedI128 (value : Nat) : Except ModelError Int :=
  if maxI128 < value then .error arithmeticExhausted else .ok value

theorem checkedI128_of (h : (n : Int) ≤ maxI128) : checkedI128 n = .ok (n : Int) :=
  if_neg (not_lt.2 h)

theorem checkedI128_neg (h : ¬ (n : Int) ≤ maxI128) :
    checkedI128 n = .error arithmeticExhausted := if_pos (not_le.1 h)

theorem checkedI128_ok (h : checkedI128 n = .ok v) : v = n ∧ InI128 v := by
  unfold checkedI128 at h
  split at h
  · cases h
  · rename_i hle
    cases h
    exact ⟨rfl, by simp only [minI128]; omega, by omega⟩

def checkedMulI128U128 (value : Int) (factor : Nat) : Except ModelError Int :=
  if value = 0 then .ok 0
  else if maxU128 < value.natAbs * factor then .error arithmeticExhausted
  else if value < 0 then
    if 2 ^ 127 < value.natAbs * factor then .error arithmeticExhausted
    else .ok (-(value.natAbs * factor : Nat))
  else if maxI128 < (value.natAbs * factor : Nat) then .error arithmeticExhausted
  else .ok (value.natAbs * factor : Nat)

theorem checkedMulI128U128_eq (value : Int) (factor : Nat) :
    checkedMulI128U128 value factor = inI128 (value * factor) := by
  have habs : ((value.natAbs * factor : Nat) : Int) = |value| * factor := by
    rw [Nat.cast_mul, Int.natCast_natAbs]
  unfold checkedMulI128U128
  generalize value.natAbs * factor = n at *
  rcases lt_trichotomy value 0 with h | rfl | h
  · rw [if_neg h.ne, if_pos h]
    rw [abs_of_neg h, neg_mul] at habs
    obtain hx : value * factor = -n := by omega
    rw [hx]
    by_cases hn : n ≤ 2 ^ 127
    · rw [inI128_of (by simp only [InI128, minI128, maxI128]; omega),
        if_neg (by simp only [maxU128]; omega), if_neg (by omega)]
    · rw [inI128_neg (by simp only [InI128, minI128, maxI128]; omega), if_pos (not_le.1 hn),
        ite_self]
  · rw [if_pos rfl, zero_mul]
    rfl
  · rw [if_neg h.ne', if_neg h.not_gt]
    rw [abs_of_pos h] at habs
    rw [← habs]
    by_cases hn : (n : Int) ≤ maxI128
    · have hn' := hn
      simp only [maxI128] at hn'
      rw [inI128_of (by simp only [InI128, minI128, maxI128]; omega),
        if_neg (by simp only [maxU128]; omega), if_neg (not_lt.2 hn)]
    · rw [inI128_neg (fun hin => hn hin.2), if_pos (not_le.1 hn), ite_self]

def checkedCeilDiv (numerator denominator : Nat) : Except ModelError Nat :=
  if denominator = 0 then .error invalidWeight
  else if numerator % denominator = 0 then .ok (numerator / denominator)
  else inU128 (numerator / denominator + 1)

/-! ### Division of a 129-bit number -/

/-- One quotient bit and the next remainder, from `2 * remainder + bit`. -/
def div129Step (denominator remainder : Nat) (bit : Bool) : Bool × Nat :=
  let half := denominator / 2
  if denominator % 2 = 0 then
    if half ≤ remainder then (true, (remainder - half) * 2 + bit.toNat)
    else (false, remainder * 2 + bit.toNat)
  else if half < remainder then (true, (remainder - half) * 2 - 1 + bit.toNat)
  else if remainder = half ∧ bit = true then (true, 0)
  else (false, remainder * 2 + bit.toNat)

/-- The quotient bits below position `position`. -/
def div129Loop (low denominator : Nat) : Nat → Nat → Nat → Except ModelError (Nat × Nat)
  | 0, quotient, remainder => .ok (quotient, remainder)
  | position + 1, quotient, remainder =>
    let step := div129Step denominator remainder (low.testBit position)
    if maxU128 / 2 < quotient then .error arithmeticExhausted
    else div129Loop low denominator position (quotient * 2 + step.1.toNat) step.2

/-- `(high * 2^128 + low) / denominator` with its remainder. The quotient bit at position 128 is
reported as exhaustion. -/
def checkedDiv129 (high : Bool) (low denominator : Nat) : Except ModelError (Nat × Nat) :=
  if denominator = 0 then .error invalidWeight
  else
    let step := div129Step denominator 0 high
    if step.1 then .error arithmeticExhausted
    else div129Loop low denominator 128 0 step.2

theorem div129Step_spec (hr : r < d) (bit : Bool) :
    2 * r + bit.toNat = (div129Step d r bit).1.toNat * d + (div129Step d r bit).2 ∧
      (div129Step d r bit).2 < d := by
  unfold div129Step
  have hd := Nat.div_add_mod d 2
  dsimp only
  split
  · split <;> cases bit <;> simp <;> omega
  · split
    · cases bit <;> simp <;> omega
    · split
      · rename_i h
        obtain ⟨rfl, rfl⟩ := h
        simp
        omega
      · rename_i h
        cases bit <;> simp at h ⊢ <;> omega

theorem div_mod_of_eq (h : n = q * d + r) (hr : r < d) : n / d = q ∧ n % d = r := by
  subst h
  have hd : 0 < d := by omega
  exact ⟨by rw [Nat.mul_comm, Nat.mul_add_div hd, Nat.div_eq_of_lt hr, Nat.add_zero],
    by rw [Nat.mul_comm, Nat.mul_add_mod, Nat.mod_eq_of_lt hr]⟩

theorem mod_two_pow_succ (n p : Nat) :
    n % 2 ^ (p + 1) = (n.testBit p).toNat * 2 ^ p + n % 2 ^ p := by
  rw [Nat.pow_succ, Nat.mod_mul, Nat.testBit_eq_decide_div_mod_eq]
  rcases Nat.mod_two_eq_zero_or_one (n / 2 ^ p) with h | h
  · simp [h]
  · simp [h]
    ring

/-- The loop divides what is left of `low` after the remainder so far; the induction is on the
positions left, and the quotient stays below `2 ^ (128 - position)`. -/
theorem div129Loop_eq {low : Nat} (p : Nat) (hp : p ≤ 128) (hr : r < d) (hq : q < 2 ^ (128 - p)) :
    div129Loop low d p q r
      = .ok (q * 2 ^ p + (r * 2 ^ p + low % 2 ^ p) / d, (r * 2 ^ p + low % 2 ^ p) % d) := by
  induction p generalizing q r with
  | zero => simp [div129Loop, Nat.mod_one, Nat.mod_eq_of_lt hr, Nat.div_eq_of_lt hr]
  | succ p ih =>
    obtain ⟨hstep, hlt⟩ := div129Step_spec hr (low.testBit p)
    have hexp : 128 - p = (128 - (p + 1)) + 1 := by omega
    have hq' : q * 2 + (div129Step d r (low.testBit p)).1.toNat < 2 ^ (128 - p) := by
      have := Bool.toNat_lt (div129Step d r (low.testBit p)).1
      rw [hexp, Nat.pow_succ]
      omega
    have hsmall : ¬ maxU128 / 2 < q := by
      have : (2 : Nat) ^ (128 - (p + 1)) ≤ 2 ^ 127 := Nat.pow_le_pow_right (by omega) (by omega)
      simp only [maxU128]
      omega
    have hrest : r * 2 ^ (p + 1) + low % 2 ^ (p + 1)
        = (div129Step d r (low.testBit p)).1.toNat * 2 ^ p * d
          + ((div129Step d r (low.testBit p)).2 * 2 ^ p + low % 2 ^ p) := by
      rw [mod_two_pow_succ]
      calc r * 2 ^ (p + 1) + ((low.testBit p).toNat * 2 ^ p + low % 2 ^ p)
          = (2 * r + (low.testBit p).toNat) * 2 ^ p + low % 2 ^ p := by ring
        _ = _ := by rw [hstep]; ring
    have hd : 0 < d := by omega
    simp only [div129Loop, if_neg hsmall]
    rw [ih (by omega) hlt hq', hrest, Nat.mul_comm (_ * 2 ^ p) d, Nat.mul_add_div hd,
      Nat.mul_add_mod]
    congr 2
    ring

theorem checkedDiv129_eq (high : Bool) (low : Nat) (hlow : low < 2 ^ 128) (hd : 0 < d)
    (hfit : (high.toNat * 2 ^ 128 + low) / d < 2 ^ 128) :
    checkedDiv129 high low d
      = .ok ((high.toNat * 2 ^ 128 + low) / d, (high.toNat * 2 ^ 128 + low) % d) := by
  obtain ⟨hstep, hlt⟩ := div129Step_spec (r := 0) hd high
  have hbit : (div129Step d 0 high).1 = false := by
    by_contra hb
    simp only [Bool.not_eq_false] at hb
    rw [hb] at hstep
    have hle : d ≤ high.toNat := by simp at hstep; omega
    have h1 : high.toNat = 1 := by
      have := Bool.toNat_lt high
      omega
    have hd1 : d = 1 := by omega
    subst hd1
    rw [h1] at hfit
    omega
  rw [hbit] at hstep
  simp only [checkedDiv129, if_neg hd.ne', hbit, Bool.false_eq_true, if_false]
  rw [div129Loop_eq 128 le_rfl hlt (by simp), Nat.mod_eq_of_lt hlow]
  have : (div129Step d 0 high).2 = high.toNat := by simp at hstep; omega
  simp [this]

/-! ### Products divided without overflow -/

/-- The fallback of `checkedMulDivRem`: one bit of `a` at a time, from the top. -/
def mulDivLoop (a b denominator : Nat) : Nat → Nat → Nat → Except ModelError (Nat × Nat)
  | 0, quotient, remainder => .ok (quotient, remainder)
  | position + 1, quotient, remainder => do
    let double ← checkedDiv129 (remainder.testBit 127) (remainder * 2 % 2 ^ 128) denominator
    let add ← (if a.testBit position then
        checkedDiv129 (decide (2 ^ 128 ≤ double.2 + b)) ((double.2 + b) % 2 ^ 128) denominator
      else .ok (0, double.2))
    let extra ← inU128 (double.1 + add.1)
    let twice ← inU128 (quotient * 2)
    let next ← inU128 (twice + extra)
    mulDivLoop a b denominator position next add.2

/-- Quotient and remainder of `a * b / denominator`. -/
def checkedMulDivRem (a b denominator : Nat) : Except ModelError (Nat × Nat) :=
  if denominator = 0 then .error invalidWeight
  else if a * b ≤ maxU128 then .ok (a * b / denominator, a * b % denominator)
  else mulDivLoop a b denominator 128 0 0

def checkedMulDivCeil (a b denominator : Nat) : Except ModelError Nat := do
  let (quotient, remainder) ← checkedMulDivRem a b denominator
  if remainder = 0 then .ok quotient else inU128 (quotient + 1)

/-- Rounds `a * b / denominator` to the nearest integer, ties to even. -/
def checkedMulDivRoundNearestEven (a b denominator : Nat) : Except ModelError Nat := do
  let (quotient, remainder) ← checkedMulDivRem a b denominator
  let roundUp : Bool :=
    if denominator / 2 < remainder then true
    else if remainder < denominator / 2 then false
    else denominator % 2 = 0 ∧ quotient % 2 ≠ 0
  if roundUp then inU128 (quotient + 1) else .ok quotient

theorem testBit_127_toNat (hr : r < 2 ^ 128) :
    (r.testBit 127).toNat * 2 ^ 128 + r * 2 % 2 ^ 128 = r * 2 := by
  have h := mod_two_pow_succ r 127
  rw [Nat.mod_eq_of_lt hr] at h
  have hlt : r % 2 ^ 127 < 2 ^ 127 := Nat.mod_lt _ (by positivity)
  rcases hb : r.testBit 127 with _ | _ <;> simp [hb] at h ⊢ <;> omega

theorem decide_le_toNat (n : Nat) (hn : n < 2 ^ 129) :
    (decide (2 ^ 128 ≤ n)).toNat * 2 ^ 128 + n % 2 ^ 128 = n := by
  by_cases h : 2 ^ 128 ≤ n
  · rw [decide_eq_true h]
    simp only [Bool.toNat_true]
    omega
  · rw [decide_eq_false h]
    simp only [Bool.toNat_false]
    omega

/-- Doubling a remainder and adding `b` for a set bit, through two exact divisions. -/
theorem mulDivLoop_step (hb : b < 2 ^ 128) (hd : d < 2 ^ 128) (hr : r < d) (bit : Bool) :
    ∃ double add : Nat × Nat,
    checkedDiv129 (r.testBit 127) (r * 2 % 2 ^ 128) d = .ok double ∧
    (if bit then
        checkedDiv129 (decide (2 ^ 128 ≤ double.2 + b)) ((double.2 + b) % 2 ^ 128) d
      else .ok (0, double.2)) = .ok add ∧
    (double.1 + add.1) * d + add.2 = 2 * r + bit.toNat * b ∧ add.2 < d ∧
    double.1 + add.1 ≤ maxU128 := by
  have hpos : 0 < d := by omega
  have hdouble : (r * 2) / d < 2 ^ 128 := by
    rw [Nat.div_lt_iff_lt_mul hpos]
    nlinarith
  have h₁ := checkedDiv129_eq (r.testBit 127) (r * 2 % 2 ^ 128)
    (Nat.mod_lt _ (by positivity)) hpos (by rwa [testBit_127_toNat (by omega)])
  rw [testBit_127_toNat (by omega)] at h₁
  have hdm := Nat.div_add_mod (r * 2) d
  have hmod : r * 2 % d < d := Nat.mod_lt _ hpos
  have hle : r * 2 / d ≤ 1 := by
    rw [Nat.le_iff_lt_add_one, Nat.div_lt_iff_lt_mul hpos]
    omega
  cases bit with
  | false =>
    refine ⟨_, (0, r * 2 % d), h₁, by simp, ?_, hmod, ?_⟩
    · simp only [Bool.toNat_false]
      rw [Nat.add_zero, Nat.mul_comm (r * 2 / d)]
      omega
    · simp only [maxU128]
      omega
  | true =>
    have hsum : r * 2 % d + b < 2 ^ 129 := by omega
    have hadd : (r * 2 % d + b) / d < 2 ^ 128 := by
      rw [Nat.div_lt_iff_lt_mul hpos]
      nlinarith
    have h₂ := checkedDiv129_eq (decide (2 ^ 128 ≤ r * 2 % d + b))
      ((r * 2 % d + b) % 2 ^ 128) (Nat.mod_lt _ (by positivity)) hpos
      (by rwa [decide_le_toNat _ hsum])
    rw [decide_le_toNat _ hsum] at h₂
    have hdm₂ := Nat.div_add_mod (r * 2 % d + b) d
    refine ⟨_, ((r * 2 % d + b) / d, (r * 2 % d + b) % d), h₁, by rw [if_pos rfl]; exact h₂, ?_,
      Nat.mod_lt _ hpos, ?_⟩
    · simp only [Bool.toNat_true, Nat.add_mul]
      rw [Nat.mul_comm (r * 2 / d), Nat.mul_comm ((r * 2 % d + b) / d)]
      omega
    · have hlt : r * 2 / d + (r * 2 % d + b) / d < 2 ^ 128 := by
        by_contra hge
        have hq : (r * 2 / d + (r * 2 % d + b) / d) * d ≤ 2 * r + b := by
          rw [Nat.add_mul, Nat.mul_comm (r * 2 / d), Nat.mul_comm ((r * 2 % d + b) / d)]
          omega
        have hmul : 2 ^ 128 * d ≤ (r * 2 / d + (r * 2 % d + b) / d) * d :=
          Nat.mul_le_mul_right d (by omega)
        rcases Nat.lt_or_ge d 2 with hd1 | hd2
        · have : d = 1 := by omega
          subst this
          omega
        · nlinarith
      simp only [maxU128]
      omega

/-- The loop computes the product so far, divided; the induction is on the bits of `a` left. -/
theorem mulDivLoop_eq {a : Nat} (hb : b < 2 ^ 128) (hd : d < 2 ^ 128) (p : Nat) (hr : r < d)
    (hq : q < 2 ^ 128) :
    mulDivLoop a b d p q r =
      (if ((q * d + r) * 2 ^ p + a % 2 ^ p * b) / d < 2 ^ 128 then
        .ok (((q * d + r) * 2 ^ p + a % 2 ^ p * b) / d,
          ((q * d + r) * 2 ^ p + a % 2 ^ p * b) % d)
      else .error arithmeticExhausted) := by
  have hpos : 0 < d := by omega
  induction p generalizing q r with
  | zero =>
    obtain ⟨hdiv, hmod⟩ := div_mod_of_eq (n := q * d + r) rfl hr
    rw [Nat.pow_zero, Nat.mod_one, Nat.mul_one, Nat.zero_mul, Nat.add_zero, hdiv, hmod, if_pos hq,
      mulDivLoop]
  | succ p ih =>
    obtain ⟨double, add, h₁, h₂, hsum, hlt, hle⟩ := mulDivLoop_step hb hd hr (a.testBit p)
    have hnext : (q * d + r) * 2 ^ (p + 1) + a % 2 ^ (p + 1) * b
        = ((q * 2 + (double.1 + add.1)) * d + add.2) * 2 ^ p + a % 2 ^ p * b := by
      have hs : (q * 2 + (double.1 + add.1)) * d + add.2
          = 2 * (q * d + r) + (a.testBit p).toNat * b := by
        rw [Nat.add_mul, Nat.add_assoc, hsum]
        ring
      rw [hs, mod_two_pow_succ]
      ring
    have hbig : 2 ^ 128 ≤ q * 2 + (double.1 + add.1) →
        ¬ ((q * d + r) * 2 ^ (p + 1) + a % 2 ^ (p + 1) * b) / d < 2 ^ 128 := by
      intro hge hlt'
      rw [hnext, Nat.div_lt_iff_lt_mul hpos] at hlt'
      have h1 : 1 ≤ 2 ^ p := Nat.one_le_two_pow
      have h2 : 2 ^ 128 * d ≤ (q * 2 + (double.1 + add.1)) * d := Nat.mul_le_mul_right d hge
      have h3 : ((q * 2 + (double.1 + add.1)) * d + add.2) * 1
          ≤ ((q * 2 + (double.1 + add.1)) * d + add.2) * 2 ^ p := Nat.mul_le_mul_left _ h1
      omega
    simp only [mulDivLoop, h₁, h₂, bind, Except.bind, inU128, if_pos hle]
    by_cases htwice : q * 2 ≤ maxU128
    · rw [if_pos htwice]
      dsimp only
      by_cases hfit : q * 2 + (double.1 + add.1) ≤ maxU128
      · rw [if_pos hfit]
        dsimp only
        rw [ih hlt (by simp only [maxU128] at hfit; omega), hnext]
      · rw [if_neg hfit, if_neg (hbig (by simp only [maxU128] at hfit; omega))]
    · rw [if_neg htwice, if_neg (hbig (by simp only [maxU128] at htwice; omega))]

/-- **`a * b / d` is exact**, and fails exactly when the quotient does not fit. -/
theorem checkedMulDivRem_eq {a : Nat} (ha : a < 2 ^ 128) (hb : b < 2 ^ 128) (hd : d < 2 ^ 128)
    (hpos : 0 < d) :
    checkedMulDivRem a b d =
      (if a * b / d < 2 ^ 128 then .ok (a * b / d, a * b % d)
      else .error arithmeticExhausted) := by
  simp only [checkedMulDivRem, if_neg hpos.ne']
  by_cases hfit : a * b ≤ maxU128
  · have hlt : a * b / d < 2 ^ 128 := by
      have := Nat.div_le_self (a * b) d
      simp only [maxU128] at hfit
      omega
    rw [if_pos hfit, if_pos hlt]
  · rw [if_neg hfit, mulDivLoop_eq hb hd 128 hpos (by positivity), Nat.mod_eq_of_lt ha,
      Nat.zero_mul, Nat.add_zero, Nat.zero_mul, Nat.zero_add]

/-! ### Ratios staged through 256 bits -/

/-- A 256-bit unsigned number: four 64-bit limbs, the lowest first. -/
structure Wide where
  limbs : List Nat
  deriving DecidableEq, Repr

namespace Wide

def zero : Wide := ⟨[0, 0, 0, 0]⟩

/-- Compares limb lists of one length from the highest limb on. -/
def cmpLimbs : List Nat → List Nat → Ordering
  | a :: as, b :: bs =>
    match cmpLimbs as bs with
    | .eq => compare a b
    | ordering => ordering
  | _, _ => .eq

def cmp (left right : Wide) : Ordering := cmpLimbs left.limbs right.limbs

def ge (left right : Wide) : Bool := left.cmp right != .lt

def bit (w : Wide) (position : Nat) : Bool :=
  (w.limbs.getD (position / 64) 0).testBit (position % 64)

def shlLimbs : Bool → List Nat → Bool × List Nat
  | carry, [] => (carry, [])
  | carry, value :: rest =>
    let high := shlLimbs (value.testBit 63) rest
    (high.1, (value * 2 % 2 ^ 64 + carry.toNat) :: high.2)

def shl1 (w : Wide) : Bool × Wide :=
  let shifted := shlLimbs false w.limbs
  (shifted.1, ⟨shifted.2⟩)

def subLimbs : Bool → List Nat → List Nat → List Nat
  | borrow, a :: as, b :: bs =>
    (a + 2 ^ 64 * 2 - b - borrow.toNat) % 2 ^ 64
      :: subLimbs (decide (a < b + borrow.toNat)) as bs
  | _, _, _ => []

def wrappingSub (left right : Wide) : Wide := ⟨subLimbs false left.limbs right.limbs⟩

def addOneLimbs : List Nat → Option (List Nat)
  | [] => none
  | limb :: rest =>
    if limb + 1 < 2 ^ 64 then some ((limb + 1) :: rest)
    else (addOneLimbs rest).map (0 :: ·)

def checkedAddOne (w : Wide) : Option Wide := (addOneLimbs w.limbs).map Wide.mk

def setLowBit (w : Wide) (bit : Bool) : Wide :=
  match w.limbs with
  | low :: rest => ⟨(low / 2 * 2 + bit.toNat) :: rest⟩
  | [] => w

/-- One row of a schoolbook product: `limb * factor` is added to the limbs of `acc`, the carry
running past the factor. No room left for the carry is an overflow. -/
def mulAddRow (limb : Nat) : List Nat → List Nat → Nat → Option (List Nat)
  | [], acc, 0 => some acc
  | [], a :: acc, carry + 1 =>
    (mulAddRow limb [] acc ((a + (carry + 1)) / 2 ^ 64)).map ((a + (carry + 1)) % 2 ^ 64 :: ·)
  | [], [], _ + 1 => none
  | f :: factor, a :: acc, carry =>
    (mulAddRow limb factor acc ((limb * f + a + carry) / 2 ^ 64)).map
      ((limb * f + a + carry) % 2 ^ 64 :: ·)
  | f :: factor, [], carry =>
    if limb * f = 0 ∧ carry = 0 then mulAddRow limb factor [] 0 else none

/-- The rows of a product, each one limb further up. -/
def mulRows (factor : List Nat) : List Nat → List Nat → Option (List Nat)
  | [], acc => some acc
  | limb :: rest, acc =>
    match mulAddRow limb factor acc 0 with
    | some (low :: acc) => (mulRows factor rest acc).map (low :: ·)
    | some [] => mulRows factor rest []
    | none => none

def halves (n : Nat) : List Nat := [n % 2 ^ 64, n / 2 ^ 64]

def mulU128 (left right : Nat) : Option Wide :=
  (mulRows (halves right) (halves left) zero.limbs).map Wide.mk

def mul (w : Wide) (right : Nat) : Option Wide :=
  (mulRows (halves right) w.limbs zero.limbs).map Wide.mk

/-- The remainder of the bits of `w` below `position`, by the 129-bit division. -/
def remLoop (w : Wide) (divisor : Nat) : Nat → Nat → Except ModelError Nat
  | 0, remainder => .ok remainder
  | position + 1, remainder => do
    let step ← checkedDiv129 (remainder.testBit 127)
      (remainder * 2 % 2 ^ 128 + (w.bit position).toNat) divisor
    remLoop w divisor position step.2

def remU128 (w : Wide) (divisor : Nat) : Except ModelError Nat :=
  if divisor = 0 then .error invalidWeight else remLoop w divisor 256 0

def divExactLoop (w : Wide) (divisor : Nat) : Nat → Wide → Nat → Except ModelError Wide
  | 0, quotient, remainder => if remainder = 0 then .ok quotient else .error invalidState
  | position + 1, quotient, remainder => do
    let step ← checkedDiv129 (remainder.testBit 127)
      (remainder * 2 % 2 ^ 128 + (w.bit position).toNat) divisor
    if 1 < step.1 then .error invalidState
    else divExactLoop w divisor position (quotient.shl1.2.setLowBit (step.1 != 0)) step.2

def divExactU128 (w : Wide) (divisor : Nat) : Except ModelError Wide :=
  if divisor = 0 then .error invalidWeight else divExactLoop w divisor 256 zero 0

def lowU128 (w : Wide) : Except ModelError Nat :=
  match w.limbs with
  | [l₀, l₁, l₂, l₃] =>
    if l₂ ≠ 0 ∨ l₃ ≠ 0 then .error arithmeticExhausted else .ok (l₁ * 2 ^ 64 + l₀)
  | _ => .error arithmeticExhausted

/-- Bitwise long division of `numerator`, from position `position` down. -/
def divLoop (numerator denominator : Wide) : Nat → Wide → Wide → Wide × Wide
  | 0, quotient, remainder => (quotient, remainder)
  | position + 1, quotient, remainder =>
    let (carry, shifted) := remainder.shl1
    let shifted := shifted.setLowBit (numerator.bit position)
    let bit := carry || shifted.ge denominator
    let remainder := if bit then shifted.wrappingSub denominator else shifted
    divLoop numerator denominator position (quotient.shl1.2.setLowBit bit) remainder

end Wide

/-- Cancels the common factor of one numerator and one denominator. -/
def cancel (numerator denominator : Nat) : Nat × Nat :=
  let gcd := Nat.gcd numerator denominator
  (numerator / gcd, denominator / gcd)

/-- `⌈n₀ * n₁ * n₂ / (d₀ * d₁)⌉`, with every common factor cancelled first. -/
def checkedRatioCeil (n₀ n₁ n₂ d₀ d₁ : Nat) : Except ModelError Nat :=
  let (n₀, d₀) := cancel n₀ d₀
  let (n₀, d₁) := cancel n₀ d₁
  let (n₁, d₀) := cancel n₁ d₀
  let (n₁, d₁) := cancel n₁ d₁
  let (n₂, d₀) := cancel n₂ d₀
  let (n₂, d₁) := cancel n₂ d₁
  if n₀ * n₁ ≤ maxU128 ∧ n₀ * n₁ * n₂ ≤ maxU128 ∧ d₀ * d₁ ≤ maxU128 then
    checkedCeilDiv (n₀ * n₁ * n₂) (d₀ * d₁)
  else
    match (Wide.mulU128 n₀ n₁).bind (·.mul n₂), Wide.mulU128 d₀ d₁ with
    | some numerator, some denominator =>
      let (quotient, remainder) := Wide.divLoop numerator denominator 256 Wide.zero Wide.zero
      if remainder = Wide.zero then quotient.lowU128
      else
        match quotient.checkedAddOne with
        | some quotient => quotient.lowU128
        | none => .error arithmeticExhausted
    | _, _ => .error arithmeticExhausted

/-! ### Signed keys -/

/-- The `u128` image of an `i128`, its sign bit flipped. -/
def biasI128 (value : Int) : Nat := (value % 2 ^ 128).toNat ^^^ 2 ^ 127

def unbiasI128 (value : Nat) : Int :=
  let raw : Nat := value ^^^ 2 ^ 127
  if raw < 2 ^ 127 then raw else raw - 2 ^ 128

theorem xor_top_of_lt (hn : n < 2 ^ 127) : n ^^^ 2 ^ 127 = n + 2 ^ 127 := by
  have hor : n ^^^ 2 ^ 127 = n ||| 2 ^ 127 := by
    apply Nat.eq_of_testBit_eq
    intro i
    rw [Nat.testBit_xor, Nat.testBit_or, Nat.testBit_two_pow]
    by_cases hi : 127 = i
    · subst hi
      simp [Nat.testBit_lt_two_pow hn]
    · simp [hi]
  have hadd := Nat.two_pow_add_eq_or_of_lt hn 1
  rw [hor, Nat.or_comm, ← Nat.mul_one (2 ^ 127), ← hadd]
  omega

theorem xor_top (hn : n < 2 ^ 128) :
    n ^^^ 2 ^ 127 = if n < 2 ^ 127 then n + 2 ^ 127 else n - 2 ^ 127 := by
  split
  · exact xor_top_of_lt ‹_›
  · obtain ⟨m, rfl⟩ := Nat.exists_eq_add_of_le' (not_lt.1 ‹_›)
    rw [← xor_top_of_lt (by omega), Nat.xor_assoc, Nat.xor_self, Nat.xor_zero,
      xor_top_of_lt (by omega), Nat.add_sub_cancel]

theorem biasI128_eq (hv : InI128 v) : (biasI128 v : Int) = v + 2 ^ 127 := by
  obtain ⟨hlo, hhi⟩ := hv
  simp only [minI128, maxI128] at hlo hhi
  have hlt : (v % 2 ^ 128).toNat < 2 ^ 128 := by omega
  rw [biasI128, xor_top hlt]
  split <;> omega

theorem biasI128_le {w : Int} (hv : InI128 v) (hw : InI128 w) :
    biasI128 v ≤ biasI128 w ↔ v ≤ w := by
  have := biasI128_eq hv
  have := biasI128_eq hw
  omega

end KernelAx.Eevdf
