import KernelAx.Eevdf.Model
import KernelAx.Transaction
import Mathlib.Algebra.Order.Group.Unbundled.Int
import Mathlib.Algebra.Group.Nat.Even
import Mathlib.Algebra.Order.Field.Basic
import Mathlib.Data.Rat.Cast.Order
import Mathlib.Tactic.FieldSimp

/-!
# EEVDF — The clock is exact

The clock stands at the rational point `v + remainder / totalWeight`. An advance by work moves it by
exactly `amount / totalWeight`, whatever path the fixed-width division takes; a change of the weight
moves it to the nearest point the new denominator can express.
-/

namespace KernelAx.Eevdf

open Transaction Op ModelError

namespace Clock

structure InRange (c : Clock) : Prop where
  v : InI128 c.v
  remainder : c.remainder ≤ maxU128
  totalWeight : c.totalWeight ≤ maxU128
  accountedTicks : c.accountedTicks ≤ maxU128

/-- A clock that counts work: some weight, and a remainder below it. -/
structure Live (c : Clock) : Prop extends c.InRange where
  pos : 0 < c.totalWeight
  lt : c.remainder < c.totalWeight

/-! ### Advancing -/

theorem div_mod_split (a r W : Nat) (hW : 0 < W) :
    a / W + (a % W + r) / W = (r + a) / W ∧ (a % W + r) % W = (r + a) % W := by
  have ha := Nat.div_add_mod a W
  have hsum : r + a = W * (a / W) + (a % W + r) := by omega
  rw [hsum, Nat.mul_add_div hW, Nat.mul_add_mod]
  exact ⟨rfl, rfl⟩

variable {W r ticks amount : Nat} {c : Clock}

theorem advanceDivision_eq {a : Nat} (hr : r < W) (hW : W ≤ maxU128) :
    checkedDiv129 (decide (2 ^ 128 ≤ a % W + r)) ((a % W + r) % 2 ^ 128) W
      = .ok ((a % W + r) / W, (r + a) % W) := by
  have hpos : 0 < W := by omega
  have hmod := Nat.mod_lt a hpos
  have hsum : a % W + r < 2 ^ 129 := by
    simp only [maxU128] at hW
    omega
  have hfit : (a % W + r) / W < 2 ^ 128 := by
    have : (a % W + r) / W < 2 := by
      rw [Nat.div_lt_iff_lt_mul hpos]
      omega
    omega
  have h := checkedDiv129_eq (decide (2 ^ 128 ≤ a % W + r)) ((a % W + r) % 2 ^ 128)
    (Nat.mod_lt _ (by positivity)) hpos (by rwa [decide_le_toNat _ hsum])
  rw [decide_le_toNat _ hsum] at h
  rw [h, (div_mod_split a r W hpos).2]

/-- The distance, the point reached and the ticks counted are machine integers. -/
def AdvanceFits (c : Clock) (amount ticks : Nat) : Prop :=
  (((c.remainder + amount) / c.totalWeight : Nat) : Int) ≤ maxI128 ∧
    InI128 (c.v + ((c.remainder + amount) / c.totalWeight : Nat)) ∧
    c.accountedTicks + ticks ≤ maxU128

instance (c : Clock) (amount ticks : Nat) : Decidable (c.AdvanceFits amount ticks) :=
  inferInstanceAs (Decidable (_ ∧ _ ∧ _))

/-- Where an advance leads, and the distance. -/
def advanced (c : Clock) (amount ticks : Nat) : ClockAdvance :=
  ⟨c.v + ((c.remainder + amount) / c.totalWeight : Nat), (c.remainder + amount) % c.totalWeight,
    c.accountedTicks + ticks, ((c.remainder + amount) / c.totalWeight : Nat)⟩

theorem advance_tail (c : Clock) (amount ticks : Nat) :
    (do
      let deltaV ← checkedI128 (← inU128 ((c.remainder + amount) / c.totalWeight))
      let v ← inI128 (c.v + deltaV)
      let accountedTicks ← inU128 (c.accountedTicks + ticks)
      .ok ⟨v, (c.remainder + amount) % c.totalWeight, accountedTicks, deltaV⟩ :
        Except ModelError ClockAdvance)
      = if c.AdvanceFits amount ticks then .ok (c.advanced amount ticks)
        else .error arithmeticExhausted := by
  by_cases h₁ : (((c.remainder + amount) / c.totalWeight : Nat) : Int) ≤ maxI128
  · have h₀ : (c.remainder + amount) / c.totalWeight ≤ maxU128 := by
      simp only [maxI128] at h₁
      simp only [maxU128]
      omega
    simp only [inU128_of h₀, checkedI128_of h₁, bind, Except.bind]
    by_cases h₂ : InI128 (c.v + ((c.remainder + amount) / c.totalWeight : Nat))
    · simp only [inI128_of h₂]
      by_cases h₃ : c.accountedTicks + ticks ≤ maxU128
      · rw [inU128_of h₃, if_pos ⟨h₁, h₂, h₃⟩]
        rfl
      · rw [inU128_neg h₃, if_neg (fun h => h₃ h.2.2)]
    · rw [inI128_neg h₂, if_neg (fun h => h₂ h.2.1)]
  · rw [if_neg (fun h => h₁ h.1)]
    by_cases h₀ : (c.remainder + amount) / c.totalWeight ≤ maxU128
    · simp only [inU128_of h₀, checkedI128_neg h₁, bind, Except.bind]
    · simp only [inU128_neg h₀, bind, Except.bind]

/-- **The division of an advance**, of work given as a product: in one piece or in two, the clock
gets the same quotient and the same remainder. -/
theorem Live.advance_product (hc : c.Live) {a b : Nat} (ha : a ≤ maxU128) (hb : b ≤ maxU128)
    (ticks : Nat) :
    (do
      let (deltaV, productRemainder) ← checkedMulDivRem a b c.totalWeight
      let (remainderQuotient, remainder) ←
        checkedDiv129 (decide (2 ^ 128 ≤ productRemainder + c.remainder))
          ((productRemainder + c.remainder) % 2 ^ 128) c.totalWeight
      let deltaV ← checkedI128 (← inU128 (deltaV + remainderQuotient))
      let v ← inI128 (c.v + deltaV)
      let accountedTicks ← inU128 (c.accountedTicks + ticks)
      .ok ⟨v, remainder, accountedTicks, deltaV⟩ : Except ModelError ClockAdvance)
      = if c.AdvanceFits (a * b) ticks then .ok (c.advanced (a * b) ticks)
        else .error arithmeticExhausted := by
  have hW := hc.totalWeight
  simp only [maxU128] at ha hb hW
  have hrem := checkedMulDivRem_eq (a := a) (b := b) (d := c.totalWeight) (by omega) (by omega)
    (by omega) hc.pos
  by_cases hfit : a * b / c.totalWeight < 2 ^ 128
  · rw [if_pos hfit] at hrem
    rw [← advance_tail]
    simp only [hrem, bind, Except.bind, advanceDivision_eq hc.lt hc.totalWeight,
      (div_mod_split (a * b) c.remainder c.totalWeight hc.pos).1]
  · rw [if_neg hfit] at hrem
    have hle : a * b / c.totalWeight ≤ (c.remainder + a * b) / c.totalWeight :=
      Nat.div_le_div_right (Nat.le_add_left _ _)
    have hno : ¬ c.AdvanceFits (a * b) ticks := by
      rintro ⟨h, -, -⟩
      simp only [maxI128] at h
      omega
    rw [if_neg hno]
    simp only [hrem, bind, Except.bind]

theorem Live.advanceFits_zero (hc : c.Live) :
    c.AdvanceFits 0 ticks ↔ c.accountedTicks + ticks ≤ maxU128 := by
  have hdiv : (c.remainder + 0) / c.totalWeight = 0 := Nat.div_eq_of_lt hc.lt
  unfold AdvanceFits
  rw [hdiv]
  exact ⟨fun h => h.2.2, fun h => ⟨by decide, by simpa using hc.v, h⟩⟩

theorem Live.advanced_zero (hc : c.Live) (ticks : Nat) :
    c.advanced 0 ticks = ⟨c.v, c.remainder, c.accountedTicks + ticks, 0⟩ := by
  have hdiv : c.remainder / c.totalWeight = 0 := Nat.div_eq_of_lt hc.lt
  have hmod : c.remainder % c.totalWeight = c.remainder := Nat.mod_eq_of_lt hc.lt
  simp only [advanced, add_zero, hdiv, hmod, Nat.cast_zero]

theorem previewWorkWithTicks_eq (hc : c.Live) (ha : amount ≤ maxU128) (ticks : Nat) :
    c.previewWorkWithTicks amount ticks
      = if c.AdvanceFits amount ticks then .ok (c.advanced amount ticks)
        else .error arithmeticExhausted := by
  unfold previewWorkWithTicks
  by_cases h0 : amount = 0
  · subst h0
    rw [if_pos rfl, hc.advanced_zero]
    by_cases h : c.accountedTicks + ticks ≤ maxU128
    · rw [inU128_of h, if_pos (hc.advanceFits_zero.2 h)]
      rfl
    · rw [inU128_neg h, if_neg (fun hf => h (hc.advanceFits_zero.1 hf))]
      rfl
  · rw [if_neg h0, if_neg hc.pos.ne', if_neg (not_le.2 hc.lt)]
    have h := hc.advance_product ha (b := 1) (by decide) ticks
    rwa [Nat.mul_one] at h

def advancedBy (c : Clock) (amount ticks : Nat) : Clock :=
  { c with
    v := (c.advanced amount ticks).v
    remainder := (c.advanced amount ticks).remainder
    accountedTicks := (c.advanced amount ticks).accountedTicks }

theorem advanced_exact (hc : c.Live) (amount ticks : Nat) :
    (c.advanced amount ticks).v * c.totalWeight + (c.advanced amount ticks).remainder
        = c.v * c.totalWeight + c.remainder + amount ∧
      (c.advanced amount ticks).remainder < c.totalWeight := by
  refine ⟨?_, Nat.mod_lt _ hc.pos⟩
  have hdm : ((c.totalWeight * ((c.remainder + amount) / c.totalWeight)
      + (c.remainder + amount) % c.totalWeight : Nat) : Int) = (c.remainder + amount : Nat) :=
    congrArg _ (Nat.div_add_mod _ _)
  push_cast at hdm
  simp only [advanced]
  push_cast
  linarith

theorem Live.advancedBy (hc : c.Live) (h : c.AdvanceFits amount ticks) :
    (c.advancedBy amount ticks).Live where
  v := h.2.1
  remainder := (Nat.mod_lt _ hc.pos).le.trans hc.totalWeight
  __ := hc
  accountedTicks := h.2.2
  lt := Nat.mod_lt _ hc.pos

section Split

variable {c : Clock} {a b s t : Nat}

end Split

/-! ### Changing the weight -/

def point (c : Clock) : ℚ := c.v + c.remainder / c.totalWeight

theorem previewWorkWithTicks_exact (hc : c.Live) (ha : amount ≤ maxU128) {next : ClockAdvance}
    (h : c.previewWorkWithTicks amount ticks = .ok next) :
    next.v * c.totalWeight + next.remainder = c.v * c.totalWeight + c.remainder + amount ∧
      next.remainder < c.totalWeight := by
  rw [previewWorkWithTicks_eq hc ha] at h
  split at h
  · cases h
    exact advanced_exact hc amount ticks
  · cases h

/-- The clock `d` is `c` advanced: the work is added to `v * W + r`, the ticks are counted and the
weight is kept. -/
structure Moves (c : Clock) (amount ticks : Nat) (d : Clock) : Prop where
  exact : d.v * c.totalWeight + d.remainder = c.v * c.totalWeight + c.remainder + amount
  lt : d.remainder < c.totalWeight
  totalWeight : d.totalWeight = c.totalWeight
  accountedTicks : d.accountedTicks = c.accountedTicks + ticks

end Clock

end KernelAx.Eevdf
