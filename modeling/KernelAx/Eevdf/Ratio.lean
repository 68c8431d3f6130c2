import KernelAx.Eevdf.WideExact
import Mathlib.Data.Rat.Floor
import Mathlib.Data.Rat.Lemmas
import Mathlib.Data.Nat.Cast.Field
import Mathlib.Tactic.FieldSimp

/-!
# EEVDF — Ceilings of ratios

The checked divisions round up. Each is the ceiling of a rational number, whichever of its paths is
taken: machine words, a product staged bit by bit, or 256 bits.
-/

namespace KernelAx.Eevdf

open ModelError Wide

/-! ### Ceilings -/

theorem lt_of_le_maxU128 {n : Nat} (h : n ≤ maxU128) : n < 2 ^ 128 := by
  simp only [maxU128] at h
  omega

variable {d : Nat}

theorem ceil_div_natCast (n : Nat) (hd : 0 < d) :
    ⌈(n : ℚ) / d⌉₊ = n / d + if n % d = 0 then 0 else 1 := by
  have hq : (0 : ℚ) < d := by exact_mod_cast hd
  have hdm := Nat.div_add_mod n d
  have hlt := Nat.mod_lt n hd
  apply eq_of_forall_ge_iff
  intro m
  have hcast : (n : ℚ) ≤ m * d ↔ n ≤ d * m := by
    rw [Nat.mul_comm]
    exact_mod_cast Iff.rfl
  rw [Nat.ceil_le, div_le_iff₀ hq, hcast]
  generalize n / d = k at *
  generalize n % d = r at *
  split
  · rw [← hdm, ‹r = 0›, Nat.add_zero, Nat.add_zero]
    exact Nat.mul_le_mul_left_iff hd
  · rw [← hdm, Nat.succ_le_iff]
    constructor
    · intro h
      by_contra hge
      have := Nat.mul_le_mul_left d (not_lt.1 hge)
      omega
    · intro h
      have := Nat.mul_le_mul_left d (Nat.succ_le_iff.2 h)
      rw [Nat.mul_succ] at this
      omega

theorem ceil_ceil_div (x : ℚ) (hd : 0 < d) : ⌈(⌈x⌉₊ : ℚ) / d⌉₊ = ⌈x / d⌉₊ := by
  have hq : (0 : ℚ) < d := by exact_mod_cast hd
  apply eq_of_forall_ge_iff
  intro m
  have hcast : ((⌈x⌉₊ : ℕ) : ℚ) ≤ m * d ↔ ⌈x⌉₊ ≤ m * d := by exact_mod_cast Iff.rfl
  rw [Nat.ceil_le, Nat.ceil_le, div_le_iff₀ hq, div_le_iff₀ hq, hcast, Nat.ceil_le]
  push_cast
  rfl

theorem checkedCeilDiv_eq {n : Nat} (hn : n ≤ maxU128) (hd : 0 < d) :
    checkedCeilDiv n d = inU128 ⌈(n : ℚ) / d⌉₊ := by
  rw [checkedCeilDiv, if_neg hd.ne', ceil_div_natCast n hd]
  split
  · exact (inU128_of ((Nat.div_le_self n d).trans hn)).symm
  · rfl

theorem checkedMulDivCeil_eq {a b : Nat} (ha : a ≤ maxU128) (hb : b ≤ maxU128) (hd : d ≤ maxU128)
    (hpos : 0 < d) : checkedMulDivCeil a b d = inU128 ⌈((a * b : Nat) : ℚ) / d⌉₊ := by
  have hrem := checkedMulDivRem_eq (lt_of_le_maxU128 ha) (lt_of_le_maxU128 hb)
    (lt_of_le_maxU128 hd) hpos
  rw [checkedMulDivCeil, ceil_div_natCast _ hpos]
  by_cases hfit : a * b / d < 2 ^ 128
  · rw [if_pos hfit] at hrem
    simp only [hrem, bind, Except.bind]
    split
    · rw [Nat.add_zero, inU128_of (by simp only [maxU128]; omega)]
    · rfl
  · rw [if_neg hfit] at hrem
    simp only [hrem, bind, Except.bind]
    rw [inU128_neg]
    simp only [maxU128]
    omega

/-! ### Ratios of products -/

theorem cancel_spec (n : Nat) (hd : 0 < d) :
    ∃ n' d' g, cancel n d = (n', d') ∧ 0 < g ∧ 0 < d' ∧ n = g * n' ∧ d = g * d' ∧
      n'.Coprime d' := by
  have hg : 0 < n.gcd d := Nat.gcd_pos_of_pos_right n hd
  exact ⟨n / n.gcd d, d / n.gcd d, n.gcd d, rfl, hg, Nat.div_pos (Nat.gcd_le_right n hd) hg,
    (Nat.mul_div_cancel' (Nat.gcd_dvd_left n d)).symm,
    (Nat.mul_div_cancel' (Nat.gcd_dvd_right n d)).symm, Nat.coprime_div_gcd_div_gcd hg⟩

theorem wideCeil_eq {numerator denominator : Wide} (hn : numerator.Valid) (hd : denominator.Valid)
    (hpos : 0 < denominator.value) :
    (if (divLoop numerator denominator 256 zero zero).2 = zero then
        (divLoop numerator denominator 256 zero zero).1.lowU128
      else
        match (divLoop numerator denominator 256 zero zero).1.checkedAddOne with
        | some quotient => quotient.lowU128
        | none => .error arithmeticExhausted)
      = inU128 ⌈(numerator.value : ℚ) / denominator.value⌉₊ := by
  have hlt := hn.value_lt
  have hle := Nat.div_le_self numerator.value denominator.value
  obtain ⟨hqv, hrv, hqval, hrval⟩ := divLoop_spec hn hd hpos 256 valid_zero
    valid_zero (by rw [value_zero]; exact hpos)
    (by rw [value_zero, Nat.zero_mul, Nat.zero_add, Nat.zero_add, Nat.mod_eq_of_lt hlt]; omega)
  rw [value_zero, Nat.zero_mul, Nat.zero_add, Nat.zero_add, Nat.mod_eq_of_lt hlt] at hqval
  rw [value_zero, Nat.zero_mul, Nat.zero_add, Nat.mod_eq_of_lt hlt] at hrval
  generalize divLoop numerator denominator 256 zero zero = out at *
  obtain ⟨quotient, remainder⟩ := out
  dsimp only at *
  rw [ceil_div_natCast _ hpos]
  by_cases h0 : numerator.value % denominator.value = 0
  · rw [if_pos ((eq_zero_iff hrv).2 (hrval.trans h0)), if_pos h0, lowU128_eq hqv, hqval]
    rfl
  · have hdm := Nat.div_add_mod numerator.value denominator.value
    have hhalf : quotient.value + 1 < 2 ^ 256 := by
      have h2 : 2 ≤ denominator.value := by
        by_contra h1
        have : denominator.value = 1 := by omega
        rw [this, Nat.mod_one] at h0
        exact h0 rfl
      have hdiv : numerator.value / denominator.value ≤ numerator.value / 2 :=
        Nat.div_le_div_left h2 (by decide)
      omega
    obtain ⟨next, hnext, hnv, hnval⟩ := checkedAddOne_spec hqv hhalf
    rw [if_neg (fun h => h0 (hrval.symm.trans ((eq_zero_iff hrv).1 h))), if_neg h0, hnext]
    dsimp only
    rw [lowU128_eq hnv, hnval, hqval]

/-- **A ratio of products is exact**: whether or not the factors left after cancelling fit in a
machine word, the result is the ceiling of the ratio, as long as the numerator in lowest terms fits
in 256 bits. -/
theorem checkedRatioCeil_eq {n₀ n₁ n₂ d₀ d₁ : Nat} (hn₀ : n₀ ≤ maxU128) (hn₁ : n₁ ≤ maxU128)
    (hn₂ : n₂ ≤ maxU128) (hd₀ : d₀ ≤ maxU128) (hd₁ : d₁ ≤ maxU128) (hpos₀ : 0 < d₀)
    (hpos₁ : 0 < d₁) :
    checkedRatioCeil n₀ n₁ n₂ d₀ d₁ =
      if n₀ * n₁ * n₂ / (n₀ * n₁ * n₂).gcd (d₀ * d₁) < 2 ^ 256 then
        inU128 ⌈((n₀ * n₁ * n₂ : Nat) : ℚ) / (d₀ * d₁ : Nat)⌉₊
      else .error arithmeticExhausted := by
  obtain ⟨a₁, b₁, g₁, hc₁, hg₁, hb₁, ha₁, hd₁', hp₁⟩ := cancel_spec n₀ hpos₀
  obtain ⟨a₂, b₂, g₂, hc₂, hg₂, hb₂, ha₂, hd₂', hp₂⟩ := cancel_spec a₁ hpos₁
  obtain ⟨a₃, b₃, g₃, hc₃, hg₃, hb₃, ha₃, hd₃', hp₃⟩ := cancel_spec n₁ hb₁
  obtain ⟨a₄, b₄, g₄, hc₄, hg₄, hb₄, ha₄, hd₄', hp₄⟩ := cancel_spec a₃ hb₂
  obtain ⟨a₅, b₅, g₅, hc₅, hg₅, hb₅, ha₅, hd₅', hp₅⟩ := cancel_spec n₂ hb₃
  obtain ⟨a₆, b₆, g₆, hc₆, hg₆, hb₆, ha₆, hd₆', hp₆⟩ := cancel_spec a₅ hb₄
  simp only [checkedRatioCeil, hc₁, hc₂, hc₃, hc₄, hc₅, hc₆]
  have hle : ∀ {g n n' : Nat}, 0 < g → n = g * n' → n' ≤ n := by
    rintro g n n' hg rfl
    exact Nat.le_mul_of_pos_left n' hg
  have hA : a₂ ≤ maxU128 := (hle hg₂ ha₂).trans ((hle hg₁ ha₁).trans hn₀)
  have hB : a₄ ≤ maxU128 := (hle hg₄ ha₄).trans ((hle hg₃ ha₃).trans hn₁)
  have hC : a₆ ≤ maxU128 := (hle hg₆ ha₆).trans ((hle hg₅ ha₅).trans hn₂)
  have hD : b₅ ≤ maxU128 :=
    (hle hg₅ hd₅').trans ((hle hg₃ hd₃').trans ((hle hg₁ hd₁').trans hd₀))
  have hE : b₆ ≤ maxU128 :=
    (hle hg₆ hd₆').trans ((hle hg₄ hd₄').trans ((hle hg₂ hd₂').trans hd₁))
  -- what is left of each numerator has no factor in common with what is left of a denominator
  have hcoprime : (a₂ * a₄ * a₆).Coprime (b₅ * b₆) := by
    subst ha₂ ha₄ ha₆ hd₃' hd₄' hd₅' hd₆'
    simp only [Nat.coprime_mul_iff_left, Nat.coprime_mul_iff_right] at *
    tauto
  have hnum : n₀ * n₁ * n₂ = g₁ * g₂ * g₃ * g₄ * g₅ * g₆ * (a₂ * a₄ * a₆) := by
    rw [ha₁, ha₂, ha₃, ha₄, ha₅, ha₆]
    ring
  have hden : d₀ * d₁ = g₁ * g₂ * g₃ * g₄ * g₅ * g₆ * (b₅ * b₆) := by
    rw [hd₁', hd₂', hd₃', hd₄', hd₅', hd₆']
    ring
  have hg : 0 < g₁ * g₂ * g₃ * g₄ * g₅ * g₆ := by positivity
  rw [hnum, hden, Nat.gcd_mul_left, hcoprime.gcd_eq_one, Nat.mul_one, Nat.mul_div_cancel_left _ hg,
    Nat.cast_mul, Nat.cast_mul _ (b₅ * b₆), mul_div_mul_left _ _ (by exact_mod_cast hg.ne')]
  have hdpos : 0 < b₅ * b₆ := Nat.mul_pos hb₅ hb₆
  by_cases hnarrow : a₂ * a₄ ≤ maxU128 ∧ a₂ * a₄ * a₆ ≤ maxU128 ∧ b₅ * b₆ ≤ maxU128
  · rw [if_pos hnarrow, checkedCeilDiv_eq hnarrow.2.1 hdpos,
      if_pos ((lt_of_le_maxU128 hnarrow.2.1).trans (by norm_num))]
  · obtain ⟨left, hleft, hlv, hlval⟩ := mulU128_spec (lt_of_le_maxU128 hA) (lt_of_le_maxU128 hB)
    obtain ⟨den, hdeneq, hdv, hdval⟩ := mulU128_spec (lt_of_le_maxU128 hD) (lt_of_le_maxU128 hE)
    have hproduct := mul_spec hlv (lt_of_le_maxU128 hC)
    rw [hlval] at hproduct
    rw [if_neg hnarrow, hleft, Option.bind_some, hdeneq]
    by_cases hfits : a₂ * a₄ * a₆ < 2 ^ 256
    · rw [if_pos hfits] at hproduct ⊢
      obtain ⟨num, hnumeq, hnv, hnval⟩ := hproduct
      have hceil := wideCeil_eq hnv hdv (by rw [hdval]; exact hdpos)
      rw [hnval, hdval] at hceil
      rw [hnumeq]
      dsimp only
      generalize divLoop num den 256 zero zero = out at hceil ⊢
      exact hceil
    · rw [if_neg hfits] at hproduct ⊢
      rw [hproduct]

/-- **Wide division is exact.**  A product divided by a machine word gives the quotient and the
remainder, and a ratio of three factors to two gives its ceiling. The first fails only if the
quotient does not fit in a machine word, the second also if the numerator in lowest terms does not
fit in 256 bits. -/
theorem wide_division_exact :
    (∀ a b d : Nat, a ≤ maxU128 → b ≤ maxU128 → d ≤ maxU128 → 0 < d →
      checkedMulDivRem a b d =
        if a * b / d < 2 ^ 128 then .ok (a * b / d, a * b % d) else .error arithmeticExhausted) ∧
    ∀ n₀ n₁ n₂ d₀ d₁ : Nat, n₀ ≤ maxU128 → n₁ ≤ maxU128 → n₂ ≤ maxU128 → d₀ ≤ maxU128 →
      d₁ ≤ maxU128 → 0 < d₀ → 0 < d₁ →
      checkedRatioCeil n₀ n₁ n₂ d₀ d₁ =
        if n₀ * n₁ * n₂ / (n₀ * n₁ * n₂).gcd (d₀ * d₁) < 2 ^ 256 ∧
            ⌈((n₀ * n₁ * n₂ : Nat) : ℚ) / (d₀ * d₁ : Nat)⌉₊ < 2 ^ 128 then
          .ok ⌈((n₀ * n₁ * n₂ : Nat) : ℚ) / (d₀ * d₁ : Nat)⌉₊
        else .error arithmeticExhausted := by
  refine ⟨fun a b d ha hb hd hpos => ?_, fun n₀ n₁ n₂ d₀ d₁ hn₀ hn₁ hn₂ hd₀ hd₁ hpos₀ hpos₁ => ?_⟩
  · exact checkedMulDivRem_eq (lt_of_le_maxU128 ha) (lt_of_le_maxU128 hb) (lt_of_le_maxU128 hd) hpos
  · rw [checkedRatioCeil_eq hn₀ hn₁ hn₂ hd₀ hd₁ hpos₀ hpos₁, ite_and]
    generalize ⌈((n₀ * n₁ * n₂ : Nat) : ℚ) / (d₀ * d₁ : Nat)⌉₊ = v
    have hv : v ≤ maxU128 ↔ v < 2 ^ 128 := Nat.le_sub_one_iff_lt (by positivity)
    simp only [inU128, hv]

/-- A product of 256 bits, and a ratio that cancels one factor of three and is staged. -/
theorem wide_division_exact_staged :
    checkedMulDivRem maxU128 maxU128 maxU128 = .ok (maxU128, 0) ∧
      checkedRatioCeil (2 ^ 127) (2 ^ 127) 3 (3 ^ 80) (5 ^ 54) = .ok 11 := by
  obtain ⟨hdiv, hratio⟩ := wide_division_exact
  refine ⟨?_, ?_⟩
  · rw [hdiv maxU128 maxU128 maxU128 le_rfl le_rfl le_rfl (by decide)]
    decide
  · rw [hratio (2 ^ 127) (2 ^ 127) 3 (3 ^ 80) (5 ^ 54) (by decide) (by decide) (by decide)
      (by decide) (by decide) (by decide) (by decide), ceil_div_natCast _ (by decide)]
    decide

end KernelAx.Eevdf
