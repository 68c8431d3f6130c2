import KernelAx.Eevdf.Model
import KernelAx.Eevdf.Ratio
import Mathlib.Tactic.LinearCombination

/-!
# EEVDF — Request progress is an exact rational

A request stores what is left of it as a fraction in lowest terms, with two ceilings beside it.
Here the fraction is a rational number, and every operation on the request is that operation on the
rational, as long as its denominator is a machine word.
-/

namespace KernelAx.Eevdf

open ModelError

/-! ### The fraction -/

variable {f : ℚ}

/-- A rational given in lowest terms. -/
theorem num_den_of_coprime {n d : Nat} (hd : 0 < d) (hc : n.Coprime d) (hf : f = (n : ℚ) / d) :
    f.num.toNat = n ∧ f.den = d := by
  have hd' : (0 : Int) < d := by exact_mod_cast hd
  have hnum := Rat.num_div_eq_of_coprime (a := n) hd' (by simpa using hc)
  have hden := Rat.den_div_eq_of_coprime (a := n) hd' (by simpa using hc)
  simp only [Int.cast_natCast] at hnum hden
  rw [hf]
  exact ⟨by rw [hnum, Int.toNat_natCast], by exact_mod_cast hden⟩

theorem div_gcd_ratio (n : Nat) {d : Nat} (hd : 0 < d) :
    (n : ℚ) / d = ((n / n.gcd d : Nat) : ℚ) / (d / n.gcd d : Nat) := by
  have hg : ((n.gcd d : Nat) : ℚ) ≠ 0 := by exact_mod_cast (Nat.gcd_pos_of_pos_right n hd).ne'
  rw [Nat.cast_div (Nat.gcd_dvd_left n d) hg, Nat.cast_div (Nat.gcd_dvd_right n d) hg]
  field_simp

theorem num_toNat_div_den (h : 0 ≤ f) : (f.num.toNat : ℚ) / f.den = f := by
  have hnum : ((f.num.toNat : Int) : ℚ) = f.num := by
    rw [Int.toNat_of_nonneg (Rat.num_nonneg.2 h)]
  rw [Int.cast_natCast] at hnum
  rw [hnum, Rat.num_div_den]

theorem num_toNat_le_den (h1 : f ≤ 1) : f.num.toNat ≤ f.den := by
  have := Rat.num_le_denom_iff.2 h1
  omega

namespace Request

/-- What is left of the request. -/
def fraction (r : Request) : ℚ := r.remainingFractionNum / r.remainingFractionDen

def withFraction (r : Request) (f : ℚ) : Request :=
  { r with
    remainingFractionNum := f.num.toNat
    remainingFractionDen := f.den
    remainingWork := ⌈f * r.q * work⌉₊
    remainingTicks := ⌈f * r.q⌉₊ }

theorem fraction_withFraction (r : Request) {f : ℚ} (h : 0 ≤ f) : (r.withFraction f).fraction = f :=
  num_toNat_div_den h

theorem work_pos' : 0 < work := by decide

theorem work_pos : (0 : ℚ) < work := by exact_mod_cast work_pos'

variable {d n q amount : Nat} {r r' : Request} {saturating : Bool}

/-- The fractional ticks, brought to work. -/
theorem fractionalWork_eq {part : Nat} (hpart : part < d) (hd : d ≤ maxU128) :
    (if part = 0 then .ok 0 else checkedMulDivCeil part work d)
      = .ok ⌈((part * work : Nat) : ℚ) / d⌉₊ := by
  have hdq : (0 : ℚ) < d := by exact_mod_cast (by omega : 0 < d)
  split
  · rename_i h
    simp [h]
  · have hle : ⌈((part * work : Nat) : ℚ) / d⌉₊ ≤ work := by
      rw [Nat.ceil_le, div_le_iff₀ hdq]
      have := Nat.mul_le_mul_right work hpart.le
      rw [Nat.mul_comm d] at this
      exact_mod_cast this
    rw [checkedMulDivCeil_eq (by omega) (by decide) hd (by omega),
      inU128_of (hle.trans (by decide))]

/-- Whole ticks and fractional work make up the ceiling. -/
theorem ceil_work_split (hd : 0 < d) (q : Nat) :
    ⌈(n : ℚ) / d * q * work⌉₊ = n * q / d * work + ⌈((n * q % d * work : Nat) : ℚ) / d⌉₊ := by
  have hdq : (0 : ℚ) < d := by exact_mod_cast hd
  have hdm : ((d * (n * q / d) + n * q % d : Nat) : ℚ) = (n * q : Nat) :=
    congrArg _ (Nat.div_add_mod _ _)
  have hval : (n : ℚ) / d * q * work
      = ((n * q % d * work : Nat) : ℚ) / d + (n * q / d * work : Nat) := by
    push_cast at hdm ⊢
    field_simp
    linear_combination (-(work : ℚ)) * hdm
  rw [hval, Nat.ceil_add_natCast (by positivity), Nat.add_comm]

theorem ceil_ticks {x : ℚ} : ⌈((⌈x * work⌉₊ : Nat) : ℚ) / work⌉₊ = ⌈x⌉₊ := by
  rw [ceil_ceil_div _ work_pos', mul_div_assoc, div_self work_pos.ne', mul_one]

theorem ceil_le_ceil_work {x : ℚ} (h : 0 ≤ x) : ⌈x⌉₊ ≤ ⌈x * work⌉₊ :=
  Nat.ceil_le_ceil (le_mul_of_one_le_right h (by norm_num [work, nice0, one]))

/-- **The projection is the ceiling of what is left.** -/
theorem projection_eq {f : ℚ} (hq : 0 < q) (hqle : q ≤ maxU128) (h0 : 0 ≤ f) (h1 : f ≤ 1)
    (hden : f.den ≤ maxU128) :
    projection q f.num.toNat f.den = (inU128 ⌈f * q * work⌉₊).map fun w => (w, ⌈f * q⌉₊) := by
  have hle := num_toNat_le_den h1
  have hsum := ceil_work_split (n := f.num.toNat) f.den_pos q
  rw [num_toNat_div_den h0] at hsum
  have hpos := f.den_pos
  generalize f.num.toNat = n at *
  generalize f.den = d at *
  have hwhole : n * q / d ≤ q := Nat.div_le_of_le_mul (Nat.mul_le_mul_right q hle)
  have hrem := checkedMulDivRem_eq (lt_of_le_maxU128 (hle.trans hden)) (lt_of_le_maxU128 hqle)
    (lt_of_le_maxU128 hden) hpos
  rw [if_pos (lt_of_le_maxU128 (hwhole.trans hqle))] at hrem
  unfold projection
  rw [if_neg (by omega), hrem]
  rw [ok_bind]
  dsimp only
  rw [fractionalWork_eq (Nat.mod_lt (n * q) hpos) hden, ok_bind]
  by_cases hfit : ⌈f * q * work⌉₊ ≤ maxU128
  · have hticks : ⌈f * q⌉₊ ≤ maxU128 := (ceil_le_ceil_work (by positivity)).trans hfit
    rw [inU128_of (by omega : n * q / d * work ≤ maxU128), ok_bind, ← hsum, inU128_of hfit, ok_bind,
      checkedCeilDiv_eq hfit work_pos', ceil_ticks, inU128_of hticks, ok_bind, Except.map]
  · rw [inU128_neg hfit, Except.map]
    by_cases hw : n * q / d * work ≤ maxU128
    · rw [inU128_of hw, ok_bind, ← hsum, inU128_neg hfit, error_bind]
    · rw [inU128_neg hw, error_bind]

theorem setFraction_eq (hq : 0 < r.q) (hqle : r.q ≤ maxU128) (hd : 0 < d) (hle : n ≤ d)
    (hdle : d ≤ maxU128) :
    r.setFraction n d
      = (inU128 ⌈(n : ℚ) / d * r.q * work⌉₊).map fun _ => r.withFraction ((n : ℚ) / d) := by
  have hdq : (0 : ℚ) < d := by exact_mod_cast hd
  have hgcd : 0 < n.gcd d := Nat.gcd_pos_of_pos_right n hd
  obtain ⟨hnum, hden⟩ := num_den_of_coprime (Nat.div_pos (Nat.gcd_le_right n hd) hgcd)
    (Nat.coprime_div_gcd_div_gcd hgcd) (div_gcd_ratio n hd)
  have hone : (n : ℚ) / d ≤ 1 := by
    rw [div_le_one hdq]
    exact_mod_cast hle
  have hdenle : ((n : ℚ) / d).den ≤ maxU128 := by
    rw [hden]
    exact (Nat.div_le_self _ _).trans hdle
  have hproj := projection_eq hq hqle (by positivity) hone hdenle
  simp only [setFraction, if_neg hgcd.ne', ← hnum, ← hden, hproj]
  cases hw : inU128 ⌈(n : ℚ) / d * r.q * work⌉₊ with
  | error e => rfl
  | ok w =>
    obtain ⟨rfl, -⟩ := inU128_ok hw
    rfl

/-! ### Exact requests -/

/-- The stored fields are those of a fraction between zero and one, and machine words. -/
structure Exact (r : Request) : Prop where
  eq : r.withFraction r.fraction = r
  le_one : r.fraction ≤ 1
  den_le : r.remainingFractionDen ≤ maxU128
  q_pos : 0 < r.q
  q_le : r.q ≤ maxU128
  work_le : r.remainingWork ≤ maxU128

theorem fraction_nonneg (r : Request) : 0 ≤ r.fraction := by
  unfold fraction
  positivity

namespace Exact

variable {r : Request}

section

variable (hr : r.Exact)
include hr

theorem num_eq : r.fraction.num.toNat = r.remainingFractionNum :=
  congrArg remainingFractionNum hr.eq

theorem den_eq : r.fraction.den = r.remainingFractionDen :=
  congrArg remainingFractionDen hr.eq

theorem work_eq : ⌈r.fraction * r.q * work⌉₊ = r.remainingWork :=
  congrArg remainingWork hr.eq

theorem ticks_eq : ⌈r.fraction * r.q⌉₊ = r.remainingTicks :=
  congrArg remainingTicks hr.eq

theorem den_pos : 0 < r.remainingFractionDen := by
  rw [← hr.den_eq]
  exact r.fraction.den_pos

theorem coprime : r.remainingFractionNum.Coprime r.remainingFractionDen := by
  have hnonneg := Rat.num_nonneg.2 r.fraction_nonneg
  have habs : r.fraction.num.toNat = r.fraction.num.natAbs := by omega
  rw [← hr.num_eq, ← hr.den_eq, habs]
  exact r.fraction.reduced

theorem num_le_den : r.remainingFractionNum ≤ r.remainingFractionDen := by
  rw [← hr.num_eq, ← hr.den_eq]
  exact num_toNat_le_den hr.le_one

theorem exactValid : r.exactValid = .ok () := by
  have hproj := projection_eq hr.q_pos hr.q_le r.fraction_nonneg hr.le_one
    (hr.den_eq.le.trans hr.den_le)
  rw [hr.num_eq, hr.den_eq, hr.work_eq, hr.ticks_eq, inU128_of hr.work_le] at hproj
  unfold Request.exactValid
  rw [hproj, Except.map, ok_bind]
  dsimp only
  rw [if_neg (by simp)]

/-- Less may be left, as long as the denominator is a machine word. -/
theorem withFraction {f : ℚ} (h0 : 0 ≤ f) (hle : f ≤ r.fraction)
    (hden : f.den ≤ maxU128) : (r.withFraction f).Exact where
  eq := by
    rw [fraction_withFraction r h0]
    rfl
  le_one := by
    rw [fraction_withFraction r h0]
    exact hle.trans hr.le_one
  den_le := hden
  __ := hr
  work_le := by
    refine le_trans (Nat.ceil_le_ceil ?_) (hr.work_eq.le.trans hr.work_le)
    gcongr

end

end Exact

/-! ### Service -/

theorem serviceDifference_eq {num rightDen serviceNum leftDen g : Nat} (hn : num ≤ maxU128)
    (hr : rightDen ≤ maxU128) (hs : serviceNum ≤ maxU128) (hl : leftDen ≤ maxU128)
    (hg : g ≤ maxU128) (hpos : 0 < g) (hle : serviceNum * leftDen ≤ num * rightDen) :
    serviceDifference num rightDen serviceNum leftDen g
      = (inU128 ((num * rightDen - serviceNum * leftDen)
            / (num * rightDen - serviceNum * leftDen).gcd g)).map
          fun n => (n, (num * rightDen - serviceNum * leftDen).gcd g) := by
  unfold serviceDifference
  by_cases hnarrow : num * rightDen ≤ maxU128 ∧ serviceNum * leftDen ≤ maxU128
  · rw [if_pos hnarrow, if_neg (not_lt.2 hle), inU128_of, Except.map]
    exact (Nat.div_le_self _ _).trans ((Nat.sub_le _ _).trans hnarrow.1)
  · obtain ⟨left, hleft, hlv, hlval⟩ :=
      Wide.mulU128_spec (lt_of_le_maxU128 hn) (lt_of_le_maxU128 hr)
    obtain ⟨right, hright, hrv, hrval⟩ :=
      Wide.mulU128_spec (lt_of_le_maxU128 hs) (lt_of_le_maxU128 hl)
    have hcmp : ¬ left.cmp right = .lt := by
      rw [Wide.cmp_lt_iff hlv hrv, hlval, hrval]
      exact not_lt.2 hle
    obtain ⟨hdv, hdval⟩ := Wide.wrappingSub_spec hlv hrv (by rw [hlval, hrval]; exact hle)
    rw [hlval, hrval] at hdval
    rw [if_neg hnarrow, hleft, hright]
    dsimp only
    rw [if_neg hcmp]
    generalize num * rightDen - serviceNum * leftDen = n at *
    have hgcd : (if g = 1 then .ok 1 else do
        let leftMod ← (left.wrappingSub right).remU128 g
        .ok (Nat.gcd leftMod g) : Except ModelError Nat) = .ok (n.gcd g) := by
      split
      · rename_i h
        rw [h, Nat.gcd_one_right]
      · rw [Wide.remU128_eq hdv hpos (lt_of_le_maxU128 hg), ok_bind, hdval, Nat.gcd_comm n g,
          Nat.gcd_rec g n]
    have hgpos : 0 < n.gcd g := Nat.gcd_pos_of_pos_right n hpos
    obtain ⟨out, hout, houtv, houtval⟩ := Wide.divExactU128_spec hdv hgpos
      (lt_of_le_of_lt (Nat.gcd_le_right n hpos) (lt_of_le_maxU128 hg))
      (by rw [hdval]; exact Nat.gcd_dvd_left n g)
    rw [hgcd, ok_bind, hout, ok_bind, Wide.lowU128_eq houtv, houtval, hdval]
    rfl

/-- The difference of two fractions in lowest terms, with `g` the greatest common divisor of their
denominators: a common factor of the cross difference and the common denominator divides `g`. -/
theorem sub_in_lowest_terms {s l m g diff : Nat} (hg : 0 < g) (hl : 0 < l) (hm : 0 < m)
    (hlm : l.Coprime m) (hn : n.Coprime (g * l)) (hs : s.Coprime (g * m))
    (hadd : diff + s * l = n * m) :
    ((n : ℚ) / (g * l : Nat) - (s : ℚ) / (g * m : Nat)).num.toNat = diff / diff.gcd g ∧
      ((n : ℚ) / (g * l : Nat) - (s : ℚ) / (g * m : Nat)).den = l * (g / diff.gcd g) * m := by
  have hnl : n.Coprime l := Nat.Coprime.coprime_mul_left_right hn
  have hsm : s.Coprime m := Nat.Coprime.coprime_mul_left_right hs
  have hdiffl : diff.Coprime l := by
    rw [← Nat.coprime_add_mul_right_left _ _ s, hadd]
    exact hnl.mul_left hlm.symm
  have hdiffm : diff.Coprime m := by
    have hdvd : diff.gcd m ∣ s * l := by
      rw [← Nat.dvd_add_right (Nat.gcd_dvd_left diff m), hadd]
      exact (Nat.gcd_dvd_right diff m).mul_left n
    have hcop : (s * l).Coprime m := hsm.mul_left hlm
    exact Nat.dvd_one.1 (hcop ▸ Nat.dvd_gcd hdvd (Nat.gcd_dvd_right diff m))
  obtain ⟨k, hk⟩ : diff.gcd g ∣ g := Nat.gcd_dvd_right diff g
  obtain ⟨c, hc⟩ : diff.gcd g ∣ diff := Nat.gcd_dvd_left diff g
  have hh : 0 < diff.gcd g := Nat.gcd_pos_of_pos_right diff hg
  have hcop := Nat.coprime_div_gcd_div_gcd hh
  generalize diff.gcd g = h at *
  have hkpos : 0 < k := Nat.pos_of_ne_zero (by rintro rfl; omega)
  have hgk : g / h = k := by rw [hk, Nat.mul_div_cancel_left k hh]
  have hdc : diff / h = c := by rw [hc, Nat.mul_div_cancel_left c hh]
  rw [hgk, hdc] at hcop ⊢
  have hcd : c ∣ diff := Dvd.intro_left h hc.symm
  refine num_den_of_coprime (Nat.mul_pos (Nat.mul_pos hl hkpos) hm) ?_ ?_
  · exact ((hdiffl.coprime_dvd_left hcd).mul_right hcop).mul_right (hdiffm.coprime_dvd_left hcd)
  · have hadd' : ((diff + s * l : Nat) : ℚ) = (n * m : Nat) := congrArg _ hadd
    have hhq : (0 : ℚ) < h := by exact_mod_cast hh
    have hkq : (0 : ℚ) < k := by exact_mod_cast hkpos
    have hlq : (0 : ℚ) < l := by exact_mod_cast hl
    have hmq : (0 : ℚ) < m := by exact_mod_cast hm
    rw [hk]
    rw [hc] at hadd'
    push_cast at hadd' ⊢
    field_simp
    linear_combination -hadd'

/-- What is left after service. -/
def served (r : Request) (amount : Nat) : ℚ := max 0 (r.fraction - amount / (r.q * work))

/-- The difference of the two fractions, put back into the request. -/
theorem Exact.subtract_eq (hr : r.Exact) {sn sd : Nat} (hsd : 0 < sd) (hcop : sn.Coprime sd)
    (hsnle : sn ≤ maxU128) (hsdle : sd ≤ maxU128) (hle : (sn : ℚ) / sd ≤ r.fraction) :
    (do
      let (numerator, reducedGcd) ←
        serviceDifference r.remainingFractionNum (sd / r.remainingFractionDen.gcd sd) sn
          (r.remainingFractionDen / r.remainingFractionDen.gcd sd) (r.remainingFractionDen.gcd sd)
      let partialDen ← inU128 (r.remainingFractionDen / r.remainingFractionDen.gcd sd
        * (r.remainingFractionDen.gcd sd / reducedGcd))
      let denominator ← inU128 (partialDen * (sd / r.remainingFractionDen.gcd sd))
      r.setFraction numerator denominator)
      = if (r.fraction - (sn : ℚ) / sd).den ≤ maxU128 then
          .ok (r.withFraction (r.fraction - (sn : ℚ) / sd))
        else .error arithmeticExhausted := by
  have hcopr := hr.coprime
  have hnle := hr.num_le_den.trans hr.den_le
  have hf0 : 0 ≤ r.fraction - (sn : ℚ) / sd := sub_nonneg.2 hle
  have hf1 : r.fraction - (sn : ℚ) / sd ≤ r.fraction := sub_le_self _ (by positivity)
  have hfrac : r.fraction = (r.remainingFractionNum : ℚ) / r.remainingFractionDen := rfl
  have hdenle := hr.den_le
  have hg : 0 < r.remainingFractionDen.gcd sd := Nat.gcd_pos_of_pos_left sd hr.den_pos
  have hlm := Nat.coprime_div_gcd_div_gcd hg
  have hgle : r.remainingFractionDen.gcd sd ≤ maxU128 := (Nat.gcd_le_right _ hsd).trans hsdle
  obtain ⟨l, hl⟩ : r.remainingFractionDen.gcd sd ∣ r.remainingFractionDen := Nat.gcd_dvd_left _ _
  obtain ⟨m, hm⟩ : r.remainingFractionDen.gcd sd ∣ sd := Nat.gcd_dvd_right _ _
  have hdl := Nat.div_eq_of_eq_mul_right hg hl
  have hsm := Nat.div_eq_of_eq_mul_right hg hm
  rw [hdl, hsm] at hlm ⊢
  have hlpos : 0 < l := Nat.pos_of_ne_zero (by rintro rfl; have := hr.den_pos; omega)
  have hmpos : 0 < m := Nat.pos_of_ne_zero (by rintro rfl; omega)
  generalize r.remainingFractionDen.gcd sd = g at *
  have hcross : sn * l ≤ r.remainingFractionNum * m := by
    have hgq : (0 : ℚ) < g := by exact_mod_cast hg
    have hlq : (0 : ℚ) < l := by exact_mod_cast hlpos
    have hmq : (0 : ℚ) < m := by exact_mod_cast hmpos
    rw [hfrac, hl, hm, div_le_div_iff₀ (by positivity) (by positivity)] at hle
    have hle' : sn * (g * l) ≤ r.remainingFractionNum * (g * m) := by exact_mod_cast hle
    rw [Nat.mul_left_comm, Nat.mul_left_comm r.remainingFractionNum] at hle'
    exact Nat.le_of_mul_le_mul_left hle' hg
  obtain ⟨hnum, hden⟩ := sub_in_lowest_terms hg hlpos hmpos hlm (by rwa [← hl]) (by rwa [← hm])
    (Nat.sub_add_cancel hcross)
  rw [← hl, ← hm, ← hfrac] at hnum hden
  have hlle : l ≤ maxU128 := (Nat.le_mul_of_pos_left l hg).trans (hl ▸ hdenle)
  have hmle : m ≤ maxU128 := (Nat.le_mul_of_pos_left m hg).trans (hm ▸ hsdle)
  rw [serviceDifference_eq hnle hmle hsnle hlle hgle hg hcross, ← hnum]
  generalize (r.remainingFractionNum * m - sn * l).gcd g = h at *
  by_cases hfit : (r.fraction - (sn : ℚ) / sd).den ≤ maxU128
  · have hnumle := (num_toNat_le_den (hf1.trans hr.le_one)).trans hfit
    rw [if_pos hfit, inU128_of hnumle, Except.map, ok_bind]
    dsimp only
    have hpart : l * (g / h) ≤ maxU128 := by
      refine le_trans ?_ hfit
      rw [hden]
      exact Nat.le_mul_of_pos_right _ hmpos
    rw [inU128_of hpart, ok_bind, ← hden, inU128_of hfit, ok_bind,
      setFraction_eq hr.q_pos hr.q_le (Rat.den_pos _) (num_toNat_le_den (hf1.trans hr.le_one)) hfit,
      num_toNat_div_den hf0]
    have hwork : ⌈(r.fraction - (sn : ℚ) / sd) * r.q * work⌉₊ ≤ maxU128 :=
      (hr.withFraction hf0 hf1 hfit).work_le
    rw [inU128_of hwork, Except.map]
  · rw [if_neg hfit]
    by_cases hnumle : (r.fraction - (sn : ℚ) / sd).num.toNat ≤ maxU128
    · rw [inU128_of hnumle, Except.map, ok_bind]
      dsimp only
      by_cases hpart : l * (g / h) ≤ maxU128
      · rw [inU128_of hpart, ok_bind, ← hden, inU128_neg hfit, error_bind]
      · rw [inU128_neg hpart, error_bind]
    · rw [inU128_neg hnumle, Except.map, error_bind]

theorem Exact.setFraction_zero (hr : r.Exact) : r.setFraction 0 1 = .ok (r.withFraction 0) := by
  rw [setFraction_eq hr.q_pos hr.q_le Nat.one_pos (Nat.zero_le _) (by decide)]
  simp only [Nat.cast_zero, zero_div, zero_mul, Nat.ceil_zero]
  rfl

/-- The comparison with what is left, by a floor. -/
theorem Exact.lt_iff (hr : r.Exact) {s D : Nat} (hD : 0 < D) :
    r.remainingFractionNum * D / r.remainingFractionDen < s ↔ r.fraction < (s : ℚ) / D := by
  have hDq : (0 : ℚ) < D := by exact_mod_cast hD
  have hdq : (0 : ℚ) < r.remainingFractionDen := by exact_mod_cast hr.den_pos
  rw [Nat.div_lt_iff_lt_mul hr.den_pos, fraction, div_lt_div_iff₀ hdq hDq]
  exact_mod_cast Iff.rfl

theorem Exact.fraction_eq (hr : r.Exact) {D : Nat} (hD : 0 < D)
    (hrem : r.remainingFractionNum * D % r.remainingFractionDen = 0) :
    r.fraction = ((r.remainingFractionNum * D / r.remainingFractionDen : Nat) : ℚ) / D := by
  have hDq : (0 : ℚ) < D := by exact_mod_cast hD
  have hdq : (0 : ℚ) < r.remainingFractionDen := by exact_mod_cast hr.den_pos
  have hdm := Nat.div_add_mod (r.remainingFractionNum * D) r.remainingFractionDen
  rw [hrem, Nat.add_zero] at hdm
  have hdm' : (r.remainingFractionDen : ℚ)
      * (r.remainingFractionNum * D / r.remainingFractionDen : Nat)
      = r.remainingFractionNum * D := by exact_mod_cast hdm
  rw [fraction, div_eq_div_iff hdq.ne' hDq.ne']
  linarith

/-- Work is counted in units of nice zero. -/
theorem amount_ratio (hmul : amount % nice0 = 0) :
    (amount : ℚ) / (q * work) = ((amount / nice0 : Nat) : ℚ) / (q * one : Nat) := by
  have hdm := Nat.div_add_mod amount nice0
  rw [hmul, Nat.add_zero] at hdm
  have hcast : (amount : ℚ) = nice0 * (amount / nice0 : Nat) := by exact_mod_cast hdm.symm
  have hnice : (nice0 : ℚ) ≠ 0 := by norm_num [nice0]
  rw [hcast, work]
  push_cast
  rw [mul_left_comm (q : ℚ), mul_div_mul_left _ _ hnice]

/-- **Service in closed form.**  It takes `amount / (q * work)` from what is left, down to zero, and
fails only where the denominator does not fit. -/
theorem Exact.nextAfterService_eq (hr : r.Exact) (ha : amount ≤ maxU128)
    (hmul : amount % nice0 = 0) (hq : r.q * one ≤ maxU128) (saturating : Bool) :
    r.nextAfterService amount saturating
      = if r.fraction < amount / (r.q * work) ∧ saturating = false then .error invalidState
        else if (r.served amount).den ≤ maxU128 then .ok (r.withFraction (r.served amount))
        else .error arithmeticExhausted := by
  have hD : 0 < r.q * one := Nat.mul_pos hr.q_pos (by decide)
  have hfloor : r.remainingFractionNum * (r.q * one) / r.remainingFractionDen ≤ maxU128 :=
    (Nat.div_le_of_le_mul (Nat.mul_le_mul_right _ hr.num_le_den)).trans hq
  have hrem := checkedMulDivRem_eq (lt_of_le_maxU128 (hr.num_le_den.trans hr.den_le))
    (lt_of_le_maxU128 hq) (lt_of_le_maxU128 hr.den_le) hr.den_pos
  rw [if_pos (lt_of_le_maxU128 hfloor)] at hrem
  have hden0 : (0 : ℚ).den ≤ maxU128 := by decide
  unfold nextAfterService served
  rw [amount_ratio hmul, hr.exactValid, ok_bind, if_neg (by simp [hmul])]
  dsimp only
  rw [inU128_of hq, ok_bind, hrem, ok_bind]
  dsimp only
  have hsle : amount / nice0 ≤ maxU128 := (Nat.div_le_self _ _).trans ha
  generalize amount / nice0 = s at hsle ⊢
  rcases lt_or_ge r.fraction ((s : ℚ) / (r.q * one : Nat)) with hlt | hge
  · rw [if_pos ((hr.lt_iff hD).2 hlt), max_eq_left (by linarith)]
    cases saturating with
    | true =>
      rw [if_pos rfl, if_neg (by simp), if_pos hden0]
      exact hr.setFraction_zero
    | false => rw [if_neg (by simp), if_pos ⟨hlt, rfl⟩]
  have hnot : ¬ (r.fraction < (s : ℚ) / (r.q * one : Nat) ∧ saturating = false) :=
    fun h => not_lt.2 hge h.1
  rw [if_neg (fun h => not_lt.2 hge ((hr.lt_iff hD).1 h)), if_neg hnot,
    max_eq_right (sub_nonneg.2 hge)]
  by_cases hexact : s = r.remainingFractionNum * (r.q * one) / r.remainingFractionDen ∧
      r.remainingFractionNum * (r.q * one) % r.remainingFractionDen = 0
  · have hzero : r.fraction - (s : ℚ) / (r.q * one : Nat) = 0 := by
      rw [hexact.1, ← hr.fraction_eq hD hexact.2, sub_self]
    rw [if_pos hexact, hzero, if_pos hden0]
    exact hr.setFraction_zero
  rw [if_neg hexact]
  by_cases h0 : s = 0
  · rw [if_pos h0, h0, Nat.cast_zero, zero_div, sub_zero, if_pos (hr.den_eq.le.trans hr.den_le),
      hr.eq]
  rw [if_neg h0]
  -- both fractions are in lowest terms from here on
  have hsg : 0 < s.gcd (r.q * one) := Nat.gcd_pos_of_pos_right s hD
  have hcop := Nat.coprime_div_gcd_div_gcd hsg
  have hred : (s : ℚ) / (r.q * one : Nat)
      = ((s / s.gcd (r.q * one) : Nat) : ℚ) / (r.q * one / s.gcd (r.q * one) : Nat) :=
    div_gcd_ratio s hD
  rw [hred] at hge ⊢
  exact hr.subtract_eq (Nat.div_pos (Nat.gcd_le_right s hD) hsg) hcop
    ((Nat.div_le_self _ _).trans hsle) ((Nat.div_le_self _ _).trans hq) hge

/-- What a successful service was and did. -/
theorem Exact.nextAfterService_ok (hr : r.Exact) (ha : amount ≤ maxU128)
    (h : r.nextAfterService amount saturating = .ok r') :
    amount % nice0 = 0 ∧ r.q * one ≤ maxU128 ∧
      (saturating = false → amount / (r.q * work) ≤ r.fraction) ∧
      (r.served amount).den ≤ maxU128 ∧ r' = r.withFraction (r.served amount) := by
  by_cases hmul : amount % nice0 = 0
  · by_cases hq : r.q * one ≤ maxU128
    · rw [hr.nextAfterService_eq ha hmul hq] at h
      split at h
      · cases h
      rename_i hle
      split at h
      · cases h
        exact ⟨hmul, hq, fun hs => not_lt.1 fun hlt => hle ⟨hlt, hs⟩, ‹_›, rfl⟩
      · cases h
    · rw [nextAfterService, hr.exactValid, ok_bind, if_neg (by simp [hmul])] at h
      dsimp only at h
      rw [inU128_neg hq, error_bind] at h
      cases h
  · rw [nextAfterService, hr.exactValid, ok_bind, if_pos hmul] at h
    cases h

/-- **When service succeeds**: whole units, and a denominator that fits. -/
theorem Exact.nextAfterService_ok_iff (hr : r.Exact) (ha : amount ≤ maxU128) :
    (∃ r', r.nextAfterService amount true = .ok r') ↔
      amount % nice0 = 0 ∧ r.q * one ≤ maxU128 ∧ (r.served amount).den ≤ maxU128 := by
  constructor
  · rintro ⟨r', h⟩
    obtain ⟨hmul, hq, -, hden, -⟩ := hr.nextAfterService_ok ha h
    exact ⟨hmul, hq, hden⟩
  · rintro ⟨hmul, hq, hden⟩
    rw [hr.nextAfterService_eq ha hmul hq, if_neg (by simp), if_pos hden]
    exact ⟨_, rfl⟩

theorem served_nonneg (r : Request) (amount : Nat) : 0 ≤ r.served amount := le_max_left _ _

theorem served_le (r : Request) (amount : Nat) : r.served amount ≤ r.fraction :=
  max_le r.fraction_nonneg (sub_le_self _ (by positivity))

theorem Exact.afterService (hr : r.Exact) (ha : amount ≤ maxU128)
    (h : r.nextAfterService amount saturating = .ok r') : r'.Exact := by
  obtain ⟨-, -, -, hden, rfl⟩ := hr.nextAfterService_ok ha h
  exact hr.withFraction (r.served_nonneg amount) (r.served_le amount) hden

/-- **Service adds up.** -/
theorem Exact.nextAfterService_add (hr : r.Exact) {a b : Nat} (hab : a + b ≤ maxU128)
    (h : r.nextAfterService a saturating = .ok r') :
    r'.nextAfterService b saturating = r.nextAfterService (a + b) saturating := by
  have hr' := hr.afterService (by omega) h
  obtain ⟨hmul, hq, hle, hden, rfl⟩ := hr.nextAfterService_ok (by omega) h
  by_cases hb : b % nice0 = 0
  · have hsum : (a + b) % nice0 = 0 := by rw [Nat.add_mod, hmul, hb, Nat.zero_mod]
    have hfrac := r.fraction_withFraction (r.served_nonneg a)
    have hratio : ((a + b : Nat) : ℚ) / (r.q * work) = a / (r.q * work) + b / (r.q * work) := by
      rw [Nat.cast_add, add_div]
    have hpos : 0 ≤ (b : ℚ) / (r.q * work) := by positivity
    have hserved : (r.withFraction (r.served a)).served b = r.served (a + b) := by
      rw [served, hfrac, served, served, hratio]
      show max 0 (max 0 _ - (b : ℚ) / (r.q * work)) = _
      rcases le_total (r.fraction - a / (r.q * work)) 0 with hneg | hpos'
      · rw [max_eq_left hneg, max_eq_left (by linarith), max_eq_left (by linarith)]
      · rw [max_eq_right hpos', sub_sub]
    have hcond : (r.withFraction (r.served a)).fraction < b / (r.q * work) ∧ saturating = false
        ↔ r.fraction < (a + b : Nat) / (r.q * work) ∧ saturating = false := by
      refine and_congr_left fun hs => ?_
      rw [hfrac, served, max_eq_right (sub_nonneg.2 (hle hs)), hratio, sub_lt_iff_lt_add']
    rw [hr'.nextAfterService_eq (by omega) hb hq, hr.nextAfterService_eq hab hsum hq, hserved]
    exact if_congr hcond rfl rfl
  · have hsum : (a + b) % nice0 ≠ 0 := by
      rw [Nat.add_mod, hmul, Nat.zero_add, Nat.mod_mod]
      exact hb
    rw [nextAfterService, hr'.exactValid, ok_bind, if_pos hb, nextAfterService, hr.exactValid,
      ok_bind, if_pos hsum]

/-! ### A change of quantum -/

/-- **A change of quantum in closed form**: the fraction stays and the ceilings follow it. -/
theorem Exact.setQuantum_eq (hr : r.Exact) (h0 : 0 < q) (hq : q ≤ maxU128) :
    r.setQuantum q
      = (inU128 ⌈r.fraction * q * work⌉₊).map
          fun _ => { r with q := q }.withFraction r.fraction := by
  have hproj := projection_eq h0 hq r.fraction_nonneg hr.le_one (hr.den_eq.le.trans hr.den_le)
  unfold setQuantum Request.withFraction
  rw [if_neg h0.ne', ← hr.num_eq, ← hr.den_eq, hproj]
  cases hw : inU128 ⌈r.fraction * q * work⌉₊ with
  | error e => rfl
  | ok w =>
    obtain ⟨rfl, -⟩ := inU128_ok hw
    rfl

theorem Exact.setQuantum_ok (hr : r.Exact) (hq : q ≤ maxU128) (h : r.setQuantum q = .ok r') :
    0 < q ∧ ⌈r.fraction * q * work⌉₊ ≤ maxU128 ∧
      r' = { r with q := q }.withFraction r.fraction := by
  have h0 : 0 < q := by
    by_contra hn
    rw [setQuantum, if_pos (by omega)] at h
    cases h
  rw [hr.setQuantum_eq h0 hq] at h
  by_cases hfit : ⌈r.fraction * q * work⌉₊ ≤ maxU128
  · rw [inU128_of hfit] at h
    cases h
    exact ⟨h0, hfit, rfl⟩
  · rw [inU128_neg hfit] at h
    cases h

theorem Exact.setQuantum_ok_iff (hr : r.Exact) (hq : q ≤ maxU128) :
    (∃ r', r.setQuantum q = .ok r') ↔ 0 < q ∧ ⌈r.fraction * q * work⌉₊ ≤ maxU128 := by
  constructor
  · rintro ⟨r', h⟩
    obtain ⟨h0, hfit, -⟩ := hr.setQuantum_ok hq h
    exact ⟨h0, hfit⟩
  · rintro ⟨h0, hfit⟩
    rw [hr.setQuantum_eq h0 hq, inU128_of hfit]
    exact ⟨_, rfl⟩

theorem Exact.afterQuantum (hr : r.Exact) (hq : q ≤ maxU128) (h : r.setQuantum q = .ok r') :
    r'.Exact := by
  obtain ⟨h0, hfit, rfl⟩ := hr.setQuantum_ok hq h
  have hfrac := { r with q := q }.fraction_withFraction r.fraction_nonneg
  exact
    { eq := by rw [hfrac]; rfl
      le_one := by rw [hfrac]; exact hr.le_one
      den_le := hr.den_eq.le.trans hr.den_le
      q_pos := h0
      q_le := hq
      work_le := hfit }

/-- **A quantum restored restores the request.** -/
theorem Exact.setQuantum_restore (hr : r.Exact) (hq : q ≤ maxU128) (h : r.setQuantum q = .ok r') :
    r'.setQuantum r.q = .ok r := by
  have hr' := hr.afterQuantum hq h
  obtain ⟨-, -, rfl⟩ := hr.setQuantum_ok hq h
  have hfrac := { r with q := q }.fraction_withFraction r.fraction_nonneg
  rw [hr'.setQuantum_eq hr.q_pos hr.q_le, hfrac, hr.work_eq, inU128_of hr.work_le, Except.map]
  exact congrArg Except.ok hr.eq

/-- The virtual length of what is left, for quanta and weights that leave room in 256 bits. -/
theorem Exact.remainingVirtualLength_eq (hr : r.Exact) {weight : Nat} (hpos : 0 < weight)
    (hw : weight < 2 ^ 127) (hq : r.q < 2 ^ 85) :
    r.remainingVirtualLength weight
      = (do checkedI128 (← inU128 ⌈r.fraction * r.q * work / weight⌉₊)) := by
  have hn := hr.num_le_den.trans hr.den_le
  have hwq : (0 : ℚ) < weight := by exact_mod_cast hpos
  have hdq : (0 : ℚ) < r.remainingFractionDen := by exact_mod_cast hr.den_pos
  have hfit : r.remainingFractionNum * r.q * work < 2 ^ 256 := by
    calc r.remainingFractionNum * r.q * work
        ≤ 2 ^ 128 * 2 ^ 85 * work :=
          Nat.mul_le_mul_right _ (Nat.mul_le_mul (lt_of_le_maxU128 hn).le hq.le)
      _ < 2 ^ 256 := by norm_num [work, nice0, one]
  have hratio : ((r.remainingFractionNum * r.q * work : Nat) : ℚ)
        / (r.remainingFractionDen * weight : Nat) = r.fraction * r.q * work / weight := by
    rw [fraction]
    push_cast
    field_simp
  unfold remainingVirtualLength
  rw [if_neg hpos.ne', hr.exactValid, ok_bind, checkedRatioCeil_eq hn hr.q_le (by decide) hr.den_le
    (by simp only [maxU128]; omega) hr.den_pos hpos, if_pos ((Nat.div_le_self _ _).trans_lt hfit),
    hratio]

end Request

end KernelAx.Eevdf
