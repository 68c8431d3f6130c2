import KernelAx.Eevdf.Arith
import KernelAx.Transaction
import Mathlib.Data.Nat.Digits.Defs

/-!
# EEVDF — 256-bit staging

`Wide` holds four limbs of 64 bits. Its operations are those of the number the limbs stand for
(`Wide.value`): comparison, subtraction, product, remainder and exact quotient. Each loop over the
limbs is proved on lists of any length, each loop over the bits on any number of bits.
-/

namespace KernelAx.Eevdf.Wide

open ModelError

/-- Every limb is below the base. -/
def Small (ls : List Nat) : Prop := ∀ l ∈ ls, l < 2 ^ 64

theorem small_cons {l : Nat} {ls : List Nat} : Small (l :: ls) ↔ l < 2 ^ 64 ∧ Small ls :=
  List.forall_mem_cons

/-- The number a list of limbs stands for. -/
def valueOf (ls : List Nat) : Nat := Nat.ofDigits (2 ^ 64) ls

theorem valueOf_nil : valueOf [] = 0 := rfl

theorem valueOf_cons (l : Nat) (ls : List Nat) : valueOf (l :: ls) = l + 2 ^ 64 * valueOf ls :=
  Nat.ofDigits_cons

theorem pow_cons (l : Nat) (ls : List Nat) :
    2 ^ (64 * (l :: ls).length) = 2 ^ 64 * 2 ^ (64 * ls.length) := by
  rw [List.length_cons, Nat.mul_succ, Nat.add_comm, Nat.pow_add]

theorem valueOf_lt {ls : List Nat} (h : Small ls) : valueOf ls < 2 ^ (64 * ls.length) := by
  induction ls with
  | nil => simp [valueOf_nil]
  | cons l ls ih =>
    obtain ⟨hl, hls⟩ := small_cons.1 h
    have := ih hls
    rw [valueOf_cons, pow_cons]
    generalize 2 ^ (64 * ls.length) = n at *
    omega

def value (w : Wide) : Nat := valueOf w.limbs

/-- Four limbs below the base. -/
structure Valid (w : Wide) : Prop where
  length : w.limbs.length = 4
  small : Small w.limbs

variable {w left right : Wide} {d r : Nat}

theorem Valid.value_lt (h : w.Valid) : w.value < 2 ^ 256 := by
  have := valueOf_lt h.small
  rwa [h.length] at this

theorem valid_zero : zero.Valid := ⟨rfl, by simp [zero, Small]⟩

theorem value_zero : zero.value = 0 := by
  simp only [value, zero, valueOf_cons, valueOf_nil, Nat.mul_zero, Nat.add_zero]

/-! ### Comparison and subtraction -/

theorem cmpLimbs_eq : ∀ {as bs : List Nat}, as.length = bs.length → Small as → Small bs →
    cmpLimbs as bs = compare (valueOf as) (valueOf bs)
  | [], [], _, _, _ => rfl
  | a :: as, b :: bs, hlen, has, hbs => by
    obtain ⟨ha, has⟩ := small_cons.1 has
    obtain ⟨hb, hbs⟩ := small_cons.1 hbs
    have ih := cmpLimbs_eq (Nat.succ.inj hlen) has hbs
    rw [cmpLimbs, ih, valueOf_cons, valueOf_cons]
    rcases Nat.lt_trichotomy (valueOf as) (valueOf bs) with h | h | h
    · rw [Nat.compare_eq_lt.2 h, eq_comm, Nat.compare_eq_lt]
      omega
    · rw [Nat.compare_eq_eq.2 h, h]
      rcases Nat.lt_trichotomy a b with h' | h' | h'
      · rw [Nat.compare_eq_lt.2 h', eq_comm, Nat.compare_eq_lt]
        omega
      · rw [h']
        simp
      · rw [Nat.compare_eq_gt.2 h', eq_comm, Nat.compare_eq_gt]
        omega
    · rw [Nat.compare_eq_gt.2 h, eq_comm, Nat.compare_eq_gt]
      omega

theorem cmp_lt_iff (hl : left.Valid) (hr : right.Valid) :
    left.cmp right = .lt ↔ left.value < right.value := by
  rw [cmp, cmpLimbs_eq (hl.length.trans hr.length.symm) hl.small hr.small, Nat.compare_eq_lt]
  exact Iff.rfl

/-- The difference wraps round when it is negative. -/
theorem subLimbs_spec : ∀ {as bs : List Nat} (borrow : Bool), as.length = bs.length → Small as →
    Small bs → (∃ wraps : Bool, valueOf (subLimbs borrow as bs) + valueOf bs + borrow.toNat
        = valueOf as + wraps.toNat * 2 ^ (64 * as.length)) ∧
      (subLimbs borrow as bs).length = as.length ∧ Small (subLimbs borrow as bs)
  | [], [], borrow, _, _, _ => ⟨⟨borrow, by simp [subLimbs, valueOf_nil]⟩, rfl, nofun⟩
  | a :: as, b :: bs, borrow, hlen, has, hbs => by
    obtain ⟨ha, has⟩ := small_cons.1 has
    obtain ⟨hb, hbs⟩ := small_cons.1 hbs
    have hbit : borrow.toNat ≤ 1 := Bool.toNat_le borrow
    have hlow : (a + 2 ^ 64 * 2 - b - borrow.toNat) % 2 ^ 64 + b + borrow.toNat
        = a + (decide (a < b + borrow.toNat)).toNat * 2 ^ 64 := by
      by_cases h : a < b + borrow.toNat
      · rw [decide_eq_true h, Bool.toNat_true]
        omega
      · rw [decide_eq_false h, Bool.toNat_false]
        omega
    obtain ⟨⟨wraps, hval⟩, hlen', hsmall⟩ :=
      subLimbs_spec (decide (a < b + borrow.toNat)) (Nat.succ.inj hlen) has hbs
    refine ⟨⟨wraps, ?_⟩, by rw [subLimbs, List.length_cons, hlen', List.length_cons],
      small_cons.2 ⟨Nat.mod_lt _ (by positivity), hsmall⟩⟩
    rw [subLimbs, valueOf_cons, valueOf_cons, valueOf_cons, pow_cons, Nat.mul_left_comm]
    omega

theorem wrappingSub_wraps (hl : left.Valid) (hr : right.Valid) :
    (left.wrappingSub right).Valid ∧ ∃ wraps : Bool, (left.wrappingSub right).value + right.value
      = left.value + wraps.toNat * 2 ^ 256 := by
  obtain ⟨⟨wraps, hval⟩, hlen, hsmall⟩ :=
    subLimbs_spec false (hl.length.trans hr.length.symm) hl.small hr.small
  rw [hl.length] at hval
  exact ⟨⟨hlen.trans hl.length, hsmall⟩, wraps, hval⟩

theorem wrappingSub_spec (hl : left.Valid) (hr : right.Valid) (hle : right.value ≤ left.value) :
    (left.wrappingSub right).Valid ∧ (left.wrappingSub right).value = left.value - right.value := by
  obtain ⟨hvalid, wraps, hval⟩ := wrappingSub_wraps hl hr
  have := hvalid.value_lt
  have := hl.value_lt
  refine ⟨hvalid, ?_⟩
  cases wraps with
  | false | true => simp at hval; omega

/-! ### Products -/

/-- `n` in `k` limbs, or nothing if it needs more. -/
def Holds (n k : Nat) : Option (List Nat) → Prop
  | some ls => valueOf ls = n ∧ ls.length = k ∧ Small ls
  | none => 2 ^ (64 * k) ≤ n

theorem Holds.cons {n k low m : Nat} {out : Option (List Nat)} (h : Holds n k out)
    (hlow : low < 2 ^ 64) (hm : m = low + 2 ^ 64 * n) : Holds m (k + 1) (out.map (low :: ·)) := by
  subst hm
  cases out with
  | none =>
    have hle : 2 ^ (64 * k) ≤ n := h
    show 2 ^ (64 * (k + 1)) ≤ _
    rw [Nat.mul_succ, Nat.add_comm, Nat.pow_add]
    omega
  | some ls =>
    obtain ⟨rfl, rfl, hsmall⟩ := h
    exact ⟨valueOf_cons low ls, rfl, small_cons.2 ⟨hlow, hsmall⟩⟩

/-- A row of the product adds `limb * factor` and the carry. -/
theorem mulAddRow_holds {limb : Nat} (hlimb : limb < 2 ^ 64) :
    ∀ {factor acc : List Nat} (carry : Nat), Small factor → Small acc → carry < 2 ^ 64 →
    Holds (limb * valueOf factor + valueOf acc + carry) acc.length (mulAddRow limb factor acc carry)
  | [], acc, 0, _, hacc, _ => by
    rw [mulAddRow, valueOf_nil, Nat.mul_zero, Nat.zero_add]
    exact ⟨rfl, rfl, hacc⟩
  | [], [], carry + 1, _, _, _ => by
    rw [mulAddRow]
    exact Nat.le_add_left 1 _
  | [], a :: acc, carry + 1, hf, hacc, hcarry => by
    obtain ⟨ha, hacc⟩ := small_cons.1 hacc
    rw [mulAddRow]
    refine (mulAddRow_holds hlimb ((a + (carry + 1)) / 2 ^ 64) hf hacc (by omega)).cons
      (Nat.mod_lt _ (by positivity)) ?_
    rw [valueOf_cons, valueOf_nil]
    omega
  | f :: factor, [], carry, hf, hacc, _ => by
    obtain ⟨hf₀, hf⟩ := small_cons.1 hf
    rw [mulAddRow, valueOf_cons, Nat.mul_add, Nat.mul_left_comm]
    split
    · rename_i h
      have hrow := mulAddRow_holds hlimb 0 hf hacc (by positivity)
      rw [h.1, h.2]
      generalize limb * valueOf factor = n at *
      generalize mulAddRow limb factor [] 0 = out at hrow
      cases out with
      | none =>
        have : 1 ≤ n := hrow
        show 1 ≤ _
        omega
      | some ls =>
        obtain ⟨hval, hlen, hsmall⟩ := hrow
        obtain rfl := List.length_eq_zero_iff.1 hlen
        refine ⟨?_, hlen, hsmall⟩
        rw [valueOf_nil] at *
        omega
    · show 1 ≤ _
      omega
  | f :: factor, a :: acc, carry, hf, hacc, hcarry => by
    obtain ⟨ha, hacc⟩ := small_cons.1 hacc
    obtain ⟨hf₀, hf⟩ := small_cons.1 hf
    have hprod : limb * f ≤ (2 ^ 64 - 1) * (2 ^ 64 - 1) :=
      Nat.mul_le_mul (by omega) (by omega)
    rw [mulAddRow]
    refine (mulAddRow_holds hlimb ((limb * f + a + carry) / 2 ^ 64) hf hacc (by omega)).cons
      (Nat.mod_lt _ (by positivity)) ?_
    rw [valueOf_cons, valueOf_cons, Nat.mul_add, Nat.mul_left_comm]
    omega

/-- The rows add up to the product. -/
theorem mulRows_holds {factor : List Nat} (hf : Small factor) : ∀ {ls acc : List Nat}, Small ls →
    Small acc → ls.length ≤ acc.length →
    Holds (valueOf factor * valueOf ls + valueOf acc) acc.length (mulRows factor ls acc)
  | [], acc, _, hacc, _ => by
    rw [mulRows, valueOf_nil, Nat.mul_zero, Nat.zero_add]
    exact ⟨rfl, rfl, hacc⟩
  | limb :: rest, a :: acc, hls, hacc, hlen => by
    obtain ⟨hlimb, hrest⟩ := small_cons.1 hls
    have hrow := mulAddRow_holds hlimb 0 hf hacc (by positivity)
    rw [mulRows, valueOf_cons limb, Nat.mul_add, Nat.mul_left_comm, Nat.mul_comm _ limb]
    generalize valueOf (a :: acc) = n at *
    generalize mulAddRow limb factor (a :: acc) 0 = out at hrow
    match out, hrow with
    | none, (hle : _ ≤ _) => exact hle.trans (by omega)
    | some (low :: tail), ⟨hval, hlen', hsmall⟩ =>
      obtain ⟨hlow, htail⟩ := small_cons.1 hsmall
      obtain hlen' : tail.length = acc.length := Nat.succ.inj hlen'
      have hrows := mulRows_holds hf hrest htail
        (hlen' ▸ Nat.le_of_succ_le_succ hlen : rest.length ≤ tail.length)
      rw [hlen'] at hrows
      rw [valueOf_cons] at hval
      exact hrows.cons hlow (by omega)

theorem halves_spec {n : Nat} (hn : n < 2 ^ 128) : Small (halves n) ∧ valueOf (halves n) = n := by
  refine ⟨small_cons.2 ⟨Nat.mod_lt _ (by positivity), small_cons.2 ⟨by omega, nofun⟩⟩, ?_⟩
  rw [halves, valueOf_cons, valueOf_cons, valueOf_nil]
  omega

/-- The product of up to four limbs and a machine word. -/
theorem mulRows_zero {ls : List Nat} {right : Nat} (hls : Small ls) (hlen : ls.length ≤ 4)
    (hr : right < 2 ^ 128) :
    Holds (valueOf ls * right) 4 (mulRows (halves right) ls zero.limbs) := by
  obtain ⟨hrs, hrv⟩ := halves_spec hr
  have hz : valueOf zero.limbs = 0 := value_zero
  have h := mulRows_holds hrs hls valid_zero.small hlen
  rwa [hrv, hz, Nat.mul_comm] at h

/-- **The product of two machine words is exact.** -/
theorem mulU128_spec {left right : Nat} (hl : left < 2 ^ 128) (hr : right < 2 ^ 128) :
    ∃ w, mulU128 left right = some w ∧ w.Valid ∧ w.value = left * right := by
  obtain ⟨hls, hlv⟩ := halves_spec hl
  have hlt : left * right < 2 ^ 128 * 2 ^ 128 := Nat.mul_lt_mul'' hl hr
  have h := mulRows_zero hls (by simp [halves]) hr
  rw [hlv] at h
  unfold mulU128
  generalize mulRows (halves right) (halves left) zero.limbs = out at h
  cases out with
  | none => exact absurd hlt (not_lt.2 h)
  | some ls => exact ⟨⟨ls⟩, rfl, ⟨h.2.1, h.2.2⟩, h.1⟩

/-- The product of a wide number and a machine word, if it fits. -/
theorem mul_spec (hw : w.Valid) {right : Nat} (hr : right < 2 ^ 128) :
    if w.value * right < 2 ^ 256 then
      ∃ out, w.mul right = some out ∧ out.Valid ∧ out.value = w.value * right
    else w.mul right = none := by
  have h := mulRows_zero hw.small hw.length.le hr
  unfold mul
  generalize mulRows (halves right) w.limbs zero.limbs = out at h
  cases out with
  | none => exact (if_neg (not_lt.2 h)).mpr rfl
  | some ls =>
    have hvalid : (mk ls).Valid := ⟨h.2.1, h.2.2⟩
    have hval : (mk ls).value = w.value * right := h.1
    rw [if_pos (hval ▸ hvalid.value_lt)]
    exact ⟨⟨ls⟩, rfl, hvalid, hval⟩

/-! ### Bits and division -/

theorem getD_testBit : ∀ {ls : List Nat}, Small ls → ∀ position,
    (ls.getD (position / 64) 0).testBit (position % 64) = (valueOf ls).testBit position
  | [], _, position => by simp [valueOf_nil]
  | l :: ls, h, position => by
    obtain ⟨hl, hls⟩ := small_cons.1 h
    rw [valueOf_cons, Nat.add_comm, Nat.testBit_two_pow_mul_add _ hl]
    by_cases hp : position < 64
    · rw [if_pos hp, Nat.div_eq_of_lt hp, Nat.mod_eq_of_lt hp]
      rfl
    · have hdiv : position / 64 = (position - 64) / 64 + 1 := by omega
      have hmod : position % 64 = (position - 64) % 64 := by omega
      rw [if_neg hp, hdiv, hmod, List.getD_cons_succ]
      exact getD_testBit hls _

theorem bit_eq (h : w.Valid) (position : Nat) : w.bit position = w.value.testBit position :=
  getD_testBit h.small position

/-- One bit of a long division. -/
theorem divStep_eq (hr : r < d) (hd : d < 2 ^ 128) (bit : Bool) :
    checkedDiv129 (r.testBit 127) (r * 2 % 2 ^ 128 + bit.toNat) d
      = .ok ((2 * r + bit.toNat) / d, (2 * r + bit.toNat) % d) := by
  have hbit := Bool.toNat_lt bit
  have hpos : 0 < d := by omega
  have hsum : (r.testBit 127).toNat * 2 ^ 128 + (r * 2 % 2 ^ 128 + bit.toNat)
      = 2 * r + bit.toNat := by
    have := testBit_127_toNat (r := r) (by omega)
    omega
  have hq : (2 * r + bit.toNat) / d < 2 := by
    rw [Nat.div_lt_iff_lt_mul hpos]
    omega
  have h := checkedDiv129_eq (r.testBit 127) (r * 2 % 2 ^ 128 + bit.toNat) (by omega)
    hpos (by rw [hsum]; omega)
  rwa [hsum] at h

/-- What one more bit leaves to divide. -/
theorem divRest_eq (n p r d : Nat) :
    r * 2 ^ (p + 1) + n % 2 ^ (p + 1)
      = (2 * r + (n.testBit p).toNat) / d * 2 ^ p * d
        + ((2 * r + (n.testBit p).toNat) % d * 2 ^ p + n % 2 ^ p) := by
  have hdm := Nat.div_add_mod (2 * r + (n.testBit p).toNat) d
  rw [mod_two_pow_succ]
  calc r * 2 ^ (p + 1) + ((n.testBit p).toNat * 2 ^ p + n % 2 ^ p)
      = (2 * r + (n.testBit p).toNat) * 2 ^ p + n % 2 ^ p := by ring
    _ = (d * ((2 * r + (n.testBit p).toNat) / d) + (2 * r + (n.testBit p).toNat) % d) * 2 ^ p
          + n % 2 ^ p := by rw [hdm]
    _ = _ := by ring

theorem remLoop_eq (hw : w.Valid) (hd : d < 2 ^ 128) (p : Nat) (hr : r < d) :
    remLoop w d p r = .ok ((r * 2 ^ p + w.value % 2 ^ p) % d) := by
  induction p generalizing r with
  | zero => rw [remLoop, Nat.pow_zero, Nat.mod_one, Nat.mul_one, Nat.add_zero, Nat.mod_eq_of_lt hr]
  | succ p ih =>
    have hmod : (2 * r + (w.value.testBit p).toNat) % d < d := Nat.mod_lt _ (by omega)
    rw [remLoop, bit_eq hw, divStep_eq hr hd]
    simp only [bind, Except.bind]
    rw [ih hmod, divRest_eq w.value p r d, Nat.mul_comm _ d, Nat.mul_add_mod]

theorem remU128_eq (hw : w.Valid) (hpos : 0 < d) (hd : d < 2 ^ 128) :
    w.remU128 d = .ok (w.value % d) := by
  rw [remU128, if_neg hpos.ne', remLoop_eq hw hd 256 hpos, Nat.zero_mul, Nat.zero_add,
    Nat.mod_eq_of_lt hw.value_lt]

theorem shlLimbs_spec : ∀ {ls : List Nat} (carry : Bool), Small ls →
    valueOf (shlLimbs carry ls).2 + (shlLimbs carry ls).1.toNat * 2 ^ (64 * ls.length)
        = 2 * valueOf ls + carry.toNat ∧
      (shlLimbs carry ls).2.length = ls.length ∧ Small (shlLimbs carry ls).2
  | [], carry, _ => ⟨by simp [shlLimbs, valueOf_nil], rfl, nofun⟩
  | l :: ls, carry, h => by
    obtain ⟨hl, hls⟩ := small_cons.1 h
    obtain ⟨hval, hlen, hsmall⟩ := shlLimbs_spec (l.testBit 63) hls
    have hcarry := Bool.toNat_lt carry
    have htop : (l.testBit 63).toNat * 2 ^ 64 + l * 2 % 2 ^ 64 = l * 2 := by
      have hbit : (l.testBit 63).toNat = l / 2 ^ 63 := by
        have hx : l / 2 ^ 63 < 2 := by omega
        rw [Nat.testBit_eq_decide_div_mod_eq, Nat.mod_eq_of_lt hx]
        generalize l / 2 ^ 63 = x at hx ⊢
        rcases (by omega : x = 0 ∨ x = 1) with rfl | rfl <;> rfl
      omega
    simp only [shlLimbs]
    refine ⟨?_, by rw [List.length_cons, hlen, List.length_cons],
      small_cons.2 ⟨by omega, hsmall⟩⟩
    rw [valueOf_cons, valueOf_cons, pow_cons, Nat.mul_left_comm]
    omega

/-- Shifting a bit in from below. -/
theorem pushBit_spec (hw : w.Valid) (bit : Bool) :
    (w.shl1.2.setLowBit bit).Valid ∧
      (w.shl1.2.setLowBit bit).value + w.shl1.1.toNat * 2 ^ 256 = 2 * w.value + bit.toNat := by
  obtain ⟨limbs⟩ := w
  obtain ⟨hval, hlen, hsmall⟩ := shlLimbs_spec bit hw.small
  have heq : (shl1 ⟨limbs⟩).2.setLowBit bit = ⟨(shlLimbs bit limbs).2⟩ ∧
      (shl1 ⟨limbs⟩).1 = (shlLimbs bit limbs).1 := by
    obtain _ | ⟨l, ls⟩ := limbs
    · cases hw.length
    · simp only [shl1, shlLimbs, setLowBit, Wide.mk.injEq, List.cons.injEq, and_true,
        Bool.toNat_false]
      omega
  rw [heq.1, heq.2]
  rw [hw.length] at hval
  exact ⟨⟨hlen.trans hw.length, hsmall⟩, hval⟩

/-- A digit of a quotient that leaves room for the digits to come. -/
theorem pushBit_digit {q : Wide} (hq : q.Valid) (bit : Bool) {p rest : Nat}
    (hfit : q.value * 2 ^ (p + 1) + rest < 2 ^ 256) :
    (q.shl1.2.setLowBit bit).Valid ∧
      (q.shl1.2.setLowBit bit).value * 2 ^ p = q.value * 2 ^ (p + 1) + bit.toNat * 2 ^ p := by
  have hle : q.value * 2 ≤ q.value * 2 ^ (p + 1) :=
    Nat.mul_le_mul_left _ (by rw [Nat.pow_succ]; have := Nat.one_le_two_pow (n := p); omega)
  obtain ⟨hvalid, hval⟩ := pushBit_spec hq bit
  have hbit := Bool.toNat_le bit
  have hval : (q.shl1.2.setLowBit bit).value = 2 * q.value + bit.toNat := by omega
  refine ⟨hvalid, ?_⟩
  rw [hval, Nat.pow_succ]
  ring

/-- The loop of an exact division; the induction is on the bits left, and the quotient so far leaves
room for the rest. -/
theorem divExactLoop_eq (hw : w.Valid) (hd : d < 2 ^ 128) (p : Nat) (quotient : Wide) (hr : r < d)
    (hq : quotient.Valid)
    (hfit : quotient.value * 2 ^ p + (r * 2 ^ p + w.value % 2 ^ p) / d < 2 ^ 256)
    (hexact : (r * 2 ^ p + w.value % 2 ^ p) % d = 0) :
    ∃ out, divExactLoop w d p quotient r = .ok out ∧ out.Valid ∧
      out.value = quotient.value * 2 ^ p + (r * 2 ^ p + w.value % 2 ^ p) / d := by
  induction p generalizing r quotient with
  | zero =>
    rw [Nat.pow_zero, Nat.mod_one, Nat.mul_one, Nat.add_zero, Nat.mod_eq_of_lt hr] at hexact
    subst hexact
    exact ⟨quotient, by rw [divExactLoop, if_pos rfl], hq, by simp [Nat.mod_one]⟩
  | succ p ih =>
    have hpos : 0 < d := by omega
    have hbit := Bool.toNat_lt (w.value.testBit p)
    have hdigit : (2 * r + (w.value.testBit p).toNat) / d < 2 := by
      rw [Nat.div_lt_iff_lt_mul hpos]
      omega
    have hrest := divRest_eq w.value p r d
    rw [hrest, Nat.mul_comm _ d, Nat.mul_add_mod] at hexact
    rw [hrest, Nat.mul_comm _ d, Nat.mul_add_div hpos] at hfit ⊢
    generalize hdig : (2 * r + (w.value.testBit p).toNat) / d = digit at *
    have hdigitBit : (digit != 0).toNat = digit := by
      rcases (by omega : digit = 0 ∨ digit = 1) with h | h <;> simp [h]
    obtain ⟨hvalid, hnext⟩ := pushBit_digit hq (digit != 0) hfit
    rw [hdigitBit] at hnext
    obtain ⟨out, hout, houtv, houtval⟩ := ih _ (Nat.mod_lt _ hpos) hvalid
      (by rw [hnext]; omega) hexact
    refine ⟨out, ?_, houtv, by rw [houtval, hnext]; omega⟩
    rw [divExactLoop, bit_eq hw, divStep_eq hr hd]
    simp only [bind, Except.bind, hdig]
    rw [if_neg (by omega), hout]

theorem divExactU128_spec (hw : w.Valid) (hpos : 0 < d) (hd : d < 2 ^ 128) (hdvd : d ∣ w.value) :
    ∃ out, w.divExactU128 d = .ok out ∧ out.Valid ∧ out.value = w.value / d := by
  have hlt := hw.value_lt
  have hle := Nat.div_le_self w.value d
  obtain ⟨out, hout, hvalid, hval⟩ := divExactLoop_eq hw hd 256 zero hpos valid_zero
    (by rw [value_zero, Nat.zero_mul, Nat.zero_add, Nat.zero_add, Nat.mod_eq_of_lt hlt]; omega)
    (by rw [Nat.zero_mul, Nat.zero_add, Nat.mod_eq_of_lt hlt]; exact Nat.mod_eq_zero_of_dvd hdvd)
  refine ⟨out, by rw [divExactU128, if_neg hpos.ne', hout], hvalid, ?_⟩
  rw [hval, value_zero, Nat.zero_mul, Nat.zero_add, Nat.zero_add, Nat.mod_eq_of_lt hlt]

theorem Valid.exists_limbs (hw : w.Valid) : ∃ l₀ l₁ l₂ l₃, w = ⟨[l₀, l₁, l₂, l₃]⟩ := by
  obtain ⟨limbs⟩ := w
  match limbs, hw with
  | [l₀, l₁, l₂, l₃], _ => exact ⟨l₀, l₁, l₂, l₃, rfl⟩
  | [], hw | [_], hw | [_, _], hw | [_, _, _], hw | _ :: _ :: _ :: _ :: _ :: _, hw =>
    cases hw.length

theorem lowU128_eq (hw : w.Valid) : w.lowU128 = inU128 w.value := by
  obtain ⟨l₀, l₁, l₂, l₃, rfl⟩ := hw.exists_limbs
  obtain ⟨h₀, hs⟩ := small_cons.1 hw.small
  obtain ⟨h₁, hs⟩ := small_cons.1 hs
  simp only [lowU128, value, valueOf_cons, valueOf_nil]
  by_cases h : l₂ ≠ 0 ∨ l₃ ≠ 0
  · rw [if_pos h, inU128_neg (by simp only [maxU128]; omega)]
  · rw [if_neg h, inU128_of (by simp only [maxU128]; omega)]
    congr 1
    omega

/-! ### Long division -/

theorem ge_iff (hl : left.Valid) (hr : right.Valid) :
    left.ge right = true ↔ right.value ≤ left.value := by
  rw [ge, bne_iff_ne, ne_eq, cmp_lt_iff hl hr, not_lt]

theorem eq_zero_iff (hw : w.Valid) : w = zero ↔ w.value = 0 := by
  constructor
  · rintro rfl
    exact value_zero
  · intro h
    obtain ⟨l₀, l₁, l₂, l₃, rfl⟩ := hw.exists_limbs
    simp only [value, valueOf_cons, valueOf_nil] at h
    obtain ⟨rfl, rfl, rfl, rfl⟩ : l₀ = 0 ∧ l₁ = 0 ∧ l₂ = 0 ∧ l₃ = 0 := by omega
    rfl

theorem addOneLimbs_spec : ∀ {ls : List Nat}, Small ls → valueOf ls + 1 < 2 ^ (64 * ls.length) →
    ∃ out, addOneLimbs ls = some out ∧ valueOf out = valueOf ls + 1 ∧ out.length = ls.length ∧
      Small out
  | [], _, hfit => by simp [valueOf_nil] at hfit
  | l :: ls, h, hfit => by
    obtain ⟨hl, hls⟩ := small_cons.1 h
    rw [pow_cons, valueOf_cons] at hfit
    by_cases hc : l + 1 < 2 ^ 64
    · refine ⟨(l + 1) :: ls, by rw [addOneLimbs, if_pos hc], ?_, rfl, small_cons.2 ⟨hc, hls⟩⟩
      rw [valueOf_cons, valueOf_cons]
      omega
    · obtain ⟨out, hout, hval, hlen, hsmall⟩ := addOneLimbs_spec hls (by
        generalize 2 ^ (64 * ls.length) = n at *
        omega)
      refine ⟨0 :: out, by rw [addOneLimbs, if_neg hc, hout]; rfl, ?_, by simp [hlen],
        small_cons.2 ⟨by positivity, hsmall⟩⟩
      rw [valueOf_cons, valueOf_cons, hval]
      omega

theorem checkedAddOne_spec (hw : w.Valid) (hfit : w.value + 1 < 2 ^ 256) :
    ∃ out, w.checkedAddOne = some out ∧ out.Valid ∧ out.value = w.value + 1 := by
  obtain ⟨out, hout, hval, hlen, hsmall⟩ := addOneLimbs_spec hw.small (by
    rw [hw.length]
    exact hfit)
  exact ⟨⟨out⟩, by rw [checkedAddOne, hout]; rfl, ⟨hlen.trans hw.length, hsmall⟩, hval⟩

/-- One more bit of the remainder, with the digit it gives. What the shift carries out of the limbs
comes back when the subtraction wraps round. -/
theorem divLoop_digit {d r : Wide} (hd : d.Valid) (hr : r.Valid) (hlt : r.value < d.value)
    (bit : Bool) :
    let shifted := r.shl1.2.setLowBit bit
    let digit := r.shl1.1 || shifted.ge d
    let next := if digit then shifted.wrappingSub d else shifted
    digit.toNat = (2 * r.value + bit.toNat) / d.value ∧ next.Valid ∧
      next.value = (2 * r.value + bit.toNat) % d.value := by
  intro shifted digit next
  have hbit := Bool.toNat_le bit
  have hdlt := hd.value_lt
  obtain ⟨hsv, hsval⟩ : shifted.Valid ∧ shifted.value + r.shl1.1.toNat * 2 ^ 256 = _ :=
    pushBit_spec hr bit
  have hslt := hsv.value_lt
  have hdigit : digit = true ↔ d.value ≤ 2 * r.value + bit.toNat := by
    show (r.shl1.1 || shifted.ge d) = true ↔ _
    rw [Bool.or_eq_true, ge_iff hsv hd]
    cases hcarry : r.shl1.1 with
    | false | true => simp [hcarry] at hsval ⊢; omega
  by_cases hge : d.value ≤ 2 * r.value + bit.toNat
  · have hnext : next = shifted.wrappingSub d := if_pos (hdigit.2 hge)
    obtain ⟨hv, wraps, hval⟩ := wrappingSub_wraps hsv hd
    have hvlt := hv.value_lt
    have hwraps := Bool.toNat_le wraps
    have hcarry := Bool.toNat_le r.shl1.1
    obtain ⟨hdiv, hmod⟩ := div_mod_of_eq (n := 2 * r.value + bit.toNat) (d := d.value) (q := 1)
      (r := 2 * r.value + bit.toNat - d.value) (by omega) (by omega)
    rw [hdigit.2 hge, hnext, hdiv, hmod]
    exact ⟨rfl, hv, by omega⟩
  · have hfalse : digit = false := Bool.eq_false_iff.2 (hdigit.not.2 hge)
    have hnext : next = shifted := if_neg (by simp [hfalse])
    rw [hfalse, hnext, Nat.div_eq_of_lt (by omega), Nat.mod_eq_of_lt (by omega)]
    exact ⟨rfl, hsv, by omega⟩

/-- Long division of one wide number by another, one bit at a time. -/
theorem divLoop_spec {n d : Wide} (hn : n.Valid) (hd : d.Valid) (hpos : 0 < d.value) (p : Nat)
    {q r : Wide} (hq : q.Valid) (hr : r.Valid) (hlt : r.value < d.value)
    (hfit : q.value * 2 ^ p + (r.value * 2 ^ p + n.value % 2 ^ p) / d.value < 2 ^ 256) :
    (divLoop n d p q r).1.Valid ∧ (divLoop n d p q r).2.Valid ∧
      (divLoop n d p q r).1.value
        = q.value * 2 ^ p + (r.value * 2 ^ p + n.value % 2 ^ p) / d.value ∧
      (divLoop n d p q r).2.value = (r.value * 2 ^ p + n.value % 2 ^ p) % d.value := by
  induction p generalizing q r with
  | zero =>
    refine ⟨hq, hr, ?_, ?_⟩
    · rw [Nat.pow_zero, Nat.mod_one, Nat.mul_one, Nat.mul_one, Nat.add_zero,
        Nat.div_eq_of_lt hlt, Nat.add_zero]
      rfl
    · rw [Nat.pow_zero, Nat.mod_one, Nat.mul_one, Nat.add_zero, Nat.mod_eq_of_lt hlt]
      rfl
  | succ p ih =>
    obtain ⟨hdigit, hnv, hnval⟩ := divLoop_digit hd hr hlt (n.bit p)
    rw [bit_eq hn] at hdigit hnv hnval
    have hrest := divRest_eq n.value p r.value d.value
    have hmod : (2 * r.value + (n.value.testBit p).toNat) % d.value < d.value :=
      Nat.mod_lt _ hpos
    rw [← hdigit, ← hnval, Nat.mul_comm _ d.value] at hrest
    rw [hrest, Nat.mul_add_div hpos] at hfit ⊢
    rw [Nat.mul_add_mod]
    obtain ⟨hqv, hnext⟩ := pushBit_digit hq
      (r.shl1.1 || (r.shl1.2.setLowBit (n.value.testBit p)).ge d) hfit
    have hstep := ih hqv hnv (by rw [hnval]; exact hmod) (by rw [hnext, Nat.add_assoc]; exact hfit)
    rw [hnext, Nat.add_assoc] at hstep
    rw [divLoop, bit_eq hn]
    exact hstep

end KernelAx.Eevdf.Wide
