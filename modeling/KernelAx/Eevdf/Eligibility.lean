import KernelAx.Eevdf.Selection
import KernelAx.Eevdf.LagSum
import KernelAx.Eevdf.Ratio

/-!
# EEVDF — The eligibility frontier

An awake entity becomes eligible once: its lag grows with the virtual time, and `eligible_at` solves
for the point at which it is no longer negative. The ready tree keeps the biased image of that
point, so its unsigned comparisons, with the cached minima and node by node, decide the sign of a
lag (`eligible_frontier`).
-/

namespace KernelAx.Eevdf

theorem biasI128_lt {v w : Int} (hv : InI128 v) (hw : InI128 w) :
    biasI128 v < biasI128 w ↔ v < w := by
  rw [← not_le, ← not_le, biasI128_le hw hv]

namespace Entity

/-- An awake entity at a virtual time `v` from its lag stamp on, where its lag and the point `p`
from which it is eligible are in range. -/
structure Frontier (e : Entity) (v p : Int) : Prop where
  awake : e.sleeperV = none
  since : e.lagStamp ≤ v
  stamp : InI128 e.lagStamp
  time : InI128 v
  fits : InI128 e.lag
  lag : ∃ l, e.lagAt v = .ok l
  point : e.eligibleAt = .ok p

namespace Frontier

variable {e : Entity} {v p : Int}

theorem weight_pos (h : e.Frontier v p) : 0 < e.weight := by
  obtain ⟨l, hl⟩ := h.lag
  refine Nat.pos_of_ne_zero fun hzero => ?_
  rw [lagAt, if_pos hzero] at hl
  cases hl

/-- The point solves `0 ≤ lag + (v - stamp) * weight` for `v`. -/
theorem lagValue_nonneg (h : e.Frontier v p) : 0 ≤ e.lagValue v ↔ p ≤ v := by
  have hpos : (0 : Int) < e.weight := by exact_mod_cast h.weight_pos
  have hpoint := h.point
  rw [eligibleAt, if_neg h.weight_pos.ne'] at hpoint
  split at hpoint
  · rename_i hlag
    cases hpoint
    have := mul_nonneg (sub_nonneg.mpr h.since) hpos.le
    exact ⟨fun _ => h.since, fun _ => add_nonneg hlag this⟩
  · rename_i hlag
    have hfits : e.lag.natAbs ≤ maxU128 := by
      obtain ⟨hlo, hhi⟩ := h.fits
      simp only [minI128, maxI128, maxU128] at *
      omega
    rw [checkedCeilDiv_eq hfits h.weight_pos] at hpoint
    obtain ⟨quotient, hquotient, hpoint⟩ := bind_eq_ok.mp hpoint
    obtain ⟨offset, hoffset, hpoint⟩ := bind_eq_ok.mp hpoint
    obtain ⟨rfl, -⟩ := inU128_ok hquotient
    obtain ⟨rfl, -⟩ := checkedI128_ok hoffset
    obtain ⟨rfl, -⟩ := inI128_ok hpoint
    obtain ⟨delta, hdelta⟩ := Int.eq_ofNat_of_zero_le (sub_nonneg.mpr h.since)
    have hceil : ⌈(e.lag.natAbs : ℚ) / e.weight⌉₊ ≤ delta ↔ e.lag.natAbs ≤ delta * e.weight := by
      rw [Nat.ceil_le, div_le_iff₀ (by exact_mod_cast h.weight_pos)]
      exact_mod_cast Iff.rfl
    have hdebt : (e.lag.natAbs : Int) = -e.lag := by omega
    calc 0 ≤ e.lagValue v
        ↔ (e.lag.natAbs : Int) ≤ delta * e.weight := by
          rw [lagValue, hdelta, hdebt, neg_le_iff_add_nonneg, add_comm]
      _ ↔ ⌈(e.lag.natAbs : ℚ) / e.weight⌉₊ ≤ delta := by
          rw [hceil]
          exact_mod_cast Iff.rfl
      _ ↔ e.lagStamp + ⌈(e.lag.natAbs : ℚ) / e.weight⌉₊ ≤ v := by omega

theorem isEligible_eq (h : e.Frontier v p) : e.isEligible v = .ok (decide (p ≤ v)) := by
  obtain ⟨l, hl⟩ := h.lag
  rw [isEligible, hl, ok_bind, lagAt_ok h.awake hl, decide_eq_decide.mpr h.lagValue_nonneg]

theorem inI128 (h : e.Frontier v p) : InI128 p := by
  have hpoint := h.point
  rw [eligibleAt, if_neg h.weight_pos.ne'] at hpoint
  split at hpoint
  · cases hpoint
    exact h.stamp
  · obtain ⟨offset, -, hpoint⟩ := bind_eq_ok.mp hpoint
    obtain ⟨offset, -, hpoint⟩ := bind_eq_ok.mp hpoint
    obtain ⟨rfl, hin⟩ := inI128_ok hpoint
    exact hin

theorem biased_le (h : e.Frontier v p) : biasI128 p ≤ biasI128 v ↔ e.isEligible v = .ok true := by
  rw [biasI128_le h.inI128 h.time, h.isEligible_eq]
  simp

end Frontier

end Entity

variable {K α : Type} [LinearOrder K] [DecidableEq α]

/-- **The eligibility frontier.**  From its stamp on, an awake entity has a nonnegative lag exactly
when its eligibility point is not in the future; the biased images of two virtual times compare as
the times do. So on a ready tree that keeps the biased points of the entities of its tasks, the
test of the cached minimum tells whether one of them is eligible, and a peek finds the first. -/
theorem eligible_frontier :
    (∀ {e : Entity} {v p l : Int}, e.Frontier v p → e.lagAt v = .ok l →
      (0 ≤ l ↔ p ≤ v) ∧ e.isEligible v = .ok (decide (p ≤ v))) ∧
    (∀ {v w : Int}, InI128 v → InI128 w →
      (biasI128 v ≤ biasI128 w ↔ v ≤ w) ∧ (biasI128 v < biasI128 w ↔ v < w)) ∧
    ∀ {t : EevdfTree K α} {entity : α → Entity} {v : Int}, t.Reached →
      (∀ x ∈ t.toList, ∃ p, (entity x.value).Frontier v p ∧ x.eligibleAt = biasI128 p) →
      ((t.root.isNil = false ∧ t.root.min ≤ biasI128 v ↔
          ∃ x ∈ t.toList, (entity x.value).isEligible v = .ok true) ∧
        t.peekEarliestEligible (biasI128 v)
          = t.toList.find? fun x => decide ((entity x.value).isEligible v = .ok true)) := by
  refine ⟨fun h hl => ⟨?_, h.isEligible_eq⟩,
    fun hv hw => ⟨biasI128_le hv hw, biasI128_lt hv hw⟩, @fun t entity v ht hentries => ?_⟩
  · rw [Entity.lagAt_ok h.awake hl]
    exact h.lagValue_nonneg
  · have htest (x) (hx : x ∈ t.toList) :
        x.eligibleAt ≤ biasI128 v ↔ (entity x.value).isEligible v = .ok true := by
      obtain ⟨p, hp, hbias⟩ := hentries x hx
      exact hbias ▸ hp.biased_le
    refine ⟨?_, ?_⟩
    · rw [ht.valid.cached.min_le_iff ht.valid.bounded]
      exact exists_congr fun x => and_congr_right (htest x)
    · rw [ht.valid.peek_eq]
      rw [← List.head?_filter, ← List.head?_filter]
      exact congrArg _ (List.filter_congr fun x hx => decide_eq_decide.mpr (htest x hx))

/-- An awake entity with a debt of five and a weight of two. -/
def indebted : Entity := ⟨.normal, 2, -5, 0, ⟨.normal, 1, 1, 1024, 1, 1, 512, 0, 512⟩, none⟩

/-- The debt is paid off at three, and the tree that holds the entity says so. -/
theorem eligible_frontier_indebted :
    (indebted.isEligible 2 = .ok false ∧ indebted.isEligible 3 = .ok true) ∧
      (EevdfTree.mk (.node .black .nil ⟨0, biasI128 3, 0⟩ (biasI128 3) .nil) 1 :
        EevdfTree Nat Nat).peekEarliestEligible (biasI128 3) = some ⟨0, biasI128 3, 0⟩ := by
  have htwo : indebted.Frontier 2 3 :=
    ⟨rfl, by decide, by decide, by decide, by decide, ⟨_, rfl⟩, rfl⟩
  have hthree : indebted.Frontier 3 3 :=
    ⟨rfl, by decide, by decide, by decide, by decide, ⟨_, rfl⟩, rfl⟩
  obtain ⟨hsign, -, htree⟩ := eligible_frontier (K := Nat) (α := Nat)
  refine ⟨⟨(hsign htwo rfl).2, (hsign hthree rfl).2⟩, ?_⟩
  have hinsert : (EevdfTree.new : EevdfTree Nat Nat).insert false ⟨0, biasI128 3, 0⟩
      = .ok ⟨.node .black .nil ⟨0, biasI128 3, 0⟩ (biasI128 3) .nil, 1⟩ := rfl
  refine (@htree _ (fun _ => indebted) 3 (.insert .new (by decide) hinsert) ?_).2
  intro x hx
  obtain rfl := List.mem_singleton.mp hx
  exact ⟨3, hthree, rfl⟩

end KernelAx.Eevdf
