import KernelAx.Eevdf.ClockExact
import Mathlib.Algebra.BigOperators.Group.Finset.Basic
import Mathlib.Algebra.BigOperators.Ring.Finset
import Mathlib.Logic.Relation
import Mathlib.Tactic.Abel

/-!
# EEVDF — Lag is a zero-sum account

Service moves the clock forward for every entity and charges one of them. What the others gain is
what that one is charged, up to the residue the clock carries: the sum of all lags at the clock's
virtual time, plus the clock's remainder, is the same after any run of `Entity.service`.
-/

namespace KernelAx.Eevdf

open ModelError

/-- An advance of any clock adds its work to `v * W + r`: an advance by nothing needs no weight, and
any other one checks the clock first. -/
theorem Clock.previewWorkWithTicks_ok {c : Clock} (hc : c.InRange) {amount ticks : Nat}
    (ha : amount ≤ maxU128) {next : ClockAdvance}
    (h : c.previewWorkWithTicks amount ticks = .ok next) :
    next.v * c.totalWeight + next.remainder = c.v * c.totalWeight + c.remainder + amount ∧
      Clock.InRange ⟨next.v, next.remainder, c.totalWeight, next.accountedTicks⟩ := by
  by_cases h0 : amount = 0
  · unfold previewWorkWithTicks at h
    rw [if_pos h0] at h
    obtain ⟨n, hn, hok⟩ := bind_eq_ok.mp h
    obtain ⟨rfl, hle⟩ := inU128_ok hn
    cases hok
    exact ⟨by simp [h0], ⟨hc.v, hc.remainder, hc.totalWeight, hle⟩⟩
  · have hlive : c.Live := by
      unfold previewWorkWithTicks at h
      rw [if_neg h0] at h
      split at h
      · cases h
      split at h
      · cases h
      exact { hc with pos := by omega, lt := by omega }
    refine ⟨(previewWorkWithTicks_exact hlive ha h).1, ?_⟩
    rw [previewWorkWithTicks_eq hlive ha] at h
    split at h
    · rename_i hfit
      cases h
      exact (hlive.advancedBy hfit).toInRange
    · cases h

theorem checkedLagAt_ok {lag stamp v l : Int} {weight : Nat}
    (h : checkedLagAt lag stamp weight v = .ok l) : l = lag + (v - stamp) * weight := by
  unfold checkedLagAt at h
  split at h
  · cases h
  obtain ⟨delta, hdelta, h⟩ := bind_eq_ok.mp h
  obtain ⟨change, hchange, h⟩ := bind_eq_ok.mp h
  rw [checkedMulI128U128_eq] at hchange
  obtain ⟨rfl, -⟩ := inI128_ok hdelta
  obtain ⟨rfl, -⟩ := inI128_ok hchange
  exact (inI128_ok h).1

namespace Entity

/-- The lag of an awake entity, carried from its stamp to `v`. -/
def lagValue (e : Entity) (v : Int) : Int := e.lag + (v - e.lagStamp) * e.weight

theorem lagValue_add (e : Entity) (v v' : Int) :
    e.lagValue v' = e.lagValue v + (v' - v) * e.weight := by
  unfold lagValue
  ring

theorem lagAt_ok {e : Entity} (hawake : e.sleeperV = none) {v l : Int} (h : e.lagAt v = .ok l) :
    l = e.lagValue v := by
  unfold lagAt at h
  split at h
  · cases h
  rw [hawake] at h
  exact checkedLagAt_ok h

/-- **One call of `service`.**  The clock moves by the work and the entity is charged it. -/
theorem service_spec {e e' : Entity} {c c' : Clock} {ticks fractionQ : Nat} (hc : c.InRange)
    (h : e.service c ticks fractionQ = .ok (e', c')) :
    ∃ amount : Nat, e'.lagValue c'.v = e.lagValue c'.v - amount ∧ e'.weight = e.weight ∧
      e'.sleeperV = e.sleeperV ∧ c'.InRange ∧ c'.totalWeight = c.totalWeight ∧
      c'.v * c.totalWeight + c'.remainder = c.v * c.totalWeight + c.remainder + amount := by
  unfold service at h
  split at h
  · cases h
  split at h
  · cases h
    exact ⟨0, by simp, rfl, rfl, hc, rfl, by simp⟩
  split at h
  · cases h
  split at h
  · cases h
  obtain ⟨whole, -, h⟩ := bind_eq_ok.mp h
  obtain ⟨fraction, -, h⟩ := bind_eq_ok.mp h
  obtain ⟨amount, hamount, h⟩ := bind_eq_ok.mp h
  obtain ⟨next, hnext, h⟩ := bind_eq_ok.mp h
  obtain ⟨lag, hlag, h⟩ := bind_eq_ok.mp h
  obtain ⟨charge, hcharge, h⟩ := bind_eq_ok.mp h
  obtain ⟨nextLag, hnextLag, h⟩ := bind_eq_ok.mp h
  obtain ⟨request, -, h⟩ := bind_eq_ok.mp h
  cases h
  obtain ⟨rfl, hle⟩ := inU128_ok hamount
  obtain ⟨hmove, hrange⟩ := Clock.previewWorkWithTicks_ok hc hle hnext
  obtain ⟨rfl, -⟩ := checkedI128_ok hcharge
  obtain ⟨rfl, -⟩ := inI128_ok hnextLag
  refine ⟨_, ?_, rfl, rfl, hrange, rfl, hmove⟩
  rw [checkedLagAt_ok hlag]
  simp [lagValue]

end Entity

/-! ### Runs of service -/

variable {ι : Type} [Fintype ι] [DecidableEq ι]

/-- Entities that compete under one clock. -/
structure FairGroup (ι : Type) where
  entity : ι → Entity
  clock : Clock

/-- One call of `service` on one of the entities. -/
inductive Served : FairGroup ι → FairGroup ι → Prop
  | call {es : ι → Entity} {c c' : Clock} {i : ι} {ticks fractionQ : Nat} {e' : Entity}
      (h : (es i).service c ticks fractionQ = .ok (e', c')) :
      Served ⟨es, c⟩ ⟨Function.update es i e', c'⟩

/-- The entities are awake, and together they make up the clock's weight. -/
structure FairGroup.Complete (g : FairGroup ι) : Prop where
  clock : g.clock.InRange
  awake : ∀ i, (g.entity i).sleeperV = none
  weight : ∑ i, (g.entity i).weight = g.clock.totalWeight

/-- The account: all lags at the clock's virtual time, and its residue. -/
def FairGroup.balance (g : FairGroup ι) : Int :=
  ∑ i, (g.entity i).lagValue g.clock.v + g.clock.remainder

theorem sum_update {β : Type} [AddCommGroup β] (f : Entity → β) (es : ι → Entity) (i : ι)
    (e' : Entity) :
    ∑ j, f (Function.update es i e' j) = ∑ j, f (es j) - f (es i) + f e' := by
  have hcomp : ∀ j, f (Function.update es i e' j) =
      Function.update (fun j => f (es j)) i (f e') j :=
    fun j => Function.apply_update (fun _ => f) es i e' j
  simp only [hcomp]
  rw [Finset.sum_update_of_mem (Finset.mem_univ i), ← Finset.add_sum_erase _ _ (Finset.mem_univ i),
    Finset.sdiff_singleton_eq_erase]
  abel

variable {g g' : FairGroup ι}

theorem Served.complete (h : Served g g') (hg : g.Complete) : g'.Complete := by
  obtain @⟨es, c, c', i, ticks, fractionQ, e', h⟩ := h
  obtain ⟨amount, -, hweight, hawake, hc', htotal, -⟩ := Entity.service_spec hg.clock h
  have hsame : ∀ j, (Function.update es i e' j).weight = (es j).weight :=
    (Function.forall_update_iff es fun j e => e.weight = (es j).weight).2 ⟨hweight, fun _ _ => rfl⟩
  refine ⟨hc', ?_, ?_⟩
  · exact (Function.forall_update_iff es fun _ e => e.sleeperV = none).2
      ⟨hawake.trans (hg.awake i), fun j _ => hg.awake j⟩
  · rw [Finset.sum_congr rfl fun j _ => hsame j, htotal]
    exact hg.weight

theorem Served.balance (h : Served g g') (hg : g.Complete) : g'.balance = g.balance := by
  obtain @⟨es, c, c', i, ticks, fractionQ, e', h⟩ := h
  obtain ⟨amount, hlag, -, -, -, -, hmove⟩ := Entity.service_spec hg.clock h
  -- every lag moves by `(c'.v - c.v) * weight`, and the one served pays the work
  have hsum : ∑ j, (es j).lagValue c'.v
      = ∑ j, (es j).lagValue c.v + (c'.v - c.v) * c.totalWeight := by
    rw [← hg.weight, Nat.cast_sum, Finset.mul_sum, ← Finset.sum_add_distrib]
    exact Finset.sum_congr rfl fun j _ => Entity.lagValue_add _ _ _
  simp only [FairGroup.balance]
  rw [sum_update (fun e => e.lagValue c'.v), hsum, hlag]
  dsimp only at hmove
  linarith

theorem FairGroup.Complete.run (hg : g.Complete) (h : Relation.ReflTransGen Served g g') :
    g'.Complete ∧ g'.balance = g.balance := by
  induction h with
  | refl => exact ⟨hg, rfl⟩
  | tail _ hstep ih =>
    obtain ⟨hmid, heq⟩ := ih
    exact ⟨hstep.complete hmid, (hstep.balance hmid).trans heq⟩

/-- **Lag is conserved.**  Over any run of `service` calls on awake entities that make up the
clock's weight, the lags at the clock's virtual time and the clock's remainder sum to the same, so
that what one entity loses the others and the remainder gain. -/
theorem lag_conserved {g g' : FairGroup ι} (lag lag' : ι → Int) (hg : g.Complete)
    (hrun : Relation.ReflTransGen Served g g')
    (hlag : ∀ i, (g.entity i).lagAt g.clock.v = .ok (lag i))
    (hlag' : ∀ i, (g'.entity i).lagAt g'.clock.v = .ok (lag' i)) :
    ∑ i, lag' i + g'.clock.remainder = ∑ i, lag i + g.clock.remainder ∧
      ∀ j, lag j - lag' j = ∑ i ∈ Finset.univ.erase j, (lag' i - lag i)
        + ((g'.clock.remainder : Int) - g.clock.remainder) := by
  obtain ⟨hg', heq⟩ := hg.run hrun
  have hval : ∀ i, lag i = (g.entity i).lagValue g.clock.v :=
    fun i => Entity.lagAt_ok (hg.awake i) (hlag i)
  have hval' : ∀ i, lag' i = (g'.entity i).lagValue g'.clock.v :=
    fun i => Entity.lagAt_ok (hg'.awake i) (hlag' i)
  have htotal : ∑ i, lag' i + g'.clock.remainder = ∑ i, lag i + g.clock.remainder := by
    simp only [hval, hval']
    exact heq
  refine ⟨htotal, fun j => ?_⟩
  have h := Finset.add_sum_erase Finset.univ lag (Finset.mem_univ j)
  have h' := Finset.add_sum_erase Finset.univ lag' (Finset.mem_univ j)
  rw [Finset.sum_sub_distrib]
  linarith

/-- One of two equal entities, as it is admitted at virtual time zero. -/
def evenEntity : Entity :=
  ⟨.normal, 1024, 0, 0, ⟨.normal, 4, 4, 4 * work, 1, 1, 4 * one, 0, 4 * one⟩, none⟩

/-- One tick of service to the first of two equal entities: it owes what the other one is due. -/
theorem lag_conserved_even :
    ∃ g' : FairGroup (Fin 2), Served ⟨fun _ => evenEntity, ⟨0, 0, 2048, 0⟩⟩ g' ∧
      (g'.entity 0).lagAt g'.clock.v = .ok (-2 ^ 41) ∧
      ∑ i : Fin 2, (if i = 0 then -2 ^ 41 else 2 ^ 41) + (g'.clock.remainder : Int)
        = ∑ _i : Fin 2, 0 + ((0 : Nat) : Int) := by
  have hcall : evenEntity.service ⟨0, 0, 2048, 0⟩ 1 0
      = .ok ({ evenEntity with
          lag := -2 ^ 41
          lagStamp := 2 ^ 31
          request := { evenEntity.request with
            remainingTicks := 3, remainingWork := 3 * work,
            remainingFractionNum := 3, remainingFractionDen := 4 } },
        ⟨2 ^ 31, 0, 2048, 1⟩) := by
    decide +kernel
  have hstep : Served ⟨fun _ : Fin 2 => evenEntity, ⟨0, 0, 2048, 0⟩⟩ _ := .call (i := 0) hcall
  refine ⟨_, hstep, by decide +kernel, ?_⟩
  refine (lag_conserved (fun _ => 0) _ ⟨?_, fun _ => rfl, rfl⟩ (.single hstep) ?_ ?_).1
  · exact ⟨by decide, by decide, by decide, by decide⟩
  · decide +kernel
  · decide +kernel

end KernelAx.Eevdf
