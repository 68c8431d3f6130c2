import KernelAx.Eevdf.TreeCache
import KernelAx.Eevdf.World

/-!
# EEVDF — Round-robin slices

Without a rival in the ready tree, a round-robin task runs through one slice after the other. Its
budget and the fraction of a tick are a function of the total service (`Local.served`), so it does
not matter how the service is cut into calls.
-/

namespace KernelAx.Eevdf

open Transaction Op

theorem freshSlice_eq (slice n : Nat) : freshSlice slice n = slice - n % slice := by
  unfold freshSlice
  split
  · rename_i h
    rw [h, Nat.sub_zero]
  · rfl

/-- The budget after some ticks, without a rival. -/
def budgetAfter (slice before ticks : Nat) : Nat :=
  if ticks < before then before - ticks else freshSlice slice (ticks - before)

theorem budgetAfter_pos {slice before : Nat} (hslice : 0 < slice) (ticks : Nat) :
    0 < budgetAfter slice before ticks := by
  have := Nat.mod_lt (ticks - before) hslice
  rw [budgetAfter, freshSlice_eq]
  split <;> omega

/-- The boundaries of the slices lie where one service would have put them. -/
theorem budgetAfter_add {slice before : Nat} (hslice : 0 < slice) (a b : Nat) :
    budgetAfter slice (budgetAfter slice before a) b = budgetAfter slice before (a + b) := by
  unfold budgetAfter
  rw [freshSlice_eq, freshSlice_eq]
  by_cases ha : a < before
  · rw [if_pos ha]
    by_cases hb : b < before - a
    · rw [if_pos hb, if_pos (by omega)]
      omega
    · rw [if_neg hb, if_neg (by omega), freshSlice_eq,
        (by omega : b - (before - a) = a + b - before)]
  · rw [if_neg ha, if_neg (by omega : ¬ a + b < before), freshSlice_eq]
    obtain ⟨n, rfl⟩ : ∃ n, a = before + n := ⟨a - before, by omega⟩
    have hlt := Nat.mod_lt n hslice
    have hdm := Nat.div_add_mod n slice
    have hab : before + n + b - before = n + b := by omega
    rw [Nat.add_sub_cancel_left, hab]
    by_cases hb : b < slice - n % slice
    · have hmod : (n + b) % slice = n % slice + b := by
        rw [Nat.add_mod, Nat.mod_eq_of_lt (by omega : b < slice), Nat.mod_eq_of_lt (by omega)]
      rw [if_pos hb, hmod]
      omega
    · have hmod : (n + b) % slice = (b - (slice - n % slice)) % slice := by
        have : n + b = (b - (slice - n % slice)) + slice * (n / slice + 1) := by
          rw [Nat.mul_add, Nat.mul_one]
          omega
        rw [this, Nat.add_mul_mod_self_left]
      rw [if_neg hb, hmod]

theorem carry (f a b : Nat) :
    (f + (a + b)) / one = (f + a) / one + ((f + a) % one + b) / one ∧
      (f + (a + b)) % one = ((f + a) % one + b) % one := by
  have htotal : f + (a + b) = (f + a) % one + b + one * ((f + a) / one) := by
    have := Nat.div_add_mod (f + a) one
    omega
  rw [htotal, Nat.add_mul_div_left _ _ (by decide), Nat.add_mul_mod_self_left, Nat.add_comm]
  exact ⟨rfl, rfl⟩

variable {ι δ : Type}

/-- A round-robin task with a budget left; nothing in the ready tree has its priority or a higher
one. -/
structure Unrivalled (l : Local ι δ) : Prop where
  cls : l.task.params.cls = .roundRobin
  budget : 0 < l.task.rrRemaining
  fraction : l.task.state.rrFractionQ < one
  slice : 0 < l.rrTimesliceTicks
  ready : ∀ x ∈ l.self.readyTree.toList, x.key.classRank ≠ deadlineClassRank ∧
    ¬ (x.key.classRank = rtClassRank ∧ x.key.order ≤ rtOrder l.task.params.rtPriority)

/-- After `amount` of service in `Q32` ticks. -/
def Local.served (amount : Nat) (l : Local ι δ) : Local ι δ :=
  let total := l.task.state.rrFractionQ + amount
  { l with
    task := { l.task with
      rrRemaining := budgetAfter l.rrTimesliceTicks l.task.rrRemaining (total / one)
      state := { l.task.state with rrFractionQ := total % one } } }

namespace Unrivalled

variable {l : Local ι δ}

section

variable (h : Unrivalled l)
include h

theorem served (amount : Nat) : Unrivalled (l.served amount) where
  __ := h
  budget := budgetAfter_pos h.slice _
  fraction := Nat.mod_lt _ (by decide)

theorem served_zero : l.served 0 = l := by
  have hfraction := h.fraction
  simp only [Local.served, Nat.add_zero, Nat.div_eq_of_lt hfraction, Nat.mod_eq_of_lt hfraction,
    budgetAfter, if_pos h.budget, Nat.sub_zero]

theorem served_served (a b : Nat) :
    (l.served a).served b = l.served (a + b) := by
  obtain ⟨hdiv, hmod⟩ := carry l.task.state.rrFractionQ a b
  simp only [Local.served, hdiv, hmod, budgetAfter_add h.slice]

theorem no_rival :
    l.self.hasHigherRt l.task.params.rtPriority = false ∧
      l.self.hasSameRt l.task.params.rtPriority = false := by
  unfold Scheduler.hasHigherRt Scheduler.hasSameRt
  cases hfront : l.self.readyTree.front with
  | none => exact ⟨rfl, rfl⟩
  | some x =>
    obtain ⟨hdeadline, hrt⟩ := h.ready x (EevdfTree.front_mem hfront)
    refine ⟨decide_eq_false ?_, decide_eq_false ?_⟩
    · rintro (hx | ⟨hx, hlt⟩)
      · exact hdeadline hx
      · exact hrt ⟨hx, hlt.le⟩
    · rintro ⟨hx, heq⟩
      exact hrt ⟨hx, heq.le⟩

/-- **One service**, whole and fractional. -/
theorem service {ticks fractionQ : Nat} (hfraction : fractionQ ≤ maxU64)
    (hticks : ticks + (l.task.state.rrFractionQ + fractionQ) / one ≤ maxU128) :
    rrServiceTransaction ticks fractionQ l = .ok false (l.served (ticks * one + fractionQ)) := by
  by_cases hzero : ticks = 0 ∧ fractionQ = 0
  · obtain ⟨rfl, rfl⟩ := hzero
    rw [Nat.zero_mul, h.served_zero]
    rfl
  have hone : one = 2 ^ 32 := rfl
  obtain ⟨hhigher, hsame⟩ := h.no_rival
  have hstored := h.fraction
  have htotal : l.task.state.rrFractionQ + fractionQ ≤ maxU128 := by
    simp only [maxU64, maxU128] at *
    omega
  have hwhole : (l.task.state.rrFractionQ + (ticks * one + fractionQ)) / one
      = ticks + (l.task.state.rrFractionQ + fractionQ) / one := by
    rw [Nat.add_left_comm, Nat.add_comm (ticks * one), Nat.add_mul_div_right _ _ (by decide),
      Nat.add_comm]
  have hpart : (l.task.state.rrFractionQ + (ticks * one + fractionQ)) % one
      = (l.task.state.rrFractionQ + fractionQ) % one := by
    rw [Nat.add_left_comm, Nat.mul_add_mod_self_right]
  have hnext : rrNext l.rrTimesliceTicks l.task.rrRemaining
      (ticks + (l.task.state.rrFractionQ + fractionQ) / one)
      ((l.task.state.rrFractionQ + fractionQ) % one) false false
      = (budgetAfter l.rrTimesliceTicks l.task.rrRemaining
          (ticks + (l.task.state.rrFractionQ + fractionQ) / one),
        (l.task.state.rrFractionQ + fractionQ) % one) := by
    simp only [rrNext, budgetAfter, Bool.false_eq_true, if_false, if_neg h.budget.ne']
    split <;> rfl
  unfold rrServiceTransaction
  rw [bind_of_ok (m := read id) rfl]
  simp only [id, if_neg hzero, h.cls, ne_eq, not_true_eq_false, if_false, hhigher, hsame, hnext,
    bind_of_ok (require_of hstored), bind_of_ok (require_of htotal), bind_of_ok (require_of hticks),
    Bool.false_or, Bool.false_and]
  rw [Local.served, hwhole, hpart]
  rfl

/-- A run of services; the induction is on the calls, each of which starts where the last one
left off. -/
theorem run (services : List (Nat × Nat))
    (hfraction : (services.map Prod.snd).sum ≤ maxU64)
    (hticks : (services.map Prod.fst).sum
      + (l.task.state.rrFractionQ + (services.map Prod.snd).sum) / one ≤ maxU128) :
    services.foldlM (fun _ s => rrServiceTransaction s.1 s.2) false l = .ok false
      (l.served ((services.map Prod.fst).sum * one + (services.map Prod.snd).sum)) := by
  induction services generalizing l with
  | nil =>
    simp only [List.map_nil, List.sum_nil, Nat.zero_mul, Nat.add_zero]
    rw [h.served_zero]
    rfl
  | cons first rest ih =>
    obtain ⟨ticks, fractionQ⟩ := first
    simp only [List.map_cons, List.sum_cons] at hfraction hticks ⊢
    generalize (rest.map Prod.fst).sum = restTicks at *
    generalize (rest.map Prod.snd).sum = restFraction at *
    have hnext : (l.served (ticks * one + fractionQ)).task.state.rrFractionQ
        = (l.task.state.rrFractionQ + fractionQ) % one := by
      simp only [Local.served]
      rw [Nat.add_left_comm, Nat.mul_add_mod_self_right]
    have hsum : ticks * one + fractionQ + (restTicks * one + restFraction)
        = (ticks + restTicks) * one + (fractionQ + restFraction) := by
      rw [Nat.add_mul]
      omega
    rw [(carry l.task.state.rrFractionQ fractionQ restFraction).1] at hticks
    have hfirst := (Nat.add_le_add (Nat.le_add_right ticks restTicks)
      (Nat.le_add_right _ _)).trans hticks
    have hrest := (Nat.add_le_add (Nat.le_add_left restTicks ticks)
      (Nat.le_add_left _ _)).trans hticks
    rw [List.foldlM_cons, bind_of_ok (h.service (by omega) hfirst),
      ih (h.served _) (by omega) (by rw [hnext]; exact hrest), h.served_served, hsum]

end

end Unrivalled

end KernelAx.Eevdf
