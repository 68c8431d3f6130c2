import Mathlib.Algebra.BigOperators.Group.Finset.Piecewise
import Mathlib.Algebra.Order.BigOperators.Group.Finset

/-!
# Tallies

A quantity that an unbounded family of parties holds between them: all but finitely many of them
hold nothing, and a counter in memory is to agree with the sum.
-/

namespace KernelAx

variable {ι κ : Type} [DecidableEq ι]

/-- `f` adds up to `total`. -/
def Tally (f : ι → Nat) (total : Nat) : Prop :=
  ∃ S : Finset ι, (∀ i, i ∉ S → f i = 0) ∧ ∑ i ∈ S, f i = total

namespace Tally

omit [DecidableEq ι] in
theorem zero : Tally (fun _ : ι => 0) 0 := ⟨∅, fun _ _ => rfl, rfl⟩

variable {f : ι → Nat} {total total' : Nat} {i : ι}

omit [DecidableEq ι] in
theorem le (h : Tally f total) (i : ι) : f i ≤ total := by
  obtain ⟨S, hzero, rfl⟩ := h
  by_cases hi : i ∈ S
  · exact Finset.single_le_sum (fun _ _ => Nat.zero_le _) hi
  · rw [hzero i hi]
    exact Nat.zero_le _

omit [DecidableEq ι] in
theorem exists_ne_zero (h : Tally f total) (hpos : total ≠ 0) : ∃ i, f i ≠ 0 := by
  obtain ⟨S, -, rfl⟩ := h
  obtain ⟨i, -, hi⟩ := Finset.exists_ne_zero_of_sum_ne_zero hpos
  exact ⟨i, hi⟩

theorem update (h : Tally f total) {m : Nat} (htotal : total' + f i = total + m) :
    Tally (Function.update f i m) total' := by
  obtain ⟨S, hzero, rfl⟩ := h
  refine ⟨insert i S, fun j hj => ?_, ?_⟩
  · rw [Finset.mem_insert, not_or] at hj
    rw [Function.update_of_ne hj.1, hzero j hj.2]
  · have hsum : ∑ j ∈ S, f j = ∑ j ∈ insert i S, f j :=
      Finset.sum_subset (Finset.subset_insert i S) fun j _ hj => hzero j hj
    have hmem : i ∈ insert i S := Finset.mem_insert_self i S
    rw [Finset.sum_update_of_mem hmem, Finset.sdiff_singleton_eq_erase]
    rw [hsum, ← Finset.add_sum_erase _ f hmem] at htotal
    omega

/-- What the parties hold is read off their states, each of which has its own type. -/
theorem update_fam {κ : ι → Type} {w : ∀ i, κ i → Nat} {calls : ∀ i, κ i}
    (h : Tally (fun j => w j (calls j)) total) {k : κ i}
    (htotal : total' + w i (calls i) = total + w i k) :
    Tally (fun j => w j (Function.update calls i k j)) total' := by
  have hupdate := h.update htotal
  have heq : (fun j => w j (Function.update calls i k j)) =
      Function.update (fun j => w j (calls j)) i (w i k) := by
    funext j
    exact Function.apply_update w calls i k j
  rwa [heq]

theorem update_comp {w : κ → Nat} {calls : ι → κ} (h : Tally (fun j => w (calls j)) total) {k : κ}
    (htotal : total' + w (calls i) = total + w k) :
    Tally (fun j => w (Function.update calls i k j)) total' :=
  update_fam (w := fun _ => w) h htotal

end Tally

end KernelAx
