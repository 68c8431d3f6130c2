import Mathlib.Data.List.Count
import Mathlib.Data.List.Perm.Basic
import Mathlib.Data.List.Nodup

/-!
# Slots

Slots of a fixed number of them: how the count of those with some property changes with one of them,
and `rotation`, the order in which a free one is looked for.
-/

namespace KernelAx

theorem countP_of_ne {β : Type} [DecidableEq β] {l : List β} {p q : β → Bool} {k : β}
    (hnodup : l.Nodup) (hk : k ∈ l) (hne : ∀ s ∈ l, s ≠ k → p s = q s) :
    l.countP q + (p k).toNat = l.countP p + (q k).toNat := by
  have hperm := List.perm_cons_erase hk
  have hrest : (l.erase k).countP p = (l.erase k).countP q := by
    refine List.countP_congr fun s hs => ?_
    rw [hne s (List.mem_of_mem_erase hs) fun e => ?_]
    subst e
    exact hnodup.not_mem_erase hs
  rw [hperm.countP_eq, hperm.countP_eq, List.countP_cons, List.countP_cons, hrest]
  cases p k <;> cases q k <;> simp

/-! ### Looking for a free slot -/

/-- The slots from `next` on and then those before it. -/
def rotation (capacity next : Nat) : List Nat :=
  List.range' next (capacity - next) ++ List.range next

theorem mem_rotation {capacity next slot : Nat} (h : next ≤ capacity) :
    slot ∈ rotation capacity next ↔ slot < capacity := by
  simp only [rotation, List.mem_append, List.mem_range', List.mem_range]
  constructor
  · rintro (⟨i, hi, rfl⟩ | hlt) <;> omega
  · intro hlt
    by_cases hnext : slot < next
    · exact .inr hnext
    · exact .inl ⟨slot - next, by omega, by omega⟩

end KernelAx
