import Mathlib.Data.List.Sort
import Mathlib.Order.Basic
import Mathlib.Order.Interval.Set.Defs

/-!
# Ordered queues

A list of elements that is kept in the order of their keys. `insertBy` links an element behind all
whose key is not greater; `Ascending` says that the keys are distinct and in order.

A `Line` gives numbers out at both of its ends, and the numbers of those who stand in it are in the
order in which they stand.
-/

namespace KernelAx

variable {ι κ : Type} [LinearOrder κ] {key : ι → κ} {t : ι} {l : List ι}

def insertBy (key : ι → κ) (t : ι) : List ι → List ι
  | [] => [t]
  | u :: l => if key t < key u then t :: u :: l else u :: insertBy key t l

/-- The keys are distinct and in order. -/
def Ascending (key : ι → κ) (l : List ι) : Prop := l.Pairwise fun t u => key t < key u

theorem mem_insertBy {u : ι} : u ∈ insertBy key t l ↔ u = t ∨ u ∈ l := by
  induction l with
  | nil => simp [insertBy]
  | cons v l ih =>
    unfold insertBy
    split_ifs
    · simp
    · rw [List.mem_cons, ih, List.mem_cons]
      tauto

namespace Ascending

variable (h : Ascending key l)
include h

theorem congr {key' : ι → κ} (hl : ∀ u ∈ l, key u = key' u) :
    Ascending key' l := by
  refine List.Pairwise.imp_of_mem (fun {u v} hu hv huv => ?_) h
  rwa [← hl u hu, ← hl v hv]

theorem nodup : l.Nodup :=
  List.Pairwise.imp (fun {u v} huv => by
    rintro rfl
    exact lt_irrefl _ huv) h

/-- Insertion behind all elements whose key is not greater. -/
theorem insertBy (ht : ∀ u ∈ l, key u ≠ key t) :
    Ascending key (insertBy key t l) := by
  induction l with
  | nil => exact List.pairwise_singleton ..
  | cons u l ih =>
    obtain ⟨hu, hl⟩ := List.pairwise_cons.mp h
    unfold KernelAx.insertBy
    split_ifs with hlt
    · refine List.pairwise_cons.mpr ⟨fun v hv => ?_, h⟩
      rcases List.mem_cons.mp hv with rfl | hv
      · exact hlt
      · exact hlt.trans (hu v hv)
    · have hut : key u < key t := lt_of_le_of_ne (not_lt.mp hlt) (ht u List.mem_cons_self)
      refine List.pairwise_cons.mpr
        ⟨fun v hv => ?_, ih hl fun v hv => ht v (List.mem_cons_of_mem u hv)⟩
      rcases mem_insertBy.mp hv with rfl | hv
      · exact hut
      · exact hu v hv

theorem sublist {l' : List ι} (hsub : l'.Sublist l) :
    Ascending key l' :=
  List.Pairwise.sublist hsub h

/-- Lists in the order of the same keys with the same members are the same. -/
theorem ext {l' : List ι} (h' : Ascending key l')
    (hmem : ∀ t, t ∈ l ↔ t ∈ l') : l = l' := by
  have hperm := (List.perm_ext_iff_of_nodup h.nodup h'.nodup).mpr hmem
  exact hperm.eq_of_pairwise (fun a b _ _ hab hba => (lt_asymm hab hba).elim) h h'

theorem injOn {u : ι} (ht : t ∈ l) (hu : u ∈ l)
    (hkey : key t = key u) : t = u := by
  have hnodup : (l.map key).Nodup := List.pairwise_map.mpr (List.Pairwise.imp (fun h => h.ne) h)
  exact List.inj_on_of_nodup_map hnodup ht hu hkey

/-- An element that is taken out and put back stands where it stood. -/
theorem insertBy_erase [DecidableEq ι] (ht : t ∈ l) :
    KernelAx.insertBy key t (l.erase t) = l := by
  have hmem (u : ι) : u ∈ l.erase t ↔ u ≠ t ∧ u ∈ l := h.nodup.mem_erase_iff
  refine Ascending.ext (Ascending.insertBy (h.sublist List.erase_sublist) fun u hu hkey => ?_) h
    fun u => ?_
  · obtain ⟨hne, hu⟩ := (hmem u).mp hu
    exact hne (h.injOn hu ht hkey)
  · rw [mem_insertBy, hmem]
    by_cases hut : u = t
    · simp only [hut, true_or, ht]
    · simp only [hut, false_or, ne_eq, not_false_eq_true, true_and]

end Ascending

/-! ### Lines -/

/-- Those in the line have numbers from `first` on and below `next`, in their order. -/
structure Line (first next : Int) (number : ι → Int) (l : List ι) : Prop where
  le : first ≤ next
  ascending : Ascending number l
  given {t : ι} : t ∈ l → first ≤ number t ∧ number t < next

namespace Line

variable {first next : Int} {number number' : ι → Int}

theorem nil (hle : first ≤ next) : Line first next number [] :=
  ⟨hle, List.Pairwise.nil, fun ht => (List.not_mem_nil ht).elim⟩

theorem congr (h : Line first next number l) (hl : ∀ u ∈ l, number u = number' u) :
    Line first next number' l :=
  ⟨h.le, h.ascending.congr hl, fun ht => by rw [← hl _ ht]; exact h.given ht⟩

theorem sublist {l' : List ι} (h : Line first next number l) (hsub : l'.Sublist l) :
    Line first next number l' :=
  ⟨h.le, h.ascending.sublist hsub, fun ht => h.given (hsub.subset ht)⟩

theorem back (h : Line first next number l) (ht : number t = next) :
    Line first (next + 1) number (l ++ [t]) := by
  have hle := h.le
  refine ⟨by omega, List.pairwise_append.mpr
    ⟨h.ascending, List.pairwise_singleton .., fun u hu v hv => ?_⟩, fun {u} hu => ?_⟩
  · obtain rfl := List.mem_singleton.mp hv
    rw [ht]
    exact (h.given hu).2
  · rcases List.mem_append.mp hu with hu | hu
    · have := h.given hu
      omega
    · obtain rfl := List.mem_singleton.mp hu
      omega

theorem front (h : Line first next number l) (ht : number t = first - 1) :
    Line (first - 1) next number (t :: l) := by
  have hle := h.le
  refine ⟨by omega, List.pairwise_cons.mpr ⟨fun u hu => ?_, h.ascending⟩, fun {u} hu => ?_⟩
  · have := (h.given hu).1
    omega
  · rcases List.mem_cons.mp hu with rfl | hu
    · omega
    · have := h.given hu
      omega

end Line

end KernelAx
