import Mathlib.Data.List.Nodup

/-!
# Links — linked lists in slots

A list that is kept as links between slots: two partial functions for the neighbours of a slot and
the two ends. `Linked` says that the links hold a given list, and the lemmas what remains of it
when a slot is appended or taken out.

What holds of the `next` links of a list holds of the `prev` links of its reverse
(`Linked.reverse`), so that each lemma is proved in one direction.

`Queued` is the same for a queue with `next` links only, which grows at its tail and shrinks at its
head.
-/

namespace KernelAx

variable {α : Type} {prev next prev' next' : α → Option α} {head tail : Option α} {l : List α}
  {a : α}

/-- The links hold the list `l`. -/
structure Linked (prev next : α → Option α) (head tail : Option α) (l : List α) : Prop where
  nodup : l.Nodup
  head_eq : head = l.head?
  tail_eq : tail = l.getLast?
  next_eq : ∀ {xs a ys}, l = xs ++ a :: ys → next a = ys.head?
  prev_eq : ∀ {xs a ys}, l = xs ++ a :: ys → prev a = xs.getLast?

namespace Linked

theorem nil : Linked prev next none none [] where
  nodup := .nil
  head_eq := rfl
  tail_eq := rfl
  next_eq h := absurd h.symm (by simp)
  prev_eq h := absurd h.symm (by simp)

theorem reverse (h : Linked prev next head tail l) : Linked next prev tail head l.reverse where
  nodup := List.nodup_reverse.mpr h.nodup
  head_eq := h.tail_eq.trans (by simp)
  tail_eq := h.head_eq.trans (by simp)
  next_eq {xs a ys} hl := by
    have hl' : l = ys.reverse ++ a :: xs.reverse := by
      rw [← List.reverse_reverse l, hl]
      simp
    simpa using h.prev_eq hl'
  prev_eq {xs a ys} hl := by
    have hl' : l = ys.reverse ++ a :: xs.reverse := by
      rw [← List.reverse_reverse l, hl]
      simp
    simpa using h.next_eq hl'

theorem ends (h : Linked prev next head tail l) : Linked prev next l.head? l.getLast? l :=
  h.head_eq ▸ h.tail_eq ▸ h

theorem congr (h : Linked prev next head tail l) (hprev : ∀ x ∈ l, prev' x = prev x)
    (hnext : ∀ x ∈ l, next' x = next x) : Linked prev' next' head tail l where
  __ := h
  next_eq hl := (hnext _ (by simp [hl])).trans (h.next_eq hl)
  prev_eq hl := (hprev _ (by simp [hl])).trans (h.prev_eq hl)

/-- A slot with one behind it is not the last. -/
theorem getLast?_ne {xs ys : List α} {y : α} (h : (xs ++ a :: y :: ys).Nodup) :
    (xs ++ a :: y :: ys).getLast? ≠ some a := by
  rw [List.getLast?_append, List.getLast?_cons_cons]
  intro hlast
  have hmem : a ∈ y :: ys := List.mem_of_getLast? (by simpa using hlast)
  exact (List.nodup_cons.mp (List.nodup_append.mp h).2.1).1 hmem

/-! ### Appending -/

/-- The slot `a` is linked behind the last one. -/
theorem append [DecidableEq α] (h : Linked prev next head tail l) (ha : a ∉ l)
    (prev_self : prev' a = tail) (next_self : next' a = none)
    (prev_of : ∀ x ∈ l, prev' x = prev x)
    (next_of : ∀ x ∈ l, next' x = if tail = some x then some a else next x) :
    Linked prev' next' (if tail = none then some a else head) (some a) (l ++ [a]) where
  nodup := by
    rw [List.nodup_append]
    refine ⟨h.nodup, by simp, fun x hx y hy => ?_⟩
    rw [List.mem_singleton.mp hy]
    exact fun hxa => ha (hxa ▸ hx)
  head_eq := by
    rw [h.tail_eq, h.head_eq]
    cases l <;> simp
  tail_eq := by simp
  next_eq {xs c ys} hl := by
    rcases List.eq_nil_or_concat ys with rfl | ⟨ys, d, rfl⟩
    · obtain ⟨rfl, hc⟩ := List.append_inj' hl rfl
      obtain rfl : a = c := (List.cons_eq_cons.mp hc).1
      exact next_self
    · rw [List.concat_eq_append, ← List.cons_append, ← List.append_assoc] at hl
      obtain ⟨hinit, hd⟩ := List.append_inj' hl rfl
      obtain rfl : a = d := (List.cons_eq_cons.mp hd).1
      rw [next_of c (by simp [hinit]), h.tail_eq, h.next_eq hinit, List.concat_eq_append]
      cases ys with
      | nil => simp [hinit]
      | cons y ys =>
        have hne : l.getLast? ≠ some c := by
          rw [hinit]
          exact getLast?_ne (hinit ▸ h.nodup)
        rw [if_neg hne]
        rfl
  prev_eq {xs c ys} hl := by
    rcases List.eq_nil_or_concat ys with rfl | ⟨ys, d, rfl⟩
    · obtain ⟨rfl, hc⟩ := List.append_inj' hl rfl
      obtain rfl : a = c := (List.cons_eq_cons.mp hc).1
      rw [prev_self, h.tail_eq]
    · rw [List.concat_eq_append, ← List.cons_append, ← List.append_assoc] at hl
      obtain ⟨hinit, -⟩ := List.append_inj' hl rfl
      rw [prev_of c (by simp [hinit]), h.prev_eq hinit]

/-! ### Removing -/

section Remove

variable [DecidableEq α] {xs ys : List α}

/-- The `next` links of what remains when `a` is taken out. -/
theorem next_of_remove (h : Linked prev next head tail (xs ++ a :: ys))
    (next_of : ∀ x ∈ xs ++ ys, next' x = if prev a = some x then next a else next x)
    {us vs : List α} {c : α} (hl : xs ++ ys = us ++ c :: vs) : next' c = vs.head? := by
  rw [next_of c (by simp [hl]), h.prev_eq rfl, h.next_eq rfl]
  have hnodup := h.nodup
  rcases List.append_eq_append_iff.mp hl with ⟨zs, rfl, rfl⟩ | ⟨zs, rfl, hys⟩
  · -- `c` is behind `a`
    have hc : xs.getLast? ≠ some c := by
      intro hlast
      have hmem := List.mem_of_getLast? hlast
      exact (List.nodup_append.mp hnodup).2.2 c hmem c (by simp) rfl
    rw [if_neg hc]
    exact h.next_eq (show xs ++ a :: (zs ++ c :: vs) = (xs ++ a :: zs) ++ c :: vs by simp)
  · cases zs with
    | nil =>
      -- `c` is the first one behind `a`
      obtain rfl : ys = c :: vs := hys.symm
      have hc : us.getLast? ≠ some c := by
        intro hlast
        have hmem := List.mem_of_getLast? hlast
        exact (List.nodup_append.mp hnodup).2.2 c (by simpa using hmem) c (by simp) rfl
      rw [List.append_nil, if_neg hc]
      have hl : us ++ [] ++ a :: c :: vs = (us ++ [a]) ++ c :: vs := by simp
      exact h.next_eq hl
    | cons z zs =>
      -- `c` is before `a`
      obtain ⟨rfl, rfl⟩ := List.cons_eq_cons.mp hys
      have hl : us ++ c :: zs ++ a :: ys = us ++ c :: (zs ++ a :: ys) := by simp
      have hnext := h.next_eq hl
      cases zs with
      | nil => simp
      | cons z zs =>
        have hne := getLast?_ne (List.nodup_append.mp hnodup).1
        rw [if_neg hne, hnext]
        rfl

/-- The slot `a` is taken out: its neighbours are linked to each other, and an end moves when `a`
was there. -/
theorem remove (h : Linked prev next head tail (xs ++ a :: ys))
    (prev_of : ∀ x ∈ xs ++ ys, prev' x = if next a = some x then prev a else prev x)
    (next_of : ∀ x ∈ xs ++ ys, next' x = if prev a = some x then next a else next x) :
    Linked prev' next' (if prev a = none then next a else head)
      (if next a = none then prev a else tail) (xs ++ ys) where
  nodup := h.nodup.sublist (by simp)
  head_eq := by
    rw [h.prev_eq rfl, h.next_eq rfl, h.head_eq]
    cases xs <;> simp
  tail_eq := by
    rw [h.prev_eq rfl, h.next_eq rfl, h.tail_eq]
    rcases List.eq_nil_or_concat ys with rfl | ⟨ys, y, rfl⟩ <;> simp [List.getLast?_cons]
  next_eq := h.next_of_remove next_of
  prev_eq {us c vs} hl := by
    have hrev : Linked next prev tail head (ys.reverse ++ a :: xs.reverse) := by
      simpa using h.reverse
    have hl' : ys.reverse ++ xs.reverse = vs.reverse ++ c :: us.reverse := by
      rw [← List.reverse_append, hl]
      simp
    have hprev_of : ∀ x ∈ ys.reverse ++ xs.reverse,
        prev' x = if next a = some x then prev a else prev x :=
      fun x hx => prev_of x (by simpa [or_comm] using hx)
    simpa using hrev.next_of_remove hprev_of hl'

/-- The same, as `erase`. -/
theorem erase (h : Linked prev next head tail l) (ha : a ∈ l)
    (prev_of : ∀ x ∈ l, x ≠ a → prev' x = if next a = some x then prev a else prev x)
    (next_of : ∀ x ∈ l, x ≠ a → next' x = if prev a = some x then next a else next x) :
    Linked prev' next' (if prev a = none then next a else head)
      (if next a = none then prev a else tail) (l.erase a) := by
  obtain ⟨xs, ys, rfl⟩ := List.append_of_mem ha
  obtain ⟨hxs, -, hdisjoint⟩ := List.nodup_append.mp h.nodup
  have hane : ∀ x ∈ xs ++ ys, x ≠ a := by
    rintro x hx rfl
    rcases List.mem_append.mp hx with hx | hx
    · exact hdisjoint x hx x List.mem_cons_self rfl
    · exact (List.nodup_cons.mp (List.nodup_append.mp h.nodup).2.1).1 hx
  have hmem : ∀ x ∈ xs ++ ys, x ∈ xs ++ a :: ys := by
    intro x hx
    simp only [List.mem_append, List.mem_cons] at hx ⊢
    tauto
  have herase : (xs ++ a :: ys).erase a = xs ++ ys := by
    rw [List.erase_append_right _ fun hx => hane a (List.mem_append_left ys hx) rfl,
      List.erase_cons_head]
  rw [herase]
  exact h.remove (fun x hx => prev_of x (hmem x hx) (hane x hx))
    fun x hx => next_of x (hmem x hx) (hane x hx)

end Remove

/-! ### Ends -/

section

variable (h : Linked prev next head tail l)
include h

/-- Only the first slot has nothing before it. -/
theorem prev_eq_none_iff (ha : a ∈ l) :
    prev a = none ↔ head = some a := by
  obtain ⟨xs, ys, rfl⟩ := List.append_of_mem ha
  rw [h.prev_eq rfl, h.head_eq]
  cases xs with
  | nil => simp
  | cons x xs =>
    have hne : x ≠ a := by
      rintro rfl
      exact (List.nodup_cons.mp h.nodup).1 (by simp)
    simp [hne]

theorem next_eq_none_iff (ha : a ∈ l) :
    next a = none ↔ tail = some a :=
  h.reverse.prev_eq_none_iff (List.mem_reverse.mpr ha)

/-- A neighbour of a slot of the list is a slot of the list. -/
theorem mem_of_next (ha : a ∈ l) {b : α}
    (hb : next a = some b) : b ∈ l := by
  obtain ⟨xs, ys, rfl⟩ := List.append_of_mem ha
  rw [h.next_eq rfl] at hb
  have hmem := List.mem_of_head? hb
  simp [hmem]

theorem mem_of_prev (ha : a ∈ l) {b : α}
    (hb : prev a = some b) : b ∈ l :=
  List.mem_reverse.mp (h.reverse.mem_of_next (List.mem_reverse.mpr ha) hb)

theorem mem_of_tail (ha : tail = some a) : a ∈ l :=
  List.mem_of_getLast? (h.tail_eq ▸ ha)

end

end Linked

/-! ### Queues -/

/-- Each slot of the list is followed by the next one, and the last by none. -/
def Chain (next : α → Option α) : List α → Prop
  | [] => True
  | a :: l => next a = l.head? ∧ Chain next l

theorem Chain.congr : ∀ {l : List α}, Chain next l → (∀ x ∈ l, next' x = next x) → Chain next' l
  | [], _, _ => trivial
  | a :: _, ⟨hnext, h⟩, heq =>
    ⟨(heq a List.mem_cons_self).trans hnext,
      Chain.congr h fun x hx => heq x (List.mem_cons_of_mem a hx)⟩

theorem Chain.next_last : ∀ {l : List α}, Chain next l → l.getLast? = some a → next a = none
  | [b], ⟨hnext, _⟩, hlast => by
    obtain rfl : b = a := by simpa using hlast
    exact hnext
  | _ :: c :: l, ⟨_, h⟩, hlast => Chain.next_last h (List.getLast?_cons_cons ▸ hlast)

theorem Chain.append_of_last [DecidableEq α] : ∀ {l : List α}, Chain next l → l.Nodup →
    (∀ x ∈ l, next' x = if l.getLast? = some x then some a else next x) → next' a = none →
    Chain next' (l ++ [a])
  | [], _, _, _, hlast => ⟨hlast, trivial⟩
  | [b], _, _, heq, hlast => ⟨by simpa using heq b List.mem_cons_self, hlast, trivial⟩
  | b :: c :: l, ⟨hnext, h⟩, hnodup, heq, hlast => by
    obtain ⟨hb, hnodup⟩ := List.nodup_cons.mp hnodup
    rw [List.getLast?_cons_cons] at heq
    refine ⟨?_, Chain.append_of_last h hnodup
      (fun x hx => heq x (List.mem_cons_of_mem b hx)) hlast⟩
    have hne : (c :: l).getLast? ≠ some b := fun hlast => hb (List.mem_of_getLast? hlast)
    rw [heq b List.mem_cons_self, if_neg hne, hnext]
    rfl

/-- The links hold the list `l`, as a queue. -/
structure Queued (next : α → Option α) (head tail : Option α) (l : List α) : Prop where
  nodup : l.Nodup
  head_eq : head = l.head?
  tail_eq : tail = l.getLast?
  chain : Chain next l

namespace Queued

theorem nil : Queued next none none [] := ⟨.nil, rfl, rfl, trivial⟩

theorem congr (h : Queued next head tail l) (heq : ∀ x ∈ l, next' x = next x) :
    Queued next' head tail l :=
  ⟨h.nodup, h.head_eq, h.tail_eq, h.chain.congr heq⟩

theorem head_eq_none (h : Queued next head tail l) : head = none ↔ l = [] := by
  rw [h.head_eq, List.head?_eq_none_iff]

theorem tail_eq_none (h : Queued next head tail l) : tail = none ↔ l = [] := by
  rw [h.tail_eq, List.getLast?_eq_none_iff]

theorem next_tail (h : Queued next head tail l) (ha : tail = some a) : next a = none :=
  h.chain.next_last (h.tail_eq ▸ ha)

theorem mem_of_tail (h : Queued next head tail l) (ha : tail = some a) : a ∈ l :=
  List.mem_of_getLast? (h.tail_eq ▸ ha)

/-- `a` is linked behind the tail. -/
theorem push [DecidableEq α] (h : Queued next head tail l) (ha : a ∉ l)
    (next_of : ∀ x ∈ l, next' x = if tail = some x then some a else next x)
    (next_new : next' a = none) :
    Queued next' (if head = none then some a else head) (some a) (l ++ [a]) where
  nodup := List.nodup_append.mpr ⟨h.nodup, List.nodup_singleton a, by
    rintro x hx y hy rfl
    exact ha (List.mem_singleton.mp hy ▸ hx)⟩
  head_eq := by
    rw [h.head_eq]
    cases l <;> simp
  tail_eq := by simp
  chain := h.chain.append_of_last h.nodup (h.tail_eq ▸ next_of) next_new

/-- The head is taken. -/
theorem pop (h : Queued next head tail (a :: l)) (heq : ∀ x ∈ l, next' x = next x) :
    Queued next' (next a) (if next a = none then none else tail) l where
  nodup := (List.nodup_cons.mp h.nodup).2
  head_eq := h.chain.1
  tail_eq := by
    rw [h.chain.1, h.tail_eq]
    cases l <;> simp
  chain := h.chain.2.congr heq

end Queued

end KernelAx
