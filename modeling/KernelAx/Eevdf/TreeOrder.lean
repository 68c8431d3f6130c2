import KernelAx.Eevdf.Tree
import Mathlib.Data.List.Pairwise

/-!
# EEVDF — What the tree contains

Rotations and recolouring leave the in-order list alone, so a tree is the sorted list of its
entries: insertion puts one entry in its place, removal takes one out.
-/

namespace KernelAx.Eevdf.Tree

variable {K α : Type}

/-! ### The in-order list under local changes -/

@[simp] theorem toList_nil : (nil : Tree K α).toList = [] := rfl

@[simp] theorem toList_node (c : Color) (l : Tree K α) (e : Entry K α) (m : Nat) (r : Tree K α) :
    (node c l e m r).toList = l.toList ++ e :: r.toList := rfl

@[simp] theorem toList_setColor (c : Color) (t : Tree K α) : (t.setColor c).toList = t.toList := by
  cases t <;> rfl

@[simp] theorem toList_setChildColor (c : Color) (s : Side) (t : Tree K α) :
    (t.setChildColor c s).toList = t.toList := by
  cases t <;> cases s <;> simp [setChildColor]

@[simp] theorem toList_recompute (t : Tree K α) : t.recompute.toList = t.toList := by
  cases t <;> rfl

@[simp] theorem toList_rotate (s : Side) (t : Tree K α) : (rotate s t).toList = t.toList := by
  cases s with
  | left =>
    show (rotateLeft t).toList = _
    unfold rotateLeft
    split <;> simp
  | right =>
    show (rotateRight t).toList = _
    unfold rotateRight
    split <;> simp

/-- The entries of a path before the subtree it leads to. -/
def before : List (Crumb K α) → List (Entry K α)
  | [] => []
  | p :: path =>
    before path ++ (match p.side with | .left => [] | .right => p.sibling.toList ++ [p.entry])

/-- The entries of a path after the subtree it leads to. -/
def after : List (Crumb K α) → List (Entry K α)
  | [] => []
  | p :: path =>
    (match p.side with | .left => p.entry :: p.sibling.toList | .right => []) ++ after path

@[simp] theorem before_append (p q : List (Crumb K α)) :
    before (p ++ q) = before q ++ before p := by
  induction p with
  | nil => simp [before]
  | cons c p ih => simp [before, ih]

@[simp] theorem after_append (p q : List (Crumb K α)) : after (p ++ q) = after p ++ after q := by
  induction p with
  | nil => simp [after]
  | cons c p ih => simp [after, ih]

@[simp] theorem toList_plug (t : Tree K α) (path : List (Crumb K α)) :
    (plug t path).toList = before path ++ t.toList ++ after path := by
  induction path generalizing t with
  | nil => simp [plug, before, after]
  | cons p path ih =>
    rw [plug, ih]
    cases hs : p.side <;> simp [join, before, after, hs]

theorem toList_join (s : Side) (c : Color) (t : Tree K α) (e : Entry K α) (m : Nat) (u : Tree K α) :
    (join s c t e m u).toList
      = match s with
        | .left => t.toList ++ e :: u.toList
        | .right => u.toList ++ e :: t.toList := by
  cases s <;> rfl

@[simp] theorem before_recomputePath (t : Tree K α) (path : List (Crumb K α)) :
    before (recomputePath t path) = before path := by
  induction path generalizing t with
  | nil => rfl
  | cons p path ih => simp [recomputePath, before, ih]

@[simp] theorem after_recomputePath (t : Tree K α) (path : List (Crumb K α)) :
    after (recomputePath t path) = after path := by
  induction path generalizing t with
  | nil => rfl
  | cons p path ih => simp [recomputePath, after, ih]

/-- Two subtrees with one list at the end of a path make one list. -/
theorem before_after_cons (p : Crumb K α) (path : List (Crumb K α)) (t : Tree K α) :
    before (p :: path) ++ t.toList ++ after (p :: path)
      = before path ++ (join p.side p.color t p.entry p.subtreeMin p.sibling).toList
        ++ after path := by
  cases hs : p.side <;> simp [before, after, join, hs]

theorem toList_insertFixup (t : Tree K α) (path : List (Crumb K α)) :
    (insertFixup t path).toList = before path ++ t.toList ++ after path := by
  fun_induction insertFixup t path with
  | case1 t p g path hred parent huncle ih =>
    rw [ih, before_after_cons, before_after_cons]
    cases hs : g.side <;> simp [join, parent]
  | case2 t p g path hred parent huncle parent' =>
    have hp : parent'.toList = parent.toList := by
      simp only [parent']
      split <;> simp
    rw [before_after_cons, before_after_cons, toList_setColor, toList_plug, toList_rotate,
      toList_join, toList_join, toList_setColor, hp]
  | case3 t p g path hblack | case4 t path _ => simp

theorem toList_deleteCase (s : Side) (t : Tree K α) (c : Color) (e : Entry K α) (m : Nat)
    (u : Tree K α) :
    (deleteCase s t c e m u).tree.toList = (join s c t e m u).toList := by
  unfold deleteCase
  split
  · rw [DeleteStep.tree, toList_join, toList_join, toList_setColor]
  · have hin : (if (u.child s.flip).color = .black then
        rotate s.flip ((u.setChildColor .black s).setColor .red) else u).toList = u.toList := by
      split <;> simp
    rw [DeleteStep.tree, toList_rotate, toList_join, toList_join, toList_setChildColor,
      toList_setColor, hin]

variable {t : Tree K α} {e : Entry K α} {m : Nat}

theorem toList_of_up {s : Side} {c : Color} {u v : Tree K α} (h : deleteCase s t c e m u = .up v) :
    v.toList = (join s c t e m u).toList := by
  rw [← toList_deleteCase, h, DeleteStep.tree]

theorem toList_of_done {s : Side} {c : Color} {u v : Tree K α}
    (h : deleteCase s t c e m u = .done v) : v.toList = (join s c t e m u).toList := by
  rw [← toList_deleteCase, h, DeleteStep.tree]

theorem exists_join (s : Side) (t : Tree K α) (h : t.color = .red) :
    ∃ i e m o, t = join s .red i e m o := by
  cases t with
  | nil => cases h
  | node c l e m r =>
    simp only [color] at h
    subst h
    cases s with
    | left => exact ⟨l, e, m, r, rfl⟩
    | right => exact ⟨r, e, m, l, rfl⟩

/-- The parent of the focus after a red sibling with the inner child `i` has gone up. -/
def lowered (p : Crumb K α) (t i : Tree K α) : Tree K α :=
  (join p.side .red t p.entry p.subtreeMin i).recompute

/-- **A red sibling.** It takes the parent's place, and the parent, now red, is treated below. -/
theorem deleteFixup_red {p : Crumb K α} (path : List (Crumb K α)) {i o : Tree K α}
    (ht : t.color ≠ .red) (hp : p.sibling = join p.side .red i e m o) :
    deleteFixup t (p :: path)
      = match deleteCase p.side t .red p.entry (lowered p t i).min i with
        | .up v =>
          plug (join p.side .black (v.setColor .black) e
            (join p.side .black (lowered p t i) e m o).recompute.min o) path
        | .done v =>
          (plug (join p.side .black v e
            (join p.side .black (lowered p t i) e m o).recompute.min o) path).setColor
            .black := by
  obtain ⟨s, c, pe, pm, u⟩ := p
  simp only at hp
  subst hp
  rw [deleteFixup, if_neg ht, if_pos (by cases s <;> rfl)]
  cases s <;> rfl

theorem toList_deleteFixup (t : Tree K α) (path : List (Crumb K α)) :
    (deleteFixup t path).toList = before path ++ t.toList ++ after path := by
  induction path generalizing t with
  | nil => simp [deleteFixup, before, after]
  | cons p path ih =>
    by_cases ht : t.color = .red
    · rw [deleteFixup, if_pos ht, toList_plug, toList_setColor]
    by_cases hu : p.sibling.color = .red
    · obtain ⟨i, e, m, o, hp⟩ := exists_join p.side p.sibling hu
      rw [deleteFixup_red path ht hp, before_after_cons, hp]
      split
      · rename_i v hv
        rw [toList_plug, toList_join, toList_setColor, toList_of_up hv]
        cases p.side <;> simp [join]
      · rename_i v hv
        rw [toList_setColor, toList_plug, toList_join, toList_of_done hv]
        cases p.side <;> simp [join]
    · rw [deleteFixup, if_neg ht, if_neg hu, before_after_cons]
      split
      · rename_i v hv
        rw [ih, toList_of_up hv]
      · rename_i v hv
        rw [toList_setColor, toList_plug, toList_of_done hv]

@[simp] theorem toList_closeGap (c : Color) (t : Tree K α) (path : List (Crumb K α)) :
    (closeGap c t path).toList = before path ++ t.toList ++ after path := by
  unfold closeGap
  split
  · exact toList_deleteFixup t path
  · exact toList_plug t path

/-- The least node of a subtree comes first; the path to it goes left only. -/
theorem toList_splitMin (c : Color) (l : Tree K α) (e : Entry K α) (m : Nat) (r : Tree K α)
    (path : List (Crumb K α)) {yc : Color} {y : Entry K α} {ym : Nat} {x : Tree K α}
    {path' : List (Crumb K α)} (h : splitMin c l e m r path = (yc, y, ym, x, path')) :
    before path' = before path ∧
      y :: (x.toList ++ after path') = (node c l e m r).toList ++ after path := by
  induction l generalizing c e m r path with
  | nil =>
    simp only [splitMin, Prod.mk.injEq] at h
    obtain ⟨rfl, rfl, rfl, rfl, rfl⟩ := h
    simp
  | node lc ll le lm lr ihl _ =>
    obtain ⟨hb, ha⟩ := ihl _ _ _ _ _ h
    refine ⟨by simpa [before] using hb, ?_⟩
    rw [ha]
    simp [after]

/-! ### Order -/

section Order

variable [LinearOrder K]

/-- Keys strictly increase from left to right. -/
def Sorted (t : Tree K α) : Prop := t.toList.Pairwise fun a b => a.key < b.key

@[simp] theorem toList_recomputeUpwards (key : K) (t : Tree K α) :
    (t.recomputeUpwards key).toList = t.toList := by
  induction t with
  | nil => rfl
  | node c l e m r ihl ihr =>
    unfold recomputeUpwards
    split
    · simp [ihl]
    · split <;> simp [ihr]

@[simp] theorem toList_recomputeFrom (key : Option K) (t : Tree K α) :
    (t.recomputeFrom key).toList = t.toList := by
  cases key <;> simp [recomputeFrom]

variable {key : K} {l r t t' : Tree K α} {path path' : List (Crumb K α)} {c : Color}
  {e x : Entry K α} {m : Nat}

theorem toList_descend (h : t.descend key path = some path') :
    before path' ++ after path' = before path ++ t.toList ++ after path := by
  induction t generalizing path with
  | nil =>
    simp only [descend, Option.some.injEq] at h
    simp [← h]
  | node c l e m r ihl ihr =>
    unfold descend at h
    split at h
    · simp [ihl h, before, after]
    · split at h
      · simp [ihr h, before, after]
      · cases h

/-- The place of a new key separates the smaller from the greater keys. -/
theorem descend_bounds
    (hs : (before path ++ t.toList ++ after path).Pairwise fun a b => a.key < b.key)
    (hb : ∀ x ∈ before path, x.key < key) (ha : ∀ x ∈ after path, key < x.key)
    (h : t.descend key path = some path') :
    (∀ x ∈ before path', x.key < key) ∧ ∀ x ∈ after path', key < x.key := by
  induction t generalizing path with
  | nil =>
    simp only [descend, Option.some.injEq] at h
    exact h ▸ ⟨hb, ha⟩
  | node c l e m r ihl ihr =>
    have hpair : ((before path ++ l.toList) ++ e :: (r.toList ++ after path)).Pairwise
        fun a b => a.key < b.key := by simpa using hs
    unfold descend at h
    split at h
    · rename_i hlt
      refine ihl (by simpa [before, after] using hs) (by simpa [before] using hb) ?_ h
      intro x hx
      simp only [after, List.mem_append, List.mem_cons] at hx
      obtain (rfl | hx) | hx := hx
      · exact hlt
      · have := (List.pairwise_append.1 hpair).2.1
        exact hlt.trans ((List.pairwise_cons.1 this).1 x (by simp [hx]))
      · exact ha x hx
    · split at h
      · rename_i hgt
        refine ihr (by simpa [before, after] using hs) ?_ (by simpa [after] using ha) h
        intro x hx
        simp only [before, List.mem_append, List.mem_singleton] at hx
        obtain hx | hx | rfl := hx
        · exact hb x hx
        · have := (List.pairwise_append.1 hpair).2.2 x (by simp [hx]) e (by simp)
          exact this.trans hgt
        · exact hgt
      · cases h

theorem toList_find (h : t.find key path = some (c, l, e, r, path')) :
    e.key = key ∧
      before path' ++ (l.toList ++ e :: r.toList) ++ after path'
        = before path ++ t.toList ++ after path := by
  induction t generalizing path with
  | nil => cases h
  | node c' l' e' m r' ihl ihr =>
    unfold find at h
    split at h
    · obtain ⟨hk, hl⟩ := ihl h
      exact ⟨hk, by rw [hl]; simp [before, after]⟩
    · split at h
      · obtain ⟨hk, hl⟩ := ihr h
        exact ⟨hk, by rw [hl]; simp [before, after]⟩
      · simp only [Option.some.injEq, Prod.mk.injEq] at h
        obtain ⟨rfl, rfl, rfl, rfl, rfl⟩ := h
        exact ⟨le_antisymm (not_lt.1 ‹_›) (not_lt.1 ‹_›), rfl⟩

namespace Sorted

variable (h : Sorted (node c l e m r))
include h

theorem left : Sorted l :=
  (List.pairwise_append.1 h).1

theorem right : Sorted r :=
  (List.pairwise_cons.1 (List.pairwise_append.1 h).2.1).2

theorem lt_of_left (hx : x ∈ l.toList) : x.key < e.key :=
  (List.pairwise_append.1 h).2.2 x hx e (by simp)

theorem lt_of_right (hx : x ∈ r.toList) : e.key < x.key :=
  (List.pairwise_cons.1 (List.pairwise_append.1 h).2.1).1 x hx

end Sorted

/-- A key belongs to one entry. -/
theorem Sorted.eq_of_key (h : Sorted t) {y : Entry K α} (hx : x ∈ t.toList) (hy : y ∈ t.toList)
    (hk : x.key = y.key) : x = y := by
  by_contra hne
  have hpair : t.toList.Pairwise fun a b => a.key ≠ b.key := h.imp fun hab => hab.ne
  have : Std.Symm fun a b : Entry K α => a.key ≠ b.key := ⟨fun _ _ hab => hab.symm⟩
  exact hpair.forall hx hy hne hk

/-- In a sorted tree every entry is found by its key. -/
theorem exists_find (hs : Sorted t) (hx : x ∈ t.toList) (path : List (Crumb K α)) :
    ∃ c l r path', t.find x.key path = some (c, l, x, r, path') := by
  induction t generalizing path with
  | nil => cases hx
  | node c l e m r ihl ihr =>
    simp only [toList_node, List.mem_append, List.mem_cons] at hx
    unfold find
    obtain hx | rfl | hx := hx
    · rw [if_pos (hs.lt_of_left hx)]
      exact ihl hs.left hx _
    · rw [if_neg (lt_irrefl _), if_neg (lt_irrefl _)]
      exact ⟨c, l, r, path, rfl⟩
    · have hlt := hs.lt_of_right hx
      rw [if_neg hlt.not_gt, if_pos hlt]
      exact ihr hs.right hx _

theorem toList_removeRaw (c : Color) (l r : Tree K α) (path : List (Crumb K α)) :
    (removeRaw c l r path).toList = before path ++ (l.toList ++ r.toList) ++ after path := by
  unfold removeRaw
  split
  · simp
  · simp
  · rename_i rc rl re rm rr _
    obtain ⟨hb, ha⟩ := toList_splitMin rc rl re rm rr [] rfl
    rw [after, List.append_nil] at ha
    simp only [toList_setColor, toList_recomputeFrom, toList_closeGap, before_append,
      after_append, hb, ← ha]
    simp [before, after]

/-- **Insertion.** The entry takes its place in key order; nothing else moves. -/
theorem insertNode_toList (hs : Sorted t) (h : t.insertNode e = .ok t') :
    ∃ l r, t.toList = l ++ r ∧ t'.toList = l ++ e :: r ∧ (∀ x ∈ l, x.key < e.key) ∧
      ∀ x ∈ r, e.key < x.key := by
  unfold insertNode at h
  split at h
  · cases h
  · rename_i path hd
    cases h
    obtain ⟨hb, ha⟩ := descend_bounds (by simpa [before, after, Sorted] using hs)
      (by simp [before]) (by simp [after]) hd
    refine ⟨before path, after path, ?_, ?_, hb, ha⟩
    · simpa [before, after] using (toList_descend hd).symm
    · simp [toList_insertFixup]

theorem insertNode_sorted (hs : Sorted t) (h : t.insertNode e = .ok t') : Sorted t' := by
  obtain ⟨l, r, ht, ht', hl, hr⟩ := insertNode_toList hs h
  rw [Sorted, ht, List.pairwise_append] at hs
  obtain ⟨hsl, hsr, hlr⟩ := hs
  rw [Sorted, ht', List.pairwise_append, List.pairwise_cons]
  refine ⟨hsl, ⟨hr, hsr⟩, fun a ha b hb => ?_⟩
  obtain rfl | hb := List.mem_cons.1 hb
  · exact hl a ha
  · exact hlr a ha b hb

/-- **Removal.** Exactly the node asked for goes. -/
theorem removeNode_toList [DecidableEq α] {v : α} (h : t.removeNode key v = .ok t') :
    ∃ l e r, t.toList = l ++ e :: r ∧ t'.toList = l ++ r ∧ e.key = key ∧ e.value = v := by
  unfold removeNode at h
  split at h
  · rename_i c l e r path hf
    split at h
    · cases h
      obtain ⟨hk, hl⟩ := toList_find hf
      refine ⟨before path ++ l.toList, e, r.toList ++ after path, ?_, ?_, hk, ‹_›⟩
      · simpa [before, after] using hl.symm
      · simp [toList_removeRaw]
    · cases h
  · cases h

theorem removeNode_sorted [DecidableEq α] {v : α} (hs : Sorted t)
    (h : t.removeNode key v = .ok t') : Sorted t' := by
  obtain ⟨l, e, r, ht, ht', -, -⟩ := removeNode_toList h
  rw [Sorted, ht] at hs
  rw [Sorted, ht']
  exact hs.sublist (by simp)

theorem removeNode_ok [DecidableEq α] (hs : Sorted t) (he : e ∈ t.toList) :
    ∃ t', t.removeNode e.key e.value = .ok t' := by
  obtain ⟨c, l, r, path, hf⟩ := exists_find hs he []
  exact ⟨removeRaw c l r path, by rw [removeNode, hf]; exact if_pos rfl⟩

end Order

theorem front_eq (t : Tree K α) : t.front = t.toList.head? := by
  induction t with
  | nil => rfl
  | node c l e m r ihl _ =>
    cases l with
    | nil => rfl
    | node lc ll le lm lr =>
      rw [front, ihl, toList_node c, List.head?_append_of_ne_nil]
      · simp
      · simp

end KernelAx.Eevdf.Tree
