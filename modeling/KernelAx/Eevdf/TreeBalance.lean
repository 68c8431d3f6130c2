import KernelAx.Eevdf.Selection

/-!
# EEVDF — The tree stays balanced

No red node has a red child, and every way down passes as many black nodes. The subtree in focus and
the path above it are balanced apart from each other, so a fixup loop is followed by what fits in
the hole of the path.
-/

namespace KernelAx.Eevdf

variable {K α : Type}

/-- What a node adds to the black height. -/
def Color.weight : Color → Nat
  | .red => 0
  | .black => 1

theorem Color.eq_black {c : Color} (h : c ≠ .red) : c = .black := by
  cases c with
  | red => exact absurd rfl h
  | black => rfl

namespace Tree

/-- Every way down passes `n` black nodes, and no red node has a red child. -/
inductive Balanced : Tree K α → Nat → Prop
  | nil : Balanced nil 0
  | red {l e m r n} (left : Balanced l n) (right : Balanced r n) (hl : l.color = .black)
      (hr : r.color = .black) : Balanced (node .red l e m r) n
  | black {l e m r n} (left : Balanced l n) (right : Balanced r n) :
      Balanced (node .black l e m r) (n + 1)

def RedBlack (t : Tree K α) : Prop := t.color = .black ∧ ∃ n, t.Balanced n

def depth : Tree K α → Nat
  | nil => 0
  | node _ left _ _ right => max left.depth right.depth + 1

/-- The hole of the path takes a tree of black height `n`, black or of colour `c`. -/
def Fits (c : Color) (n : Nat) : List (Crumb K α) → Prop
  | [] => True
  | p :: path =>
    p.sibling.Balanced n ∧ (p.color = .red → c = .black ∧ p.sibling.color = .black) ∧
      Fits p.color (n + p.color.weight) path

/-- A node of colour `c` between `l` and `r` fits in the hole of the path. -/
structure Seated (c : Color) (l r : Tree K α) (n : Nat) (path : List (Crumb K α)) : Prop where
  fits : Fits c (n + c.weight) path
  left : l.Balanced n
  right : r.Balanced n
  black : c = .red → l.color = .black ∧ r.color = .black

variable {t u l r : Tree K α} {c : Color} {e : Entry K α} {m n : Nat} {path : List (Crumb K α)}
  {s : Side}

theorem color_setBlack (t : Tree K α) : (t.setColor .black).color = .black := by
  cases t <;> rfl

theorem setColor_color (t : Tree K α) : t.setColor t.color = t := by
  cases t <;> rfl

theorem setColor_join (s : Side) (c d : Color) (t u : Tree K α) (e : Entry K α) (m : Nat) :
    (join s c t e m u).setColor d = join s d t e m u := by
  cases s <;> rfl

theorem color_join (s : Side) (c : Color) (t u : Tree K α) (e : Entry K α) (m : Nat) :
    (join s c t e m u).color = c := by
  cases s <;> rfl

namespace Balanced

theorem join (ht : t.Balanced n) (hu : u.Balanced n)
    (hc : c = .red → t.color = .black ∧ u.color = .black) :
    (join s c t e m u).Balanced (n + c.weight) := by
  cases s <;> cases c
  · exact ht.red hu (hc rfl).1 (hc rfl).2
  · exact ht.black hu
  · exact hu.red ht (hc rfl).2 (hc rfl).1
  · exact hu.black ht

theorem joinBlack (ht : t.Balanced n) (hu : u.Balanced n) :
    (Tree.join s .black t e m u).Balanced (n + 1) :=
  ht.join hu (by simp)

theorem of_red (h : (Tree.join s .red t e m u).Balanced n) :
    t.Balanced n ∧ u.Balanced n ∧ t.color = .black := by
  cases s <;> cases h with | red hl hr hlc hrc => ?_
  · exact ⟨hl, hr, hlc⟩
  · exact ⟨hr, hl, hrc⟩

/-- A black node taken apart, with a side in front. -/
theorem exists_join (h : t.Balanced (n + 1)) (hc : t.color = .black) (s : Side) :
    ∃ i e m o, t = Tree.join s .black i e m o ∧ i.Balanced n ∧ o.Balanced n := by
  cases h with
  | red => cases hc
  | black hl hr =>
    cases s with
    | left => exact ⟨_, _, _, _, rfl, hl, hr⟩
    | right => exact ⟨_, _, _, _, rfl, hr, hl⟩

theorem setBlack (h : t.Balanced n) : (t.setColor .black).RedBlack := by
  refine ⟨color_setBlack t, ?_⟩
  cases h with
  | nil => exact ⟨0, .nil⟩
  | red hl hr | black hl hr => exact ⟨_, hl.black hr⟩

theorem setBlack_red (h : t.Balanced n) (hc : t.color = .red) :
    (t.setColor .black).Balanced (n + 1) := by
  cases h with
  | nil | black => cases hc
  | red hl hr => exact hl.black hr

theorem seated (h : (node c l e m r).Balanced n) (hp : Fits c n path) :
    ∃ k, Seated c l r k path := by
  cases h with
  | red hl hr hlc hrc => exact ⟨n, hp, hl, hr, fun _ => ⟨hlc, hrc⟩⟩
  | black hl hr => exact ⟨_, hp, hl, hr, by simp⟩

end Balanced

namespace Seated

theorem goLeft (h : Seated c l r n path) : Fits l.color n (⟨.left, c, e, m, r⟩ :: path) :=
  ⟨h.right, h.black, h.fits⟩

theorem goRight (h : Seated c l r n path) : Fits r.color n (⟨.right, c, e, m, l⟩ :: path) :=
  ⟨h.left, fun hc => (h.black hc).symm, h.fits⟩

end Seated

theorem Fits.nil : Fits c n ([] : List (Crumb K α)) := trivial

theorem Fits.plug (hp : Fits c n path) (ht : t.Balanced n)
    (hc : t.color = .black ∨ t.color = c) : ∃ k, (plug t path).Balanced k := by
  induction path generalizing t c n with
  | nil => exact ⟨n, ht⟩
  | cons p path ih =>
    obtain ⟨hu, hred, hrest⟩ := hp
    refine ih hrest (ht.join hu fun h => ⟨?_, (hred h).2⟩) (.inr (color_join ..))
    exact hc.elim id fun h' => h'.trans (hred h).1

theorem Fits.recomputePath (hp : Fits c n path) (t : Tree K α) :
    Fits c n (recomputePath t path) := by
  induction path generalizing t c n with
  | nil => trivial
  | cons p path ih => exact ⟨hp.1, hp.2.1, ih hp.2.2 _⟩

/-! ### The fixup loops -/

theorem Balanced.insertFixup (h : ∃ n, t.Balanced n ∧ Fits .black n path) (hr : t.color = .red) :
    (Tree.insertFixup t path).RedBlack := by
  fun_induction Tree.insertFixup t path with
  | case1 t p g path hred parent huncle ih =>
    obtain ⟨n, ht, hu, -, hg, hgc, hrest⟩ := h
    rw [hred] at hg hgc hrest
    have hgb : g.color = .black := Color.eq_black fun h => by cases (hgc h).1
    rw [hgb] at hrest
    have hparent : (parent.setColor .black).Balanced (n + 1) := by
      rw [setColor_join]
      exact ht.joinBlack hu
    refine ih ⟨_, hparent.join (hg.setBlack_red huncle) fun _ => ?_, hrest⟩ (color_join ..)
    exact ⟨color_setBlack _, color_setBlack _⟩
  | case2 t p g path hred parent huncle parent' =>
    obtain ⟨ps, pc, pe, pm, u⟩ := p
    obtain ⟨gs, gc, ge, gm, v⟩ := g
    obtain ⟨n, ht, hu, hub, hg, hgc, hrest⟩ := h
    cases hred
    cases gc with
    | red => cases (hgc rfl).1
    | black =>
      have hub := (hub rfl).2
      have hvb : v.color = .black := Color.eq_black huncle
      cases ht with
      | nil | black => cases hr
      | red hl hr hlc hrc =>
        have htop : (Tree.rotate gs.flip
            (Tree.join gs .red (parent'.setColor .black) ge gm v)).Balanced (n + 1) := by
          cases gs <;> cases ps
          · exact (hl.red hr hlc hrc).black (hu.red hg hub hvb)
          · exact (hu.red hl hub hlc).black (hr.red hg hrc hvb)
          · exact (hg.red hl hvb hlc).black (hr.red hu hrc hub)
          · exact (hg.red hu hvb hub).black (hl.red hr hlc hrc)
        obtain ⟨k, hk⟩ := hrest.plug htop (by cases gs <;> cases ps <;> exact .inl rfl)
        exact hk.setBlack
  | case3 t p g path hblack =>
    obtain ⟨n, ht, hp⟩ := h
    have hp' : Fits .red n (p :: g :: path) := ⟨hp.1, fun h => absurd h hblack, hp.2.2⟩
    obtain ⟨k, hk⟩ := hp'.plug ht (.inr hr)
    exact hk.setBlack
  | case4 t path hshort =>
    obtain ⟨n, ht, hp⟩ := h
    rcases path with _ | ⟨p, _ | ⟨g, path⟩⟩
    · exact ht.setBlack
    · -- the root is painted black whatever its colour
      rw [Tree.plug, Tree.plug, setColor_join]
      exact ⟨color_join .., _, ht.joinBlack hp.1⟩
    · exact (hshort p g path rfl).elim

theorem Balanced.deleteCase (ht : t.Balanced n) (hu : u.Balanced (n + 1)) (huc : u.color = .black)
    (s : Side) (c : Color) (e : Entry K α) (m : Nat) :
    (∃ v, Tree.deleteCase s t c e m u = .up v ∧ (v.setColor .black).Balanced (n + 1) ∧
        v.color = c) ∨
      ∃ v, Tree.deleteCase s t c e m u = .done v ∧ v.Balanced (n + 1 + c.weight) ∧ v.color = c := by
  obtain ⟨i, y, k, o, rfl, hi, ho⟩ := hu.exists_join huc s
  have hchild : (Tree.join s .black i y k o).child s = i ∧
      (Tree.join s .black i y k o).child s.flip = o := by
    cases s <;> exact ⟨rfl, rfl⟩
  rw [Tree.deleteCase, hchild.1, hchild.2]
  by_cases hob : o.color = .black
  · by_cases hib : i.color = .black
    · rw [if_pos ⟨hib, hob⟩, setColor_join]
      refine .inl ⟨_, rfl, ?_, color_join ..⟩
      rw [setColor_join]
      exact ht.joinBlack (hi.join (c := .red) ho fun _ => ⟨hib, hob⟩)
    · rw [if_neg (fun h => hib h.1), if_pos hob]
      refine .inr ⟨_, rfl, ?_⟩
      cases hi with
      | nil | black => exact absurd rfl hib
      | red h₁ h₂ =>
        cases s with
        | left => exact ⟨(ht.black h₁).join (s := .left) (h₂.black ho) fun _ => ⟨rfl, rfl⟩, rfl⟩
        | right => exact ⟨(h₂.black ht).join (s := .right) (ho.black h₁) fun _ => ⟨rfl, rfl⟩, rfl⟩
  · rw [if_neg (fun h => hob h.2), if_neg hob]
    refine .inr ⟨_, rfl, ?_⟩
    have hblack := ho.setBlack_red (by_contra fun h => hob (Color.eq_black h))
    have hc := color_setBlack o
    cases s with
    | left => exact ⟨(ht.black hi).join (s := .left) hblack fun _ => ⟨rfl, hc⟩, rfl⟩
    | right => exact ⟨(hi.black ht).join (s := .right) hblack fun _ => ⟨rfl, hc⟩, rfl⟩

theorem Balanced.deleteFixup (ht : (t.setColor .black).Balanced n)
    (hp : Fits c (n + t.color.weight) path) : ∃ k, (Tree.deleteFixup t path).Balanced k := by
  induction path generalizing t n c with
  | nil => exact ⟨n, ht⟩
  | cons p path ih =>
    by_cases hred : t.color = .red
    · rw [Tree.deleteFixup, if_pos hred]
      rw [hred] at hp
      exact hp.plug ht (.inl (color_setBlack t))
    have htb := Color.eq_black hred
    rw [← htb, setColor_color] at ht
    rw [htb] at hp
    obtain ⟨hu, hpc, hrest⟩ := hp
    by_cases hsib : p.sibling.color = .red
    · obtain ⟨i, e, m, o, hj⟩ := Tree.exists_join p.side p.sibling hsib
      have hpb : p.color = .black := Color.eq_black fun h => by cases hsib.symm.trans (hpc h).2
      rw [hj] at hu
      rw [hpb] at hrest
      obtain ⟨hi, ho, hib⟩ := hu.of_red
      rw [deleteFixup_red path hred hj]
      obtain ⟨v, hv, hb, -⟩ | ⟨v, hv, hb, -⟩ :=
        ht.deleteCase hi hib p.side .red p.entry (lowered p t i).min <;> rw [hv]
      · exact hrest.plug (hb.joinBlack ho) (.inl (color_join ..))
      · obtain ⟨k, hk⟩ := hrest.plug (hb.joinBlack ho) (.inl (color_join ..))
        exact hk.setBlack.2
    · rw [Tree.deleteFixup, if_neg hred, if_neg hsib]
      obtain ⟨v, hv, hb, hvc⟩ | ⟨v, hv, hb, hvc⟩ :=
        ht.deleteCase hu (Color.eq_black hsib) p.side p.color p.entry p.subtreeMin <;> rw [hv]
      · exact ih hb (hvc.symm ▸ hrest)
      · obtain ⟨k, hk⟩ := hrest.plug hb (.inr hvc)
        exact hk.setBlack.2

theorem Fits.closeGap (hp : Fits c (n + c.weight) path) (ht : t.Balanced n)
    (hc : c = .red → t.color = .black) : ∃ k, (closeGap c t path).Balanced k := by
  cases c with
  | red => exact hp.plug ht (.inl (hc rfl))
  | black =>
    rw [Tree.closeGap, if_pos rfl]
    cases htc : t.color with
    | red => exact (ht.setBlack_red htc).deleteFixup (c := .black) (by rw [htc]; exact hp)
    | black =>
      rw [← setColor_color t, htc] at ht
      exact ht.deleteFixup (c := .black) (by rw [htc]; exact hp)

/-! ### The operations -/

theorem Seated.splitMin {spine' : List (Crumb K α)} {x : Tree K α} {yc : Color} {y : Entry K α}
    {k : Nat} (spine : List (Crumb K α)) (h : Seated c l r n (spine ++ path))
    (hy : splitMin c l e m r spine = (yc, y, k, x, spine')) :
    Seated yc nil x 0 (spine' ++ path) := by
  induction l generalizing c e m r n spine with
  | nil =>
    cases h.left
    cases hy
    exact h
  | node lc ll le lm lr ihl _ =>
    obtain ⟨k, hl⟩ := h.left.seated (h.goLeft (e := e) (m := m))
    exact ihl (_ :: spine) hl hy

section Order

variable [LinearOrder K] {key : K} {path' : List (Crumb K α)}

theorem Fits.descend (hp : Fits t.color n path) (ht : t.Balanced n)
    (h : t.descend key path = some path') : Fits .black 0 path' := by
  induction t generalizing path n with
  | nil =>
    cases ht
    cases h
    exact hp
  | node c l e m r ihl ihr =>
    obtain ⟨k, hs⟩ := ht.seated hp
    unfold Tree.descend at h
    split at h
    · exact ihl hs.goLeft hs.left h
    · split at h
      · exact ihr hs.goRight hs.right h
      · cases h

theorem Fits.find (hp : Fits t.color n path) (ht : t.Balanced n)
    (h : t.find key path = some (c, l, e, r, path')) : ∃ k, Seated c l r k path' := by
  induction t generalizing path n with
  | nil => cases h
  | node c l e m r ihl ihr =>
    obtain ⟨k, hs⟩ := ht.seated hp
    unfold Tree.find at h
    split at h
    · exact ihl hs.goLeft hs.left h
    · split at h
      · exact ihr hs.goRight hs.right h
      · cases h
        exact ⟨k, hs⟩

theorem Balanced.recomputeUpwards (h : t.Balanced n) (key : K) :
    (t.recomputeUpwards key).Balanced n ∧ (t.recomputeUpwards key).color = t.color := by
  induction h with
  | nil => exact ⟨.nil, rfl⟩
  | red hl hr hlc hrc ihl ihr =>
    unfold Tree.recomputeUpwards
    split_ifs
    · exact ⟨ihl.1.red hr (ihl.2.trans hlc) hrc, rfl⟩
    · exact ⟨hl.red ihr.1 hlc (ihr.2.trans hrc), rfl⟩
    · exact ⟨hl.red hr hlc hrc, rfl⟩
  | black hl hr ihl ihr =>
    unfold Tree.recomputeUpwards
    split_ifs
    · exact ⟨ihl.1.black hr, rfl⟩
    · exact ⟨hl.black ihr.1, rfl⟩
    · exact ⟨hl.black hr, rfl⟩

theorem Balanced.recomputeFrom (h : t.Balanced n) (key : Option K) :
    (t.recomputeFrom key).Balanced n := by
  cases key with
  | none => exact h
  | some key => exact (h.recomputeUpwards key).1

theorem Seated.removeRaw (h : Seated c l r n path) : (removeRaw c l r path).RedBlack := by
  unfold Tree.removeRaw
  split
  · obtain ⟨k, hk⟩ := h.fits.closeGap h.right fun hc => (h.black hc).2
    exact ((hk.recomputeFrom _).recomputeFrom _).setBlack
  · obtain ⟨k, hk⟩ := h.fits.closeGap h.left fun hc => (h.black hc).1
    exact ((hk.recomputeFrom _).recomputeFrom _).setBlack
  · rename_i rc rl re rm rr _
    obtain ⟨j, hs⟩ := h.right.seated h.goRight
    have hx := hs.splitMin [] (e := re) (m := rm) rfl
    obtain ⟨k, hk⟩ := hx.fits.closeGap hx.right fun hc => (hx.black hc).2
    exact (((hk.recomputeFrom _).recomputeFrom _).recomputeFrom _).setBlack

theorem RedBlack.remove (h : t.RedBlack) (hf : t.find key [] = some (c, l, e, r, path)) :
    (Tree.removeRaw c l r path).RedBlack := by
  obtain ⟨-, n, hn⟩ := h
  obtain ⟨k, hs⟩ := Fits.nil.find hn hf
  exact hs.removeRaw

end Order

theorem Balanced.bounds (h : t.Balanced n) :
    t.depth + t.color.weight ≤ 2 * n + 1 ∧ 2 ^ n ≤ t.toList.length + 1 := by
  induction h with
  | nil => exact ⟨le_rfl, le_rfl⟩
  | red _ _ hl hr ihl ihr =>
    rw [hl] at ihl
    rw [hr] at ihr
    simp only [depth, color, Color.weight, toList_node, List.length_append, List.length_cons] at *
    omega
  | @black l e m r n _ _ ihl ihr =>
    have hcolor : (node .black l e m r).color.weight = 1 := rfl
    simp only [depth, toList_node, List.length_append, List.length_cons, Nat.pow_succ]
    omega

end Tree

namespace EevdfTree

variable [LinearOrder K] [DecidableEq α] {t : EevdfTree K α}

theorem Reached.redBlack (h : t.Reached) : t.root.RedBlack := by
  induction h with
  | new => exact ⟨rfl, 0, .nil⟩
  | @insert t _ _ e _ _ inserted ih =>
    obtain ⟨-, root, hn, rfl⟩ := insert_ok inserted
    unfold Tree.insertNode at hn
    split at hn
    · cases hn
    · rename_i path hd
      cases hn
      obtain ⟨-, n, hroot⟩ := ih
      have hp := Tree.Fits.nil.descend hroot hd
      obtain ⟨hc, k, hk⟩ := Tree.Balanced.insertFixup (t := .node .red .nil e e.eligibleAt .nil)
        ⟨0, .red .nil .nil rfl rfl, hp.recomputePath _⟩ rfl
      exact ⟨(hk.recomputeUpwards e.key).2.trans hc, k, (hk.recomputeUpwards e.key).1⟩
  | remove _ removed ih =>
    obtain ⟨-, root, hn, rfl⟩ := remove_ok removed
    unfold Tree.removeNode at hn
    split at hn
    · split at hn
      · cases hn
        exact ih.remove ‹_›
      · cases hn
    · cases hn
  | pop _ popped ih =>
    unfold popEarliestEligible at popped
    split at popped
    · cases popped
    · split at popped
      · cases popped
        exact ih.remove ‹_›
      · cases popped

/-- **The tree stays balanced.** On every tree that the operations lead to, the root is black, no
red node has a red child, every way down passes as many black nodes, and so no way down is longer
than `2 log₂ (len + 1)`. -/
theorem depth_logarithmic (h : t.Reached) :
    t.root.RedBlack ∧ 2 ^ ((t.root.depth + 1) / 2) ≤ t.len + 1 := by
  obtain ⟨hc, n, hn⟩ := h.redBlack
  obtain ⟨hdepth, hlen⟩ := hn.bounds
  rw [hc, Color.weight] at hdepth
  refine ⟨⟨hc, n, hn⟩, le_trans (Nat.pow_le_pow_right (by omega) (by omega : _ ≤ n)) ?_⟩
  rw [h.valid.len]
  exact hlen

theorem depth_logarithmic_pair : pair.root.RedBlack ∧ 2 ^ ((pair.root.depth + 1) / 2) ≤ 3 :=
  depth_logarithmic pair_reached

end EevdfTree

end KernelAx.Eevdf
