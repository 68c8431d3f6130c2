import KernelAx.Eevdf.TreeOrder

/-!
# EEVDF — The cached minima

`EevdfTree::peek_earliest_eligible` trusts the minima cached in the nodes. The operations may
leave stale caches on the way from one node to the root, and a final walk upwards from that node
repairs them. `CachedOff stale` says that every subtree without the key `stale` is exact: rotations
and recolouring keep it, and the walk turns it into `Cached`.
-/

namespace KernelAx.Eevdf.Tree

open EevdfTree

variable {K α : Type}

/-- The least eligibility point of a node and its two subtrees. -/
def nodeMin (l : Tree K α) (e : Entry K α) (r : Tree K α) : Nat :=
  Nat.min (Nat.min e.eligibleAt l.min) r.min

/-- The subtree holds an entry of that key. -/
def HasKey (key : Option K) (t : Tree K α) : Prop := ∃ x ∈ t.toList, some x.key = key

/-- Every node whose subtree does not hold the key `stale` has an exact cache. -/
def CachedOff (stale : Option K) : Tree K α → Prop
  | nil => True
  | node c l e m r =>
    l.CachedOff stale ∧ r.CachedOff stale ∧
      (¬ HasKey stale (node c l e m r) → m = nodeMin l e r)

def Cached (t : Tree K α) : Prop := t.CachedOff none

theorem not_hasKey_none (t : Tree K α) : ¬ HasKey none t := by
  rintro ⟨x, -, h⟩
  cases h

variable {key stale : Option K} {l r t u : Tree K α} {c : Color} {e : Entry K α} {m : Nat}
  {path : List (Crumb K α)}

theorem HasKey.of_toList (h : HasKey key t) (hl : ∀ x ∈ t.toList, x ∈ u.toList) : HasKey key u := by
  obtain ⟨x, hx, hk⟩ := h
  exact ⟨x, hl x hx, hk⟩

theorem hasKey_congr (hl : t.toList = u.toList) : HasKey key t ↔ HasKey key u := by
  simp only [HasKey, hl]

theorem cachedOff_node :
    (node c l e m r).CachedOff stale ↔ l.CachedOff stale ∧ r.CachedOff stale ∧
      (¬ HasKey stale (node c l e m r) → m = nodeMin l e r) := Iff.rfl

theorem cached_node : (node c l e m r).Cached ↔ l.Cached ∧ r.Cached ∧ m = nodeMin l e r := by
  simp [Cached, cachedOff_node, not_hasKey_none]

/-- Away from the stale key a subtree is exact. -/
theorem CachedOff.cached (h : t.CachedOff stale) (hk : ¬ HasKey stale t) : t.Cached := by
  induction t with
  | nil => trivial
  | node c l e m r ihl ihr =>
    obtain ⟨hl, hr, hm⟩ := h
    refine cached_node.2 ⟨ihl hl fun hx => hk (hx.of_toList ?_),
      ihr hr fun hx => hk (hx.of_toList ?_), hm hk⟩ <;>
    · intro x hx
      simp [hx]

theorem Cached.cachedOff (h : t.Cached) (stale : Option K) : t.CachedOff stale := by
  induction t with
  | nil => trivial
  | node c l e m r ihl ihr =>
    obtain ⟨hl, hr, hm⟩ := cached_node.1 h
    exact ⟨ihl hl, ihr hr, fun _ => hm⟩

/-! ### Local changes -/

@[simp] theorem min_setColor (c : Color) (t : Tree K α) : (t.setColor c).min = t.min := by
  cases t <;> rfl

theorem CachedOff.setColor (h : t.CachedOff stale) (c : Color) :
    (t.setColor c).CachedOff stale := by
  cases t with
  | nil => trivial
  | node c' l e m r => exact h

theorem CachedOff.setChildColor (h : t.CachedOff stale) (c : Color) (s : Side) :
    (t.setChildColor c s).CachedOff stale := by
  cases t with
  | nil => cases s <;> trivial
  | node c' l e m r =>
    obtain ⟨hl, hr, hm⟩ := h
    cases s with
    | left =>
      refine ⟨hl.setColor c, hr, fun hk => ?_⟩
      rw [nodeMin, min_setColor]
      exact hm fun hx => hk ((hasKey_congr (by simp)).1 hx)
    | right =>
      refine ⟨hl, hr.setColor c, fun hk => ?_⟩
      rw [nodeMin, min_setColor]
      exact hm fun hx => hk ((hasKey_congr (by simp)).1 hx)

theorem CachedOff.recompute_node (hl : l.CachedOff stale) (hr : r.CachedOff stale) (c : Color)
    (e : Entry K α) (m : Nat) : (node c l e m r).recompute.CachedOff stale :=
  ⟨hl, hr, fun _ => rfl⟩

theorem CachedOff.rotate (h : t.CachedOff stale) (s : Side) : (t.rotate s).CachedOff stale := by
  cases s with
  | left =>
    show (rotateLeft t).CachedOff stale
    unfold rotateLeft
    split
    · obtain ⟨ha, ⟨hb, hc, -⟩, -⟩ := h
      exact (ha.recompute_node hb _ _ _).recompute_node hc _ _ _
    · exact h
  | right =>
    show (rotateRight t).CachedOff stale
    unfold rotateRight
    split
    · obtain ⟨⟨ha, hb, -⟩, hc, -⟩ := h
      exact ha.recompute_node (hb.recompute_node hc _ _ _) _ _ _
    · exact h

theorem hasKey_join (hk : HasKey key t ∨ some e.key = key) (s : Side) (c : Color) (m : Nat)
    (u : Tree K α) : HasKey key (join s c t e m u) := by
  obtain ⟨x, hx, hxk⟩ | hk := hk
  · exact ⟨x, by cases s <;> simp [join, hx], hxk⟩
  · exact ⟨e, by cases s <;> simp [join], hk⟩

/-- A node that holds the stale key owes nothing itself. -/
theorem CachedOff.join {stale : Option K} {t u : Tree K α} (ht : t.CachedOff stale)
    (hu : u.CachedOff stale) {e : Entry K α} (hk : HasKey stale t ∨ some e.key = stale)
    (s : Side) (c : Color) (m : Nat) : (join s c t e m u).CachedOff stale := by
  have hhas := hasKey_join hk s c m u
  cases s with
  | left => exact ⟨ht, hu, fun h => absurd hhas h⟩
  | right => exact ⟨hu, ht, fun h => absurd hhas h⟩

/-- What hangs off a path is exact away from the stale key. -/
def PathOff (stale : Option K) (path : List (Crumb K α)) : Prop :=
  ∀ p ∈ path, p.sibling.CachedOff stale

theorem PathOff.nil : PathOff stale ([] : List (Crumb K α)) := by
  simp [PathOff]

theorem PathOff.cons {stale : Option K} {p : Crumb K α} {path : List (Crumb K α)}
    (hpath : PathOff stale path) (hp : p.sibling.CachedOff stale) : PathOff stale (p :: path) :=
  List.forall_mem_cons.2 ⟨hp, hpath⟩

theorem PathOff.of_none (h : PathOff none path) (stale : Option K) :
    PathOff stale path := fun p hp => Cached.cachedOff (h p hp) stale

theorem PathOff.recomputePath (h : PathOff stale path) (t : Tree K α) :
    PathOff stale (t.recomputePath path) := by
  induction path generalizing t with
  | nil => exact .nil
  | cons p path ih =>
    exact .cons (ih (fun q hq => h q (by simp [hq])) _) (h p (by simp))

/-- The whole way from a subtree to the root holds the stale key. -/
def OnWay (stale : Option K) (t : Tree K α) (path : List (Crumb K α)) : Prop :=
  ∀ p ∈ path.head?, HasKey stale t ∨ some p.entry.key = stale

theorem OnWay.of_hasKey (h : HasKey stale t) (path : List (Crumb K α)) :
    OnWay stale t path := fun _ _ => .inl h

namespace CachedOff

variable (ht : t.CachedOff stale)
include ht

theorem plug (hp : PathOff stale path)
    (hw : OnWay stale t path) : (t.plug path).CachedOff stale := by
  induction path generalizing t with
  | nil => exact ht
  | cons p path ih =>
    have hk := hw p rfl
    exact ih (ht.join (hp p (by simp)) hk _ _ _) (fun q hq => hp q (by simp [hq]))
      (.of_hasKey (hasKey_join hk _ _ _ _) path)

theorem insertFixup (hp : PathOff stale path)
    (hk : HasKey stale t) : (t.insertFixup path).CachedOff stale := by
  fun_induction Tree.insertFixup t path with
  | case1 t p g path hred parent huncle ih =>
    have hparent : parent.CachedOff stale := ht.join (hp p (by simp)) (.inl hk) _ _ _
    have hkp : HasKey stale (parent.setColor .black) :=
      (hasKey_congr (toList_setColor _ _)).2 (hasKey_join (.inl hk) _ _ _ _)
    refine ih ?_ (fun q hq => hp q (by simp [hq])) (hasKey_join (.inl hkp) _ _ _ _)
    exact (hparent.setColor _).join ((hp g (by simp)).setColor _) (.inl hkp) _ _ _
  | case2 t p g path hred parent huncle parent' =>
    have hparent : parent.CachedOff stale := ht.join (hp p (by simp)) (.inl hk) _ _ _
    have hparent' : parent'.CachedOff stale := by
      simp only [parent']
      split
      · exact hparent
      · exact hparent.rotate _
    have hkp : HasKey stale (parent'.setColor .black) := by
      have hl : (parent'.setColor .black).toList = parent.toList := by
        simp only [parent', toList_setColor]
        split <;> simp
      exact (hasKey_congr hl).2 (hasKey_join (.inl hk) p.side p.color p.subtreeMin p.sibling)
    have htop := (hparent'.setColor .black).join (hp g (by simp)) (e := g.entry) (.inl hkp)
      g.side .red g.subtreeMin
    refine CachedOff.setColor (CachedOff.plug (htop.rotate _)
      (fun q hq => hp q (by simp [hq])) (.of_hasKey ?_ path)) _
    exact (hasKey_congr (toList_rotate _ _)).2 (hasKey_join (.inl hkp) _ _ _ _)
  | case3 t p g path hblack => exact (ht.plug hp (.of_hasKey hk _)).setColor _
  | case4 t path _ => exact (ht.plug hp (.of_hasKey hk _)).setColor _

theorem deleteCase (hu : u.CachedOff stale)
    (hk : HasKey stale t ∨ some e.key = stale) (s : Side) (c : Color) (m : Nat) :
    (deleteCase s t c e m u).tree.CachedOff stale := by
  unfold Tree.deleteCase
  split
  · exact ht.join (hu.setColor _) hk _ _ _
  · have hin : (if (u.child s.flip).color = .black then
        Tree.rotate s.flip ((u.setChildColor .black s).setColor .red) else u).CachedOff stale := by
      split
      · exact ((hu.setChildColor _ _).setColor _).rotate _
      · exact hu
    exact (ht.join ((hin.setColor _).setChildColor _ _) hk _ _ _).rotate _

theorem deleteFixup (hp : PathOff stale path)
    (hw : OnWay stale t path) : (t.deleteFixup path).CachedOff stale := by
  induction path generalizing t with
  | nil => exact ht.setColor _
  | cons p path ih =>
    have hk := hw p rfl
    have hp' : PathOff stale path := fun q hq => hp q (by simp [hq])
    have hsib := hp p (by simp)
    -- what an iteration makes of the parent still holds the stale key
    have hkey : ∀ {c m u v} (_ : v.toList = (Tree.join p.side c t p.entry m u).toList),
        HasKey stale v := fun h => (hasKey_congr h).2 (hasKey_join hk _ _ _ _)
    by_cases hred : t.color = .red
    · rw [Tree.deleteFixup, if_pos hred]
      refine (ht.setColor _).plug hp fun q hq => ?_
      exact (hw q hq).imp_left (hasKey_congr (by simp)).2
    by_cases hu : p.sibling.color = .red
    · obtain ⟨i, e, m, o, hj⟩ := exists_join p.side p.sibling hu
      have hio : i.CachedOff stale ∧ o.CachedOff stale := by
        rw [hj] at hsib
        cases hs : p.side with
        | left => rw [hs] at hsib; exact ⟨hsib.1, hsib.2.1⟩
        | right => rw [hs] at hsib; exact ⟨hsib.2.1, hsib.1⟩
      have hcase := ht.deleteCase hio.1 hk p.side .red (lowered p t i).min
      rw [deleteFixup_red path hred hj]
      split
      · rename_i v hv
        rw [hv] at hcase
        have hkv := (hasKey_congr (toList_setColor .black v)).2 (hkey (toList_of_up hv))
        exact ((hcase.setColor _).join hio.2 (.inl hkv) _ _ _).plug hp'
          (.of_hasKey (hasKey_join (.inl hkv) _ _ _ _) path)
      · rename_i v hv
        rw [hv] at hcase
        have hkv := hkey (toList_of_done hv)
        exact ((hcase.join hio.2 (.inl hkv) _ _ _).plug hp'
          (.of_hasKey (hasKey_join (.inl hkv) _ _ _ _) path)).setColor _
    · have hcase := ht.deleteCase hsib hk p.side p.color p.subtreeMin
      rw [Tree.deleteFixup, if_neg hred, if_neg hu]
      split
      · rename_i v hv
        rw [hv] at hcase
        exact ih hcase hp' (.of_hasKey (hkey (toList_of_up hv)) path)
      · rename_i v hv
        rw [hv] at hcase
        exact (hcase.plug hp' (.of_hasKey (hkey (toList_of_done hv)) path)).setColor _

theorem closeGap (hp : PathOff stale path)
    (hw : OnWay stale t path) (c : Color) : (closeGap c t path).CachedOff stale := by
  unfold Tree.closeGap
  split
  · exact ht.deleteFixup hp hw
  · exact ht.plug hp hw

end CachedOff

theorem splitMin_cached (c : Color) (l : Tree K α) (e : Entry K α) (m : Nat) (r : Tree K α)
    (path : List (Crumb K α)) {yc : Color} {y : Entry K α} {ym : Nat} {x : Tree K α}
    {path' : List (Crumb K α)} (hl : l.Cached) (hr : r.Cached) (hp : PathOff none path)
    (h : splitMin c l e m r path = (yc, y, ym, x, path')) :
    x.Cached ∧ PathOff none path' := by
  induction l generalizing c e m r path with
  | nil =>
    simp only [splitMin, Prod.mk.injEq] at h
    obtain ⟨rfl, rfl, rfl, rfl, rfl⟩ := h
    exact ⟨hr, hp⟩
  | node lc ll le lm lr ihl _ =>
    obtain ⟨hll, hlr, -⟩ := hl
    exact ihl _ _ _ _ _ hll hlr (.cons (p := ⟨.left, c, e, m, r⟩) hp hr) h

/-- Closing the gap under a parent leaves its way to the root stale. -/
theorem Cached.closeGap (ht : t.Cached) (hp : PathOff none path) (c : Color) :
    (closeGap c t path).CachedOff (path.head?.map (·.entry.key)) :=
  (ht.cachedOff _).closeGap (hp.of_none _)
    (fun p hp => .inr (by rw [Option.mem_def.1 hp]; rfl)) c

/-! ### The walk upwards -/

section Order

variable [LinearOrder K]

variable {stale : Option K} {t : Tree K α} {key : K} {path : List (Crumb K α)}

theorem CachedOff.recomputeUpwards (h : t.CachedOff stale) (key : K) :
    (t.recomputeUpwards key).CachedOff stale := by
  induction t with
  | nil => trivial
  | node c l e m r ihl ihr =>
    obtain ⟨hl, hr, -⟩ := h
    unfold Tree.recomputeUpwards
    split
    · exact (ihl hl).recompute_node hr _ _ _
    · split
      · exact hl.recompute_node (ihr hr) _ _ _
      · exact hl.recompute_node hr _ _ _

/-- **The walk repairs the caches.** In a sorted tree the stale key lies on one side only. -/
theorem CachedOff.cached_recomputeUpwards (hs : Sorted t) (h : t.CachedOff (some key)) :
    (t.recomputeUpwards key).Cached := by
  induction t with
  | nil => trivial
  | node c l e m r ihl ihr =>
    obtain ⟨hl, hr, -⟩ := h
    have hleft : ¬ key < e.key → l.Cached := fun hle => hl.cached <| by
      rintro ⟨x, hx, hk⟩
      cases hk
      exact hle (hs.lt_of_left hx)
    have hright : ¬ e.key < key → r.Cached := fun hge => hr.cached <| by
      rintro ⟨x, hx, hk⟩
      cases hk
      exact hge (hs.lt_of_right hx)
    unfold Tree.recomputeUpwards
    split
    · rename_i hlt
      exact (ihl hs.left hl).recompute_node (hright hlt.not_gt) _ _ _
    · rename_i hle
      split
      · exact (hleft hle).recompute_node (ihr hs.right hr) _ _ _
      · rename_i hge
        exact (hleft hle).recompute_node (hright hge) _ _ _

theorem CachedOff.recomputeFrom (h : t.CachedOff stale) (key : Option K) :
    (t.recomputeFrom key).CachedOff stale := by
  cases key with
  | none => exact h
  | some key => exact h.recomputeUpwards key

theorem CachedOff.cached_recomputeFrom (hs : Sorted t) (h : t.CachedOff stale) :
    (t.recomputeFrom stale).Cached := by
  cases stale with
  | none => exact h
  | some key => exact h.cached_recomputeUpwards hs

theorem descend_pathOff {path' : List (Crumb K α)} (ht : t.Cached) (hp : PathOff none path)
    (h : t.descend key path = some path') : PathOff none path' := by
  induction t generalizing path with
  | nil =>
    simp only [descend, Option.some.injEq] at h
    exact h ▸ hp
  | node c l e m r ihl ihr =>
    obtain ⟨hl, hr, -⟩ := ht
    unfold descend at h
    split at h
    · exact ihl hl (hp.cons hr) h
    · split at h
      · exact ihr hr (hp.cons hl) h
      · cases h

theorem find_cached {l r : Tree K α} {path' : List (Crumb K α)} {c : Color} {e : Entry K α}
    (ht : t.Cached) (hp : PathOff none path) (h : t.find key path = some (c, l, e, r, path')) :
    l.Cached ∧ r.Cached ∧ PathOff none path' := by
  induction t generalizing path with
  | nil => cases h
  | node c' l' e' m r' ihl ihr =>
    obtain ⟨hl, hr, -⟩ := ht
    unfold find at h
    split at h
    · exact ihl hl (hp.cons hr) h
    · split at h
      · exact ihr hr (hp.cons hl) h
      · simp only [Option.some.injEq, Prod.mk.injEq] at h
        obtain ⟨rfl, rfl, rfl, rfl, rfl⟩ := h
        exact ⟨hl, hr, hp⟩

theorem removeRaw_cached {c : Color} {l r : Tree K α}
    (hs : (before path ++ (l.toList ++ r.toList) ++ after path).Pairwise fun a b => a.key < b.key)
    (hl : l.Cached) (hr : r.Cached) (hp : PathOff none path) : (removeRaw c l r path).Cached := by
  unfold removeRaw
  split
  · refine CachedOff.setColor (CachedOff.cached_recomputeFrom ?_
      ((hr.closeGap hp _).recomputeFrom _)) _
    simpa [Sorted] using hs
  · refine CachedOff.setColor (CachedOff.cached_recomputeFrom ?_
      ((hl.closeGap hp _).recomputeFrom _)) _
    simpa [Sorted] using hs
  · rename_i rc rl re rm rr _
    obtain ⟨hb, ha⟩ := toList_splitMin rc rl re rm rr [] rfl
    obtain ⟨hx, hspine⟩ := splitMin_cached rc rl re rm rr [] hr.1 hr.2.1 .nil rfl
    rw [after, List.append_nil] at ha
    have hpath : PathOff none ((splitMin rc rl re rm rr []).2.2.2.2 ++
        ⟨.right, c, (splitMin rc rl re rm rr []).2.1, (splitMin rc rl re rm rr []).2.2.1, l⟩
          :: path) := by
      intro p hp'
      rcases List.mem_append.1 hp' with hp' | hp'
      · exact hspine p hp'
      · rcases List.mem_cons.1 hp' with rfl | hp'
        · exact hl
        · exact hp p hp'
    refine CachedOff.setColor (CachedOff.recomputeFrom (CachedOff.cached_recomputeFrom ?_
      ((hx.closeGap hpath _).recomputeFrom _)) _) _
    simp only [Sorted, toList_recomputeFrom, toList_closeGap, before_append, after_append, hb]
    rw [← ha] at hs
    simpa [before, after] using hs

theorem insertNode_cached {t' : Tree K α} {e : Entry K α} (hs : Sorted t) (ht : t.Cached)
    (h : t.insertNode e = .ok t') : t'.Cached := by
  have hs' := insertNode_sorted hs h
  unfold insertNode at h
  split at h
  · cases h
  · rename_i path hd
    cases h
    have hp := descend_pathOff ht .nil hd
    refine CachedOff.cached_recomputeUpwards (by simpa [Sorted] using hs')
      (CachedOff.insertFixup ?_ ((hp.of_none _).recomputePath _) ⟨e, by simp, rfl⟩)
    exact ⟨trivial, trivial, fun hk => absurd ⟨e, by simp, rfl⟩ hk⟩

theorem removeNode_cached [DecidableEq α] {t' : Tree K α} {v : α} (hs : Sorted t) (ht : t.Cached)
    (h : t.removeNode key v = .ok t') : t'.Cached := by
  unfold removeNode at h
  split at h
  · rename_i c l e r path hf
    split at h
    · cases h
      obtain ⟨hl, hr, hp⟩ := find_cached ht .nil hf
      refine removeRaw_cached ?_ hl hr hp
      have hlist : before path ++ (l.toList ++ e :: r.toList) ++ after path = t.toList := by
        simpa [before, after] using (toList_find hf).2
      rw [Sorted, ← hlist] at hs
      exact hs.sublist (by simp)
    · cases h
  · cases h

end Order

/-! ### Queries -/

/-- No entry is later than the cache of an empty subtree. -/
def Bounded (t : Tree K α) : Prop := ∀ x ∈ t.toList, x.eligibleAt ≤ emptyMin

theorem Bounded.left (h : Bounded (node c l e m r)) : Bounded l := fun x hx => h x (by simp [hx])

theorem Bounded.right (h : Bounded (node c l e m r)) : Bounded r := fun x hx => h x (by simp [hx])

theorem Cached.min_le (h : t.Cached) {x : Entry K α} (hx : x ∈ t.toList) :
    t.min ≤ x.eligibleAt := by
  induction t with
  | nil => cases hx
  | node c l e m r ihl ihr =>
    obtain ⟨hl, hr, rfl⟩ := cached_node.1 h
    simp only [toList_node, List.mem_append, List.mem_cons] at hx
    have hmin : (node c l e (nodeMin l e r) r).min = nodeMin l e r := rfl
    rw [hmin, nodeMin]
    obtain hx | rfl | hx := hx
    · exact ((Nat.min_le_left _ _).trans (Nat.min_le_right _ _)).trans (ihl hl hx)
    · exact (Nat.min_le_left _ _).trans (Nat.min_le_left _ _)
    · exact (Nat.min_le_right _ _).trans (ihr hr hx)

theorem Cached.min_eq (h : t.Cached) : t.min = emptyMin ∨ ∃ x ∈ t.toList, x.eligibleAt = t.min := by
  induction t with
  | nil => exact .inl rfl
  | node c l e m r ihl ihr =>
    obtain ⟨hl, hr, rfl⟩ := cached_node.1 h
    have hmin : (node c l e (nodeMin l e r) r).min = nodeMin l e r := rfl
    have hcases : nodeMin l e r = e.eligibleAt ∨ nodeMin l e r = l.min ∨ nodeMin l e r = r.min := by
      unfold nodeMin Nat.min
      grind
    rw [hmin]
    obtain heq | heq | heq := hcases
    · exact .inr ⟨e, by simp, heq.symm⟩
    · rw [heq]
      exact (ihl hl).imp_right fun ⟨x, hx, hxm⟩ => ⟨x, by simp [hx], hxm⟩
    · rw [heq]
      exact (ihr hr).imp_right fun ⟨x, hx, hxm⟩ => ⟨x, by simp [hx], hxm⟩

/-- The cache of a tree is the eligibility point of one of its entries. -/
theorem Cached.exists_min (h : t.Cached) (hb : Bounded t) (hne : t.toList ≠ []) :
    ∃ x ∈ t.toList, x.eligibleAt = t.min := by
  obtain hm | hx := h.min_eq
  · obtain ⟨x, hx⟩ := List.exists_mem_of_ne_nil _ hne
    exact ⟨x, hx, le_antisymm (hm ▸ hb x hx) (h.min_le hx)⟩
  · exact hx

/-- The cache tells whether something is eligible. -/
theorem Cached.min_le_iff (h : t.Cached) (hb : Bounded t) (now : Nat) :
    (t.isNil = false ∧ t.min ≤ now) ↔ ∃ x ∈ t.toList, x.eligibleAt ≤ now := by
  constructor
  · rintro ⟨hn, hle⟩
    have hne : t.toList ≠ [] := by
      cases t with
      | nil => cases hn
      | node c l e m r => simp
    obtain ⟨x, hx, hxm⟩ := h.exists_min hb hne
    exact ⟨x, hx, hxm ▸ hle⟩
  · rintro ⟨x, hx, hle⟩
    refine ⟨?_, (h.min_le hx).trans hle⟩
    cases t with
    | nil => cases hx
    | node c l e m r => rfl

/-- **The descent finds the first eligible entry in key order**, as a scan would. -/
theorem peekEarliestEligible_eq (h : t.Cached) (hb : Bounded t) (now : Nat) :
    t.peekEarliestEligible now = t.toList.find? fun x => x.eligibleAt ≤ now := by
  induction t with
  | nil => rfl
  | node c l e m r ihl ihr =>
    obtain ⟨hl, hr, -⟩ := cached_node.1 h
    have hroot := h.min_le_iff hb now
    have hleft := hl.min_le_iff hb.left now
    have hright := hr.min_le_iff hb.right now
    have hnone : ∀ u : Tree K α, (¬ ∃ x ∈ u.toList, x.eligibleAt ≤ now) →
        (u.toList.find? fun x => x.eligibleAt ≤ now) = none := by
      intro u hu
      rw [List.find?_eq_none]
      intro x hx hle
      exact hu ⟨x, hx, of_decide_eq_true hle⟩
    unfold peekEarliestEligible
    rw [toList_node, List.find?_append, List.find?_cons]
    split
    · rename_i hlt
      have hno := hnone (node c l e m r) (by
        rw [← hroot]
        exact fun hx => absurd hx.2 (not_le.2 hlt))
      rw [toList_node, List.find?_append, List.find?_cons] at hno
      exact hno.symm
    split
    · rename_i hhas
      obtain ⟨x, hx, hle⟩ := hleft.1 hhas
      have hsome : (l.toList.find? fun x => x.eligibleAt ≤ now).isSome :=
        List.find?_isSome.2 ⟨x, hx, decide_eq_true hle⟩
      obtain ⟨y, hy⟩ := Option.isSome_iff_exists.1 hsome
      rw [ihl hl hb.left, hy]
      rfl
    · rename_i hno
      rw [hnone l (by rwa [← hleft])]
      split
      · rename_i he
        simp [he]
      · rename_i he
        simp only [he, decide_false, Option.none_or]
        split
        · exact ihr hr hb.right
        · rename_i hno'
          exact (hnone r (by rwa [← hright])).symm

end KernelAx.Eevdf.Tree

namespace KernelAx.Eevdf.EevdfTree

open KernelAx.Eevdf.Tree

variable {K α : Type}

theorem front_mem {t : EevdfTree K α} {e : Entry K α} (he : t.front = some e) : e ∈ t.toList := by
  rw [front, front_eq] at he
  exact List.mem_of_head? he

variable [LinearOrder K]

/-- Sorted by key, with the length counted. -/
structure Ordered (t : EevdfTree K α) : Prop where
  sorted : t.root.Sorted
  len : t.len = t.toList.length

section Ordered

variable {t t' : EevdfTree K α} {e x : Entry K α} {linked : Bool}

theorem insert_ok (hi : t.insert linked e = .ok t') :
    linked = false ∧ ∃ root, t.root.insertNode e = .ok root ∧ t' = ⟨root, t.len + 1⟩ := by
  unfold insert at hi
  split at hi
  · cases hi
  · cases hn : t.root.insertNode e with
    | error err => rw [hn] at hi; cases hi
    | ok root =>
      rw [hn] at hi
      cases hi
      exact ⟨Bool.eq_false_iff.mpr ‹_›, root, rfl, rfl⟩

theorem Ordered.insert_spec (h : t.Ordered) (hi : t.insert linked e = .ok t') :
    t'.Ordered ∧ (∀ x, x ∈ t'.toList ↔ x = e ∨ x ∈ t.toList) ∧ ∀ x ∈ t.toList, x.key ≠ e.key := by
  obtain ⟨-, root, hn, rfl⟩ := insert_ok hi
  obtain ⟨l, r, ht, ht', hl, hr⟩ := insertNode_toList h.sorted hn
  refine ⟨⟨insertNode_sorted h.sorted hn, ?_⟩, fun x => ?_, fun x hx => ?_⟩
  · have hlen := h.len
    simp only [toList, ht, ht', List.length_append, List.length_cons] at hlen ⊢
    omega
  · simp only [toList, ht, ht', List.mem_append, List.mem_cons]
    tauto
  · rw [toList, ht, List.mem_append] at hx
    exact hx.elim (fun hx => (hl x hx).ne) fun hx => (hr x hx).ne'

variable [DecidableEq α]

theorem remove_ok {key : K} {v : α} (hr : t.remove linked key v = .ok t') :
    linked = true ∧ ∃ root, t.root.removeNode key v = .ok root ∧ t' = ⟨root, t.len - 1⟩ := by
  unfold remove at hr
  split at hr
  · cases hn : t.root.removeNode key v with
    | error err => rw [hn] at hr; cases hr
    | ok root =>
      rw [hn] at hr
      cases hr
      exact ⟨‹_›, root, rfl, rfl⟩
  · cases hr

theorem Ordered.remove_spec (h : t.Ordered) {key : K} {v : α}
    (hr : t.remove linked key v = .ok t') :
    t'.Ordered ∧ linked = true ∧ (∃ e ∈ t.toList, e.key = key ∧ e.value = v) ∧
      ∀ x, x ∈ t'.toList ↔ x ∈ t.toList ∧ x.key ≠ key := by
  obtain ⟨hlinked, root, hn, rfl⟩ := remove_ok hr
  obtain ⟨l, e, r, ht, ht', hk, hv⟩ := removeNode_toList hn
  have hs := h.sorted
  rw [Sorted, ht, List.pairwise_append, List.pairwise_cons] at hs
  obtain ⟨-, ⟨her, -⟩, hle⟩ := hs
  refine ⟨⟨removeNode_sorted h.sorted hn, ?_⟩, hlinked, ⟨e, by simp [toList, ht], hk, hv⟩,
    fun x => ?_⟩
  · have hlen := h.len
    simp only [toList, ht, ht', List.length_append, List.length_cons] at hlen ⊢
    omega
  · simp only [toList, ht, ht', ← hk, List.mem_append, List.mem_cons]
    constructor
    · rintro (hx | hx)
      · exact ⟨.inl hx, (hle x hx e (by simp)).ne⟩
      · exact ⟨.inr (.inr hx), (her x hx).ne'⟩
    · rintro ⟨hx | rfl | hx, hne⟩
      · exact .inl hx
      · exact absurd rfl hne
      · exact .inr hx

theorem Ordered.remove_mem (h : t.Ordered) (he : e ∈ t.toList) :
    ∃ t', t.remove true e.key e.value = .ok t' := by
  obtain ⟨root, hroot⟩ := removeNode_ok h.sorted he
  exact ⟨⟨root, t.len - 1⟩, by rw [remove, if_pos rfl, hroot]; rfl⟩

end Ordered

/-- **The invariant of a tree**: sorted by key, every cache exact, the length counted. -/
structure Valid (t : EevdfTree K α) : Prop where
  sorted : t.root.Sorted
  cached : t.root.Cached
  bounded : t.root.Bounded
  len : t.len = t.toList.length

theorem valid_new : (new : EevdfTree K α).Valid where
  sorted := List.Pairwise.nil
  cached := trivial
  bounded := by simp [Bounded, new]
  len := rfl

namespace Valid

variable {t t' : EevdfTree K α} {e x y : Entry K α}

theorem eq_of_key (h : t.Valid) (hx : x ∈ t.toList) (hy : y ∈ t.toList) (hk : x.key = y.key) :
    x = y := h.sorted.eq_of_key hx hy hk

theorem peek_eq (h : t.Valid) (now : Nat) :
    t.peekEarliestEligible now = t.toList.find? fun x => x.eligibleAt ≤ now :=
  peekEarliestEligible_eq h.cached h.bounded now

variable {linked : Bool}

theorem ordered (h : t.Valid) : t.Ordered := ⟨h.sorted, h.len⟩

theorem insert_spec (h : t.Valid) (he : e.eligibleAt ≤ emptyMin) (hi : t.insert linked e = .ok t') :
    t'.Valid ∧ (∀ x, x ∈ t'.toList ↔ x = e ∨ x ∈ t.toList) := by
  obtain ⟨hordered, hmem, -⟩ := h.ordered.insert_spec hi
  obtain ⟨-, root, hn, rfl⟩ := insert_ok hi
  refine ⟨⟨hordered.sorted, insertNode_cached h.sorted h.cached hn, fun x hx => ?_, hordered.len⟩,
    hmem⟩
  obtain rfl | hx := (hmem x).1 hx
  · exact he
  · exact h.bounded x hx

variable [DecidableEq α]

theorem remove_spec (h : t.Valid) {key : K} {v : α} (hr : t.remove linked key v = .ok t') :
    t'.Valid ∧ linked = true ∧ (∃ e ∈ t.toList, e.key = key ∧ e.value = v) ∧
      ∀ x, x ∈ t'.toList ↔ x ∈ t.toList ∧ x.key ≠ key := by
  obtain ⟨hordered, hlinked, he, hmem⟩ := h.ordered.remove_spec hr
  obtain ⟨-, root, hn, rfl⟩ := remove_ok hr
  exact ⟨⟨hordered.sorted, removeNode_cached h.sorted h.cached hn,
    fun x hx => h.bounded x ((hmem x).1 hx).1, hordered.len⟩, hlinked, he, hmem⟩

theorem remove_mem (h : t.Valid) (he : e ∈ t.toList) :
    ∃ t', t.remove true e.key e.value = .ok t' := h.ordered.remove_mem he

/-- Popping is a peek followed by the removal of that node. -/
theorem pop_eq (h : t.Valid) (now : Nat) :
    t.popEarliestEligible now
      = match t.toList.find? fun x => x.eligibleAt ≤ now with
        | none => none
        | some e => (t.remove true e.key e.value).toOption.map fun t' => (e, t') := by
  have hpeek := h.peek_eq now
  unfold popEarliestEligible
  rw [show t.root.peekEarliestEligible now = _ from hpeek]
  cases hf : t.toList.find? fun x => x.eligibleAt ≤ now with
  | none => rfl
  | some e =>
    obtain ⟨c, l, r, path, hfind⟩ := exists_find h.sorted (List.mem_of_find?_eq_some hf) []
    simp only [hfind, remove, removeNode]
    rfl

end Valid

end KernelAx.Eevdf.EevdfTree
