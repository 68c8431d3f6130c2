import KernelAx.Eevdf.TreeCache

/-!
# EEVDF — Selection and bounded scans

The two queries of the ready tree that skip or resume.

* `peek_earliest_eligible` and its pop skip whole subtrees by the cached minima; on every tree that
  the operations lead to they find the least key among the eligible nodes (`earliest_eligible`).
* `find_bounded_after` looks at a bounded number of nodes behind a cursor, walking from node to node
  through the parent links. A `Position` is a node with its path, and a scan from it is the scan of
  what lies `ahead` of it in key order (`scan_bounded`).
-/

namespace KernelAx.Eevdf

variable {K α : Type}

namespace EevdfTree

variable [LinearOrder K] [DecidableEq α]

/-! ### The earliest eligible node -/

/-- The trees that the operations lead to; an eligibility point is a `u128`. -/
inductive Reached : EevdfTree K α → Prop
  | new : Reached .new
  | insert {t t' linked e} (reached : Reached t)
      (fits : e.eligibleAt ≤ maxU128) (inserted : t.insert linked e = .ok t') : Reached t'
  | remove {t t' linked key value} (reached : Reached t)
      (removed : t.remove linked key value = .ok t') : Reached t'
  | pop {t t' now e} (reached : Reached t)
      (popped : t.popEarliestEligible now = some (e, t')) : Reached t'

/-- The node of least key among those that are eligible. -/
structure Earliest (t : EevdfTree K α) (now : Nat) (e : Entry K α) : Prop where
  mem : e ∈ t.toList
  eligible : e.eligibleAt ≤ now
  least : ∀ x ∈ t.toList, x.eligibleAt ≤ now → e.key ≤ x.key

variable {t t' : EevdfTree K α} {now : Nat} {e : Entry K α}

omit [DecidableEq α] in
theorem Valid.earliest_of_find (h : t.Valid)
    (hfind : (t.toList.find? fun x => x.eligibleAt ≤ now) = some e) : t.Earliest now e := by
  obtain ⟨he, before, behind, hlist, hbefore⟩ := List.find?_eq_some_iff_append.mp hfind
  have hsorted : t.toList.Pairwise fun a b => a.key < b.key := h.sorted
  rw [hlist, List.pairwise_append, List.pairwise_cons] at hsorted
  refine ⟨by simp [hlist], by simpa using he, fun x hx hle => ?_⟩
  rw [hlist, List.mem_append, List.mem_cons] at hx
  rcases hx with hx | rfl | hx
  · exact absurd hle (by simpa using hbefore x hx)
  · exact le_rfl
  · exact (hsorted.2.1.1 x hx).le

omit [DecidableEq α] in
theorem Valid.find_iff (h : t.Valid) :
    (t.toList.find? fun x => x.eligibleAt ≤ now) = some e ↔ t.Earliest now e := by
  refine ⟨h.earliest_of_find, fun he => ?_⟩
  cases hfind : t.toList.find? fun x => x.eligibleAt ≤ now with
  | none => exact absurd (by simpa using he.eligible) (List.find?_eq_none.mp hfind e he.mem)
  | some x =>
    have hx := h.earliest_of_find hfind
    have hkey := le_antisymm (hx.least e he.mem he.eligible) (he.least x hx.mem hx.eligible)
    exact congrArg some (h.eq_of_key hx.mem he.mem hkey)

theorem Valid.pop_spec (h : t.Valid) (hpop : t.popEarliestEligible now = some (e, t')) :
    t'.Valid ∧ t.Earliest now e ∧ (∀ x, x ∈ t'.toList ↔ x ∈ t.toList ∧ x ≠ e) ∧
      t'.len + 1 = t.len := by
  rw [h.pop_eq] at hpop
  cases hfind : t.toList.find? fun x => x.eligibleAt ≤ now with
  | none => simp [hfind] at hpop
  | some x =>
    have hx := List.mem_of_find?_eq_some hfind
    obtain ⟨removed, hremoved⟩ := h.remove_mem hx
    simp only [hfind, hremoved, Except.toOption, Option.map_some, Option.some.injEq,
      Prod.mk.injEq] at hpop
    obtain ⟨rfl, rfl⟩ := hpop
    obtain ⟨hvalid, -, -, hmem⟩ := h.remove_spec hremoved
    obtain ⟨-, root, -, hlen⟩ := remove_ok hremoved
    refine ⟨hvalid, h.find_iff.mp hfind,
      fun y => (hmem y).trans (and_congr_right fun hy => ?_), ?_⟩
    · exact ⟨fun hne heq => hne (heq ▸ rfl), fun hne hkey => hne (h.eq_of_key hy hx hkey)⟩
    · have hpos : 0 < t.len := by
        rw [h.len]
        exact List.length_pos_of_mem hx
      rw [hlen]
      exact Nat.sub_add_cancel hpos

theorem Reached.valid (h : t.Reached) : t.Valid := by
  induction h with
  | new => exact valid_new
  | insert _ fits inserted ih => exact (ih.insert_spec fits inserted).1
  | remove _ removed ih => exact (ih.remove_spec removed).1
  | pop _ popped ih => exact (ih.pop_spec popped).1

/-- **Earliest eligible selection.**  On every tree that the operations lead to and at every time, a
peek and a pop find the node of least key among the eligible ones, and nothing exactly when there is
none; a pop takes out that node only. -/
theorem earliest_eligible (h : t.Reached) (now : Nat) :
    (∀ e, t.peekEarliestEligible now = some e ↔ t.Earliest now e) ∧
      (t.peekEarliestEligible now = none ↔ ∀ x ∈ t.toList, now < x.eligibleAt) ∧
      (∀ e, t.Earliest now e ↔ ∃ t', t.popEarliestEligible now = some (e, t')) ∧
      (t.popEarliestEligible now = none ↔ ∀ x ∈ t.toList, now < x.eligibleAt) ∧
      ∀ e t', t.popEarliestEligible now = some (e, t') →
        t'.Reached ∧ (∀ x, x ∈ t'.toList ↔ x ∈ t.toList ∧ x ≠ e) ∧ t'.len + 1 = t.len := by
  have hvalid := h.valid
  have hnone : (t.toList.find? fun x => x.eligibleAt ≤ now) = none ↔
      ∀ x ∈ t.toList, now < x.eligibleAt := by
    simp [List.find?_eq_none]
  have hpop : ∀ e, t.Earliest now e ↔ ∃ t', t.popEarliestEligible now = some (e, t') := by
    intro e
    constructor
    · intro he
      obtain ⟨t', ht'⟩ := hvalid.remove_mem he.mem
      refine ⟨t', ?_⟩
      rw [hvalid.pop_eq, hvalid.find_iff.mpr he]
      simp [ht', Except.toOption]
    · rintro ⟨t', ht'⟩
      exact (hvalid.pop_spec ht').2.1
  refine ⟨fun e => ?_, ?_, hpop, ?_, fun e t' ht' => ⟨h.pop ht', (hvalid.pop_spec ht').2.2⟩⟩
  · rw [hvalid.peek_eq, hvalid.find_iff]
  · rw [hvalid.peek_eq, hnone]
  · rw [← hnone]
    cases hfind : t.toList.find? fun x => x.eligibleAt ≤ now with
    | none => simp [hvalid.pop_eq, hfind]
    | some e =>
      obtain ⟨t', ht'⟩ := (hpop e).mp (hvalid.find_iff.mp hfind)
      simp [ht']

/-- Two nodes, of which the later one is eligible first. -/
def pair : EevdfTree Nat Nat :=
  ⟨.node .black .nil ⟨4, 9, 0⟩ 3 (.node .red .nil ⟨6, 3, 1⟩ 3 .nil), 2⟩

theorem pair_reached : pair.Reached := by
  have hone : (EevdfTree.new : EevdfTree Nat Nat).insert false ⟨4, 9, 0⟩
      = .ok ⟨.node .black .nil ⟨4, 9, 0⟩ 9 .nil, 1⟩ := rfl
  have htwo : (⟨.node .black .nil ⟨4, 9, 0⟩ 9 .nil, 1⟩ : EevdfTree Nat Nat).insert false ⟨6, 3, 1⟩
      = .ok pair := rfl
  exact ((Reached.new.insert (by decide) hone).insert (by decide) htwo)

theorem earliest_eligible_pair : pair.Reached ∧ pair.peekEarliestEligible 5 = some ⟨6, 3, 1⟩ :=
  ⟨pair_reached, ((earliest_eligible pair_reached 5).1 _).mpr ⟨by decide, by decide, by decide⟩⟩

end EevdfTree

/-! ### Positions -/

structure Position (K α : Type) where
  color : Color
  left : Tree K α
  entry : Entry K α
  subtreeMin : Nat
  right : Tree K α
  path : List (Crumb K α)

/-- What lies ahead in key order from a position on, the position included. -/
def ahead : Option (Position K α) → List (Entry K α)
  | none => []
  | some p => p.entry :: (p.right.toList ++ Tree.after p.path)

namespace Tree

def minimum : Tree K α → List (Crumb K α) → Option (Position K α)
  | nil, _ => none
  | node color nil entry m right, path => some ⟨color, nil, entry, m, right, path⟩
  | node color left entry m right, path => left.minimum (⟨.left, color, entry, m, right⟩ :: path)

/-- Up through the parents until the subtree is a left child. -/
def climb : Tree K α → List (Crumb K α) → Option (Position K α)
  | _, [] => none
  | child, p :: path =>
    match p.side with
    | .left => some ⟨p.color, child, p.entry, p.subtreeMin, p.sibling, path⟩
    | .right => climb (node p.color p.sibling p.entry p.subtreeMin child) path

/-- The first node with a key greater than `key`: the last one where the search went left. -/
def upperBound [LinearOrder K] (key : K) :
    Tree K α → List (Crumb K α) → Option (Position K α) → Option (Position K α)
  | nil, _, successor => successor
  | node color left entry m right, path, successor =>
    if key < entry.key then
      left.upperBound key (⟨.left, color, entry, m, right⟩ :: path)
        (some ⟨color, left, entry, m, right, path⟩)
    else right.upperBound key (⟨.right, color, entry, m, left⟩ :: path) successor

theorem ahead_minimum {t : Tree K α} (ht : t ≠ nil) (path : List (Crumb K α)) :
    ahead (t.minimum path) = t.toList ++ after path := by
  induction t generalizing path with
  | nil => exact absurd rfl ht
  | node c l e m r ihl _ =>
    cases l with
    | nil => rfl
    | node lc ll le lm lr =>
      rw [minimum, ihl (by simp)]
      · simp [after]
      · simp

theorem ahead_climb (t : Tree K α) (path : List (Crumb K α)) :
    ahead (climb t path) = after path := by
  induction path generalizing t with
  | nil => rfl
  | cons p path ih =>
    rw [climb]
    cases hs : p.side with
    | left => simp [ahead, after, hs]
    | right => simpa [after, hs] using ih _

theorem ahead_upperBound [LinearOrder K] {key : K} {t : Tree K α} (hs : t.Sorted)
    {path : List (Crumb K α)} {successor : Option (Position K α)}
    (h : ahead successor = after path) :
    ahead (t.upperBound key path successor)
      = t.toList.filter (fun x => key < x.key) ++ after path := by
  induction t generalizing path successor with
  | nil => simpa [upperBound] using h
  | node c l e m r ihl ihr =>
    rw [upperBound, toList_node, List.filter_append, List.filter_cons]
    split
    · rename_i hlt
      have hright : r.toList.filter (fun x => key < x.key) = r.toList :=
        List.filter_eq_self.mpr fun x hx => by simpa using hlt.trans (hs.lt_of_right hx)
      rw [ihl hs.left (by simp [ahead, after]), if_pos (by simpa using hlt), hright]
      simp [after]
    · rename_i hle
      have hleft : l.toList.filter (fun x => key < x.key) = [] :=
        List.filter_eq_nil_iff.mpr fun x hx => by
          simpa using (hs.lt_of_left hx).le.trans (not_lt.mp hle)
      rw [ihr hs.right (by simpa [after] using h), if_neg (by simpa using hle), hleft]
      simp [after]

end Tree

namespace Position

def successor (p : Position K α) : Option (Position K α) :=
  match p.right with
  | .nil => Tree.climb (.node p.color p.left p.entry p.subtreeMin .nil) p.path
  | right => right.minimum (⟨.right, p.color, p.entry, p.subtreeMin, p.left⟩ :: p.path)

theorem ahead_successor (p : Position K α) :
    ahead p.successor = p.right.toList ++ Tree.after p.path := by
  unfold successor
  split
  · rename_i hright
    rw [Tree.ahead_climb, hright]
    rfl
  · rename_i hright
    rw [Tree.ahead_minimum hright]
    simp [Tree.after]

end Position

/-! ### Bounded scans -/

/-- The loop of a scan with `limit` nodes left; the predicate may change a state `σ`. -/
def scanLoop {σ : Type} (predicate : Entry K α → σ → Bool × σ) :
    Nat → Nat → Option K → σ → Option (Position K α) →
      (Option (Entry K α × Nat) × Option K) × σ
  | limit + 1, visited, _, s, some p =>
    match predicate p.entry s with
    | (true, s) => ((some (p.entry, visited + 1), some p.entry.key), s)
    | (false, s) =>
      scanLoop predicate limit (visited + 1) (some p.entry.key) s p.successor
  | _, _, lastKey, s, _ => ((none, lastKey), s)

def scanStart [LinearOrder K] (root : Tree K α) (cursor : Option K) : Option (Position K α) :=
  match cursor with
  | some key => root.upperBound key [] none
  | none => root.minimum []

/-- The predicate is called on the entries in turn and rejects each of them. -/
def Rejects {σ : Type} (predicate : Entry K α → σ → Bool × σ) : σ → List (Entry K α) → σ → Prop
  | s, [], s' => s' = s
  | s, x :: xs, s' => (predicate x s).1 = false ∧ Rejects predicate (predicate x s).2 xs s'

/-- What a scan of a list returns: the predicate rejects all of it, or it rejects the entries before
the one it accepts and is not called again. -/
inductive Scanned {σ : Type} (predicate : Entry K α → σ → Bool × σ) (s : σ)
    (xs : List (Entry K α)) : (Option (Entry K α × Nat) × Option K) × σ → Prop
  | rejected {s' : σ} (rejects : Rejects predicate s xs s') :
      Scanned predicate s xs ((none, xs.getLast?.map (·.key)), s')
  | accepted {seen : List (Entry K α)} {x : Entry K α} {s₁ s₂ : σ}
      (begins : seen ++ [x] <+: xs) (rejects : Rejects predicate s seen s₁)
      (accepts : predicate x s₁ = (true, s₂)) :
      Scanned predicate s xs ((some (x, seen.length + 1), some x.key), s₂)

/-- The loop scans what lies ahead. `seen` has been rejected already; the induction is on the
nodes that may still be inspected. -/
theorem scanLoop_scanned {σ : Type} {predicate : Entry K α → σ → Bool × σ} {s₀ : σ} (limit : Nat)
    {seen : List (Entry K α)} {s : σ} {position : Option (Position K α)}
    (hseen : ∀ xs s', Rejects predicate s xs s' → Rejects predicate s₀ (seen ++ xs) s') :
    Scanned predicate s₀ (seen ++ (ahead position).take limit)
      (scanLoop predicate limit seen.length (seen.getLast?.map (·.key)) s position) := by
  induction limit generalizing seen s position with
  | zero =>
    rw [List.take_zero, List.append_nil, scanLoop]
    · exact .rejected (by simpa using hseen [] s rfl)
    · intro limit p h
      cases h
  | succ limit ih =>
    cases position with
    | none =>
      rw [ahead, List.take_nil, List.append_nil]
      exact .rejected (by simpa using hseen [] s rfl)
    | some p =>
      rw [ahead, List.take_succ_cons, scanLoop]
      split
      · rename_i s' haccept
        refine .accepted ?_ (by simpa using hseen [] s rfl) haccept
        simp
      · rename_i s' hreject
        have hrejected (xs s'') (h : Rejects predicate s' xs s'') :
            Rejects predicate s₀ ((seen ++ [p.entry]) ++ xs) s'' := by
          rw [List.append_assoc]
          exact hseen _ _ ⟨by rw [hreject], by rw [hreject]; exact h⟩
        have hnext := @ih _ _ p.successor hrejected
        rw [p.ahead_successor, List.append_assoc] at hnext
        simpa using hnext

namespace EevdfTree

def findBoundedAfter [LinearOrder K] {σ : Type} (t : EevdfTree K α) (cursor : Option K)
    (limit : Nat) (predicate : Entry K α → σ → Bool × σ) (s : σ) :
    (Option (Entry K α × Nat) × Option K) × σ :=
  if limit = 0 ∨ t.root.isNil then ((none, none), s)
  else scanLoop predicate limit 0 none s (scanStart t.root cursor)

def beyond [LinearOrder K] (cursor : Option K) (x : Entry K α) : Bool :=
  cursor.all (· < x.key)

variable [LinearOrder K] {t : EevdfTree K α}

theorem ahead_scanStart (h : t.Ordered) (hroot : t.root.isNil = false) (cursor : Option K) :
    ahead (scanStart t.root cursor) = t.toList.filter (beyond cursor) := by
  cases cursor with
  | none =>
    rw [scanStart, Tree.ahead_minimum (by rintro h; simp [h, Tree.isNil] at hroot)]
    exact (List.append_nil _).trans (List.filter_eq_self.mpr fun _ _ => rfl).symm
  | some key =>
    rw [scanStart, Tree.ahead_upperBound h.sorted rfl]
    exact List.append_nil _

/-- **A bounded scan is the scan of a list**: the first `limit` entries behind the cursor. -/
theorem findBoundedAfter_scanned {σ : Type} (h : t.Ordered) (cursor : Option K) (limit : Nat)
    (predicate : Entry K α → σ → Bool × σ) (s : σ) :
    Scanned predicate s ((t.toList.filter (beyond cursor)).take limit)
      (t.findBoundedAfter cursor limit predicate s) := by
  unfold findBoundedAfter
  split
  · rename_i hnone
    have hempty : (t.toList.filter (beyond cursor)).take limit = [] := by
      rcases hnone with rfl | hnil
      · exact List.take_zero
      · have hroot : t.root = .nil := by
          cases hr : t.root with
          | nil => rfl
          | node => simp [hr, Tree.isNil] at hnil
        simp [toList, hroot]
    rw [hempty]
    exact .rejected rfl
  · rename_i hsome
    rw [not_or, Bool.not_eq_true] at hsome
    rw [← ahead_scanStart h hsome.2]
    exact (scanLoop_scanned limit fun xs s' h => h : Scanned predicate s ([] ++ _) _)

/-! ### A cycle of scans -/

/-- The predicate with a log of the entries it is called on. -/
def logged {σ : Type} (predicate : Entry K α → σ → Bool × σ) (x : Entry K α)
    (s : σ × List (Entry K α)) : Bool × (σ × List (Entry K α)) :=
  ((predicate x s.1).1, (predicate x s.1).2, s.2 ++ [x])

omit [LinearOrder K] in
theorem log_of_rejects {σ : Type} {predicate : Entry K α → σ → Bool × σ} {xs : List (Entry K α)}
    {s s' : σ × List (Entry K α)} (h : Rejects (logged predicate) s xs s') : s'.2 = s.2 ++ xs := by
  induction xs generalizing s with
  | nil => simp [show s' = s from h]
  | cons x xs ih => simpa [logged] using ih h.2

/-- Where a cycle of scans is: the tree, the cursor and the entries inspected so far. -/
structure Sweep (K α σ : Type) where
  tree : EevdfTree K α
  cursor : Option K
  state : σ × List (Entry K α)

variable [DecidableEq α]

/-- The tree without the node that the cursor names. -/
def withoutCursor (t : EevdfTree K α) (cursor : Option K) : EevdfTree K α :=
  match cursor.bind fun key => t.root.find key [] with
  | none => t
  | some (_, _, e, _, _) => (t.remove true e.key e.value).toOption.getD t

/-- One call of the scan, after which the node of the cursor may be removed. -/
def Sweep.call {σ : Type} (now : Sweep K α σ) (predicate : Entry K α → σ → Bool × σ) (limit : Nat)
    (removes : Bool) : Sweep K α σ :=
  let result := now.tree.findBoundedAfter now.cursor limit (logged predicate) now.state
  ⟨if removes then now.tree.withoutCursor result.1.2 else now.tree, result.1.2, result.2⟩

/-- A run of `n` calls from the start of the tree. -/
def sweep {σ : Type} (predicate : Entry K α → σ → Bool × σ) (limits : Nat → Nat)
    (removes : Nat → Bool) (t : EevdfTree K α) (s : σ) : Nat → Sweep K α σ
  | 0 => ⟨t, none, (s, [])⟩
  | n + 1 => (sweep predicate limits removes t s n).call predicate (limits n) (removes n)

omit [DecidableEq α] in
theorem filter_beyond_last {l : List (Entry K α)} (hl : l.Pairwise fun a b => a.key < b.key)
    {cursor : Option K} {limit : Nat} {x : Entry K α}
    (hx : ((l.filter (beyond cursor)).take limit).getLast? = some x) :
    l.filter (beyond (some x.key)) = (l.filter (beyond cursor)).drop limit := by
  have hsorted := hl.filter (beyond cursor)
  have hbeyond : beyond cursor x = true :=
    (List.mem_filter.mp (List.mem_of_mem_take (List.mem_of_getLast? hx))).2
  have hsub : l.filter (beyond (some x.key))
      = (l.filter (beyond cursor)).filter (beyond (some x.key)) := by
    rw [List.filter_filter]
    refine List.filter_congr fun y _ => ?_
    by_cases hy : x.key < y.key
    · cases cursor with
      | none => simp [beyond]
      | some key =>
        have hkey : key < x.key := by simpa [beyond] using hbeyond
        simp [beyond, hy, hkey.trans hy]
    · simp [beyond, hy]
  rw [hsub]
  generalize l.filter (beyond cursor) = m at *
  obtain ⟨init, hinit⟩ := List.getLast?_eq_some_iff.mp hx
  rw [← List.take_append_drop limit m, hinit, List.append_assoc, List.pairwise_append] at hsorted
  obtain ⟨-, hbehind, hbefore⟩ := hsorted
  conv_lhs => rw [← List.take_append_drop limit m, hinit, List.filter_append, List.filter_append]
  have hdrop : (m.drop limit).filter (beyond (some x.key)) = m.drop limit :=
    List.filter_eq_self.mpr fun y hy => by
      simpa [beyond] using (List.pairwise_cons.mp hbehind).1 y hy
  have hnone : init.filter (beyond (some x.key)) = [] :=
    List.filter_eq_nil_iff.mpr fun y hy => by
      simpa [beyond] using (hbefore y hy x (by simp)).le
  rw [hdrop, hnone]
  simp [beyond]

theorem Valid.withoutCursor (h : t.Valid) (cursor : Option K) :
    (t.withoutCursor cursor).Valid ∧
      (t.withoutCursor cursor).toList.filter (beyond cursor) = t.toList.filter (beyond cursor) := by
  unfold EevdfTree.withoutCursor
  split
  · exact ⟨h, rfl⟩
  rename_i c l e r path hfind
  obtain ⟨key, rfl, hfind⟩ := Option.bind_eq_some_iff.mp hfind
  obtain ⟨rfl, hlist⟩ := Tree.toList_find hfind
  have he : e ∈ t.toList := by
    rw [toList, ← List.append_nil t.root.toList, ← List.nil_append t.root.toList]
    exact hlist ▸ by simp
  obtain ⟨t', ht'⟩ := h.remove_mem he
  rw [ht']
  refine ⟨(h.remove_spec ht').1, ?_⟩
  obtain ⟨-, root, hroot, rfl⟩ := remove_ok ht'
  obtain ⟨before, x, behind, hold, hnew, hkey, -⟩ := Tree.removeNode_toList hroot
  simp [Except.toOption, toList, hold, hnew, beyond, hkey]

/-- Of the entries of `t`, those not yet inspected are behind the cursor. -/
structure Swept {σ : Type} (t : EevdfTree K α) (now : Sweep K α σ) : Prop where
  valid : now.tree.Valid
  split : now.state.2 ++ now.tree.toList.filter (beyond now.cursor) = t.toList

variable {σ : Type} {predicate : Entry K α → σ → Bool × σ} {now : Sweep K α σ} {limit : Nat}

/-- **One call of a cycle** inspects some of what is left, or ends the cycle. -/
theorem Swept.call (h : Swept t now) (hrejects : ∀ x s, (predicate x s).1 = false)
    (hlimit : 1 ≤ limit) (removes : Bool) :
    (now.call predicate limit removes).cursor = none ∧
        (now.call predicate limit removes).state.2 = t.toList ∨
      (now.call predicate limit removes).cursor ≠ none ∧
        Swept t (now.call predicate limit removes) ∧
        now.state.2.length < (now.call predicate limit removes).state.2.length := by
  have hscan := findBoundedAfter_scanned h.valid.ordered now.cursor limit (logged predicate)
    now.state
  unfold Sweep.call
  generalize now.tree.findBoundedAfter now.cursor limit (logged predicate) now.state = result
    at hscan ⊢
  cases hscan with
  | accepted _ _ accepts =>
    have := congrArg Prod.fst accepts
    simp [logged, hrejects] at this
  | rejected rejects =>
    have hlog := log_of_rejects rejects
    cases hlast : ((now.tree.toList.filter (beyond now.cursor)).take limit).getLast? with
    | none =>
      have hempty := List.getLast?_eq_none_iff.mp hlast
      have hfilter : now.tree.toList.filter (beyond now.cursor) = [] := by
        rcases List.take_eq_nil_iff.mp hempty with rfl | hfilter
        · omega
        · exact hfilter
      refine .inl ⟨rfl, ?_⟩
      rw [hlog, hempty, ← h.split, hfilter]
    | some x =>
      have hmem := List.mem_of_getLast? hlast
      have hbehind := filter_beyond_last h.valid.sorted hlast
      refine .inr ⟨by simp, ⟨?_, ?_⟩, ?_⟩
      · dsimp only
        split
        · exact (h.valid.withoutCursor _).1
        · exact h.valid
      · have hsame : (if removes = true then now.tree.withoutCursor (some x.key)
            else now.tree).toList.filter (beyond (some x.key))
            = now.tree.toList.filter (beyond (some x.key)) := by
          split
          · exact (h.valid.withoutCursor _).2
          · rfl
        simp only [Option.map_some, hsame, hlog]
        rw [toList, hbehind, List.append_assoc, ← toList, List.take_append_drop, h.split]
      · rw [hlog, List.length_append]
        exact Nat.lt_add_of_pos_right (List.length_pos_of_mem hmem)

/-- **A cycle ends** and has then inspected everything; the induction is on what is left. -/
theorem Swept.ends {limits : Nat → Nat} {removes : Nat → Bool} {s : σ}
    (hrejects : ∀ x s, (predicate x s).1 = false) (hlimits : ∀ n, 1 ≤ limits n) (left : Nat)
    {m : Nat} (h : Swept t (sweep predicate limits removes t s m))
    (hleft : t.toList.length ≤ (sweep predicate limits removes t s m).state.2.length + left) :
    ∃ n ≥ m, (sweep predicate limits removes t s (n + 1)).cursor = none ∧
      (sweep predicate limits removes t s (n + 1)).state.2 = t.toList ∧
      ∀ j, m < j → j ≤ n → (sweep predicate limits removes t s j).cursor ≠ none := by
  induction left generalizing m with
  | zero =>
    rcases h.call hrejects (hlimits m) (removes m) with ⟨hnone, hlog⟩ | ⟨-, hnext, hlt⟩
    · exact ⟨m, le_rfl, hnone, hlog, fun j hj hjm => absurd (hj.trans_le hjm) (lt_irrefl _)⟩
    · -- there is nothing left that this call could have inspected
      have hle := congrArg List.length hnext.split
      rw [List.length_append] at hle
      omega
  | succ left ih =>
    rcases h.call hrejects (hlimits m) (removes m) with ⟨hnone, hlog⟩ | ⟨hsome, hnext, hlt⟩
    · exact ⟨m, le_rfl, hnone, hlog, fun j hj hjm => absurd (hj.trans_le hjm) (lt_irrefl _)⟩
    · obtain ⟨n, hn, hnone, hlog, hbetween⟩ := ih (m := m + 1) hnext (by rw [sweep]; omega)
      refine ⟨n, by omega, hnone, hlog, fun j hj hjn => ?_⟩
      rcases Nat.lt_or_ge (m + 1) j with hlater | hnow
      · exact hbetween j hlater hjn
      · obtain rfl : j = m + 1 := by omega
        exact hsome

/-- **Bounded continuation scans.**  On every tree that the operations lead to, a scan calls its
predicate on the first `limit` entries behind the cursor, up to and including the first it accepts,
and returns that entry with the number of calls and the last inspected key. Under a predicate that
rejects everything, the calls from one wrap to the next inspect every entry once and in key order,
whatever the limits, and whether or not the node that the cursor names is removed after a call. -/
theorem scan_bounded (h : t.Reached) :
    (∀ {σ : Type} (cursor : Option K) (limit : Nat) (predicate : Entry K α → σ → Bool × σ) (s : σ),
      Scanned predicate s ((t.toList.filter (beyond cursor)).take limit)
        (t.findBoundedAfter cursor limit predicate s)) ∧
    t.toList.Pairwise (fun x y => x.key < y.key) ∧
    ∀ {σ : Type} (predicate : Entry K α → σ → Bool × σ) (s : σ) (limits : Nat → Nat)
      (removes : Nat → Bool), (∀ x s, (predicate x s).1 = false) → (∀ n, 1 ≤ limits n) →
      ∃ n, (sweep predicate limits removes t s (n + 1)).cursor = none ∧
        (sweep predicate limits removes t s (n + 1)).state.2 = t.toList ∧
        ∀ j, 0 < j → j ≤ n → (sweep predicate limits removes t s j).cursor ≠ none := by
  have hvalid := h.valid
  refine ⟨fun cursor limit => findBoundedAfter_scanned hvalid.ordered cursor limit,
    hvalid.sorted, fun predicate s limits removes hrejects hlimits => ?_⟩
  have hstart : Swept t (sweep predicate limits removes t s 0) :=
    ⟨hvalid, List.filter_eq_self.mpr fun _ _ => rfl⟩
  obtain ⟨n, -, hends⟩ := hstart.ends hrejects hlimits t.toList.length (Nat.le_add_left _ _)
  exact ⟨n, hends⟩

/-- With one node left, the predicate is called on it alone; nothing is left for the next call. -/
theorem scan_bounded_pair :
    Scanned (fun _ n => (false, n + 1)) 0 [⟨6, 3, 1⟩]
        (pair.findBoundedAfter (some 4) 2 (fun _ n => (false, n + 1)) 0) ∧
      ∃ n, (sweep (fun _ n => (false, n + 1)) (fun _ => 1) (fun _ => true) pair 0 (n + 1)).state.2
        = [⟨4, 9, 0⟩, ⟨6, 3, 1⟩] := by
  obtain ⟨hscan, -, hcycle⟩ := scan_bounded pair_reached
  obtain ⟨n, -, hall, -⟩ := hcycle (fun _ n => (false, n + 1)) 0 (fun _ => 1) (fun _ => true)
    (fun _ _ => rfl) fun _ => le_rfl
  exact ⟨hscan (some 4) 2 _ 0, n, hall⟩

/-- The end of the tree does not reset the cursor: a scan that runs off the end keeps the last key,
and one that may not inspect anything has no cursor although it is not at the end. -/
theorem scan_cursor_at_end :
    ((pair.findBoundedAfter none 3 (fun _ n => (false, n + 1)) 0).1.2 = some 6 ∧
        pair.toList.filter (beyond (some 6)) = []) ∧
      (pair.findBoundedAfter (some 4) 0 (fun _ n => (false, n + 1)) 0).1.2 = none ∧
        pair.toList.filter (beyond (some 4)) ≠ [] :=
  ⟨⟨rfl, rfl⟩, rfl, by decide⟩

end EevdfTree

end KernelAx.Eevdf
