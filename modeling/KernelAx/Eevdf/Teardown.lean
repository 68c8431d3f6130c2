import KernelAx.Eevdf.Tree
import Mathlib.Data.List.Nodup
import Mathlib.Data.List.Count
import Mathlib.Logic.Function.Basic

/-!
# EEVDF — Teardown of the tree

Dropping the tree walks it by the parent pointers, children first and without a stack: where the
walk comes from tells which subtrees of a node are done. A released node may be gone, so the walk
is stuck if it touches one; the child pointers of its parent go on naming it.
-/

namespace KernelAx.Eevdf

open Function

variable {K ι : Type}

/-- The node that is embedded in a task. -/
structure NodeState (K ι : Type) where
  key : K
  eligibleAt : Nat
  parent : Option ι
  left : Option ι
  right : Option ι
  color : Color
  subtreeMin : Nat
  linked : Bool

/-- What is left of a node that the walk releases. -/
def NodeState.clear (link : NodeState K ι) : NodeState K ι :=
  { link with
    parent := none, left := none, right := none, linked := false, subtreeMin := link.eligibleAt }

/-- The tree, the nodes with their strong counts, and the nodes released so far. -/
structure Teardown (K ι : Type) where
  root : Option ι
  len : Nat
  states : ι → NodeState K ι
  strong : ι → Nat
  released : List ι

namespace Teardown

variable [DecidableEq ι]

/-- The child that the walk goes down to, if one remains. -/
def next (link : NodeState K ι) (previous : Option ι) : Option ι :=
  if previous = link.parent then link.left.or link.right
  else if previous = link.left then link.right
  else none

def release (m : Teardown K ι) (node : ι) : Teardown K ι where
  root := if (m.states node).parent = none then none else m.root
  len := m.len - 1
  states := update m.states node (m.states node).clear
  strong := update m.strong node (m.strong node - 1)
  released := m.released ++ [node]

/-- The loop of `drop` from `current`, for at most `fuel` iterations. -/
def drop : Nat → Option ι → Option ι → Teardown K ι → Option (Teardown K ι)
  | _, none, _, m => some m
  | 0, some _, _, _ => none
  | fuel + 1, some node, previous, m =>
    if node ∈ m.released then none
    else
      match next (m.states node) previous with
      | some child => drop fuel (some child) (some node) m
      | none => drop fuel (m.states node).parent (some node) (m.release node)

end Teardown

/-! ### Trees in memory -/

namespace Tree

def root : Tree K ι → Option ι
  | nil => none
  | node _ _ entry _ _ => some entry.value

def postorder : Tree K ι → List ι
  | nil => []
  | node _ left entry _ right => left.postorder ++ right.postorder ++ [entry.value]

/-- The pointers in memory form the tree, below `parent`. -/
def Linked (states : ι → NodeState K ι) : Option ι → Tree K ι → Prop
  | _, nil => True
  | parent, node color left entry subtreeMin right =>
    states entry.value =
        ⟨entry.key, entry.eligibleAt, parent, left.root, right.root, color, subtreeMin, true⟩ ∧
      left.Linked states (some entry.value) ∧ right.Linked states (some entry.value)

theorem Linked.congr {states states' : ι → NodeState K ι} {t : Tree K ι} {parent : Option ι}
    (h : t.Linked states parent) (hsame : ∀ p ∈ t.postorder, states' p = states p) :
    t.Linked states' parent := by
  induction t generalizing parent with
  | nil => trivial
  | node color left entry subtreeMin right ihl ihr =>
    simp only [postorder, List.mem_append, List.mem_singleton] at hsame
    obtain ⟨hnode, hl, hr⟩ := h
    exact ⟨(hsame _ (.inr rfl)).trans hnode, ihl hl fun p hp => hsame p (.inl (.inl hp)),
      ihr hr fun p hp => hsame p (.inl (.inr hp))⟩

theorem root_mem {t : Tree K ι} {p : ι} (h : t.root = some p) : p ∈ t.postorder := by
  cases t with
  | nil => cases h
  | node color left entry subtreeMin right => simp_all [root, postorder]

end Tree

/-! ### The walk -/

namespace Teardown

variable [DecidableEq ι] {m : Teardown K ι} {t : Tree K ι} {parent : Option ι} {p : ι}

def after (m : Teardown K ι) (nodes : List ι) : Teardown K ι where
  root := m.root
  len := m.len - nodes.length
  states p := if p ∈ nodes then (m.states p).clear else m.states p
  strong p := m.strong p - nodes.count p
  released := m.released ++ nodes

theorem after_after (m : Teardown K ι) (nodes nodes' : List ι) :
    (m.after nodes).after nodes' = m.after (nodes ++ nodes') := by
  simp only [after, Teardown.mk.injEq, List.length_append, Nat.sub_sub, List.count_append,
    List.append_assoc, List.mem_append, true_and, and_true]
  funext p
  by_cases h : p ∈ nodes <;> by_cases h' : p ∈ nodes' <;> simp [h, h', NodeState.clear]

theorem release_eq (m : Teardown K ι) (p : ι) :
    m.release p = { m.after [p] with
      root := if (m.states p).parent = none then none else m.root } := by
  simp only [release, after, Teardown.mk.injEq, List.length_singleton, true_and, and_true]
  refine ⟨funext fun q => ?_, funext fun q => ?_⟩
  · by_cases hq : q = p <;> simp [hq]
  · by_cases hq : q = p <;> simp [hq, Ne.symm]

theorem drop_below (previous : Option ι)
    (hwalk : t.isNil = false → ∃ n, n + 1 ≤ 2 * t.postorder.length ∧ ∀ k,
      drop (n + k) t.root (some p) m = drop k (some p) t.root (m.after t.postorder))
    (hp : p ∉ m.released) (hnext : t.isNil = false → next (m.states p) previous = t.root) :
    ∃ n, n ≤ 2 * t.postorder.length ∧ ∀ k, drop (n + k) (some p) previous m
      = drop k (some p) (if t.isNil then previous else t.root) (m.after t.postorder) := by
  cases t with
  | nil => exact ⟨0, Nat.zero_le _, fun k => by simp [after, Tree.postorder, Tree.isNil]⟩
  | node color left entry subtreeMin right =>
    obtain ⟨n, hn, hwalk⟩ := hwalk rfl
    refine ⟨n + 1, hn, fun k => ?_⟩
    rw [Nat.add_right_comm, drop, if_neg hp, hnext rfl]
    exact hwalk k

/-- **The walk goes once round a subtree**, by induction on it. -/
theorem drop_subtree (hsome : t.isNil = false) (hlinked : t.Linked m.states parent)
    (hnodup : t.postorder.Nodup) (hparent : ∀ p ∈ t.postorder, parent ≠ some p)
    (hfresh : ∀ p ∈ t.postorder, p ∉ m.released) :
    ∃ n, n + 1 ≤ 2 * t.postorder.length ∧ ∀ k, drop (n + k) t.root parent m
      = drop k parent t.root
          { m.after t.postorder with root := if parent = none then none else m.root } := by
  induction t generalizing m parent with
  | nil => cases hsome
  | node color left entry subtreeMin right ihl ihr =>
    obtain ⟨hnode, hl, hr⟩ := hlinked
    simp only [Tree.postorder, List.nodup_append, List.mem_append, List.mem_singleton]
      at hnodup hparent hfresh
    obtain ⟨⟨hnl, hnr, hlr⟩, -, hentry⟩ := hnodup
    have hpl : entry.value ∉ left.postorder := fun h => hentry _ (.inl h) _ rfl rfl
    have hpr : entry.value ∉ right.postorder := fun h => hentry _ (.inr h) _ rfl rfl
    have hp := hfresh _ (.inr rfl)
    have hstate₁ : (m.after left.postorder).states entry.value = m.states entry.value := if_neg hpl
    have hstate₂ : ((m.after left.postorder).after right.postorder).states entry.value
        = m.states entry.value :=
      (if_neg hpr).trans hstate₁
    -- down to the left, if there is a left
    obtain ⟨n₁, hn₁, hleft⟩ := drop_below parent
      (fun hsome => ihl hsome hl hnl (fun q hq heq => hpl (Option.some.inj heq ▸ hq))
        fun q hq => hfresh q (.inl (.inl hq))) hp
      (fun hsome => by
        cases left with
        | nil => cases hsome
        | node => simp [next, hnode, Tree.root])
    -- then the right subtree is what remains
    have hnext : next (m.states entry.value) (if left.isNil then parent else left.root)
        = right.root := by
      cases left with
      | nil => simp [next, Tree.isNil, Tree.root, hnode]
      | node _ _ e _ _ =>
        have he := hparent e.value (.inl (.inl (Tree.root_mem rfl)))
        simp [next, Tree.isNil, Tree.root, hnode, he.symm]
    obtain ⟨n₂, hn₂, hright⟩ := drop_below (m := m.after left.postorder)
      (if left.isNil then parent else left.root)
      (fun hsome => ihr hsome (hr.congr fun q hq => if_neg fun hq' => hlr q hq' q hq rfl) hnr
        (fun q hq heq => hpr (Option.some.inj heq ▸ hq))
        fun q hq hq' => (List.mem_append.mp hq').elim (hfresh q (.inl (.inr hq)))
          fun hq' => hlr q hq' q hq rfl)
      (fun hq => (List.mem_append.mp hq).elim hp hpl) (fun _ => by rw [hstate₁, hnext])
    -- and then nothing
    have hnone : next (m.states entry.value)
        (if right.isNil then if left.isNil then parent else left.root else right.root) = none := by
      cases right with
      | nil => exact hnext
      | node _ _ e _ _ =>
        have he := hparent e.value (.inl (.inr (Tree.root_mem rfl)))
        have he' : some e.value ≠ left.root := fun heq =>
          hlr _ (Tree.root_mem heq.symm) _ (Tree.root_mem rfl) rfl
        rw [hnode]
        exact (if_neg he.symm).trans (if_neg he')
    refine ⟨n₁ + n₂ + 1, ?_, fun k => ?_⟩
    · simp only [Tree.postorder, List.length_append, List.length_singleton]
      omega
    · rw [Nat.add_assoc, Nat.add_assoc, Tree.root, hleft, hright, Nat.add_comm 1, drop, if_neg,
        hstate₂, hnone, release_eq, hstate₂, after_after, after_after, hnode]
      · rfl
      · simp [after, hp, hpl, hpr]

/-- The tree is well formed and holds a reference to each of its nodes. -/
structure Owns (t : Tree K ι) (states : ι → NodeState K ι) (strong : ι → Nat) : Prop where
  linked : t.Linked states none
  nodup : t.postorder.Nodup
  strong : ∀ p ∈ t.postorder, 1 ≤ strong p

/-- **The tree is torn down**, whatever its shape. Two iterations for each node are enough, and the
walk is not stuck: it touches no node after its release. Every node has been released once,
children first, with its links cleared and one reference given up, and nothing else has changed. -/
theorem drop_tears_down {states : ι → NodeState K ι} {strong : ι → Nat} (h : Owns t states strong)
    (fuel : Nat) (hfuel : 2 * t.postorder.length ≤ fuel) :
    ∃ m, drop fuel t.root none ⟨t.root, t.postorder.length, states, strong, []⟩ = some m ∧
      m.root = none ∧ m.len = 0 ∧ m.released = t.postorder ∧ m.released.Nodup ∧
      (∀ p ∈ t.postorder, m.states p = (states p).clear ∧ m.strong p + 1 = strong p) ∧
      ∀ p ∉ t.postorder, m.states p = states p ∧ m.strong p = strong p := by
  refine ⟨{ after ⟨t.root, t.postorder.length, states, strong, []⟩ t.postorder with root := none },
    ?_, rfl, Nat.sub_self _, rfl, h.nodup, fun p hp => ⟨if_pos hp, ?_⟩,
    fun p hp => ⟨if_neg hp, ?_⟩⟩
  · cases t with
    | nil => simp [drop, after, Tree.root, Tree.postorder]
    | node color left entry subtreeMin right =>
      obtain ⟨n, hn, hwalk⟩ := drop_subtree rfl h.linked h.nodup (fun _ _ => nofun)
        (m := ⟨some entry.value, _, states, strong, []⟩) fun _ _ => nofun
      obtain ⟨k, rfl⟩ := Nat.exists_eq_add_of_le ((Nat.le_succ n).trans (hn.trans hfuel))
      exact (hwalk k).trans (by cases k <;> rfl)
  · have := h.strong p hp
    simp only [after, List.count_eq_one_of_mem h.nodup hp]
    omega
  · simp [after, List.count_eq_zero_of_not_mem hp]

theorem drop_tears_down_two : let states : Nat → NodeState Nat Nat := fun p =>
      if p = 0 then ⟨0, 5, none, none, some 1, .black, 5, true⟩
      else ⟨1, 6, some 0, none, none, .red, 6, true⟩
    ∃ m, drop 4 (some 0) none ⟨some 0, 2, states, fun _ => 2, []⟩ = some m ∧
      m.released = [1, 0] ∧ m.strong 1 = 1 := by
  intro states
  have h : Owns (.node .black .nil ⟨0, 5, 0⟩ 5 (.node .red .nil ⟨1, 6, 1⟩ 6 .nil)) states
      fun _ => 2 :=
    ⟨⟨rfl, trivial, rfl, trivial, trivial⟩, by decide, fun _ _ => by decide⟩
  obtain ⟨m, hm, -, -, hreleased, -, hnodes, -⟩ := drop_tears_down h 4 (by decide)
  exact ⟨m, hm, hreleased, Nat.succ.inj (hnodes 1 (by decide)).2⟩

end Teardown

end KernelAx.Eevdf
