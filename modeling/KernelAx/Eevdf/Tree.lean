import KernelAx.Eevdf.Arith
import Mathlib.Order.Defs.LinearOrder
import Mathlib.Data.List.Sort

/-!
# EEVDF — The augmented red-black tree

The ready tree is ordered by key, and every node caches the least eligibility point of its
subtree, so that the earliest eligible node is found by one descent. Parent pointers are a path
here: the list of ancestors above a subtree, each with the side the subtree hangs on and the
sibling. A step of the fixup loops looks at the subtree in focus and at the head of its path; the
mirrored branches of the source are one definition with a side.

Caches are recomputed where the source does it and nowhere else. While a node is being removed
the caches above it are stale.
-/

namespace KernelAx.Eevdf

inductive Color
  | red
  | black
  deriving DecidableEq, Repr

inductive Side
  | left
  | right
  deriving DecidableEq, Repr

def Side.flip : Side → Side
  | .left => .right
  | .right => .left

/-- The structural snapshot of a linked node, with the task it belongs to. -/
structure Entry (K α : Type) where
  key : K
  eligibleAt : Nat
  value : α
  deriving DecidableEq, Repr

/-- A tree of entries in which a node caches the least eligible time below it. -/
inductive Tree (K α : Type)
  | nil
  | node (color : Color) (left : Tree K α) (entry : Entry K α) (subtreeMin : Nat) (right : Tree K α)
  deriving DecidableEq, Repr

/-- An ancestor of the subtree in focus, which hangs on its `side`. -/
structure Crumb (K α : Type) where
  side : Side
  color : Color
  entry : Entry K α
  subtreeMin : Nat
  sibling : Tree K α

inductive TreeError
  | alreadyLinked
  | duplicateKey
  | foreignNode
  deriving DecidableEq, Repr

namespace Tree

variable {K α : Type}

def emptyMin : Nat := maxU128

def min : Tree K α → Nat
  | nil => emptyMin
  | node _ _ _ subtreeMin _ => subtreeMin

def isNil : Tree K α → Bool
  | nil => true
  | node .. => false

def color : Tree K α → Color
  | nil => .black
  | node color .. => color

def setColor (color : Color) : Tree K α → Tree K α
  | nil => nil
  | node _ left entry subtreeMin right => node color left entry subtreeMin right

def child : Side → Tree K α → Tree K α
  | _, nil => nil
  | .left, node _ left _ _ _ => left
  | .right, node _ _ _ _ right => right

def setChildColor (color : Color) : Side → Tree K α → Tree K α
  | _, nil => nil
  | .left, node c left entry m right => node c (left.setColor color) entry m right
  | .right, node c left entry m right => node c left entry m (right.setColor color)

def toList : Tree K α → List (Entry K α)
  | nil => []
  | node _ left entry _ right => left.toList ++ entry :: right.toList

/-- The node with `focus` on its `side` and `sibling` on the other. -/
def join (side : Side) (color : Color) (focus : Tree K α) (entry : Entry K α) (subtreeMin : Nat)
    (sibling : Tree K α) : Tree K α :=
  match side with
  | .left => node color focus entry subtreeMin sibling
  | .right => node color sibling entry subtreeMin focus

/-- The whole tree around a subtree. -/
def plug : Tree K α → List (Crumb K α) → Tree K α
  | focus, [] => focus
  | focus, p :: path => plug (join p.side p.color focus p.entry p.subtreeMin p.sibling) path

def recompute : Tree K α → Tree K α
  | nil => nil
  | node color left entry _ right =>
    node color left entry (Nat.min (Nat.min entry.eligibleAt left.min) right.min) right

def rotateLeft : Tree K α → Tree K α
  | node cx a x mx (node cy b y my c) => recompute (node cy (recompute (node cx a x mx b)) y my c)
  | t => t

def rotateRight : Tree K α → Tree K α
  | node cx (node cy a y my b) x mx c => recompute (node cy a y my (recompute (node cx b x mx c)))
  | t => t

/-- The rotation that lowers the root to its `side`. -/
def rotate : Side → Tree K α → Tree K α
  | .left => rotateLeft
  | .right => rotateRight

/-! ### Insertion -/

/-- `recompute_upwards` along the path to a subtree, from the bottom. -/
def recomputePath : Tree K α → List (Crumb K α) → List (Crumb K α)
  | _, [] => []
  | focus, p :: path =>
    let node := (join p.side p.color focus p.entry p.subtreeMin p.sibling).recompute
    { p with subtreeMin := node.min } :: recomputePath node path

/-- Restores the colours from the red node in focus upwards. -/
def insertFixup : Tree K α → List (Crumb K α) → Tree K α
  | focus, p :: g :: path =>
    if p.color = .red then
      let parent := join p.side p.color focus p.entry p.subtreeMin p.sibling
      if g.sibling.color = .red then
        insertFixup (join g.side .red (parent.setColor .black) g.entry g.subtreeMin
          (g.sibling.setColor .black)) path
      else
        let parent := if p.side = g.side then parent else rotate g.side parent
        (plug (rotate g.side.flip
          (join g.side .red (parent.setColor .black) g.entry g.subtreeMin g.sibling)) path)
          |>.setColor .black
    else (plug focus (p :: g :: path)).setColor .black
  | focus, path => (plug focus path).setColor .black

section Order

variable [LinearOrder K]

/-- `recompute_upwards` from the node with key `key`. -/
def recomputeUpwards (key : K) : Tree K α → Tree K α
  | nil => nil
  | node color left entry m right =>
    if key < entry.key then recompute (node color (left.recomputeUpwards key) entry m right)
    else if entry.key < key then
      recompute (node color left entry m (right.recomputeUpwards key))
    else recompute (node color left entry m right)

/-- The path to the place of a new key; `none` when the key is there already. -/
def descend (key : K) : Tree K α → List (Crumb K α) → Option (List (Crumb K α))
  | nil, path => some path
  | node color left entry m right, path =>
    if key < entry.key then left.descend key (⟨.left, color, entry, m, right⟩ :: path)
    else if entry.key < key then right.descend key (⟨.right, color, entry, m, left⟩ :: path)
    else none

def insertNode (entry : Entry K α) (t : Tree K α) : Except TreeError (Tree K α) :=
  match t.descend entry.key [] with
  | none => .error .duplicateKey
  | some path =>
    let new := node .red nil entry entry.eligibleAt nil
    .ok ((insertFixup new (recomputePath new path)).recomputeUpwards entry.key)

end Order

/-! ### Removal -/

/-- What the loop of `delete_fixup` does with one parent: it moves up, or is done with a
rotation. -/
inductive DeleteStep (K α : Type)
  | up (parent : Tree K α)
  | done (parent : Tree K α)

def DeleteStep.tree : DeleteStep K α → Tree K α
  | up parent => parent
  | done parent => parent

/-- The part of an iteration after a red sibling has been rotated away. -/
def deleteCase (side : Side) (focus : Tree K α) (color : Color) (entry : Entry K α) (m : Nat)
    (sibling : Tree K α) : DeleteStep K α :=
  if (sibling.child side).color = .black ∧ (sibling.child side.flip).color = .black then
    .up (join side color focus entry m (sibling.setColor .red))
  else
    let sibling := if (sibling.child side.flip).color = .black then
        rotate side.flip ((sibling.setChildColor .black side).setColor .red)
      else sibling
    let sibling := (sibling.setColor color).setChildColor .black side.flip
    .done (rotate side (join side .black focus entry m sibling))

/-- Restores the black heights from the subtree in focus, short of one black, upwards. -/
def deleteFixup : Tree K α → List (Crumb K α) → Tree K α
  | focus, [] => focus.setColor .black
  | focus, p :: path =>
    if focus.color = .red then plug (focus.setColor .black) (p :: path)
    else if p.sibling.color = .red then
      -- the sibling goes up, the parent turns red; its new sibling is the inner nephew
      match rotate p.side (join p.side .red focus p.entry p.subtreeMin
          (p.sibling.setColor .black)) with
      | nil => plug focus (p :: path)
      | node color left entry m right =>
        let top := node color left entry m right
        match top.child p.side with
        | nil => plug focus (p :: path)
        | node pc pl pe pm pr =>
          match deleteCase p.side focus pc pe pm ((node pc pl pe pm pr).child p.side.flip) with
          -- the parent is red, so the loop ends there
          | .up parent =>
            plug (join p.side color (parent.setColor .black) entry m
              (top.child p.side.flip)) path
          | .done parent =>
            (plug (join p.side color parent entry m (top.child p.side.flip)) path)
              |>.setColor .black
    else
      match deleteCase p.side focus p.color p.entry p.subtreeMin p.sibling with
      | .up parent => deleteFixup parent path
      | .done parent => (plug parent path).setColor .black

/-- The node of least key: its colour, entry, cached minimum and right subtree, with the path
above it. -/
def splitMin : Color → Tree K α → Entry K α → Nat → Tree K α → List (Crumb K α) →
    Color × Entry K α × Nat × Tree K α × List (Crumb K α)
  | color, nil, entry, m, right, path => (color, entry, m, right, path)
  | color, node lc ll le lm lr, entry, m, right, path =>
    splitMin lc ll le lm lr (⟨.left, color, entry, m, right⟩ :: path)

/-- The subtree `focus` has taken the place of a removed black or red node; `color` is the removed
colour. -/
def closeGap (color : Color) (focus : Tree K α) (path : List (Crumb K α)) : Tree K α :=
  if color = .black then deleteFixup focus path else plug focus path

/-- The key of a subtree's root, for the walk upwards from it. -/
def rootKey : Tree K α → Option K
  | nil => none
  | node _ _ entry _ _ => some entry.key

section Order

variable [LinearOrder K]

def recomputeFrom (key : Option K) (t : Tree K α) : Tree K α :=
  match key with
  | none => t
  | some key => t.recomputeUpwards key

/-- `remove_raw` of a node with the given children and path. -/
def removeRaw (color : Color) (left : Tree K α) (right : Tree K α) (path : List (Crumb K α)) :
    Tree K α :=
  let xParent := path.head?.map (·.entry.key)
  match left, right with
  | nil, right =>
    ((closeGap color right path).recomputeFrom right.rootKey |>.recomputeFrom xParent)
      |>.setColor .black
  | left, nil =>
    ((closeGap color left path).recomputeFrom left.rootKey |>.recomputeFrom xParent)
      |>.setColor .black
  | left, node rc rl re rm rr =>
    -- the successor `y` takes the place of the removed node, with its own stale cache
    let (yColor, y, yMin, x, spine) := splitMin rc rl re rm rr []
    let path := spine ++ ⟨.right, color, y, yMin, left⟩ :: path
    let xParent := path.head?.map (·.entry.key)
    ((closeGap yColor x path).recomputeFrom x.rootKey |>.recomputeFrom xParent
      |>.recomputeFrom (some y.key)).setColor .black

/-- The node of a key, its children and the path above it. -/
def find (key : K) : Tree K α → List (Crumb K α) →
    Option (Color × Tree K α × Entry K α × Tree K α × List (Crumb K α))
  | nil, _ => none
  | node color left entry m right, path =>
    if key < entry.key then left.find key (⟨.left, color, entry, m, right⟩ :: path)
    else if entry.key < key then right.find key (⟨.right, color, entry, m, left⟩ :: path)
    else some (color, left, entry, right, path)

/-- Removes the node of `key` when it belongs to `value`. -/
def removeNode [DecidableEq α] (key : K) (value : α) (t : Tree K α) : Except TreeError (Tree K α) :=
  match t.find key [] with
  | some (color, left, entry, right, path) =>
    if entry.value = value then .ok (removeRaw color left right path) else .error .foreignNode
  | none => .error .foreignNode

end Order

/-! ### Queries -/

def front : Tree K α → Option (Entry K α)
  | nil => none
  | node _ nil entry _ _ => some entry
  | node _ left _ _ _ => left.front

def minEligibleAt : Tree K α → Option Nat
  | nil => none
  | node _ _ _ subtreeMin _ => some subtreeMin

/-- The first node in key order whose eligibility point is not after `now`. -/
def peekEarliestEligible (now : Nat) : Tree K α → Option (Entry K α)
  | nil => none
  | node _ left entry subtreeMin right =>
    if now < subtreeMin then none
    else if left.isNil = false ∧ left.min ≤ now then left.peekEarliestEligible now
    else if entry.eligibleAt ≤ now then some entry
    else if right.isNil = false ∧ right.min ≤ now then right.peekEarliestEligible now
    else none

end Tree

structure EevdfTree (K α : Type) where
  root : Tree K α
  len : Nat
  deriving DecidableEq, Repr

namespace EevdfTree

variable {K α : Type}

def new : EevdfTree K α := ⟨.nil, 0⟩

def isEmpty (t : EevdfTree K α) : Bool := t.len = 0

def toList (t : EevdfTree K α) : List (Entry K α) := t.root.toList

def front (t : EevdfTree K α) : Option (Entry K α) := t.root.front

def minEligibleAt (t : EevdfTree K α) : Option Nat := t.root.minEligibleAt

def peekEarliestEligible (t : EevdfTree K α) (now : Nat) : Option (Entry K α) :=
  t.root.peekEarliestEligible now

variable [LinearOrder K] [DecidableEq α]

/-- Links a node; `linked` is the node's own link flag. -/
def insert (t : EevdfTree K α) (linked : Bool) (entry : Entry K α) :
    Except TreeError (EevdfTree K α) :=
  if linked then .error .alreadyLinked
  else (t.root.insertNode entry).map fun root => ⟨root, t.len + 1⟩

/-- Unlinks exactly the node of `value`, found by its key. -/
def remove (t : EevdfTree K α) (linked : Bool) (key : K) (value : α) :
    Except TreeError (EevdfTree K α) :=
  if linked then (t.root.removeNode key value).map fun root => ⟨root, t.len - 1⟩
  else .error .foreignNode

def popEarliestEligible (t : EevdfTree K α) (now : Nat) : Option (Entry K α × EevdfTree K α) :=
  match t.root.peekEarliestEligible now with
  | none => none
  | some entry =>
    match t.root.find entry.key [] with
    | some (color, left, entry, right, path) =>
      some (entry, ⟨Tree.removeRaw color left right path, t.len - 1⟩)
    | none => none

end EevdfTree

end KernelAx.Eevdf
