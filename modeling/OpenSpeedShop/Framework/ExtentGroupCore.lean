import OpenSpeedShop.Framework.Interval
import Mathlib.Data.Finset.Insert

/-!
The extent group and its Kd-tree, an array of nodes that grows while queries are answered; a map is
permuted instead of the extents. `none` stands for an index outside an array, or a traversal that has
not ended within its fuel.
-/

namespace OpenSpeedShop

def writeAt {Value : Type} (values : List Value) (index : Nat) (value : Value) : Option (List Value) :=
  if index < values.length then some (values.set index value) else none

def resize {Value : Type} (values : List Value) (size : Nat) (value : Value) : List Value :=
  values.take size ++ List.replicate (size - values.length) value

def PermutesRange (first last : Nat) (before after : List Nat) : Prop :=
  ∃ source : Equiv.Perm Nat,
    (∀ position, ¬(first ≤ position ∧ position < last) → source position = position) ∧
    ∀ position : Nat, after[position]? = before[source position]?

/-- `std::nth_element` on the range `[first, last)` of an array, whose positions are permuted;
which element ends up where is left open. -/
structure NthElement where
  run : (less : Nat → Nat → Bool) → (values : List Nat) → (first nth last : Nat) → List Nat
  permutes : ∀ less values first nth last, PermutesRange first last values (run less values first nth last)

def swapUnordered (less : Nat → Nat → Bool) (values : List Nat) (position : Nat) : List Nat :=
  match values[position]?, values[position + 1]? with
  | some left, some right =>
    if less right left then (values.set position right).set (position + 1) left else values
  | _, _ => values

def bubble (less : Nat → Nat → Bool) : (count position : Nat) → List Nat → List Nat
  | 0, _, values => values
  | count + 1, position, values =>
    bubble less count (position + 1) (swapUnordered less values position)

def bubbleSort (less : Nat → Nat → Bool) (first last : Nat) : (rounds : Nat) → List Nat → List Nat
  | 0, values => values
  | rounds + 1, values =>
    bubbleSort less first last rounds (bubble less (last - first - 1) first values)

theorem PermutesRange.refl (first last : Nat) (values : List Nat) : PermutesRange first last values values :=
  ⟨Equiv.refl Nat, fun _ _ => rfl, fun _ => rfl⟩

theorem PermutesRange.trans {first last : Nat} {before middle after : List Nat}
    (one : PermutesRange first last before middle) (two : PermutesRange first last middle after) :
    PermutesRange first last before after := by
  obtain ⟨source, fixes, moves⟩ := one
  obtain ⟨source', fixes', moves'⟩ := two
  refine ⟨source'.trans source, ?_, ?_⟩
  · intro position outside
    rw [Equiv.trans_apply, fixes' position outside, fixes position outside]
  · intro position
    rw [Equiv.trans_apply, moves', moves]

theorem swapUnordered_permutes (less : Nat → Nat → Bool) {first last : Nat} (values : List Nat)
    {position : Nat} (lower : first ≤ position) (upper : position + 1 < last) :
    PermutesRange first last values (swapUnordered less values position) := by
  unfold swapUnordered
  split
  · rename_i left right leftHere rightHere
    split
    · refine ⟨Equiv.swap position (position + 1), ?_, ?_⟩
      · intro other outside
        exact Equiv.swap_apply_of_ne_of_ne (by omega) (by omega)
      · intro other
        have leftBound := (List.getElem?_eq_some_iff.mp leftHere).1
        have rightBound := (List.getElem?_eq_some_iff.mp rightHere).1
        rw [List.getElem?_set, List.getElem?_set]
        rcases Nat.lt_trichotomy other position with before | here | after
        · rw [Equiv.swap_apply_of_ne_of_ne (by omega) (by omega), if_neg (by omega), if_neg (by omega)]
        · subst other
          rw [Equiv.swap_apply_left, if_neg (by omega), if_pos rfl, if_pos leftBound, rightHere]
        · by_cases next : other = position + 1
          · subst other
            rw [Equiv.swap_apply_right, if_pos rfl, List.length_set, if_pos rightBound, leftHere]
          · rw [Equiv.swap_apply_of_ne_of_ne (by omega) next, if_neg (by omega), if_neg (by omega)]
    · exact PermutesRange.refl first last values
  · exact PermutesRange.refl first last values

theorem bubble_permutes (less : Nat → Nat → Bool) {first last : Nat} :
    ∀ (count position : Nat) (values : List Nat), first ≤ position → (0 < count → position + count < last) →
      PermutesRange first last values (bubble less count position values) := by
  intro count
  induction count with
  | zero => intro position values _ _; exact PermutesRange.refl first last values
  | succ count ih =>
    intro position values lower upper
    have bound := upper (Nat.succ_pos count)
    exact (swapUnordered_permutes less values lower (by omega)).trans
      (ih (position + 1) _ (by omega) (by omega))

theorem bubbleSort_permutes (less : Nat → Nat → Bool) (first last : Nat) :
    ∀ (rounds : Nat) (values : List Nat),
      PermutesRange first last values (bubbleSort less first last rounds values) := by
  intro rounds
  induction rounds with
  | zero => intro values; exact PermutesRange.refl first last values
  | succ rounds ih =>
    intro values
    exact (bubble_permutes less (last - first - 1) first values (le_refl _) (by omega)).trans (ih _)

def NthElement.bySorting : NthElement where
  run less values first _ last := bubbleSort less first last (last - first) values
  permutes less values first _ last := bubbleSort_permutes less first last (last - first) values

/-- Kd-tree node. `dmChildren` is zero before the children are built, the index
of the left child of an internal node, and `-(index + 1)` for a leaf. -/
structure Node where
  dmChildren : Int
  dmFirst : Nat
  dmLast : Nat
  dmBounds : Extent
deriving Inhabited

structure ExtentGroup where
  extents : List Extent
  dmNext : Nat
  dmTree : List Node
  dmMap : List Nat

namespace ExtentGroup

/-- A fresh group. The source has no constructor, so `dmNext` starts out as
whatever the memory held. -/
def new (dmNext : Nat) : ExtentGroup := ⟨[], dmNext, [], []⟩

def pushBack (self : ExtentGroup) (extent : Extent) : ExtentGroup :=
  { self with extents := self.extents ++ [extent] }

/-- The predicate handed to `std::nth_element`: sums and halves the ends of the
time intervals or address ranges as unsigned 64-bit values. -/
def compareExtents (extents : List Extent) (byTime : Bool) (lhs rhs : Nat) : Bool :=
  let left := extents.getD lhs default
  let right := extents.getD rhs default
  if byTime then
    decide ((left.dmInterval.dmBegin + left.dmInterval.dmEnd) / 2 <
      (right.dmInterval.dmBegin + right.dmInterval.dmEnd) / 2)
  else
    decide ((left.dmRange.dmBegin + left.dmRange.dmEnd) / 2 <
      (right.dmRange.dmBegin + right.dmRange.dmEnd) / 2)

def boundsFrom (extents : List Extent) (map : List Nat) : (count position : Nat) → Extent → Option Extent
  | 0, _, bounds => some bounds
  | count + 1, position, bounds => do
      let index ← map[position]?
      let extent ← extents[index]?
      boundsFrom extents map count (position + 1) (bounds.union extent)

def initializeTree (self : ExtentGroup) : Option ExtentGroup :=
  if 0 < self.dmMap.length ∧ self.dmMap.length = self.extents.length then
    some self
  else do
    let tree := resize self.dmTree (2 * self.extents.length) default
    let map := List.range self.extents.length
    let bounds := self.extents.foldl Extent.union default
    let tree ← writeAt tree 0 ⟨0, 0, self.extents.length - 1, bounds⟩
    some { self with dmNext := 1, dmTree := tree, dmMap := map }

def buildChildren (nthElement : NthElement) (self : ExtentGroup) (node : Nat) : Option ExtentGroup := do
  let current ← self.dmTree[node]?
  if current.dmFirst = current.dmLast then
    let index ← self.dmMap[current.dmFirst]?
    let extent ← self.extents[index]?
    let tree ← writeAt self.dmTree node
      { current with dmChildren := -((index : Int) + 1), dmBounds := extent }
    some { self with dmTree := tree }
  else
    let nth := (current.dmFirst + current.dmLast) / 2
    let byTime := decide (current.dmBounds.dmInterval.getWidth > current.dmBounds.dmRange.getWidth)
    let map := nthElement.run (compareExtents self.extents byTime) self.dmMap
      current.dmFirst nth current.dmLast
    let tree ← writeAt self.dmTree node { current with dmChildren := self.dmNext }
    let leftBounds ← boundsFrom self.extents map (nth + 1 - current.dmFirst) current.dmFirst default
    let tree ← writeAt tree self.dmNext ⟨0, current.dmFirst, nth, leftBounds⟩
    let rightBounds ← boundsFrom self.extents map (current.dmLast - nth) (nth + 1) default
    let tree ← writeAt tree (self.dmNext + 1) ⟨0, nth + 1, current.dmLast, rightBounds⟩
    some { self with dmNext := self.dmNext + 2, dmTree := tree, dmMap := map }

def ensureChildren (nthElement : NthElement) (self : ExtentGroup) (node : Nat)
    (dmChildren : Int) : Option ExtentGroup :=
  if dmChildren = 0 then buildChildren nthElement self node else some self

def traverse (nthElement : NthElement) (extent : Extent) :
    (fuel : Nat) → ExtentGroup → (traversal : List Nat) → (intersection : Finset Nat) →
      Option (Finset Nat × ExtentGroup)
  | 0, _, _, _ => none
  | _ + 1, self, [], intersection => some (intersection, self)
  | fuel + 1, self, node :: traversal, intersection => do
      let current ← self.dmTree[node]?
      if extent.doesIntersect current.dmBounds = false then
        traverse nthElement extent fuel self traversal intersection
      else
        let self ← ensureChildren nthElement self node current.dmChildren
        let current ← self.dmTree[node]?
        if 0 < current.dmChildren then
          let left := current.dmChildren.toNat
          traverse nthElement extent fuel self (traversal ++ [left, left + 1]) intersection
        else if current.dmChildren < 0 then
          traverse nthElement extent fuel self traversal
            (insert (-(current.dmChildren + 1)).toNat intersection)
        else
          traverse nthElement extent fuel self traversal intersection

def getIntersectionWith (nthElement : NthElement) (fuel : Nat) (self : ExtentGroup)
    (extent : Extent) : Option (Finset Nat × ExtentGroup) :=
  if self.extents.isEmpty then
    some (∅, self)
  else do
    let self ← initializeTree self
    traverse nthElement extent fuel self [0] ∅

def getBounds (self : ExtentGroup) : Option (Extent × ExtentGroup) :=
  if self.extents.isEmpty then
    some (default, self)
  else do
    let self ← initializeTree self
    let root ← self.dmTree[0]?
    some (root.dmBounds, self)

inductive Call
  | pushBack (extent : Extent)
  | getIntersectionWith (extent : Extent)

def execute (nthElement : NthElement) (fuel : Nat) :
    List Call → ExtentGroup → Option (List (Finset Nat) × ExtentGroup)
  | [], self => some ([], self)
  | .pushBack extent :: rest, self => execute nthElement fuel rest (self.pushBack extent)
  | .getIntersectionWith extent :: rest, self => do
      let (answer, self) ← self.getIntersectionWith nthElement fuel extent
      let (answers, self) ← execute nthElement fuel rest self
      some (answer :: answers, self)

end ExtentGroup

end OpenSpeedShop
