import OpenSpeedShop.Framework.ExtentGroup

/-!
An extent group that is changed through the interface of its vector between queries.
The tree is only built anew when the number of extents has changed.
-/

namespace OpenSpeedShop.ExtentGroup

open Option (bind_eq_some_iff bind_eq_bind)

inductive Request
  | pushBack (extent : Extent)
  | erase (first last : Nat)
  | clear
  | assign (index : Nat) (extent : Extent)
  | getIntersectionWith (extent : Extent)
  | getBounds
deriving DecidableEq

def mutate (extents : List Extent) : Request → Option (List Extent)
  | .pushBack extent => some (extents ++ [extent])
  | .erase first last =>
    if first ≤ last ∧ last ≤ extents.length then some (extents.take first ++ extents.drop last)
    else none
  | .clear => some []
  | .assign index extent => writeAt extents index extent
  | .getIntersectionWith _ => some extents
  | .getBounds => some extents

inductive Answer
  | done
  | intersection (items : Finset Nat)
  | bounds (extent : Extent)
deriving DecidableEq

def serve (nthElement : NthElement) (self : ExtentGroup) (request : Request) : Option (Answer × ExtentGroup) :=
  match request with
  | .getIntersectionWith extent => do
      let (items, self) ← getIntersectionWith nthElement (2 * self.extents.length) self extent
      some (.intersection items, self)
  | .getBounds => do
      let (bounds, self) ← getBounds self
      some (.bounds bounds, self)
  | .pushBack _ | .erase _ _ | .clear | .assign _ _ => do
      let extents ← mutate self.extents request
      some (.done, { self with extents })

/-- The answer is the one for the extents. The bounds of a single extent may be the
extent itself, which differs from the union with nothing when it is empty. -/
def Answer.Right (extents : List Extent) : Request → Answer → Prop
  | .getIntersectionWith extent, answer => answer = .intersection (linearScan extents extent)
  | .getBounds, answer => ∃ bounds, answer = .bounds bounds ∧
      (bounds = extents.foldl Extent.union default ∨ extents = [bounds])
  | .pushBack _, answer => answer = .done
  | .erase _ _, answer => answer = .done
  | .clear, answer => answer = .done
  | .assign _ _, answer => answer = .done

/-- Every request that the vector's interface allows is answered rightly, one after
the other. -/
def Served (nthElement : NthElement) : ExtentGroup → List Request → Prop
  | _, [] => True
  | self, request :: rest => ∀ extents, mutate self.extents request = some extents →
      ∃ answer next, serve nthElement self request = some (answer, next) ∧
        answer.Right self.extents request ∧ next.extents = extents ∧ Served nthElement next rest

def Request.asks : Request → Bool
  | .getIntersectionWith _ => true
  | .getBounds => true
  | .pushBack _ => false
  | .erase _ _ => false
  | .clear => false
  | .assign _ _ => false

def Fresh : (extents built : List Extent) → List Request → Prop
  | _, _, [] => True
  | extents, built, request :: rest =>
    (request.asks = true → extents ≠ [] → extents.length = built.length → extents = built) ∧
      ∀ next, mutate extents request = some next →
        Fresh next (if request.asks = true ∧ extents ≠ [] then extents else built) rest

def RootBounds (group : ExtentGroup) : Prop :=
  0 < group.dmNext ∧ ∃ root, group.dmTree[0]? = some root ∧ root.dmFirst = 0 ∧
    root.dmLast = group.extents.length - 1 ∧
    (root.dmBounds = group.extents.foldl Extent.union default ∨ group.extents = [root.dmBounds])

theorem initializeTree_rootBounds {group next : ExtentGroup}
    (current : group.dmMap.length = group.extents.length → RootBounds group)
    (ran : initializeTree group = some next) : RootBounds next := by
  unfold initializeTree at ran
  split at ran
  next ready =>
    obtain rfl := Option.some.inj ran
    exact current ready.2
  next =>
    simp only [bind_eq_bind, bind_eq_some_iff] at ran
    obtain ⟨tree, wrote, returned⟩ := ran
    obtain rfl := Option.some.inj returned
    exact ⟨Nat.one_pos, _, (getElem?_of_writeAt wrote 0).trans (if_pos rfl), rfl, rfl, .inl rfl⟩

theorem buildChildren_rootBounds {nthElement : NthElement} {group next : ExtentGroup} {node : Nat}
    (nonempty : 0 < group.extents.length) (bounds : RootBounds group)
    (ran : buildChildren nthElement group node = some next) :
    next.extents = group.extents ∧ RootBounds next := by
  obtain ⟨positive, root, atRoot, first, last, exact⟩ := bounds
  simp only [buildChildren, bind_eq_bind, bind_eq_some_iff] at ran
  obtain ⟨current, here, ran⟩ := ran
  split at ran
  next single =>
    obtain ⟨index, -, extent, present, tree, wrote, returned⟩ := by
      simpa only [bind_eq_some_iff] using ran
    obtain rfl := Option.some.inj returned
    refine ⟨rfl, positive, ?_⟩
    simp only [getElem?_of_writeAt wrote]
    by_cases isRoot : node = 0
    · -- the root is a leaf, so its extent is the only one
      subst isRoot
      obtain rfl : root = current := Option.some.inj (atRoot.symm.trans here)
      obtain ⟨only, same⟩ := List.length_eq_one_iff.mp (show group.extents.length = 1 by omega)
      have bound := (List.getElem?_eq_some_iff.mp present).1
      rw [same] at present bound
      obtain rfl : index = 0 := by simpa using bound
      obtain rfl : only = extent := by simpa using present
      exact ⟨_, if_pos rfl, first, last, .inr same⟩
    · exact ⟨root, by rw [if_neg (Ne.symm isRoot), atRoot], first, last, exact⟩
  next several =>
    obtain ⟨parent, wroteParent, left, -, tree, wroteLeft, right, -, final, wroteRight, returned⟩ := by
      simpa only [bind_eq_some_iff] using ran
    obtain rfl := Option.some.inj returned
    refine ⟨rfl, by simp, ?_⟩
    have kept : final[0]? = parent[0]? := by
      rw [getElem?_of_writeAt wroteRight, if_neg (by omega), getElem?_of_writeAt wroteLeft, if_neg (by omega)]
    simp only [kept, getElem?_of_writeAt wroteParent]
    by_cases isRoot : node = 0
    · subst isRoot
      obtain rfl : root = current := Option.some.inj (atRoot.symm.trans here)
      exact ⟨_, if_pos rfl, first, last, exact⟩
    · exact ⟨root, by rw [if_neg (Ne.symm isRoot), atRoot], first, last, exact⟩

theorem traverse_rootBounds {nthElement : NthElement} {extent : Extent} {fuel : Nat} :
    ∀ {group next : ExtentGroup} {traversal : List Nat} {intersection result : Finset Nat},
      0 < group.extents.length → RootBounds group →
      traverse nthElement extent fuel group traversal intersection = some (result, next) →
      RootBounds next := by
  induction fuel with
  | zero =>
    intro group next traversal intersection result nonempty bounds ran
    cases ran
  | succ fuel ih =>
    intro group next traversal intersection result nonempty bounds ran
    cases traversal with
    | nil =>
      obtain ⟨-, rfl⟩ := Prod.mk.inj (Option.some.inj ran)
      exact bounds
    | cons node traversal =>
      simp only [traverse, bind_eq_bind, bind_eq_some_iff] at ran
      obtain ⟨current, -, ran⟩ := ran
      split at ran
      next => exact ih nonempty bounds ran
      next =>
        obtain ⟨built, ensured, other, -, ran⟩ := by
          simpa only [bind_eq_some_iff] using ran
        have grown : built.extents = group.extents ∧ RootBounds built := by
          unfold ensureChildren at ensured
          split at ensured
          next => exact buildChildren_rootBounds nonempty bounds ensured
          next =>
            obtain rfl := Option.some.inj ensured
            exact ⟨rfl, bounds⟩
        rw [← grown.1] at nonempty
        split at ran
        next => exact ih nonempty grown.2 ran
        next =>
          split at ran
          next => exact ih nonempty grown.2 ran
          next => exact ih nonempty grown.2 ran

structure Follows (group : ExtentGroup) (built : List Extent) : Prop where
  mapSize : group.dmMap.length = built.length
  tree : 0 < built.length → KdTree { group with extents := built }
  bounds : 0 < built.length → RootBounds { group with extents := built }

theorem follows_new (dmNext : Nat) : Follows (new dmNext) [] where
  mapSize := rfl
  tree := fun positive => absurd positive (lt_irrefl 0)
  bounds := fun positive => absurd positive (lt_irrefl 0)

theorem KdTree.follows {group : ExtentGroup} (tree : KdTree group) (bounds : RootBounds group) :
    Follows group group.extents :=
  ⟨tree.mapSize, fun _ => tree, fun _ => bounds⟩

section

variable {group : ExtentGroup} {built : List Extent} (follows : Follows group built)
  (fresh : group.extents ≠ [] → group.extents.length = built.length → group.extents = built)

include follows fresh

theorem Follows.current (nonempty : 0 < group.extents.length)
    (same : group.dmMap.length = group.extents.length) : KdTree group ∧ RootBounds group := by
  obtain rfl := fresh (List.ne_nil_of_length_pos nonempty) (same.symm.trans follows.mapSize)
  exact ⟨follows.tree nonempty, follows.bounds nonempty⟩

theorem Follows.getIntersectionWith (nthElement : NthElement) (extent : Extent) :
    ∃ next, getIntersectionWith nthElement (2 * group.extents.length) group extent =
        some (linearScan group.extents extent, next) ∧ next.extents = group.extents ∧
      Follows next (if group.extents ≠ [] then group.extents else built) := by
  by_cases empty : group.extents = []
  · refine ⟨group, ?_, rfl, by simpa [empty] using follows⟩
    simp only [ExtentGroup.getIntersectionWith, empty, List.isEmpty_nil, if_true]
    rfl
  · have nonempty := List.length_pos_of_ne_nil empty
    have current := follows.current fresh nonempty
    obtain ⟨next, answered, tree, same⟩ := getIntersectionWith_current nthElement _ nonempty
      (fun sameSize => (current sameSize).1) (Nat.le_refl _) extent
    refine ⟨next, answered, same, ?_⟩
    rw [if_pos empty, ← same]
    refine tree.follows ?_
    simp only [ExtentGroup.getIntersectionWith, List.isEmpty_iff, empty, if_false,
      bind_eq_bind, bind_eq_some_iff] at answered
    obtain ⟨initial, initialized, traversed⟩ := answered
    obtain ⟨_, again, _, sameInitial⟩ := initializeTree_correct nonempty fun sameSize =>
      (current sameSize).1
    obtain rfl := Option.some.inj (again.symm.trans initialized)
    exact traverse_rootBounds (by rw [sameInitial]; exact nonempty)
      (initializeTree_rootBounds (fun sameSize => (current sameSize).2) initialized) traversed

theorem Follows.getBounds : ∃ bounds next, getBounds group = some (bounds, next) ∧
    (bounds = group.extents.foldl Extent.union default ∨ group.extents = [bounds]) ∧
    next.extents = group.extents ∧ Follows next (if group.extents ≠ [] then group.extents else built) := by
  by_cases empty : group.extents = []
  · refine ⟨default, group, ?_, .inl (by rw [empty]; rfl), rfl, by simpa [empty] using follows⟩
    simp only [ExtentGroup.getBounds, empty, List.isEmpty_nil, if_true]
  · have nonempty := List.length_pos_of_ne_nil empty
    have current := follows.current fresh nonempty
    obtain ⟨next, initialized, tree, same⟩ := initializeTree_correct nonempty fun sameSize =>
      (current sameSize).1
    have bounds := initializeTree_rootBounds (fun sameSize => (current sameSize).2) initialized
    have following := tree.follows bounds
    obtain ⟨-, root, atRoot, -, -, exact⟩ := bounds
    rw [same] at exact following
    refine ⟨root.dmBounds, next, ?_, exact, same, by rwa [if_pos empty]⟩
    simp only [ExtentGroup.getBounds, List.isEmpty_iff, empty, if_false, initialized,
      bind_eq_bind, Option.bind_some, atRoot]

end

theorem Follows.mutated {group : ExtentGroup} {built extents : List Extent}
    (follows : Follows group built) : Follows { group with extents } built :=
  ⟨follows.mapSize, follows.tree, follows.bounds⟩

theorem served_from (nthElement : NthElement) {requests : List Request} :
    ∀ {group : ExtentGroup} {built : List Extent}, Follows group built →
      Fresh group.extents built requests → Served nthElement group requests := by
  induction requests with
  | nil => exact fun _ _ => trivial
  | cons request rest ih =>
    intro group built follows fresh extents allowed
    obtain ⟨current, later⟩ := fresh
    have continues := later extents allowed
    cases request with
    | getIntersectionWith extent =>
      obtain rfl := Option.some.inj allowed
      obtain ⟨next, answered, same, following⟩ :=
        follows.getIntersectionWith (current rfl) nthElement extent
      refine ⟨_, next, by simp only [serve, answered]; rfl, rfl, same, ih following ?_⟩
      rw [same]
      simpa only [Request.asks, true_and] using continues
    | getBounds =>
      obtain rfl := Option.some.inj allowed
      obtain ⟨bounds, next, answered, exact, same, following⟩ := follows.getBounds (current rfl)
      refine ⟨_, next, by simp only [serve, answered]; rfl, ⟨bounds, rfl, exact⟩, same, ih following ?_⟩
      rw [same]
      simpa only [Request.asks, true_and] using continues
    | pushBack extent =>
      exact ⟨_, _, by simp only [serve, allowed]; rfl, rfl, rfl, ih follows.mutated continues⟩
    | erase first last =>
      exact ⟨_, _, by simp only [serve, allowed]; rfl, rfl, rfl, ih follows.mutated continues⟩
    | clear =>
      exact ⟨_, _, by simp only [serve, allowed]; rfl, rfl, rfl, ih follows.mutated continues⟩
    | assign index extent =>
      exact ⟨_, _, by simp only [serve, allowed]; rfl, rfl, rfl, ih follows.mutated continues⟩

/-- Every history in which no query meets other extents than the tree was built for,
but as many of them, is answered for the extents of the moment. -/
theorem served_of_fresh (nthElement : NthElement) (dmNext : Nat) {requests : List Request}
    (fresh : Fresh [] [] requests) : Served nthElement (new dmNext) requests :=
  served_from nthElement (follows_new dmNext) fresh

def lowExtent : Extent := ⟨⟨0, 2⟩, ⟨0, 2⟩⟩

def highExtent : Extent := ⟨⟨0, 2⟩, ⟨8, 10⟩⟩

theorem served_of_fresh_growing : Served NthElement.bySorting (new 7)
    [.pushBack lowExtent, .getIntersectionWith highExtent, .pushBack highExtent, .getBounds,
      .erase 0 1, .getIntersectionWith highExtent] :=
  served_of_fresh NthElement.bySorting 7 (by simp [Fresh, mutate, Request.asks])

theorem refilled_stale : ¬ Served NthElement.bySorting (new 7)
    [.pushBack lowExtent, .getIntersectionWith lowExtent, .clear, .pushBack highExtent,
      .getIntersectionWith highExtent] := by
  intro served
  obtain ⟨_, _, pushed, -, -, served⟩ := served _ rfl
  obtain ⟨-, rfl⟩ := Prod.mk.inj (Option.some.inj pushed)
  obtain ⟨_, _, asked, -, -, served⟩ := served _ rfl
  obtain ⟨-, rfl⟩ := Prod.mk.inj (Option.some.inj asked)
  obtain ⟨_, _, cleared, -, -, served⟩ := served _ rfl
  obtain ⟨-, rfl⟩ := Prod.mk.inj (Option.some.inj cleared)
  obtain ⟨_, _, filled, -, -, served⟩ := served _ rfl
  obtain ⟨-, rfl⟩ := Prod.mk.inj (Option.some.inj filled)
  obtain ⟨_, _, again, right, -, -⟩ := served _ rfl
  obtain ⟨rfl, -⟩ := Prod.mk.inj (Option.some.inj again)
  exact absurd right (by unfold Answer.Right; decide)

end OpenSpeedShop.ExtentGroup
