import OpenSpeedShop.Framework.KdTree

/-!
The Kd-tree of an extent group answers every intersection query with exactly
the extents a linear scan finds, whatever has been built by earlier queries.
-/

namespace OpenSpeedShop.ExtentGroup

def cost (group : ExtentGroup) (index : Nat) : Nat :=
  match group.dmTree[index]? with
  | none => 0
  | some node => 2 * (node.dmLast - node.dmFirst) + 1

def Hit (group : ExtentGroup) (extent : Extent) (traversal : List Nat) (item : Nat) : Prop :=
  ∃ index ∈ traversal, ∃ node, group.Live index node ∧ Member group.dmMap node item ∧
    ∃ found, group.extents[item]? = some found ∧ found.doesIntersect extent = true

theorem hit_nil (group : ExtentGroup) (extent : Extent) (item : Nat) : ¬Hit group extent [] item := by
  rintro ⟨index, member, _⟩
  exact absurd member (by simp)

theorem hit_append (group : ExtentGroup) (extent : Extent) (first second : List Nat) (item : Nat) :
    Hit group extent (first ++ second) item ↔ Hit group extent first item ∨ Hit group extent second item := by
  constructor
  · rintro ⟨index, member, rest⟩
    rcases List.mem_append.mp member with early | late
    · exact Or.inl ⟨index, early, rest⟩
    · exact Or.inr ⟨index, late, rest⟩
  · rintro (⟨index, member, rest⟩ | ⟨index, member, rest⟩)
    · exact ⟨index, List.mem_append_left _ member, rest⟩
    · exact ⟨index, List.mem_append_right _ member, rest⟩

variable {group : ExtentGroup} {node : Node}

variable {index : Nat}

theorem hit_singleton (live : group.Live index node) (extent : Extent) (item : Nat) :
    Hit group extent [index] item ↔ Member group.dmMap node item ∧
      ∃ found, group.extents[item]? = some found ∧ found.doesIntersect extent = true := by
  constructor
  · rintro ⟨other, member, otherNode, otherLive, rest⟩
    obtain rfl := List.mem_singleton.mp member
    rw [otherLive.unique live] at rest
    exact rest
  · intro rest
    exact ⟨index, List.mem_singleton_self index, node, live, rest⟩

theorem cost_of_live (live : group.Live index node) :
    group.cost index = 2 * (node.dmLast - node.dmFirst) + 1 := by
  rw [cost, live.2]

theorem Grown.refl {tip : Nat} (live : group.Live tip node)
    (built : node.dmChildren ≠ 0) : Grown group group tip node :=
  ⟨rfl, ⟨node, live, rfl, rfl, built⟩, fun _ _ _ other => other, fun _ _ _ _ => Iff.rfl⟩

variable {group next : ExtentGroup}

theorem Grown.cost {tip index : Nat} {node other : Node}
    (grown : Grown group next tip node) (live : group.Live tip node)
    (otherLive : group.Live index other) : next.cost index = group.cost index := by
  obtain ⟨other', otherLive', first, last⟩ := grown.ranges live index other otherLive
  rw [cost_of_live otherLive', cost_of_live otherLive, first, last]

theorem Member.congr {map : List Nat} {node node' : Node} {item : Nat}
    (first : node'.dmFirst = node.dmFirst) (last : node'.dmLast = node.dmLast) :
    Member map node' item ↔ Member map node item := by
  unfold Member
  rw [first, last]

theorem Grown.hit {tip : Nat}
    (grown : Grown group next tip node) (live : group.Live tip node) (extent : Extent)
    {traversal : List Nat} (alive : ∀ index ∈ traversal, ∃ other, group.Live index other)
    (item : Nat) : Hit next extent traversal item ↔ Hit group extent traversal item := by
  have transfer : ∀ index ∈ traversal, ∀ other other', group.Live index other →
      next.Live index other' →
      (Member next.dmMap other' item ↔ Member group.dmMap other item) := by
    intro index _ other other' otherLive otherLive'
    obtain ⟨same, sameLive, first, last⟩ := grown.ranges live index other otherLive
    rw [otherLive'.unique sameLive, Member.congr first last]
    exact grown.members index other otherLive item
  constructor
  · rintro ⟨index, member, other', otherLive', inside, found, present, meets⟩
    obtain ⟨other, otherLive⟩ := alive index member
    refine ⟨index, member, other, otherLive, ?_, found, ?_, meets⟩
    · exact (transfer index member other other' otherLive otherLive').mp inside
    · rwa [grown.extents] at present
  · rintro ⟨index, member, other, otherLive, inside, found, present, meets⟩
    obtain ⟨other', otherLive', _⟩ := grown.ranges live index other otherLive
    refine ⟨index, member, other', otherLive', ?_, found, ?_, meets⟩
    · exact (transfer index member other other' otherLive otherLive').mpr inside
    · rwa [grown.extents]

theorem not_hit_of_pruned (tree : KdTree group) (live : group.Live index node) {extent : Extent}
    (pruned : extent.doesIntersect node.dmBounds = false) (item : Nat) : ¬Hit group extent [index] item := by
  rw [hit_singleton live]
  rintro ⟨member, found, present, meets⟩
  have covers := (tree.nodes index node live).covers item member found present extent meets
  rw [Extent.doesIntersect_comm, pruned] at covers
  contradiction

theorem hit_children {node left right : Node}
    (live : group.Live index node) {child : Nat} (leftLive : group.Live child left)
    (rightLive : group.Live (child + 1) right) (begins : left.dmFirst = node.dmFirst)
    (middle : right.dmFirst = left.dmLast + 1) (ends : right.dmLast = node.dmLast)
    (leftOrdered : left.dmFirst ≤ left.dmLast) (rightOrdered : right.dmFirst ≤ right.dmLast)
    (extent : Extent) (item : Nat) :
    Hit group extent [child, child + 1] item ↔ Hit group extent [index] item := by
  have parts : Hit group extent [child, child + 1] item ↔
      Hit group extent [child] item ∨ Hit group extent [child + 1] item :=
    hit_append group extent [child] [child + 1] item
  rw [parts, hit_singleton leftLive, hit_singleton rightLive, hit_singleton live, ← or_and_right]
  apply and_congr_left'
  constructor
  · rintro (⟨position, lower, upper, named⟩ | ⟨position, lower, upper, named⟩)
    · exact ⟨position, by omega, by omega, named⟩
    · exact ⟨position, by omega, by omega, named⟩
  · rintro ⟨position, lower, upper, named⟩
    by_cases inLeft : position ≤ left.dmLast
    · exact Or.inl ⟨position, by omega, inLeft, named⟩
    · exact Or.inr ⟨position, by omega, by omega, named⟩

theorem hit_leaf (tree : KdTree group)
    (live : group.Live index node) (single : node.dmFirst = node.dmLast) {item : Nat}
    (member : Member group.dmMap node item) {extent : Extent}
    (meets : extent.doesIntersect node.dmBounds = true) (other : Nat) :
    Hit group extent [index] other ↔ other = item := by
  rw [hit_singleton live]
  constructor
  · rintro ⟨⟨position, lower, upper, named⟩, _⟩
    obtain ⟨here, first, last, found⟩ := member
    have same : here = position := by omega
    rw [same, named, Option.some.injEq] at found
    exact found
  · rintro rfl
    have bound : other < group.extents.length := by
      obtain ⟨position, _, _, named⟩ := member
      exact tree.mapBound position other named
    have present := List.getElem?_eq_getElem bound
    refine ⟨member, _, present, ?_⟩
    apply (tree.nodes index node live).tight single other member _ present
    rw [Extent.doesIntersect_comm]
    exact meets

theorem traverse_correct (nthElement : NthElement) (extent : Extent) :
    ∀ (fuel : Nat) (group : ExtentGroup) (traversal : List Nat) (intersection : Finset Nat),
    KdTree group → (∀ index ∈ traversal, ∃ node, group.Live index node) →
    (traversal.map group.cost).sum < fuel →
    ∃ result next, traverse nthElement extent fuel group traversal intersection =
        some (result, next) ∧ KdTree next ∧ next.extents = group.extents ∧
      ∀ item, item ∈ result ↔ item ∈ intersection ∨ Hit group extent traversal item := by
  intro fuel
  induction fuel with
  | zero => intro group traversal intersection _ _ enough; omega
  | succ fuel ih =>
    intro group traversal intersection tree alive enough
    cases traversal with
    | nil =>
      refine ⟨intersection, group, rfl, tree, rfl, ?_⟩
      intro item
      simp only [hit_nil, or_false]
    | cons index traversal =>
      obtain ⟨node, live⟩ := alive index (by simp)
      have aliveRest : ∀ other ∈ traversal, ∃ node, group.Live other node :=
        fun other member => alive other (List.mem_cons_of_mem _ member)
      have nodeCost := cost_of_live live
      simp only [List.map_cons, List.sum_cons] at enough
      have hitCons : ∀ item, Hit group extent (index :: traversal) item ↔
          Hit group extent [index] item ∨ Hit group extent traversal item :=
        hit_append group extent [index] traversal
      rw [traverse, live.2]
      simp only [Option.bind_eq_bind, Option.bind_some]
      by_cases pruned : extent.doesIntersect node.dmBounds = false
      · rw [if_pos pruned]
        obtain ⟨result, next, ran, nextTree, extents, found⟩ :=
          ih group traversal intersection tree aliveRest (by omega)
        refine ⟨result, next, ran, nextTree, extents, ?_⟩
        intro item
        rw [found, hitCons]
        simp only [not_hit_of_pruned tree live pruned, false_or]
      · rw [if_neg pruned]
        have meets : extent.doesIntersect node.dmBounds = true := by
          simpa using pruned
        obtain ⟨next, grew, nextTree, grown⟩ : ∃ next,
            ensureChildren nthElement group index node.dmChildren = some next ∧
              KdTree next ∧ Grown group next index node := by
          unfold ensureChildren
          by_cases unbuilt : node.dmChildren = 0
          · rw [if_pos unbuilt]
            exact buildChildren_correct nthElement tree live unbuilt
          · rw [if_neg unbuilt]
            exact ⟨group, rfl, tree, Grown.refl live unbuilt⟩
        obtain ⟨built, builtLive, builtFirst, builtLast, builtNonzero⟩ := grown.built
        have aliveNext : ∀ other ∈ traversal, ∃ node, next.Live other node := by
          intro other member
          obtain ⟨otherNode, otherLive⟩ := aliveRest other member
          obtain ⟨otherNode', otherLive', _⟩ := grown.ranges live other otherNode otherLive
          exact ⟨otherNode', otherLive'⟩
        have costRest : (traversal.map next.cost).sum = (traversal.map group.cost).sum := by
          apply congrArg
          apply List.map_congr_left
          intro other member
          obtain ⟨otherNode, otherLive⟩ := aliveRest other member
          exact grown.cost live otherLive
        have hitHere : ∀ item, Hit next extent [index] item ↔ Hit group extent [index] item :=
          grown.hit live extent (by simpa using ⟨node, live⟩)
        have hitRest : ∀ item, Hit next extent traversal item ↔
            Hit group extent traversal item := grown.hit live extent aliveRest
        simp only [grew, Option.bind_some, builtLive.2]
        rcases lt_trichotomy built.dmChildren 0 with leaf | zero | internal
        · rw [if_neg (by omega), if_pos leaf]
          obtain ⟨single, item, member, children⟩ :=
            (nextTree.nodes index built builtLive).leaf leaf
          have named : (-(built.dmChildren + 1)).toNat = item := by omega
          rw [named]
          obtain ⟨result, last, ran, lastTree, extents, found⟩ :=
            ih next traversal (insert item intersection) nextTree aliveNext (by omega)
          refine ⟨result, last, ran, lastTree, extents.trans grown.extents, ?_⟩
          intro other
          have isHit : Hit group extent [index] other ↔ other = item :=
            hit_leaf tree live (by omega)
              (((grown.members index node live item).mp
                ((Member.congr builtFirst builtLast).mp member))) meets other
          rw [found, hitRest, hitCons, isHit, Finset.mem_insert, or_assoc, or_left_comm]
        · exact absurd zero builtNonzero
        · rw [if_pos internal]
          have builtOk := nextTree.nodes index built builtLive
          obtain ⟨left, right, leftLive, rightLive, begins, middle, ends⟩ :=
            builtOk.split internal
          have leftOk := nextTree.nodes _ left leftLive
          have rightOk := nextTree.nodes _ right rightLive
          have leftCost := cost_of_live leftLive
          have rightCost := cost_of_live rightLive
          have leftOrdered := leftOk.ordered
          have rightOrdered := rightOk.ordered
          obtain ⟨result, last, ran, lastTree, extents, found⟩ :=
            ih next (traversal ++ [built.dmChildren.toNat, built.dmChildren.toNat + 1])
              intersection nextTree (by
                intro other member
                rcases List.mem_append.mp member with early | late
                · exact aliveNext other early
                · simp only [List.mem_cons, List.not_mem_nil, or_false] at late
                  rcases late with rfl | rfl
                  · exact ⟨left, leftLive⟩
                  · exact ⟨right, rightLive⟩)
              (by
                simp only [List.map_append, List.map_cons, List.map_nil, List.sum_append,
                  List.sum_cons, List.sum_nil]
                omega)
          refine ⟨result, last, ran, lastTree, extents.trans grown.extents, ?_⟩
          intro item
          rw [found, hit_append, hitRest, hitCons,
            hit_children builtLive leftLive rightLive begins middle ends leftOrdered
              rightOrdered extent item, hitHere]
          exact or_congr_right or_comm

def linearScan (extents : List Extent) (extent : Extent) : Finset Nat :=
  (Finset.range extents.length).filter fun index =>
    (extents.getD index default).doesIntersect extent = true

theorem mem_linearScan (extents : List Extent) (extent : Extent) (item : Nat) :
    item ∈ linearScan extents extent ↔
      ∃ found, extents[item]? = some found ∧ found.doesIntersect extent = true := by
  simp only [linearScan, Finset.mem_filter, Finset.mem_range, List.getD_eq_getElem?_getD]
  constructor
  · rintro ⟨bound, meets⟩
    have present := List.getElem?_eq_getElem bound
    rw [present, Option.getD_some] at meets
    exact ⟨extents[item], present, meets⟩
  · rintro ⟨found, present, meets⟩
    rw [present, Option.getD_some]
    exact ⟨(List.getElem?_eq_some_iff.mp present).1, meets⟩

theorem getIntersectionWith_current (nthElement : NthElement) (fuel : Nat)
    (nonempty : 0 < group.extents.length) (current : group.dmMap.length = group.extents.length → KdTree group)
    (enough : 2 * group.extents.length ≤ fuel) (extent : Extent) :
    ∃ next, getIntersectionWith nthElement fuel group extent =
        some (linearScan group.extents extent, next) ∧ KdTree next ∧ next.extents = group.extents := by
  unfold getIntersectionWith
  have isEmpty : ¬ group.extents.isEmpty := by
    rw [List.isEmpty_iff]
    exact List.ne_nil_of_length_pos nonempty
  rw [if_neg isEmpty]
  obtain ⟨initial, initialized, tree, sameExtents⟩ := initializeTree_correct nonempty current
  obtain ⟨root, rootLive, rootFirst, rootLast⟩ := tree.root
  have rootCost := cost_of_live rootLive
  obtain ⟨result, next, ran, nextTree, extents, found⟩ :=
    traverse_correct nthElement extent fuel initial [0] ∅ tree (by simpa using ⟨root, rootLive⟩) (by
        rw [sameExtents] at rootLast
        simp only [List.map_cons, List.map_nil, List.sum_cons, List.sum_nil]
        omega)
  refine ⟨next, ?_, nextTree, extents.trans sameExtents⟩
  have exact' : result = linearScan group.extents extent := by
    ext item
    rw [found, hit_singleton rootLive, mem_linearScan, sameExtents]
    simp only [Finset.notMem_empty, false_or, and_iff_right_iff_imp]
    rintro ⟨_, present, _⟩
    have bound := (List.getElem?_eq_some_iff.mp present).1
    have sameLength := congrArg List.length sameExtents
    obtain ⟨position, named⟩ := tree.mapOnto item (by omega)
    have inMap := (List.getElem?_eq_some_iff.mp named).1
    have mapSize := tree.mapSize
    exact ⟨position, by omega, by omega, named⟩
  rw [initialized]
  simp only [Option.bind_eq_bind, Option.bind_some, ran, exact']

theorem getIntersectionWith_correct (nthElement : NthElement) (fuel : Nat)
    (consistent : Consistent group) (enough : 2 * group.extents.length ≤ fuel) (extent : Extent) :
    ∃ next, getIntersectionWith nthElement fuel group extent =
        some (linearScan group.extents extent, next) ∧ Consistent next ∧ next.extents = group.extents := by
  by_cases empty : group.extents.isEmpty
  · have nil : group.extents = [] := List.isEmpty_iff.mp empty
    rw [getIntersectionWith, if_pos empty]
    exact ⟨group, by rw [nil]; rfl, consistent, rfl⟩
  · have nonempty : 0 < group.extents.length := by
      rw [List.isEmpty_iff] at empty
      exact List.length_pos_of_ne_nil empty
    obtain ⟨next, answered, tree, sameExtents⟩ := getIntersectionWith_current nthElement fuel nonempty
      (fun same => consistent.current (by omega) same) enough extent
    exact ⟨next, answered, tree.consistent, sameExtents⟩

def scanAnswers : List Call → List Extent → List (Finset Nat)
  | [], _ => []
  | .pushBack extent :: rest, extents => scanAnswers rest (extents ++ [extent])
  | .getIntersectionWith extent :: rest, extents =>
    linearScan extents extent :: scanAnswers rest extents

def pushed : List Call → Nat
  | [] => 0
  | .pushBack _ :: rest => pushed rest + 1
  | .getIntersectionWith _ :: rest => pushed rest

theorem execute_from (nthElement : NthElement) {fuel : Nat} :
    ∀ (calls : List Call) (group : ExtentGroup), Consistent group →
    2 * (group.extents.length + pushed calls) ≤ fuel →
    ∃ next, execute nthElement fuel calls group = some (scanAnswers calls group.extents, next) := by
  intro calls
  induction calls with
  | nil => intro group _ _; exact ⟨group, rfl⟩
  | cons call rest ih =>
    intro group consistent enough
    cases call with
    | pushBack extent =>
      simp only [pushed] at enough
      have longer : (group.pushBack extent).extents = group.extents ++ [extent] := rfl
      obtain ⟨next, ran⟩ := ih (group.pushBack extent) (consistent.pushBack extent) (by
        rw [longer, List.length_append, List.length_singleton]
        omega)
      exact ⟨next, ran⟩
    | getIntersectionWith extent =>
      simp only [pushed] at enough
      obtain ⟨middle, answered, middleConsistent, extents⟩ :=
        getIntersectionWith_correct nthElement fuel consistent (by omega) extent
      have sameLength := congrArg List.length extents
      obtain ⟨next, ran⟩ := ih middle middleConsistent (by omega)
      refine ⟨next, ?_⟩
      rw [execute, answered]
      simp only [Option.bind_eq_bind, Option.bind_some, ran, extents, scanAnswers]

/-- Every query of every history that only appends extents ends, stays inside
the arrays of the tree and answers as the linear scan does. -/
theorem execute_eq_linearScan (nthElement : NthElement) (dmNext : Nat) (calls : List Call)
    (spare : Nat) :
    ∃ next, execute nthElement (2 * pushed calls + spare) calls (new dmNext) =
      some (scanAnswers calls [], next) := by
  apply execute_from nthElement calls (new dmNext) (consistent_new dmNext)
  simp [new]

-- An extent without addresses is never found, and the tree is rebuilt after the last append.
example :
    let cell (time address : UInt64) : Extent := ⟨⟨time, time + 2⟩, ⟨address, address + 2⟩⟩
    (execute NthElement.bySorting 8 [.getIntersectionWith (cell 1 1), .pushBack (cell 1 5),
        .pushBack ⟨⟨0, 9⟩, ⟨6, 6⟩⟩, .getIntersectionWith (cell 2 6), .pushBack (cell 3 4),
        .getIntersectionWith (cell 2 5)] (new 7)).map Prod.fst =
      some [∅, {0}, {0, 2}] := by
  decide

end OpenSpeedShop.ExtentGroup
