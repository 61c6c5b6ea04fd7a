import OpenSpeedShop.Framework.ExtentGroupCore
import Mathlib.Algebra.BigOperators.Intervals
import Mathlib.Algebra.Order.BigOperators.Group.Finset

/-!
The invariant of the Kd-tree of an extent group: initializing the tree establishes it, building the
children of a node keeps it and the members of other nodes.
-/

namespace OpenSpeedShop

variable {Value : Type} {values written : List Value} {index : Nat}

theorem getElem?_of_writeAt
    {value : Value} (wrote : writeAt values index value = some written) (position : Nat) :
    written[position]? = if position = index then some value else values[position]? := by
  unfold writeAt at wrote
  split at wrote
  · rename_i bound
    simp only [Option.some.injEq] at wrote
    rw [← wrote, List.getElem?_set]
    by_cases same : index = position
    · subst position
      simp [bound]
    · simp [same, Ne.symm same]
  · contradiction

theorem length_of_writeAt {value : Value} (wrote : writeAt values index value = some written) :
    written.length = values.length := by
  unfold writeAt at wrote
  split at wrote
  · simp only [Option.some.injEq] at wrote
    rw [← wrote, List.length_set]
  · contradiction

theorem writeAt_isSome {values : List Value} (value : Value)
    (bound : index < values.length) : ∃ written, writeAt values index value = some written :=
  ⟨_, if_pos bound⟩

theorem length_resize (values : List Value) (size : Nat) (value : Value) :
    (resize values size value).length = size := by
  simp only [resize, List.length_append, List.length_take, List.length_replicate]
  omega

namespace ExtentGroup

def Live (group : ExtentGroup) (index : Nat) (node : Node) : Prop :=
  index < group.dmNext ∧ group.dmTree[index]? = some node

def Member (map : List Nat) (node : Node) (index : Nat) : Prop :=
  ∃ position, node.dmFirst ≤ position ∧ position ≤ node.dmLast ∧ map[position]? = some index

/-- What a node still contributes to the size of the tree: one node when it is
internal, and the full binary tree over its range otherwise. -/
def weight : Option Node → Nat
  | none => 0
  | some node => if 0 < node.dmChildren then 1 else 2 * (node.dmLast - node.dmFirst) + 1

def Split (group : ExtentGroup) (node : Node) : Prop :=
  ∃ left right, group.Live node.dmChildren.toNat left ∧
    group.Live (node.dmChildren.toNat + 1) right ∧
    left.dmFirst = node.dmFirst ∧ right.dmFirst = left.dmLast + 1 ∧ right.dmLast = node.dmLast

def Nested (tip other : Node) : Prop :=
  tip.dmLast < other.dmFirst ∨ other.dmLast < tip.dmFirst ∨
    (0 < other.dmChildren ∧ other.dmFirst ≤ tip.dmFirst ∧ tip.dmLast ≤ other.dmLast)

/-- The invariant of one node: its bounds cover the extents of its range (exactly,
for a single extent), children split the range, and a leaf names its extent. -/
structure NodeOk (group : ExtentGroup) (node : Node) : Prop where
  ordered : node.dmFirst ≤ node.dmLast
  inside : node.dmLast < group.extents.length
  covers : ∀ item, Member group.dmMap node item →
    ∀ extent, group.extents[item]? = some extent → node.dmBounds.Covers extent
  tight : node.dmFirst = node.dmLast → ∀ item, Member group.dmMap node item →
    ∀ extent, group.extents[item]? = some extent → extent.Covers node.dmBounds
  split : 0 < node.dmChildren → group.Split node
  leaf : node.dmChildren < 0 → node.dmFirst = node.dmLast ∧
    ∃ item : Nat, Member group.dmMap node item ∧ node.dmChildren = -((item : Int) + 1)

structure KdTree (group : ExtentGroup) : Prop where
  nonempty : 0 < group.extents.length
  treeSize : group.dmTree.length = 2 * group.extents.length
  mapSize : group.dmMap.length = group.extents.length
  mapBound : ∀ position index : Nat, group.dmMap[position]? = some index → index < group.extents.length
  mapOnto : ∀ index, index < group.extents.length → ∃ position : Nat, group.dmMap[position]? = some index
  next : group.dmNext ≤ group.dmTree.length
  root : ∃ node, group.Live 0 node ∧ node.dmFirst = 0 ∧ node.dmLast = group.extents.length - 1
  nodes : ∀ index node, group.Live index node → NodeOk group node
  nested : ∀ tip tipNode other otherNode, group.Live tip tipNode → group.Live other otherNode →
    tip ≠ other → tipNode.dmChildren ≤ 0 → Nested tipNode otherNode
  size : ∑ index ∈ Finset.range group.dmNext, weight group.dmTree[index]? = 2 * group.extents.length - 1

variable {group : ExtentGroup}

variable {index : Nat}

theorem KdTree.live_of_lt (tree : KdTree group)
    (bound : index < group.dmNext) : ∃ node, group.Live index node := by
  have inside : index < group.dmTree.length := lt_of_lt_of_le bound tree.next
  exact ⟨group.dmTree[index], bound, List.getElem?_eq_getElem inside⟩

theorem Live.unique {first second : Node}
    (one : group.Live index first) (two : group.Live index second) : first = second := by
  have same := one.2.symm.trans two.2
  simpa using same

variable {node : Node}

theorem weight_pos (live : group.Live index node) : 1 ≤ weight group.dmTree[index]? := by
  rw [live.2]
  simp only [weight]
  split <;> omega

variable {tip : Nat}

theorem KdTree.room (tree : KdTree group) (live : group.Live tip node) (unbuilt : node.dmChildren ≤ 0)
    (several : node.dmFirst ≠ node.dmLast) : group.dmNext + 1 < group.dmTree.length := by
  have ordered := (tree.nodes tip node live).ordered
  have tipWeight : 3 ≤ weight group.dmTree[tip]? := by
    rw [live.2]
    simp only [weight, not_lt.mpr unbuilt, if_false]
    omega
  have others : group.dmNext - 1 ≤
      ∑ index ∈ (Finset.range group.dmNext).erase tip, weight group.dmTree[index]? := by
    have card : ((Finset.range group.dmNext).erase tip).card = group.dmNext - 1 := by
      rw [Finset.card_erase_of_mem (Finset.mem_range.mpr live.1), Finset.card_range]
    rw [← card, Finset.card_eq_sum_ones]
    apply Finset.sum_le_sum
    intro index member
    have bound : index < group.dmNext := Finset.mem_range.mp (Finset.mem_of_mem_erase member)
    obtain ⟨found, foundLive⟩ := tree.live_of_lt bound
    exact weight_pos foundLive
  have total := Finset.add_sum_erase (Finset.range group.dmNext)
    (fun index => weight group.dmTree[index]?) (Finset.mem_range.mpr live.1)
  have treeSize := tree.treeSize
  have size := tree.size
  have positive := live.1
  omega

variable {source : Equiv.Perm Nat}

variable {first last : Nat}

theorem source_inside (fixes : ∀ position, ¬(first ≤ position ∧ position < last) → source position = position)
    {position : Nat} (inside : first ≤ position ∧ position < last) :
    first ≤ source position ∧ source position < last := by
  by_contra outside
  have same : source position = position := source.injective (fixes _ outside)
  rw [same] at outside
  exact outside inside

theorem source_between {first last low high : Nat}
    (fixes : ∀ position, ¬(first ≤ position ∧ position < last) → source position = position)
    (apart : last < low ∨ high < first ∨ (low ≤ first ∧ last ≤ high)) {position : Nat} :
    (low ≤ source position ∧ source position ≤ high) ↔ (low ≤ position ∧ position ≤ high) := by
  by_cases inside : first ≤ position ∧ position < last
  · have moved := source_inside fixes inside
    omega
  · rw [fixes position inside]

variable {before after : List Nat}

section

variable (fixes : ∀ position, ¬(first ≤ position ∧ position < last) → source position = position)
  (moves : ∀ position : Nat, after[position]? = before[source position]?)
include fixes moves

theorem member_permuted (apart : last < node.dmFirst ∨ node.dmLast < first ∨
      (node.dmFirst ≤ first ∧ last ≤ node.dmLast)) (item : Nat) :
    Member after node item ↔ Member before node item := by
  constructor
  · rintro ⟨position, lower, upper, found⟩
    have between := (source_between fixes apart).mpr ⟨lower, upper⟩
    exact ⟨source position, between.1, between.2, by rw [← moves, found]⟩
  · rintro ⟨position, lower, upper, found⟩
    have back : source (source.symm position) = position := source.apply_symm_apply position
    have between : node.dmFirst ≤ source.symm position ∧ source.symm position ≤ node.dmLast := by
      rw [← source_between fixes apart, back]
      exact ⟨lower, upper⟩
    exact ⟨source.symm position, between.1, between.2, by rw [moves, back, found]⟩

theorem length_permuted (bound : last < before.length) : after.length = before.length := by
  have same : ∀ position, position < after.length ↔ position < before.length := by
    intro position
    have absent : after[position]? = none ↔ before[source position]? = none := by rw [moves]
    rw [List.getElem?_eq_none_iff, List.getElem?_eq_none_iff] at absent
    rw [← not_le, absent, not_le]
    by_cases inside : first ≤ position ∧ position < last
    · have moved := source_inside fixes inside
      omega
    · rw [fixes position inside]
  have lower := same after.length
  have upper := same before.length
  omega

end

theorem boundsFrom_correct (extents : List Extent) (map : List Nat) :
    ∀ (count position : Nat) (bounds : Extent), (∀ place, position ≤ place → place < position + count →
      ∃ index, map[place]? = some index ∧ index < extents.length) →
    ∃ result, boundsFrom extents map count position bounds = some result ∧ result.Covers bounds ∧
      ∀ place, position ≤ place → place < position + count → ∀ index, map[place]? = some index →
          ∀ extent, extents[index]? = some extent → result.Covers extent := by
  intro count
  induction count with
  | zero =>
    intro position bounds _
    exact ⟨bounds, rfl, Extent.Covers.refl bounds, by intro place lower upper; omega⟩
  | succ count ih =>
    intro position bounds valid
    obtain ⟨index, found, inside⟩ := valid position (le_refl _) (by omega)
    obtain ⟨result, computed, coversBounds, coversRest⟩ :=
      ih (position + 1) (bounds.union extents[index])
        (fun place lower upper => valid place (by omega) (by omega))
    refine ⟨result, ?_, coversBounds.trans (Extent.union_covers_left _ _), ?_⟩
    · simp [boundsFrom, found, List.getElem?_eq_getElem inside, computed]
    · intro place lower upper other named extent present
      by_cases here : place = position
      · subst place
        rw [found, Option.some.injEq] at named
        subst other
        rw [List.getElem?_eq_getElem inside, Option.some.injEq] at present
        subst extent
        exact coversBounds.trans (Extent.union_covers_right _ _)
      · exact coversRest place (by omega) (by omega) other named extent present

theorem boundsFrom_one {extents : List Extent} {map : List Nat} {position index : Nat}
    {extent result : Extent} (named : map[position]? = some index) (present : extents[index]? = some extent)
    (computed : boundsFrom extents map 1 position default = some result) : extent.Covers result := by
  simp only [boundsFrom, named, present, Option.bind_eq_bind, Option.bind_some, Option.some.injEq] at computed
  rw [← computed]
  exact Extent.default_union_covered extent

/-- What building the children of `tip` may change: the node itself, nodes that
were free before, and the order of the map inside the range of the node. -/
structure Grown (group next : ExtentGroup) (tip : Nat) (node : Node) : Prop where
  extents : next.extents = group.extents
  built : ∃ grown, next.Live tip grown ∧ grown.dmFirst = node.dmFirst ∧
    grown.dmLast = node.dmLast ∧ grown.dmChildren ≠ 0
  kept : ∀ index other, index ≠ tip → group.Live index other → next.Live index other
  members : ∀ index other, group.Live index other → ∀ item,
    Member next.dmMap other item ↔ Member group.dmMap other item

variable {group next : ExtentGroup}

theorem Grown.ranges (grown : Grown group next tip node) (live : group.Live tip node) :
    ∀ index other, group.Live index other → ∃ other', next.Live index other' ∧
      other'.dmFirst = other.dmFirst ∧ other'.dmLast = other.dmLast := by
  intro index other otherLive
  by_cases here : index = tip
  · subst index
    rw [otherLive.unique live]
    obtain ⟨built, builtLive, first, last, _⟩ := grown.built
    exact ⟨built, builtLive, first, last⟩
  · exact ⟨other, grown.kept index other here otherLive, rfl, rfl⟩

theorem NodeOk.carry {tip index : Nat} {node other : Node}
    (ok : NodeOk group other) (grown : Grown group next tip node) (live : group.Live tip node)
    (otherLive : group.Live index other) : NodeOk next other := by
  have members := grown.members index other otherLive
  constructor
  · exact ok.ordered
  · rw [grown.extents]
    exact ok.inside
  · intro item member
    rw [grown.extents]
    exact ok.covers item ((members item).mp member)
  · intro single item member
    rw [grown.extents]
    exact ok.tight single item ((members item).mp member)
  · intro internal
    obtain ⟨left, right, leftLive, rightLive, begins, middle, ends⟩ := ok.split internal
    obtain ⟨left', leftLive', leftFirst, leftLast⟩ := grown.ranges live _ left leftLive
    obtain ⟨right', rightLive', rightFirst, rightLast⟩ := grown.ranges live _ right rightLive
    exact ⟨left', right', leftLive', rightLive', by omega, by omega, by omega⟩
  · intro isLeaf
    obtain ⟨single, item, member, children⟩ := ok.leaf isLeaf
    exact ⟨single, item, (members item).mpr member, children⟩

theorem Nested.of_range {tip tip' other : Node} (nested : Nested tip other)
    (first : tip'.dmFirst = tip.dmFirst) (last : tip'.dmLast = tip.dmLast) : Nested tip' other := by
  unfold Nested at nested ⊢
  rw [first, last]
  exact nested

theorem Nested.of_unbuilt {tip other other' : Node} (nested : Nested tip other)
    (unbuilt : other.dmChildren = 0)
    (first : other'.dmFirst = other.dmFirst) (last : other'.dmLast = other.dmLast) : Nested tip other' := by
  unfold Nested at nested ⊢
  rw [first, last]
  omega

theorem KdTree.grow (tree : KdTree group) (live : group.Live tip node) (grown : Grown group next tip node)
    (treeSize : next.dmTree.length = group.dmTree.length) (mapSize : next.dmMap.length = group.dmMap.length)
    (moves : ∀ position : Nat, next.dmMap[position]? = group.dmMap[source position]?)
    (room : next.dmNext ≤ next.dmTree.length)
    (nodes : ∀ index other, next.Live index other → NodeOk next other)
    (nested : ∀ one oneNode two twoNode, next.Live one oneNode → next.Live two twoNode →
      one ≠ two → oneNode.dmChildren ≤ 0 → Nested oneNode twoNode)
    (size : ∑ index ∈ Finset.range next.dmNext, weight next.dmTree[index]? =
      ∑ index ∈ Finset.range group.dmNext, weight group.dmTree[index]?) : KdTree next where
  nonempty := by
    rw [grown.extents]
    exact tree.nonempty
  treeSize := by rw [treeSize, grown.extents, tree.treeSize]
  mapSize := by rw [mapSize, grown.extents, tree.mapSize]
  mapBound := by
    intro position index named
    rw [moves] at named
    rw [grown.extents]
    exact tree.mapBound _ index named
  mapOnto := by
    intro index bound
    rw [grown.extents] at bound
    obtain ⟨position, named⟩ := tree.mapOnto index bound
    exact ⟨source.symm position, by rw [moves, source.apply_symm_apply, named]⟩
  next := room
  root := by
    obtain ⟨root, rootLive, rootFirst, rootLast⟩ := tree.root
    obtain ⟨root', rootLive', first', last'⟩ := grown.ranges live 0 root rootLive
    exact ⟨root', rootLive', by omega, by rw [last', rootLast, grown.extents]⟩
  nodes := nodes
  nested := nested
  size := by rw [size, grown.extents, tree.size]

structure LeafMade (group next : ExtentGroup) (tip item : Nat) (node leaf : Node) : Prop where
  extents : next.extents = group.extents
  dmMap : next.dmMap = group.dmMap
  dmNext : next.dmNext = group.dmNext
  treeSize : next.dmTree.length = group.dmTree.length
  cells : ∀ index : Nat, next.dmTree[index]? =
    if index = tip then some leaf else group.dmTree[index]?
  named : group.dmMap[node.dmFirst]? = some item
  present : group.extents[item]? = some leaf.dmBounds
  leafNode : leaf = ⟨-((item : Int) + 1), node.dmFirst, node.dmLast, leaf.dmBounds⟩

theorem buildChildren_leafMade (nthElement : NthElement)
    (tree : KdTree group) (live : group.Live tip node) (single : node.dmFirst = node.dmLast) :
    ∃ next item leaf, buildChildren nthElement group tip = some next ∧
      LeafMade group next tip item node leaf := by
  have ok := tree.nodes tip node live
  have inMap : node.dmFirst < group.dmMap.length := by
    rw [tree.mapSize, single]
    exact ok.inside
  obtain ⟨item, found⟩ : ∃ item : Nat, group.dmMap[node.dmFirst]? = some item :=
    ⟨_, List.getElem?_eq_getElem inMap⟩
  obtain ⟨extent, present⟩ : ∃ extent, group.extents[item]? = some extent :=
    ⟨_, List.getElem?_eq_getElem (tree.mapBound node.dmFirst item found)⟩
  obtain ⟨written, wrote⟩ := writeAt_isSome
    (⟨-((item : Int) + 1), node.dmFirst, node.dmLast, extent⟩ : Node)
    (lt_of_lt_of_le live.1 tree.next)
  refine ⟨{ group with dmTree := written }, item, _, ?_,
    ⟨rfl, rfl, rfl, length_of_writeAt wrote, getElem?_of_writeAt wrote, found, present, rfl⟩⟩
  rw [buildChildren, live.2]
  simp only [Option.bind_eq_bind, Option.bind_some, if_pos single, found, present, wrote]

section

variable {group next : ExtentGroup} {tip item : Nat} {node leaf : Node}
  (made : LeafMade group next tip item node leaf)

include made

theorem LeafMade.dmFirst : leaf.dmFirst = node.dmFirst := by rw [made.leafNode]

theorem LeafMade.dmLast : leaf.dmLast = node.dmLast := by rw [made.leafNode]

theorem LeafMade.dmChildren : leaf.dmChildren = -((item : Int) + 1) := by rw [made.leafNode]

theorem LeafMade.live (live : group.Live tip node) : next.Live tip leaf := by
  refine ⟨?_, ?_⟩
  · rw [made.dmNext]
    exact live.1
  · rw [made.cells, if_pos rfl]

theorem LeafMade.live_cases (live : group.Live tip node) {index : Nat} {other : Node}
    (otherLive : next.Live index other) :
    (index = tip ∧ other = leaf) ∨ (index ≠ tip ∧ group.Live index other) := by
  by_cases here : index = tip
  · subst index
    exact Or.inl ⟨rfl, otherLive.unique (made.live live)⟩
  · obtain ⟨bound, cell⟩ := otherLive
    rw [made.dmNext] at bound
    rw [made.cells, if_neg here] at cell
    exact Or.inr ⟨here, bound, cell⟩

theorem LeafMade.grown (live : group.Live tip node) : Grown group next tip node where
  extents := made.extents
  built := by
    have children := made.dmChildren
    exact ⟨leaf, made.live live, made.dmFirst, made.dmLast, by omega⟩
  kept := by
    intro index other different otherLive
    refine ⟨?_, ?_⟩
    · rw [made.dmNext]
      exact otherLive.1
    · rw [made.cells, if_neg different]
      exact otherLive.2
  members := fun _ _ _ _ => by rw [made.dmMap]

theorem LeafMade.member_eq (single : node.dmFirst = node.dmLast) {other : Nat}
    (member : Member next.dmMap leaf other) : other = item := by
  obtain ⟨position, lower, upper, named⟩ := member
  have first := made.dmFirst
  have last := made.dmLast
  have here : position = node.dmFirst := by omega
  rw [here, made.dmMap, made.named, Option.some.injEq] at named
  exact named.symm

theorem LeafMade.leafOk (ok : NodeOk group node) (single : node.dmFirst = node.dmLast) : NodeOk next leaf := by
  have first := made.dmFirst
  have last := made.dmLast
  have children := made.dmChildren
  -- The bounds are those of the only extent in the range.
  have only : ∀ other, Member next.dmMap leaf other →
      ∀ extent, next.extents[other]? = some extent → extent = leaf.dmBounds := by
    intro other member extent present
    rw [made.member_eq single member, made.extents, made.present, Option.some.injEq] at present
    exact present.symm
  constructor
  · omega
  · rw [made.extents, last]
    exact ok.inside
  · intro other member extent present
    rw [only other member extent present]
    exact Extent.Covers.refl _
  · intro _ other member extent present
    rw [only other member extent present]
    exact Extent.Covers.refl _
  · intro internal
    omega
  · refine fun _ => ⟨by omega, item, ⟨node.dmFirst, by omega, by omega, ?_⟩, children⟩
    rw [made.dmMap, made.named]

theorem LeafMade.size (live : group.Live tip node) (unbuilt : node.dmChildren = 0) :
    ∑ index ∈ Finset.range next.dmNext, weight next.dmTree[index]? =
      ∑ index ∈ Finset.range group.dmNext, weight group.dmTree[index]? := by
  rw [made.dmNext]
  apply Finset.sum_congr rfl
  intro index member
  rw [made.cells]
  split
  · rename_i here
    subst index
    have children := made.dmChildren
    have negative : ¬0 < leaf.dmChildren := by omega
    simp only [live.2, weight, unbuilt, made.dmFirst, made.dmLast, negative, lt_irrefl, if_false]
  · rfl

theorem LeafMade.kdTree (tree : KdTree group) (live : group.Live tip node)
    (unbuilt : node.dmChildren = 0) (single : node.dmFirst = node.dmLast) : KdTree next := by
  have grown := made.grown live
  have moves : ∀ position : Nat, next.dmMap[position]? = group.dmMap[Equiv.refl Nat position]? := by
    intro position
    rw [made.dmMap]
    rfl
  refine tree.grow live grown made.treeSize (by rw [made.dmMap]) moves ?_ ?_ ?_ (made.size live unbuilt)
  · rw [made.dmNext, made.treeSize]
    exact tree.next
  · intro index other otherLive
    rcases made.live_cases live otherLive with ⟨_, rfl⟩ | ⟨_, old⟩
    · exact made.leafOk (tree.nodes tip node live) single
    · exact (tree.nodes index other old).carry grown live old
  · intro one oneNode two twoNode oneLive twoLive different low
    rcases made.live_cases live oneLive with ⟨rfl, rfl⟩ | ⟨oneElse, oneOld⟩
    · rcases made.live_cases live twoLive with ⟨rfl, _⟩ | ⟨_, twoOld⟩
      · exact absurd rfl different
      · exact (tree.nested _ node two twoNode live twoOld different
          (by omega)).of_range made.dmFirst made.dmLast
    · rcases made.live_cases live twoLive with ⟨rfl, rfl⟩ | ⟨_, twoOld⟩
      · exact (tree.nested one oneNode _ node oneOld live different low).of_unbuilt
          unbuilt made.dmFirst made.dmLast
      · exact tree.nested one oneNode two twoNode oneOld twoOld different low

end

theorem nodeOk_of_boundsFrom {bounds : Extent} (ordered : first ≤ last) (inside : last < group.extents.length)
    (valid : ∀ place, place < group.extents.length →
      ∃ index : Nat, group.dmMap[place]? = some index ∧ index < group.extents.length)
    (computed : boundsFrom group.extents group.dmMap (last + 1 - first) first default = some bounds) :
    NodeOk group ⟨0, first, last, bounds⟩ := by
  obtain ⟨result, found, _, coversAll⟩ :=
    boundsFrom_correct group.extents group.dmMap (last + 1 - first) first default
      fun place _ upper => valid place (by omega)
  rw [computed, Option.some.injEq] at found
  subst result
  constructor
  · exact ordered
  · exact inside
  · rintro item ⟨position, lower, upper, named⟩ extent present
    dsimp only at lower upper ⊢
    exact coversAll position lower (by omega) item named extent present
  · rintro single item ⟨position, lower, upper, named⟩ extent present
    dsimp only at single lower upper ⊢
    have here : position = first := by omega
    have one : last + 1 - first = 1 := by omega
    subst position
    rw [one] at computed
    exact boundsFrom_one named present computed
  · intro internal
    exact absurd internal (lt_irrefl 0)
  · intro isLeaf
    exact absurd isLeaf (lt_irrefl 0)

/-- What is left when a node has been split behind a position: the node with its children,
two new nodes, and another order of the map inside the range of the node. -/
structure SplitMade (group next : ExtentGroup) (tip nth : Nat) (node parent left right : Node)
    (source : Equiv.Perm Nat) : Prop where
  lower : node.dmFirst ≤ nth
  upper : nth < node.dmLast
  extents : next.extents = group.extents
  dmNext : next.dmNext = group.dmNext + 2
  treeSize : next.dmTree.length = group.dmTree.length
  fixes : ∀ position, ¬(node.dmFirst ≤ position ∧ position < node.dmLast) → source position = position
  moves : ∀ position : Nat, next.dmMap[position]? = group.dmMap[source position]?
  mapSize : next.dmMap.length = group.dmMap.length
  cells : ∀ index : Nat, next.dmTree[index]? =
    if index = group.dmNext + 1 then some right
    else if index = group.dmNext then some left
    else if index = tip then some parent
    else group.dmTree[index]?
  parentNode : parent = ⟨group.dmNext, node.dmFirst, node.dmLast, node.dmBounds⟩
  leftNode : left = ⟨0, node.dmFirst, nth, left.dmBounds⟩
  rightNode : right = ⟨0, nth + 1, node.dmLast, right.dmBounds⟩
  leftBounds : boundsFrom next.extents next.dmMap (nth + 1 - node.dmFirst) node.dmFirst default =
    some left.dmBounds
  rightBounds : boundsFrom next.extents next.dmMap (node.dmLast - nth) (nth + 1) default = some right.dmBounds

theorem KdTree.valid_of_moves (tree : KdTree group) {map : List Nat}
    (moves : ∀ position : Nat, map[position]? = group.dmMap[source position]?)
    (mapSize : map.length = group.dmMap.length) {place : Nat} (bound : place < group.extents.length) :
    ∃ index : Nat, map[place]? = some index ∧ index < group.extents.length := by
  have inMap : place < map.length := by rw [mapSize, tree.mapSize]; exact bound
  have named := List.getElem?_eq_getElem inMap
  exact ⟨_, named, tree.mapBound _ _ ((moves place).symm.trans named)⟩

theorem buildChildren_splitMade (nthElement : NthElement) (tree : KdTree group) (live : group.Live tip node)
    (unbuilt : node.dmChildren = 0) (several : node.dmFirst ≠ node.dmLast) :
    ∃ next nth parent left right source, buildChildren nthElement group tip = some next ∧
      SplitMade group next tip nth node parent left right source := by
  have ok := tree.nodes tip node live
  have ordered := ok.ordered
  have inside := ok.inside
  have room := tree.room live (by omega) several
  have sameSize := tree.mapSize
  obtain ⟨nth, nthEq⟩ : ∃ nth, nth = (node.dmFirst + node.dmLast) / 2 := ⟨_, rfl⟩
  obtain ⟨map, mapEq⟩ : ∃ map, map = nthElement.run (compareExtents group.extents
    (decide (node.dmBounds.dmInterval.getWidth > node.dmBounds.dmRange.getWidth)))
    group.dmMap node.dmFirst nth node.dmLast := ⟨_, rfl⟩
  obtain ⟨source, fixes, moves⟩ := nthElement.permutes (compareExtents group.extents
    (decide (node.dmBounds.dmInterval.getWidth > node.dmBounds.dmRange.getWidth)))
    group.dmMap node.dmFirst nth node.dmLast
  rw [← mapEq] at moves
  have mapSize : map.length = group.dmMap.length := length_permuted fixes moves (by omega)
  obtain ⟨leftBounds, leftComputed, _⟩ := boundsFrom_correct group.extents map
    (nth + 1 - node.dmFirst) node.dmFirst default
    fun place _ upper => tree.valid_of_moves moves mapSize (by omega)
  obtain ⟨rightBounds, rightComputed, _⟩ := boundsFrom_correct group.extents map
    (node.dmLast - nth) (nth + 1) default
    fun place _ upper => tree.valid_of_moves moves mapSize (by omega)
  obtain ⟨first, firstWrote⟩ := writeAt_isSome
    (⟨group.dmNext, node.dmFirst, node.dmLast, node.dmBounds⟩ : Node)
    (lt_of_lt_of_le live.1 tree.next)
  have firstLength := length_of_writeAt firstWrote
  obtain ⟨second, secondWrote⟩ := writeAt_isSome (⟨0, node.dmFirst, nth, leftBounds⟩ : Node)
    (show group.dmNext < first.length by omega)
  have secondLength := length_of_writeAt secondWrote
  obtain ⟨third, thirdWrote⟩ := writeAt_isSome (⟨0, nth + 1, node.dmLast, rightBounds⟩ : Node)
    (show group.dmNext + 1 < second.length by omega)
  have thirdLength := length_of_writeAt thirdWrote
  refine ⟨{ group with dmNext := group.dmNext + 2, dmTree := third, dmMap := map }, nth, _, _, _,
    source, ?_, {
      lower := by omega
      upper := by omega
      extents := rfl
      dmNext := rfl
      treeSize := by rw [thirdLength, secondLength, firstLength]
      fixes := fixes
      moves := moves
      mapSize := mapSize
      cells := fun index => by
        rw [getElem?_of_writeAt thirdWrote, getElem?_of_writeAt secondWrote, getElem?_of_writeAt firstWrote]
      parentNode := rfl
      leftNode := rfl
      rightNode := rfl
      leftBounds := leftComputed
      rightBounds := rightComputed }⟩
  rw [buildChildren, live.2]
  simp only [Option.bind_eq_bind, Option.bind_some, if_neg several, ← nthEq, ← mapEq, firstWrote,
    leftComputed, secondWrote, rightComputed, thirdWrote]

section

variable {group next : ExtentGroup} {tip nth : Nat} {node parent left right : Node}
  {source : Equiv.Perm Nat} (made : SplitMade group next tip nth node parent left right source)

include made

theorem SplitMade.parent_dmFirst : parent.dmFirst = node.dmFirst := by rw [made.parentNode]

theorem SplitMade.parent_dmLast : parent.dmLast = node.dmLast := by rw [made.parentNode]

theorem SplitMade.parent_dmChildren : parent.dmChildren = group.dmNext := by rw [made.parentNode]

theorem SplitMade.left_dmFirst : left.dmFirst = node.dmFirst := by rw [made.leftNode]

theorem SplitMade.left_dmLast : left.dmLast = nth := by rw [made.leftNode]

theorem SplitMade.right_dmFirst : right.dmFirst = nth + 1 := by rw [made.rightNode]

theorem SplitMade.right_dmLast : right.dmLast = node.dmLast := by rw [made.rightNode]

theorem SplitMade.leftLive : next.Live group.dmNext left := by
  have bound := made.dmNext
  refine ⟨by omega, ?_⟩
  rw [made.cells, if_neg (by omega), if_pos rfl]

theorem SplitMade.rightLive : next.Live (group.dmNext + 1) right := by
  have bound := made.dmNext
  refine ⟨by omega, ?_⟩
  rw [made.cells, if_pos rfl]

variable (live : group.Live tip node)

include live

theorem SplitMade.parentLive : next.Live tip parent := by
  have bound := made.dmNext
  have tipLive := live.1
  refine ⟨by omega, ?_⟩
  rw [made.cells, if_neg (by omega), if_neg (by omega), if_pos rfl]

theorem SplitMade.live_cases {index : Nat} {other : Node} (otherLive : next.Live index other) :
    (index = group.dmNext + 1 ∧ other = right) ∨ (index = group.dmNext ∧ other = left) ∨
      (index = tip ∧ other = parent) ∨ (index ≠ tip ∧ group.Live index other) := by
  by_cases isRight : index = group.dmNext + 1
  · exact Or.inl ⟨isRight, (isRight ▸ otherLive).unique made.rightLive⟩
  by_cases isLeft : index = group.dmNext
  · exact Or.inr (Or.inl ⟨isLeft, (isLeft ▸ otherLive).unique made.leftLive⟩)
  by_cases isTip : index = tip
  · exact Or.inr (Or.inr (Or.inl ⟨isTip, (isTip ▸ otherLive).unique (made.parentLive live)⟩))
  · obtain ⟨bound, cell⟩ := otherLive
    rw [made.dmNext] at bound
    rw [made.cells, if_neg isRight, if_neg isLeft, if_neg isTip] at cell
    exact Or.inr (Or.inr (Or.inr ⟨isTip, by omega, cell⟩))

omit made in
theorem KdTree.apart (tree : KdTree group) (unbuilt : node.dmChildren = 0) {index : Nat}
    {other : Node} (otherLive : group.Live index other) :
    node.dmLast < other.dmFirst ∨ other.dmLast < node.dmFirst ∨
      (other.dmFirst ≤ node.dmFirst ∧ node.dmLast ≤ other.dmLast) := by
  by_cases here : index = tip
  · subst index
    rw [otherLive.unique live]
    exact Or.inr (Or.inr ⟨le_refl _, le_refl _⟩)
  · rcases tree.nested tip node index other live otherLive (Ne.symm here) (by omega) with
      before | after | ⟨_, enclosed⟩
    · exact Or.inl before
    · exact Or.inr (Or.inl after)
    · exact Or.inr (Or.inr enclosed)

theorem SplitMade.grown (tree : KdTree group) (unbuilt : node.dmChildren = 0) : Grown group next tip node where
  extents := made.extents
  built := by
    have children := made.parent_dmChildren
    have tipLive := live.1
    exact ⟨parent, made.parentLive live, made.parent_dmFirst, made.parent_dmLast, by omega⟩
  kept := by
    intro index other different otherLive
    have bound := otherLive.1
    have more := made.dmNext
    refine ⟨by omega, ?_⟩
    rw [made.cells, if_neg (by omega), if_neg (by omega), if_neg different]
    exact otherLive.2
  members := fun _ _ otherLive item =>
    member_permuted made.fixes made.moves (tree.apart live unbuilt otherLive) item

theorem SplitMade.parentOk (nodeOk : NodeOk next node) : NodeOk next parent := by
  have tipLive := live.1
  have first := made.parent_dmFirst
  have last := made.parent_dmLast
  have children := made.parent_dmChildren
  have leftFirst := made.left_dmFirst
  have leftLast := made.left_dmLast
  have rightFirst := made.right_dmFirst
  have rightLast := made.right_dmLast
  have lower := made.lower
  have upper := made.upper
  constructor
  · omega
  · rw [last]
    exact nodeOk.inside
  · rw [made.parentNode]
    exact nodeOk.covers
  · intro single
    omega
  · refine fun _ => ⟨left, right, ?_, ?_, by omega, by omega, by omega⟩
    · simpa [children] using made.leftLive
    · simpa [children] using made.rightLive
  · intro isLeaf
    omega

omit live in
theorem SplitMade.newOk (tree : KdTree group) (inside : node.dmLast < group.extents.length) :
    NodeOk next left ∧ NodeOk next right := by
  have lower := made.lower
  have upper := made.upper
  have valid : ∀ place, place < next.extents.length →
      ∃ index : Nat, next.dmMap[place]? = some index ∧ index < next.extents.length := by
    rw [made.extents]
    exact fun place bound => tree.valid_of_moves made.moves made.mapSize bound
  rw [← made.extents] at inside
  constructor
  · rw [made.leftNode]
    exact nodeOk_of_boundsFrom lower (by omega) valid made.leftBounds
  · rw [made.rightNode]
    refine nodeOk_of_boundsFrom (by omega) inside valid ?_
    rw [show node.dmLast + 1 - (nth + 1) = node.dmLast - nth by omega]
    exact made.rightBounds

theorem SplitMade.nested (tree : KdTree group) (unbuilt : node.dmChildren = 0)
    {one two : Nat} {oneNode twoNode : Node} (oneLive : next.Live one oneNode)
    (twoLive : next.Live two twoNode) (different : one ≠ two) (low : oneNode.dmChildren ≤ 0) :
    Nested oneNode twoNode := by
  have tipLive := live.1
  have parentFirst := made.parent_dmFirst
  have parentLast := made.parent_dmLast
  have children := made.parent_dmChildren
  have leftFirst := made.left_dmFirst
  have leftLast := made.left_dmLast
  have rightFirst := made.right_dmFirst
  have rightLast := made.right_dmLast
  have lower := made.lower
  have upper := made.upper
  have fromTip : ∀ index other, index ≠ tip → group.Live index other → Nested node other :=
    fun index other elsewhere old =>
      tree.nested tip node index other live old (Ne.symm elsewhere) (by omega)
  rcases made.live_cases live oneLive with
    ⟨oneAt, rfl⟩ | ⟨oneAt, rfl⟩ | ⟨_, rfl⟩ | ⟨oneElse, oneOld⟩
  · rcases made.live_cases live twoLive with
      ⟨twoAt, _⟩ | ⟨_, rfl⟩ | ⟨_, rfl⟩ | ⟨twoElse, twoOld⟩
    · omega
    · exact Or.inr (Or.inl (by omega))
    · exact Or.inr (Or.inr (by omega))
    · have nested := fromTip two twoNode twoElse twoOld
      unfold Nested at nested ⊢
      omega
  · rcases made.live_cases live twoLive with
      ⟨_, rfl⟩ | ⟨twoAt, _⟩ | ⟨_, rfl⟩ | ⟨twoElse, twoOld⟩
    · exact Or.inl (by omega)
    · omega
    · exact Or.inr (Or.inr (by omega))
    · have nested := fromTip two twoNode twoElse twoOld
      unfold Nested at nested ⊢
      omega
  · omega
  · have nested := tree.nested one oneNode tip node oneOld live oneElse low
    rcases made.live_cases live twoLive with
      ⟨_, rfl⟩ | ⟨_, rfl⟩ | ⟨_, rfl⟩ | ⟨_, twoOld⟩
    · unfold Nested at nested ⊢
      omega
    · unfold Nested at nested ⊢
      omega
    · exact nested.of_unbuilt unbuilt parentFirst parentLast
    · exact tree.nested one oneNode two twoNode oneOld twoOld different low

theorem SplitMade.size (unbuilt : node.dmChildren = 0) :
    ∑ index ∈ Finset.range next.dmNext, weight next.dmTree[index]? =
      ∑ index ∈ Finset.range group.dmNext, weight group.dmTree[index]? := by
  have tipLive := live.1
  have member := Finset.mem_range.mpr live.1
  have before := Finset.add_sum_erase _ (fun index => weight group.dmTree[index]?) member
  have after := Finset.add_sum_erase _ (fun index => weight next.dmTree[index]?) member
  have rest : ∑ index ∈ (Finset.range group.dmNext).erase tip, weight next.dmTree[index]? =
      ∑ index ∈ (Finset.range group.dmNext).erase tip, weight group.dmTree[index]? := by
    apply Finset.sum_congr rfl
    intro index inRest
    have bound := Finset.mem_range.mp (Finset.mem_of_mem_erase inRest)
    rw [made.cells, if_neg (by omega), if_neg (by omega), if_neg (Finset.ne_of_mem_erase inRest)]
  have lower := made.lower
  have upper := made.upper
  have parentPositive : 0 < parent.dmChildren := by
    rw [made.parent_dmChildren]
    omega
  have leftZero : ¬0 < left.dmChildren := by
    rw [made.leftNode]
    exact lt_irrefl 0
  have rightZero : ¬0 < right.dmChildren := by
    rw [made.rightNode]
    exact lt_irrefl 0
  have nodeZero : ¬0 < node.dmChildren := by omega
  simp only [live.2, weight, nodeZero, if_false] at before
  simp only [(made.parentLive live).2, weight, parentPositive, if_true] at after
  rw [made.dmNext, Finset.sum_range_succ, Finset.sum_range_succ, made.leftLive.2, made.rightLive.2]
  simp only [weight, leftZero, rightZero, if_false, made.left_dmFirst, made.left_dmLast,
    made.right_dmFirst, made.right_dmLast]
  simp only [weight] at rest
  omega

theorem SplitMade.kdTree (tree : KdTree group) (unbuilt : node.dmChildren = 0) : KdTree next := by
  have ok := tree.nodes tip node live
  have grown := made.grown live tree unbuilt
  have upper := made.upper
  have lower := made.lower
  refine tree.grow live grown made.treeSize made.mapSize made.moves ?_ ?_
    (fun _ _ _ _ => made.nested live tree unbuilt) (made.size live unbuilt)
  · have room := tree.room live (by omega) (by omega)
    rw [made.dmNext, made.treeSize]
    omega
  · intro index other otherLive
    obtain ⟨leftOk, rightOk⟩ := made.newOk tree ok.inside
    rcases made.live_cases live otherLive with ⟨_, rfl⟩ | ⟨_, rfl⟩ | ⟨_, rfl⟩ | ⟨_, old⟩
    · exact rightOk
    · exact leftOk
    · exact made.parentOk live (ok.carry grown live live)
    · exact (tree.nodes index other old).carry grown live old

end

theorem buildChildren_correct (nthElement : NthElement)
    (tree : KdTree group) (live : group.Live tip node) (unbuilt : node.dmChildren = 0) :
    ∃ next, buildChildren nthElement group tip = some next ∧ KdTree next ∧ Grown group next tip node := by
  by_cases single : node.dmFirst = node.dmLast
  · obtain ⟨next, item, leaf, ran, made⟩ := buildChildren_leafMade nthElement tree live single
    exact ⟨next, ran, made.kdTree tree live unbuilt single, made.grown live⟩
  · obtain ⟨next, nth, parent, left, right, source, ran, made⟩ :=
      buildChildren_splitMade nthElement tree live unbuilt single
    exact ⟨next, ran, made.kdTree live tree unbuilt, made.grown live tree unbuilt⟩

theorem foldl_union_covers (extents : List Extent) (bounds : Extent) :
    (extents.foldl Extent.union bounds).Covers bounds ∧
      ∀ extent ∈ extents, (extents.foldl Extent.union bounds).Covers extent := by
  induction extents generalizing bounds with
  | nil => exact ⟨Extent.Covers.refl bounds, by simp⟩
  | cons first rest ih =>
    obtain ⟨coversUnion, coversRest⟩ := ih (bounds.union first)
    refine ⟨coversUnion.trans (Extent.union_covers_left _ _), ?_⟩
    intro extent member
    rcases List.mem_cons.mp member with rfl | later
    · exact coversUnion.trans (Extent.union_covers_right _ _)
    · exact coversRest extent later

structure Consistent (group : ExtentGroup) : Prop where
  mapLength : group.dmMap.length ≤ group.extents.length
  current : 0 < group.dmMap.length → group.dmMap.length = group.extents.length → KdTree group

theorem consistent_new (dmNext : Nat) : Consistent (new dmNext) :=
  ⟨le_refl _, fun positive => absurd positive (lt_irrefl 0)⟩

theorem Consistent.pushBack (consistent : Consistent group)
    (extent : Extent) : Consistent (group.pushBack extent) := by
  have longer : (group.pushBack extent).extents.length = group.extents.length + 1 := by
    simp [ExtentGroup.pushBack]
  have shorter : (group.pushBack extent).dmMap.length ≤ group.extents.length :=
    consistent.mapLength
  exact ⟨by omega, fun _ same => by omega⟩

theorem KdTree.consistent (tree : KdTree group) : Consistent group :=
  ⟨le_of_eq tree.mapSize, fun _ _ => tree⟩

theorem initializeTree_correct (nonempty : 0 < group.extents.length)
    (current : group.dmMap.length = group.extents.length → KdTree group) :
    ∃ next, initializeTree group = some next ∧ KdTree next ∧ next.extents = group.extents := by
  unfold initializeTree
  split
  · rename_i ready
    exact ⟨group, rfl, current ready.2, rfl⟩
  · obtain ⟨root, rootEq⟩ : ∃ root : Node, root =
      ⟨0, 0, group.extents.length - 1, group.extents.foldl Extent.union default⟩ := ⟨_, rfl⟩
    have blank := length_resize group.dmTree (2 * group.extents.length) (default : Node)
    obtain ⟨written, wrote⟩ := writeAt_isSome root
      (show 0 < (resize group.dmTree (2 * group.extents.length) default).length by omega)
    have cells := getElem?_of_writeAt wrote
    obtain ⟨next, nextEq⟩ : ∃ next, next = { group with
      dmNext := 1, dmTree := written, dmMap := List.range group.extents.length } := ⟨_, rfl⟩
    have sameExtents : next.extents = group.extents := by rw [nextEq]
    have newMap : next.dmMap = List.range group.extents.length := by rw [nextEq]
    have newTree : next.dmTree = written := by rw [nextEq]
    have newNext : next.dmNext = 1 := by rw [nextEq]
    have writtenLength : written.length = 2 * group.extents.length := by
      rw [length_of_writeAt wrote, blank]
    have rootLive : next.Live 0 root := by
      refine ⟨by omega, ?_⟩
      rw [newTree, cells, if_pos rfl]
    have onlyRoot : ∀ index node, next.Live index node → node = root := by
      intro index node live
      have bound := live.1
      have zero : index = 0 := by omega
      subst index
      exact live.unique rootLive
    obtain ⟨_, coversAll⟩ := foldl_union_covers group.extents default
    have rootOk : NodeOk next root := by
      rw [rootEq]
      constructor
      · exact Nat.zero_le _
      · rw [sameExtents]
        dsimp only
        omega
      · intro item _ extent present
        rw [sameExtents] at present
        exact coversAll extent (List.mem_of_getElem? present)
      · intro single item _ extent present
        rw [sameExtents] at present
        dsimp only at single ⊢
        have one : group.extents.length = 1 := by omega
        obtain ⟨only, onlyEq⟩ := List.length_eq_one_iff.mp one
        have zero : item = 0 := by
          have bound := (List.getElem?_eq_some_iff.mp present).1
          omega
        rw [onlyEq, zero, List.getElem?_cons_zero, Option.some.injEq] at present
        subst extent
        rw [onlyEq]
        exact Extent.default_union_covered only
      · intro internal
        exact absurd internal (lt_irrefl 0)
      · intro isLeaf
        exact absurd isLeaf (lt_irrefl 0)
    refine ⟨next, ?_, ?_, sameExtents⟩
    · simp only [Option.bind_eq_bind, ← rootEq, wrote, Option.bind_some, nextEq]
    · constructor
      · rw [sameExtents]
        exact nonempty
      · rw [newTree, sameExtents, writtenLength]
      · rw [newMap, sameExtents, List.length_range]
      · intro position index named
        rw [newMap] at named
        rw [sameExtents]
        exact List.mem_range.mp (List.mem_of_getElem? named)
      · intro index bound
        rw [sameExtents] at bound
        exact ⟨index, by rw [newMap, List.getElem?_range bound]⟩
      · rw [newNext, newTree]
        omega
      · exact ⟨root, rootLive, by rw [rootEq], by rw [rootEq, sameExtents]⟩
      · intro index node live
        rw [onlyRoot index node live]
        exact rootOk
      · intro tip tipNode other otherNode tipLive otherLive different _
        have tipBound := tipLive.1
        have otherBound := otherLive.1
        omega
      · rw [newNext, Finset.sum_range_one, rootLive.2, sameExtents, rootEq]
        simp only [weight, lt_irrefl, if_false]
        omega

end ExtentGroup

end OpenSpeedShop
