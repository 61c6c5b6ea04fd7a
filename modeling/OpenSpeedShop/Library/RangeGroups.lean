import OpenSpeedShop.Library.OrderedMap
import Mathlib.Data.List.Induction
import Mathlib.Data.List.Pairwise

/-!
Items with keys that need not be totally ordered, such as ranges that overlap. Each item
is put into the group whose key is equivalent to its own, or begins a new one.
-/

namespace RangeGroups

variable {Key Item : Type}

def Transitive (less : Key → Key → Bool) : Prop :=
  ∀ {first second third}, less second second = false → less first second = true →
    less second third = true → less first third = true

def Meets (less : Key → Key → Bool) (first second : Key) : Prop :=
  less first second = false ∧ less second first = false

instance (less : Key → Key → Bool) (first second : Key) : Decidable (Meets less first second) :=
  inferInstanceAs (Decidable (_ ∧ _))

abbrev Group (Item : Type) := Item × List Item

def add (less : Key → Key → Bool) (keyOf : Item → Key) (groups : List (Key × Group Item))
    (item : Item) : List (Key × Group Item) :=
  OrderedMap.upsert less (keyOf item) (item, []) (fun group => (group.1, group.2 ++ [item])) groups

def groupsOf (less : Key → Key → Bool) (keyOf : Item → Key) (items : List Item) : List (Key × Group Item) :=
  items.foldl (add less keyOf) []

variable {less : Key → Key → Bool} {keyOf : Item → Key}

theorem groupsOf_append (items : List Item) (item : Item) :
    groupsOf less keyOf (items ++ [item]) = add less keyOf (groupsOf less keyOf items) item := by
  simp [groupsOf]

structure Grouped (less : Key → Key → Bool) (keyOf : Item → Key) (items : List Item)
    (groups : List (Key × Group Item)) : Prop where
  sorted : OrderedMap.Sorted less groups
  first : ∀ group ∈ groups, keyOf group.2.1 = group.1 ∧ ∃ rest, group.2.2 = group.2.1 :: rest
  meets : ∀ group ∈ groups, ∀ item ∈ group.2.2, Meets less group.1 (keyOf item)
  begins : ∀ group ∈ groups, ∃ before after, items = before ++ group.2.1 :: after ∧
    ∀ item ∈ before, ∃ other ∈ groups, item ∈ other.2.2 ∧ ¬ Meets less other.1 group.1
  members : ∀ group ∈ groups, ∀ item ∈ group.2.2, item ∈ items
  covers : ∀ item ∈ items, ∃ group ∈ groups, item ∈ group.2.2

variable {items : List Item} {groups : List (Key × Group Item)} {group : Key × Group Item}

theorem Grouped.first_mem (grouped : Grouped less keyOf items groups)
    (member : group ∈ groups) : group.2.1 ∈ group.2.2 := by
  obtain ⟨-, rest, all⟩ := grouped.first group member
  rw [all]
  exact List.mem_cons_self

theorem Grouped.nil : Grouped less keyOf ([] : List Item) [] := by
  constructor
  · exact List.Pairwise.nil
  · simp
  · simp
  · simp
  · simp
  · simp

theorem Grouped.begins_of_kept {groups next : List (Key × Group Item)}
    (grouped : Grouped less keyOf items groups) (item : Item)
    (kept : ∀ group ∈ groups, ∃ other ∈ next, other.1 = group.1 ∧ group.2.2 ⊆ other.2.2)
    (member : group ∈ groups) : ∃ before after, items ++ [item] = before ++ group.2.1 :: after ∧
      ∀ earlier ∈ before, ∃ other ∈ next, earlier ∈ other.2.2 ∧ ¬ Meets less other.1 group.1 := by
  obtain ⟨before, after, split, others⟩ := grouped.begins group member
  refine ⟨before, after ++ [item], by simp [split], fun earlier here => ?_⟩
  obtain ⟨another, present, inside, apart⟩ := others earlier here
  obtain ⟨grown, presentGrown, sameKey, more⟩ := kept another present
  exact ⟨grown, presentGrown, more inside, sameKey ▸ apart⟩

section

variable {items : List Item} {groups : List (Key × Group Item)}
  (grouped : Grouped less keyOf items groups)
  (valid : ∀ item ∈ items, less (keyOf item) (keyOf item) = false) {item : Item}

include grouped valid

theorem Grouped.irrefl : ∀ group ∈ groups, less group.1 group.1 = false := by
  intro group member
  rw [← (grouped.first group member).1]
  exact valid _ (grouped.members group member _ (grouped.first_mem member))

theorem Grouped.add_missing (transitive : Transitive less)
    (itemValid : less (keyOf item) (keyOf item) = false)
    (missing : OrderedMap.find? less (keyOf item) groups = none) :
    Grouped less keyOf (items ++ [item]) (RangeGroups.add less keyOf groups item) := by
  obtain ⟨sorted, members, apart⟩ := @OrderedMap.Sorted.upsert_missing _ _ less (keyOf item)
    (item, []) (fun group => (group.1, group.2 ++ [item])) groups grouped.sorted
    (fun entry member other => transitive (grouped.irrefl valid entry member)) missing
  rw [← RangeGroups.add] at sorted members
  have kept : ∀ group ∈ groups, group ∈ RangeGroups.add less keyOf groups item :=
    fun group member => (members group).mpr (.inr member)
  constructor
  · exact sorted
  · intro group member
    rcases (members group).mp member with rfl | old
    · exact ⟨rfl, [], rfl⟩
    · exact grouped.first group old
  · intro group member other inside
    rcases (members group).mp member with rfl | old
    · obtain rfl := List.mem_singleton.mp inside
      exact ⟨itemValid, itemValid⟩
    · exact grouped.meets group old other inside
  · intro group member
    rcases (members group).mp member with rfl | old
    · refine ⟨items, [], rfl, fun other earlier => ?_⟩
      obtain ⟨group, present, inside⟩ := grouped.covers other earlier
      refine ⟨group, kept group present, inside, fun meets => ?_⟩
      rcases apart group present with below | above
      · exact absurd meets.1 (by simp [below])
      · exact absurd meets.2 (by simp [above])
    · exact grouped.begins_of_kept item
        (fun other present => ⟨other, kept other present, rfl, List.Subset.refl _⟩) old
  · intro group member other inside
    rcases (members group).mp member with rfl | old
    · exact List.mem_append_right _ inside
    · exact List.mem_append_left _ (grouped.members group old other inside)
  · intro other member
    rcases List.mem_append.mp member with old | new
    · obtain ⟨group, present, inside⟩ := grouped.covers other old
      exact ⟨group, kept group present, inside⟩
    · exact ⟨_, (members _).mpr (.inl rfl), new⟩

theorem Grouped.add_found {entry : Key × Group Item}
    (found : OrderedMap.find? less (keyOf item) groups = some entry) :
    Grouped less keyOf (items ++ [item]) (RangeGroups.add less keyOf groups item) := by
  have here := OrderedMap.mem_of_find? found
  obtain ⟨sorted, members⟩ := @OrderedMap.Sorted.upsert_found _ _ less (keyOf item) (item, [])
    (fun group => (group.1, group.2 ++ [item])) groups entry grouped.sorted
    (grouped.irrefl valid) found
  rw [← RangeGroups.add] at sorted members
  have grown := (members (entry.1, entry.2.1, entry.2.2 ++ [item])).mpr (.inl rfl)
  have kept : ∀ group ∈ groups, ∃ other ∈ RangeGroups.add less keyOf groups item,
      other.1 = group.1 ∧ group.2.2 ⊆ other.2.2 := by
    intro group member
    by_cases same : group = entry
    · subst same
      exact ⟨_, grown, rfl, List.subset_append_left _ _⟩
    · exact ⟨group, (members group).mpr (.inr ⟨member, same⟩), rfl, List.Subset.refl _⟩
  constructor
  · exact sorted
  · intro group member
    rcases (members group).mp member with rfl | ⟨old, -⟩
    · obtain ⟨key, rest, all⟩ := grouped.first entry here
      exact ⟨key, rest ++ [item], by simp [all]⟩
    · exact grouped.first group old
  · intro group member other inside
    rcases (members group).mp member with rfl | ⟨old, -⟩
    · rcases List.mem_append.mp inside with earlier | last
      · exact grouped.meets entry here other earlier
      · obtain rfl := List.mem_singleton.mp last
        have equivalent := OrderedMap.find?_equivalent found
        exact equivalent
    · exact grouped.meets group old other inside
  · intro group member
    rcases (members group).mp member with rfl | ⟨old, -⟩
    · have begins := grouped.begins_of_kept item kept here
      exact begins
    · exact grouped.begins_of_kept item kept old
  · intro group member other inside
    rcases (members group).mp member with rfl | ⟨old, -⟩
    · rcases List.mem_append.mp inside with earlier | last
      · exact List.mem_append_left _ (grouped.members entry here other earlier)
      · exact List.mem_append_right _ last
    · exact List.mem_append_left _ (grouped.members group old other inside)
  · intro other member
    rcases List.mem_append.mp member with old | new
    · obtain ⟨group, present, inside⟩ := grouped.covers other old
      obtain ⟨another, presentAnother, -, more⟩ := kept group present
      exact ⟨another, presentAnother, more inside⟩
    · exact ⟨_, grown, List.mem_append_right _ new⟩

theorem Grouped.add (transitive : Transitive less) (itemValid : less (keyOf item) (keyOf item) = false) :
    Grouped less keyOf (items ++ [item]) (RangeGroups.add less keyOf groups item) := by
  cases found : OrderedMap.find? less (keyOf item) groups with
  | none => exact grouped.add_missing valid transitive itemValid found
  | some entry => exact grouped.add_found valid found

end

theorem grouped_groupsOf (transitive : Transitive less)
    (valid : ∀ item ∈ items, less (keyOf item) (keyOf item) = false) :
    Grouped less keyOf items (groupsOf less keyOf items) := by
  induction items using List.reverseRecOn with
  | nil => exact Grouped.nil
  | append_singleton items item ih =>
    rw [groupsOf_append]
    have earlier : ∀ other ∈ items, less (keyOf other) (keyOf other) = false :=
      fun other member => valid other (List.mem_append_left _ member)
    exact (ih earlier).add earlier transitive (valid item (by simp))

theorem Grouped.eq_of_meets (grouped : Grouped less keyOf items groups) {first second : Key × Group Item}
    (firstMember : first ∈ groups) (secondMember : second ∈ groups)
    (meets : Meets less first.1 second.1) : first = second := by
  let Apart : Key × Group Item → Key × Group Item → Prop :=
    fun one other => ¬ Meets less one.1 other.1
  have symmetric : Std.Symm Apart := ⟨fun _ _ apart meets => apart ⟨meets.2, meets.1⟩⟩
  have apart : groups.Pairwise Apart := by
    apply grouped.sorted.imp
    intro one other below meets
    rw [meets.1] at below
    cases below
  by_contra different
  exact apart.forall firstMember secondMember different meets

end RangeGroups
