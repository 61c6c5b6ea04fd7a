import OpenSpeedShop.Library.OrderedMap
import Mathlib.Order.Lattice

/-!
Strict weak orderings. An ordered map whose keys are compared by one holds a
single entry for every class of incomparable keys.
-/

namespace OrderedMap

variable {Key Value : Type}

def Incomparable (less : Key → Key → Bool) (first second : Key) : Prop :=
  less first second = false ∧ less second first = false

structure StrictWeak (less : Key → Key → Bool) : Prop where
  irrefl : ∀ key, less key key = false
  trans : ∀ {first second third}, less first second = true → less second third = true → less first third = true
  incomparable : ∀ {first second third}, Incomparable less first second →
    Incomparable less second third → Incomparable less first third

def ofPairs (less : Key → Key → Bool) (pairs : List (Key × Value)) : List (Key × Value) :=
  pairs.foldl (fun entries pair => insert less pair.1 pair.2 entries) []

structure OnePerClass (less : Key → Key → Bool) (pairs entries : List (Key × Value)) : Prop where
  distinct : entries.Pairwise fun first second => ¬ Incomparable less first.1 second.1
  kept : ∀ pair ∈ pairs, ∃ entry ∈ entries, Incomparable less entry.1 pair.1
  inserted : ∀ entry ∈ entries, entry ∈ pairs

variable {less : Key → Key → Bool}

section

variable {Rank : Type} [LinearOrder Rank] {rank : Key → Rank}

theorem incomparable_iff_of_rank
    (ranked : ∀ first second, less first second = decide (rank first < rank second))
    (first second : Key) : Incomparable less first second ↔ rank first = rank second := by
  simp only [Incomparable, ranked, decide_eq_false_iff_not, not_lt]
  constructor
  · rintro ⟨above, below⟩
    exact le_antisymm below above
  · intro same
    exact ⟨same.ge, same.le⟩

theorem StrictWeak.of_rank (ranked : ∀ first second, less first second = decide (rank first < rank second)) :
    StrictWeak less where
  irrefl key := by simp [ranked]
  trans below above := by
    simp only [ranked, decide_eq_true_eq] at below above ⊢
    exact below.trans above
  incomparable one two := by
    rw [incomparable_iff_of_rank ranked] at one two ⊢
    exact one.trans two

end

theorem not_incomparable_of_less {first second : Key} (below : less first second = true) :
    ¬ Incomparable less first second := by
  rintro ⟨notBelow, -⟩
  rw [below] at notBelow
  cases notBelow

theorem StrictWeak.insert (order : StrictWeak less) {entries pairs : List (Key × Value)}
    (sorted : Sorted less entries) (one : OnePerClass less pairs entries) (pair : Key × Value) :
    Sorted less (insert less pair.1 pair.2 entries) ∧
      OnePerClass less (pairs ++ [pair]) (OrderedMap.insert less pair.1 pair.2 entries) := by
  cases found : find? less pair.1 entries with
  | none =>
    obtain ⟨sortedNext, members, -⟩ :=
      @Sorted.upsert_missing _ _ less pair.1 pair.2 id _ sorted (fun _ _ _ => order.trans) found
    refine ⟨sortedNext, ?_, fun other member => ?_, fun entry member => ?_⟩
    · exact sortedNext.imp not_incomparable_of_less
    · rcases List.mem_append.mp member with earlier | last
      · obtain ⟨entry, present, same⟩ := one.kept other earlier
        exact ⟨entry, (members entry).mpr (.inr present), same⟩
      · obtain rfl := List.mem_singleton.mp last
        exact ⟨other, (members other).mpr (.inl rfl), order.irrefl _, order.irrefl _⟩
    · rcases (members entry).mp member with rfl | present
      · exact List.mem_append_right _ (List.mem_singleton_self _)
      · exact List.mem_append_left _ (one.inserted entry present)
  | some entry =>
    rw [insert_of_find?_some pair.2 found]
    refine ⟨sorted, one.distinct, fun other member => ?_, fun other member => ?_⟩
    · rcases List.mem_append.mp member with earlier | last
      · exact one.kept other earlier
      · obtain rfl := List.mem_singleton.mp last
        exact ⟨entry, mem_of_find? found, find?_equivalent found⟩
    · exact List.mem_append_left _ (one.inserted other member)

theorem StrictWeak.foldl_insert (order : StrictWeak less) (later : List (Key × Value)) :
    ∀ {entries pairs : List (Key × Value)}, Sorted less entries → OnePerClass less pairs entries →
      OnePerClass less (pairs ++ later)
        (later.foldl (fun entries pair => OrderedMap.insert less pair.1 pair.2 entries) entries) := by
  induction later with
  | nil =>
    intro entries pairs _ one
    simpa using one
  | cons pair rest ih =>
    intro entries pairs sorted one
    obtain ⟨sortedNext, next⟩ := order.insert sorted one pair
    have all := ih sortedNext next
    rwa [List.append_assoc] at all

theorem StrictWeak.onePerClass (order : StrictWeak less) (pairs : List (Key × Value)) :
    OnePerClass less pairs (ofPairs less pairs) := by
  have none : OnePerClass less ([] : List (Key × Value)) [] :=
    ⟨List.Pairwise.nil, by simp, by simp⟩
  have all := order.foldl_insert pairs List.Pairwise.nil none
  exact all

end OrderedMap
