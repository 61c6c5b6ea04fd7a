import OpenSpeedShop.Library.WeakOrder
import Mathlib.Data.List.Perm.Subperm

/-! The greatest items of a list, taken from the front of what a sorting function makes of it. -/

namespace Ranking

open OrderedMap (StrictWeak)

variable {Item Rank : Type}

/-- What is known of a function that sorts by a strict weak ordering. The order of items that do
not differ in it is left open. -/
structure Sorting (Item : Type) where
  sort : (Item → Item → Bool) → List Item → List Item
  perm : ∀ less items, (sort less items).Perm items
  sorted : ∀ less items, StrictWeak less →
    (sort less items).Pairwise fun first second => less second first = false

theorem notLess_trans {less : Item → Item → Bool} (order : StrictWeak less)
    {first second third : Item} (one : less second first = false)
    (two : less third second = false) : less third first = false := by
  cases below : less third first with
  | false => rfl
  | true =>
    cases up : less first second with
    | true =>
      rw [order.trans below up] at two
      cases two
    | false =>
      cases down : less second third with
      | true =>
        rw [order.trans down below] at one
        cases one
      | false =>
        have same := order.incomparable ⟨up, one⟩ ⟨down, two⟩
        exact below.symm.trans same.2

def mergeSorting : Sorting Item where
  sort less items := items.mergeSort fun first second => !less second first
  perm _ _ := List.mergeSort_perm _ _
  sorted less items order := by
    have sorted := @List.pairwise_mergeSort _ (fun first second => !less second first)
      (fun first second third one two => by
        simp only [Bool.not_eq_true'] at one two ⊢
        exact notLess_trans order one two)
      (fun first second => by
        cases above : less second first with
        | false => rfl
        | true =>
          cases below : less first second with
          | false => rfl
          | true =>
            have self := order.trans below above
            rw [order.irrefl first] at self
            cases self)
      items
    exact sorted.imp fun notAbove => by simpa using notAbove

variable [LinearOrder Rank] (rank : Item → Rank)

structure Top (n : Nat) (items shown : List Item) : Prop where
  from_items : shown.Subperm items
  length : shown.length = min n items.length
  ordered : shown.Pairwise fun first second => rank second ≤ rank first
  greatest : ∀ item ∈ items, item ∉ shown → ∀ other ∈ shown, rank item ≤ rank other

variable {rank} {items : List Item}

theorem strictWeak_less : StrictWeak fun first second => decide (rank first < rank second) :=
  StrictWeak.of_rank fun _ _ => rfl

theorem strictWeak_greater : StrictWeak fun first second => decide (rank second < rank first) where
  irrefl item := by simp
  trans above below := by
    simp only [decide_eq_true_eq] at above below ⊢
    exact below.trans above
  incomparable one two := by
    simp only [OrderedMap.Incomparable, decide_eq_false_iff_not, not_lt] at one two ⊢
    exact ⟨one.1.trans two.1, two.2.trans one.2⟩

theorem mem_take_or_drop (n : Nat) {sorted : List Item} (perm : sorted.Perm items) {item : Item}
    (member : item ∈ items) : item ∈ sorted.take n ∨ item ∈ sorted.drop n := by
  rw [← List.mem_append, List.take_append_drop]
  exact perm.mem_iff.mpr member

theorem rel_take_drop {related : Item → Item → Prop} {sorted : List Item}
    (ordered : sorted.Pairwise related) (n : Nat) :
    ∀ shown ∈ sorted.take n, ∀ rest ∈ sorted.drop n, related shown rest := by
  rw [← List.take_append_drop n sorted, List.pairwise_append] at ordered
  exact ordered.2.2

theorem subperm_take (n : Nat) {sorted : List Item} (perm : sorted.Perm items) :
    (sorted.take n).Subperm items :=
  (List.take_sublist n sorted).subperm.trans perm.subperm

theorem length_take (n : Nat) {sorted : List Item} (perm : sorted.Perm items) :
    (sorted.take n).length = min n items.length := by
  rw [List.length_take, perm.length_eq]

theorem top_take_descending (sorting : Sorting Item) (n : Nat) (items : List Item) :
    Top rank n items ((sorting.sort (fun first second => decide (rank second < rank first))
      items).take n) where
  from_items := subperm_take n (sorting.perm _ _)
  length := length_take n (sorting.perm _ _)
  ordered := by
    have sorted := sorting.sorted _ items (@strictWeak_greater Item Rank _ rank)
    refine (sorted.sublist (List.take_sublist _ _)).imp fun {first second} notAbove => ?_
    simpa using notAbove
  greatest item member absent other shown := by
    have sorted := sorting.sorted _ items (@strictWeak_greater Item Rank _ rank)
    have behind := (mem_take_or_drop n (sorting.perm _ _) member).resolve_left absent
    simpa using rel_take_drop sorted n other shown item behind

theorem top_take_ascending_iff (sorting : Sorting Item) {n : Nat} (some_ : 0 < n) (items : List Item) :
    Top rank n items ((sorting.sort (fun first second => decide (rank first < rank second)) items).take n) ↔
      ∀ first ∈ items, ∀ second ∈ items, rank first = rank second := by
  have perm := sorting.perm (fun first second => decide (rank first < rank second)) items
  have sorted := sorting.sorted _ items (@strictWeak_less Item Rank _ rank)
  generalize sorting.sort (fun first second => decide (rank first < rank second)) items = all at perm sorted
  have ascending : all.Pairwise fun first second => rank first ≤ rank second :=
    sorted.imp fun {first second} notBelow => by simpa using notBelow
  constructor
  · intro top
    cases all with
    | nil =>
      intro first member
      cases perm.mem_iff.mpr member
    | cons least rest =>
      obtain ⟨n, rfl⟩ := Nat.exists_eq_succ_of_ne_zero some_.ne'
      have shown : least ∈ (least :: rest).take (n + 1) := by
        rw [List.take_succ_cons]
        exact List.mem_cons_self
      have same : ∀ item ∈ items, rank item = rank least := by
        intro item member
        have above : rank least ≤ rank item := by
          rcases List.mem_cons.mp (perm.mem_iff.mpr member) with rfl | later
          · exact le_rfl
          · exact (List.pairwise_cons.mp ascending).1 item later
        refine le_antisymm ?_ above
        by_cases here : item ∈ (least :: rest).take (n + 1)
        · have ordered := top.ordered
          rw [List.take_succ_cons] at here ordered
          rcases List.mem_cons.mp here with rfl | later
          · exact le_rfl
          · exact (List.pairwise_cons.mp ordered).1 item later
        · exact top.greatest item member here least shown
      intro first isFirst second isSecond
      rw [same first isFirst, same second isSecond]
  · intro same
    have within : ∀ item ∈ all.take n, item ∈ items := fun item shown =>
      perm.mem_iff.mp (List.mem_of_mem_take shown)
    refine ⟨subperm_take n perm, length_take n perm, ?_, ?_⟩
    · refine List.pairwise_iff_forall_sublist.mpr fun {first second} both => ?_
      have isFirst := within first (both.subset (by simp))
      have isSecond := within second (both.subset (by simp))
      exact (same second isSecond first isFirst).le
    · intro item member _ other shown
      exact (same item member other (within other shown)).le

end Ranking
