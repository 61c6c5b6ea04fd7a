import Mathlib.Data.List.Basic

/-!
Loops that go on in a list as long as the items satisfy a condition.
-/

namespace PlaceScan

variable {Item : Type} (passes : Item → Bool) (items : List Item)

def scan (place : Nat) : Nat := place + ((items.drop place).takeWhile passes).length

variable {passes items} {place m : Nat}

theorem le_scan : place ≤ scan passes items place := Nat.le_add_right _ _

theorem scan_le (inside : place ≤ items.length) : scan passes items place ≤ items.length := by
  have most := (List.takeWhile_sublist passes (l := items.drop place)).length_le
  rw [List.length_drop] at most
  unfold scan
  omega

theorem drop_scan : items.drop (scan passes items place) = (items.drop place).dropWhile passes := by
  have split := @List.takeWhile_append_dropWhile _ passes (items.drop place)
  rw [scan, ← List.drop_drop]
  exact (congrArg (List.drop _) split.symm).trans List.drop_left

theorem passes_of_lt (lower : place ≤ m) (upper : m < scan passes items place) :
    ∃ item, items[m]? = some item ∧ passes item = true := by
  have inside : m - place < ((items.drop place).takeWhile passes).length := by
    unfold scan at upper
    omega
  have among := List.takeWhile_prefix passes (l := items.drop place)
  refine ⟨_, ?_, List.all_eq_true.mp List.all_takeWhile _ (List.getElem_mem inside)⟩
  have same := List.getElem?_eq_getElem (Nat.lt_of_lt_of_le inside among.length_le)
  rw [← among.getElem inside, List.getElem?_drop, Nat.add_sub_cancel' lower] at same
  exact same

theorem not_passes {item : Item} (found : items[scan passes items place]? = some item) :
    passes item = false := by
  have first : (items.drop (scan passes items place)).head? = some item := by
    rw [List.head?_drop]
    exact found
  have stops := List.head?_dropWhile_not passes (items.drop place)
  rw [drop_scan] at first
  rw [first] at stops
  exact stops

theorem scan_of_not_passes {item : Item} (found : items[place]? = some item)
    (stops : passes item = false) : scan passes items place = place := by
  have first : items.drop place = item :: items.drop (place + 1) := by
    obtain ⟨inside, rfl⟩ := List.getElem?_eq_some_iff.mp found
    exact List.drop_eq_getElem_cons inside
  rw [scan, first, List.takeWhile_cons_of_neg (by simp [stops])]
  rfl

theorem scan_of_length_le (past : items.length ≤ place) : scan passes items place = place := by
  rw [scan, List.drop_of_length_le past]
  rfl

end PlaceScan
