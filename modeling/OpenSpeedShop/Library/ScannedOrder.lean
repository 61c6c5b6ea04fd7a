import Mathlib.Data.List.Lex
import Mathlib.Data.List.Zip
import Mathlib.Order.Lattice

/-!
Comparing sequences by a scan that stops at the first place where the one is less, not where it is
greater: the lexicographic order on those decided where they first differ.
-/

namespace ScannedOrder

variable {Key : Type*} [LinearOrder Key]

def difference (first second : List Key) : List (Key × Key) :=
  (first.zip second).dropWhile fun pair => pair.1 = pair.2

def SomeLess (first second : List Key) : Prop := ∃ pair ∈ first.zip second, pair.1 < pair.2

def Scanned (first second : List Key) : Prop :=
  SomeLess first second ∨ first.length < second.length

/-- Behind a first difference that is greater there is no place that is less, and
the sequence is not the shorter one. -/
def DecidedFirst (first second : List Key) : Prop :=
  match difference first second with
  | [] => True
  | (own, other) :: later => other < own → (∀ pair ∈ later, ¬ pair.1 < pair.2) ∧ second.length ≤ first.length

theorem someLess_map {Item : Type*} (rank : Item → Key) (first second : List Item) :
    SomeLess (first.map rank) (second.map rank) ↔ ∃ pair ∈ first.zip second, rank pair.1 < rank pair.2 := by
  unfold SomeLess
  rw [List.zip_map]
  constructor
  · rintro ⟨_, member, less⟩
    obtain ⟨pair, inside, rfl⟩ := List.mem_map.mp member
    exact ⟨pair, inside, less⟩
  · rintro ⟨pair, inside, less⟩
    exact ⟨_, List.mem_map_of_mem inside, less⟩

theorem someLess_map_swap {Item : Type*} (rank : Item → Key) (first second : List Item) :
    SomeLess (second.map rank) (first.map rank) ↔ ∃ pair ∈ first.zip second, rank pair.2 < rank pair.1 := by
  rw [someLess_map]
  constructor
  · rintro ⟨pair, member, less⟩
    exact ⟨pair.swap, List.zip_swap .. ▸ List.mem_map_of_mem member, less⟩
  · rintro ⟨pair, member, less⟩
    exact ⟨pair.swap, List.zip_swap .. ▸ List.mem_map_of_mem member, less⟩

theorem lt_iff_difference (first second : List Key) : first < second ↔ match difference first second with
    | [] => first.length < second.length
    | (own, other) :: _ => own < other := by
  induction first generalizing second with
  | nil => cases second <;> simp [difference]
  | cons own rest ih =>
    cases second with
    | nil => simp [difference]
    | cons other more =>
      rw [List.cons_lt_cons_iff]
      by_cases same : own = other
      · simpa [difference, same] using ih more
      · simp [difference, same]

theorem ne_of_difference {first second : List Key} {own other : Key} {later : List (Key × Key)}
    (starts : difference first second = (own, other) :: later) : own ≠ other := by
  have head := List.head?_dropWhile_not (fun pair : Key × Key => decide (pair.1 = pair.2)) (first.zip second)
  rw [← difference, starts] at head
  exact of_decide_eq_false head

theorem someLess_iff_difference (first second : List Key) :
    SomeLess first second ↔ ∃ pair ∈ difference first second, pair.1 < pair.2 := by
  induction first generalizing second with
  | nil => simp [SomeLess, difference]
  | cons own rest ih =>
    cases second with
    | nil => simp [SomeLess, difference]
    | cons other more =>
      by_cases same : own = other
      · simpa [SomeLess, difference, same] using ih more
      · simp [SomeLess, difference, same]

theorem scanned_iff_lt (first second : List Key) :
    (Scanned first second ↔ first < second) ↔ DecidedFirst first second := by
  rw [Scanned, someLess_iff_difference, lt_iff_difference, DecidedFirst]
  cases starts : difference first second with
  | nil => simp
  | cons pair later =>
    obtain ⟨own, other⟩ := pair
    dsimp only
    constructor
    · intro agrees greater
      have notLess : ¬ own < other := greater.not_gt
      rw [iff_false_right notLess, not_or] at agrees
      refine ⟨fun pair member less => agrees.1 ?_, Nat.le_of_not_lt agrees.2⟩
      exact ⟨pair, List.mem_cons_of_mem _ member, less⟩
    · intro decided
      refine ⟨fun scanned => ?_, fun less => .inl ⟨_, List.mem_cons_self, less⟩⟩
      rcases lt_or_gt_of_ne (ne_of_difference starts) with less | greater
      · exact less
      · obtain ⟨none, long⟩ := decided greater
        rcases scanned with ⟨pair, member, less⟩ | shorter
        · rcases List.mem_cons.mp member with rfl | behind
          · exact less
          · exact absurd less (none pair behind)
        · omega

end ScannedOrder
