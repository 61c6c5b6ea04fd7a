import Mathlib.Data.List.TakeWhile
import Mathlib.Order.Lattice

/-! A set whose keys are in order, and the places in it that searches find. -/

structure OrderedSet (Key : Type) [LinearOrder Key] where
  keys : List Key
  sorted : keys.Pairwise (· < ·)

namespace OrderedSet

variable {Key : Type} [LinearOrder Key]

def lowerBound (set : OrderedSet Key) (key : Key) : Nat :=
  (set.keys.takeWhile (· < key)).length

def upperBound (set : OrderedSet Key) (key : Key) : Nat :=
  (set.keys.takeWhile (· ≤ key)).length

def get? (set : OrderedSet Key) (place : Nat) : Option Key :=
  set.keys[place]?

def back (place : Nat) : Option Nat :=
  if place = 0 then none else some (place - 1)

variable {below : Key → Bool} {keys : List Key} {found : Key}

theorem first_above (sorted : keys.Pairwise (· < ·))
    (first : keys[(keys.takeWhile below).length]? = some found) :
    found ∈ keys ∧ below found = false ∧ ∀ key ∈ keys, below key = false → found ≤ key := by
  induction keys with
  | nil => simp at first
  | cons least rest ih =>
    obtain ⟨lowest, others⟩ := List.pairwise_cons.mp sorted
    by_cases early : below least = true
    · rw [List.takeWhile_cons_of_pos early, List.length_cons, List.getElem?_cons_succ] at first
      obtain ⟨member, above, smallest⟩ := ih others first
      refine ⟨List.mem_cons_of_mem _ member, above, List.forall_mem_cons.mpr ⟨?_, smallest⟩⟩
      exact fun late => absurd early (by simp [late])
    · rw [List.takeWhile_cons_of_neg early, List.length_nil, List.getElem?_cons_zero] at first
      obtain rfl := Option.some.inj first
      refine ⟨List.mem_cons_self, Bool.eq_false_iff.mpr early, List.forall_mem_cons.mpr ?_⟩
      exact ⟨fun _ => le_refl _, fun key member _ => (lowest key member).le⟩

omit [LinearOrder Key] in
theorem none_above (last : keys[(keys.takeWhile below).length]? = none) : ∀ key ∈ keys, below key = true := by
  have whole := (List.takeWhile_prefix below).eq_of_length_le (List.getElem?_eq_none_iff.mp last)
  intro key member
  rw [← whole] at member
  exact List.mem_takeWhile_imp member

def lastBelow (below : Key → Bool) (keys : List Key) : Option Key :=
  (back (keys.takeWhile below).length).bind fun place => keys[place]?

omit [LinearOrder Key] in
theorem lastBelow_cons (least : Key) (rest : List Key) : lastBelow below (least :: rest) =
      if below least = true then some ((lastBelow below rest).getD least) else none := by
  by_cases early : below least = true
  · rw [lastBelow, lastBelow, List.takeWhile_cons_of_pos early, if_pos early, List.length_cons]
    cases count : (rest.takeWhile below).length with
    | zero => rfl
    | succ place =>
      have shorter : (rest.takeWhile below).length ≤ rest.length :=
        (List.takeWhile_sublist _).length_le
      have inside : place < rest.length := by omega
      change (least :: rest)[place + 1]? = some ((rest[place]?).getD least)
      rw [List.getElem?_cons_succ, List.getElem?_eq_getElem inside]
      rfl
  · rw [lastBelow, List.takeWhile_cons_of_neg early, if_neg early]
    rfl

section

variable (down : ∀ {less key}, less < key → below key = true → below less = true)
include down

theorem none_below (sorted : keys.Pairwise (· < ·)) (none_ : lastBelow below keys = none) :
    ∀ key ∈ keys, below key = false := by
  cases keys with
  | nil => exact fun key member => absurd member List.not_mem_nil
  | cons least rest =>
    obtain ⟨lowest, -⟩ := List.pairwise_cons.mp sorted
    have late : below least = false := by
      cases early : below least with
      | false => rfl
      | true => simp [lastBelow_cons, early] at none_
    refine List.forall_mem_cons.mpr ⟨late, fun key member => Bool.eq_false_iff.mpr ?_⟩
    exact fun early => absurd (down (lowest key member) early) (by simp [late])

theorem last_below (sorted : keys.Pairwise (· < ·)) (last : lastBelow below keys = some found) :
    found ∈ keys ∧ below found = true ∧ ∀ key ∈ keys, below key = true → key ≤ found := by
  induction keys generalizing found with
  | nil => simp [lastBelow, back] at last
  | cons least rest ih =>
    obtain ⟨lowest, others⟩ := List.pairwise_cons.mp sorted
    rw [lastBelow_cons] at last
    split at last
    · next early =>
        cases later : lastBelow below rest with
        | none =>
          rw [later] at last
          obtain rfl := Option.some.inj last
          refine ⟨List.mem_cons_self, early, List.forall_mem_cons.mpr ⟨fun _ => le_refl _, ?_⟩⟩
          exact fun key member isBelow =>
            absurd isBelow (by simp [none_below down others later key member])
        | some best =>
          rw [later] at last
          obtain rfl := Option.some.inj last
          obtain ⟨member, isBelow, highest⟩ := ih others later
          refine ⟨List.mem_cons_of_mem _ member, isBelow, List.forall_mem_cons.mpr ?_⟩
          exact ⟨fun _ => (lowest _ member).le, highest⟩
    · cases last

end

end OrderedSet
