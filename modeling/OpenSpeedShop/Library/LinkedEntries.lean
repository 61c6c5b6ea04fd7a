import OpenSpeedShop.Library.LinearProbing

/-!
A list of entries with a hash table beside it: a bucket in use holds the number of
an entry, counted from one, and is found by the key of that entry.
-/

open Function (update update_self update_of_ne)

namespace LinearProbing

variable {Key : Type} [DecidableEq Key]

def leadsTo (keys : List Key) (links : Nat → Nat) (bucket : Nat) : Option Key :=
  if links bucket = 0 then none else keys[links bucket - 1]?

structure Linked (size : Nat) (home : Key → Nat) (keys : List Key) (links : Nat → Nat) : Prop where
  inRange : ∀ bucket, links bucket ≤ keys.length
  placed : Placed size home (leadsTo keys links)

variable {size : Nat} {home : Key → Nat} {keys : List Key} {links : Nat → Nat}

theorem linked_nil : Linked size home ([] : List Key) (fun _ => 0) where
  inRange _ := le_rfl
  placed bucket key holds := by
    rw [leadsTo, if_pos rfl] at holds
    cases holds

section

variable (linked : Linked size home keys links)
include linked

theorem Linked.leads {bucket : Nat} (used : links bucket ≠ 0) :
    ∃ key, keys[links bucket - 1]? = some key ∧ leadsTo keys links bucket = some key := by
  have bound := linked.inRange bucket
  have inside : links bucket - 1 < keys.length := by omega
  refine ⟨keys[links bucket - 1], List.getElem?_eq_getElem inside, ?_⟩
  rw [leadsTo, if_neg used, List.getElem?_eq_getElem inside]

theorem Linked.free_iff {bucket : Nat} : leadsTo keys links bucket = none ↔ links bucket = 0 := by
  constructor
  · intro free
    by_contra used
    obtain ⟨key, _, leads⟩ := linked.leads used
    rw [leads] at free
    cases free
  · intro zero
    rw [leadsTo, if_pos zero]

theorem Linked.exists_free (room : keys.length < size) :
    ∃ bucket < size, leadsTo keys links bucket = none := by
  have held : ∀ bucket key, leadsTo keys links bucket = some key → key ∈ keys.toFinset := by
    intro bucket key holds
    rw [leadsTo] at holds
    split at holds
    · cases holds
    · exact List.mem_toFinset.mpr (List.mem_of_getElem? holds)
  exact linked.placed.exists_free held (Nat.lt_of_le_of_lt keys.toFinset_card_le room)

theorem Linked.find_total (room : keys.length < size) (inside : ∀ key, home key < size) (key : Key) :
    ∃ bucket < size, find size home (leadsTo keys links) key = some bucket := by
  obtain ⟨free, freeInside, isFree⟩ := linked.exists_free room
  obtain ⟨bucket, found⟩ := LinearProbing.find_total inside freeInside isFree key
  exact ⟨bucket, find_lt inside found, found⟩

theorem Linked.found_entry {key : Key} {bucket : Nat}
    (found : find size home (leadsTo keys links) key = some bucket) (used : links bucket ≠ 0) :
    keys[links bucket - 1]? = some key := by
  obtain ⟨other, held, leads⟩ := linked.leads used
  rcases find_stops found with free | own
  · rw [leads] at free
    cases free
  · rw [leads] at own
    exact held.trans own

theorem Linked.append {key : Key} {bucket : Nat}
    (found : find size home (leadsTo keys links) key = some bucket) :
    Linked size home (keys ++ [key]) (update links bucket (keys.length + 1)) where
  inRange other := by
    rw [List.length_append, List.length_singleton]
    by_cases same : other = bucket
    · rw [same, update_self]
    · rw [update_of_ne same]
      exact (linked.inRange other).trans (Nat.le_succ _)
  placed := by
    have leads : leadsTo (keys ++ [key]) (update links bucket (keys.length + 1)) =
        update (leadsTo keys links) bucket (some key) := by
      funext other
      by_cases same : other = bucket
      · rw [same, update_self, leadsTo, update_self]
        simp
      · rw [update_of_ne same, leadsTo, leadsTo, update_of_ne same]
        split
        · rfl
        · have bound := linked.inRange other
          rw [List.getElem?_append_left (by omega)]
    rw [leads]
    exact linked.placed.update found

end

end LinearProbing
