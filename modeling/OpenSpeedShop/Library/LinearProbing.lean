import Mathlib.Combinatorics.Pigeonhole

/-!
Linear probing: keys are kept in a circle of buckets, each of them in the first
free bucket from its home on.
-/

namespace LinearProbing

/-- `while(!stop(bucket)) bucket = (bucket + 1) % size;` -/
def scan (size : Nat) (stop : Nat → Bool) : (fuel bucket : Nat) → Option Nat
  | 0, _ => none
  | fuel + 1, bucket =>
    if stop bucket then some bucket else scan size stop fuel ((bucket + 1) % size)

section

variable {size : Nat} {stop : Nat → Bool}

variable {fuel : Nat}

theorem scan_stops : ∀ {bucket place : Nat}, scan size stop fuel bucket = some place → stop place = true := by
  induction fuel with
  | zero =>
    intro bucket place found
    cases found
  | succ fuel ih =>
    intro bucket place found
    rw [scan] at found
    split at found
    · rename_i stopped
      exact Option.some.inj found ▸ stopped
    · exact ih found

theorem scan_lt : ∀ {bucket place : Nat}, bucket < size →
    scan size stop fuel bucket = some place → place < size := by
  induction fuel with
  | zero =>
    intro bucket place _ found
    cases found
  | succ fuel ih =>
    intro bucket place inside found
    rw [scan] at found
    split at found
    · exact Option.some.inj found ▸ inside
    · exact ih (Nat.mod_lt _ (by omega)) found

theorem scan_eq_none : ∀ {bucket : Nat}, scan size stop fuel bucket = none →
    bucket < size → ∀ distance < fuel, stop ((bucket + distance) % size) = false := by
  induction fuel with
  | zero =>
    intro bucket _ _ distance within
    omega
  | succ fuel ih =>
    intro bucket failed inside distance within
    rw [scan] at failed
    split at failed
    · cases failed
    · rename_i goesOn
      cases distance with
      | zero => simpa [Nat.mod_eq_of_lt inside] using goesOn
      | succ distance =>
        have later := ih failed (Nat.mod_lt _ (by omega)) distance (by omega)
        rwa [Nat.mod_add_mod, Nat.add_assoc, Nat.add_comm 1] at later

theorem scan_total {bucket : Nat} (inside : bucket < size) {place : Nat} (placeInside : place < size)
    (stops : stop place = true) : ∃ found, scan size stop size bucket = some found := by
  by_contra failed
  have missed := scan_eq_none (Option.eq_none_iff_forall_ne_some.mpr (not_exists.mp failed)) inside
    ((place + size - bucket) % size) (Nat.mod_lt _ (by omega))
  have reached : (bucket + (place + size - bucket) % size) % size = place := by
    rw [Nat.add_mod_mod, Nat.add_sub_cancel' (by omega), Nat.add_mod_right, Nat.mod_eq_of_lt placeInside]
  rw [reached, stops] at missed
  cases missed

theorem scan_congr {stop' : Nat → Bool} (passed : ∀ bucket, stop bucket = false → stop' bucket = false)
    {place : Nat} (stops : stop' place = true) : ∀ {bucket : Nat},
    scan size stop fuel bucket = some place → scan size stop' fuel bucket = some place := by
  induction fuel with
  | zero =>
    intro bucket found
    cases found
  | succ fuel ih =>
    intro bucket found
    rw [scan] at found ⊢
    split at found
    · obtain rfl := Option.some.inj found
      rw [if_pos stops]
    · rename_i goesOn
      rw [if_neg (by simpa using passed bucket (by simpa using goesOn))]
      exact ih found

end

section

variable {Key : Type} [DecidableEq Key]

def stopsAt (table : Nat → Option Key) (key : Key) (bucket : Nat) : Bool :=
  table bucket = none || table bucket = some key

def find (size : Nat) (home : Key → Nat) (table : Nat → Option Key) (key : Key) : Option Nat :=
  scan size (stopsAt table key) size (home key)

def Placed (size : Nat) (home : Key → Nat) (table : Nat → Option Key) : Prop :=
  ∀ bucket key, table bucket = some key → find size home table key = some bucket

variable {size : Nat} {home : Key → Nat} {table : Nat → Option Key}

variable {key : Key} {place : Nat}

theorem find_stops (found : find size home table key = some place) :
    table place = none ∨ table place = some key := by
  simpa [stopsAt] using scan_stops found

theorem find_lt (inside : ∀ key, home key < size)
    (found : find size home table key = some place) : place < size :=
  scan_lt (inside key) found

theorem find_total (inside : ∀ key, home key < size) {free : Nat} (freeInside : free < size)
    (isFree : table free = none) (key : Key) : ∃ place, find size home table key = some place :=
  scan_total (inside key) freeInside (by simp [stopsAt, isFree])

theorem Placed.eq_of_same (placed : Placed size home table) {first second : Nat}
    (atFirst : table first = some key) (atSecond : table second = some key) : first = second :=
  Option.some.inj ((placed first key atFirst).symm.trans (placed second key atSecond))

theorem Placed.exists_free (placed : Placed size home table) {keys : Finset Key}
    (held : ∀ bucket key, table bucket = some key → key ∈ keys) (room : keys.card < size) :
    ∃ bucket < size, table bucket = none := by
  by_contra full
  have taken : ∀ bucket ∈ Finset.range size, table bucket ∈ keys.map Function.Embedding.some := by
    intro bucket inside
    cases holds : table bucket with
    | none => exact absurd ⟨bucket, Finset.mem_range.mp inside, holds⟩ full
    | some key => exact Finset.mem_map_of_mem _ (held bucket key holds)
  obtain ⟨first, firstInside, second, _, apart, same⟩ :=
    Finset.exists_ne_map_eq_of_card_lt_of_maps_to (by simpa using room) taken
  obtain ⟨key, _, holds⟩ := Finset.mem_map.mp (taken first firstInside)
  exact apart (placed.eq_of_same holds.symm (same.symm.trans holds.symm))

theorem Placed.update (placed : Placed size home table) (found : find size home table key = some place) :
    Placed size home (Function.update table place (some key)) := by
  have passed : ∀ other bucket, stopsAt table other bucket = false →
      stopsAt (Function.update table place (some key)) other bucket = false := by
    intro other bucket goesOn
    by_cases same : bucket = place
    · subst same
      rcases find_stops found with free | own
      · simp [stopsAt, free] at goesOn
      · rwa [stopsAt, Function.update_self, ← own]
    · rwa [stopsAt, Function.update_of_ne same]
  intro bucket other holds
  by_cases same : bucket = place
  · subst same
    rw [Function.update_self] at holds
    obtain rfl := Option.some.inj holds
    exact scan_congr (passed key) (by simp [stopsAt]) found
  · have before := holds
    rw [Function.update_of_ne same] at before
    exact scan_congr (passed other) (by simp [stopsAt, holds]) (placed bucket other before)

theorem placed_empty : Placed size home (fun _ => (none : Option Key)) := by
  intro bucket key holds
  cases holds

end

end LinearProbing
