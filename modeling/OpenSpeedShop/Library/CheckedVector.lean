import Mathlib.Data.List.Basic
import Mathlib.Data.List.Induction

/-!
Vectors whose places are signed numbers, and that may only be read and written inside
their bounds.
-/

namespace CheckedVector

variable {Value : Type}

def get (vector : List Value) (place : Int) : Option Value :=
  if 0 ≤ place then vector[place.toNat]? else none

def set (vector : List Value) (place : Int) (value : Value) : Option (List Value) :=
  if 0 ≤ place ∧ place < vector.length then some (vector.set place.toNat value) else none

variable {place : Int}

variable {vector : List Value}

theorem get_negative (negative : place < 0) : get vector place = none := by
  rw [get, if_neg (by omega)]

theorem get_eq_some (lower : 0 ≤ place)
    (upper : place < vector.length) : ∃ value, get vector place = some value := by
  have inside : place.toNat < vector.length := by omega
  exact ⟨vector[place.toNat], by rw [get, if_pos lower, List.getElem?_eq_getElem inside]⟩

variable {value : Value}

theorem bounds_of_get (found : get vector place = some value) : 0 ≤ place ∧ place < vector.length := by
  rw [get] at found
  split at found
  · rename_i lower
    obtain ⟨inside, -⟩ := List.getElem?_eq_some_iff.mp found
    omega
  · cases found

theorem set_eq_some (lower : 0 ≤ place) (upper : place < vector.length) : set vector place value =
      some (vector.set place.toNat value) := by
  rw [set, if_pos ⟨lower, upper⟩]

theorem set_past (past : vector.length ≤ place) : set vector place value = none := by
  rw [set, if_neg (by omega)]

variable {vector written : List Value}

theorem length_of_set (wrote : set vector place value = some written) : written.length = vector.length := by
  rw [set] at wrote
  split at wrote
  · obtain rfl := Option.some.inj wrote
    exact List.length_set
  · cases wrote

theorem get_write_same (lower : 0 ≤ place) (upper : place < vector.length) :
    get (vector.set place.toNat value) place = some value := by
  have inside : place.toNat < vector.length := by omega
  rw [get, if_pos lower, List.getElem?_set_self inside]

theorem get_write_other {place other : Int} (lower : 0 ≤ place) (different : other ≠ place) :
    get (vector.set place.toNat value) other = get vector other := by
  unfold get
  by_cases sign : 0 ≤ other
  · have apart : place.toNat ≠ other.toNat := by omega
    rw [if_pos sign, if_pos sign, List.getElem?_set_ne apart]
  · rw [if_neg sign, if_neg sign]

theorem get_written_same (wrote : set vector place value = some written) : get written place = some value := by
  rw [set] at wrote
  split at wrote
  · rename_i bounds
    obtain rfl := Option.some.inj wrote
    exact get_write_same bounds.1 bounds.2
  · cases wrote

theorem get_written_other {place other : Int}
    (wrote : set vector place value = some written) (different : other ≠ place) :
    get written other = get vector other := by
  rw [set] at wrote
  split at wrote
  · rename_i bounds
    obtain rfl := Option.some.inj wrote
    exact get_write_other bounds.1 different
  · cases wrote

/-! A run over items, each of which writes one place of a vector, or none, or fails. -/

abbrev Entry (Value : Type) := Option (Int × Value)

def write (vector : List Value) : Entry Value → Option (List Value)
  | none => some vector
  | some (place, value) => set vector place value

variable {Item : Type} (entry : Item → Option (Entry Value))

def writeAll (items : List Item) (vector : List Value) : Option (List Value) :=
  items.foldlM (fun vector item => (entry item).bind (write vector)) vector

def valueAt (place : Int) (item : Item) : Option Value :=
  (entry item).join.bind fun written => if written.1 = place then some written.2 else none

theorem writeAll_append (first second : List Item) (vector : List Value) :
    writeAll entry (first ++ second) vector = (writeAll entry first vector).bind (writeAll entry second) := by
  unfold writeAll
  rw [List.foldlM_append]
  rfl

variable {items : List Item}

theorem writeAll_of_run {State : Type} {step : State → Item → Option State} {vector : State → List Value}
    (each : ∀ {state next : State} {item : Item}, step state item = some next →
      (entry item).bind (write (vector state)) = some (vector next)) :
    ∀ {state final : State}, items.foldlM step state = some final →
      writeAll entry items (vector state) = some (vector final) := by
  induction items with
  | nil =>
    intro state final run
    rw [← Option.some.inj run]
    rfl
  | cons first rest ih =>
    intro state final run
    rw [List.foldlM_cons] at run
    obtain ⟨middle, here, others⟩ := Option.bind_eq_some_iff.mp run
    rw [writeAll, List.foldlM_cons, each here]
    exact ih others

theorem length_of_write {found : Entry Value}
    (wrote : write vector found = some written) : written.length = vector.length := by
  cases found with
  | none => rw [← Option.some.inj wrote]
  | some found => exact length_of_set wrote

theorem length_of_writeAll : ∀ {vector written : List Value}, writeAll entry items vector = some written →
      written.length = vector.length := by
  induction items with
  | nil =>
    intro vector written run
    rw [← Option.some.inj run]
  | cons first rest ih =>
    intro vector written run
    rw [writeAll, List.foldlM_cons] at run
    obtain ⟨middle, wrote, others⟩ := Option.bind_eq_some_iff.mp run
    obtain ⟨found, -, wrote⟩ := Option.bind_eq_some_iff.mp wrote
    exact (ih others).trans (length_of_write wrote)

theorem entry_of_writeAll : ∀ {vector written : List Value}, writeAll entry items vector = some written →
      ∀ item ∈ items, ∃ found, entry item = some found := by
  induction items with
  | nil => simp
  | cons first rest ih =>
    intro vector written run item member
    rw [writeAll, List.foldlM_cons] at run
    obtain ⟨middle, wrote, others⟩ := Option.bind_eq_some_iff.mp run
    obtain ⟨found, made, -⟩ := Option.bind_eq_some_iff.mp wrote
    rcases List.mem_cons.mp member with rfl | later
    · exact ⟨found, made⟩
    · exact ih others item later

theorem get_after_write {item : Item} (place : Int)
    (wrote : (entry item).bind (write vector) = some written) :
    get written place = (valueAt entry place item).or (get vector place) := by
  obtain ⟨found, made, wrote⟩ := Option.bind_eq_some_iff.mp wrote
  rw [valueAt, made]
  cases found with
  | none =>
    obtain rfl := Option.some.inj wrote
    rfl
  | some found =>
    obtain ⟨other, value⟩ := found
    simp only [Option.join_some, Option.bind_some]
    split
    · rename_i same
      obtain rfl : other = place := same
      exact get_written_same wrote
    · rename_i different
      exact get_written_other wrote (Ne.symm different)

theorem get_after_writeAll (place : Int) (run : writeAll entry items vector = some written) :
    get written place = ((items.filterMap (valueAt entry place)).getLast?).or (get vector place) := by
  induction items using List.reverseRecOn generalizing written with
  | nil =>
    obtain rfl := Option.some.inj run
    rfl
  | append_singleton before item ih =>
    rw [writeAll_append] at run
    obtain ⟨middle, ran, last⟩ := Option.bind_eq_some_iff.mp run
    have wrote : (entry item).bind (write middle) = some written := by
      simpa [writeAll] using last
    rw [get_after_write entry place wrote, ih ran, List.filterMap_append]
    cases found : valueAt entry place item with
    | none => simp [found]
    | some value => simp [found]

end CheckedVector
