import Mathlib.Data.List.Basic

/-!
The comparison of a list with the values of an array from some place on. A read behind
the array gives no result.
-/

namespace WindowCompare

variable {Value : Type} [DecidableEq Value] {size : Nat}

/-- `for(j = 0; j < n; j++) if(values[place + j] != wanted[j]) break; return j == n` -/
def compareAt (values : Vector Value size) : (place : Nat) → (wanted : List Value) → Option Bool
  | _, [] => some true
  | place, value :: rest => do
      let stored ← values[place]?
      if stored != value then return false else compareAt values (place + 1) rest

variable {values : Vector Value size} {place : Nat}

omit [DecidableEq Value] in
theorem drop_of_getElem?_none (read : values[place]? = none) : values.toList.drop place = [] := by
  simpa using read

omit [DecidableEq Value] in
theorem drop_of_getElem?_some {stored : Value} (read : values[place]? = some stored) :
    values.toList.drop place = stored :: values.toList.drop (place + 1) := by
  obtain ⟨inside, same⟩ := Vector.getElem?_eq_some_iff.mp read
  rw [List.drop_eq_getElem_cons (by simpa using inside), Vector.getElem_toList, same]

theorem compareAt_eq_true (values : Vector Value size) (wanted : List Value) :
    ∀ place, compareAt values place wanted = some true ↔ wanted <+: values.toList.drop place := by
  induction wanted with
  | nil => simp [compareAt]
  | cons value rest ih =>
    intro place
    rw [compareAt]
    cases read : values[place]? with
    | none => simp [drop_of_getElem?_none read]
    | some stored =>
      rw [drop_of_getElem?_some read, List.cons_prefix_cons, ← ih (place + 1)]
      by_cases agree : stored = value
      · simp [agree]
      · simp [agree, Ne.symm agree]

theorem compareAt_eq_none (values : Vector Value size) (wanted : List Value) :
    ∀ place, compareAt values place wanted = none ↔
      values.toList.drop place <+: wanted ∧ values.toList.drop place ≠ wanted := by
  induction wanted with
  | nil => simp [compareAt]
  | cons value rest ih =>
    intro place
    rw [compareAt]
    cases read : values[place]? with
    | none => simp [drop_of_getElem?_none read]
    | some stored =>
      rw [drop_of_getElem?_some read, List.cons_prefix_cons]
      by_cases agree : stored = value
      · simp [agree, ih]
      · simp [agree]

theorem compareAt_eq_false {wanted : List Value} : compareAt values place wanted = some false ↔
      ¬ wanted <+: values.toList.drop place ∧ ¬ values.toList.drop place <+: wanted := by
  have isTrue := compareAt_eq_true values wanted place
  have isNone := compareAt_eq_none values wanted place
  constructor
  · intro differs
    rw [differs] at isTrue isNone
    refine ⟨fun starts => by simpa using isTrue.mpr starts, fun ends => ?_⟩
    have apart : values.toList.drop place ≠ wanted := by
      intro same
      simpa using isTrue.mpr (same ▸ List.prefix_refl _)
    simpa using isNone.mpr ⟨ends, apart⟩
  · rintro ⟨starts, ends⟩
    cases compared : compareAt values place wanted with
    | none => exact absurd (isNone.mp compared).1 ends
    | some found =>
      cases found with
      | false => rfl
      | true => exact absurd (isTrue.mp compared) starts

end WindowCompare
