import Mathlib.Data.List.Basic

/-! Lists of closed ranges of integers, built by appending one value after the other. -/

namespace IntRanges

def Within (ranges : List (Int × Int)) (value : Int) : Prop :=
  ∃ range ∈ ranges, range.1 ≤ value ∧ value ≤ range.2

def setLastEnd (next : Int) : List (Int × Int) → List (Int × Int)
  | [] => []
  | [range] => [(range.1, next)]
  | range :: rest => range :: setLastEnd next rest

/-- Extends the last range by the value that follows its end, and begins a new one for any other
value. -/
def append (ranges : List (Int × Int)) (last next : Int) : List (Int × Int) :=
  if next = last + 1 then setLastEnd next ranges else ranges ++ [(next, next)]

structure Covers (ranges : List (Int × Int)) (values : List Int) (last : Int) : Prop where
  within_iff : ∀ value, Within ranges value ↔ value ∈ values
  ends : ∃ before first, ranges = before ++ [(first, last)] ∧ first ≤ last

variable {ranges : List (Int × Int)} {values : List Int} {last : Int}

theorem Covers.nonempty (covers : Covers ranges values last) : ranges ≠ [] := by
  obtain ⟨before, first, rfl, _⟩ := covers.ends
  simp

theorem covers_single (value : Int) : Covers [(value, value)] [value] value where
  within_iff other := by
    simp only [Within, List.mem_singleton, exists_eq_left]
    omega
  ends := ⟨[], value, rfl, Int.le_refl value⟩

theorem setLastEnd_concat (next : Int) (before : List (Int × Int)) (range : Int × Int) :
    setLastEnd next (before ++ [range]) = before ++ [(range.1, next)] := by
  induction before with
  | nil => rfl
  | cons first rest ih =>
    cases rest with
    | nil => rfl
    | cons second rest => exact congrArg (first :: ·) ih

theorem within_concat {before : List (Int × Int)} {range : Int × Int} {value : Int} :
    Within (before ++ [range]) value ↔ Within before value ∨ (range.1 ≤ value ∧ value ≤ range.2) := by
  simp [Within, or_and_right, exists_or]

theorem Covers.append (covers : Covers ranges values last) (next : Int) :
    Covers (append ranges last next) (values ++ [next]) next := by
  obtain ⟨before, first, rfl, ordered⟩ := covers.ends
  unfold IntRanges.append
  split
  next follows =>
    rw [setLastEnd_concat]
    refine ⟨fun value => ?_, before, first, rfl, by omega⟩
    have old := covers.within_iff value
    rw [within_concat] at old ⊢
    rw [List.mem_append, ← old, List.mem_singleton, or_assoc]
    refine or_congr_right ?_
    simp only
    omega
  next =>
    refine ⟨fun value => ?_, before ++ [(first, last)], next, rfl, Int.le_refl next⟩
    rw [within_concat, covers.within_iff, List.mem_append, List.mem_singleton]
    refine or_congr_right ?_
    simp only
    omega

theorem Covers.again (covers : Covers ranges values last) : Covers ranges (values ++ [last]) last := by
  refine ⟨fun value => ?_, covers.ends⟩
  have mem : last ∈ values := by
    obtain ⟨before, first, rfl, ordered⟩ := covers.ends
    exact (covers.within_iff last).mp (within_concat.mpr (.inr ⟨ordered, Int.le_refl last⟩))
  rw [covers.within_iff, List.mem_append, List.mem_singleton]
  constructor
  · exact .inl
  · rintro (old | rfl)
    · exact old
    · exact mem

end IntRanges
