import OpenSpeedShop.Library.Word64
import Mathlib.Order.MinMax

/-!
Half-closed intervals and the extents (a time interval paired with an address
range) that the framework indexes performance data by.
-/

namespace OpenSpeedShop

abbrev Time := UInt64

abbrev Address := UInt64

/-- Half-closed interval `[dmBegin, dmEnd)`. Nothing keeps `dmBegin` below
`dmEnd`: the constructor from one value wraps around at the highest value. -/
structure Interval (Value : Type) where
  dmBegin : Value
  dmEnd : Value
deriving DecidableEq, Inhabited

abbrev TimeInterval := Interval Time

abbrev AddressRange := Interval Address

namespace Interval

section

variable {Value : Type} [LinearOrder Value]

def make? (dmBegin dmEnd : Value) : Option (Interval Value) :=
  if dmBegin < dmEnd then some ⟨dmBegin, dmEnd⟩ else none

def isEmpty (self : Interval Value) : Bool :=
  decide (self.dmBegin = self.dmEnd)

def inter (self other : Interval Value) : Interval Value :=
  let dmBegin := if self.dmBegin < other.dmBegin then other.dmBegin else self.dmBegin
  let dmEnd := if self.dmEnd > other.dmEnd then other.dmEnd else self.dmEnd
  ⟨if dmEnd < dmBegin then dmEnd else dmBegin, dmEnd⟩

def union (self other : Interval Value) : Interval Value :=
  if other.isEmpty then self
  else if self.isEmpty then other
  else
    ⟨if self.dmBegin > other.dmBegin then other.dmBegin else self.dmBegin,
      if self.dmEnd < other.dmEnd then other.dmEnd else self.dmEnd⟩

def doesContain (self : Interval Value) (value : Value) : Bool :=
  decide (value ≥ self.dmBegin ∧ value < self.dmEnd)

def doesIntersect (self range : Interval Value) : Bool :=
  !(self.inter range).isEmpty

theorem make?_eq_some {dmBegin dmEnd : Value} {range : Interval Value} :
    make? dmBegin dmEnd = some range ↔ dmBegin < dmEnd ∧ range = ⟨dmBegin, dmEnd⟩ := by
  unfold make?
  split
  · rename_i ordered
    simp [ordered, eq_comm]
  · rename_i unordered
    simp [unordered]

@[simp] theorem isEmpty_iff (self : Interval Value) : self.isEmpty = true ↔ self.dmBegin = self.dmEnd := by
  simp [isEmpty]

@[simp] theorem doesContain_iff (self : Interval Value) (value : Value) :
    self.doesContain value = true ↔ self.dmBegin ≤ value ∧ value < self.dmEnd := by
  simp [doesContain]

theorem inter_dmEnd (self other : Interval Value) : (self.inter other).dmEnd = min self.dmEnd other.dmEnd := by
  simp only [inter, gt_iff_lt]
  split
  · rename_i above
    exact (min_eq_right above.le).symm
  · rename_i below
    exact (min_eq_left (not_lt.mp below)).symm

theorem inter_dmBegin (self other : Interval Value) :
    (self.inter other).dmBegin = min (min self.dmEnd other.dmEnd) (max self.dmBegin other.dmBegin) := by
  have latest : (if self.dmBegin < other.dmBegin then other.dmBegin else self.dmBegin) =
      max self.dmBegin other.dmBegin := by
    split
    · rename_i below
      exact (max_eq_right below.le).symm
    · rename_i above
      exact (max_eq_left (not_lt.mp above)).symm
  have earliest : (if self.dmEnd > other.dmEnd then other.dmEnd else self.dmEnd) =
      min self.dmEnd other.dmEnd := inter_dmEnd self other
  simp only [inter, latest, earliest]
  split
  · rename_i crossed
    exact (min_eq_left crossed.le).symm
  · rename_i ordered
    exact (min_eq_right (not_lt.mp ordered)).symm

theorem doesIntersect_iff (self range : Interval Value) :
    self.doesIntersect range = true ↔ max self.dmBegin range.dmBegin < min self.dmEnd range.dmEnd := by
  simp only [doesIntersect, Bool.not_eq_true', Bool.eq_false_iff, ne_eq, isEmpty_iff,
    inter_dmBegin, inter_dmEnd, min_eq_left_iff, not_le]

theorem doesIntersect_comm (self range : Interval Value) :
    self.doesIntersect range = range.doesIntersect self := by
  rw [Bool.eq_iff_iff, doesIntersect_iff, doesIntersect_iff, max_comm, min_comm]

def Covers (bounds self : Interval Value) : Prop :=
  ∀ range, self.doesIntersect range = true → bounds.doesIntersect range = true

theorem Covers.refl (self : Interval Value) : Covers self self :=
  fun _ meets => meets

theorem not_doesIntersect_of_isEmpty {self : Interval Value} (empty : self.isEmpty = true)
    (range : Interval Value) : self.doesIntersect range = false := by
  rw [Bool.eq_false_iff, ne_eq, doesIntersect_iff]
  rw [isEmpty_iff] at empty
  intro meets
  have later := lt_of_le_of_lt (le_max_left _ _) (lt_of_lt_of_le meets (min_le_left _ _))
  exact absurd empty (ne_of_lt later)

theorem covers_of_bounds {bounds self : Interval Value}
    (begins : bounds.dmBegin ≤ self.dmBegin) (ends : self.dmEnd ≤ bounds.dmEnd) : Covers bounds self := by
  intro range meets
  rw [doesIntersect_iff] at meets ⊢
  calc max bounds.dmBegin range.dmBegin ≤ max self.dmBegin range.dmBegin :=
        max_le_max_right _ begins
    _ < min self.dmEnd range.dmEnd := meets
    _ ≤ min bounds.dmEnd range.dmEnd := min_le_min_right _ ends

theorem union_covers_left (self other : Interval Value) : Covers (self.union other) self := by
  unfold union
  split
  · exact Covers.refl self
  · split
    · rename_i empty
      intro range meets
      rw [not_doesIntersect_of_isEmpty empty] at meets
      contradiction
    · apply covers_of_bounds
      · simp only [gt_iff_lt]
        split
        · rename_i below
          exact below.le
        · exact le_rfl
      · dsimp only
        split
        · rename_i below
          exact below.le
        · exact le_rfl

theorem union_covers_right (self other : Interval Value) : Covers (self.union other) other := by
  unfold union
  split
  · rename_i empty
    intro range meets
    rw [not_doesIntersect_of_isEmpty empty] at meets
    contradiction
  · split
    · exact Covers.refl other
    · apply covers_of_bounds
      · simp only [gt_iff_lt]
        split
        · exact le_rfl
        · rename_i notBelow
          exact not_lt.mp notBelow
      · dsimp only
        split
        · exact le_rfl
        · rename_i notBelow
          exact not_lt.mp notBelow

theorem union_of_isEmpty {self : Interval Value} (empty : self.isEmpty = true)
    (other : Interval Value) : Covers other (self.union other) := by
  unfold union
  split
  · intro range meets
    rw [not_doesIntersect_of_isEmpty empty] at meets
    contradiction
  · exact Covers.refl other

end

def getWidth (self : Interval UInt64) : UInt64 := self.dmEnd - self.dmBegin

end Interval

structure Extent where
  dmInterval : TimeInterval
  dmRange : AddressRange
deriving DecidableEq, Inhabited

namespace Extent

def inter (self other : Extent) : Extent :=
  ⟨self.dmInterval.inter other.dmInterval, self.dmRange.inter other.dmRange⟩

def union (self other : Extent) : Extent :=
  ⟨self.dmInterval.union other.dmInterval, self.dmRange.union other.dmRange⟩

def isEmpty (self : Extent) : Bool := self.dmInterval.isEmpty || self.dmRange.isEmpty

def doesIntersect (self extent : Extent) : Bool := !(self.inter extent).isEmpty

theorem doesIntersect_eq (self extent : Extent) : self.doesIntersect extent =
      (self.dmInterval.doesIntersect extent.dmInterval && self.dmRange.doesIntersect extent.dmRange) := by
  simp only [doesIntersect, isEmpty, inter, Interval.doesIntersect, Bool.not_or]

theorem doesIntersect_comm (self extent : Extent) : self.doesIntersect extent = extent.doesIntersect self := by
  rw [doesIntersect_eq, doesIntersect_eq, self.dmInterval.doesIntersect_comm, self.dmRange.doesIntersect_comm]

def Covers (bounds self : Extent) : Prop :=
  ∀ extent, self.doesIntersect extent = true → bounds.doesIntersect extent = true

theorem Covers.refl (self : Extent) : Covers self self :=
  fun _ meets => meets

theorem Covers.trans {outer middle inner : Extent}
    (first : Covers outer middle) (second : Covers middle inner) : Covers outer inner :=
  fun extent meets => first extent (second extent meets)

theorem covers_of_components {bounds self : Extent} (interval : bounds.dmInterval.Covers self.dmInterval)
    (range : bounds.dmRange.Covers self.dmRange) : Covers bounds self := by
  intro extent meets
  rw [doesIntersect_eq, Bool.and_eq_true] at meets ⊢
  exact ⟨interval _ meets.1, range _ meets.2⟩

theorem union_covers_left (self other : Extent) : Covers (self.union other) self :=
  covers_of_components (Interval.union_covers_left _ _) (Interval.union_covers_left _ _)

theorem union_covers_right (self other : Extent) : Covers (self.union other) other :=
  covers_of_components (Interval.union_covers_right _ _) (Interval.union_covers_right _ _)

theorem default_union_covered (other : Extent) : Covers other ((default : Extent).union other) :=
  covers_of_components (Interval.union_of_isEmpty rfl _) (Interval.union_of_isEmpty rfl _)

end Extent

end OpenSpeedShop
