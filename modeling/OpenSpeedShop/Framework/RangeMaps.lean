import OpenSpeedShop.Framework.AddressBitmap

/-!
Maps whose keys are address ranges in the order "entirely before". Looked up by a
range they give an entry that overlaps it, and by an address the entry that has it.
-/

namespace OpenSpeedShop

open AddressRange (less less_eq_true)
open OrderedMap (upsert insert)

def AddressRange.ofValue (value : Address) : AddressRange := ⟨value, Address.addOffset value 1⟩

def AddressRange.Meets (self other : AddressRange) : Prop :=
  self.dmBegin < other.dmEnd ∧ other.dmBegin < self.dmEnd

instance (self other : AddressRange) : Decidable (AddressRange.Meets self other) :=
  inferInstanceAs (Decidable (_ ∧ _))

namespace RangeMap

variable {Value : Type} {entries : List (AddressRange × Value)} {range : AddressRange}

/-- The keys are in order, so that no two of them overlap. -/
structure Formed (entries : List (AddressRange × Value)) : Prop where
  sorted : OrderedMap.Sorted AddressRange.less entries
  nonempty : ∀ entry ∈ entries, entry.1.dmBegin < entry.1.dmEnd

theorem less_eq_false {first second : AddressRange} :
    less first second = false ↔ second.dmBegin < first.dmEnd := by
  rw [Bool.eq_false_iff, ne_eq, less_eq_true, not_le]

theorem formed_nil : Formed ([] : List (AddressRange × Value)) := ⟨List.Pairwise.nil, by simp⟩

variable {entry : AddressRange × Value} {rest : List (AddressRange × Value)}

theorem Formed.tail (formed : Formed (entry :: rest)) : Formed rest :=
  ⟨(List.pairwise_cons.mp formed.sorted).2, fun other member => formed.nonempty other (by simp [member])⟩

theorem Formed.before {entry other : AddressRange × Value}
    (formed : Formed (entry :: rest)) (member : other ∈ rest) : entry.1.dmEnd ≤ other.1.dmBegin :=
  less_eq_true.mp ((List.pairwise_cons.mp formed.sorted).1 other member)

theorem Formed.disjoint (formed : Formed entries) {first second : AddressRange × Value}
    (firstMember : first ∈ entries) (secondMember : second ∈ entries)
    (meets : first.1.Meets second.1) : first = second := by
  induction entries with
  | nil => cases firstMember
  | cons entry rest ih =>
    rcases List.mem_cons.mp firstMember with rfl | firstLater <;>
      rcases List.mem_cons.mp secondMember with rfl | secondLater
    · rfl
    · exact absurd meets.2 (not_lt.mpr (formed.before secondLater))
    · exact absurd meets.1 (not_lt.mpr (formed.before firstLater))
    · exact ih formed.tail firstLater secondLater

theorem find?_meets (found : OrderedMap.find? less range entries = some entry) :
    entry ∈ entries ∧ entry.1.Meets range := by
  obtain ⟨below, above⟩ := OrderedMap.find?_equivalent found
  exact ⟨OrderedMap.mem_of_find? found, less_eq_false.mp above, less_eq_false.mp below⟩

section

variable (formed : Formed entries)
include formed

theorem Formed.not_meets (missing : OrderedMap.find? less range entries = none) :
    ∀ entry ∈ entries, ¬ entry.1.Meets range := by
  induction entries with
  | nil => simp
  | cons first rest ih =>
    intro entry member meets
    rw [OrderedMap.find?] at missing
    split at missing
    next below =>
      rcases List.mem_cons.mp member with rfl | later
      · exact absurd meets.2 (not_lt.mpr (less_eq_true.mp below))
      · exact ih formed.tail missing entry later meets
    next =>
      split at missing
      next above =>
        have last := less_eq_true.mp above
        rcases List.mem_cons.mp member with rfl | later
        · exact absurd meets.1 (not_lt.mpr last)
        · have order := (formed.nonempty first (by simp)).le.trans (formed.before later)
          exact absurd meets.1 (not_lt.mpr (last.trans order))
      next => cases missing

theorem Formed.nodup : entries.Nodup := by
  refine List.Pairwise.imp_of_mem ?_ formed.sorted
  rintro first second member - before rfl
  exact absurd (less_eq_true.mp before) (not_le.mpr (formed.nonempty first member))

theorem Formed.sublist {few : List (AddressRange × Value)} (sublist : few.Sublist entries) : Formed few :=
  ⟨formed.sorted.sublist sublist, fun entry member => formed.nonempty entry (sublist.subset member)⟩

theorem Formed.find?_self (member : entry ∈ entries) :
    OrderedMap.find? less entry.1 entries = some entry := by
  have nonempty := formed.nonempty entry member
  cases found : OrderedMap.find? less entry.1 entries with
  | none => exact absurd ⟨nonempty, nonempty⟩ (formed.not_meets found entry member)
  | some other =>
    obtain ⟨present, meets⟩ := find?_meets found
    rw [formed.disjoint present member meets]

theorem Formed.find?_isSome_iff : (OrderedMap.find? less range entries).isSome = true ↔
      ∃ entry ∈ entries, entry.1.Meets range := by
  cases found : OrderedMap.find? less range entries with
  | none => simpa using formed.not_meets found
  | some entry =>
    obtain ⟨member, meets⟩ := find?_meets found
    exact ⟨fun _ => ⟨entry, member, meets⟩, fun _ => rfl⟩

theorem Formed.find?_eq_none_iff :
    OrderedMap.find? less range entries = none ↔ ∀ entry ∈ entries, ¬ entry.1.Meets range := by
  rw [← Option.not_isSome_iff_eq_none, formed.find?_isSome_iff]
  simp

end

theorem toNat_ofValue_dmEnd (value : Address) :
    (AddressRange.ofValue value).dmEnd.toNat = (value.toNat + 1) % 2 ^ 64 := by
  have one : (1 : Int64).toUInt64 = 1 := rfl
  rw [AddressRange.ofValue, Address.addOffset, one, UInt64.toNat_add, UInt64.toNat_one]

theorem meets_ofValue (value : Address) : range.Meets (AddressRange.ofValue value) ↔
    range.doesContain value = true := by
  have bound := value.toNat_lt
  have endBound := range.dmEnd.toNat_lt
  rw [AddressRange.Meets, Interval.doesContain_iff, UInt64.lt_iff_toNat_lt, toNat_ofValue_dmEnd,
    UInt64.lt_iff_toNat_lt, UInt64.le_iff_toNat_le, UInt64.lt_iff_toNat_lt]
  have same : (AddressRange.ofValue value).dmBegin = value := rfl
  rw [same]
  omega

theorem Formed.find?_ofValue_iff (formed : Formed entries) {address : Address} :
    OrderedMap.find? less (AddressRange.ofValue address) entries = some entry ↔
      entry ∈ entries ∧ entry.1.doesContain address = true := by
  constructor
  · intro found
    obtain ⟨member, meets⟩ := find?_meets found
    exact ⟨member, (meets_ofValue address).mp meets⟩
  · rintro ⟨member, contains⟩
    cases found : OrderedMap.find? less (AddressRange.ofValue address) entries with
    | none => exact absurd ((meets_ofValue address).mpr contains) (formed.not_meets found entry member)
    | some other =>
      obtain ⟨otherMember, meets⟩ := find?_meets found
      have both := (Interval.doesContain_iff _ _).mp contains
      have otherBoth := (Interval.doesContain_iff _ _).mp ((meets_ofValue address).mp meets)
      rw [formed.disjoint otherMember member ⟨otherBoth.1.trans_lt both.2, both.1.trans_lt otherBoth.2⟩]

theorem Formed.irrefl (formed : Formed entries) : ∀ entry ∈ entries, less entry.1 entry.1 = false :=
  fun entry member => less_eq_false.mpr (formed.nonempty entry member)

section

variable (formed : Formed entries) (nonempty : range.dmBegin < range.dmEnd)
  (missing : OrderedMap.find? AddressRange.less range entries = none)
include formed nonempty missing

theorem Formed.upsert_missing (initial : Value) (change : Value → Value) :
    Formed (upsert less range initial change entries) ∧
      ∀ entry, entry ∈ upsert less range initial change entries ↔
        entry = (range, change initial) ∨ entry ∈ entries := by
  have passes : ∀ entry ∈ entries, ∀ other, less range entry.1 = true →
      less entry.1 other = true → less range other = true := by
    intro entry member other below above
    rw [less_eq_true] at below above ⊢
    exact below.trans ((formed.nonempty entry member).le.trans above)
  obtain ⟨sorted, members, -⟩ := formed.sorted.upsert_missing passes missing
  refine ⟨⟨sorted, fun entry member => ?_⟩, members⟩
  rcases (members entry).mp member with rfl | old
  · exact nonempty
  · exact formed.nonempty entry old

theorem Formed.insert (value : Value) : Formed (OrderedMap.insert less range value entries) ∧
      ∀ entry, entry ∈ OrderedMap.insert less range value entries ↔
        entry = (range, value) ∨ entry ∈ entries :=
  formed.upsert_missing nonempty missing value id

end

theorem Formed.upsert_found (formed : Formed entries)
    (found : OrderedMap.find? less range entries = some entry)
    (initial : Value) (change : Value → Value) : Formed (upsert less range initial change entries) ∧
      ∀ other, other ∈ upsert less range initial change entries ↔
        other = (entry.1, change entry.2) ∨ (other ∈ entries ∧ other ≠ entry) := by
  obtain ⟨sorted, members⟩ := formed.sorted.upsert_found formed.irrefl found
  refine ⟨⟨sorted, fun other member => ?_⟩, members⟩
  rcases (members other).mp member with rfl | ⟨old, -⟩
  · exact formed.nonempty entry (OrderedMap.mem_of_find? found)
  · exact formed.nonempty other old

end RangeMap

end OpenSpeedShop
