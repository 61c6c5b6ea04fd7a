import OpenSpeedShop.Framework.AddressBitmap
import OpenSpeedShop.Framework.CompressDatabaseCore

/-!
The first address range of a function: the query selects three columns, of which
the loop asks for the second, the third and a fourth one.
-/

namespace OpenSpeedShop

open Fallible

namespace Function

theorem getResultAsBlob_missing (row : RangeRow) :
    Database.getResultAsBlob (rangeColumns row) 4 = .error .assertion := by
  have short : (rangeColumns row).length < 4 := by
    simp [rangeColumns]
  simp only [Database.getResultAsBlob, Database.resultColumn_of_length_lt short, error_bind]

section

variable (databases : DatabasePtr → SymbolTables) (function : Entry)

def storedRanges : List RangeRow :=
  (rangesOf (databases function.dmDatabase).functions function.dmEntry).map Prod.snd

def Covers (address : Address) : Prop :=
  ∃ row ∈ storedRanges databases function, ∃ bitmap, row.bitmap = .ok bitmap ∧ bitmap.Holds true address

structure FirstRun (member : Address → Prop) (range : AddressRange) : Prop where
  ordered : range.dmBegin < range.dmEnd
  inside : ∀ address, range.doesContain address → member address
  first : ∀ address, member address → range.dmBegin ≤ address
  ended : ¬ member range.dmEnd

def ReturnsFirst : Prop :=
  ∃ range, getAddressRange databases function = .ok range ∧
    ((∃ address, Covers databases function address) → FirstRun (Covers databases function) range) ∧
    ((∀ address, ¬ Covers databases function address) → range.isEmpty = true)

variable {databases function}

theorem storedRanges_of_getAddressRange {range : AddressRange}
    (returned : getAddressRange databases function = .ok range) : storedRanges databases function = [] := by
  unfold storedRanges
  cases rows : rangesOf (databases function.dmDatabase).functions function.dmEntry with
  | nil => rfl
  | cons row rest =>
    simp only [getAddressRange, rows, List.foldlM_cons, bind_eq_ok] at returned
    obtain ⟨_, ⟨_, ⟨_, _, _, _, _, _, _, asked, _⟩, _⟩, _⟩ := returned
    rw [getResultAsBlob_missing] at asked
    cases asked

theorem getAddressRange_of_nil (none : storedRanges databases function = []) :
    getAddressRange databases function = .ok default := by
  have rows := List.map_eq_nil_iff.mp none
  simp only [getAddressRange, rows, List.foldlM_nil]
  rfl

/-- The first range is returned for the functions only that have no range. -/
theorem getAddressRange_first_iff :
    ReturnsFirst databases function ↔ storedRanges databases function = [] := by
  constructor
  · rintro ⟨range, returned, -, -⟩
    exact storedRanges_of_getAddressRange returned
  · intro none
    refine ⟨default, getAddressRange_of_nil none, ?_, fun _ => rfl⟩
    rintro ⟨address, row, member, -⟩
    rw [none] at member
    cases member

end

def sixteenAddresses : SymbolTables where
  addressSpaces := []
  functions := ⟨[⟨1, 1, "main"⟩], [⟨1, OffsetBinary.encode 0, OffsetBinary.encode 16, [0xff, 0xff]⟩]⟩
  loops := ⟨[], []⟩
  files := []
  statements := ⟨[], []⟩

theorem getAddressRange_sixteenAddresses : ¬ ReturnsFirst (fun _ => sixteenAddresses) ⟨1, 1⟩ := by
  rw [getAddressRange_first_iff]
  decide

end Function

end OpenSpeedShop
