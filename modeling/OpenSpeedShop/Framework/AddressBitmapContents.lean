import OpenSpeedShop.Framework.AddressBitmap

/-!
When a bitmap survives being stored as a blob, which bytes of a blob the decoder
reads, and that the contiguous ranges of a bitmap are its maximal runs.
-/

namespace OpenSpeedShop

open Fallible

namespace AddressBitmap

theorem getBlob_ne_ok {bitmap : AddressBitmap} (wide : 2 ^ 32 ≤ bitmap.dmRange.getWidth.toNat)
    (blob : List UInt8) : bitmap.getBlob ≠ .ok blob := by
  intro written
  simp only [getBlob, bind_eq_ok] at written
  obtain ⟨indices, counted, -⟩ := written
  have narrow := (counter_eq_ok counted).1
  omega

/-- The blob of a bitmap gives the bitmap back exactly when its counter of 32 bits
reaches the width. -/
theorem blob_roundTrip_iff {bitmap : AddressBitmap}
    (nonempty : bitmap.dmRange.dmBegin < bitmap.dmRange.dmEnd) :
    (∃ blob decoded, bitmap.getBlob = .ok blob ∧ ofBlob bitmap.dmRange blob = .ok decoded ∧
      ∀ address, bitmap.dmRange.doesContain address = true →
        decoded.getValue address = bitmap.getValue address) ↔
    bitmap.dmRange.getWidth.toNat < 2 ^ 32 := by
  constructor
  · rintro ⟨blob, _, written, -⟩
    by_contra wide
    exact getBlob_ne_ok (not_lt.mp wide) blob written
  · intro narrow
    have positive : 0 < bitmap.dmRange.getWidth.toNat := by
      rw [AddressRange.toNat_getWidth nonempty.le]
      rw [UInt64.lt_iff_toNat_lt] at nonempty
      omega
    obtain ⟨blob, written, read⟩ := ofBlob_getBlob positive narrow
    exact ⟨blob, bitmap, written, read, fun _ _ => rfl⟩

def elevenBits : AddressBitmap :=
  ⟨⟨4096, 4107⟩, ⟨#[true, false, false, false, false, false, false, false, false, false, true], rfl⟩⟩

theorem blob_roundTrip_elevenBits :
    ∃ blob decoded, elevenBits.getBlob = .ok blob ∧ ofBlob elevenBits.dmRange blob = .ok decoded ∧
      ∀ address, elevenBits.dmRange.doesContain address = true →
        decoded.getValue address = elevenBits.getValue address :=
  (@blob_roundTrip_iff elevenBits (by decide)).mpr (by decide)

theorem fourGibibytes_endless :
    (⟨0, 0x100000000⟩ : AddressRange).dmBegin < (⟨0, 0x100000000⟩ : AddressRange).dmEnd ∧
      ∀ blob, (ofRange ⟨0, 0x100000000⟩).getBlob ≠ .ok blob :=
  ⟨by decide, getBlob_ne_ok (by simp only [ofRange]; decide)⟩

def counterAfter : (rounds : Nat) → UInt32
  | 0 => 0
  | rounds + 1 => counterAfter rounds + 1

/-- `contents[i / 8]` is read in a round before which the loop has not ended. -/
def ReadsByte (range : AddressRange) (place : Nat) : Prop :=
  ∃ rounds, (∀ earlier ≤ rounds, (counterAfter earlier).toUInt64 < range.getWidth) ∧
    place = (counterAfter rounds).toNat / 8

theorem toNat_counterAfter (rounds : Nat) : (counterAfter rounds).toNat = rounds % 2 ^ 32 := by
  induction rounds with
  | zero => rfl
  | succ rounds ih =>
    rw [counterAfter, UInt32.toNat_add, ih, UInt32.toNat_one]
    omega

theorem readsByte_iff {range : AddressRange} {place : Nat} :
    ReadsByte range place ↔ ∃ i < min range.getWidth.toNat (2 ^ 32), place = i / 8 := by
  simp only [ReadsByte, UInt64.lt_iff_toNat_lt, UInt32.toNat_toUInt64, toNat_counterAfter]
  constructor
  · rintro ⟨rounds, reached, rfl⟩
    have last := reached rounds (Nat.le_refl _)
    exact ⟨rounds % 2 ^ 32, by omega, rfl⟩
  · rintro ⟨i, inside, rfl⟩
    refine ⟨i, fun earlier before => ?_, ?_⟩
    · rw [Nat.mod_eq_of_lt (by omega)]
      omega
    · rw [Nat.mod_eq_of_lt (by omega)]

/-- Every byte that is read lies in the blob exactly when no bits are left over, or
the blob has a byte for them, or the counter never gets so far. -/
theorem readsByte_inside_iff {range : AddressRange} {blob : List UInt8}
    (asserted : range.getWidth.toNat / 8 ≤ blob.length) :
    (∀ place, ReadsByte range place → place < blob.length) ↔
      8 ∣ range.getWidth.toNat ∨ range.getWidth.toNat / 8 < blob.length ∨ 2 ^ 32 ≤ range.getWidth.toNat := by
  simp only [readsByte_iff]
  constructor
  · intro inside
    by_contra none
    simp only [not_or, not_lt, not_le] at none
    obtain ⟨remainder, short, narrow⟩ := none
    have last := inside (range.getWidth.toNat / 8) ⟨8 * (range.getWidth.toNat / 8), by omega, by omega⟩
    omega
  · rintro covered place ⟨i, inside, rfl⟩
    omega

theorem readsByte_inside_sixteen : ReadsByte ⟨4096, 4112⟩ 1 ∧
    ∀ place, ReadsByte ⟨4096, 4112⟩ place → place < ([0x55, 0x55] : List UInt8).length :=
  ⟨readsByte_iff.mpr ⟨8, by decide, rfl⟩,
    (@readsByte_inside_iff ⟨4096, 4112⟩ [0x55, 0x55] (by decide)).mpr (by decide)⟩

theorem emptyBlob_read : (⟨4096, 4100⟩ : AddressRange).getWidth.toNat / 8 ≤ ([] : List UInt8).length ∧
    ReadsByte ⟨4096, 4100⟩ 0 ∧ ¬ 0 < ([] : List UInt8).length ∧
    (ofBlob ⟨4096, 4100⟩ []).toOption.isNone = true :=
  ⟨by decide, readsByte_iff.mpr ⟨0, by decide, rfl⟩, by decide, by decide⟩

def Allocated (bitmap : AddressBitmap) : Prop := bitmap.dmRange.getWidth.toNat < 2 ^ 63

def Separated (ranges : List (AddressRange × Unit)) : Prop :=
  ranges.Pairwise fun first second => first.1.dmEnd < second.1.dmBegin

theorem Separated.snoc {ranges : List (AddressRange × Unit)} {last : AddressRange}
    (separated : Separated ranges) (before : ∀ entry ∈ ranges, entry.1.dmEnd < last.dmBegin) :
    Separated (OrderedMap.insert AddressRange.less last () ranges) := by
  have atEnd : OrderedMap.insert AddressRange.less last () ranges = ranges ++ [(last, ())] :=
    OrderedMap.insert_of_forall_less AddressRange.less fun entry member =>
      AddressRange.less_eq_true.mpr (before entry member).le
  rw [atEnd, Separated, List.pairwise_append]
  exact ⟨separated, List.pairwise_singleton _ _, fun entry member other here => by
    rw [List.mem_singleton.mp here]
    exact before entry member⟩

theorem scan_separated {self : AddressBitmap} {value : Bool} {count : Nat} {state next : Scan}
    {i : Address} (scanned : self.Scanned value count state) (separated : Separated state.ranges)
    (ran : self.scan value state i = .ok next) : Separated next.ranges := by
  obtain ⟨bit, -, continued⟩ := bind_eq_ok.mp ran
  split at continued
  · obtain rfl := Except.ok.inj continued
    exact separated
  · split at continued
    · rename_i ends
      obtain ⟨range, closed, returned⟩ := bind_eq_ok.mp continued
      obtain ⟨-, rfl⟩ := Interval.make_eq_ok.mp closed
      obtain rfl := Except.ok.inj returned
      have running : state.inRange = true := (Bool.and_eq_true_iff.mp ends).1
      exact separated.snoc fun entry member => (scanned.closed entry member).2.2.2 running
    · obtain rfl := Except.ok.inj continued
      exact separated

theorem scan_run_separated {bitmap : AddressBitmap} {value : Bool}
    (ordered : bitmap.dmRange.dmBegin ≤ bitmap.dmRange.dmEnd) (allocated : Allocated bitmap) :
    ∀ count ≤ bitmap.dmRange.getWidth.toNat, ∀ {state : Scan},
      ((List.range count).map fun offset => bitmap.dmRange.dmBegin + UInt64.ofNat offset).foldlM
        (bitmap.scan value) ⟨false, 0, []⟩ = .ok state → Separated state.ranges := by
  intro count
  induction count with
  | zero =>
    intro _ state ran
    obtain rfl := Except.ok.inj ran
    exact List.Pairwise.nil
  | succ count ih =>
    intro inside state ran
    rw [List.range_succ, List.map_append, List.foldlM_append] at ran
    obtain ⟨middle, earlier, last⟩ := bind_eq_ok.mp ran
    obtain ⟨expected, same, scanned⟩ := @scan_run bitmap value ordered allocated count (by omega)
    obtain rfl : expected = middle := Except.ok.inj (same.symm.trans earlier)
    rw [List.map_singleton, List.foldlM_cons] at last
    obtain ⟨next, stepped, returned⟩ := bind_eq_ok.mp last
    obtain rfl := Except.ok.inj returned
    exact scan_separated scanned (ih (by omega) earlier) stepped

/-- The contiguous ranges of a value are its maximal runs: they are not empty, lie
in the bitmap, leave an address out between one another, and cover the value. -/
theorem getContiguousRanges_maximal {bitmap : AddressBitmap} {value : Bool}
    (ordered : bitmap.dmRange.dmBegin ≤ bitmap.dmRange.dmEnd) (allocated : Allocated bitmap) :
    ∃ ranges, bitmap.getContiguousRanges value = .ok ranges ∧
      (∀ range ∈ ranges, bitmap.dmRange.dmBegin ≤ range.dmBegin ∧ range.dmBegin < range.dmEnd ∧
        range.dmEnd ≤ bitmap.dmRange.dmEnd) ∧
      ranges.Pairwise (fun first second => first.dmEnd < second.dmBegin) ∧
      ∀ address, (∃ range ∈ ranges, range.doesContain address = true) ↔ bitmap.Holds value address := by
  obtain ⟨ranges, total, inside, exact⟩ := @getContiguousRanges_total bitmap value ordered allocated
  refine ⟨ranges, total, inside, ?_, exact⟩
  obtain ⟨state, ran, finished⟩ := bind_eq_ok.mp total
  have separated := scan_run_separated ordered allocated _ (Nat.le_refl _) ran
  obtain ⟨expected, same, scanned⟩ :=
    @scan_run bitmap value ordered allocated _ (Nat.le_refl _)
  obtain rfl : expected = state := Except.ok.inj (same.symm.trans ran)
  split at finished
  · rename_i running
    obtain ⟨last, closed, returned⟩ := bind_eq_ok.mp finished
    obtain ⟨-, rfl⟩ := Interval.make_eq_ok.mp closed
    obtain rfl := Except.ok.inj returned
    rw [List.pairwise_map]
    exact separated.snoc fun entry member => (scanned.closed entry member).2.2.2 running
  · obtain rfl := Except.ok.inj finished
    rw [List.pairwise_map]
    exact separated

theorem getContiguousRanges_elevenBits :
    ∃ ranges, elevenBits.getContiguousRanges true = .ok ranges ∧
      (∃ range ∈ ranges, range.doesContain 4106 = true) ∧
      ranges.Pairwise (fun first second => first.dmEnd < second.dmBegin) := by
  obtain ⟨ranges, total, -, separated, exact⟩ := @getContiguousRanges_maximal elevenBits true
    (by decide) (by unfold Allocated; decide)
  exact ⟨ranges, total, (exact 4106).mpr ⟨by decide, by decide⟩, separated⟩

end AddressBitmap

end OpenSpeedShop
