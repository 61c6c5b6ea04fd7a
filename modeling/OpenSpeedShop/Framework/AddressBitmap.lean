import OpenSpeedShop.Framework.AddressBitmapCore
import Mathlib.Data.Nat.Bitwise
import Mathlib.Tactic.Linarith

/-!
What the bitmaps hold: storing one as a blob and reading it back gives the same
bitmap, and its contiguous ranges cover exactly the addresses that are set.
-/

namespace OpenSpeedShop

open Fallible
open Interval (doesContain_iff)
open UInt64 (lt_iff_toNat_lt le_iff_toNat_le toNat_add ofNat toNat_lt toNat_inj toNat_one)

theorem toNat_sub_of_le {low high : Address} (ordered : low ≤ high) :
    (high - low).toNat = high.toNat - low.toNat := UInt64.toNat_sub_of_le _ _ ordered

namespace Address

theorem toInt_toInt64 (value : UInt64) (small : value.toNat < 2 ^ 63) : value.toInt64.toInt = value.toNat := by
  have signed : value.toInt64.toInt = value.toBitVec.toInt := rfl
  have same : value.toBitVec.toNat = value.toNat := rfl
  rw [signed, BitVec.toInt_eq_toNat_cond, same]
  split <;> omega

variable {self other : Address}

theorem sub_of_le (ordered : other ≤ self) (near : self.toNat - other.toNat < 2 ^ 63) :
    sub self other = .ok (self - other).toInt64 := by
  have small : (self - other).toNat < 2 ^ 63 := by
    rw [toNat_sub_of_le ordered]
    exact near
  have value := toInt_toInt64 _ small
  have nonneg : (0 : Int64) ≤ (self - other).toInt64 := by
    rw [Int64.le_iff_toInt_le, value, Int64.toInt_zero]
    omega
  unfold sub
  rw [if_pos]
  refine ⟨?_, Or.inr nonneg⟩
  rcases lt_or_eq_of_le ordered with below | same
  · exact Or.inl below
  · right
    subst same
    rw [Int64.le_iff_toInt_le, value, Int64.toInt_zero, toNat_sub_of_le le_rfl]
    omega

theorem sub_eq_ok {difference : Int64} (ordered : other ≤ self)
    (subtracted : sub self other = .ok difference) :
    difference.toUInt64 = self - other ∧ self.toNat - other.toNat < 2 ^ 63 := by
  unfold sub at subtracted
  dsimp only at subtracted
  split at subtracted
  · rename_i signs
    cases subtracted
    refine ⟨rfl, ?_⟩
    rcases signs.2 with below | nonneg
    · exact absurd below (not_lt.mpr ordered)
    · rw [ge_iff_le, Int64.le_iff_toInt_le, Int64.toInt_zero] at nonneg
      have signed : (self - other).toInt64.toInt = (self - other).toBitVec.toInt := rfl
      have value : (self - other).toBitVec.toNat = self.toNat - other.toNat :=
        toNat_sub_of_le ordered
      have bound := toNat_lt self
      rw [signed, BitVec.toInt_eq_toNat_cond, value] at nonneg
      split at nonneg <;> omega
  · cases subtracted

theorem toUInt64_of_sub {difference : Int64}
    (subtracted : sub self other = .ok difference) : difference.toUInt64 = self - other := by
  unfold sub at subtracted
  dsimp only at subtracted
  split at subtracted
  · cases subtracted
    rfl
  · cases subtracted

theorem add_eq_ok {self other result : Address} : add self other = .ok result ↔
    self.toNat + other.toNat < 2 ^ 64 ∧ result = self + other := by
  have first := toNat_lt self
  have second := toNat_lt other
  have grows : self + other ≥ self ↔ self.toNat + other.toNat < 2 ^ 64 := by
    rw [ge_iff_le, le_iff_toNat_le, toNat_add]
    omega
  simp only [add, grows]
  split
  · rename_i fits
    rw [Except.ok.injEq, and_iff_right fits]
    exact eq_comm
  · rename_i wraps
    simp only [reduceCtorEq, false_iff, not_and]
    exact fun fits => absurd fits wraps

theorem toNat_add_of_lt (fits : self.toNat + other.toNat < 2 ^ 64) :
    (self + other).toNat = self.toNat + other.toNat := by
  rw [toNat_add, Nat.mod_eq_of_lt fits]

end Address

theorem Interval.make_eq_ok {Value : Type} [LinearOrder Value] {dmBegin dmEnd : Value}
    {range : Interval Value} :
    make dmBegin dmEnd = .ok range ↔ dmBegin < dmEnd ∧ range = ⟨dmBegin, dmEnd⟩ := by
  by_cases ordered : dmBegin < dmEnd <;> simp [make, make?, ordered, eq_comm]

namespace AddressRange

variable {range : AddressRange}

theorem toNat_getWidth (ordered : range.dmBegin ≤ range.dmEnd) :
    range.getWidth.toNat = range.dmEnd.toNat - range.dmBegin.toNat :=
  toNat_sub_of_le ordered

theorem toNat_offset {offset : Nat} (inside : range.dmBegin.toNat + offset ≤ range.dmEnd.toNat) :
    (range.dmBegin + ofNat offset).toNat = range.dmBegin.toNat + offset := by
  have bound := range.dmEnd.toNat_lt
  rw [toNat_add, UInt64.toNat_ofNat']
  omega

theorem mem_addresses (ordered : range.dmBegin ≤ range.dmEnd) {address : Address} :
    address ∈ range.addresses ↔ range.doesContain address = true := by
  simp only [addresses, List.mem_map, List.mem_range, doesContain_iff,
    toNat_getWidth ordered, le_iff_toNat_le, lt_iff_toNat_lt]
  rw [le_iff_toNat_le] at ordered
  constructor
  · rintro ⟨offset, inside, rfl⟩
    rw [toNat_offset (by omega)]
    omega
  · rintro ⟨above, below⟩
    refine ⟨address.toNat - range.dmBegin.toNat, by omega, ?_⟩
    rw [← toNat_inj, toNat_offset (by omega)]
    omega

theorem less_eq_true {lhs rhs : AddressRange} : less lhs rhs = true ↔ lhs.dmEnd ≤ rhs.dmBegin := by
  simp [less]

end AddressRange

variable {width : UInt64}

theorem counterFrom_eq (narrow : width.toNat < 2 ^ 32) :
    ∀ (fuel : Nat) (i : UInt32), i.toNat ≤ width.toNat → width.toNat < i.toNat + fuel →
      counterFrom width fuel i = some ((List.range' i.toNat (width.toNat - i.toNat))) := by
  intro fuel
  induction fuel with
  | zero =>
    intro i below enough
    omega
  | succ fuel ih =>
    intro i below enough
    rw [counterFrom]
    have value : i.toUInt64.toNat = i.toNat := UInt32.toNat_toUInt64 i
    by_cases inside : i.toUInt64 < width
    · have less : i.toNat < width.toNat := by
        rwa [lt_iff_toNat_lt, value] at inside
      have next : (i + 1).toNat = i.toNat + 1 := by
        rw [UInt32.toNat_add, UInt32.toNat_one]
        omega
      rw [if_pos inside, ih (i + 1) (by omega) (by omega), next, Option.map_some]
      have split : width.toNat - i.toNat = (width.toNat - (i.toNat + 1)) + 1 := by omega
      rw [split, List.range'_succ]
    · have past : ¬i.toNat < width.toNat := by
        rwa [lt_iff_toNat_lt, value] at inside
      rw [if_neg inside]
      have done : width.toNat - i.toNat = 0 := by omega
      rw [done, List.range'_zero]

theorem counter_eq (narrow : width.toNat < 2 ^ 32) : counter width = .ok (List.range width.toNat) := by
  rw [counter, counterFrom_eq narrow (width.toNat + 1) 0 (by simp) (by simp), UInt32.toNat_zero,
    Nat.sub_zero, List.range_eq_range']

theorem counterFrom_endless (wide : 2 ^ 32 ≤ width.toNat) (fuel : Nat) :
    ∀ i, counterFrom width fuel i = none := by
  induction fuel with
  | zero => exact fun _ => rfl
  | succ fuel ih =>
    intro i
    have inside : i.toUInt64 < width := by
      rw [lt_iff_toNat_lt, UInt32.toNat_toUInt64]
      have bound := i.toNat_lt
      omega
    rw [counterFrom, if_pos inside, ih, Option.map_none]

theorem counter_eq_ok {indices : List Nat} (ran : counter width = .ok indices) :
    width.toNat < 2 ^ 32 ∧ indices = List.range width.toNat := by
  by_cases narrow : width.toNat < 2 ^ 32
  · rw [counter_eq narrow, Except.ok.injEq] at ran
    exact ⟨narrow, ran.symm⟩
  · rw [counter, counterFrom_endless (not_lt.mp narrow)] at ran
    cases ran

namespace AddressBitmap

theorem toNat_bitMask {place : Nat} (inside : place < 8) :
    (1 <<< UInt8.ofNat place : UInt8).toNat = 2 ^ place := by
  have small : 2 ^ place < 2 ^ 8 := Nat.pow_lt_pow_right (by decide) inside
  rw [UInt8.toNat_shiftLeft, UInt8.toNat_one, UInt8.toNat_ofNat']
  have reduced : place % 2 ^ 8 % 8 = place := by omega
  rw [reduced, Nat.one_shiftLeft, Nat.mod_eq_of_lt small]

theorem bit_ne_zero_iff (byte : UInt8) {place : Nat} (inside : place < 8) :
    ((byte &&& (1 <<< UInt8.ofNat place)) != 0) = byte.toNat.testBit place := by
  rw [Bool.eq_iff_iff, bne_iff_ne, ne_eq, ← UInt8.toNat_inj, UInt8.toNat_and,
    toNat_bitMask inside, UInt8.toNat_zero, Nat.and_two_pow]
  cases byte.toNat.testBit place <;> simp

theorem bitAt_eq (contents : List UInt8) (i : Nat) :
    bitAt contents i = contents[i / 8]?.map fun byte => byte.toNat.testBit (i % 8) := by
  unfold bitAt
  cases contents[i / 8]? with
  | none => rfl
  | some byte => simp only [Option.map_some, bit_ne_zero_iff byte (Nat.mod_lt i (by decide))]

@[simp] theorem setBit_length (contents : List UInt8) (i : Nat) :
    (setBit contents i).length = contents.length := by
  simp [setBit]

theorem bitAt_setBit (contents : List UInt8) (i j : Nat) :
    bitAt (setBit contents i) j = (bitAt contents j).map (· || decide (i = j)) := by
  rw [bitAt_eq, bitAt_eq, setBit, List.getElem?_modify]
  cases contents[j / 8]? with
  | none => rfl
  | some byte =>
    by_cases sameByte : i / 8 = j / 8
    · have inside : i % 8 < 8 := Nat.mod_lt i (by decide)
      have places : i % 8 = j % 8 ↔ i = j := by omega
      simp only [sameByte, if_true, Option.map_eq_map, Option.map_some, UInt8.toNat_or,
        Nat.testBit_or, toNat_bitMask inside, Nat.testBit_two_pow, places]
    · have different : ¬i = j := fun same => sameByte (by rw [same])
      simp [sameByte, different]

theorem bitAt_replicate {size i : Nat} (inside : i / 8 < size) :
    bitAt (List.replicate size 0) i = some false := by
  rw [bitAt_eq, List.getElem?_replicate, if_pos inside]
  simp

theorem bitAt_foldl (bits : Nat → Prop) [DecidablePred bits] (indices : List Nat) :
    ∀ (contents : List UInt8) (j : Nat), bitAt (indices.foldl (fun contents i =>
        if bits i then setBit contents i else contents) contents) j =
      (bitAt contents j).map (· || decide (bits j ∧ j ∈ indices)) := by
  induction indices with
  | nil =>
    intro contents j
    simp
  | cons i rest ih =>
    intro contents j
    rw [List.foldl_cons, ih]
    split
    · rename_i set
      rw [bitAt_setBit, Option.map_map]
      congr 1
      funext bit
      by_cases same : i = j
      · subst same
        simp [set]
      · have apart : ¬j = i := fun equal => same equal.symm
        simp [same, apart]
    · rename_i clear
      congr 1
      funext bit
      by_cases same : j = i
      · subst same
        simp [clear]
      · simp [same]

theorem setBits_length (bits : Nat → Prop) [DecidablePred bits] (indices : List Nat) :
    ∀ contents : List UInt8, (indices.foldl (fun contents i =>
      if bits i then setBit contents i else contents) contents).length = contents.length := by
  induction indices with
  | nil => exact fun _ => rfl
  | cons i rest ih =>
    intro contents
    rw [List.foldl_cons, ih]
    split <;> simp

variable {blob : List UInt8}

theorem readBits_eq_ok {size : Nat} (indices : List Nat) :
    ∀ {bits read : Vector Bool size}, indices.foldlM (readBit blob) bits = .ok read →
    ∀ i < size, read[i]? = if i ∈ indices then bitAt blob i else bits[i]? := by
  induction indices with
  | nil =>
    intro bits read ran i inside
    cases ran
    simp
  | cons index rest ih =>
    intro bits read ran i inside
    rw [List.foldlM_cons, bind_eq_ok] at ran
    obtain ⟨next, first, remaining⟩ := ran
    rw [ih remaining i inside]
    cases found : bitAt blob index with
    | none =>
      simp only [readBit, found] at first
      cases first
    | some value =>
      simp only [readBit, found, Except.ok.injEq] at first
      subst next
      by_cases later : i ∈ rest
      · simp [later]
      · by_cases same : index = i
        · subst same
          simp [later, found, inside]
        · have apart : ¬i = index := fun equal => same equal.symm
          simp [later, same, apart]

theorem readBits_total {size : Nat} (indices : List Nat) (present : ∀ i ∈ indices, (bitAt blob i).isSome) :
    ∀ bits : Vector Bool size, ∃ read, indices.foldlM (readBit blob) bits = .ok read := by
  induction indices with
  | nil => exact fun bits => ⟨bits, rfl⟩
  | cons index rest ih =>
    intro bits
    obtain ⟨value, found⟩ := Option.isSome_iff_exists.mp (present index (by simp))
    obtain ⟨read, ran⟩ := ih (fun i member => present i (by simp [member])) (bits.setIfInBounds index value)
    refine ⟨read, ?_⟩
    rw [List.foldlM_cons, readBit, found, ok_bind, ran]

variable {bitmap : AddressBitmap}

theorem ofBlob_eq_ok {range : AddressRange} (read : ofBlob range blob = .ok bitmap) :
    bitmap.dmRange = range ∧ range.getWidth.toNat < 2 ^ 32 ∧
      ∀ i < range.getWidth.toNat, bitmap.dmBitmap[i]? = bitAt blob i := by
  simp only [ofBlob, bind_eq_ok, check_eq_ok] at read
  obtain ⟨_, _, indices, counted, bits, ran, built⟩ := read
  cases built
  obtain ⟨narrow, rfl⟩ := counter_eq_ok counted
  refine ⟨rfl, narrow, fun i inside => ?_⟩
  have held := readBits_eq_ok _ ran i inside
  rwa [if_pos (List.mem_range.mpr inside)] at held

theorem ofBlob_total {range : AddressRange} (narrow : range.getWidth.toNat < 2 ^ 32)
    (covered : range.getWidth.toNat ≤ 8 * blob.length) : ∃ bitmap, ofBlob range blob = .ok bitmap := by
  have present : ∀ i ∈ List.range range.getWidth.toNat, (bitAt blob i).isSome := by
    intro i member
    have inside := List.mem_range.mp member
    have byte : i / 8 < blob.length := by omega
    simp [bitAt_eq, byte]
  obtain ⟨bits, ran⟩ := readBits_total _ present (Vector.replicate range.getWidth.toNat false)
  refine ⟨⟨range, bits⟩, ?_⟩
  have enough : blob.length ≥ range.getWidth.toNat / 8 := by omega
  simp only [ofBlob, enough, decide_true, check_true, ok_bind, counter_eq narrow, ran]
  rfl

theorem blobSize {width : UInt64} (nonempty : 0 < width.toNat) (narrow : width.toNat < 2 ^ 32) :
    ((width - 1) / 8 + 1).toUInt32.toNat = (width.toNat - 1) / 8 + 1 := by
  have one : (1 : UInt64) ≤ width := by
    rw [le_iff_toNat_le, toNat_one]
    omega
  have eight : (8 : UInt64).toNat = 8 := rfl
  rw [UInt64.toNat_toUInt32, toNat_add, UInt64.toNat_div,
    UInt64.toNat_sub_of_le _ _ one, toNat_one, eight]
  omega

theorem getBlob_total (nonempty : 0 < bitmap.dmRange.getWidth.toNat)
    (narrow : bitmap.dmRange.getWidth.toNat < 2 ^ 32) :
    ∃ blob, bitmap.getBlob = .ok blob ∧ bitmap.dmRange.getWidth.toNat ≤ 8 * blob.length ∧
      ∀ i < bitmap.dmRange.getWidth.toNat, bitAt blob i = bitmap.dmBitmap[i]? := by
  have size := blobSize nonempty narrow
  refine ⟨_, by simp only [getBlob, counter_eq narrow, ok_bind]; rfl, ?_, ?_⟩
  · rw [setBits_length, List.length_replicate, size]
    omega
  · intro i inside
    have byte : i / 8 < ((bitmap.dmRange.getWidth - 1) / 8 + 1).toUInt32.toNat := by
      rw [size]
      omega
    rw [bitAt_foldl, bitAt_replicate byte, Vector.getElem?_eq_getElem inside]
    simp [inside]

theorem ofBlob_getBlob (nonempty : 0 < bitmap.dmRange.getWidth.toNat)
    (narrow : bitmap.dmRange.getWidth.toNat < 2 ^ 32) :
    ∃ blob, bitmap.getBlob = .ok blob ∧ ofBlob bitmap.dmRange blob = .ok bitmap := by
  obtain ⟨blob, written, covered, bits⟩ := getBlob_total nonempty narrow
  obtain ⟨⟨range, read⟩, decoded⟩ := ofBlob_total narrow covered
  obtain ⟨rfl, _, held⟩ := ofBlob_eq_ok decoded
  refine ⟨blob, written, ?_⟩
  have same : read = bitmap.dmBitmap := by
    apply Vector.ext
    intro i inside
    have both := (held i inside).trans (bits i inside)
    simpa [inside] using both
  rw [decoded, same]

def Holds (self : AddressBitmap) (value : Bool) (address : Address) : Prop :=
  self.dmRange.doesContain address = true ∧ self.dmBitmap[(address - self.dmRange.dmBegin).toNat]? = some value

variable {self : AddressBitmap} {address : Address}

theorem index_lt (inside : self.dmRange.doesContain address = true) :
    (address - self.dmRange.dmBegin).toNat < self.dmRange.getWidth.toNat := by
  simp only [doesContain_iff] at inside
  have ordered := inside.1.trans inside.2.le
  rw [toNat_sub_of_le inside.1, AddressRange.toNat_getWidth ordered]
  rw [le_iff_toNat_le, lt_iff_toNat_lt] at inside
  omega

theorem getValue_total (inside : self.dmRange.doesContain address = true)
    (near : address.toNat - self.dmRange.dmBegin.toNat < 2 ^ 63) :
    ∃ value, self.getValue address = .ok value ∧ self.Holds value address := by
  have above := ((doesContain_iff _ _).mp inside).1
  have index : (address - self.dmRange.dmBegin).toInt64.toUInt64 = address - self.dmRange.dmBegin :=
    rfl
  have bound := index_lt inside
  have found : self.dmBitmap[(address - self.dmRange.dmBegin).toNat]? =
      some self.dmBitmap[(address - self.dmRange.dmBegin).toNat] :=
    Vector.getElem?_eq_getElem bound
  refine ⟨_, ?_, inside, found⟩
  simp only [getValue, inside, check_true, ok_bind, Address.sub_of_le above near, index, found]

variable {value : Bool}

theorem getValue_eq_ok (got : self.getValue address = .ok value) :
    self.Holds value address ∧ address.toNat - self.dmRange.dmBegin.toNat < 2 ^ 63 := by
  simp only [getValue, bind_eq_ok, check_eq_ok] at got
  obtain ⟨_, inside, difference, subtracted, found⟩ := got
  have above := ((doesContain_iff _ _).mp inside).1
  obtain ⟨index, near⟩ := Address.sub_eq_ok above subtracted
  rw [index] at found
  refine ⟨⟨inside, ?_⟩, near⟩
  split at found
  · rename_i bit held
    cases found
    exact held
  · cases found

theorem Holds.unique {first second : Bool}
    (one : self.Holds first address) (two : self.Holds second address) : first = second := by
  have both := one.2.symm.trans two.2
  simpa using both

theorem setValue_total (inside : self.dmRange.doesContain address = true)
    (near : address.toNat - self.dmRange.dmBegin.toNat < 2 ^ 63) :
    ∃ after, self.setValue address true = .ok after ∧ after.dmRange = self.dmRange ∧
      ∀ other, after.Holds true other ↔ self.Holds true other ∨ other = address := by
  have above := ((doesContain_iff _ _).mp inside).1
  have ran : self.setValue address true = .ok ⟨self.dmRange,
      self.dmBitmap.setIfInBounds (address - self.dmRange.dmBegin).toNat true⟩ := by
    simp only [setValue, inside, check_true, ok_bind, Address.sub_of_le above near]
    rfl
  refine ⟨_, ran, rfl, ?_⟩
  intro other
  simp only [Holds]
  by_cases same : other = address
  · subst same
    simp [inside, index_lt inside]
  · by_cases contained : self.dmRange.doesContain other = true
    · have apart : (address - self.dmRange.dmBegin).toNat ≠ (other - self.dmRange.dmBegin).toNat := by
        have aboveOther := ((doesContain_iff _ _).mp contained).1
        rw [toNat_sub_of_le above, toNat_sub_of_le aboveOther]
        rw [le_iff_toNat_le] at above aboveOther
        rw [← toNat_inj] at same
        omega
      simp [same, contained, apart]
    · simp [same, contained]

/-- The state of the scan after the first `count` addresses. An open run begins
above every range that was closed before it. -/
structure Scanned (bitmap : AddressBitmap) (value : Bool) (count : Nat) (state : Scan) : Prop where
  closed : ∀ entry ∈ state.ranges, bitmap.dmRange.dmBegin ≤ entry.1.dmBegin ∧
    entry.1.dmBegin < entry.1.dmEnd ∧
    entry.1.dmEnd.toNat < bitmap.dmRange.dmBegin.toNat + count ∧
    (state.inRange = true → entry.1.dmEnd < state.rangeBegin)
  began : state.inRange = true → bitmap.dmRange.dmBegin ≤ state.rangeBegin ∧
    state.rangeBegin.toNat < bitmap.dmRange.dmBegin.toNat + count
  exact : ∀ address, bitmap.dmRange.doesContain address = true →
    address.toNat < bitmap.dmRange.dmBegin.toNat + count →
      (bitmap.Holds value address ↔
        (∃ entry ∈ state.ranges, entry.1.doesContain address = true) ∨
          (state.inRange = true ∧ state.rangeBegin ≤ address))

section

variable {self : AddressBitmap} {value bit : Bool} {count : Nat} {state : Scan} {i : Address}
  (scanned : self.Scanned value count state)

include scanned

theorem Scanned.insert_last (running : state.inRange = true) :
    OrderedMap.insert AddressRange.less ⟨state.rangeBegin, i⟩ () state.ranges =
      state.ranges ++ [(⟨state.rangeBegin, i⟩, ())] := by
  apply OrderedMap.insert_of_forall_less
  intro entry member
  exact AddressRange.less_eq_true.mpr ((scanned.closed entry member).2.2.2 running).le

variable (place : i.toNat = self.dmRange.dmBegin.toNat + count)

include place

theorem Scanned.rangeBegin_lt (running : state.inRange = true) : state.rangeBegin < i := by
  have began := (scanned.began running).2
  rw [lt_iff_toNat_lt]
  omega

theorem Scanned.not_covered : ¬∃ entry ∈ state.ranges, entry.1.doesContain i = true := by
  rintro ⟨entry, member, covers⟩
  have bounds := scanned.closed entry member
  rw [doesContain_iff, lt_iff_toNat_lt] at covers
  omega

theorem Scanned.exact_of_ne {address : Address} (within : self.dmRange.doesContain address = true)
    (below : address.toNat < self.dmRange.dmBegin.toNat + (count + 1)) (different : address ≠ i) :
    address < i ∧ (self.Holds value address ↔ (∃ entry ∈ state.ranges, entry.1.doesContain address = true) ∨
        (state.inRange = true ∧ state.rangeBegin ≤ address)) := by
  rw [ne_eq, ← toNat_inj] at different
  refine ⟨?_, scanned.exact address within (by omega)⟩
  rw [lt_iff_toNat_lt]
  omega

variable (holds : self.Holds bit i)

include holds

theorem Scanned.stays (same : bit = value ↔ state.inRange = true) : self.Scanned value (count + 1) state := by
  refine ⟨fun entry member => ?_, fun running => ?_, fun address within below => ?_⟩
  · obtain ⟨above, nonempty, closed, run⟩ := scanned.closed entry member
    exact ⟨above, nonempty, by omega, run⟩
  · obtain ⟨above, began⟩ := scanned.began running
    exact ⟨above, by omega⟩
  · by_cases here : address = i
    · subst here
      have holdsIff : self.Holds value address ↔ state.inRange = true := by
        rw [← same]
        exact ⟨holds.unique, fun equal => equal ▸ holds⟩
      simp only [holdsIff, scanned.not_covered place, false_or]
      exact ⟨fun running => ⟨running, (scanned.rangeBegin_lt place running).le⟩, And.left⟩
    · exact (scanned.exact_of_ne place within below here).2

theorem Scanned.begins (same : bit = value) (idle : state.inRange = false) :
    self.Scanned value (count + 1) ⟨true, i, state.ranges⟩ := by
  subst same
  refine ⟨fun entry member => ?_, fun _ => ⟨?_, by simp only; omega⟩, fun address within below => ?_⟩
  · obtain ⟨above, nonempty, closed, _⟩ := scanned.closed entry member
    refine ⟨above, nonempty, by omega, fun _ => ?_⟩
    rw [lt_iff_toNat_lt]
    simp only
    omega
  · exact ((doesContain_iff _ _).mp holds.1).1
  · by_cases here : address = i
    · subst here
      simp [holds]
    · obtain ⟨underI, exact⟩ := scanned.exact_of_ne place within below here
      rw [exact]
      simp [idle, underI]

theorem Scanned.ends (differs : bit ≠ value) (running : state.inRange = true) : self.Scanned value (count + 1)
      ⟨false, state.rangeBegin, state.ranges ++ [(⟨state.rangeBegin, i⟩, ())]⟩ := by
  have beganAbove := (scanned.began running).1
  have beganAt := scanned.rangeBegin_lt place running
  refine ⟨fun entry member => ?_, fun impossible => absurd impossible (by simp),
    fun address within below => ?_⟩
  · rcases List.mem_append.mp member with old | new
    · obtain ⟨above, nonempty, closed, _⟩ := scanned.closed entry old
      exact ⟨above, nonempty, by omega, fun impossible => absurd impossible (by simp)⟩
    · obtain rfl := List.mem_singleton.mp new
      exact ⟨beganAbove, beganAt, by simp only; omega,
        fun impossible => absurd impossible (by simp)⟩
  · by_cases here : address = i
    · subst here
      have fails : ¬self.Holds value address := fun also => differs (holds.unique also)
      simp only [fails, false_iff, not_or]
      refine ⟨?_, by simp⟩
      rintro ⟨entry, member, covers⟩
      rcases List.mem_append.mp member with old | new
      · exact scanned.not_covered place ⟨entry, old, covers⟩
      · obtain rfl := List.mem_singleton.mp new
        simp at covers
    · obtain ⟨underI, exact⟩ := scanned.exact_of_ne place within below here
      rw [exact]
      simp [running, underI, or_and_right, exists_or]

end

variable {state : Scan}

theorem scan_step {count : Nat} {i : Address} (ordered : self.dmRange.dmBegin ≤ self.dmRange.dmEnd)
    (narrow : self.dmRange.getWidth.toNat < 2 ^ 63) (inside : count < self.dmRange.getWidth.toNat)
    (place : i.toNat = self.dmRange.dmBegin.toNat + count) (scanned : self.Scanned value count state) :
    ∃ next, self.scan value state i = .ok next ∧ self.Scanned value (count + 1) next := by
  rw [AddressRange.toNat_getWidth ordered] at inside narrow
  have contained : self.dmRange.doesContain i = true := by
    rw [doesContain_iff, le_iff_toNat_le, lt_iff_toNat_lt]
    omega
  obtain ⟨bit, got, holds⟩ := getValue_total contained (by omega)
  simp only [scan, got, ok_bind]
  by_cases running : state.inRange = true
  · by_cases same : bit = value
    · exact ⟨state, by simp [running, same]; rfl, scanned.stays place holds (iff_of_true same running)⟩
    · have closedRange : Interval.make state.rangeBegin i = .ok ⟨state.rangeBegin, i⟩ :=
        Interval.make_eq_ok.mpr ⟨scanned.rangeBegin_lt place running, rfl⟩
      refine ⟨_, ?_, scanned.ends place holds same running⟩
      simp only [running, Bool.not_true, Bool.false_and, Bool.true_and, bne_iff_ne, ne_eq, same,
        not_false_eq_true, if_true, closedRange, ok_bind, scanned.insert_last running]
      rfl
  · have idle : state.inRange = false := by simpa using running
    by_cases same : bit = value
    · exact ⟨_, by simp [idle, same]; rfl, scanned.begins place holds same idle⟩
    · exact ⟨state, by simp [idle, same]; rfl, scanned.stays place holds (iff_of_false same running)⟩

theorem scan_run (ordered : bitmap.dmRange.dmBegin ≤ bitmap.dmRange.dmEnd)
    (narrow : bitmap.dmRange.getWidth.toNat < 2 ^ 63) : ∀ count ≤ bitmap.dmRange.getWidth.toNat, ∃ state,
      ((List.range count).map fun offset => bitmap.dmRange.dmBegin + ofNat offset).foldlM
        (bitmap.scan value) ⟨false, 0, []⟩ = .ok state ∧ Scanned bitmap value count state := by
  intro count
  induction count with
  | zero =>
    intro _
    refine ⟨_, rfl, by simp, by simp, ?_⟩
    intro address within below
    have above := ((doesContain_iff _ _).mp within).1
    rw [le_iff_toNat_le] at above
    omega
  | succ count ih =>
    intro inside
    obtain ⟨state, ran, scanned⟩ := ih (by omega)
    have width := AddressRange.toNat_getWidth ordered
    have place : (bitmap.dmRange.dmBegin + ofNat count).toNat =
        bitmap.dmRange.dmBegin.toNat + count := by
      apply AddressRange.toNat_offset
      omega
    obtain ⟨next, stepped, after⟩ := scan_step ordered narrow (by omega) place scanned
    refine ⟨next, ?_, after⟩
    rw [List.range_succ, List.map_append, List.foldlM_append, ran, ok_bind]
    simp only [List.map_cons, List.map_nil, List.foldlM_cons, stepped, ok_bind, List.foldlM_nil]
    rfl

def Scan.all (state : Scan) (dmEnd : Address) : List AddressRange :=
  state.ranges.map Prod.fst ++
    if state.inRange = true then [⟨state.rangeBegin, dmEnd⟩] else []

theorem Scan.exists_mem_all {dmEnd : Address} {holds : AddressRange → Prop} :
    (∃ range ∈ state.all dmEnd, holds range) ↔
      (∃ entry ∈ state.ranges, holds entry.1) ∨ (state.inRange = true ∧ holds ⟨state.rangeBegin, dmEnd⟩) := by
  unfold Scan.all
  split
  next running => simp [running, or_and_right, exists_or]
  next idle => simp [idle]

theorem Scan.forall_mem_all {dmEnd : Address} {holds : AddressRange → Prop} :
    (∀ range ∈ state.all dmEnd, holds range) ↔
      (∀ entry ∈ state.ranges, holds entry.1) ∧ (state.inRange = true → holds ⟨state.rangeBegin, dmEnd⟩) := by
  unfold Scan.all
  split
  next running => simp [running, or_imp, forall_and]
  next idle => simp [idle]

theorem getContiguousRanges_total (ordered : bitmap.dmRange.dmBegin ≤ bitmap.dmRange.dmEnd)
    (narrow : bitmap.dmRange.getWidth.toNat < 2 ^ 63) :
    ∃ ranges, bitmap.getContiguousRanges value = .ok ranges ∧
      (∀ range ∈ ranges, bitmap.dmRange.dmBegin ≤ range.dmBegin ∧ range.dmBegin < range.dmEnd ∧
        range.dmEnd ≤ bitmap.dmRange.dmEnd) ∧
      ∀ address, (∃ range ∈ ranges, range.doesContain address = true) ↔ bitmap.Holds value address := by
  obtain ⟨state, ran, scanned⟩ := @scan_run bitmap value ordered narrow _ le_rfl
  have ends : bitmap.dmRange.dmBegin.toNat + bitmap.dmRange.getWidth.toNat = bitmap.dmRange.dmEnd.toNat := by
    rw [AddressRange.toNat_getWidth ordered]
    rw [le_iff_toNat_le] at ordered
    omega
  have inside : ∀ range ∈ state.all bitmap.dmRange.dmEnd, bitmap.dmRange.dmBegin ≤ range.dmBegin ∧
      range.dmBegin < range.dmEnd ∧ range.dmEnd ≤ bitmap.dmRange.dmEnd := by
    refine Scan.forall_mem_all.mpr ⟨fun entry member => ?_, fun running => ?_⟩
    · obtain ⟨above, nonempty, below, _⟩ := scanned.closed entry member
      refine ⟨above, nonempty, ?_⟩
      rw [le_iff_toNat_le]
      omega
    · exact ⟨(scanned.began running).1, scanned.rangeBegin_lt ends.symm running, le_rfl⟩
  refine ⟨state.all bitmap.dmRange.dmEnd, ?_, inside, fun address => ?_⟩
  · simp only [getContiguousRanges, AddressRange.addresses, ran, ok_bind, Scan.all]
    split
    next running =>
      have last : Interval.make state.rangeBegin bitmap.dmRange.dmEnd =
          .ok ⟨state.rangeBegin, bitmap.dmRange.dmEnd⟩ :=
        Interval.make_eq_ok.mpr ⟨scanned.rangeBegin_lt ends.symm running, rfl⟩
      simp only [last, ok_bind, scanned.insert_last running, List.map_append, List.map_cons, List.map_nil]
      rfl
    next idle =>
      rw [List.append_nil]
      rfl
  · have exact : bitmap.dmRange.doesContain address = true →
        (bitmap.Holds value address ↔
          (∃ entry ∈ state.ranges, entry.1.doesContain address = true) ∨
            (state.inRange = true ∧ state.rangeBegin ≤ address)) := by
      intro within
      apply scanned.exact address within
      rw [ends]
      exact lt_iff_toNat_lt.mp ((doesContain_iff _ _).mp within).2
    have covered := @Scan.exists_mem_all state bitmap.dmRange.dmEnd
      fun range => range.doesContain address = true
    constructor
    · rintro ⟨range, member, covers⟩
      obtain ⟨above, _, below⟩ := inside range member
      have bounds := (doesContain_iff _ _).mp covers
      have within : bitmap.dmRange.doesContain address = true :=
        (doesContain_iff _ _).mpr ⟨above.trans bounds.1, bounds.2.trans_le below⟩
      refine (exact within).mpr ((covered.mp ⟨range, member, covers⟩).imp_right ?_)
      exact fun ⟨running, last⟩ => ⟨running, ((doesContain_iff _ _).mp last).1⟩
    · intro holds
      refine covered.mpr (((exact holds.1).mp holds).imp_right ?_)
      rintro ⟨running, above⟩
      exact ⟨running, (doesContain_iff _ _).mpr
        ⟨above, ((doesContain_iff _ _).mp holds.1).2⟩⟩

end AddressBitmap

end OpenSpeedShop
