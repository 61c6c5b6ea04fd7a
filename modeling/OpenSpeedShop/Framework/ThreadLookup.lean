import OpenSpeedShop.Framework.AddressBitmap
import OpenSpeedShop.Framework.ThreadLookupCore

/-!
The symbols at an address and the extents of a symbol decode the same rows, one
by testing a bit at an offset, the other by expanding runs of bits.
-/

namespace OpenSpeedShop

open Fallible
open Interval (make_eq_ok doesContain_iff)
open List (mem_flatMap mem_singleton mem_map)
open OffsetBinary (decode encode_decode encode_lt_encode encode_le_encode)
open UInt64 (lt_iff_toNat_lt le_iff_toNat_le)

theorem between_iff {value : UInt64} {first last : Int64} : between value first last = true ↔
      decode first ≤ value ∧ value < decode last := by
  rw [between, Bool.and_eq_true, decide_eq_true_eq, decide_eq_true_eq]
  constructor
  · rintro ⟨above, below⟩
    rw [ge_iff_le, ← encode_decode first, encode_le_encode] at above
    rw [← encode_decode last, encode_lt_encode] at below
    exact ⟨above, below⟩
  · rintro ⟨above, below⟩
    rw [ge_iff_le, ← encode_decode first, encode_le_encode,
      ← encode_decode last, encode_lt_encode]
    exact ⟨above, below⟩

namespace RangeRow

def Marks (row : RangeRow) (address : Address) : Prop :=
  ∃ bitmap, row.bitmap = .ok bitmap ∧ bitmap.Holds true address

variable {row : RangeRow}

theorem bitmap_eq_ok {bitmap : AddressBitmap} (decoded : row.bitmap = .ok bitmap) :
    bitmap.dmRange = ⟨decode row.addrBegin, decode row.addrEnd⟩ ∧
      bitmap.dmRange.dmBegin < bitmap.dmRange.dmEnd ∧ bitmap.dmRange.getWidth.toNat < 2 ^ 32 := by
  simp only [RangeRow.bitmap, bind_eq_ok, make_eq_ok] at decoded
  obtain ⟨range, ⟨ordered, rfl⟩, read⟩ := decoded
  obtain ⟨same, narrow, _⟩ := AddressBitmap.ofBlob_eq_ok read
  rw [same]
  exact ⟨rfl, ordered, narrow⟩

theorem Marks.between {address : Address} (marks : row.Marks address) :
    between address row.addrBegin row.addrEnd = true := by
  obtain ⟨bitmap, decoded, inside, _⟩ := marks
  rw [(bitmap_eq_ok decoded).1, doesContain_iff] at inside
  exact between_iff.mpr inside

theorem contiguous_eq_ok {ranges : List AddressRange} (ran : row.contiguous = .ok ranges) :
    (∀ range ∈ ranges, decode row.addrBegin ≤ range.dmBegin ∧ range.dmEnd ≤ decode row.addrEnd) ∧
    ∀ address, (∃ range ∈ ranges, range.doesContain address = true) ↔ row.Marks address := by
  simp only [contiguous, bind_eq_ok] at ran
  obtain ⟨bitmap, decoded, found⟩ := ran
  obtain ⟨same, ordered, narrow⟩ := bitmap_eq_ok decoded
  obtain ⟨expected, total, inside, exact⟩ :=
    @AddressBitmap.getContiguousRanges_total bitmap true ordered.le (by omega)
  obtain rfl : expected = ranges := Except.ok.inj (total.symm.trans found)
  refine ⟨fun range member => ?_, fun address => ?_⟩
  · obtain ⟨above, _, below⟩ := inside range member
    rw [same] at above below
    exact ⟨above, below⟩
  · rw [exact address]
    constructor
    · exact fun holds => ⟨bitmap, decoded, holds⟩
    · rintro ⟨other, decodedOther, holds⟩
      obtain rfl : bitmap = other := Except.ok.inj (decoded.symm.trans decodedOther)
      exact holds

end RangeRow

def ObjectTables.Marks {Columns : Type} (tables : ObjectTables Columns) (object : Int)
    (linkedObject : Int32) (address : Address) : Prop :=
  ∃ range ∈ tables.ranges, ∃ row ∈ tables.objects, row.id = range.object.toInt ∧
    row.id = object ∧ row.linkedObject = linkedObject ∧ range.Marks address

def AddressSpaceRow.Contains (row : AddressSpaceRow) (address : Address) (time : Time) : Prop :=
  between time row.timeBegin row.timeEnd = true ∧ between address row.addrBegin row.addrEnd = true

def Extent.Contains (extent : Extent) (address : Address) (time : Time) : Prop :=
  extent.dmInterval.doesContain time = true ∧ extent.dmRange.doesContain address = true

namespace Thread

theorem mem_spacesAt {tables : SymbolTables} {thread : Entry} {address : Address} {time : Time}
    {row : AddressSpaceRow} : row ∈ spacesAt tables thread address time ↔
      row ∈ tables.addressSpaces ∧ row.thread.toInt = thread.dmEntry ∧ row.Contains address time := by
  simp [spacesAt, AddressSpaceRow.Contains, and_assoc]

theorem mem_rangesAt {Columns : Type} {tables : ObjectTables Columns} {linkedObject : Int32}
    {address : Address} {object : Int} {range : RangeRow} :
    (object, range) ∈ rangesAt tables linkedObject address ↔
      range ∈ tables.ranges ∧ between address range.addrBegin range.addrEnd = true ∧
        ∃ row ∈ tables.objects, row.id = range.object.toInt ∧ row.id = object ∧
          row.linkedObject = linkedObject := by
  simp only [rangesAt, mem_flatMap, mem_map, List.mem_filter, Bool.and_eq_true,
    decide_eq_true_eq, Prod.mk.injEq]
  constructor
  · rintro ⟨_, present, row, ⟨inObjects, ⟨joined, linked⟩, within⟩, number, rfl⟩
    exact ⟨present, within, row, inObjects, joined, number, linked⟩
  · rintro ⟨present, within, row, inObjects, joined, number, linked⟩
    exact ⟨range, present, row, ⟨inObjects, ⟨joined, linked⟩, within⟩, number, rfl⟩

theorem mem_objectsAt {Columns : Type} {tables : ObjectTables Columns} {space : AddressSpaceRow}
    {address : Address} {objects : List Int} (ran : objectsAt tables space address = .ok objects)
    (above : decode space.addrBegin ≤ address) (object : Int) : object ∈ objects ↔
      tables.Marks object space.linkedObject (address - decode space.addrBegin) := by
  simp only [objectsAt, bind_eq_ok] at ran
  obtain ⟨offset, subtracted, collected⟩ := ran
  rw [(Address.sub_eq_ok above subtracted).1] at collected
  obtain ⟨each, rfl⟩ := collect_eq_ok.mp collected
  rw [mem_flatMap]
  constructor
  · rintro ⟨⟨number, range⟩, present, found⟩
    obtain ⟨more, ran⟩ := each _ present
    rw [given_of_ok ran] at found
    simp only [bind_eq_ok] at ran
    obtain ⟨bitmap, decoded, valid, got, returned⟩ := ran
    obtain ⟨inRanges, _, row, inObjects, joined, same, linked⟩ := mem_rangesAt.mp present
    cases returned
    cases valid with
    | false => simp at found
    | true =>
      obtain rfl : object = number := by simpa using found
      exact ⟨range, inRanges, row, inObjects, joined, same, linked, bitmap, decoded,
        (AddressBitmap.getValue_eq_ok got).1⟩
  · rintro ⟨range, inRanges, row, inObjects, joined, same, linked, marks⟩
    have present := mem_rangesAt.mpr ⟨inRanges, marks.between, row, inObjects, joined, same, linked⟩
    refine ⟨_, present, ?_⟩
    obtain ⟨more, ran⟩ := each _ present
    rw [given_of_ok ran]
    simp only [bind_eq_ok] at ran
    obtain ⟨bitmap, decoded, valid, got, returned⟩ := ran
    obtain ⟨other, decodedOther, holds⟩ := marks
    obtain rfl : bitmap = other := Except.ok.inj (decoded.symm.trans decodedOther)
    obtain rfl : valid = true := (AddressBitmap.getValue_eq_ok got).1.unique holds
    cases returned
    simp

end Thread

theorem foldl_pushBack (extents : List Extent) : ∀ group : ExtentGroup,
    (extents.foldl ExtentGroup.pushBack group).extents = group.extents ++ extents := by
  induction extents with
  | nil => simp
  | cons extent rest ih =>
    intro group
    rw [List.foldl_cons, ih]
    simp [ExtentGroup.pushBack]

variable {databases : DatabasePtr → SymbolTables} {select : SymbolTables → ObjectTables Columns}
    {Columns : Type} {object thread : Entry}

theorem extentIn_eq_ok (same : object.dmDatabase = thread.dmDatabase) {found : List Extent}
    (ran : collect (rowExtents (databases object.dmDatabase) thread.dmEntry)
      (rangesOf (select (databases object.dmDatabase)) object.dmEntry) = .ok found) :
    ∃ extents, extentIn select databases object thread = .ok extents ∧ extents.extents = found := by
  refine ⟨found.foldl ExtentGroup.pushBack (ExtentGroup.new 0), ?_, foldl_pushBack found _⟩
  simp only [extentIn, same, decide_true, check_true, ok_bind]
  rw [← same, ran]
  rfl

theorem extentIn_ran {extents : ExtentGroup} (ran : extentIn select databases object thread = .ok extents) :
    object.dmDatabase = thread.dmDatabase ∧ ∃ found,
      collect (rowExtents (databases object.dmDatabase) thread.dmEntry)
        (rangesOf (select (databases object.dmDatabase)) object.dmEntry) = .ok found ∧
      extents.extents = found := by
  simp only [extentIn, bind_eq_ok, check_eq_ok, decide_eq_true_eq] at ran
  obtain ⟨_, same, found, collected, returned⟩ := ran
  cases returned
  exact ⟨same, found, collected, foldl_pushBack found _⟩

theorem usedRange_eq_ok {use : AddressSpaceRow} {range : AddressRange} {extents : List Extent}
    (ran : usedRange use range = .ok extents) : ∃ extent, extents = [extent] ∧
      ∀ address time, extent.Contains address time ↔ between time use.timeBegin use.timeEnd = true ∧
          decode use.addrBegin ≤ address ∧ range.doesContain (address - decode use.addrBegin) = true := by
  simp only [usedRange, AddressSpaceRow.interval, extentOfUse, bind_eq_ok, make_eq_ok,
    Address.add_eq_ok] at ran
  obtain ⟨_, ⟨_, rfl⟩, _, ⟨_, ⟨fitsBegin, rfl⟩, _, ⟨fitsEnd, rfl⟩, _, ⟨_, rfl⟩, made⟩, returned⟩ := ran
  cases made
  cases returned
  refine ⟨_, rfl, fun address time => ?_⟩
  rw [between_iff]
  simp only [Extent.Contains, doesContain_iff]
  apply and_congr_right
  intro _
  simp only [le_iff_toNat_le, lt_iff_toNat_lt, Address.toNat_add_of_lt fitsBegin,
    Address.toNat_add_of_lt fitsEnd]
  constructor
  · rintro ⟨above, below⟩
    have mapped : decode use.addrBegin ≤ address := by
      rw [le_iff_toNat_le]
      omega
    rw [toNat_sub_of_le mapped]
    omega
  · rintro ⟨mapped, above, below⟩
    rw [toNat_sub_of_le (le_iff_toNat_le.mpr mapped)] at above below
    omega

variable {linkedObject : Int32}

theorem mem_rangesOf {tables : ObjectTables Columns} {object : Int}
    {range : RangeRow} : (linkedObject, range) ∈ rangesOf tables object ↔
      range ∈ tables.ranges ∧ ∃ row ∈ tables.objects, row.id = range.object.toInt ∧
        row.id = object ∧ row.linkedObject = linkedObject := by
  simp only [rangesOf, mem_flatMap, mem_map, List.mem_filter, Bool.and_eq_true,
    decide_eq_true_eq, Prod.mk.injEq]
  constructor
  · rintro ⟨_, present, row, ⟨inObjects, joined, number⟩, linked, rfl⟩
    exact ⟨present, row, inObjects, joined, number, linked⟩
  · rintro ⟨present, row, inObjects, joined, number, linked⟩
    exact ⟨range, present, row, ⟨inObjects, joined, number⟩, linked, rfl⟩

theorem mem_usesOf {tables : SymbolTables} {thread : Int}
    {row : AddressSpaceRow} : row ∈ usesOf tables thread linkedObject ↔
      row ∈ tables.addressSpaces ∧ row.thread.toInt = thread ∧ row.linkedObject = linkedObject := by
  simp [usesOf]

theorem mem_rowExtents {tables : SymbolTables} {thread : Int} {range : RangeRow} {extents : List Extent}
    (ran : rowExtents tables thread (linkedObject, range) = .ok extents) (address : Address)
    (time : Time) : (∃ extent ∈ extents, extent.Contains address time) ↔
      ∃ use ∈ usesOf tables thread linkedObject, between time use.timeBegin use.timeEnd = true ∧
          decode use.addrBegin ≤ address ∧ range.Marks (address - decode use.addrBegin) := by
  simp only [rowExtents, bind_eq_ok] at ran
  obtain ⟨ranges, decoded, collected⟩ := ran
  have exact := (RangeRow.contiguous_eq_ok decoded).2
  obtain ⟨each, rfl⟩ := collect_eq_ok.mp collected
  constructor
  · rintro ⟨extent, member, contains⟩
    obtain ⟨use, present, found⟩ := mem_flatMap.mp member
    obtain ⟨more, ran⟩ := each use present
    rw [given_of_ok ran] at found
    obtain ⟨eachRange, rfl⟩ := collect_eq_ok.mp ran
    obtain ⟨part, inRanges, found⟩ := mem_flatMap.mp found
    obtain ⟨values, used⟩ := eachRange part inRanges
    rw [given_of_ok used] at found
    obtain ⟨only, rfl, covers⟩ := usedRange_eq_ok used
    obtain rfl := mem_singleton.mp found
    obtain ⟨during, above, inside⟩ := (covers address time).mp contains
    exact ⟨use, present, during, above, (exact _).mp ⟨part, inRanges, inside⟩⟩
  · rintro ⟨use, present, during, above, marks⟩
    obtain ⟨part, inRanges, inside⟩ := (exact _).mpr marks
    obtain ⟨more, ran⟩ := each use present
    obtain ⟨eachRange, same⟩ := collect_eq_ok.mp ran
    obtain ⟨values, used⟩ := eachRange part inRanges
    obtain ⟨only, rfl, covers⟩ := usedRange_eq_ok used
    refine ⟨only, mem_flatMap.mpr ⟨use, present, ?_⟩, (covers address time).mpr ⟨during, above, inside⟩⟩
    rw [given_of_ok ran, same]
    exact mem_flatMap.mpr ⟨part, inRanges, by rw [given_of_ok used]; simp⟩

theorem mem_extentIn {extents : ExtentGroup}
    (ran : extentIn select databases object thread = .ok extents) (address : Address)
    (time : Time) : (∃ extent ∈ extents.extents, extent.Contains address time) ↔
      ∃ use ∈ (databases thread.dmDatabase).addressSpaces, use.thread.toInt = thread.dmEntry ∧
        between time use.timeBegin use.timeEnd = true ∧ decode use.addrBegin ≤ address ∧
        (select (databases thread.dmDatabase)).Marks object.dmEntry use.linkedObject
          (address - decode use.addrBegin) := by
  obtain ⟨same, found, collected, rfl⟩ := extentIn_ran ran
  rw [same] at collected
  obtain ⟨each, whole⟩ := collect_eq_ok.mp collected
  rw [whole]
  constructor
  · rintro ⟨extent, member, contains⟩
    obtain ⟨⟨linkedObject, range⟩, present, found⟩ := mem_flatMap.mp member
    obtain ⟨more, ran⟩ := each _ present
    rw [given_of_ok ran] at found
    obtain ⟨use, uses, during, above, marks⟩ :=
      (mem_rowExtents ran address time).mp ⟨extent, found, contains⟩
    obtain ⟨inSpaces, ownThread, linked⟩ := mem_usesOf.mp uses
    obtain ⟨inRanges, row, inObjects, joined, number, linkedRow⟩ := mem_rangesOf.mp present
    exact ⟨use, inSpaces, ownThread, during, above, range, inRanges, row, inObjects, joined, number,
      linkedRow.trans linked.symm, marks⟩
  · rintro ⟨use, inSpaces, ownThread, during, above, range, inRanges, row, inObjects, joined, number,
      linked, marks⟩
    have present := mem_rangesOf.mpr ⟨inRanges, row, inObjects, joined, number, linked⟩
    obtain ⟨more, ran⟩ := each _ present
    obtain ⟨extent, found, contains⟩ := (mem_rowExtents ran address time).mpr
      ⟨use, mem_usesOf.mpr ⟨inSpaces, ownThread, rfl⟩, during, above, marks⟩
    exact ⟨extent, mem_flatMap.mpr ⟨_, present, by rwa [given_of_ok ran]⟩, contains⟩

def SpacesDisjoint (tables : SymbolTables) (thread : Entry) : Prop :=
  (tables.addressSpaces.filter fun row => row.thread.toInt = thread.dmEntry).Pairwise
    fun first second => ∀ address time, ¬(first.Contains address time ∧ second.Contains address time)

def Inside {Columns : Type} (tables : SymbolTables) (objects : ObjectTables Columns) (thread : Entry) : Prop :=
  ∀ range ∈ objects.ranges, ∀ row ∈ objects.objects, row.id = range.object.toInt →
    ∀ space ∈ tables.addressSpaces, space.thread.toInt = thread.dmEntry →
      space.linkedObject = row.linkedObject →
      (OffsetBinary.decode range.addrEnd).toNat ≤
        (OffsetBinary.decode space.addrEnd).toNat - (OffsetBinary.decode space.addrBegin).toNat

def Unshared {Columns : Type} (objects : ObjectTables Columns) : Prop :=
  ∀ {first second : Int} {linkedObject : Int32} {address : Address},
    objects.Marks first linkedObject address → objects.Marks second linkedObject address →
      first = second

section

variable {Columns : Type} {databases : DatabasePtr → SymbolTables} {thread : Entry}
  {address : Address} {time : Time}

theorem spacesAt_eq_singleton {tables : SymbolTables} (disjoint : SpacesDisjoint tables thread)
    {use : AddressSpaceRow} (member : use ∈ Thread.spacesAt tables thread address time) :
    Thread.spacesAt tables thread address time = [use] := by
  have part : (Thread.spacesAt tables thread address time).Sublist
      (tables.addressSpaces.filter fun row => row.thread.toInt = thread.dmEntry) := by
    have refined : Thread.spacesAt tables thread address time =
        (tables.addressSpaces.filter fun row => row.thread.toInt = thread.dmEntry).filter fun row =>
          between time row.timeBegin row.timeEnd && between address row.addrBegin row.addrEnd := by
      rw [Thread.spacesAt, List.filter_filter]
      congr 1
      funext row
      ac_rfl
    rw [refined]
    exact List.filter_sublist
  have apart := disjoint.sublist part
  have contains : ∀ row ∈ Thread.spacesAt tables thread address time, row.Contains address time :=
    fun row present => (Thread.mem_spacesAt.mp present).2.2
  cases spaces : Thread.spacesAt tables thread address time with
  | nil =>
    rw [spaces] at member
    cases member
  | cons first rest =>
    cases rest with
    | nil =>
      rw [spaces] at member
      rw [mem_singleton.mp member]
    | cons second rest =>
      rw [spaces] at apart contains
      have both := (List.pairwise_cons.mp apart).1 second (by simp)
      exact absurd ⟨contains first (by simp), contains second (by simp)⟩ (both address time)

theorem marked_iff {objects : ObjectTables Columns}
    (disjoint : SpacesDisjoint (databases thread.dmDatabase) thread)
    (inside : Inside (databases thread.dmDatabase) objects thread) {object : Int} :
    (∃ use ∈ (databases thread.dmDatabase).addressSpaces, use.thread.toInt = thread.dmEntry ∧
      between time use.timeBegin use.timeEnd = true ∧ decode use.addrBegin ≤ address ∧
      objects.Marks object use.linkedObject (address - decode use.addrBegin)) ↔
    ∃ use, Thread.spacesAt (databases thread.dmDatabase) thread address time = [use] ∧
      decode use.addrBegin ≤ address ∧
      objects.Marks object use.linkedObject (address - decode use.addrBegin) := by
  constructor
  · rintro ⟨use, present, ownThread, during, above, marks⟩
    refine ⟨use, spacesAt_eq_singleton disjoint (Thread.mem_spacesAt.mpr
      ⟨present, ownThread, during, ?_⟩), above, marks⟩
    obtain ⟨range, inRanges, row, inObjects, joined, _, linked, marked⟩ := marks
    have bound := inside range inRanges row inObjects joined use present ownThread linked.symm
    have below := (between_iff.mp marked.between).2
    rw [lt_iff_toNat_lt, toNat_sub_of_le above] at below
    refine between_iff.mpr ⟨above, ?_⟩
    rw [lt_iff_toNat_lt]
    omega
  · rintro ⟨use, spaces, above, marks⟩
    have member : use ∈ Thread.spacesAt (databases thread.dmDatabase) thread address time := by
      simp [spaces]
    obtain ⟨present, ownThread, during, _⟩ := Thread.mem_spacesAt.mp member
    exact ⟨use, present, ownThread, during, above, marks⟩

section

variable (disjoint : SpacesDisjoint (databases thread.dmDatabase) thread)
include disjoint

theorem spacesAt_cons {space : AddressSpaceRow} {rest : List AddressSpaceRow}
    (spaces : Thread.spacesAt (databases thread.dmDatabase) thread address time = space :: rest) :
    Thread.spacesAt (databases thread.dmDatabase) thread address time = [space] ∧
      decode space.addrBegin ≤ address := by
  have member : space ∈ Thread.spacesAt (databases thread.dmDatabase) thread address time := by
    rw [spaces]
    exact List.mem_cons_self
  obtain ⟨_, _, _, within⟩ := Thread.mem_spacesAt.mp member
  exact ⟨spacesAt_eq_singleton disjoint member, (between_iff.mp within).1⟩

theorem mem_getStatementsAt {statements : Finset Entry}
    (ran : Thread.getStatementsAt databases thread address time = .ok statements)
    {statement : Entry} : statement ∈ statements ↔ statement.dmDatabase = thread.dmDatabase ∧
      ∃ use, Thread.spacesAt (databases thread.dmDatabase) thread address time = [use] ∧
        decode use.addrBegin ≤ address ∧
        (databases thread.dmDatabase).statements.Marks statement.dmEntry use.linkedObject
          (address - decode use.addrBegin) := by
  unfold Thread.getStatementsAt at ran
  cases spaces : Thread.spacesAt (databases thread.dmDatabase) thread address time with
  | nil =>
    simp only [spaces] at ran
    cases ran
    simp
  | cons space rest =>
    obtain ⟨only, above⟩ := spacesAt_cons disjoint spaces
    simp only [spaces, bind_eq_ok] at ran
    obtain ⟨found, looked, returned⟩ := ran
    cases returned
    rw [← spaces, only]
    simp only [List.mem_toFinset, mem_map, Thread.mem_objectsAt looked above]
    constructor
    · rintro ⟨id, marks, rfl⟩
      exact ⟨rfl, space, rfl, above, marks⟩
    · rintro ⟨owner, use, same, _, marks⟩
      obtain rfl : space = use := by simpa using same
      exact ⟨statement.dmEntry, marks, by rw [← owner]⟩

theorem getFunctionAt_eq_some
    (unshared : Unshared (databases thread.dmDatabase).functions) {function : Option Entry}
    (ran : Thread.getFunctionAt databases thread address time = .ok function)
    {candidate : Entry} : function = some candidate ↔ candidate.dmDatabase = thread.dmDatabase ∧
      ∃ use, Thread.spacesAt (databases thread.dmDatabase) thread address time = [use] ∧
        decode use.addrBegin ≤ address ∧
        (databases thread.dmDatabase).functions.Marks candidate.dmEntry use.linkedObject
          (address - decode use.addrBegin) := by
  unfold Thread.getFunctionAt at ran
  cases spaces : Thread.spacesAt (databases thread.dmDatabase) thread address time with
  | nil =>
    simp only [spaces] at ran
    cases ran
    simp
  | cons space rest =>
    obtain ⟨only, above⟩ := spacesAt_cons disjoint spaces
    simp only [spaces, bind_eq_ok] at ran
    obtain ⟨found, looked, returned⟩ := ran
    cases returned
    have marked := Thread.mem_objectsAt looked above
    rw [← spaces, only]
    constructor
    · intro last
      obtain ⟨id, isLast, rfl⟩ := Option.map_eq_some_iff.mp last
      exact ⟨rfl, space, rfl, above, (marked id).mp (List.mem_of_getLast? isLast)⟩
    · rintro ⟨owner, use, same, _, marks⟩
      obtain rfl : space = use := by simpa using same
      have present := (marked candidate.dmEntry).mpr marks
      obtain ⟨id, isLast⟩ : ∃ id, found.getLast? = some id :=
        ⟨_, List.getLast?_eq_some_getLast (List.ne_nil_of_mem present)⟩
      have sameId := unshared ((marked id).mp (List.mem_of_getLast? isLast)) marks
      rw [isLast, Option.map_some, sameId, ← owner]

end

end

/-- The row decodes: its bounds are in order, the counter reaches its width, and
its blob is large enough. -/
structure RangeRow.Decodable (row : RangeRow) : Prop where
  ordered : OffsetBinary.decode row.addrBegin < OffsetBinary.decode row.addrEnd
  narrow : (OffsetBinary.decode row.addrEnd).toNat - (OffsetBinary.decode row.addrBegin).toNat < 2 ^ 32
  covered : (OffsetBinary.decode row.addrEnd).toNat - (OffsetBinary.decode row.addrBegin).toNat ≤
    8 * row.validBitmap.length

/-- The rows of the thread are in order, and their addresses lie within reach of a
signed difference. -/
def Reachable (tables : SymbolTables) (thread : Entry) : Prop :=
  ∀ space ∈ tables.addressSpaces, space.thread.toInt = thread.dmEntry →
    OffsetBinary.decode space.timeBegin < OffsetBinary.decode space.timeEnd ∧
      (OffsetBinary.decode space.addrEnd).toNat - (OffsetBinary.decode space.addrBegin).toNat ≤ 2 ^ 63

variable {row : RangeRow}

theorem RangeRow.Decodable.bitmap (decodable : row.Decodable) : ∃ bitmap, row.bitmap = .ok bitmap := by
  have width := @AddressRange.toNat_getWidth
    ⟨decode row.addrBegin, decode row.addrEnd⟩ decodable.ordered.le
  obtain ⟨bitmap, read⟩ := @AddressBitmap.ofBlob_total row.validBitmap
    ⟨decode row.addrBegin, decode row.addrEnd⟩
    (by rw [width]; exact decodable.narrow) (by rw [width]; exact decodable.covered)
  refine ⟨bitmap, ?_⟩
  rw [RangeRow.bitmap, make_eq_ok.mpr ⟨decodable.ordered, rfl⟩, ok_bind, read]

theorem RangeRow.Decodable.contiguous (decodable : row.Decodable) :
    ∃ ranges, row.contiguous = .ok ranges ∧ ∀ range ∈ ranges, range.dmBegin < range.dmEnd ∧
      range.dmEnd ≤ decode row.addrEnd := by
  obtain ⟨bitmap, decoded⟩ := decodable.bitmap
  obtain ⟨same, ordered, narrow⟩ := RangeRow.bitmap_eq_ok decoded
  obtain ⟨ranges, total, inside, _⟩ :=
    @AddressBitmap.getContiguousRanges_total bitmap true ordered.le (by omega)
  refine ⟨ranges, by rw [RangeRow.contiguous, decoded, ok_bind, total], fun range member => ?_⟩
  obtain ⟨_, nonempty, below⟩ := inside range member
  rw [same] at below
  exact ⟨nonempty, below⟩

theorem RangeRow.getValue_total {bitmap : AddressBitmap} {offset : Address}
    (decoded : row.bitmap = .ok bitmap) (within : between offset row.addrBegin row.addrEnd = true) :
    ∃ valid, bitmap.getValue offset = .ok valid := by
  obtain ⟨same, ordered, narrow⟩ := RangeRow.bitmap_eq_ok decoded
  have contained : bitmap.dmRange.doesContain offset = true := by
    rw [same, doesContain_iff]
    exact between_iff.mp within
  have index := AddressBitmap.index_lt contained
  have above := ((doesContain_iff _ _).mp contained).1
  rw [toNat_sub_of_le above] at index
  obtain ⟨valid, got, _⟩ := AddressBitmap.getValue_total contained (by omega)
  exact ⟨valid, got⟩

variable {objects : ObjectTables Columns}

theorem objectsAt_total (decodable : ∀ range ∈ objects.ranges, range.Decodable) {space : AddressSpaceRow}
    {address : Address} (above : decode space.addrBegin ≤ address)
    (near : address.toNat - (decode space.addrBegin).toNat < 2 ^ 63) :
    ∃ found, Thread.objectsAt objects space address = .ok found := by
  have offset : (address - decode space.addrBegin).toInt64.toUInt64 =
      address - decode space.addrBegin := rfl
  simp only [Thread.objectsAt, Address.sub_of_le above near, ok_bind, offset]
  refine ⟨_, collect_total ?_⟩
  rintro ⟨id, range⟩ present
  obtain ⟨inRanges, within, _⟩ := Thread.mem_rangesAt.mp present
  obtain ⟨bitmap, decoded⟩ := (decodable range inRanges).bitmap
  obtain ⟨valid, got⟩ := RangeRow.getValue_total decoded within
  exact ⟨_, by simp only [decoded, ok_bind, got]; rfl⟩

theorem extentIn_total (same : object.dmDatabase = thread.dmDatabase)
    (decodable : ∀ range ∈ (select (databases thread.dmDatabase)).ranges, range.Decodable)
    (reachable : Reachable (databases thread.dmDatabase) thread)
    (inside : Inside (databases thread.dmDatabase) (select (databases thread.dmDatabase)) thread) :
    ∃ extents, extentIn select databases object thread = .ok extents := by
  have rows : ∀ row ∈ rangesOf (select (databases object.dmDatabase)) object.dmEntry,
      ∃ more, rowExtents (databases object.dmDatabase) thread.dmEntry row = .ok more := by
    rintro ⟨linkedObject, range⟩ present
    rw [same] at present ⊢
    obtain ⟨inRanges, row, inObjects, joined, _, linked⟩ := mem_rangesOf.mp present
    obtain ⟨ranges, decoded, bounds⟩ := (decodable range inRanges).contiguous
    simp only [rowExtents, decoded, ok_bind]
    refine ⟨_, collect_total fun use uses => ?_⟩
    obtain ⟨inSpaces, ownThread, ownObject⟩ := mem_usesOf.mp uses
    have times := (reachable use inSpaces ownThread).1
    have mapped := inside range inRanges row inObjects joined use inSpaces ownThread
      (ownObject.trans linked.symm)
    refine ⟨_, collect_total fun part inPart => ?_⟩
    obtain ⟨nonempty, below⟩ := bounds part inPart
    have bound := UInt64.toNat_lt (decode use.addrEnd)
    rw [lt_iff_toNat_lt] at nonempty
    rw [le_iff_toNat_le] at below
    have first := Address.add_eq_ok.mpr
      ⟨show (decode use.addrBegin).toNat + part.dmBegin.toNat < 2 ^ 64 by omega, rfl⟩
    have last := Address.add_eq_ok.mpr
      ⟨show (decode use.addrBegin).toNat + part.dmEnd.toNat < 2 ^ 64 by omega, rfl⟩
    have ordered : decode use.addrBegin + part.dmBegin <
        decode use.addrBegin + part.dmEnd := by
      rw [lt_iff_toNat_lt, Address.toNat_add_of_lt (by omega), Address.toNat_add_of_lt (by omega)]
      omega
    have interval := make_eq_ok.mpr ⟨times, rfl⟩
    have range := make_eq_ok.mpr ⟨ordered, rfl⟩
    exact ⟨_, by simp only [usedRange, AddressSpaceRow.interval, interval, extentOfUse, first, last,
      range, ok_bind]; rfl⟩
  obtain ⟨extents, ran, _⟩ := extentIn_eq_ok same (collect_total rows)
  exact ⟨extents, ran⟩

variable {thread : Entry}

theorem lookup_total {tables : SymbolTables} (decodable : ∀ range ∈ objects.ranges, range.Decodable)
    (reachable : Reachable tables thread) {address : Address} {time : Time}
    {space : AddressSpaceRow} (member : space ∈ Thread.spacesAt tables thread address time) :
    ∃ found, Thread.objectsAt objects space address = .ok found := by
  obtain ⟨present, ownThread, _, within⟩ := Thread.mem_spacesAt.mp member
  obtain ⟨above, below⟩ := between_iff.mp within
  have near := (reachable space present ownThread).2
  rw [lt_iff_toNat_lt] at below
  rw [le_iff_toNat_le] at above
  exact objectsAt_total decodable (le_iff_toNat_le.mpr above) (by omega)

structure Readable (tables : SymbolTables) (thread : Entry) : Prop where
  reachable : Reachable tables thread
  functions : ∀ range ∈ tables.functions.ranges, range.Decodable
  statements : ∀ range ∈ tables.statements.ranges, range.Decodable

section

variable (readable : Readable (databases thread.dmDatabase) thread) {address : Address}
  {time : Time}
include readable

theorem getStatementsAt_total :
    ∃ answer, Thread.getStatementsAt databases thread address time = .ok answer := by
  unfold Thread.getStatementsAt
  dsimp only
  cases spaces : Thread.spacesAt (databases thread.dmDatabase) thread address time with
  | nil => exact ⟨_, rfl⟩
  | cons space rest =>
    obtain ⟨found, looked⟩ := @lookup_total _ (databases thread.dmDatabase).statements _ _
      readable.statements readable.reachable address time space (by simp [spaces])
    exact ⟨_, by simp only [looked, ok_bind]; rfl⟩

theorem getFunctionAt_total : ∃ answer, Thread.getFunctionAt databases thread address time = .ok answer := by
  unfold Thread.getFunctionAt
  dsimp only
  cases spaces : Thread.spacesAt (databases thread.dmDatabase) thread address time with
  | nil => exact ⟨_, rfl⟩
  | cons space rest =>
    obtain ⟨found, looked⟩ := @lookup_total _ (databases thread.dmDatabase).functions _ _
      readable.functions readable.reachable address time space (by simp [spaces])
    exact ⟨_, by simp only [looked, ok_bind]; rfl⟩

end

/-- A statement is found at an address and a time exactly when one of its extents contains them, and so is
a function when those of an object share no address; on rows that can be read the lookups return. -/
theorem lookups_agree {databases : DatabasePtr → SymbolTables} {thread : Entry}
    (disjoint : SpacesDisjoint (databases thread.dmDatabase) thread)
    (insideFunctions : Inside (databases thread.dmDatabase) (databases thread.dmDatabase).functions thread)
    (insideStatements : Inside (databases thread.dmDatabase) (databases thread.dmDatabase).statements thread)
    (unshared : Unshared (databases thread.dmDatabase).functions) :
    (∀ address time statement statements extents,
      Thread.getStatementsAt databases thread address time = .ok statements →
      Statement.getExtentIn databases statement thread = .ok extents →
      (statement ∈ statements ↔ ∃ extent ∈ extents.extents, extent.Contains address time)) ∧
    (∀ address time function found extents,
      Thread.getFunctionAt databases thread address time = .ok found →
      Function.getExtentIn databases function thread = .ok extents →
      (found = some function ↔ ∃ extent ∈ extents.extents, extent.Contains address time)) ∧
    (Readable (databases thread.dmDatabase) thread →
      (∀ address time, (∃ statements, Thread.getStatementsAt databases thread address time = .ok statements) ∧
        ∃ found, Thread.getFunctionAt databases thread address time = .ok found) ∧
      ∀ symbol : Entry, symbol.dmDatabase = thread.dmDatabase →
        (∃ extents, Statement.getExtentIn databases symbol thread = .ok extents) ∧
        ∃ extents, Function.getExtentIn databases symbol thread = .ok extents) := by
  refine ⟨?_, ?_, fun readable => ⟨fun address time => ⟨?_, ?_⟩, fun symbol owner => ⟨?_, ?_⟩⟩⟩
  · intro address time statement statements extents found expanded
    rw [mem_getStatementsAt disjoint found, mem_extentIn expanded, marked_iff disjoint insideStatements]
    exact and_iff_right (extentIn_ran expanded).1
  · intro address time function answer extents found expanded
    rw [getFunctionAt_eq_some disjoint unshared found, mem_extentIn expanded,
      marked_iff disjoint insideFunctions]
    exact and_iff_right (extentIn_ran expanded).1
  · exact getStatementsAt_total readable
  · exact getFunctionAt_total readable
  · exact extentIn_total owner readable.statements readable.reachable insideStatements
  · exact extentIn_total owner readable.functions readable.reachable insideFunctions

def rangeRow (object : Int32) (dmBegin dmEnd : Address) (validBitmap : List UInt8) : RangeRow :=
  ⟨object, OffsetBinary.encode dmBegin, OffsetBinary.encode dmEnd, validBitmap⟩

/-- Linked object 1 is mapped at `[4096, 4112)` in thread 1; statement 1 is on its
even addresses. -/
def sampleTables (functions : ObjectTables String) : SymbolTables where
  addressSpaces := [⟨1, OffsetBinary.encode 0, OffsetBinary.encode 100, OffsetBinary.encode 4096,
    OffsetBinary.encode 4112, 1⟩]
  functions := functions
  loops := ⟨[], []⟩
  files := []
  statements := ⟨[⟨1, 1, 1, 7, 0⟩], [rangeRow 1 0 15 [0x55, 0x55]]⟩

def oneFunction : ObjectTables String := ⟨[⟨1, 1, "main"⟩], [rangeRow 1 0 16 [0xff, 0xff]]⟩

def overlappingFunctions : ObjectTables String :=
  ⟨[⟨1, 1, "outer"⟩, ⟨2, 1, "inner"⟩], [rangeRow 1 0 16 [0xff, 0xff], rangeRow 2 8 16 [0xff]]⟩

def sampleThread : Entry := ⟨1, 1⟩

theorem sample_disjoint (functions : ObjectTables String) :
    SpacesDisjoint (sampleTables functions) sampleThread := by
  have one : ((sampleTables functions).addressSpaces.filter fun row =>
      row.thread.toInt = sampleThread.dmEntry) = (sampleTables functions).addressSpaces := rfl
  rw [SpacesDisjoint, one]
  exact List.pairwise_singleton _ _

theorem sample_inside (functions : ObjectTables String)
    (short : ∀ range ∈ objects.ranges, (decode range.addrEnd).toNat ≤ 16) :
    Inside (sampleTables functions) objects sampleThread := by
  intro range inRanges row _ _ space inSpaces _ _
  obtain rfl := mem_singleton.mp inSpaces
  exact short range inRanges

theorem sample_statements_inside (functions : ObjectTables String) :
    Inside (sampleTables functions) (sampleTables functions).statements sampleThread :=
  sample_inside functions fun range member => by
    obtain rfl := mem_singleton.mp member
    decide

theorem oneFunction_unshared : Unshared oneFunction := by
  intro first second _ _ marksFirst marksSecond
  obtain ⟨_, _, row, inObjects, _, sameFirst, _⟩ := marksFirst
  obtain ⟨_, _, other, otherInObjects, _, sameSecond, _⟩ := marksSecond
  obtain rfl := mem_singleton.mp inObjects
  obtain rfl := mem_singleton.mp otherInObjects
  exact sameFirst.symm.trans sameSecond

theorem sample_readable : Readable (sampleTables oneFunction) sampleThread where
  reachable space inSpaces _ := by
    obtain rfl := mem_singleton.mp inSpaces
    decide
  functions range inRanges := by
    obtain rfl := mem_singleton.mp inRanges
    exact ⟨by decide, by decide, by decide⟩
  statements range inRanges := by
    obtain rfl := mem_singleton.mp inRanges
    exact ⟨by decide, by decide, by decide⟩

theorem lookups_agree_oneFunction :
    ∃ statements extents found functionExtents,
      Thread.getStatementsAt (fun _ => sampleTables oneFunction) sampleThread 4100 5 = .ok statements ∧
      Statement.getExtentIn (fun _ => sampleTables oneFunction) ⟨1, 1⟩ sampleThread = .ok extents ∧
      ((⟨1, 1⟩ : Entry) ∈ statements ↔ ∃ extent ∈ extents.extents, extent.Contains 4100 5) ∧
      Thread.getFunctionAt (fun _ => sampleTables oneFunction) sampleThread 4100 5 = .ok found ∧
      Function.getExtentIn (fun _ => sampleTables oneFunction) ⟨1, 1⟩ sampleThread = .ok functionExtents ∧
      (found = some ⟨1, 1⟩ ↔ ∃ extent ∈ functionExtents.extents, extent.Contains 4100 5) := by
  obtain ⟨statementsAgree, functionsAgree, total⟩ :=
    @lookups_agree (fun _ => sampleTables oneFunction) sampleThread (sample_disjoint _)
      (sample_inside _ fun range member => by
        obtain rfl := List.mem_singleton.mp member
        decide)
      (sample_statements_inside _) oneFunction_unshared
  obtain ⟨lookups, expansions⟩ := total sample_readable
  obtain ⟨⟨statements, looked⟩, found, lookedFunction⟩ := lookups 4100 5
  obtain ⟨⟨extents, expanded⟩, functionExtents, expandedFunction⟩ := expansions ⟨1, 1⟩ rfl
  exact ⟨statements, extents, found, functionExtents, looked, expanded,
    statementsAgree _ _ _ _ _ looked expanded, lookedFunction, expandedFunction,
    functionsAgree _ _ _ _ _ lookedFunction expandedFunction⟩

theorem overlapping_function_missed :
    SpacesDisjoint (sampleTables overlappingFunctions) sampleThread ∧
    Inside (sampleTables overlappingFunctions) overlappingFunctions sampleThread ∧
    ∃ found extents, Thread.getFunctionAt (fun _ => sampleTables overlappingFunctions)
        sampleThread 4108 5 = .ok found ∧
      Function.getExtentIn (fun _ => sampleTables overlappingFunctions) ⟨1, 1⟩ sampleThread = .ok extents ∧
      found ≠ some ⟨1, 1⟩ ∧ ∃ extent ∈ extents.extents, extent.Contains 4108 5 := by
  have looked : (Thread.getFunctionAt (fun _ => sampleTables overlappingFunctions)
      sampleThread 4108 5).toOption = some (some ⟨1, 2⟩) := by decide +kernel
  have expanded : ((Function.getExtentIn (fun _ => sampleTables overlappingFunctions) ⟨1, 1⟩
      sampleThread).toOption.map ExtentGroup.extents) =
      some [⟨⟨0, 100⟩, ⟨4096, 4112⟩⟩] := by decide +kernel
  refine ⟨sample_disjoint _, sample_inside _ fun range member => ?_, ?_⟩
  · rcases List.mem_cons.mp member with rfl | later
    · decide
    · obtain rfl := List.mem_singleton.mp later
      decide
  · obtain ⟨extents, ran, only⟩ := Option.map_eq_some_iff.mp expanded
    refine ⟨_, extents, toOption_eq_some.mp looked, toOption_eq_some.mp ran, ?_, ?_⟩
    · decide
    · rw [only]
      exact ⟨_, List.mem_singleton_self _, by decide, by decide⟩

end OpenSpeedShop
